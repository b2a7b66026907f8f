import JustCommon.Basic
import JustCommon.Delimited
import Mathlib.Data.Vector.Defs

/-!
# The machine id

The environment names the machine by the hardware addresses of its network
interfaces, four of them at most. The loop of the constructor does not
count: it looks at the length of the text it has put together, and since
every address is 17 bytes long, and a separator goes before each but the
first, that length reaches 71 with the fourth one. `collect_eq` is the loop
with the addresses it has taken so far.
-/

namespace JustCommon

/-- `framework::network::Interface`, what the constructor reads of it. -/
structure Interface where
  name : Bytes
  hwaddr : Vector UInt8 6
deriving DecidableEq

def colon : UInt8 := 58

/-- The text for an address that has none. -/
def noAddress : Bytes := ascii "00:00:00:00:00:00"

/-- The id of a machine without an address. -/
def fallbackMid : Bytes := ascii "aa:bb:cc:dd:ee:gg"

structure Environment where
  version : Nat × Nat × Nat
  hid : Bytes
  aid : Bytes
  mid : Bytes

/-- `get_bid()` -/
def Environment.getBid (env : Environment) : Bytes := ascii "####" ++ env.mid ++ ascii "##"

section Constructor

-- `hard_addr_string(sep, flag)` of the framework's interfaces
variable (hardAddrString : Interface → UInt8 → Bool → Bytes)

/-- The loop over the interfaces, with the `mac` it starts from. -/
def collect (mac : Bytes) : List Interface → Bytes
  | [] => mac
  | inf :: infs =>
      if inf.name = ascii "lo" ∨ hardAddrString inf colon false = noAddress then
        collect mac infs
      else if inf.hwaddr = Vector.replicate 6 0 then collect mac infs
      else
        let mac := if mac.length ≠ 0 then mac ++ [bar] else mac
        let mac := mac ++ hardAddrString inf colon false
        if 71 ≤ mac.length then mac else collect mac infs

/-- `Environment::Environment()`, with what `enum_interface(infs)` returns and
leaves in `infs`. -/
def Environment.construct (ec : ErrorCode) (infs : List Interface) : Environment :=
  let mac := if ec.failed then [] else collect hardAddrString [] infs
  let mac := if mac = [] then fallbackMid else mac
  { version := (0, 5, 2), hid := [], aid := [], mid := mac }

/-! ## The loop -/

/-- Not the loopback, and with an address, by its text and by its bytes. -/
def Eligible (inf : Interface) : Prop :=
  inf.name ≠ ascii "lo" ∧ hardAddrString inf colon false ≠ noAddress
    ∧ inf.hwaddr ≠ Vector.replicate 6 0

instance : DecidablePred (Eligible hardAddrString) := fun _ =>
  inferInstanceAs (Decidable (_ ∧ _ ∧ _))

/-- The addresses of the eligible interfaces, in order. -/
def addresses (infs : List Interface) : List Bytes :=
  (infs.filter (Eligible hardAddrString ·)).map (hardAddrString · colon false)

variable {hardAddrString}

theorem addresses_cons_of_not {inf : Interface} (h : ¬Eligible hardAddrString inf)
    (infs : List Interface) :
    addresses hardAddrString (inf :: infs) = addresses hardAddrString infs := by
  rw [addresses, List.filter_cons_of_neg (by simpa using h), addresses]

theorem addresses_cons {inf : Interface} (h : Eligible hardAddrString inf)
    (infs : List Interface) : addresses hardAddrString (inf :: infs)
      = hardAddrString inf colon false :: addresses hardAddrString infs := by
  rw [addresses, List.filter_cons_of_pos (by simpa using h), List.map_cons, addresses]

theorem collect_cons_of_not {inf : Interface} (h : ¬Eligible hardAddrString inf)
    (mac : Bytes) (infs : List Interface) :
    collect hardAddrString mac (inf :: infs) = collect hardAddrString mac infs := by
  unfold Eligible at h
  rw [collect]
  split
  · rfl
  · rename_i hname
    rw [not_or] at hname
    rw [if_pos]
    by_contra hbytes
    exact h ⟨hname.1, hname.2, hbytes⟩

/-- An eligible interface is taken, and it is the last one if `mac` is then
full. -/
theorem collect_cons {inf : Interface} (h : Eligible hardAddrString inf) (taken : List Bytes)
    (hpos : ∀ text ∈ taken, text ≠ []) (infs : List Interface) :
    collect hardAddrString (Delimited.join bar taken) (inf :: infs)
      = if 71 ≤ (Delimited.join bar (taken ++ [hardAddrString inf colon false])).length
        then Delimited.join bar (taken ++ [hardAddrString inf colon false])
        else collect hardAddrString
          (Delimited.join bar (taken ++ [hardAddrString inf colon false])) infs := by
  have hjoin : (if (Delimited.join bar taken).length ≠ 0 then Delimited.join bar taken ++ [bar]
      else Delimited.join bar taken) ++ hardAddrString inf colon false
        = Delimited.join bar (taken ++ [hardAddrString inf colon false]) := by
    cases taken with
    | nil => rfl
    | cons text taken =>
        have hne : (Delimited.join bar (text :: taken)).length ≠ 0 := by
          intro hzero
          have hhead : (Delimited.join bar (text :: taken)).head? = text.head? :=
            Delimited.head?_join (hpos text List.mem_cons_self) taken
          rw [List.length_eq_zero_iff.mp hzero, List.head?_nil] at hhead
          exact hpos text List.mem_cons_self (List.head?_eq_none_iff.mp hhead.symm)
        rw [if_pos hne, Delimited.join_append_singleton (List.cons_ne_nil text taken),
          List.append_assoc, List.singleton_append]
  rw [collect, if_neg (not_or.mpr ⟨h.1, h.2.1⟩), if_neg h.2.2]
  dsimp only
  rw [hjoin]

/-! ## Addresses in text -/

def HexDigit (c : UInt8) : Prop :=
  (48 ≤ c ∧ c ≤ 57) ∨ (65 ≤ c ∧ c ≤ 70) ∨ (97 ≤ c ∧ c ≤ 102)

/-- The usual text of a hardware address: six pairs of hex digits, with `':'`
between them. -/
def HexPairs (text : Bytes) : Prop :=
  ∃ pairs : List Bytes, text = Delimited.join colon pairs ∧ pairs.length = 6
    ∧ ∀ pair ∈ pairs, pair.length = 2 ∧ ∀ c ∈ pair, HexDigit c

theorem HexPairs.length {text : Bytes} (h : HexPairs text) : text.length = 17 := by
  obtain ⟨pairs, rfl, hsix, hpairs⟩ := h
  have hne : pairs ≠ [] := by
    rintro rfl
    cases hsix
  have hlen : (Delimited.join colon pairs).length + 1 = pairs.length * (2 + 1) :=
    Delimited.length_join_of_length hne fun pair hpair => (hpairs pair hpair).1
  omega

theorem HexPairs.mem {text : Bytes} (h : HexPairs text) {c : UInt8} (hc : c ∈ text) :
    c = colon ∨ HexDigit c := by
  obtain ⟨pairs, rfl, -, hpairs⟩ := h
  exact (Delimited.mem_join hc).imp_right fun ⟨pair, hpair, hmem⟩ => (hpairs pair hpair).2 c hmem

theorem HexPairs.ne_nil {text : Bytes} (h : HexPairs text) : text ≠ [] := by
  rintro rfl
  have hlen := h.length
  cases hlen

theorem HexPairs.bar_not_mem {text : Bytes} (h : HexPairs text) : bar ∉ text := by
  intro hmem
  rcases h.mem hmem with hcolon | hdigit
  · exact absurd hcolon (by decide)
  · exact absurd hdigit (by unfold HexDigit; decide)

/-! ## The id -/

theorem length_join_addresses {texts : List Bytes} (hne : texts ≠ [])
    (htexts : ∀ text ∈ texts, HexPairs text) :
    (Delimited.join bar texts).length = 18 * texts.length - 1 := by
  have hlen : (Delimited.join bar texts).length + 1 = texts.length * (17 + 1) :=
    Delimited.length_join_of_length hne fun text htext => (htexts text htext).length
  omega

/-- The loop stops with the fourth address. -/
theorem collect_eq {infs : List Interface}
    (htext : ∀ inf ∈ infs, HexPairs (hardAddrString inf colon false)) {taken : List Bytes}
    (htaken : ∀ text ∈ taken, HexPairs text) (hlt : taken.length < 4) :
    collect hardAddrString (Delimited.join bar taken) infs
      = Delimited.join bar
        (taken ++ (addresses hardAddrString infs).take (4 - taken.length)) := by
  induction infs generalizing taken with
  | nil => simp [collect, addresses]
  | cons inf infs ih =>
      have hrest : ∀ inf ∈ infs, HexPairs (hardAddrString inf colon false) :=
        fun inf' hinf' => htext inf' (List.mem_cons_of_mem inf hinf')
      by_cases helig : Eligible hardAddrString inf
      · have hmore : ∀ text ∈ taken ++ [hardAddrString inf colon false], HexPairs text := by
          intro text hmem
          rcases List.mem_append.mp hmem with hold | hnew
          · exact htaken text hold
          · rw [List.mem_singleton.mp hnew]
            exact htext inf List.mem_cons_self
        have hlen := length_join_addresses (by simp) hmore
        rw [List.length_append, List.length_singleton] at hlen
        have htake : 4 - taken.length = (4 - (taken.length + 1)) + 1 := by omega
        rw [collect_cons helig taken fun text hmem => (htaken text hmem).ne_nil,
          addresses_cons helig, htake, List.take_succ_cons]
        by_cases hthree : taken.length = 3
        · -- the fourth address: 71 bytes
          rw [if_pos (by omega), hthree]
          rfl
        · rw [if_neg (by omega), ih hrest hmore (by simp; omega), List.length_append,
            List.length_singleton, List.append_assoc, List.singleton_append]
      · rw [collect_cons_of_not helig, addresses_cons_of_not helig]
        exact ih hrest htaken hlt

/-- From its start it takes the first four. -/
theorem collect_nil_eq {infs : List Interface}
    (htext : ∀ inf ∈ infs, HexPairs (hardAddrString inf colon false)) :
    collect hardAddrString [] infs
      = Delimited.join bar ((addresses hardAddrString infs).take 4) :=
  @collect_eq hardAddrString infs htext [] (fun _ hmem => absurd hmem List.not_mem_nil)
    (by decide)

/-- What the id of a machine says, with the addresses of its interfaces in
order. -/
structure MachineId (failed : Bool) (addrs : List Bytes) (mid : Bytes) : Prop where
  joined : failed = false → addrs ≠ [] → mid = Delimited.join bar (addrs.take 4)
  length : failed = false → addrs ≠ [] → mid.length = 18 * min 4 addrs.length - 1
  bounded : mid.length ≤ 71
  first : mid.head? ≠ some bar
  last : mid.getLast? ≠ some bar
  fallback : mid = fallbackMid ↔ failed = true ∨ addrs = []

theorem machineId_fallback {failed : Bool} {addrs : List Bytes}
    (h : failed = true ∨ addrs = []) : MachineId failed addrs fallbackMid where
  joined hfalse hne := absurd h (by simp [hfalse, hne])
  length hfalse hne := absurd h (by simp [hfalse, hne])
  bounded := by decide
  first := by decide
  last := by decide
  fallback := iff_of_true rfl h

/-- No address has the `'g'` of the fallback. -/
theorem join_ne_fallback {texts : List Bytes} (htexts : ∀ text ∈ texts, HexPairs text) :
    Delimited.join bar texts ≠ fallbackMid := by
  intro heq
  have hmem : (103 : UInt8) ∈ Delimited.join bar texts := by
    rw [heq]
    decide
  rcases Delimited.mem_join hmem with hbar | ⟨text, htext, hc⟩
  · exact absurd hbar (by decide)
  · rcases (htexts text htext).mem hc with hcolon | hdigit
    · exact absurd hcolon (by decide)
    · exact absurd hdigit (by unfold HexDigit; decide)

theorem machineId_joined {addrs : List Bytes} (hne : addrs ≠ [])
    (haddrs : ∀ text ∈ addrs, HexPairs text) :
    MachineId false addrs (Delimited.join bar (addrs.take 4)) := by
  have htake : addrs.take 4 ≠ [] := by
    simp [hne]
  have hfour : ∀ text ∈ addrs.take 4, HexPairs text :=
    fun text hmem => haddrs text (List.mem_of_mem_take hmem)
  have hlen := length_join_addresses htake hfour
  rw [List.length_take] at hlen
  refine ⟨fun _ _ => rfl, fun _ _ => hlen, by omega, ?_, ?_, ?_⟩
  · cases hlist : addrs.take 4 with
    | nil => exact absurd hlist htake
    | cons text texts =>
        have htext := hfour text (by rw [hlist]; exact List.mem_cons_self)
        rw [Delimited.head?_join htext.ne_nil]
        exact fun h => htext.bar_not_mem (List.mem_of_mem_head? h)
  · obtain ⟨texts, text, hlist⟩ : ∃ texts text, addrs.take 4 = texts ++ [text] :=
      ⟨_, _, (List.dropLast_append_getLast htake).symm⟩
    have htext := hfour text (by rw [hlist]; exact List.mem_append_right _ List.mem_cons_self)
    rw [hlist, Delimited.getLast?_join htext.ne_nil]
    exact fun h => htext.bar_not_mem (List.mem_of_getLast? h)
  · exact iff_of_false (join_ne_fallback hfour) (by simp [hne])

/-- **The machine id is made of the first four addresses.** -/
theorem construct_machineId (ec : ErrorCode) {infs : List Interface}
    (htext : ∀ inf ∈ infs, HexPairs (hardAddrString inf colon false)) :
    MachineId ec.failed (addresses hardAddrString infs)
      (Environment.construct hardAddrString ec infs).mid := by
  have haddrs : ∀ text ∈ addresses hardAddrString infs, HexPairs text := by
    intro text hmem
    obtain ⟨inf, hinf, rfl⟩ := List.mem_map.mp hmem
    exact htext inf (List.mem_of_mem_filter hinf)
  unfold Environment.construct
  cases hfailed : ec.failed with
  | true => exact machineId_fallback (Or.inl rfl)
  | false =>
      dsimp only
      rw [if_neg Bool.false_ne_true, collect_nil_eq htext]
      by_cases hnone : addresses hardAddrString infs = []
      · rw [hnone]
        exact machineId_fallback (Or.inr rfl)
      · have hid := machineId_joined hnone haddrs
        have hne : Delimited.join bar ((addresses hardAddrString infs).take 4) ≠ [] := by
          intro hnil
          have hlen := hid.length rfl hnone
          have hpos : 0 < (addresses hardAddrString infs).length :=
            List.length_pos_iff.mpr hnone
          rw [hnil, List.length_nil] at hlen
          omega
        rw [if_neg hne]
        exact hid

/-! ## Telling machines apart -/

/-- The interfaces a machine is known by: the first four eligible ones. -/
def identifying (hardAddrString : Interface → UInt8 → Bool → Bytes) (ec : ErrorCode)
    (infs : List Interface) : List Interface :=
  if ec.failed then [] else (infs.filter (Eligible hardAddrString ·)).take 4

theorem mem_identifying {ec : ErrorCode} {infs : List Interface} {inf : Interface}
    (h : inf ∈ identifying hardAddrString ec infs) : inf ∈ infs := by
  unfold identifying at h
  split at h
  · cases h
  · exact List.mem_of_mem_filter (List.mem_of_mem_take h)

/-- The id is the texts of these, or the fallback if there is none. -/
theorem construct_mid (ec : ErrorCode) {infs : List Interface}
    (htext : ∀ inf ∈ infs, HexPairs (hardAddrString inf colon false)) :
    (Environment.construct hardAddrString ec infs).mid
      = if identifying hardAddrString ec infs = [] then fallbackMid
        else Delimited.join bar
          ((identifying hardAddrString ec infs).map (hardAddrString · colon false)) := by
  have htexts : (addresses hardAddrString infs).take 4
      = ((infs.filter (Eligible hardAddrString ·)).take 4).map (hardAddrString · colon false) := by
    rw [addresses, List.map_take]
  unfold Environment.construct identifying
  cases hfailed : ec.failed with
  | true => rfl
  | false =>
      dsimp only
      rw [if_neg Bool.false_ne_true, if_neg Bool.false_ne_true, collect_nil_eq htext, htexts]
      by_cases hnone : (infs.filter (Eligible hardAddrString ·)).take 4 = []
      · rw [hnone]
        rfl
      · have hpairs : ∀ text ∈ ((infs.filter (Eligible hardAddrString ·)).take 4).map
            (hardAddrString · colon false), HexPairs text := by
          intro text hmem
          obtain ⟨inf, hinf, rfl⟩ := List.mem_map.mp hmem
          exact htext inf (List.mem_of_mem_filter (List.mem_of_mem_take hinf))
        have hlen := length_join_addresses (by simpa using hnone) hpairs
        rw [if_neg hnone, if_neg]
        intro hnil
        have hpos := List.length_pos_iff.mpr hnone
        rw [hnil, List.length_nil, List.length_map] at hlen
        omega

/-- Lists with the same texts have the same addresses, and the other way round. -/
theorem map_hardAddrString_eq {infs infs' : List Interface}
    (haddr : ∀ inf ∈ infs, ∀ inf' ∈ infs',
      hardAddrString inf colon false = hardAddrString inf' colon false
        ↔ inf.hwaddr = inf'.hwaddr) :
    infs.map (hardAddrString · colon false) = infs'.map (hardAddrString · colon false)
      ↔ infs.map (·.hwaddr) = infs'.map (·.hwaddr) := by
  induction infs generalizing infs' with
  | nil => simp [eq_comm (a := ([] : List _))]
  | cons inf infs ih =>
      cases infs' with
      | nil => simp
      | cons inf' infs' =>
          rw [List.map_cons, List.map_cons, List.map_cons, List.map_cons, List.cons.injEq,
            List.cons.injEq, haddr inf List.mem_cons_self inf' List.mem_cons_self,
            ih fun i hi i' hi' =>
              haddr i (List.mem_cons_of_mem inf hi) i' (List.mem_cons_of_mem inf' hi')]

/-- **Equal ids mean equal addresses.** Two machines have the same `get_bid` exactly
if the addresses of their first four eligible interfaces are the same, in
order; a machine without one shares it only with the others without. -/
theorem getBid_eq_iff (ec ec' : ErrorCode) {infs infs' : List Interface}
    (htext : ∀ inf ∈ infs, HexPairs (hardAddrString inf colon false))
    (htext' : ∀ inf ∈ infs', HexPairs (hardAddrString inf colon false))
    (haddr : ∀ inf ∈ infs, ∀ inf' ∈ infs',
      hardAddrString inf colon false = hardAddrString inf' colon false
        ↔ inf.hwaddr = inf'.hwaddr) :
    (Environment.construct hardAddrString ec infs).getBid
        = (Environment.construct hardAddrString ec' infs').getBid
      ↔ (identifying hardAddrString ec infs).map (·.hwaddr)
        = (identifying hardAddrString ec' infs').map (·.hwaddr) := by
  have hbid : ∀ env env' : Environment, env.getBid = env'.getBid ↔ env.mid = env'.mid := by
    intro env env'
    rw [Environment.getBid, Environment.getBid, List.append_left_inj, List.append_right_inj]
  have hpairs : ∀ (ec : ErrorCode) (infs : List Interface),
      (∀ inf ∈ infs, HexPairs (hardAddrString inf colon false)) →
      ∀ text ∈ (identifying hardAddrString ec infs).map (hardAddrString · colon false),
        HexPairs text := by
    intro ec infs htext text hmem
    obtain ⟨inf, hinf, rfl⟩ := List.mem_map.mp hmem
    exact htext inf (mem_identifying hinf)
  rw [hbid, construct_mid ec htext, construct_mid ec' htext',
    ← map_hardAddrString_eq fun inf hinf inf' hinf' =>
      haddr inf (mem_identifying hinf) inf' (mem_identifying hinf')]
  split
  · rename_i hnone
    split
    · rename_i hnone'
      rw [hnone, hnone']
      exact iff_of_true rfl rfl
    · rename_i hsome'
      refine iff_of_false (join_ne_fallback (hpairs ec' infs' htext')).symm ?_
      rw [hnone, List.map_nil]
      exact fun heq => hsome' (List.map_eq_nil_iff.mp heq.symm)
  · rename_i hsome
    split
    · rename_i hnone'
      refine iff_of_false (join_ne_fallback (hpairs ec infs htext)) ?_
      rw [hnone', List.map_nil]
      exact fun heq => hsome (List.map_eq_nil_iff.mp heq)
    · rename_i hsome'
      refine ⟨fun heq => ?_, fun heq => by rw [heq]⟩
      -- the id can be split where the addresses were joined
      have hsplit := congrArg (List.splitOn bar) heq
      rwa [Delimited.splitOn_join_of_free (by simpa using hsome)
          fun text hmem => (hpairs ec infs htext text hmem).bar_not_mem,
        Delimited.splitOn_join_of_free (by simpa using hsome')
          fun text hmem => (hpairs ec' infs' htext' text hmem).bar_not_mem] at hsplit

end Constructor

/-! ## An interface to try it on -/

def lowerHex (n : Nat) : UInt8 := if n < 10 then .ofNat (48 + n) else .ofNat (87 + n)

/-- The address in lower case. -/
def lowerAddress (inf : Interface) (sep : UInt8) (_ : Bool) : Bytes :=
  Delimited.join sep (inf.hwaddr.toList.map fun b =>
    [lowerHex (b.toNat / 16), lowerHex (b.toNat % 16)])

theorem hexDigit_lowerHex : ∀ n < 16, HexDigit (lowerHex n) := by
  unfold HexDigit
  decide

theorem hexPairs_lowerAddress (inf : Interface) (flag : Bool) :
    HexPairs (lowerAddress inf colon flag) := by
  refine ⟨_, rfl, by simp, fun pair hpair => ?_⟩
  obtain ⟨b, -, rfl⟩ := List.mem_map.mp hpair
  have hb := b.toNat_lt
  refine ⟨rfl, fun c hc => ?_⟩
  rcases List.mem_cons.mp hc with rfl | hc
  · exact hexDigit_lowerHex _ (by omega)
  · rw [List.mem_singleton.mp hc]
    exact hexDigit_lowerHex _ (by omega)

/-- The loopback, an interface without an address and two with one. -/
def twoAddresses : List Interface :=
  [⟨ascii "lo", #v[2, 0, 0, 0, 0, 0]⟩, ⟨ascii "eth0", #v[2, 0, 0, 0, 0, 1]⟩,
    ⟨ascii "tun0", #v[0, 0, 0, 0, 0, 0]⟩, ⟨ascii "eth1", #v[2, 0, 0, 0, 0, 2]⟩]

theorem construct_machineId_two :
    MachineId false [ascii "02:00:00:00:00:01", ascii "02:00:00:00:00:02"]
      (Environment.construct lowerAddress .success twoAddresses).mid := by
  have haddrs : addresses lowerAddress twoAddresses
      = [ascii "02:00:00:00:00:01", ascii "02:00:00:00:00:02"] := by decide +kernel
  rw [← haddrs]
  exact construct_machineId .success fun inf _ => hexPairs_lowerAddress inf false

/-- The same two in the other order. -/
def swappedAddresses : List Interface := twoAddresses.reverse

/-- The order tells two machines apart; an interface without an address does
not. -/
theorem getBid_eq_iff_swapped :
    (Environment.construct lowerAddress .success twoAddresses).getBid
        ≠ (Environment.construct lowerAddress .success swappedAddresses).getBid
      ∧ (Environment.construct lowerAddress .success twoAddresses).getBid
        = (Environment.construct lowerAddress .success twoAddresses.tail).getBid := by
  have hpairs : ∀ infs : List Interface,
      ∀ inf ∈ infs, HexPairs (lowerAddress inf colon false) :=
    fun _ inf _ => hexPairs_lowerAddress inf false
  constructor
  · refine (getBid_eq_iff .success .success (hpairs _) (hpairs _) ?_).not.mpr ?_
    · decide +kernel
    · decide +kernel
  · refine (getBid_eq_iff .success .success (hpairs _) (hpairs _) ?_).mpr ?_
    · decide +kernel
    · decide +kernel

end JustCommon
