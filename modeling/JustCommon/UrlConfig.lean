import JustCommon.KeyValues
import JustCommon.UrlDecode

/-!
# Options carried by a URL

A parameter of the form `prefix section.name` sets an option of the
configuration. `apply_config` cuts the prefix off at the front and the name
off at the last dot of the *whole* key, so both may hold dots, and a section
too; only the test that the dot lies behind the prefix keeps the two cuts
apart. `Addresses` is the form of key that passes, and it has one section
and one name. So the parameters act as a list of assignments, of which the
last one to an option is the one that stays.
-/

namespace JustCommon

open KeyValues

/-! ## The last dot -/

theorem rfind_of_not_mem {c : UInt8} {text : Bytes} (h : c ∉ text) : rfind c text = none := by
  induction text with
  | nil => rfl
  | cons b text ih =>
      rw [List.mem_cons, not_or] at h
      rw [rfind, ih h.2]
      exact if_neg (Ne.symm h.1)

theorem rfind_append {c : UInt8} {rest : Bytes} (h : c ∉ rest) (front : Bytes) :
    rfind c (front ++ c :: rest) = some front.length := by
  induction front with
  | nil =>
      rw [List.nil_append, rfind, rfind_of_not_mem h]
      exact if_pos rfl
  | cons b front ih =>
      rw [List.cons_append, rfind, ih]
      rfl

/-- A text with a `c` is split by its last one. -/
theorem exists_last {c : UInt8} {text : Bytes} (h : c ∈ text) :
    ∃ front rest, text = front ++ c :: rest ∧ c ∉ rest := by
  induction text with
  | nil => exact absurd h List.not_mem_nil
  | cons b text ih =>
      by_cases hmem : c ∈ text
      · obtain ⟨front, rest, rfl, hrest⟩ := ih hmem
        exact ⟨b :: front, rest, rfl, hrest⟩
      · obtain rfl := (List.mem_cons.mp h).resolve_right hmem
        exact ⟨[], text, rfl, hmem⟩

/-! ## Which keys set an option -/

/-- The key of an option: the prefix, a section that is not empty, a dot and a
name without one. -/
def Addresses (pre key sec name : Bytes) : Prop :=
  key = pre ++ sec ++ dot :: name ∧ sec ≠ [] ∧ dot ∉ name

/-- A key sets one option only. -/
theorem Addresses.unique {pre key sec name sec' name' : Bytes}
    (h : Addresses pre key sec name) (h' : Addresses pre key sec' name') :
    sec = sec' ∧ name = name' := by
  obtain ⟨rfl, -, hname⟩ := h
  obtain ⟨heq, -, hname'⟩ := h'
  have hpos : (pre ++ sec).length = (pre ++ sec').length :=
    Option.some.inj (by rw [← rfind_append hname, ← rfind_append hname', heq])
  obtain ⟨hfront, hrest⟩ := List.append_inj heq hpos
  exact ⟨List.append_cancel_left hfront, (List.cons.inj hrest).2⟩

section Options

variable {Conf Url : Type} (K : ConfigClass Conf) {C : UrlClass Url}

theorem applyOption_addressed {pre key sec name : Bytes} (h : Addresses pre key sec name)
    (config : Conf) (value : Bytes) :
    applyOption K pre config (key, value) = some (K.setForce config sec name value) := by
  obtain ⟨rfl, hsec, hname⟩ := h
  have hpos : 0 < sec.length := List.length_pos_iff.mpr hsec
  have hlen : (pre ++ sec ++ dot :: name).length = pre.length + sec.length + name.length + 1 := by
    rw [List.length_append, List.length_append, List.length_cons]
    omega
  have hpre : (pre ++ sec ++ dot :: name).take pre.length = pre := by
    rw [List.append_assoc, List.take_left]
  have hdot : rfind dot (pre ++ sec ++ dot :: name) = some (pre.length + sec.length) := by
    rw [rfind_append hname, List.length_append]
  have hbehind : ¬pre.length + sec.length ≤ pre.length := by omega
  have hdiff : posDiff (pre.length + sec.length) pre.length = some sec.length := by
    rw [posDiff, if_pos (by omega), Nat.add_sub_cancel_left]
  have hcutSec : substr (pre ++ sec ++ dot :: name) pre.length sec.length = some sec := by
    rw [substr, if_pos (by omega), List.append_assoc, List.drop_left, List.take_left]
  have hcutName : substr (pre ++ sec ++ dot :: name) (pre.length + sec.length + 1)
      (pre ++ sec ++ dot :: name).length = some name := by
    have hdrop : (pre ++ sec ++ dot :: name).drop (pre.length + sec.length + 1) = name := by
      rw [← List.length_append, ← List.drop_drop, List.drop_left]
      rfl
    rw [substr, if_pos (by omega), hdrop, List.take_of_length_le (by omega)]
  simp only [applyOption, hpre, hdot, if_true, if_neg hbehind, hdiff, hcutSec, hcutName,
    Option.bind_eq_bind, Option.bind_some]

theorem applyOption_other {pre key : Bytes} (h : ∀ sec name, ¬Addresses pre key sec name)
    (config : Conf) (value : Bytes) :
    applyOption K pre config (key, value) = some config := by
  by_cases hpre : key.take pre.length = pre
  · by_cases hmem : dot ∈ key
    · obtain ⟨front, name, rfl, hname⟩ := exists_last hmem
      have hdot := rfind_append hname front
      by_cases hbehind : front.length ≤ pre.length
      · simp only [applyOption, hpre, hdot, if_true, if_pos hbehind]
      · -- a dot behind the prefix would make a section and a name
        have hle : pre.length ≤ front.length := by omega
        rw [List.take_append_of_le_length hle] at hpre
        refine absurd ⟨?_, ?_, hname⟩ (h (front.drop pre.length) name)
        · conv_lhs => rw [← List.take_append_drop pre.length front, hpre]
        · intro hnil
          have hlen := congrArg List.length hnil
          rw [List.length_drop, List.length_nil] at hlen
          omega
    · simp only [applyOption, rfind_of_not_mem hmem, if_pos hpre]
  · simp only [applyOption, if_neg hpre]

/-! ## The last assignment stays -/

/-- `set_force(sec, key, value)` sets the value for exactly `(sec, key)`. -/
structure ConfigClass.Exact (K : ConfigClass Conf) : Prop where
  setForce : ∀ config sec key value sec' key',
    K.get (K.setForce config sec key value) sec' key'
      = if sec' = sec ∧ key' = key then some value else K.get config sec' key'

/-- The value the parameters assign to an option, if any does. -/
def assigned (params : List (Bytes × Bytes)) (pre sec name : Bytes) : Option Bytes :=
  if sec ≠ [] ∧ dot ∉ name then params.reverse.lookup (pre ++ sec ++ dot :: name) else none

theorem assigned_cons_self {params : List (Bytes × Bytes)} {pre key sec name : Bytes}
    (h : Addresses pre key sec name) (value : Bytes) :
    assigned ((key, value) :: params) pre sec name
      = (assigned params pre sec name).or (some value) := by
  obtain ⟨rfl, hform⟩ := h
  rw [assigned, assigned, if_pos hform, if_pos hform, List.reverse_cons, List.lookup_append,
    List.lookup_cons_self]

theorem assigned_cons_ne {params : List (Bytes × Bytes)} {pre key sec name : Bytes}
    (h : ¬Addresses pre key sec name) (value : Bytes) :
    assigned ((key, value) :: params) pre sec name = assigned params pre sec name := by
  by_cases hform : sec ≠ [] ∧ dot ∉ name
  · have hne : key ≠ pre ++ sec ++ dot :: name := fun heq => h ⟨heq, hform⟩
    rw [assigned, assigned, if_pos hform, if_pos hform, List.reverse_cons,
      List.lookup_append, lookup_cons_ne hne, List.lookup_nil, Option.or_none]
  · rw [assigned, assigned, if_neg hform, if_neg hform]

variable {K}

/-- No position is out of range, and every option is left with what is
assigned to it last. -/
theorem foldlM_applyOption (hK : K.Exact) (pre : Bytes) (params : List (Bytes × Bytes))
    (config : Conf) : ∃ config', params.foldlM (applyOption K pre) config = some config'
      ∧ ∀ sec name, K.get config' sec name
        = (assigned params pre sec name).or (K.get config sec name) := by
  induction params generalizing config with
  | nil => exact ⟨config, rfl, fun sec name => by simp [assigned]⟩
  | cons p params ih =>
      obtain ⟨key, value⟩ := p
      by_cases haddr : ∃ sec name, Addresses pre key sec name
      · obtain ⟨sec₀, name₀, h₀⟩ := haddr
        obtain ⟨config', hrun, hget⟩ := ih (K.setForce config sec₀ name₀ value)
        refine ⟨config', ?_, fun sec name => ?_⟩
        · rw [List.foldlM_cons, applyOption_addressed K h₀]
          exact hrun
        · rw [hget, hK.setForce]
          by_cases hsame : sec = sec₀ ∧ name = name₀
          · obtain ⟨rfl, rfl⟩ := hsame
            rw [if_pos ⟨rfl, rfl⟩, assigned_cons_self h₀, Option.or_assoc, Option.some_or]
          · rw [if_neg hsame, assigned_cons_ne (fun h => hsame (h.unique h₀))]
      · have hother : ∀ sec name, ¬Addresses pre key sec name :=
          fun sec name h => haddr ⟨sec, name, h⟩
        obtain ⟨config', hrun, hget⟩ := ih config
        refine ⟨config', ?_, fun sec name => ?_⟩
        · rw [List.foldlM_cons, applyOption_other K hother]
          exact hrun
        · rw [hget, assigned_cons_ne (hother sec name)]

theorem assigned_of_last {params before after : List (Bytes × Bytes)}
    {pre key sec name value : Bytes} (hsplit : params = before ++ (key, value) :: after)
    (haddr : Addresses pre key sec name) (hafter : key ∉ keys after) :
    assigned params pre sec name = some value := by
  obtain ⟨rfl, hform⟩ := haddr
  rw [assigned, if_pos hform, lookup_reverse_of_last hafter before value hsplit]

theorem assigned_eq_none {params : List (Bytes × Bytes)} {pre sec name : Bytes}
    (h : ∀ key ∈ keys params, ¬Addresses pre key sec name) :
    assigned params pre sec name = none := by
  by_cases hform : sec ≠ [] ∧ dot ∉ name
  · rw [assigned, if_pos hform, lookup_reverse_eq_none]
    exact fun hmem => h _ hmem ⟨rfl, hform⟩
  · rw [assigned, if_neg hform]

theorem assigned_perm {params params' : List (Bytes × Bytes)} (hperm : params.Perm params')
    (hnodup : (keys params).Nodup) (pre sec name : Bytes) :
    assigned params pre sec name = assigned params' pre sec name := by
  have hreverse : params.reverse.Perm params'.reverse :=
    (List.reverse_perm _).trans (hperm.trans (List.reverse_perm _).symm)
  have hkeys : (keys params.reverse).Nodup := by
    rw [keys, List.map_reverse, List.nodup_reverse]
    exact hnodup
  rw [assigned, assigned, lookup_perm hreverse hkeys]

/-- What `apply_config` leaves: the last parameter for an option sets it, an
option without one is as it was, a parameter that is for no option could as
well be left out, and with each key once the order does not matter. -/
structure Configured (K : ConfigClass Conf) (C : UrlClass Url) (config : Conf) (url : Url)
    (pre : Bytes) (config' : Conf) : Prop where
  last : ∀ before key value after sec name,
    C.params url = before ++ (key, value) :: after → Addresses pre key sec name →
    key ∉ keys after → K.get config' sec name = some value
  other : ∀ sec name, (∀ key ∈ keys (C.params url), ¬Addresses pre key sec name) →
    K.get config' sec name = K.get config sec name
  skipped : ∀ before param after url', C.params url = before ++ param :: after →
    (∀ sec name, ¬Addresses pre param.1 sec name) → C.params url' = before ++ after →
    applyConfig K C config url' pre = some config'
  unordered : (keys (C.params url)).Nodup → ∀ url', (C.params url).Perm (C.params url') →
    ∃ config'', applyConfig K C config url' pre = some config''
      ∧ ∀ sec name, K.get config'' sec name = K.get config' sec name

/-- **`apply_config` sets exactly the addressed options.** -/
theorem applyConfig_configured (hK : K.Exact) (C : UrlClass Url) (config : Conf) (url : Url)
    (pre : Bytes) :
    ∃ config', applyConfig K C config url pre = some config'
      ∧ Configured K C config url pre config' := by
  obtain ⟨config', hrun, hget⟩ := foldlM_applyOption hK pre (C.params url) config
  refine ⟨config', hrun, ?_, ?_, ?_, ?_⟩
  · intro before key value after sec name hsplit haddr hafter
    rw [hget, assigned_of_last hsplit haddr hafter, Option.some_or]
  · intro sec name hnone
    rw [hget, assigned_eq_none hnone, Option.none_or]
  · intro before param after url' hsplit hother hparams
    rw [hsplit, List.foldlM_append] at hrun
    rw [applyConfig, hparams, List.foldlM_append]
    have hstep : ∀ mid, (param :: after).foldlM (applyOption K pre) mid
        = after.foldlM (applyOption K pre) mid := by
      intro mid
      rw [List.foldlM_cons, applyOption_other K hother]
      rfl
    simpa only [hstep] using hrun
  · intro hnodup url' hperm
    obtain ⟨config'', hrun', hget'⟩ := foldlM_applyOption hK pre (C.params url') config
    refine ⟨config'', hrun', fun sec name => ?_⟩
    rw [hget, hget', assigned_perm hperm hnodup]

end Options

/-- The configuration as a map. -/
def optionMap : ConfigClass Config where
  get config sec key := config sec key
  setForce := Config.set

theorem optionMap_exact : optionMap.Exact := ⟨fun _ _ _ _ _ _ => rfl⟩

/-- A prefix with a dot in it, and a key whose last dot is that one. -/
theorem applyConfig_configured_twice :
    ∃ config', applyConfig optionMap plainUrl (fun _ _ => none)
        ⟨[], [(ascii "app.log.level", ascii "1"), (ascii "app.mode", ascii "2"),
          (ascii "app.log.level", ascii "3")]⟩ (ascii "app.") = some config'
      ∧ config' (ascii "log") (ascii "level") = some (ascii "3")
      ∧ config' [] (ascii "mode") = none := by
  obtain ⟨config', hrun, hconf⟩ :=
    applyConfig_configured optionMap_exact plainUrl (fun _ _ => none)
      ⟨[], [(ascii "app.log.level", ascii "1"), (ascii "app.mode", ascii "2"),
        (ascii "app.log.level", ascii "3")]⟩ (ascii "app.")
  refine ⟨config', hrun, ?_, ?_⟩
  · exact hconf.last [(ascii "app.log.level", ascii "1"), (ascii "app.mode", ascii "2")] _ _ []
      _ _ rfl ⟨by decide, by decide, by decide⟩ List.not_mem_nil
  · exact hconf.other _ _ fun _ _ h => h.2.1 rfl

end JustCommon
