import JustCommon.Delimited
import JustCommon.MessageQueue

/-!
# Remote configuration

`ConfigMgr::set_config` sends one configuration value as a message whose
data is the section, the key and the value with `'|'` between them;
`ConfigMgr::handle_timer` takes one such message and sets the value if the
data splits into exactly three pieces. `framework::string::slice` is a
parameter; `SplitsAtBar` is what it is relied on for.
-/

namespace JustCommon

namespace ConfigMgr

/-- `MSGTYPECONFIG` -/
def msgTypeConfig : Nat := 1

/-- `slice` splits at every `'|'` and keeps empty pieces. -/
def SplitsAtBar (slice : Bytes → List Bytes) : Prop :=
  ∀ text, slice text = text.splitOn bar

/-- The arguments of one `set_config` call, `NULL` being no module. -/
structure SetConfig where
  module : Option Bytes
  sec : Bytes
  key : Bytes
  value : Bytes
deriving DecidableEq, Repr

/-- The message `set_config` pushes. -/
def SetConfig.message (c : SetConfig) : Message :=
  { receiver := c.module.getD []
    level := 0
    type := msgTypeConfig
    data := c.sec ++ [bar] ++ c.key ++ [bar] ++ c.value }

/-- What `handle_timer` pops. -/
def filter : Message := { level := 0, type := msgTypeConfig }

/-- The arguments of `config().set` for a popped message, if it is called. -/
def decoded (slice : Bytes → List Bytes) (m : Message) :
    Option (Bytes × Bytes × Bytes) :=
  match slice m.data with
  | [sec, key, value] => some (sec, key, value)
  | _ => none

/-- The configuration after `handle_timer` popped `m`. -/
def handle (slice : Bytes → List Bytes) (m : Message) (config : Config) : Config :=
  match decoded slice m with
  | some (sec, key, value) => config.set sec key value
  | none => config

/-- A sequence of `config().set` calls. -/
def setAll (config : Config) (sets : List (Bytes × Bytes × Bytes)) : Config :=
  sets.foldl (fun config set => config.set set.1 set.2.1 set.2.2) config

theorem handle_eq_setAll (slice : Bytes → List Bytes) (m : Message) (config : Config) :
    handle slice m config = setAll config (decoded slice m).toList := by
  unfold handle
  split
  · rename_i heq
    rw [heq]
    rfl
  · rename_i heq
    rw [heq]
    rfl

theorem setAll_append (config : Config) (sets sets' : List (Bytes × Bytes × Bytes)) :
    setAll config (sets ++ sets') = setAll (setAll config sets) sets' :=
  List.foldl_append

/-- The last call for a section and a key wins. -/
theorem setAll_apply (config : Config) (sets : List (Bytes × Bytes × Bytes))
    (sec key : Bytes) : setAll config sets sec key =
      match sets.reverse.find? (fun set => set.1 = sec ∧ set.2.1 = key) with
      | some set => some set.2.2
      | none => config sec key := by
  induction sets using List.reverseRecOn with
  | nil => rfl
  | append_singleton sets last ih =>
      rw [setAll_append, List.reverse_append, List.reverse_singleton, List.singleton_append]
      by_cases hlast : last.1 = sec ∧ last.2.1 = key
      · rw [List.find?_cons_of_pos (by simpa using hlast)]
        simp [setAll, Config.set, hlast]
      · rw [List.find?_cons_of_neg (by simpa using hlast), ← ih]
        simp only [setAll, List.foldl_cons, List.foldl_nil, Config.set]
        rw [if_neg]
        rintro ⟨hsec, hkey⟩
        exact hlast ⟨hsec.symm, hkey.symm⟩

def SetConfig.triple (c : SetConfig) : Bytes × Bytes × Bytes := (c.sec, c.key, c.value)

/-- No field contains the separator. -/
def SetConfig.BarFree (c : SetConfig) : Prop :=
  bar ∉ c.sec ∧ bar ∉ c.key ∧ bar ∉ c.value

instance (c : SetConfig) : Decidable c.BarFree :=
  inferInstanceAs (Decidable (_ ∧ _ ∧ _))

theorem SetConfig.data_eq (c : SetConfig) :
    c.message.data = Delimited.join bar [c.sec, c.key, c.value] := by
  simp [SetConfig.message, Delimited.join]

theorem decoded_eq_parse {slice : Bytes → List Bytes} (hs : SplitsAtBar slice)
    (m : Message) : decoded slice m = (Delimited.parse bar 3 m.data).bind fun
      | [sec, key, value] => some (sec, key, value)
      | _ => none := by
  rw [decoded, hs, Delimited.parse]
  split
  · rename_i heq
    simp [heq]
  · rename_i hne
    split
    · rename_i hlen
      obtain ⟨a, b, c, habc⟩ := List.length_eq_three.mp hlen
      exact absurd habc (hne a b c)
    · rfl

/-- The receiver sets exactly what was sent, or nothing. -/
theorem decoded_message {slice : Bytes → List Bytes} (hs : SplitsAtBar slice)
    (c : SetConfig) :
    decoded slice c.message = if c.BarFree then some c.triple else none := by
  have hround := Delimited.parse_join bar (List.cons_ne_nil c.sec [c.key, c.value])
  rw [decoded_eq_parse hs, c.data_eq]
  simp only [List.length_cons, List.length_nil] at hround
  rw [hround]
  by_cases hfree : c.BarFree
  · have hall : ∀ f ∈ [c.sec, c.key, c.value], bar ∉ f := by
      simpa [SetConfig.BarFree] using hfree
    rw [if_pos hall, if_pos hfree]
    rfl
  · have hall : ¬∀ f ∈ [c.sec, c.key, c.value], bar ∉ f := by
      simpa [SetConfig.BarFree] using hfree
    rw [if_neg hall, if_neg hfree]
    rfl

end ConfigMgr

end JustCommon
