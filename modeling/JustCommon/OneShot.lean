import Mathlib.Logic.Function.Basic

/-!
# A map with one-shot entries

The purpose of a blob store in its own terms: a partial map whose entries
carry a flag, and reading an entry whose flag is set removes it. Inserting
never overwrites.

Nothing here knows how a store is implemented; `exec` is the meaning of
one request and `run` of a history of requests.
-/

namespace OneShot

/-- What is stored under each key, and whether it is to be read only once. -/
abbrev Map (κ β : Type*) := κ → Option (β × Bool)

inductive Op (κ β : Type*) where
  | insert (key : κ) (value : β) (once : Bool)
  | get (key : κ)
  | remove (key : κ)
deriving Repr, DecidableEq

/-- The answer to a request: whether it succeeded, and what a `get` read. -/
structure Reply (β : Type*) where
  ok : Bool
  value : Option β
deriving Repr, DecidableEq

variable {κ β : Type*}

def Op.key : Op κ β → κ
  | .insert k _ _ => k
  | .get k => k
  | .remove k => k

namespace Map

def empty : Map κ β := fun _ => none

variable [DecidableEq κ]

def exec (m : Map κ β) : Op κ β → Reply β × Map κ β
  | .insert k v once =>
      match m k with
      | none => (⟨true, none⟩, Function.update m k (some (v, once)))
      | some _ => (⟨false, none⟩, m)
  | .get k =>
      match m k with
      | none => (⟨false, none⟩, m)
      | some (v, true) => (⟨true, some v⟩, Function.update m k none)
      | some (v, false) => (⟨true, some v⟩, m)
  | .remove k =>
      match m k with
      | none => (⟨false, none⟩, m)
      | some _ => (⟨true, none⟩, Function.update m k none)

/-- The answers to a history of requests, and the map it leaves. -/
def run (m : Map κ β) : List (Op κ β) → List (Reply β) × Map κ β
  | [] => ([], m)
  | op :: ops => ((m.exec op).1 :: ((m.exec op).2.run ops).1, ((m.exec op).2.run ops).2)

/-- Every insertion of a history finds its key free. -/
def FreshInserts (m : Map κ β) : List (Op κ β) → Prop
  | [] => True
  | op :: ops => (∀ k v once, op = .insert k v once → m k = none)
      ∧ (m.exec op).2.FreshInserts ops

/-- A request touches its own key only. -/
theorem exec_frame (m : Map κ β) (op : Op κ β) {k : κ} (hk : k ≠ op.key) :
    (m.exec op).2 k = m k := by
  cases op with
  | insert k' v once =>
      simp only [exec]
      split
      · exact Function.update_of_ne hk _ _
      · rfl
  | get k' =>
      simp only [exec]
      split
      · rfl
      · exact Function.update_of_ne hk _ _
      · rfl
  | remove k' =>
      simp only [exec]
      split
      · rfl
      · exact Function.update_of_ne hk _ _

end Map

end OneShot
