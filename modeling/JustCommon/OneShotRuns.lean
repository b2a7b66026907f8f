import JustCommon.Ledger
import JustCommon.OneShot

/-!
# What goes through a one-shot map

Under each key a one-shot map is a queue of one place: an accepted insertion
puts a value there, and a removal or the read of a one-shot entry takes it
out. So over any history of requests the values come out as they went in.
-/

namespace OneShot

variable {κ β : Type*} [DecidableEq κ]

/-- The histories of requests. -/
def store (κ β : Type*) [DecidableEq κ] : Lts (Map κ β) (Op κ β) where
  init m := m = Map.empty
  step m op := some (m.exec op).2

namespace Map

/-- The value stored under the key: none or one. -/
def stored (k : κ) (m : Map κ β) : List β := (m k).toList.map Prod.fst

/-- What a request stores under the key. -/
def stores (k : κ) (m : Map κ β) : Op κ β → List β
  | .insert k' v _ => if k' = k ∧ (m k).isNone then [v] else []
  | _ => []

/-- The value of a one-shot entry. -/
def oneShot (k : κ) (m : Map κ β) : List β := ((m k).filter Prod.snd).toList.map Prod.fst

/-- What a request takes from under the key. -/
def takes (k : κ) (m : Map κ β) : Op κ β → List β
  | .insert _ _ _ => []
  | .get k' => if k' = k then m.oneShot k else []
  | .remove k' => if k' = k then m.stored k else []

/-- One request: what is stored and what comes in is what goes out and what
stays. -/
theorem stored_exec (k : κ) (m : Map κ β) (op : Op κ β) :
    m.stored k ++ m.stores k op = m.takes k op ++ (m.exec op).2.stored k := by
  by_cases hk : k = op.key
  · subst hk
    cases op with
    | insert k v once =>
        cases hm : m k with
        | none => simp [stored, stores, takes, exec, hm, Op.key]
        | some entry => simp [stored, stores, takes, exec, hm, Op.key]
    | get k =>
        cases hm : m k with
        | none => simp [stored, stores, takes, exec, hm, Op.key, oneShot]
        | some entry =>
            obtain ⟨v, once⟩ := entry
            cases once <;> simp [stored, stores, takes, exec, hm, Op.key, oneShot, Option.filter]
    | remove k =>
        cases hm : m k with
        | none => simp [stored, stores, takes, exec, hm, Op.key]
        | some entry => simp [stored, stores, takes, exec, hm, Op.key]
  · have hframe : (m.exec op).2.stored k = m.stored k := by
      rw [stored, stored, exec_frame m op hk]
    rw [hframe]
    cases op with
    | insert k' v once =>
        have hne : k' ≠ k := fun h => hk h.symm
        simp [stores, takes, hne]
    | get k' =>
        have hne : k' ≠ k := fun h => hk h.symm
        simp [stores, takes, hne]
    | remove k' =>
        have hne : k' ≠ k := fun h => hk h.symm
        simp [stores, takes, hne]

/-- **In and out.** -/
theorem stored_run (k : κ) {m m' : Map κ β} {ops : List (Op κ β)}
    (h : (store κ β).run m ops = some m') :
    m.stored k ++ (store κ β).collect (stores k) m ops
      = (store κ β).collect (takes k) m ops ++ m'.stored k := by
  refine Lts.run_queue (M := store κ β) (I := fun _ => True) (q := stored k) (f := takes k)
    (g := stores k) (fun _ _ _ _ _ => trivial) (fun m op m' _ hst => ?_) h trivial
  obtain rfl := Option.some.inj hst
  exact stored_exec k m op

end Map

end OneShot
