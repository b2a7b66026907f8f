import JustCommon.Runs
import Mathlib.Data.List.Count

/-!
# Quantities along a run

A measure of the state, and what each step adds to it and takes from it.
The rules are the inductions over a schedule that are needed again and
again: a measure that balances at each step balances over the run
(`run_balance`), one that is never exceeded at a step bounds what a run can
do (`run_budget`), what goes in at one end of a queue comes out at the
other in that order (`run_queue`), and a measure that some step of a kind
always lowers can be brought to zero by steps of that kind (`exhaust`).

`total` adds up amounts that may depend on the state a step is taken from;
where they are told by the label alone, it is a count (`total_label`), and
the first two rules have a form in counts. `collect` is the same for items.
-/

namespace Lts

variable {σ α : Type*} {M : Lts σ α}

/-- The amounts `f` of the steps of the schedule `l` from `s`, added up. -/
def total (M : Lts σ α) (f : σ → α → Nat) : σ → List α → Nat
  | _, [] => 0
  | s, a :: rest => f s a + ((M.step s a).map fun t => M.total f t rest).getD 0

@[simp] theorem total_nil (f : σ → α → Nat) (s : σ) : M.total f s [] = 0 := rfl

theorem total_cons {s t : σ} {a : α} (h : M.step s a = some t) (f : σ → α → Nat)
    (rest : List α) : M.total f s (a :: rest) = f s a + M.total f t rest := by
  rw [total, h]
  rfl

/-- The same amount for each label of a kind is a count of such labels. -/
theorem total_label (n : Nat) (p : α → Bool) :
    ∀ {l : List α} {s t : σ}, M.run s l = some t →
      M.total (fun _ a => if p a then n else 0) s l = n * l.countP p
  | [], _, _, _ => rfl
  | a :: rest, s, t, h => by
      obtain ⟨u, hu, hrest⟩ := Option.bind_eq_some_iff.mp h
      rw [total_cons hu, total_label n p hrest, List.countP_cons, Nat.mul_add]
      cases p a with
      | true =>
          simp only [if_true]
          omega
      | false =>
          simp only [Bool.false_eq_true, if_false]
          omega

/-! ## Balances and budgets

A step spends `f` and gains `g`, or spends one if its label is a `p` and
gains one if it is a `q`. -/

section Rules

variable {I : σ → Prop} {m : σ → Nat} {f g : σ → α → Nat}

/-- What every step balances, a run balances. -/
theorem run_balance (hI : ∀ s a t, I s → M.step s a = some t → I t)
    (hstep : ∀ s a t, I s → M.step s a = some t →
      m t + f s a = m s + g s a) :
    ∀ {l : List α} {s t : σ}, M.run s l = some t → I s →
      m t + M.total f s l = m s + M.total g s l
  | [], s, t, h, _ => by
      obtain rfl := Option.some.inj h
      rfl
  | a :: rest, s, t, h, hs => by
      obtain ⟨u, hu, hrest⟩ := Option.bind_eq_some_iff.mp h
      have hone := hstep s a u hs hu
      have hmany := run_balance hI hstep hrest (hI s a u hs hu)
      rw [total_cons hu, total_cons hu]
      omega

/-- What no step exceeds, no run exceeds. -/
theorem run_budget (hI : ∀ s a t, I s → M.step s a = some t → I t)
    (hstep : ∀ s a t, I s → M.step s a = some t →
      m t + f s a ≤ m s + g s a) :
    ∀ {l : List α} {s t : σ}, M.run s l = some t → I s →
      m t + M.total f s l ≤ m s + M.total g s l
  | [], s, t, h, _ => by
      obtain rfl := Option.some.inj h
      exact Nat.le_refl _
  | a :: rest, s, t, h, hs => by
      obtain ⟨u, hu, hrest⟩ := Option.bind_eq_some_iff.mp h
      have hone := hstep s a u hs hu
      have hmany := run_budget hI hstep hrest (hI s a u hs hu)
      rw [total_cons hu, total_cons hu]
      omega

end Rules

section Counts

variable {I : σ → Prop} {m : σ → Nat} {p q : α → Bool}

theorem count_balance (hI : ∀ s a t, I s → M.step s a = some t → I t)
    (hstep : ∀ s a t, I s → M.step s a = some t →
      m t + (if p a then 1 else 0) = m s + if q a then 1 else 0)
    {l : List α} {s t : σ} (h : M.run s l = some t) (hs : I s) :
    m t + l.countP p = m s + l.countP q := by
  have hrun := run_balance hI hstep h hs
  rwa [total_label 1 p h, total_label 1 q h, Nat.one_mul, Nat.one_mul] at hrun

theorem count_budget (hI : ∀ s a t, I s → M.step s a = some t → I t)
    (hstep : ∀ s a t, I s → M.step s a = some t →
      m t + (if p a then 1 else 0) ≤ m s + if q a then 1 else 0)
    {l : List α} {s t : σ} (h : M.run s l = some t) (hs : I s) :
    m t + l.countP p ≤ m s + l.countP q := by
  have hrun := run_budget hI hstep h hs
  rwa [total_label 1 p h, total_label 1 q h, Nat.one_mul, Nat.one_mul] at hrun

end Counts

/-! ## What goes through a queue -/

/-- The items `f` of the steps of the schedule `l` from `s`, in order. -/
def collect {β : Type*} (M : Lts σ α) (f : σ → α → List β) : σ → List α → List β
  | _, [] => []
  | s, a :: rest => f s a ++ ((M.step s a).map fun t => M.collect f t rest).getD []

@[simp] theorem collect_nil {β : Type*} (f : σ → α → List β) (s : σ) :
    M.collect f s [] = [] := rfl

theorem collect_cons {β : Type*} {s t : σ} {a : α} (h : M.step s a = some t)
    (f : σ → α → List β) (rest : List α) :
    M.collect f s (a :: rest) = f s a ++ M.collect f t rest := by
  rw [collect, h]
  rfl

/-- Items that the label alone tells. -/
theorem collect_label {β : Type*} (f : α → List β) :
    ∀ {l : List α} {s t : σ}, M.run s l = some t →
      M.collect (fun _ a => f a) s l = l.flatMap f
  | [], _, _, _ => rfl
  | a :: rest, s, t, h => by
      obtain ⟨u, hu, hrest⟩ := Option.bind_eq_some_iff.mp h
      rw [collect_cons hu, collect_label f hrest, List.flatMap_cons]

/-- If every step puts its items in at one end and takes them out at the other,
then over a run the items come out as they went in. -/
theorem run_queue {β : Type*} {I : σ → Prop} {q : σ → List β} {f g : σ → α → List β}
    (hI : ∀ s a t, I s → M.step s a = some t → I t)
    (hstep : ∀ s a t, I s → M.step s a = some t → q s ++ g s a = f s a ++ q t) :
    ∀ {l : List α} {s t : σ}, M.run s l = some t → I s →
      q s ++ M.collect g s l = M.collect f s l ++ q t
  | [], s, t, h, _ => by
      obtain rfl := Option.some.inj h
      exact List.append_nil _
  | a :: rest, s, t, h, hs => by
      obtain ⟨u, hu, hrest⟩ := Option.bind_eq_some_iff.mp h
      have hone := hstep s a u hs hu
      have hmany := run_queue hI hstep hrest (hI s a u hs hu)
      rw [collect_cons hu, collect_cons hu, ← List.append_assoc, hone, List.append_assoc, hmany,
        List.append_assoc]

/-- The invariant rule with a history: `I` relates what was collected so far to
the state. -/
theorem run_history {β : Type*} {I : List β → σ → Prop} {f : σ → α → List β}
    {ok : σ → α → Prop}
    (hstep : ∀ past s a t, I past s → ok s a → M.step s a = some t → I (past ++ f s a) t) :
    ∀ {l : List α} {past : List β} {s t : σ}, M.run s l = some t → M.Meets ok s l →
      I past s → I (past ++ M.collect f s l) t
  | [], past, s, t, h, _, hs => by
      obtain rfl := Option.some.inj h
      exact (List.append_nil past).symm ▸ hs
  | a :: rest, past, s, t, h, hmeets, hs => by
      obtain ⟨u, hu, hrest⟩ := Option.bind_eq_some_iff.mp h
      obtain ⟨hok, hmany⟩ := (meets_cons hu rest).mp hmeets
      have hone := hstep past s a u hs hok hu
      rw [collect_cons hu, ← List.append_assoc]
      exact run_history hstep hrest hmany hone

/-! ## Running a measure down -/

/-- If a step that meets `ok` and lowers the measure is there as long as the
measure is not zero, then such steps alone bring it to zero. -/
theorem exhaust {I : σ → Prop} {m : σ → Nat} {ok : σ → α → Prop}
    (hstep : ∀ s, I s → m s ≠ 0 →
      ∃ a t, ok s a ∧ M.step s a = some t ∧ m t < m s ∧ I t) {s : σ} (hs : I s) :
    ∃ l t, M.run s l = some t ∧ M.Meets ok s l ∧ l.length ≤ m s ∧ m t = 0 ∧ I t := by
  generalize hn : m s = n
  induction n using Nat.strongRecOn generalizing s with
  | ind n ih =>
      by_cases hzero : m s = 0
      · exact ⟨[], s, rfl, trivial, Nat.zero_le _, hzero, hs⟩
      · obtain ⟨a, u, hok, hu, hlt, hi⟩ := hstep s hs hzero
        obtain ⟨l, t, hrun, hmeets, hlen, hend, ht⟩ := ih (m u) (hn ▸ hlt) hi rfl
        refine ⟨a :: l, t, ?_, (meets_cons hu l).mpr ⟨hok, hmeets⟩, ?_, hend, ht⟩
        · rw [run_cons, hu, Option.bind_some, hrun]
        · rw [List.length_cons]
          omega

/-- What is replayed with a check is a schedule whose steps pass it. -/
theorem meets_of_replay {ok : σ → α → Prop} {check : σ → α → Bool}
    (hcheck : ∀ s a, check s a = true → ok s a) :
    ∀ {l : List α} {s t : σ}, M.replay check s l = some t → M.run s l = some t ∧ M.Meets ok s l
  | [], _, _, h => ⟨h, trivial⟩
  | a :: rest, s, t, h => by
      rw [replay] at h
      split at h
      · rename_i hc
        obtain ⟨u, hu, hrest⟩ := Option.bind_eq_some_iff.mp h
        obtain ⟨hrun, hmeets⟩ := meets_of_replay hcheck hrest
        refine ⟨?_, (meets_cons hu rest).mpr ⟨hcheck s a hc, hmeets⟩⟩
        rw [run_cons, hu, Option.bind_some, hrun]
      · cases h

/-- A run from a reachable state ends in one. -/
theorem Reachable.run {s t : σ} (hs : M.Reachable s) :
    ∀ {l : List α}, M.run s l = some t → M.Reachable t
  | [], h => by
      obtain rfl := Option.some.inj h
      exact hs
  | a :: rest, h => by
      obtain ⟨u, hu, hrest⟩ := Option.bind_eq_some_iff.mp h
      exact Reachable.run (hs.tail trivial hu) hrest

end Lts
