import Mathlib.Logic.Basic

/-!
# Guarded runs of a labelled transition system

A system is a start condition and a partial step function; whatever is
not determined by the state (which thread moves, what the environment
answers) sits in the label. `Path ok s t` is a run from `s` to `t` whose
steps all meet the guard `ok`, a condition on the state *before* the step
and the label. `Reachable` is the unguarded case.

The one induction over runs is done here (`Path.invariant` and the
`Reachable` forms of it); `replay` turns a concrete list of labels into a
run, so that a schedule can be exhibited by evaluation.
-/

/-- A labelled transition system: a label is either not enabled at a state
or leads to exactly one state. -/
structure Lts (σ α : Type*) where
  init : σ → Prop
  step : σ → α → Option σ

namespace Lts

variable {σ α : Type*} {M : Lts σ α} {ok : σ → α → Prop}

/-- `M.Path ok s t`: a run from `s` to `t`, each step of which meets `ok`. -/
inductive Path (M : Lts σ α) (ok : σ → α → Prop) (s : σ) : σ → Prop
  | refl : Path M ok s s
  | tail {t u : σ} {a : α} :
      Path M ok s t → ok t a → M.step t a = some u → Path M ok s u

/-- Reached from a start state by steps that each meet `ok`. -/
def ReachableUnder (M : Lts σ α) (ok : σ → α → Prop) (t : σ) : Prop :=
  ∃ s, M.init s ∧ M.Path ok s t

/-- Reached from a start state by any steps. -/
def Reachable (M : Lts σ α) (t : σ) : Prop :=
  M.ReachableUnder (fun _ _ => True) t

/-! ## Invariants -/

/-- What every guarded step preserves, a guarded run preserves. -/
theorem Path.invariant {I : σ → Prop}
    (hstep : ∀ t a u, I t → ok t a → M.step t a = some u → I u)
    {s t : σ} (h : M.Path ok s t) (hs : I s) : I t := by
  induction h with
  | refl => exact hs
  | tail _ hok hst ih => exact hstep _ _ _ ih hok hst

theorem Path.mono {ok' : σ → α → Prop} (himp : ∀ t a, ok t a → ok' t a)
    {s t : σ} (h : M.Path ok s t) : M.Path ok' s t := by
  induction h with
  | refl => exact .refl
  | tail _ hok hst ih => exact .tail ih (himp _ _ hok) hst

theorem Path.trans {s t u : σ} (h₁ : M.Path ok s t) (h₂ : M.Path ok t u) :
    M.Path ok s u := by
  induction h₂ with
  | refl => exact h₁
  | tail _ hok hst ih => exact .tail ih hok hst

theorem ReachableUnder.mono {ok' : σ → α → Prop}
    (himp : ∀ t a, ok t a → ok' t a) {t : σ} (h : M.ReachableUnder ok t) :
    M.ReachableUnder ok' t := by
  obtain ⟨s, hs, hp⟩ := h
  exact ⟨s, hs, hp.mono himp⟩

theorem ReachableUnder.reachable {t : σ} (h : M.ReachableUnder ok t) :
    M.Reachable t := h.mono fun _ _ _ => trivial

theorem ReachableUnder.tail {t u : σ} {a : α} (h : M.ReachableUnder ok t)
    (hok : ok t a) (hst : M.step t a = some u) : M.ReachableUnder ok u := by
  obtain ⟨s, hs, hp⟩ := h
  exact ⟨s, hs, hp.tail hok hst⟩

/-- The induction rule for guarded reachability. The step obligation may use
that the state it starts from is itself reachable under the guard, so an
invariant proved earlier is available in the proof of a later one. -/
theorem ReachableUnder.invariant {I : σ → Prop} (hinit : ∀ s, M.init s → I s)
    (hstep : ∀ t a u, M.ReachableUnder ok t → I t → ok t a →
      M.step t a = some u → I u)
    {t : σ} (h : M.ReachableUnder ok t) : I t := by
  obtain ⟨s, hs, hp⟩ := h
  have hboth : M.ReachableUnder ok t ∧ I t := by
    refine hp.invariant (I := fun t => M.ReachableUnder ok t ∧ I t) ?_
      ⟨⟨s, hs, .refl⟩, hinit s hs⟩
    rintro t a u ⟨hr, hi⟩ hok hst
    exact ⟨hr.tail hok hst, hstep t a u hr hi hok hst⟩
  exact hboth.2

theorem Reachable.invariant {I : σ → Prop} (hinit : ∀ s, M.init s → I s)
    (hstep : ∀ t a u, M.Reachable t → I t → M.step t a = some u → I u)
    {t : σ} (h : M.Reachable t) : I t :=
  ReachableUnder.invariant hinit (fun t a u hr hi _ hst => hstep t a u hr hi hst) h

/-! ## Replaying a schedule -/

/-- Take the steps of a schedule in order, `none` as soon as a label is not
enabled or fails the check. -/
def replay (M : Lts σ α) (check : σ → α → Bool) : σ → List α → Option σ
  | s, [] => some s
  | s, a :: rest =>
      if check s a then (M.step s a).bind fun t => M.replay check t rest else none

theorem path_of_replay {check : σ → α → Bool}
    (hcheck : ∀ s a, check s a = true → ok s a) :
    ∀ {l : List α} {s t : σ}, M.replay check s l = some t → M.Path ok s t
  | [], s, t, h => by
      obtain rfl := Option.some.inj h
      exact .refl
  | a :: rest, s, t, h => by
      rw [replay] at h
      split at h
      · rename_i hc
        obtain ⟨u, hu, hrest⟩ := Option.bind_eq_some_iff.mp h
        exact (Path.tail .refl (hcheck s a hc) hu).trans
          (path_of_replay hcheck hrest)
      · cases h

/-- A schedule that can be replayed is a run. -/
theorem path_replay {check : σ → α → Bool} (hcheck : ∀ s a, check s a = true → ok s a)
    {s : σ} {l : List α} (hl : (M.replay check s l).isSome = true) :
    M.Path ok s ((M.replay check s l).getD s) := by
  obtain ⟨t, ht⟩ := Option.isSome_iff_exists.mp hl
  rw [ht]
  exact path_of_replay hcheck ht

/-! ## What a whole schedule does -/

/-- The end of the schedule `l` from `s`, if every label is enabled. -/
def run (M : Lts σ α) (s : σ) (l : List α) : Option σ :=
  M.replay (fun _ _ => true) s l

@[simp] theorem run_nil (s : σ) : M.run s [] = some s := rfl

@[simp] theorem run_cons (s : σ) (a : α) (rest : List α) :
    M.run s (a :: rest) = (M.step s a).bind fun t => M.run t rest := rfl

theorem reachable_of_run {s t : σ} {l : List α} (hs : M.init s)
    (h : M.run s l = some t) : M.Reachable t :=
  ⟨s, hs, path_of_replay (fun _ _ _ => trivial) h⟩

/-- Every step of the schedule `l` from `s` meets `ok`. -/
def Meets (M : Lts σ α) (ok : σ → α → Prop) : σ → List α → Prop
  | _, [] => True
  | s, a :: rest => ok s a ∧ ∀ t, M.step s a = some t → M.Meets ok t rest

/-- `Good` holds at every state of the schedule `l` from `s`. -/
def Always (M : Lts σ α) (Good : σ → Prop) : σ → List α → Prop
  | s, [] => Good s
  | s, a :: rest => Good s ∧ ∀ t, M.step s a = some t → M.Always Good t rest

theorem meets_cons {s t : σ} {a : α} (h : M.step s a = some t) (rest : List α) :
    M.Meets ok s (a :: rest) ↔ ok s a ∧ M.Meets ok t rest := by
  refine and_congr_right fun _ => ⟨fun hall => hall t h, fun hrest u hu => ?_⟩
  obtain rfl := Option.some.inj (h.symm.trans hu)
  exact hrest

theorem always_cons {Good : σ → Prop} {s t : σ} {a : α} (h : M.step s a = some t)
    (rest : List α) : M.Always Good s (a :: rest) ↔ Good s ∧ M.Always Good t rest := by
  refine and_congr_right fun _ => ⟨fun hall => hall t h, fun hrest u hu => ?_⟩
  obtain rfl := Option.some.inj (h.symm.trans hu)
  exact hrest

theorem Always.head {Good : σ → Prop} {s : σ} :
    ∀ {l : List α}, M.Always Good s l → Good s
  | [], h => h
  | _ :: _, h => h.1

/-- What every step preserves, a schedule preserves. -/
theorem run_invariant {I : σ → Prop} (hstep : ∀ s a t, I s → M.step s a = some t → I t) :
    ∀ {l : List α} {s t : σ}, M.run s l = some t → I s → I t
  | [], s, t, h, hs => by
      obtain rfl := Option.some.inj h
      exact hs
  | a :: rest, s, t, h, hs => by
      obtain ⟨u, hu, hrest⟩ := Option.bind_eq_some_iff.mp h
      exact run_invariant hstep hrest (hstep s a u hs hu)

/-- The exactness rule. If a step keeps `Good` exactly when it meets `ok`, so
that what lost `Good` never regains it, then `Good` holds at the end of a
schedule exactly when all its steps met `ok`. -/
theorem run_good_iff {I Good : σ → Prop}
    (hstep : ∀ s a t, I s → M.step s a = some t → I t)
    (hgood : ∀ s a t, I s → M.step s a = some t → (Good t ↔ Good s ∧ ok s a)) :
    ∀ {l : List α} {s t : σ}, M.run s l = some t → I s →
      (Good t ↔ Good s ∧ M.Meets ok s l)
  | [], s, t, h, hs => by
      obtain rfl := Option.some.inj h
      exact ⟨fun hg => ⟨hg, trivial⟩, fun hg => hg.1⟩
  | a :: rest, s, t, h, hs => by
      obtain ⟨u, hu, hrest⟩ := Option.bind_eq_some_iff.mp h
      have hone : Good u ↔ Good s ∧ ok s a := hgood s a u hs hu
      have hmany : Good t ↔ Good u ∧ M.Meets ok u rest :=
        run_good_iff hstep hgood hrest (hstep s a u hs hu)
      rw [hmany, hone, meets_cons hu, and_assoc]

/-- The exactness rule for a property of every state. If out of a good state a
step leads to a good one exactly when it meets `ok`, then the schedules
through good states are those whose steps all meet `ok`. -/
theorem always_iff {I Good : σ → Prop}
    (hstep : ∀ s a t, I s → M.step s a = some t → I t)
    (hgood : ∀ s a t, I s → Good s → M.step s a = some t → (Good t ↔ ok s a)) :
    ∀ {l : List α} {s t : σ}, M.run s l = some t → I s → Good s →
      (M.Always Good s l ↔ M.Meets ok s l)
  | [], s, t, _, _, hg => ⟨fun _ => trivial, fun _ => hg⟩
  | a :: rest, s, t, h, hs, hg => by
      obtain ⟨u, hu, hrest⟩ := Option.bind_eq_some_iff.mp h
      have hone : Good u ↔ ok s a := hgood s a u hs hg hu
      have hmany : Good u → (M.Always Good u rest ↔ M.Meets ok u rest) :=
        always_iff hstep hgood hrest (hstep s a u hs hu)
      rw [meets_cons hu, always_cons hu]
      constructor
      · rintro ⟨-, hall⟩
        exact ⟨hone.mp hall.head, (hmany hall.head).mp hall⟩
      · rintro ⟨hok, hall⟩
        exact ⟨hg, (hmany (hone.mpr hok)).mpr hall⟩

end Lts
