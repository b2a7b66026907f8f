import JustCommon.Ledger

/-!
# Simulations with histories

A system `M` is simulated by a system `N` if each step of `M` is told to `N`
as a list of labels, none, one or several, that take `N` from one abstract
state to the next. Then a run of `M` is a run of `N` over everything that
was told. And if what a step of `M` adds to a history is what `N` puts out
on being told of it, then so it is for the run (`Simulation.outputs`).
-/

namespace Lts

variable {σ α τ ι : Type*} {M : Lts σ α} {N : Lts τ ι}

/-! ## Runs one after the other -/

theorem run_append : ∀ (s : σ) (l l' : List α),
    M.run s (l ++ l') = (M.run s l).bind fun t => M.run t l'
  | _, [], _ => rfl
  | s, a :: rest, l' => by
      rw [List.cons_append, run_cons, run_cons, Option.bind_assoc]
      exact congrArg _ (funext fun t => run_append t rest l')

@[simp] theorem run_singleton (s : σ) (a : α) : M.run s [a] = M.step s a := by
  rw [run_cons]
  exact Option.bind_fun_some (M.step s a)

theorem run_pair {s t : σ} {a b : α} (h : M.run s [a, b] = some t) :
    ∃ u, M.step s a = some u ∧ M.step u b = some t := by
  obtain ⟨u, hu, hrest⟩ := Option.bind_eq_some_iff.mp h
  exact ⟨u, hu, (run_singleton u b).symm.trans hrest⟩

theorem collect_append {β : Type*} (f : σ → α → List β) :
    ∀ {l : List α} {s t : σ}, M.run s l = some t → ∀ l' : List α,
      M.collect f s (l ++ l') = M.collect f s l ++ M.collect f t l'
  | [], s, t, h, l' => by
      obtain rfl := Option.some.inj h
      rfl
  | a :: rest, s, t, h, l' => by
      obtain ⟨u, hu, hrest⟩ := Option.bind_eq_some_iff.mp h
      rw [List.cons_append, collect_cons hu, collect_cons hu, collect_append f hrest l',
        List.append_assoc]

/-! ## Simulation -/

/-- What a step of `M` out of a state with `I` is in `N`. -/
structure Simulation (M : Lts σ α) (N : Lts τ ι) (I : σ → Prop) where
  abs : σ → τ
  tell : σ → α → List ι
  step : ∀ s a t, I s → M.step s a = some t →
    I t ∧ N.run (abs s) (tell s a) = some (abs t)

namespace Simulation

variable {I : σ → Prop}

/-- A run of the one is a run of the other over all that was told. -/
theorem run (S : Simulation M N I) :
    ∀ {l : List α} {s t : σ}, M.run s l = some t → I s →
      I t ∧ N.run (S.abs s) (M.collect S.tell s l) = some (S.abs t)
  | [], s, t, h, hs => by
      obtain rfl := Option.some.inj h
      exact ⟨hs, rfl⟩
  | a :: rest, s, t, h, hs => by
      obtain ⟨u, hu, hrest⟩ := Option.bind_eq_some_iff.mp h
      obtain ⟨hi, hone⟩ := S.step s a u hs hu
      obtain ⟨ht, hmany⟩ := S.run hrest hi
      refine ⟨ht, ?_⟩
      rw [collect_cons hu, run_append, hone, Option.bind_some, hmany]

/-- What a run adds to the history is what the other puts out over all that was
told. -/
theorem outputs {β : Type*} (S : Simulation M N I) {history : σ → List β}
    {g : τ → ι → List β}
    (hout : ∀ s a t, I s → M.step s a = some t →
      history t = history s ++ N.collect g (S.abs s) (S.tell s a)) :
    ∀ {l : List α} {s t : σ}, M.run s l = some t → I s →
      history t = history s ++ N.collect g (S.abs s) (M.collect S.tell s l)
  | [], s, t, h, _ => by
      obtain rfl := Option.some.inj h
      exact (List.append_nil _).symm
  | a :: rest, s, t, h, hs => by
      obtain ⟨u, hu, hrest⟩ := Option.bind_eq_some_iff.mp h
      obtain ⟨hi, hone⟩ := S.step s a u hs hu
      rw [collect_cons hu, collect_append g hone, ← List.append_assoc, ← hout s a u hs hu]
      exact S.outputs hout hrest hi

/-- What the steps of a run do, told by what the other's do. -/
theorem collect_eq {β : Type*} (S : Simulation M N I) {f : σ → α → List β} {g : τ → ι → List β}
    (hsame : ∀ s a t, I s → M.step s a = some t → f s a = N.collect g (S.abs s) (S.tell s a)) :
    ∀ {l : List α} {s t : σ}, M.run s l = some t → I s →
      M.collect f s l = N.collect g (S.abs s) (M.collect S.tell s l)
  | [], _, _, _, _ => rfl
  | a :: rest, s, t, h, hs => by
      obtain ⟨u, hu, hrest⟩ := Option.bind_eq_some_iff.mp h
      obtain ⟨hi, hone⟩ := S.step s a u hs hu
      rw [collect_cons hu, collect_cons hu, collect_append g hone, ← hsame s a u hs hu]
      exact congrArg _ (S.collect_eq hsame hrest hi)

end Simulation

end Lts
