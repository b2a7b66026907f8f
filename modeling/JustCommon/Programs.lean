import Mathlib.Logic.Basic

/-!
# Programs over requests

A program is what it asks for, one request after the other, each next one
depending on the reply to the last. What the requests do is a handler's: a
partial step on a state with a reply. Two handlers give every program the
same outcome if they do the same on every request, up to a relation of
their states (`run_related`).
-/

/-- A program with requests `ω`, each with its type of reply, and a result. -/
inductive Program (ω : Type) (ρ : ω → Type) (α : Type) where
  | done (a : α)
  | request (o : ω) (next : ρ o → Program ω ρ α)

namespace Program

variable {ω : Type} {ρ : ω → Type} {α σ τ : Type}

/-- The outcome of the program, `none` if a request has none. -/
def run (h : (o : ω) → σ → Option (ρ o × σ)) : Program ω ρ α → σ → Option (α × σ)
  | .done a, s => some (a, s)
  | .request o next, s => (h o s).bind fun r => (next r.1).run h r.2

/-- The program makes only requests of a kind, whatever the replies. -/
def Only (P : ω → Prop) : Program ω ρ α → Prop
  | .done _ => True
  | .request o next => P o ∧ ∀ r, (next r).Only P

/-- The same value or none, in states that are related. -/
def Related {β : Type} (R : σ → τ → Prop) : Option (β × σ) → Option (β × τ) → Prop
  | some (b, s), some (c, t) => b = c ∧ R s t
  | none, none => True
  | _, _ => False

/-- Handlers that agree on the requests of a program agree on the program. -/
theorem run_related {P : ω → Prop} {R : σ → τ → Prop} {h : (o : ω) → σ → Option (ρ o × σ)}
    {h' : (o : ω) → τ → Option (ρ o × τ)}
    (hagree : ∀ o s t, P o → R s t → Related R (h o s) (h' o t)) (p : Program ω ρ α) :
    ∀ s t, p.Only P → R s t → Related R (p.run h s) (p.run h' t) := by
  induction p with
  | done a => exact fun s t _ hR => ⟨rfl, hR⟩
  | request o next ih =>
      intro s t hP hR
      have hone := hagree o s t hP.1 hR
      rw [run, run]
      revert hone
      cases h o s with
      | none =>
          cases h' o t with
          | none => exact fun _ => trivial
          | some _ => exact fun hone => hone.elim
      | some r =>
          cases h' o t with
          | none => exact fun hone => hone.elim
          | some r' =>
              rintro ⟨hreply, hstate⟩
              rw [Option.bind_some, Option.bind_some, ← hreply]
              exact ih r.1 r.2 r'.2 (hP.2 r.1) hstate

/-- The program of one request. -/
theorem run_one (h : (o : ω) → σ → Option (ρ o × σ)) (o : ω) (s : σ) :
    (request (ρ := ρ) o done).run h s = h o s := by
  rw [run]
  cases h o s with
  | none => rfl
  | some r => rfl

end Program
