import JustCommon.Programs
import Mathlib.Data.List.Basic

/-!
# Redirected calls

A `RedirectCall` stands between a program and the functions it calls: with a
`call_` the function is not called, but handed to `call_` with its arguments
and a place for its result. The overloads of `call` are one for a function
with a result and one for a function without, of up to five arguments each.

A program that makes its calls through a `RedirectCall` is compared with the
same program making them directly. They agree, for every program, exactly if
what is installed calls through (`redirect_transparent_iff`).

The arguments reach `call_` as they are: that a `va_list` passes a `float` as
a `double` and a `short` as an `int` is left out.
-/

namespace JustCommon

section Model

variable (World Val Context : Type)

/-- The arguments of a call. -/
def Args : Type := { l : List Val // l.length ≤ 5 }

/-- `caller_t`, the address of a function `R (*f)(...)` or `void (*f)(...)`. -/
inductive Caller where
  | value (f : Args Val → World → Val × World)
  | void (f : Args Val → World → World)

/-- `call_t`, given whether `result` is not `NULL`: what it stores there, if it
does. -/
abbrev CallFn : Type :=
  Context → Caller World Val → Bool → Args Val → World → Option Val × World

structure RedirectCall where
  call : Option (CallFn World Val Context)
  free : Option (Context → World → World)
  context : Context

/-- What a program does with a `RedirectCall`. -/
inductive Request where
  | value (f : Args Val → World → Val × World) (args : Args Val)
  | void (f : Args Val → World → World) (args : Args Val)
  | free (context : Context)
  | set (r : RedirectCall World Val Context)

/-- What it gets for it. -/
def Request.Reply {World Val Context : Type} : Request World Val Context → Type
  | .value _ _ => Val
  | _ => Unit

end Model

namespace RedirectCall

variable {World Val Context : Type}

/-- `redirect_call`; a store through a null `result` is undefined. -/
def redirectCall (r : RedirectCall World Val Context) (call : CallFn World Val Context)
    (caller : Caller World Val) (result : Bool) (args : Args Val) (w : World) :
    Option (Option Val × World) :=
  let out := call r.context caller result args w
  if out.1.isSome && !result then none else some out

/-- `call` for a function with a result. The result is `R r;` unless `call_`
stores one: to return it then is undefined. -/
def callValue (r : RedirectCall World Val Context) (f : Args Val → World → Val × World)
    (args : Args Val) (w : World) : Option (Val × World) :=
  match r.call with
  | some call => do
      let out ← r.redirectCall call (.value f) true args w
      let value ← out.1
      return (value, out.2)
  | none => some (f args w)

/-- `call` for a function without. -/
def callVoid (r : RedirectCall World Val Context) (f : Args Val → World → World)
    (args : Args Val) (w : World) : Option World :=
  match r.call with
  | some call => (r.redirectCall call (.void f) false args w).map Prod.snd
  | none => some (f args w)

/-- `free`, of the context it is given and not of `context_`. -/
def freeContext (r : RedirectCall World Val Context) (context : Context) (w : World) : World :=
  match r.free with
  | some free => free context w
  | none => w

/-- A request through the `RedirectCall`. -/
def perform : (o : Request World Val Context) → RedirectCall World Val Context × World →
    Option (o.Reply × RedirectCall World Val Context × World)
  | .value f args, (r, w) => (r.callValue f args w).map fun out => (out.1, r, out.2)
  | .void f args, (r, w) => (r.callVoid f args w).map fun w' => ((), r, w')
  | .free context, (r, w) => some ((), r, r.freeContext context w)
  | .set r', (_, w) => some ((), r', w)

/-- The request without one. -/
def direct : (o : Request World Val Context) → World → Option (o.Reply × World)
  | .value f args, w => some (f args w)
  | .void f args, w => some ((), f args w)
  | .free _, w => some ((), w)
  | .set _, w => some ((), w)

/-! ## Calling through -/

/-- `call_` calls the function and stores its result, `free_` does nothing. -/
structure Transparent (r : RedirectCall World Val Context) : Prop where
  value : ∀ call, r.call = some call → ∀ f args w,
    call r.context (.value f) true args w = (some (f args w).1, (f args w).2)
  void : ∀ call, r.call = some call → ∀ f args w,
    call r.context (.void f) false args w = (none, f args w)
  free : ∀ free, r.free = some free → ∀ context w, free context w = w

/-- What a program installs is transparent. -/
def InstallsTransparent : Request World Val Context → Prop
  | .set r => r.Transparent
  | _ => True

/-- The redirected program's state beside the direct one's. -/
def Beside (s : RedirectCall World Val Context × World) (w : World) : Prop :=
  s.1.Transparent ∧ s.2 = w

theorem Transparent.callValue_eq {r : RedirectCall World Val Context} (h : r.Transparent)
    (f : Args Val → World → Val × World) (args : Args Val) (w : World) :
    r.callValue f args w = some (f args w) := by
  unfold callValue
  split
  · rename_i call hcall
    simp [redirectCall, h.value call hcall]
  · rfl

theorem Transparent.callVoid_eq {r : RedirectCall World Val Context} (h : r.Transparent)
    (f : Args Val → World → World) (args : Args Val) (w : World) :
    r.callVoid f args w = some (f args w) := by
  unfold callVoid
  split
  · rename_i call hcall
    simp [redirectCall, h.void call hcall]
  · rfl

theorem Transparent.freeContext_eq {r : RedirectCall World Val Context} (h : r.Transparent)
    (context : Context) (w : World) : r.freeContext context w = w := by
  unfold freeContext
  split
  · rename_i free hfree
    exact h.free free hfree context w
  · rfl

/-- Beside a transparent `RedirectCall` each request does what it does directly. -/
theorem perform_beside (o : Request World Val Context)
    (s : RedirectCall World Val Context × World) (w : World) (ho : InstallsTransparent o)
    (hs : Beside s w) : Program.Related Beside (perform o s) (direct o w) := by
  obtain ⟨r, w₀⟩ := s
  obtain ⟨hr, rfl⟩ := hs
  cases o with
  | value f args =>
      rw [perform, hr.callValue_eq]
      exact ⟨rfl, hr, rfl⟩
  | void f args =>
      rw [perform, hr.callVoid_eq]
      exact ⟨rfl, hr, rfl⟩
  | free context =>
      rw [perform, hr.freeContext_eq]
      exact ⟨rfl, hr, rfl⟩
  | set r' => exact ⟨rfl, ho, rfl⟩

/-- What two programs of one request tell about `call_`. -/
theorem value_of_callValue {r : RedirectCall World Val Context}
    {call : CallFn World Val Context} (hcall : r.call = some call)
    {f : Args Val → World → Val × World} {args : Args Val} {w : World}
    (h : r.callValue f args w = some (f args w)) :
    call r.context (.value f) true args w = (some (f args w).1, (f args w).2) := by
  unfold callValue at h
  rw [hcall] at h
  simp only [redirectCall, Bool.not_true, Bool.and_false, Bool.false_eq_true, if_false] at h
  obtain ⟨out, hout, h⟩ := Option.bind_eq_some_iff.mp h
  obtain ⟨value, hvalue, h⟩ := Option.bind_eq_some_iff.mp h
  obtain rfl := Option.some.inj hout
  have hpair := Option.some.inj h
  rw [← hpair, ← hvalue]

theorem void_of_callVoid {r : RedirectCall World Val Context}
    {call : CallFn World Val Context} (hcall : r.call = some call)
    {f : Args Val → World → World} {args : Args Val} {w : World}
    (h : r.callVoid f args w = some (f args w)) :
    call r.context (.void f) false args w = (none, f args w) := by
  unfold callVoid at h
  rw [hcall] at h
  obtain ⟨out, hout, hworld⟩ := Option.map_eq_some_iff.mp h
  unfold redirectCall at hout
  simp only [Bool.not_false, Bool.and_true] at hout
  split at hout
  · cases hout
  · rename_i hstored
    obtain rfl := Option.some.inj hout
    exact Prod.ext (by simpa using hstored) hworld

/-- **When redirected calls are the calls themselves.** Every program that
installs nothing but what calls through has, through a `RedirectCall`, the
outcome it has without one, value and effects, exactly if that calls through
itself: its `call_` calls the function with its arguments, stores the result
if there is a place for one and nothing otherwise, and its `free_` does
nothing. -/
theorem redirect_transparent_iff (r : RedirectCall World Val Context) :
    (∀ (α : Type) (p : Program (Request World Val Context) Request.Reply α) (w : World),
      p.Only InstallsTransparent →
        (p.run perform (r, w)).map (fun out => (out.1, out.2.2)) = p.run direct w)
      ↔ r.Transparent := by
  constructor
  · intro hall
    -- one request tells what is installed
    have hone : ∀ (o : Request World Val Context) (w : World), InstallsTransparent o →
        (perform o (r, w)).map (fun out => (out.1, out.2.2)) = direct o w := by
      intro o w ho
      have h := hall o.Reply (.request o .done) w ⟨ho, fun _ => trivial⟩
      rwa [Program.run_one, Program.run_one] at h
    refine ⟨fun call hcall f args w => value_of_callValue hcall ?_,
      fun call hcall f args w => void_of_callVoid hcall ?_, fun free hfree context w => ?_⟩
    · have h := hone (.value f args) w trivial
      rw [perform, Option.map_map] at h
      exact Option.map_id'.symm.trans h
    · have h := hone (.void f args) w trivial
      rw [perform, Option.map_map] at h
      obtain ⟨w', hw', hpair⟩ := Option.map_eq_some_iff.mp h
      exact hw'.trans (congrArg some (congrArg Prod.snd hpair))
    · have h := hone (.free context) w trivial
      have hpair : ((), r.freeContext context w) = ((), w) := Option.some.inj h
      have hfreed : r.freeContext context w = free context w := by rw [freeContext, hfree]
      exact hfreed.symm.trans (congrArg Prod.snd hpair)
  · intro hr α p w hp
    have h := Program.run_related perform_beside p (r, w) w hp ⟨hr, rfl⟩
    revert h
    cases p.run perform (r, w) with
    | none =>
        cases p.run direct w with
        | none => exact fun _ => rfl
        | some _ => exact fun h => h.elim
    | some out =>
        cases p.run direct w with
        | none => exact fun h => h.elim
        | some out' =>
            rintro ⟨hvalue, -, hworld⟩
            exact congrArg some (Prod.ext hvalue hworld)

end RedirectCall

end JustCommon
