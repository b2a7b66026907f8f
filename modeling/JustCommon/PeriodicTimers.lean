import JustCommon.Heap
import JustCommon.Ledger

/-!
# Whose timer calls `handle_timer`

`Debuger` and `ConfigMgr` each own a `PeriodicTimer`: `startup` makes one and
starts it, `shutdown` stops and deletes the one `timer_` points to. Neither
looks at `timer_` before. A `shutdown` without a timer goes through `NULL`;
a second `startup` overwrites the pointer to a timer that goes on calling
`handle_timer`, after the `shutdown` too.
-/

namespace JustCommon

/-- `timer_`, and the timers the module made: whether each is started. -/
structure TimerOwner where
  timer : Option Nat
  timers : Heap Bool
deriving DecidableEq, Repr

inductive TimerAction where
  | startup
  | shutdown
  /-- The timer calls `handle_timer`. -/
  | tick (timer : Nat)
deriving DecidableEq, Repr

namespace TimerOwner

variable {s t : TimerOwner}

def construct : TimerOwner where
  timer := none
  timers := Heap.empty

/-- `timer_ = new PeriodicTimer(..); timer_->start()` -/
def startup (s : TimerOwner) : Option TimerOwner := do
  let made := s.timers.alloc false
  let started ← made.2.write made.1 true
  return { timer := some made.1, timers := started }

/-- `timer_->stop(); delete timer_; timer_ = NULL` -/
def shutdown (s : TimerOwner) : Option TimerOwner := do
  let timer ← s.timer
  let stopped ← s.timers.write timer false
  let deleted ← stopped.free timer
  return { timer := none, timers := deleted }

/-- A timer calls its handler while it is started. -/
def step (s : TimerOwner) : TimerAction → Option TimerOwner
  | .startup => s.startup
  | .shutdown => s.shutdown
  | .tick timer => if s.timers.read timer = some true then some s else none

def owning : Lts TimerOwner TimerAction where
  init s := s = construct
  step := step

/-! ## What a step can do -/

/-- `timer_` points to a timer, and every timer there is started. -/
structure Wf (s : TimerOwner) : Prop where
  timer : ∀ p, s.timer = some p → s.timers.read p = some true
  started : ∀ p b, s.timers.read p = some b → b = true

theorem construct_wf : construct.Wf where
  timer _ h := by cases h
  started _ _ h := by cases h

theorem startup_spec (s : TimerOwner) :
    ∃ t, s.startup = some t ∧ t.timer = some s.timers.fresh
      ∧ ∀ q, t.timers.read q = if q = s.timers.fresh then some true else s.timers.read q := by
  have hmade : (s.timers.alloc false).2.read s.timers.fresh = some false := by
    rw [Heap.read_alloc, if_pos rfl]
  obtain ⟨started, hstarted, hread⟩ := Heap.write_eq_some hmade true
  refine ⟨⟨some s.timers.fresh, started⟩, ?_, rfl, fun q => ?_⟩
  · rw [startup, Heap.alloc_fst, hstarted]
    rfl
  · rw [hread, Heap.read_alloc]
    split
    · rfl
    · rfl

theorem startup_cases (hst : s.startup = some t) :
    t.timer = some s.timers.fresh
      ∧ ∀ q, t.timers.read q = if q = s.timers.fresh then some true else s.timers.read q := by
  obtain ⟨t', hst', hspec⟩ := startup_spec s
  obtain rfl := Option.some.inj (hst'.symm.trans hst)
  exact hspec

/-- A `shutdown` is undefined exactly if there is no timer. -/
theorem shutdown_spec (hs : s.Wf) :
    s.shutdown = none ∧ s.timer = none
      ∨ ∃ p t, s.timer = some p ∧ s.timers.read p = some true ∧ s.shutdown = some t
        ∧ t.timer = none
        ∧ ∀ q, t.timers.read q = if q = p then none else s.timers.read q := by
  cases htimer : s.timer with
  | none =>
      left
      rw [shutdown, htimer]
      exact ⟨rfl, rfl⟩
  | some p =>
      right
      have hp := hs.timer p htimer
      obtain ⟨stopped, hstopped, hread⟩ := Heap.write_eq_some hp false
      have hpstopped : stopped.read p = some false := by rw [hread, if_pos rfl]
      obtain ⟨deleted, hdeleted, hread'⟩ := Heap.free_eq_some hpstopped
      refine ⟨p, ⟨none, deleted⟩, rfl, hp, ?_, rfl, fun q => ?_⟩
      · rw [shutdown, htimer, Option.bind_eq_bind, Option.bind_some, hstopped,
          Option.bind_eq_bind, Option.bind_some, hdeleted]
        rfl
      · rw [hread', hread]
        split
        · rfl
        · rfl

theorem shutdown_cases (hs : s.Wf) (hst : s.shutdown = some t) :
    ∃ p, s.timer = some p ∧ s.timers.read p = some true ∧ t.timer = none
      ∧ ∀ q, t.timers.read q = if q = p then none else s.timers.read q := by
  rcases shutdown_spec hs with ⟨hnone, -⟩ | ⟨p, t', hp, hread, hst', hend⟩
  · rw [hnone] at hst
    cases hst
  · obtain rfl := Option.some.inj (hst'.symm.trans hst)
    exact ⟨p, hp, hread, hend⟩

theorem shutdown_timer (hst : s.shutdown = some t) : t.timer = none := by
  unfold shutdown at hst
  obtain ⟨p, -, hst⟩ := Option.bind_eq_some_iff.mp hst
  obtain ⟨stopped, -, hst⟩ := Option.bind_eq_some_iff.mp hst
  obtain ⟨deleted, -, hst⟩ := Option.bind_eq_some_iff.mp hst
  obtain rfl := Option.some.inj hst
  rfl

theorem tick_cases {p : Nat} (hst : s.step (.tick p) = some t) :
    s.timers.read p = some true ∧ t = s := by
  simp only [step] at hst
  split at hst
  · rename_i hp
    exact ⟨hp, (Option.some.inj hst).symm⟩
  · cases hst

theorem step_wf {a : TimerAction} (hs : s.Wf) (hst : s.step a = some t) : t.Wf := by
  cases a with
  | startup =>
      obtain ⟨htimer, hread⟩ := startup_cases hst
      refine ⟨fun p hp => ?_, fun p b hp => ?_⟩
      · obtain rfl := Option.some.inj (htimer.symm.trans hp)
        rw [hread, if_pos rfl]
      · rw [hread] at hp
        split at hp
        · exact (Option.some.inj hp).symm
        · exact hs.started p b hp
  | shutdown =>
      obtain ⟨q, -, -, htimer, hread⟩ := shutdown_cases hs hst
      refine ⟨fun p hp => ?_, fun p b hp => ?_⟩
      · rw [htimer] at hp
        cases hp
      · rw [hread] at hp
        split at hp
        · cases hp
        · exact hs.started p b hp
  | tick p =>
      obtain ⟨-, rfl⟩ := tick_cases hst
      exact hs

/-! ## Timers left behind -/

/-- Only the timer `timer_` points to calls `handle_timer`. -/
def OwnTicks (s : TimerOwner) : Prop := ∀ p, s.timers.read p = some true → s.timer = some p

/-- A `startup` finds no timer. -/
def StartsClean (s : TimerOwner) (a : TimerAction) : Prop := a = .startup → s.timer = none

/-- The timers a step leaves without a pointer to them. -/
def leaves (s : TimerOwner) (a : TimerAction) : Nat :=
  if a = .startup ∧ s.timer.isSome then 1 else 0

/-- The timers behind `timer_`. -/
def held (s : TimerOwner) : Nat := if s.timer.isSome then 1 else 0

theorem startup_live (hst : s.startup = some t) :
    t.timers.live.card = s.timers.live.card + 1 :=
  Heap.card_live_alloc (startup_cases hst).2

theorem step_held {a : TimerAction} (hs : s.Wf) (hst : s.step a = some t) :
    t.timers.live.card + s.held = s.timers.live.card + s.leaves a + t.held := by
  cases a with
  | startup =>
      obtain ⟨htimer, -⟩ := startup_cases hst
      rw [startup_live hst, leaves, held, held, htimer]
      cases s.timer <;> simp
  | shutdown =>
      obtain ⟨p, hp, hlive, htimer, hread⟩ := shutdown_cases hs hst
      have hcard := Heap.card_live_free hlive hread
      rw [leaves, held, held, hp, htimer]
      simpa using hcard
  | tick p =>
      obtain ⟨-, rfl⟩ := tick_cases hst
      simp [leaves]

theorem run_held :
    ∀ {l : List TimerAction} {s t : TimerOwner}, s.Wf → owning.run s l = some t →
      t.timers.live.card + s.held = s.timers.live.card + owning.total leaves s l + t.held
  | [], s, t, _, h => by
      obtain rfl := Option.some.inj h
      rfl
  | a :: rest, s, t, hs, h => by
      rw [Lts.run_cons] at h
      obtain ⟨u, hu, hrest⟩ := Option.bind_eq_some_iff.mp h
      have hone := step_held hs hu
      have hmany := run_held (step_wf hs hu) hrest
      rw [Lts.total_cons hu]
      omega

theorem step_ownTicks {a : TimerAction} (hs : s.Wf) (hst : s.step a = some t) :
    t.OwnTicks ↔ s.OwnTicks ∧ s.StartsClean a := by
  cases a with
  | startup =>
      obtain ⟨htimer, hread⟩ := startup_cases hst
      constructor
      · intro hown
        -- whatever was started still is, but the pointer is to the new one
        have hnone : ∀ p, s.timers.read p ≠ some true := by
          intro p hp
          have hne : p ≠ s.timers.fresh := Heap.ne_fresh hp
          have hp' := hown p (by rw [hread, if_neg hne, hp])
          rw [htimer] at hp'
          exact hne (Option.some.inj hp').symm
        refine ⟨fun p hp => absurd hp (hnone p), fun _ => ?_⟩
        cases hold : s.timer with
        | none => rfl
        | some p => exact absurd (hs.timer p hold) (hnone p)
      · rintro ⟨hown, hclean⟩ p hp
        rw [hread] at hp
        split at hp
        · rename_i hfresh
          rw [htimer, hfresh]
        · have hsome := hown p hp
          rw [hclean rfl] at hsome
          cases hsome
  | shutdown =>
      obtain ⟨q, hq, hlive, htimer, hread⟩ := shutdown_cases hs hst
      constructor
      · intro hown
        refine ⟨fun p hp => ?_, fun h => by cases h⟩
        by_cases hpq : p = q
        · rw [hpq, hq]
        · have hsome := hown p (by rw [hread, if_neg hpq, hp])
          rw [htimer] at hsome
          cases hsome
      · rintro ⟨hown, -⟩ p hp
        rw [hread] at hp
        split at hp
        · cases hp
        · rename_i hne
          have hsome := hown p hp
          rw [hq] at hsome
          exact absurd (Option.some.inj hsome).symm hne
  | tick p =>
      obtain ⟨-, rfl⟩ := tick_cases hst
      exact (and_iff_left fun h => by cases h).symm

theorem run_wf {l : List TimerAction} (h : owning.run construct l = some s) : s.Wf :=
  Lts.run_invariant (M := owning) (fun _ _ _ hs hst => step_wf hs hst) h construct_wf

theorem run_ownTicks {l : List TimerAction} (h : owning.run construct l = some s) :
    s.OwnTicks ↔ owning.Meets StartsClean construct l := by
  have hgood := Lts.run_good_iff (I := Wf) (fun _ _ _ hs hst => step_wf hs hst)
    (fun _ _ _ hs hst => step_ownTicks hs hst) h construct_wf
  rw [hgood]
  exact and_iff_right fun _ hp => by cases hp

/-- **Which timers call `handle_timer`.** After every run of `startup`, `shutdown`
and ticks of a module: the timers that are there are started, and in number
one for each `startup` that found `timer_` set and one more if it is set now;
a `startup` is possible, a `shutdown` exactly if `timer_` is set; and no timer
but the one behind `timer_` calls `handle_timer`, so none after a `shutdown`,
exactly if every `startup` of the run found `timer_` to be `NULL`. -/
theorem handle_timer_calls {actions : List TimerAction}
    (h : owning.run construct actions = some s) :
    (∀ p ∈ s.timers.live, (s.step (.tick p)).isSome = true)
      ∧ s.timers.live.card = owning.total leaves construct actions + s.held
      ∧ s.startup.isSome = true ∧ s.shutdown.isSome = s.timer.isSome
      ∧ (s.OwnTicks ↔ owning.Meets StartsClean construct actions) := by
  have hs : s.Wf := run_wf h
  refine ⟨fun p hp => ?_, ?_, ?_, ?_, run_ownTicks h⟩
  · obtain ⟨b, hb⟩ := Heap.mem_live.mp hp
    obtain rfl := hs.started p b hb
    rw [step, if_pos hb]
    rfl
  · have hcount := run_held construct_wf h
    rw [show construct.held = 0 from rfl, show construct.timers.live.card = 0 from rfl] at hcount
    omega
  · obtain ⟨t, hst, -⟩ := startup_spec s
    rw [hst]
    rfl
  · rcases shutdown_spec hs with ⟨hnone, htimer⟩ | ⟨p, t, htimer, -, hst, -⟩
    · rw [hnone, htimer]
      rfl
    · rw [hst, htimer]
      rfl

/-- Started twice and shut down once: the first timer is left, and ticks. -/
def startedTwice : List TimerAction := [.startup, .tick 0, .startup, .tick 1, .shutdown, .tick 0]

theorem handle_timer_calls_startedTwice :
    ∃ s, owning.run construct startedTwice = some s ∧ s.timer = none
      ∧ s.timers.live.card = 1 ∧ ¬owning.Meets StartsClean construct startedTwice := by
  have h : owning.run construct startedTwice = some ⟨none, ⟨[some true, none]⟩⟩ := by decide
  obtain ⟨-, hcard, -, -, hiff⟩ := handle_timer_calls h
  have hleft : owning.total leaves construct startedTwice = 1 := by decide
  rw [hleft] at hcard
  refine ⟨_, h, rfl, hcard, fun hmeets => ?_⟩
  have hown := hiff.mpr hmeets 0 rfl
  cases hown

end TimerOwner

end JustCommon
