import JustCommon.DebugerStreams
import JustCommon.PeriodicTimers
import JustCommon.Simulation

/-!
# When a `Debuger` can be destroyed

Right after a `shutdown` the logger holds no stream of the `Debuger`. Whether
that stays so depends on its timers: one that an earlier `startup` left behind
still calls `handle_timer`, which finds the word 1 and registers the debug
stream again, and nothing will take it back. So here the `Debuger` with its
logger and its timers move together; each on its own goes the way it did
(`lifeSimulation`, `timerSimulation`).
-/

namespace JustCommon

structure TimedDebuger where
  attached : Attached
  owner : TimerOwner

inductive TimedOp where
  | startup (first second : UInt32)
  | shutdown
  /-- The timer calls `handle_timer`. -/
  | tick (timer : Nat) (pending : Bool) (first second : UInt32)
  | setLogHook (hook : Option Nat) (level : UInt64)
deriving DecidableEq, Repr

namespace TimedOp

def life : TimedOp → DebugerOp
  | .startup first second => .startup first second
  | .shutdown => .shutdown
  | .tick _ pending first second => .tick pending first second
  | .setLogHook hook level => .setLogHook hook level

def timers : TimedOp → List TimerAction
  | .startup _ _ => [.startup]
  | .shutdown => [.shutdown]
  | .tick timer _ _ _ => [.tick timer]
  | .setLogHook _ _ => []

def isTick : TimedOp → Bool
  | .tick _ _ _ _ => true
  | _ => false

end TimedOp

namespace TimedDebuger

variable {s t : TimedDebuger}

def construct (allocated found : Bool) (first second : UInt32) : TimedDebuger where
  attached := .construct allocated found first second
  owner := .construct

/-- `timer_` first, then the rest of the operation. -/
def step (s : TimedDebuger) (op : TimedOp) : Option TimedDebuger := do
  let owner ← TimerOwner.owning.run s.owner op.timers
  let attached ← s.attached.step op.life
  return { attached, owner }

def timed : Lts TimedDebuger TimedOp where
  init s := ∃ allocated found first second, s = construct allocated found first second
  step := step

theorem step_parts {op : TimedOp} (hst : s.step op = some t) :
    TimerOwner.owning.run s.owner op.timers = some t.owner
      ∧ s.attached.step op.life = some t.attached := by
  obtain ⟨owner, howner, hrest⟩ := Option.bind_eq_some_iff.mp hst
  obtain ⟨attached, hattached, hrest⟩ := Option.bind_eq_some_iff.mp hrest
  obtain rfl := Option.some.inj hrest
  exact ⟨howner, hattached⟩

theorem step_of_parts {op : TimedOp} {attached : Attached} {owner : TimerOwner}
    (howner : TimerOwner.owning.run s.owner op.timers = some owner)
    (hattached : s.attached.step op.life = some attached) :
    s.step op = some ⟨attached, owner⟩ := by
  rw [step, howner, Option.bind_eq_bind, Option.bind_some, hattached]
  rfl

/-! ## The two sides -/

def lifeSimulation : Lts.Simulation timed Attached.life fun _ => True where
  abs := attached
  tell _ op := [op.life]
  step s op _ _ h := ⟨trivial, (Lts.run_singleton s.attached op.life).trans (step_parts h).2⟩

def timerSimulation : Lts.Simulation timed TimerOwner.owning fun _ => True where
  abs := owner
  tell _ op := op.timers
  step _ _ _ _ h := ⟨trivial, (step_parts h).1⟩

variable {allocated found : Bool} {first second : UInt32} {ops : List TimedOp}

theorem run_life (h : timed.run (construct allocated found first second) ops = some s) :
    Attached.life.Reachable s.attached :=
  Lts.reachable_of_run ⟨allocated, found, first, second, rfl⟩ (lifeSimulation.run h trivial).2

theorem run_timers (h : timed.run (construct allocated found first second) ops = some s) :
    TimerOwner.owning.run .construct (ops.flatMap TimedOp.timers) = some s.owner := by
  rw [← Lts.collect_label TimedOp.timers h]
  exact (timerSimulation.run h trivial).2

/-! ## The pointers -/

/-- The flag `timer` is that `timer_` is not `NULL`, and `debug_mode_` is what the
constructor found. -/
structure Agrees (allocated found : Bool) (s : TimedDebuger) : Prop where
  timer : s.attached.debuger.timer = s.owner.timer.isSome
  word : s.attached.debuger.debugMode = (allocated || found)

theorem handleTimer_kept (d : Debuger) (pending : Bool) (first second : UInt32) :
    (d.handleTimer pending first second).1.timer = d.timer
      ∧ (d.handleTimer pending first second).1.debugMode = d.debugMode := by
  cases pending with
  | true =>
      exact ⟨Debuger.checkDebugMode_timer d first second,
        Debuger.checkDebugMode_debugMode d first second⟩
  | false => exact ⟨rfl, rfl⟩

theorem construct_agrees : (construct allocated found first second).Agrees allocated found where
  timer := Debuger.checkDebugMode_timer _ _ _
  word := Debuger.checkDebugMode_debugMode _ _ _

theorem step_agrees {op : TimedOp} (hs : s.Agrees allocated found) (hst : s.step op = some t) :
    t.Agrees allocated found := by
  obtain ⟨howner, hattached⟩ := step_parts hst
  cases op with
  | startup first second =>
      rw [TimedOp.timers, Lts.run_singleton] at howner
      obtain ⟨htimer, -⟩ := TimerOwner.startup_cases howner
      have heq := (Option.some.inj hattached).symm
      refine ⟨?_, ?_⟩
      · rw [heq, htimer]
        exact Debuger.checkDebugMode_timer _ _ _
      · rw [heq]
        exact (Debuger.checkDebugMode_debugMode _ _ _).trans hs.word
  | shutdown =>
      rw [TimedOp.timers, Lts.run_singleton] at howner
      obtain ⟨-, heq⟩ := Attached.step_shutdown hattached
      refine ⟨?_, ?_⟩
      · rw [heq, TimerOwner.shutdown_timer howner]
        rfl
      · rw [heq]
        exact hs.word
  | tick timer pending first second =>
      rw [TimedOp.timers, Lts.run_singleton] at howner
      obtain ⟨-, hsame⟩ := TimerOwner.tick_cases howner
      have heq := (Option.some.inj hattached).symm
      obtain ⟨htimer, hword⟩ := handleTimer_kept s.attached.debuger pending first second
      refine ⟨?_, ?_⟩
      · rw [heq, hsame, ← hs.timer]
        exact htimer
      · rw [heq]
        exact hword.trans hs.word
  | setLogHook hook level =>
      have hsame := (Option.some.inj howner).symm
      have heq := (Option.some.inj hattached).symm
      refine ⟨?_, ?_⟩
      · rw [heq, hsame, ← hs.timer]
        exact Debuger.setLogHook_timer s.attached.debuger hook level
      · rw [heq]
        exact (Debuger.setLogHook_debugMode s.attached.debuger hook level).trans hs.word

theorem run_agrees (h : timed.run (construct allocated found first second) ops = some s) :
    s.Agrees allocated found :=
  Lts.run_invariant (M := timed) (I := Agrees allocated found)
    (fun _ _ _ hs hst => step_agrees hs hst) h construct_agrees

/-! ## After a `shutdown` -/

/-- What `~Debuger` would delete is not held by the logger. -/
def Destroyable (s : TimedDebuger) : Prop :=
  ∀ stream ∈ s.attached.debuger.destroy, s.attached.streams stream = false

/-- A `shutdown` is possible if `timer_` is set, and leaves nothing registered. -/
theorem shutdown_after (h : timed.run (construct allocated found first second) ops = some s)
    (htimer : s.owner.timer.isSome = true) :
    ∃ t, s.step .shutdown = some t ∧ t.owner.timer = none
      ∧ (t.owner.OwnTicks ↔ s.owner.OwnTicks)
      ∧ ∀ stream, t.attached.streams stream = false := by
  have hflagged : s.attached.Flagged := Attached.reachable_flagged (run_life h)
  have hwf : s.owner.Wf := TimerOwner.run_wf (run_timers h)
  rcases TimerOwner.shutdown_spec hwf with ⟨-, hnone⟩ | ⟨p, owner, -, -, howner, hnone, -⟩
  · rw [hnone] at htimer
    cases htimer
  · have hattached : s.attached.step .shutdown
        = some (s.attached.next s.attached.debuger.shutdown) := by
      rw [Attached.step, (run_agrees h).timer, htimer]
      rfl
    have hown := TimerOwner.step_ownTicks (a := .shutdown) hwf howner
    refine ⟨_, step_of_parts ((Lts.run_singleton _ _).trans howner) hattached, hnone, ?_, ?_⟩
    · exact hown.trans (and_iff_left fun hstart => by cases hstart)
    · exact Debuger.shutdown_clears hflagged.debug hflagged.hook

/-- A tick does nothing to the logger without a shared word. -/
theorem tick_without_word (hword : s.attached.debuger.debugMode = false) {timer : Nat}
    {pending : Bool} {first second : UInt32}
    (hst : s.step (.tick timer pending first second) = some t) :
    t.attached.debuger.debugMode = false ∧ t.attached.streams = s.attached.streams := by
  have heq := (Option.some.inj (step_parts hst).2).symm
  have hidle : s.attached.debuger.handleTimer pending first second
      = (s.attached.debuger, []) := by
    unfold Debuger.handleTimer Debuger.checkDebugMode
    rw [hword]
    cases pending <;> rfl
  rw [heq, hidle]
  exact ⟨hword, rfl⟩

theorem ticks_without_word :
    ∀ {ticks : List TimedOp} {s t : TimedDebuger}, s.attached.debuger.debugMode = false →
      (∀ op ∈ ticks, op.isTick = true) → timed.run s ticks = some t →
      t.attached.streams = s.attached.streams
  | [], s, t, _, _, h => by
      obtain rfl := Option.some.inj h
      rfl
  | op :: rest, s, t, hword, hticks, h => by
      rw [Lts.run_cons] at h
      obtain ⟨u, hu, hrest⟩ := Option.bind_eq_some_iff.mp h
      have hop : op.isTick = true := hticks op List.mem_cons_self
      cases op with
      | tick timer pending first second =>
          obtain ⟨hword', hstreams⟩ := tick_without_word hword hu
          rw [← hstreams]
          exact ticks_without_word hword'
            (fun op hmem => hticks op (List.mem_cons_of_mem _ hmem)) hrest
      | startup _ _ => cases hop
      | shutdown => cases hop
      | setLogHook _ _ => cases hop

/-- A tick of a timer that is left registers the debug stream. -/
theorem tick_registers (hword : s.attached.debuger.debugMode = true) {p : Nat}
    (hp : s.owner.timers.read p = some true) :
    ∃ t, s.step (.tick p true 1 1) = some t ∧ ¬t.Destroyable := by
  have howner : TimerOwner.owning.run s.owner (TimedOp.tick p true 1 1).timers
      = some s.owner := by
    rw [TimedOp.timers, Lts.run_singleton]
    exact if_pos hp
  have hcheck : s.attached.debuger.handleTimer true 1 1
      = ({ s.attached.debuger with debugLogStream := true, outStreamed := true },
        [.addStream .debug]) := by
    simp [Debuger.handleTimer, Debuger.checkDebugMode, hword]
  refine ⟨_, step_of_parts howner rfl, fun hall => ?_⟩
  have hheld := hall .debug (by simp [hcheck, Debuger.destroy])
  rw [Attached.next_streams, hcheck] at hheld
  simp [Streams.applyAll, Streams.apply] at hheld

/-- Without a timer of its own nothing ticks. -/
theorem no_tick (hown : s.owner.OwnTicks) (hnone : s.owner.timer = none) {op : TimedOp}
    (hop : op.isTick = true) (rest : List TimedOp) : timed.run s (op :: rest) ≠ some t := by
  intro hrun
  rw [Lts.run_cons] at hrun
  obtain ⟨u, hu, -⟩ := Option.bind_eq_some_iff.mp hrun
  have howner := (step_parts hu).1
  cases op with
  | tick p pending first second =>
      rw [TimedOp.timers, Lts.run_singleton] at howner
      have hp := hown p (TimerOwner.tick_cases howner).1
      rw [hnone] at hp
      cases hp
  | startup _ _ => cases hop
  | shutdown => cases hop
  | setLogHook _ _ => cases hop

/-- **When a `Debuger` can be destroyed.** After every run of a `Debuger` from its
constructor on that ends with a `shutdown`, whatever timers call
`handle_timer` from then on and whatever they read: `~Debuger` deletes no
stream that the logger holds, exactly if every `startup` of the run found
`timer_` to be `NULL` or there is no shared word. -/
theorem destroyable_iff (h : timed.run (construct allocated found first second) ops = some s)
    (htimer : s.owner.timer.isSome = true) :
    ∃ t, s.step .shutdown = some t
      ∧ ((∀ ticks u, (∀ op ∈ ticks, op.isTick = true) → timed.run t ticks = some u →
          u.Destroyable)
        ↔ TimerOwner.owning.Meets TimerOwner.StartsClean .construct
            (ops.flatMap TimedOp.timers) ∨ (allocated || found) = false) := by
  obtain ⟨t, hst, hnone, hown, hclear⟩ := shutdown_after h htimer
  have ht : t.Agrees allocated found := step_agrees (run_agrees h) hst
  refine ⟨t, hst, ?_⟩
  rw [← TimerOwner.run_ownTicks (run_timers h), ← hown]
  constructor
  · intro hall
    cases hword : (allocated || found) with
    | false => exact Or.inr rfl
    | true =>
        refine Or.inl fun p hp => ?_
        obtain ⟨u, hu, hbad⟩ := tick_registers (ht.word.trans hword) hp
        have hrun : timed.run t [.tick p true 1 1] = some u :=
          (Lts.run_singleton t _).trans hu
        exact absurd (hall _ u (by simp [TimedOp.isTick]) hrun) hbad
  · rintro (hown | hword) ticks u hticks hrun stream -
    · cases ticks with
      | nil =>
          obtain rfl := Option.some.inj hrun
          exact hclear stream
      | cons op rest => exact absurd hrun (no_tick hown hnone (hticks op List.mem_cons_self) rest)
    · rw [ticks_without_word (ht.word.trans hword) hticks hrun]
      exact hclear stream

/-- Started twice, outside debug mode. -/
def restarted : List TimedOp := [.startup 0 0, .startup 0 0]

theorem destroyable_iff_restarted :
    ∃ s t, timed.run (construct true false 0 0) restarted = some s ∧ s.step .shutdown = some t
      ∧ ¬∀ ticks u, (∀ op ∈ ticks, op.isTick = true) → timed.run t ticks = some u →
        u.Destroyable := by
  have h : timed.run (construct true false 0 0) restarted = some _ := rfl
  obtain ⟨t, hst, hiff⟩ := destroyable_iff h rfl
  refine ⟨_, t, h, hst, fun hall => ?_⟩
  rcases hiff.mp hall with hmeets | hword
  · -- the second startup finds the first one's timer
    have hsecond := (hmeets.2 _ rfl).1 rfl
    cases hsecond
  · cases hword

end TimedDebuger

end JustCommon
