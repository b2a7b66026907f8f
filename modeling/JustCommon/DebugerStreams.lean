import JustCommon.ModeSync
import Mathlib.Data.List.Chain

/-!
# The log streams over a `Debuger`'s life

A `Debuger` from its construction on, with the logger it hands its streams
to. Registration happens in the constructor, in `startup`, on each debug
message and in `set_log_hook`; it is undone on a debug message, in
`set_log_hook` and in `shutdown`. `shutdown` goes by the two flags alone and
leaves them set, and no operation asks whether a stream is registered
before it adds or deletes it.

The word may have any value at any read, so each read is an argument of the
operation that makes it. What a process of a deployment does to its
`Debuger` is one of these lives (`life_of_process`).
-/

namespace JustCommon

namespace Debuger

/-! ## Streams and flags -/

/-- The hook stream's part of what `shutdown` relies on; `Streamed` is the
debug stream's. -/
def HookStreamed (held : Streams) (d : Debuger) : Prop :=
  held .hook = true → d.hookLogStream.isSome = true ∧ d.hookStreamed = true

/-- `check_debug_mode` does not touch the hook stream. -/
theorem checkDebugMode_hook (held : Streams) (d : Debuger) (first second : UInt32) :
    held.applyAll (d.checkDebugMode first second).2 .hook = held .hook
      ∧ (d.checkDebugMode first second).1.hookLogStream = d.hookLogStream
      ∧ (d.checkDebugMode first second).1.hookStreamed = d.hookStreamed := by
  rcases d.checkDebugMode_cases first second with
    ⟨-, -, heq⟩ | ⟨-, -, -, -, heq⟩ | ⟨-, heq⟩ <;>
    rw [heq] <;> simp [Streams.applyAll, Streams.apply]

theorem setLogHook_hookStreamed {held : Streams} {d : Debuger} (hook : Option Nat)
    (level : UInt64) (h : HookStreamed held d) :
    HookStreamed (held.applyAll (d.setLogHook hook level).2) (d.setLogHook hook level).1 := by
  rcases d.setLogHook_cases hook level with ⟨_, -, heq⟩ | ⟨-, -, heq⟩ | ⟨-, hs, heq⟩ <;>
    rw [heq]
  · intro _
    exact ⟨rfl, rfl⟩
  · simp [HookStreamed, Streams.applyAll, Streams.apply]
  · -- the stream was never created, so it is not registered
    intro hh
    have hcreated := (h hh).1
    rw [hs] at hcreated
    cases hcreated

/-- Flags that cover the registered streams make `shutdown` delete them all. -/
theorem shutdown_clears {held : Streams} {d : Debuger} (hdebug : Streamed held d)
    (hhook : HookStreamed held d) (stream : LogStream) :
    held.applyAll d.shutdown.2 stream = false := by
  cases hh : d.hookStreamed <;> cases ho : d.outStreamed <;> cases stream <;>
    simp_all [shutdown, Streams.applyAll, Streams.apply, Streamed, HookStreamed]

end Debuger

/-! ## The calls on one stream -/

/-- Whether a call is about `stream`, and then whether it adds it. -/
def LoggerCall.adds (stream : LogStream) : LoggerCall → Option Bool
  | .addStream s => if s = stream then some true else none
  | .delStream s => if s = stream then some false else none

/-- The calls on `stream` in order: `true` for `add_stream`, `false` for
`del_stream`. -/
def callsOn (stream : LogStream) (calls : List LoggerCall) : List Bool :=
  calls.filterMap (LoggerCall.adds stream)

@[simp] theorem callsOn_append (stream : LogStream) (calls new : List LoggerCall) :
    callsOn stream (calls ++ new) = callsOn stream calls ++ callsOn stream new :=
  List.filterMap_append

/-- Strict alternation that begins with `add_stream`: no call on the stream
repeats the one before, a `del_stream` standing before the first. -/
def Alternates (stream : LogStream) (calls : List LoggerCall) : Prop :=
  (false :: callsOn stream calls).IsChain (· ≠ ·)

instance (stream : LogStream) (calls : List LoggerCall) :
    Decidable (Alternates stream calls) :=
  inferInstanceAs (Decidable ((false :: callsOn stream calls).IsChain (· ≠ ·)))

/-- What a logger holds is decided by the last call. -/
theorem applyAll_eq_getLast (stream : LogStream) (calls : List LoggerCall) :
    Streams.applyAll (fun _ => false) calls stream
      = (false :: callsOn stream calls).getLast (List.cons_ne_nil _ _) := by
  induction calls using List.reverseRecOn with
  | nil => rfl
  | append_singleton calls call ih =>
      have hlast : Streams.applyAll (fun _ => false) (calls ++ [call])
          = (Streams.applyAll (fun _ => false) calls).apply call := by
        simp [Streams.applyAll]
      rw [hlast]
      cases call with
      | addStream s =>
          by_cases hs : s = stream
          · subst hs
            simp [Streams.apply, callsOn, LoggerCall.adds]
          · have hne : stream ≠ s := fun h => hs h.symm
            simpa [Streams.apply, callsOn, LoggerCall.adds, hs, hne] using ih
      | delStream s =>
          by_cases hs : s = stream
          · subst hs
            simp [Streams.apply, callsOn, LoggerCall.adds]
          · have hne : stream ≠ s := fun h => hs h.symm
            simpa [Streams.apply, callsOn, LoggerCall.adds, hs, hne] using ih

/-- At most one more call on the stream keeps the alternation exactly if it
changes what the logger holds. -/
theorem alternates_append {stream : LogStream} {calls new : List LoggerCall}
    (hone : (callsOn stream new).length ≤ 1) :
    Alternates stream (calls ++ new)
      ↔ Alternates stream calls
        ∧ Streams.applyAll (fun _ => false) calls stream ∉ callsOn stream new := by
  rw [applyAll_eq_getLast, Alternates, callsOn_append, ← List.cons_append,
    List.isChain_append]
  cases hnew : callsOn stream new with
  | nil => simp [Alternates]
  | cons b rest =>
      rw [hnew, List.length_cons] at hone
      have hrest : rest = [] := List.length_eq_zero_iff.mp (by omega)
      subst hrest
      simp [Alternates, List.getLast?_eq_some_getLast]

namespace Debuger

theorem callsOn_shutdown_debug (d : Debuger) :
    callsOn .debug d.shutdown.2 = if d.outStreamed then [false] else [] := by
  cases hh : d.hookStreamed <;> cases ho : d.outStreamed <;>
    simp [shutdown, callsOn, LoggerCall.adds, hh, ho]

theorem callsOn_shutdown_hook (d : Debuger) :
    callsOn .hook d.shutdown.2 = if d.hookStreamed then [false] else [] := by
  cases hh : d.hookStreamed <;> cases ho : d.outStreamed <;>
    simp [shutdown, callsOn, LoggerCall.adds, hh, ho]

theorem callsOn_checkDebugMode_hook (d : Debuger) (first second : UInt32) :
    callsOn .hook (d.checkDebugMode first second).2 = [] := by
  rcases d.checkDebugMode_cases first second with
    ⟨-, -, heq⟩ | ⟨-, -, -, -, heq⟩ | ⟨-, heq⟩ <;> rw [heq] <;> rfl

theorem callsOn_setLogHook_debug (d : Debuger) (hook : Option Nat) (level : UInt64) :
    callsOn .debug (d.setLogHook hook level).2 = [] := by
  rcases d.setLogHook_cases hook level with ⟨_, -, heq⟩ | ⟨-, -, heq⟩ | ⟨-, -, heq⟩ <;>
    rw [heq] <;> rfl

end Debuger

/-! ## A `Debuger` with its logger -/

structure Attached where
  debuger : Debuger
  /-- Which of the two streams the logger holds. -/
  streams : Streams
  /-- The calls made on the logger since before the constructor; history. -/
  calls : List LoggerCall

inductive DebugerOp where
  | startup (first second : UInt32)
  | shutdown
  | tick (pending : Bool) (first second : UInt32)
  | setLogHook (hook : Option Nat) (level : UInt64)
deriving DecidableEq, Repr

namespace Attached

/-- The outcome of an operation, the logger having answered its calls. -/
def next (s : Attached) (r : Debuger × List LoggerCall) : Attached :=
  { debuger := r.1
    streams := s.streams.applyAll r.2
    calls := s.calls ++ r.2 }

@[simp] theorem next_debuger (s : Attached) (r : Debuger × List LoggerCall) :
    (s.next r).debuger = r.1 := rfl

@[simp] theorem next_streams (s : Attached) (r : Debuger × List LoggerCall) :
    (s.next r).streams = s.streams.applyAll r.2 := rfl

@[simp] theorem next_calls (s : Attached) (r : Debuger × List LoggerCall) :
    (s.next r).calls = s.calls ++ r.2 := rfl

/-- The members as the constructor initialises them, before its
`check_debug_mode`. -/
def blank (allocated found : Bool) : Attached where
  debuger :=
    { debugMode := allocated || found
      debugLogStream := false
      hookLogStream := none
      timer := false
      outStreamed := false
      hookStreamed := false }
  streams := fun _ => false
  calls := []

/-- Right after the constructor. -/
def construct (allocated found : Bool) (first second : UInt32) : Attached :=
  (blank allocated found).next (Debuger.construct allocated found first second)

theorem construct_eq (allocated found : Bool) (first second : UInt32) :
    construct allocated found first second
      = (blank allocated found).next
          ((blank allocated found).debuger.checkDebugMode first second) := rfl

/-- `shutdown` needs a timer to stop; a tick does not, as a second `startup`
leaves the first one's timer running. -/
def step (s : Attached) : DebugerOp → Option Attached
  | .startup first second => some (s.next (s.debuger.startup first second))
  | .shutdown =>
      if s.debuger.timer then some (s.next s.debuger.shutdown) else none
  | .tick pending first second =>
      some (s.next (s.debuger.handleTimer pending first second))
  | .setLogHook hook level => some (s.next (s.debuger.setLogHook hook level))

theorem step_shutdown {s t : Attached} (hst : s.step .shutdown = some t) :
    s.debuger.timer = true ∧ t = s.next s.debuger.shutdown := by
  simp only [step] at hst
  split at hst
  · rename_i htimer
    exact ⟨htimer, (Option.some.inj hst).symm⟩
  · cases hst

/-- Every life of a `Debuger`. -/
def life : Lts Attached DebugerOp where
  init s := ∃ allocated found first second, s = construct allocated found first second
  step := step

/-- What `shutdown` relies on. -/
structure Flagged (s : Attached) : Prop where
  debug : Debuger.Streamed s.streams s.debuger
  hook : Debuger.HookStreamed s.streams s.debuger

theorem blank_flagged (allocated found : Bool) : (blank allocated found).Flagged :=
  ⟨fun h => absurd h (by simp [blank]), fun h => absurd h (by simp [blank])⟩

theorem checkDebugMode_flagged {s : Attached} (h : s.Flagged) (first second : UInt32) :
    (s.next (s.debuger.checkDebugMode first second)).Flagged := by
  obtain ⟨hheld, hlog, hflag⟩ :=
    Debuger.checkDebugMode_hook s.streams s.debuger first second
  refine ⟨Debuger.checkDebugMode_streamed first second h.debug, ?_⟩
  intro hhook
  rw [next_streams, hheld] at hhook
  rw [next_debuger, hlog, hflag]
  exact h.hook hhook

/-- The flags survive a restart: `shutdown` leaves them set and nothing
registered. -/
theorem step_flagged {s t : Attached} {op : DebugerOp} (h : s.Flagged)
    (hst : s.step op = some t) : t.Flagged := by
  cases op with
  | startup first second =>
      obtain rfl := Option.some.inj hst
      exact checkDebugMode_flagged
        (s := { s with debuger := { s.debuger with timer := true } })
        ⟨h.debug, h.hook⟩ first second
  | shutdown =>
      obtain ⟨-, rfl⟩ := step_shutdown hst
      have hclear := Debuger.shutdown_clears h.debug h.hook
      constructor
      · intro hd
        rw [next_streams, hclear] at hd
        cases hd
      · intro hh
        rw [next_streams, hclear] at hh
        cases hh
  | tick pending first second =>
      obtain rfl := Option.some.inj hst
      cases pending with
      | true => exact checkDebugMode_flagged h first second
      | false => exact ⟨h.debug, h.hook⟩
  | setLogHook hook level =>
      obtain rfl := Option.some.inj hst
      obtain ⟨hheld, hlog, hflag⟩ :=
        Debuger.setLogHook_debug s.streams s.debuger hook level
      refine ⟨?_, Debuger.setLogHook_hookStreamed hook level h.hook⟩
      intro hd
      rw [next_streams, hheld] at hd
      rw [next_debuger, hlog, hflag]
      exact h.debug hd

theorem reachable_flagged {s : Attached} (h : life.Reachable s) : s.Flagged := by
  refine h.invariant (I := Flagged) ?_ fun s op t _ hs hst => step_flagged hs hst
  rintro s ⟨allocated, found, first, second, rfl⟩
  rw [construct_eq]
  exact checkDebugMode_flagged (blank_flagged allocated found) first second

/-- **No stream stays registered past shutdown.** In every reachable state a
registered stream's flag is set; so a shutdown leaves nothing registered, and
what a `~Debuger` right after it deletes is not held by the logger. -/
theorem no_stream_past_shutdown {s : Attached} (h : life.Reachable s) :
    (s.streams .hook = true → s.debuger.hookStreamed = true)
      ∧ (s.streams .debug = true → s.debuger.outStreamed = true)
      ∧ ∀ t, s.step .shutdown = some t →
          (∀ stream, t.streams stream = false)
            ∧ ∀ stream ∈ t.debuger.destroy, t.streams stream = false := by
  have hs : s.Flagged := reachable_flagged h
  refine ⟨fun hh => (hs.hook hh).2, fun hd => (hs.debug hd).2, ?_⟩
  intro t ht
  obtain ⟨-, rfl⟩ := step_shutdown ht
  have hclear : ∀ stream, (s.next s.debuger.shutdown).streams stream = false :=
    Debuger.shutdown_clears hs.debug hs.hook
  exact ⟨hclear, fun stream _ => hclear stream⟩

/-- Two cycles with both streams registered, the word having changed to 7 when
the second begins. -/
def twoCycles : List DebugerOp :=
  [.startup 1 1, .setLogHook (some 5) 2, .shutdown, .startup 7 7, .tick true 1 1]

theorem no_stream_past_shutdown_twoCycles :
    ∃ s, life.run (construct true false 1 1) twoCycles = some s
      ∧ s.streams .debug = true
      ∧ ∃ t, s.step .shutdown = some t ∧ ∀ stream, t.streams stream = false := by
  refine ⟨_, rfl, by decide, _, rfl, ?_⟩
  have h : life.Reachable _ :=
    Lts.reachable_of_run ⟨true, false, 1, 1, rfl⟩ (rfl : life.run _ twoCycles = some _)
  exact ((no_stream_past_shutdown h).2.2 _ rfl).1

/-! ## Opening a stream

The first call on a stream creates it, and only a created one is deleted. -/

/-- A stream that was created was added first; one that was not is in no call. -/
def Opened (stream : LogStream) (created : Bool) (calls : List LoggerCall) : Prop :=
  if created then (callsOn stream calls).head? = some true else callsOn stream calls = []

theorem Opened.head_ne {stream : LogStream} {created : Bool} {calls : List LoggerCall}
    (h : Opened stream created calls) : (callsOn stream calls).head? ≠ some false := by
  cases created with
  | true =>
      have hhead : (callsOn stream calls).head? = some true := h
      rw [hhead]
      decide
  | false =>
      have hnil : callsOn stream calls = [] := h
      rw [hnil]
      decide

/-- Adding a stream, which may be its creation. -/
theorem Opened.add {stream : LogStream} {created : Bool} {calls new : List LoggerCall}
    (h : Opened stream created calls) (hnew : callsOn stream new = [true]) :
    Opened stream true (calls ++ new) := by
  show (callsOn stream (calls ++ new)).head? = some true
  cases created with
  | true =>
      have hhead : (callsOn stream calls).head? = some true := h
      simp [hhead]
  | false =>
      have hnil : callsOn stream calls = [] := h
      simp [hnil, hnew]

/-- Further calls on a created stream. -/
theorem Opened.more {stream : LogStream} {calls : List LoggerCall}
    (h : Opened stream true calls) (new : List LoggerCall) :
    Opened stream true (calls ++ new) := by
  have hhead : (callsOn stream calls).head? = some true := h
  show (callsOn stream (calls ++ new)).head? = some true
  simp [hhead]

/-- Calls on the other stream. -/
theorem Opened.other {stream : LogStream} {created : Bool} {calls new : List LoggerCall}
    (h : Opened stream created calls) (hnew : callsOn stream new = []) :
    Opened stream created (calls ++ new) := by
  unfold Opened at h ⊢
  rwa [callsOn_append, hnew, List.append_nil]

/-- What the calls so far say about the object and the logger. -/
structure Recorded (s : Attached) : Prop where
  streams : s.streams = Streams.applyAll (fun _ => false) s.calls
  debug : Opened .debug s.debuger.debugLogStream s.calls
  hook : Opened .hook s.debuger.hookLogStream.isSome s.calls
  debug_created : s.debuger.outStreamed = true → s.debuger.debugLogStream = true
  hook_created : s.debuger.hookStreamed = true → s.debuger.hookLogStream.isSome = true

theorem next_logged {s : Attached}
    (h : s.streams = Streams.applyAll (fun _ => false) s.calls)
    (r : Debuger × List LoggerCall) :
    (s.next r).streams = Streams.applyAll (fun _ => false) (s.next r).calls := by
  rw [next_streams, next_calls, h]
  simp [Streams.applyAll]

theorem checkDebugMode_recorded {s : Attached} (h : s.Recorded) (first second : UInt32) :
    (s.next (s.debuger.checkDebugMode first second)).Recorded := by
  have hlog := next_logged h.streams (s.debuger.checkDebugMode first second)
  rcases s.debuger.checkDebugMode_cases first second with
    ⟨-, -, heq⟩ | ⟨-, -, -, hcreated, heq⟩ | ⟨-, heq⟩ <;> rw [heq] at hlog ⊢
  · exact ⟨hlog, h.debug.add rfl, h.hook.other rfl, fun _ => rfl, h.hook_created⟩
  · have hdebug : Opened .debug true s.calls := hcreated ▸ h.debug
    refine ⟨hlog, ?_, h.hook.other rfl, fun hout => absurd hout (by simp), h.hook_created⟩
    rw [next_debuger, hcreated]
    exact hdebug.more _
  · exact ⟨hlog, h.debug.other rfl, h.hook.other rfl, h.debug_created, h.hook_created⟩

theorem setLogHook_recorded {s : Attached} (h : s.Recorded) (hook : Option Nat)
    (level : UInt64) : (s.next (s.debuger.setLogHook hook level)).Recorded := by
  have hlog := next_logged h.streams (s.debuger.setLogHook hook level)
  rcases s.debuger.setLogHook_cases hook level with
    ⟨_, -, heq⟩ | ⟨-, hcreated, heq⟩ | ⟨-, hnone, heq⟩ <;> rw [heq] at hlog ⊢
  · exact ⟨hlog, h.debug.other rfl, h.hook.add rfl, h.debug_created, fun _ => rfl⟩
  · have hhook : Opened .hook true s.calls := hcreated ▸ h.hook
    exact ⟨hlog, h.debug.other rfl, hhook.more _, h.debug_created, fun _ => rfl⟩
  · exact ⟨hlog, h.debug.other rfl, h.hook.other rfl, h.debug_created,
      fun hflag => absurd hflag (by simp)⟩

theorem shutdown_recorded {s : Attached} (h : s.Recorded) :
    (s.next s.debuger.shutdown).Recorded := by
  refine ⟨next_logged h.streams _, ?_, ?_, h.debug_created, h.hook_created⟩
  · cases ho : s.debuger.outStreamed with
    | true =>
        have hdebug : Opened .debug true s.calls := h.debug_created ho ▸ h.debug
        show Opened .debug s.debuger.debugLogStream _
        rw [h.debug_created ho]
        exact hdebug.more _
    | false => exact h.debug.other (by simp [Debuger.callsOn_shutdown_debug, ho])
  · cases hh : s.debuger.hookStreamed with
    | true =>
        have hhook : Opened .hook true s.calls := h.hook_created hh ▸ h.hook
        show Opened .hook s.debuger.hookLogStream.isSome _
        rw [h.hook_created hh]
        exact hhook.more _
    | false => exact h.hook.other (by simp [Debuger.callsOn_shutdown_hook, hh])

theorem step_recorded {s t : Attached} {op : DebugerOp} (h : s.Recorded)
    (hst : s.step op = some t) : t.Recorded := by
  cases op with
  | startup first second =>
      obtain rfl := Option.some.inj hst
      exact checkDebugMode_recorded
        (s := { s with debuger := { s.debuger with timer := true } })
        ⟨h.streams, h.debug, h.hook, h.debug_created, h.hook_created⟩ first second
  | shutdown =>
      obtain ⟨-, rfl⟩ := step_shutdown hst
      exact shutdown_recorded h
  | tick pending first second =>
      obtain rfl := Option.some.inj hst
      cases pending with
      | true => exact checkDebugMode_recorded h first second
      | false =>
          exact ⟨next_logged h.streams _, h.debug.other rfl, h.hook.other rfl,
            h.debug_created, h.hook_created⟩
  | setLogHook hook level =>
      obtain rfl := Option.some.inj hst
      exact setLogHook_recorded h hook level

theorem construct_recorded (allocated found : Bool) (first second : UInt32) :
    (construct allocated found first second).Recorded := by
  have hblank : (blank allocated found).Recorded :=
    ⟨rfl, rfl, rfl, fun h => absurd h (by simp [blank]),
      fun h => absurd h (by simp [blank])⟩
  rw [construct_eq]
  exact checkDebugMode_recorded hblank first second

/-! ## Alternation -/

/-- `check_debug_mode` finds the debug stream as it wants it: the word says 1
and it is registered, or 0 and it is created and not registered. -/
def CheckRepeats (s : Attached) (first second : UInt32) : Prop :=
  s.debuger.debugMode = true
    ∧ (first = 1 ∧ s.streams .debug = true
      ∨ first ≠ 1 ∧ second = 0 ∧ s.debuger.debugLogStream = true
        ∧ s.streams .debug = false)

/-- The operation repeats the last call on the stream: `check_debug_mode` and
`set_log_hook` when the stream is as they want it, `shutdown` when the flag
is left from before and the stream is not registered. -/
def Repeats (s : Attached) : LogStream → DebugerOp → Prop
  | .debug, .startup first second => s.CheckRepeats first second
  | .debug, .tick pending first second => pending = true ∧ s.CheckRepeats first second
  | .debug, .shutdown => s.debuger.outStreamed = true ∧ s.streams .debug = false
  | .hook, .shutdown => s.debuger.hookStreamed = true ∧ s.streams .hook = false
  | .hook, .setLogHook (some _) _ => s.streams .hook = true
  | .hook, .setLogHook none _ =>
      s.debuger.hookLogStream.isSome = true ∧ s.streams .hook = false
  | _, _ => False

/-- `new` holds at most one call on `stream`, which repeats what the logger has
exactly if `P`. -/
structure Added (held : Streams) (stream : LogStream) (new : List LoggerCall) (P : Prop) :
    Prop where
  length : (callsOn stream new).length ≤ 1
  repeats : held stream ∈ callsOn stream new ↔ P

theorem checkDebugMode_added (s : Attached) (first second : UInt32) :
    Added s.streams .debug (s.debuger.checkDebugMode first second).2
      (s.CheckRepeats first second) := by
  unfold CheckRepeats
  rcases s.debuger.checkDebugMode_cases first second with
    ⟨hptr, hfirst, heq⟩ | ⟨hptr, hfirst, hsecond, hcreated, heq⟩ | ⟨hstay, heq⟩ <;>
    rw [heq]
  · exact ⟨le_refl _, by simp [callsOn, LoggerCall.adds, hptr, hfirst]⟩
  · exact ⟨le_refl _,
      by simp [callsOn, LoggerCall.adds, hptr, hfirst, hsecond, hcreated]⟩
  · refine ⟨Nat.zero_le _, iff_of_false (by simp [callsOn]) ?_⟩
    rintro ⟨hptr, ⟨hfirst, -⟩ | ⟨-, hsecond, hcreated, -⟩⟩
    · exact (hstay hptr).1 hfirst
    · rw [(hstay hptr).2 hsecond] at hcreated
      cases hcreated

/-- `shutdown` deletes a stream whose flag is set. -/
theorem shutdown_added {held : Streams} {stream : LogStream} {new : List LoggerCall}
    (flag : Bool) (hnew : callsOn stream new = if flag then [false] else []) :
    Added held stream new (flag = true ∧ held stream = false) := by
  cases flag with
  | true => exact ⟨by simp [hnew], by simp [hnew]⟩
  | false => exact ⟨by simp [hnew], by simp [hnew]⟩

theorem setLogHook_added (s : Attached) (hook : Option Nat) (level : UInt64) :
    Added s.streams .hook (s.debuger.setLogHook hook level).2
      (s.Repeats .hook (.setLogHook hook level)) := by
  rcases s.debuger.setLogHook_cases hook level with
    ⟨callback, rfl, heq⟩ | ⟨rfl, hcreated, heq⟩ | ⟨rfl, hnone, heq⟩ <;> rw [heq]
  · refine ⟨le_refl _, ?_⟩
    show s.streams .hook ∈ [true] ↔ s.streams .hook = true
    exact List.mem_singleton
  · refine ⟨le_refl _, ?_⟩
    show s.streams .hook ∈ [false]
      ↔ s.debuger.hookLogStream.isSome = true ∧ s.streams .hook = false
    rw [List.mem_singleton, and_iff_right hcreated]
  · refine ⟨Nat.zero_le _, iff_of_false (List.not_mem_nil) ?_⟩
    rintro ⟨hcreated, -⟩
    rw [hnone] at hcreated
    cases hcreated

/-- The calls an operation adds to a stream's history. -/
theorem step_added {s t : Attached} {op : DebugerOp} (stream : LogStream)
    (hst : s.step op = some t) :
    ∃ new, t.calls = s.calls ++ new ∧ Added s.streams stream new (s.Repeats stream op) := by
  have hnone : ∀ {new : List LoggerCall} {P : Prop}, callsOn stream new = [] → ¬P →
      Added s.streams stream new P := by
    intro new P hnew hP
    refine ⟨by simp [hnew], iff_of_false ?_ hP⟩
    simp [hnew]
  cases op with
  | startup first second =>
      obtain rfl := Option.some.inj hst
      refine ⟨_, rfl, ?_⟩
      cases stream with
      | debug =>
          exact checkDebugMode_added
            { s with debuger := { s.debuger with timer := true } } first second
      | hook => exact hnone (Debuger.callsOn_checkDebugMode_hook _ _ _) not_false
  | shutdown =>
      obtain ⟨-, rfl⟩ := step_shutdown hst
      refine ⟨_, rfl, ?_⟩
      cases stream with
      | debug => exact shutdown_added _ (Debuger.callsOn_shutdown_debug _)
      | hook => exact shutdown_added _ (Debuger.callsOn_shutdown_hook _)
  | tick pending first second =>
      obtain rfl := Option.some.inj hst
      refine ⟨_, rfl, ?_⟩
      cases pending with
      | true =>
          cases stream with
          | debug =>
              have hcheck := checkDebugMode_added s first second
              exact ⟨hcheck.length, hcheck.repeats.trans (and_iff_right rfl).symm⟩
          | hook => exact hnone (Debuger.callsOn_checkDebugMode_hook _ _ _) not_false
      | false =>
          cases stream with
          | debug => exact hnone rfl fun hrepeats => absurd hrepeats.1 (by decide)
          | hook => exact hnone rfl not_false
  | setLogHook hook level =>
      obtain rfl := Option.some.inj hst
      refine ⟨_, rfl, ?_⟩
      cases stream with
      | debug => exact hnone (Debuger.callsOn_setLogHook_debug _ _ _) not_false
      | hook => exact setLogHook_added s hook level

/-- A step keeps the alternation exactly if it does not repeat. -/
theorem step_alternates {s t : Attached} {op : DebugerOp} (h : s.Recorded)
    (stream : LogStream) (hst : s.step op = some t) :
    Alternates stream t.calls ↔ Alternates stream s.calls ∧ ¬s.Repeats stream op := by
  obtain ⟨new, hcalls, hadd⟩ := step_added stream hst
  rw [hcalls, alternates_append hadd.length, ← h.streams, hadd.repeats]

/-- The constructor makes at most one call, which adds the debug stream. -/
theorem construct_alternates (allocated found : Bool) (first second : UInt32)
    (stream : LogStream) :
    Alternates stream (construct allocated found first second).calls := by
  rw [construct_eq, next_calls]
  rcases (blank allocated found).debuger.checkDebugMode_cases first second with
    ⟨-, -, heq⟩ | ⟨-, -, -, hcreated, -⟩ | ⟨-, heq⟩
  · rw [heq]
    show Alternates stream [.addStream .debug]
    cases stream <;> decide
  · cases hcreated
  · rw [heq]
    show Alternates stream []
    cases stream <;> decide

/-- After a `shutdown` the last call on each stream, if any, deletes it. -/
theorem shutdown_last {s t : Attached} (h : s.Recorded) (hf : s.Flagged)
    (hst : s.step .shutdown = some t) (stream : LogStream) :
    (callsOn stream t.calls).getLast? ≠ some true := by
  have hrec : t.Recorded := step_recorded h hst
  obtain ⟨-, rfl⟩ := step_shutdown hst
  have hclear : (s.next s.debuger.shutdown).streams stream = false :=
    Debuger.shutdown_clears hf.debug hf.hook stream
  intro hlast
  obtain ⟨before, hbefore⟩ := List.getLast?_eq_some_iff.mp hlast
  rw [hrec.streams, applyAll_eq_getLast] at hclear
  simp only [hbefore] at hclear
  simp at hclear

/-- **The calls on the logger.** In every life each stream's calls begin with
`add_stream`, and after a `shutdown` they are none or end with `del_stream`.
They alternate strictly exactly in the lives in which no operation repeats
the last call. -/
theorem logger_calls_balanced {allocated found : Bool} {first second : UInt32}
    {ops : List DebugerOp} {s : Attached}
    (h : life.run (construct allocated found first second) ops = some s)
    (stream : LogStream) :
    (callsOn stream s.calls).head? ≠ some false
      ∧ (∀ t, s.step .shutdown = some t → (callsOn stream t.calls).getLast? ≠ some true)
      ∧ (Alternates stream s.calls
        ↔ life.Meets (fun s op => ¬s.Repeats stream op)
            (construct allocated found first second) ops) := by
  have hstart : (construct allocated found first second).Recorded :=
    construct_recorded allocated found first second
  have hrec : s.Recorded :=
    Lts.run_invariant (M := life) (I := Recorded)
      (fun _ _ _ hr hst => step_recorded hr hst) h hstart
  have hflag : s.Flagged :=
    reachable_flagged (Lts.reachable_of_run ⟨allocated, found, first, second, rfl⟩ h)
  refine ⟨?_, fun t ht => shutdown_last hrec hflag ht stream, ?_⟩
  · cases stream with
    | debug => exact hrec.debug.head_ne
    | hook => exact hrec.hook.head_ne
  · have hexact : Alternates stream s.calls
        ↔ Alternates stream (construct allocated found first second).calls
          ∧ life.Meets (fun s op => ¬s.Repeats stream op)
              (construct allocated found first second) ops :=
      @Lts.run_good_iff _ _ life _ Recorded (fun s => Alternates stream s.calls)
        (fun _ _ _ hr hst => step_recorded hr hst)
        (fun _ _ _ hr hst => step_alternates hr stream hst) ops _ s h hstart
    rw [hexact]
    exact and_iff_right (construct_alternates allocated found first second stream)


theorem logger_calls_balanced_twoCycles :
    life.Meets (fun s op => ¬s.Repeats .debug op) (construct false true 0 0) twoCycles := by
  have h : life.run (construct false true 0 0) twoCycles = some _ := rfl
  exact (logger_calls_balanced h .debug).2.2.mp (by decide)

/-- A `Debuger` constructed and started while the word is 1 adds its debug
stream twice. -/
theorem started_in_debug_mode_adds_twice :
    ∃ s, life.run (construct false true 1 1) [.startup 1 1] = some s
      ∧ callsOn .debug s.calls = [true, true] ∧ ¬Alternates .debug s.calls :=
  ⟨_, rfl, by decide, by decide⟩

end Attached

/-! ## In a deployment -/

namespace Deployment

variable {Proc Ctl Shm : Type} [DecidableEq Proc] [DecidableEq Ctl]
variable {D : Deployment Proc Ctl Shm}

/-- The `Debuger` of a process and the process's logger, at some point of a
life. -/
def Alive (w : World Proc Ctl Shm) (p : Proc) : Prop :=
  ((w.proc p).debuger = none → ∀ stream, (w.proc p).streams stream = false)
    ∧ ∀ d, (w.proc p).debuger = some d →
      ∃ calls, Attached.life.Reachable ⟨d, (w.proc p).streams, calls⟩

omit [DecidableEq Proc] [DecidableEq Ctl] in
/-- An operation of a process is one of the life's. -/
theorem alive_op {w : World Proc Ctl Shm} {a : Action Proc Ctl} {p : Proc}
    {op : Debuger → Debuger × List LoggerCall} (hop : w.debugerOp a = some (p, op))
    (ha : D.enabled w a = true) {d : Debuger} (hd : (w.proc p).debuger = some d)
    {s : Attached} (hs : s.debuger = d) :
    ∃ op', s.step op' = some (s.next (op s.debuger)) := by
  cases a with
  | startup q =>
      obtain ⟨-, rfl⟩ := Prod.mk.inj (Option.some.inj hop)
      exact ⟨.startup w.word w.word, rfl⟩
  | shutdown q =>
      obtain ⟨rfl, rfl⟩ := Prod.mk.inj (Option.some.inj hop)
      have htimer : s.debuger.timer = true := by
        simpa [enabled, Process.running, hd, hs] using ha
      exact ⟨.shutdown, by simp [Attached.step, htimer]⟩
  | setLogHook q hook level =>
      obtain ⟨-, rfl⟩ := Prod.mk.inj (Option.some.inj hop)
      exact ⟨.setLogHook hook level, rfl⟩
  | tickCheck q =>
      simp only [World.debugerOp] at hop
      split at hop
      · obtain ⟨-, rfl⟩ := Prod.mk.inj (Option.some.inj hop)
        exact ⟨.tick true w.word w.word, rfl⟩
      · cases hop
  | _ => cases hop

theorem Alive.step {w : World Proc Ctl Shm} {a : Action Proc Ctl} {p : Proc}
    (h : Alive w p) (ha : D.enabled w a = true) : Alive (D.next w a) p := by
  by_cases hmade : a = .construct p
  · subst hmade
    have hnone : (w.proc p).debuger = none := by
      have hboth : D.common p ∈ D.queue.names w.shm ∧ (w.proc p).debuger = none := by
        simpa [enabled] using ha
      exact hboth.2
    obtain ⟨hd, hs⟩ := next_construct (D := D) w p
    have hempty : (w.proc p).streams = fun _ => false := funext (h.1 hnone)
    rw [hempty] at hs
    refine ⟨fun hn => (by rw [hd] at hn; cases hn), fun d hd' => ?_⟩
    obtain rfl := Option.some.inj (hd.symm.trans hd')
    rw [hs]
    exact ⟨_, Attached.construct false true w.word w.word, ⟨_, _, _, _, rfl⟩, .refl⟩
  · rcases next_debugerStep w hmade with ⟨hd, hs, -⟩ | ⟨d, op, hop, hd, hd', hs⟩
    · unfold Alive
      rw [hd, hs]
      exact h
    · refine ⟨fun hn => (by rw [hd'] at hn; cases hn), fun d₁ hd₁ => ?_⟩
      obtain rfl := Option.some.inj (hd'.symm.trans hd₁)
      obtain ⟨calls, hlife⟩ := h.2 d hd
      obtain ⟨op', hst⟩ := alive_op hop ha hd
        (s := ⟨d, (w.proc p).streams, calls⟩) rfl
      rw [hs]
      exact ⟨_, hlife.tail trivial hst⟩

/-- Whatever the processes do, each `Debuger` lives a life of its own. -/
theorem life_of_process {w : World Proc Ctl Shm} (hw : D.system.Reachable w) (p : Proc) :
    Alive w p := by
  refine Lts.Reachable.invariant (I := fun w => ∀ p, Alive w p) ?_ ?_ hw p
  · intro w₀ h₀ p
    refine ⟨fun _ => h₀.streams p, fun d hd => ?_⟩
    rw [h₀.debuger p] at hd
    cases hd
  · intro w a w' _ h hst p
    obtain ⟨ha, rfl⟩ := step_eq_some.mp hst
    exact (h p).step ha

/-- A process that shut its `Debuger` down has no stream registered. -/
theorem shutdown_releases {w : World Proc Ctl Shm} (hw : D.system.Reachable w) {p : Proc}
    {d : Debuger} (hd : (w.proc p).debuger = some d) (stream : LogStream) :
    ((D.next w (.shutdown p)).proc p).streams stream = false := by
  obtain ⟨calls, hlife⟩ := (life_of_process hw p).2 d hd
  have hflag := Attached.reachable_flagged hlife
  have hstreams : ((D.next w (.shutdown p)).proc p).streams
      = (w.proc p).streams.applyAll d.shutdown.2 := by
    show ((w.debuger p Debuger.shutdown).proc p).streams = _
    rw [World.debuger_proc_self hd]
  rw [hstreams]
  exact Debuger.shutdown_clears hflag.debug hflag.hook stream

end Deployment

end JustCommon
