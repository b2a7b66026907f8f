import JustCommon.MessageQueue

/-!
# The debuger

One `Debuger` object: its log streams, the flags that remember whether a
stream was handed to the logger, and the operations that read the shared
debug word. The word itself is not part of the object; an operation that
reads `*debug_mode_` takes the values it read as arguments, one per read.
Each operation returns the calls it makes on the logger, in order.

The logger is taken to keep a set of streams (`Streams.apply`), adding and
deleting being idempotent.
-/

namespace JustCommon

/-- The two streams a `Debuger` can register. -/
inductive LogStream where
  /-- `*debug_log_stream_`, a `MsgQueueStream` -/
  | debug
  /-- `*hook_log_stream_`, a `HookLogStream` -/
  | hook
deriving DecidableEq, Repr

inductive LoggerCall where
  | addStream (stream : LogStream)
  | delStream (stream : LogStream)
deriving DecidableEq, Repr

/-- Which streams the logger of a process holds. -/
abbrev Streams := LogStream → Bool

def Streams.apply (held : Streams) : LoggerCall → Streams
  | .addStream stream => Function.update held stream true
  | .delStream stream => Function.update held stream false

def Streams.applyAll (held : Streams) (calls : List LoggerCall) : Streams :=
  calls.foldl Streams.apply held

/-- `callback_` and `level_`, as `set_log_dump` was given them. -/
structure HookLogStream where
  callback : Option Nat
  level : UInt32
deriving DecidableEq, Repr

structure Debuger where
  /-- `debug_mode_` is not `NULL`. -/
  debugMode : Bool
  /-- `debug_log_stream_` is not `NULL`. -/
  debugLogStream : Bool
  hookLogStream : Option HookLogStream
  /-- `timer_` is not `NULL`: started and not shut down. -/
  timer : Bool
  outStreamed : Bool
  hookStreamed : Bool
deriving DecidableEq, Repr

namespace Debuger

def msgTypeDebug : Nat := 3
def msgTypeLog : Nat := 2
def msgLevel : Int := 0

/-! ## Messages -/

/-- `msg_push` of `change_debug_mode`, and the filter `msg_pop` of
`change_debug_mode` and of `handle_timer`. -/
def debugMessage : Message := { level := msgLevel, type := msgTypeDebug }

/-- The acknowledgement `handle_timer` pushes for the message it popped. -/
def acknowledgement (popped : Message) : Message :=
  { debugMessage with receiver := popped.sender }

/-- The filter `get_debug_msg` pops with; a null `module` is an empty one. -/
def logFilter (module : Bytes) (level : Int) : Message :=
  { type := msgTypeLog, level, sender := module }

/-- `MsgQueueStream::parse_log`: a record is cut off at 1024 bytes. -/
def logMessage (buffers : Bytes) : Message :=
  { level := 1, receiver := ascii "Debuger", type := msgTypeLog
    data := buffers.take 1024 }

/-! ## Operations -/

/-- `check_debug_mode`, the two reads of `*debug_mode_` giving `first` and
`second`. -/
def checkDebugMode (d : Debuger) (first second : UInt32) :
    Debuger × List LoggerCall :=
  if d.debugMode then
    if first = 1 then
      ({ d with debugLogStream := true, outStreamed := true }, [.addStream .debug])
    else if second = 0 ∧ d.debugLogStream then
      ({ d with outStreamed := false }, [.delStream .debug])
    else (d, [])
  else (d, [])

/-- The constructor, after `alloc_with_id` and, if that gave `NULL`,
`get_by_id` returned: whether each gave a pointer. -/
def construct (allocated found : Bool) (first second : UInt32) :
    Debuger × List LoggerCall :=
  checkDebugMode
    { debugMode := allocated || found
      debugLogStream := false
      hookLogStream := none
      timer := false
      outStreamed := false
      hookStreamed := false } first second

def startup (d : Debuger) (first second : UInt32) : Debuger × List LoggerCall :=
  checkDebugMode { d with timer := true } first second

/-- The flags are tested and not reset. -/
def shutdown (d : Debuger) : Debuger × List LoggerCall :=
  ({ d with timer := false },
    (if d.hookStreamed then [.delStream .hook] else [])
      ++ if d.outStreamed then [.delStream .debug] else [])

/-- `level` is a `size_t`; `set_log_dump` takes its low 32 bits. -/
def setLogHook (d : Debuger) (hook : Option Nat) (level : UInt64) :
    Debuger × List LoggerCall :=
  match hook with
  | none =>
      match d.hookLogStream with
      | some _ =>
          ({ d with hookLogStream := some ⟨none, 0⟩, hookStreamed := false },
            [.delStream .hook])
      | none => ({ d with hookStreamed := false }, [])
  | some callback =>
      ({ d with
          hookLogStream := some ⟨some callback, level.toUInt32⟩
          hookStreamed := true },
        [.addStream .hook])

/-- `handle_timer` up to the push of its acknowledgement: `pending` says whether
the queue held a debug message to pop. -/
def handleTimer (d : Debuger) (pending : Bool) (first second : UInt32) :
    Debuger × List LoggerCall :=
  if pending then checkDebugMode d first second else (d, [])

/-- `~Debuger`: the streams it deletes. The logger is not told. -/
def destroy (d : Debuger) : List LogStream :=
  (if d.hookLogStream.isSome then [.hook] else [])
    ++ if d.debugLogStream then [.debug] else []

/-- What `change_debug_mode` stores; `none` is a write through `NULL`. -/
def storeDebugMode (d : Debuger) (bdebug : Bool) : Option UInt32 :=
  if d.debugMode then some (if bdebug then 1 else 0) else none

/-! ## What an operation can do -/

/-- `check_debug_mode` enters debug mode, leaves it or does nothing. -/
theorem checkDebugMode_cases (d : Debuger) (first second : UInt32) :
    (d.debugMode = true ∧ first = 1
        ∧ d.checkDebugMode first second
          = ({ d with debugLogStream := true, outStreamed := true }, [.addStream .debug]))
      ∨ (d.debugMode = true ∧ first ≠ 1 ∧ second = 0 ∧ d.debugLogStream = true
        ∧ d.checkDebugMode first second
          = ({ d with outStreamed := false }, [.delStream .debug]))
      ∨ ((d.debugMode = true → first ≠ 1 ∧ (second = 0 → d.debugLogStream = false))
        ∧ d.checkDebugMode first second = (d, [])) := by
  unfold checkDebugMode
  split
  · rename_i hptr
    split
    · rename_i hfirst
      exact Or.inl ⟨hptr, hfirst, rfl⟩
    · rename_i hfirst
      split
      · rename_i hleave
        exact Or.inr (Or.inl ⟨hptr, hfirst, hleave.1, hleave.2, rfl⟩)
      · rename_i hstay
        refine Or.inr (Or.inr ⟨fun _ => ⟨hfirst, fun hsecond => ?_⟩, rfl⟩)
        cases hs : d.debugLogStream with
        | true => exact absurd ⟨hsecond, hs⟩ hstay
        | false => rfl
  · rename_i hptr
    exact Or.inr (Or.inr ⟨fun h => absurd h hptr, rfl⟩)

/-- `set_log_hook` registers the stream, deletes it or finds none to delete. -/
theorem setLogHook_cases (d : Debuger) (hook : Option Nat) (level : UInt64) :
    (∃ callback, hook = some callback
        ∧ d.setLogHook hook level
          = ({ d with
              hookLogStream := some ⟨some callback, level.toUInt32⟩
              hookStreamed := true },
            [.addStream .hook]))
      ∨ (hook = none ∧ d.hookLogStream.isSome = true
        ∧ d.setLogHook hook level
          = ({ d with hookLogStream := some ⟨none, 0⟩, hookStreamed := false },
            [.delStream .hook]))
      ∨ (hook = none ∧ d.hookLogStream = none
        ∧ d.setLogHook hook level = ({ d with hookStreamed := false }, [])) := by
  cases hook with
  | some callback => exact Or.inl ⟨callback, rfl, rfl⟩
  | none =>
      cases hs : d.hookLogStream with
      | some stream => exact Or.inr (Or.inl ⟨rfl, rfl, by simp [setLogHook, hs]⟩)
      | none => exact Or.inr (Or.inr ⟨rfl, rfl, by simp [setLogHook, hs]⟩)

@[simp] theorem checkDebugMode_timer (d : Debuger) (first second : UInt32) :
    (d.checkDebugMode first second).1.timer = d.timer := by
  rcases d.checkDebugMode_cases first second with ⟨-, -, h⟩ | ⟨-, -, -, -, h⟩ | ⟨-, h⟩ <;>
    rw [h]

@[simp] theorem checkDebugMode_debugMode (d : Debuger) (first second : UInt32) :
    (d.checkDebugMode first second).1.debugMode = d.debugMode := by
  rcases d.checkDebugMode_cases first second with ⟨-, -, h⟩ | ⟨-, -, -, -, h⟩ | ⟨-, h⟩ <;>
    rw [h]

@[simp] theorem setLogHook_timer (d : Debuger) (hook : Option Nat) (level : UInt64) :
    (d.setLogHook hook level).1.timer = d.timer := by
  rcases d.setLogHook_cases hook level with ⟨_, -, h⟩ | ⟨-, -, h⟩ | ⟨-, -, h⟩ <;> rw [h]

@[simp] theorem setLogHook_debugMode (d : Debuger) (hook : Option Nat) (level : UInt64) :
    (d.setLogHook hook level).1.debugMode = d.debugMode := by
  rcases d.setLogHook_cases hook level with ⟨_, -, h⟩ | ⟨-, -, h⟩ | ⟨-, -, h⟩ <;> rw [h]

/-! ## The debug stream and its flag

`Streamed held d` is what `shutdown` relies on: a registered debug stream
was created and its flag is set. -/

def Streamed (held : Streams) (d : Debuger) : Prop :=
  held .debug = true → d.debugLogStream = true ∧ d.outStreamed = true

/-- Whatever the two reads give, a registered debug stream keeps its flag. -/
theorem checkDebugMode_streamed {held : Streams} {d : Debuger} (first second : UInt32)
    (h : Streamed held d) :
    Streamed (held.applyAll (d.checkDebugMode first second).2)
      (d.checkDebugMode first second).1 := by
  rcases d.checkDebugMode_cases first second with
    ⟨-, -, heq⟩ | ⟨-, -, -, -, heq⟩ | ⟨-, heq⟩ <;> rw [heq]
  · intro _
    exact ⟨rfl, rfl⟩
  · simp [Streamed, Streams.applyAll, Streams.apply]
  · exact h

/-- Reading the word once as 0 or 1 leaves the debug stream registered exactly
if it was 1. -/
theorem checkDebugMode_synced {held : Streams} {d : Debuger} {word : UInt32}
    (hptr : d.debugMode = true) (hword : word = 0 ∨ word = 1) (h : Streamed held d) :
    Streamed (held.applyAll (d.checkDebugMode word word).2) (d.checkDebugMode word word).1
      ∧ (held.applyAll (d.checkDebugMode word word).2 .debug = true ↔ word = 1) := by
  refine ⟨checkDebugMode_streamed word word h, ?_⟩
  rcases d.checkDebugMode_cases word word with
    ⟨-, hone, heq⟩ | ⟨-, hne, -, -, heq⟩ | ⟨hstay, heq⟩ <;> rw [heq]
  · exact iff_of_true (by simp [Streams.applyAll, Streams.apply]) hone
  · exact iff_of_false (by simp [Streams.applyAll, Streams.apply]) hne
  · -- the word is 0 and the stream was never created, so it is not registered
    obtain ⟨hne, hnever⟩ := hstay hptr
    refine iff_of_false (fun hheld => ?_) hne
    have hcreated : d.debugLogStream = true := (h hheld).1
    rw [hnever (hword.resolve_right hne)] at hcreated
    cases hcreated

theorem shutdown_streamed {held : Streams} {d : Debuger} (h : Streamed held d) :
    Streamed (held.applyAll d.shutdown.2) d.shutdown.1 := by
  unfold Streamed at h ⊢
  cases hhook : d.hookStreamed <;> cases hout : d.outStreamed <;>
    simp_all [shutdown, Streams.applyAll, Streams.apply]

/-- `set_log_hook` does not touch the debug stream. -/
theorem setLogHook_debug (held : Streams) (d : Debuger) (hook : Option Nat)
    (level : UInt64) :
    held.applyAll (d.setLogHook hook level).2 .debug = held .debug
      ∧ (d.setLogHook hook level).1.debugLogStream = d.debugLogStream
      ∧ (d.setLogHook hook level).1.outStreamed = d.outStreamed := by
  rcases d.setLogHook_cases hook level with ⟨_, -, heq⟩ | ⟨-, -, heq⟩ | ⟨-, -, heq⟩ <;>
    rw [heq] <;> simp [Streams.applyAll, Streams.apply]

end Debuger

end JustCommon
