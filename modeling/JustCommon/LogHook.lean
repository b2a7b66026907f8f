import JustCommon.DebugerStreams

/-!
# What the streams do with a record

The two streams of a `Debuger` with what they do on a record: the hook stream
copies it into its `buf_` and calls the hook, the debug stream pushes it as
a message. The operations are those of `Debuger` with their own `LOG_INFO`
and `LOG_DEBUG` between the calls on the logger, so that it is seen which of
the streams these reach.

What the logger itself decides is the parameter `Logger`: the text around a
message, the module's level, and which levels a stream gets.
-/

namespace JustCommon

open Debuger

/-- A record as it is handed to the streams, a `Stream::buffers_t`. -/
structure Record where
  level : Nat
  buffers : List Bytes
deriving DecidableEq, Repr

def Record.text (r : Record) : Bytes := r.buffers.flatten

/-- `framework::logger` -/
structure Logger where
  /-- `LOG_INFO`, `none` where the module does not log that level. -/
  info : Bytes → Option Record
  /-- `LOG_DEBUG` -/
  debug : Bytes → Option Record
  /-- A stream of this `level_` gets the record. -/
  passes : Nat → Record → Bool
  /-- `level_` of a stream for which it was not set. -/
  level : Nat

/-! ## The streams -/

/-- `util::buffers::buffers_copy`: what is in the destination then, and how much
was copied. -/
def buffersCopy (dst : Bytes) (src : List Bytes) : Bytes × Nat :=
  (src.flatten.take dst.length ++ dst.drop src.flatten.length,
    min dst.length src.flatten.length)

theorem length_buffersCopy (dst : Bytes) (src : List Bytes) :
    (buffersCopy dst src).1.length = dst.length := by
  simp only [buffersCopy, List.length_append, List.length_take, List.length_drop]
  omega

/-- `buf_` of a `HookLogStream` -/
def HookBuffer : Type := { buf : Bytes // buf.length = 1024 }

namespace HookBuffer

/-- `buffers_copy` into all but the last byte, then `buf_[size] = 0`. -/
def fill (b : HookBuffer) (buffers : List Bytes) : HookBuffer × Nat :=
  let copied := buffersCopy (b.val.take 1023) buffers
  (⟨(copied.1 ++ b.val.drop 1023).set copied.2 0, by
    rw [List.length_set, List.length_append, length_buffersCopy, List.length_take,
      List.length_drop, b.property]
    rfl⟩, copied.2)

/-- The copy and its terminator are inside the buffer, and nothing of what was
there before is in front of the terminator. -/
theorem fill_spec (b : HookBuffer) (buffers : List Bytes) :
    (b.fill buffers).2 = min 1023 buffers.flatten.length
      ∧ (b.fill buffers).1.val.take (b.fill buffers).2 = buffers.flatten.take 1023
      ∧ (b.fill buffers).1.val[(b.fill buffers).2]? = some 0 := by
  have hlength : (b.val.take 1023).length = 1023 := by
    rw [List.length_take, b.property]
    rfl
  have hsize : (b.fill buffers).2 = min 1023 buffers.flatten.length := by
    simp only [fill, buffersCopy, hlength]
  refine ⟨hsize, ?_, ?_⟩
  · rw [hsize]
    simp only [fill, buffersCopy, hlength]
    rw [List.take_set_of_le (Nat.le_refl _), List.append_assoc, List.take_append_of_le_length,
      List.take_take, List.take_eq_take_iff]
    · omega
    · rw [List.length_take]
  · rw [List.getElem?_eq_some_iff]
    have hlt : (b.fill buffers).2 < (b.fill buffers).1.val.length := by
      rw [(b.fill buffers).1.property, hsize]
      omega
    exact ⟨hlt, by simp [fill]⟩

end HookBuffer

/-- `callback_(buf_, size)`, with what it points to. -/
structure Dump where
  callback : Nat
  buf : HookBuffer
  size : Nat

def Dump.text (d : Dump) : Bytes := d.buf.val.take d.size

/-- `HookLogStream::write` -/
def HookLogStream.write (stream : HookLogStream) (b : HookBuffer) (buffers : List Bytes) :
    HookBuffer × List Dump :=
  match stream.callback with
  | none => (b, [])
  | some callback =>
      let filled := b.fill buffers
      (filled.1, [⟨callback, filled.1, filled.2⟩])

/-- `MsgQueueStream::parse_log`; `resize` fills with zeros. -/
def parseLog (buffers : List Bytes) : Message :=
  let copied := buffersCopy (List.replicate 1024 0) buffers
  { level := 1, receiver := ascii "Debuger", type := msgTypeLog
    data := copied.1.take copied.2 }

theorem parseLog_eq (buffers : List Bytes) : parseLog buffers = logMessage buffers.flatten := by
  have hdata : (buffersCopy (List.replicate 1024 0) buffers).1.take
      (buffersCopy (List.replicate 1024 0) buffers).2 = buffers.flatten.take 1024 := by
    simp only [buffersCopy, List.length_replicate]
    rw [List.take_append_of_le_length, List.take_take, List.take_eq_take_iff]
    · omega
    · rw [List.length_take]
  rw [parseLog, logMessage, hdata]

/-- `MsgQueueStream::write`: what it pushes. -/
def writeMsgQueue (buffers : List Bytes) : List Message :=
  let msg := parseLog buffers
  if msg.receiver.isEmpty then [] else [msg]

/-- The receiver is a constant, so every record is pushed. -/
theorem writeMsgQueue_eq (buffers : List Bytes) :
    writeMsgQueue buffers = [logMessage buffers.flatten] := by
  rw [writeMsgQueue, parseLog_eq]
  rfl

/-! ## The operations with their own records -/

/-- A call on the logger, or a record of the operation itself. -/
inductive LoggerStep where
  | call (call : LoggerCall)
  | record (r : Option Record)
deriving DecidableEq, Repr

def LoggerStep.call? : LoggerStep → Option LoggerCall
  | .call c => some c
  | .record _ => none

namespace Debuger

variable (L : Logger)

def enterText : Bytes := ascii "[check_debug_mode] enter debug mode"
def leaveText : Bytes := ascii "[check_debug_mode] leave debug mode"
def shutdownText : Bytes := ascii "[shutdown] leave debug mode"

/-- The `LOG_DEBUG` of `handle_timer`. -/
def handleTimerText (popped : Message) : Bytes :=
  ascii "[handle_timer] msg: data = " ++ popped.data
    ++ ascii ", sender = " ++ popped.sender
    ++ ascii ", receiver = " ++ popped.receiver
    ++ ascii ", level = " ++ ascii (toString popped.level)

def checkDebugModeLogged (d : Debuger) (first second : UInt32) :
    Debuger × List LoggerStep :=
  if d.debugMode then
    if first = 1 then
      ({ d with debugLogStream := true, outStreamed := true },
        [.call (.addStream .debug), .record (L.info enterText)])
    else if second = 0 ∧ d.debugLogStream then
      ({ d with outStreamed := false },
        [.record (L.info leaveText), .call (.delStream .debug)])
    else (d, [])
  else (d, [])

def startupLogged (d : Debuger) (first second : UInt32) : Debuger × List LoggerStep :=
  checkDebugModeLogged L { d with timer := true } first second

def shutdownLogged (d : Debuger) : Debuger × List LoggerStep :=
  ({ d with timer := false },
    (if d.hookStreamed then [.call (.delStream .hook)] else [])
      ++ if d.outStreamed then
          [.record (L.info shutdownText), .call (.delStream .debug)]
        else [])

/-- It has no record of its own. -/
def setLogHookLogged (d : Debuger) (hook : Option Nat) (level : UInt64) :
    Debuger × List LoggerStep :=
  ((d.setLogHook hook level).1, (d.setLogHook hook level).2.map .call)

/-- `popped` is the debug message, if there was one. -/
def handleTimerLogged (d : Debuger) (popped : Option Message) (first second : UInt32) :
    Debuger × List LoggerStep :=
  match popped with
  | none => (d, [])
  | some m =>
      let checked := checkDebugModeLogged L d first second
      (checked.1, checked.2 ++ [.record (L.debug (handleTimerText m))])

/-- Without their records these are the operations. -/
theorem checkDebugModeLogged_erase (d : Debuger) (first second : UInt32) :
    ((checkDebugModeLogged L d first second).1,
      (checkDebugModeLogged L d first second).2.filterMap LoggerStep.call?)
        = d.checkDebugMode first second := by
  unfold checkDebugModeLogged checkDebugMode
  split
  · split
    · rfl
    · split <;> rfl
  · rfl

theorem shutdownLogged_erase (d : Debuger) :
    ((shutdownLogged L d).1, (shutdownLogged L d).2.filterMap LoggerStep.call?)
      = d.shutdown := by
  rw [shutdownLogged, shutdown]
  cases d.hookStreamed <;> cases d.outStreamed <;> rfl

theorem setLogHookLogged_erase (d : Debuger) (hook : Option Nat) (level : UInt64) :
    ((setLogHookLogged d hook level).1,
      (setLogHookLogged d hook level).2.filterMap LoggerStep.call?) = d.setLogHook hook level := by
  simp only [setLogHookLogged, List.filterMap_map]
  rw [show LoggerStep.call? ∘ LoggerStep.call = some from rfl, List.filterMap_some]

theorem handleTimerLogged_erase (d : Debuger) (popped : Option Message)
    (first second : UInt32) :
    ((handleTimerLogged L d popped first second).1,
      (handleTimerLogged L d popped first second).2.filterMap LoggerStep.call?)
        = d.handleTimer popped.isSome first second := by
  cases popped with
  | none => rfl
  | some m =>
      have herase := checkDebugModeLogged_erase L d first second
      simp only [handleTimerLogged, handleTimer, Option.isSome_some, if_true, List.filterMap_append]
      rw [show ([LoggerStep.record (L.debug (handleTimerText m))].filterMap LoggerStep.call?) = []
        from rfl, List.append_nil]
      exact herase

end Debuger

/-! ## A `Debuger` among records -/

/-- An `Attached` with what its streams hold and did. -/
structure Listening where
  attached : Attached
  /-- `buf_` of `*hook_log_stream_` -/
  buf : HookBuffer
  /-- The calls of the hooks; history. -/
  heard : List Dump
  /-- The messages pushed by the debug stream; history. -/
  pushed : List Message

inductive ListenOp where
  | startup (first second : UInt32)
  | shutdown
  /-- A tick, and the debug message it popped. -/
  | tick (popped : Option Message) (first second : UInt32)
  | setLogHook (hook : Option Nat) (level : UInt64)
  /-- A record of any module. -/
  | log (r : Record)

/-- The operation it is on the `Debuger`. -/
def ListenOp.life : ListenOp → List DebugerOp
  | .startup first second => [.startup first second]
  | .shutdown => [.shutdown]
  | .tick popped first second => [.tick popped.isSome first second]
  | .setLogHook hook level => [.setLogHook hook level]
  | .log _ => []

namespace Listening

variable (L : Logger)

/-- The record at the debug stream. -/
def toDebug (s : Listening) (r : Record) : Listening :=
  if s.attached.streams .debug && L.passes L.level r then
    { s with pushed := s.pushed ++ writeMsgQueue r.buffers }
  else s

/-- The record at the hook stream; `none` if the logger holds one that is not
there. -/
def toHook (s : Listening) (r : Record) : Option Listening :=
  if s.attached.streams .hook then
    s.attached.debuger.hookLogStream.map fun stream =>
      if L.passes stream.level.toNat r then
        let written := stream.write s.buf r.buffers
        { s with buf := written.1, heard := s.heard ++ written.2 }
      else s
  else some s

def deliver (s : Listening) (r : Record) : Option Listening := (s.toDebug L r).toHook L r

/-- One step on the logger. -/
def perform (s : Listening) : LoggerStep → Option Listening
  | .call c => some { s with attached :=
      { s.attached with streams := s.attached.streams.apply c, calls := s.attached.calls ++ [c] } }
  | .record none => some s
  | .record (some r) => s.deliver L r

/-- The steps of an operation on the logger. -/
def performing : Lts Listening LoggerStep where
  init _ := True
  step := perform L

/-- The object after an operation, before the logger is called. -/
def become (s : Listening) (d : Debuger) : Listening :=
  { s with attached := { s.attached with debuger := d } }

/-- The operation's outcome with what it does on the logger. -/
def outcome (s : Listening) (r : Debuger × List LoggerStep) : Option Listening :=
  (performing L).run (s.become r.1) r.2

def step (s : Listening) : ListenOp → Option Listening
  | .startup first second =>
      s.outcome L (startupLogged L s.attached.debuger first second)
  | .shutdown =>
      if s.attached.debuger.timer then s.outcome L (shutdownLogged L s.attached.debuger)
      else none
  | .tick popped first second =>
      s.outcome L (handleTimerLogged L s.attached.debuger popped first second)
  | .setLogHook hook level => s.outcome L (setLogHookLogged s.attached.debuger hook level)
  | .log r => s.deliver L r

/-- Right after the constructor; `buf_` is not initialised. -/
def constructed (allocated found : Bool) (first second : UInt32) (buf : HookBuffer) :
    Option Listening :=
  outcome L ⟨Attached.blank allocated found, buf, [], []⟩
    (checkDebugModeLogged L (Attached.blank allocated found).debuger first second)

def listening : Lts Listening ListenOp where
  init s := ∃ allocated found first second buf,
    constructed L allocated found first second buf = some s
  step := step L

end Listening

end JustCommon
