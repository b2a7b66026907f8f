import Mathlib.Data.List.Infix
import JustCommon.Debuger
import JustCommon.Runs

/-!
# The debug proxy

`DebugProxy::startup`, `shutdown` and `start()`, the body of its thread. The
thread stands at a `Point` of `start()`, and a step takes it to the next
one. What the step gets from outside (the result of an accept, a read or a
write, the User-Agent, the messages popped) is an `Answer` in the label, of
which it looks at what it needs. `shutdown` is a step of its own and may
come between any two steps of the thread; what it does to an operation in
progress is in the answer to that operation.

`exit_` is set by `shutdown` and reset by nothing.
-/

namespace JustCommon

/-- Where the thread is in `DebugProxy::start`. -/
inductive Point where
  /-- `while (!exit_)`, the outer loop -/
  | outerTest
  /-- `socket_.accept(acceptor_, ec)` -/
  | accept
  /-- The test of `exit_` and `ec` under the mutex. -/
  | lock
  /-- `socket_.read(request.head(), ec)` -/
  | read
  /-- `socket_.write(response.head(), ec)`, not a Firefox -/
  | refuseHead
  | refuseBody
  /-- `debuger_.change_debug_mode(true)` -/
  | debugOn
  /-- `socket_.write(response.head(), ec)` of a session -/
  | head
  /-- `while (!exit_)`, the streaming loop -/
  | streamTest
  /-- `debuger_.get_debug_msg(msgs, 1, NULL, 5)` -/
  | pop
  | body (text : Bytes)
  | returned
deriving DecidableEq, Repr

structure Answer where
  ec : ErrorCode := .success
  userAgent : Bytes := []
  popped : List Message := []
deriving DecidableEq, Repr

/-- What was written to the client. -/
inductive Output where
  /-- A response head; `keepAlive` is its `connection` field. -/
  | head (keepAlive : Bool)
  | body (text : Bytes)
deriving DecidableEq, Repr

/-- Between `startup` and `shutdown`; `stopping` is the wait for the thread. -/
inductive Phase where
  | stopped
  | running
  | stopping
deriving DecidableEq, Repr

structure DebugProxy where
  phase : Phase
  /-- `exit_` -/
  exit : Bool
  /-- `ec` of `start()` -/
  ec : ErrorCode
  /-- `socket_` is open. -/
  socket : Bool
  thread : Option Point
  /-- The arguments of the `change_debug_mode` calls so far. -/
  modeCalls : List Bool
  /-- What was written on the connection, the last one accepted. -/
  sent : List Output
  /-- History: `shutdown` was called since the last `startup`. -/
  shutdownSince : Bool
  /-- History: an accept reported an error since the last `startup`. -/
  acceptFailed : Bool
deriving DecidableEq, Repr

namespace DebugProxy

inductive Action where
  /-- `startup`, `acceptor_.open` giving `ec` -/
  | startup (ec : ErrorCode)
  /-- The locked part of `shutdown`. -/
  | shutdown
  /-- The rest of `shutdown`: the thread is joined. -/
  | join
  /-- A step of the thread. -/
  | thread (answer : Answer)
deriving DecidableEq, Repr

/-- The constructor. -/
def new : DebugProxy where
  phase := .stopped
  exit := false
  ec := .success
  socket := false
  thread := none
  modeCalls := []
  sent := []
  shutdownSince := false
  acceptFailed := false

/-- `value().find("Firefox") != npos` -/
def fromFirefox (userAgent : Bytes) : Bool := decide (ascii "Firefox" <:+: userAgent)

def refusal : Bytes := ascii "Please user Firefox to check log!"

/-- `boost::asio::error::operation_aborted` -/
def operationAborted : ErrorCode := .other 125

/-- A popped message as it is streamed. -/
def format (localTime : Nat → Bytes) (m : Message) : Bytes :=
  ascii "[" ++ localTime m.time ++ ascii "] " ++ ascii "[" ++ m.sender ++ ascii "] " ++ m.data

def goto (s : DebugProxy) (point : Point) : DebugProxy := { s with thread := some point }

/-- `socket_.close(ec)` -/
def close (s : DebugProxy) : DebugProxy := { s with socket := false }

def changeDebugMode (s : DebugProxy) (bdebug : Bool) : DebugProxy :=
  { s with modeCalls := s.modeCalls ++ [bdebug] }

def write (s : DebugProxy) (output : Output) : DebugProxy :=
  { s with sent := s.sent ++ [output] }

/-- `start()` from one point to the next; `TimeHelper::local_time_str` is
`localTime`. -/
def resume (localTime : Nat → Bytes) (s : DebugProxy) (answer : Answer) :
    Point → Option DebugProxy
  | .outerTest => some (if s.exit then s.goto .returned else s.goto .accept)
  | .accept => some ({ s with
      ec := answer.ec
      socket := !answer.ec.failed
      sent := []
      acceptFailed := s.acceptFailed || answer.ec.failed }.goto .lock)
  | .lock =>
      let ec := if s.exit then operationAborted else s.ec
      some (
        if ec.failed then { s with ec }.close.goto .returned
        else { s with ec }.goto .read)
  | .read => some (
      if answer.ec.failed then s.close.goto .returned
      else if fromFirefox answer.userAgent then s.goto .debugOn
      else s.goto .refuseHead)
  | .refuseHead => some (
      if answer.ec.failed then s.close.goto .returned
      else (s.write (.head false)).goto .refuseBody)
  | .refuseBody =>
      -- either way the connection is closed and the next one accepted
      some ((if answer.ec.failed then s else s.write (.body refusal)).close.goto .outerTest)
  | .debugOn => some ((s.changeDebugMode true).goto .head)
  | .head => some (
      if answer.ec.failed then (s.close.changeDebugMode false).goto .returned
      else (s.write (.head true)).goto .streamTest)
  | .streamTest => some (if s.exit then s.goto .outerTest else s.goto .pop)
  | .pop =>
      match answer.popped.take 1 with
      -- sleep, continue
      | [] => some (s.goto .streamTest)
      | msgs => some (s.goto (.body (msgs.flatMap (format localTime))))
  | .body text => some (
      if answer.ec.failed then (s.close.changeDebugMode false).goto .outerTest
      else (s.write (.body text)).goto .streamTest)
  | .returned => none

def step (localTime : Nat → Bytes) (s : DebugProxy) : Action → Option DebugProxy
  | .startup ec =>
      if s.phase = .stopped then
        -- without an acceptor there is no thread, and no error
        some { s with
          phase := .running
          thread := if ec.failed then none else some .outerTest
          shutdownSince := false
          acceptFailed := false }
      else none
  | .shutdown =>
      if s.phase = .running then
        some { s with phase := .stopping, exit := true, shutdownSince := true }
      else none
  | .join =>
      if s.phase = .stopping ∧ (s.thread = none ∨ s.thread = some .returned) then
        some { s with phase := .stopped, thread := none }
      else none
  | .thread answer => s.thread.bind (s.resume localTime answer)

def system (localTime : Nat → Bytes) : Lts DebugProxy Action where
  init s := s = new
  step := step localTime

end DebugProxy

end JustCommon
