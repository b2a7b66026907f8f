import JustCommon.Handshake
import JustCommon.ModeSync
import JustCommon.ProxyRuns

/-!
# The records of a debug session

One streaming session of a `DebugProxy`, among the processes of a
deployment. The thread of the proxy calls `change_debug_mode(true)`, writes
the response head and then moves records from the queue of its `Debuger` to
the client, one at a time. Any process may write to the log, which pushes a
record into the same queue, and any timer handler may push the
acknowledgement it owes there.

The session is a `DebugProxy` and a `World` moving together: each step of
`LogSession.step` is a step of one or of both, so what holds of all runs of
either holds of it. The one step of `DebugProxy` that stands for the whole
`change_debug_mode` is here the steps of the call (`changeMode`). A failed
write and a set `exit_` end the session: there is no step for them.

The first 1024 bytes of each record reach the client once, in the order of
the pushes: what was written, what was popped and what is queued add up to
what was pushed since the call's `clear`.
-/

namespace JustCommon

open Debuger MessageQueue

/-- What a `MsgQueueStream::write` pushed: from which queue, when, and the text
it was given. -/
structure LogRecord where
  sender : Bytes
  time : Nat
  text : Bytes
deriving DecidableEq, Repr

namespace LogRecord

/-- The message in the queue. -/
def queued (r : LogRecord) : Message :=
  { logMessage r.text with sender := r.sender, time := r.time }

/-- `[time] [sender] ` and the first 1024 bytes of the text. -/
def formatted (localTime : Nat → Bytes) (r : LogRecord) : Bytes :=
  ascii "[" ++ localTime r.time ++ ascii "] " ++ ascii "[" ++ r.sender ++ ascii "] "
    ++ r.text.take 1024

theorem format_queued (localTime : Nat → Bytes) (r : LogRecord) :
    DebugProxy.format localTime r.queued = r.formatted localTime := rfl

end LogRecord

/-- The caller whose `change_debug_mode` makes the action. -/
def Action.caller {Proc Ctl : Type} : Action Proc Ctl → Option Ctl
  | .store c _ => some c
  | .clear c => some c
  | .broadcast c => some c
  | .awaitAck c => some c
  | .leave c => some c
  | _ => none

structure LogSession (Proc Ctl Shm : Type) where
  world : World Proc Ctl Shm
  proxy : DebugProxy
  /-- The records pushed since the session's `clear`; `none` before it. -/
  logged : Option (List LogRecord)

namespace LogSession

inductive Label (Proc Ctl : Type) where
  /-- An action that is not the session's. -/
  | world (a : Action Proc Ctl)
  /-- The session's `change_debug_mode(true)`. -/
  | mode
  /-- The session after it; `ec` is the result of a write. -/
  | stream (ec : ErrorCode)
  /-- `DebugProxy::shutdown` -/
  | shutdown

variable {Proc Ctl Shm : Type} [DecidableEq Proc] [DecidableEq Ctl]

section Model

variable (D : Deployment Proc Ctl Shm) (c : Ctl) (localTime : Nat → Bytes)

/-- The queue of the session's `Debuger`. -/
def own : Bytes := D.own (D.home c)

/-- The records after `a`: a log writer adds one. -/
def record (s : LogSession Proc Ctl Shm) : Action Proc Ctl → Option (List LogRecord)
  | .log p buffers =>
      s.logged.map (· ++ [⟨D.common p, D.queue.now s.world.shm, buffers⟩])
  | _ => s.logged

/-- The next step of `change_debug_mode(true)`; its return takes the thread to
the response head. -/
def changeMode (s : LogSession Proc Ctl Shm) : Option (LogSession Proc Ctl Shm) :=
  match s.world.call c with
  | .idle => (D.system.step s.world (.store c true)).map fun world => { s with world }
  | .stored =>
      (D.system.step s.world (.clear c)).map fun world => { s with world, logged := some [] }
  | .cleared => (D.system.step s.world (.broadcast c)).map fun world => { s with world }
  | .waiting number timeOut =>
      if number != 0 && timeOut != 0 then
        (D.system.step s.world (.awaitAck c)).map fun world => { s with world }
      else do
        let world ← D.system.step s.world (.leave c)
        let proxy ← s.proxy.step localTime (.thread {})
        return { s with world, proxy }

/-- What `get_debug_msg(msgs, 1, NULL, 5)` pops. -/
def popped (s : LogSession Proc Ctl Shm) : Option Message :=
  (D.queue.pop s.world.shm (own D c) (logFilter [] 5)).1

/-- The thread from the response head on, from one point to the next; a failed
write or a set `exit_` ends the session. -/
def stream (s : LogSession Proc Ctl Shm) (ec : ErrorCode) :
    Option (LogSession Proc Ctl Shm) :=
  match s.proxy.thread with
  | some .head =>
      if ec.failed then none
      else (s.proxy.step localTime (.thread { ec })).map fun proxy => { s with proxy }
  | some .streamTest =>
      if s.proxy.exit then none
      else (s.proxy.step localTime (.thread {})).map fun proxy => { s with proxy }
  | some .pop => do
      let world ← D.system.step s.world (.getDebugMsg (D.home c) [] 5)
      let proxy ← s.proxy.step localTime (.thread { popped := (s.popped D c).toList })
      return { s with world, proxy }
  | some (.body _) =>
      if ec.failed then none
      else (s.proxy.step localTime (.thread { ec })).map fun proxy => { s with proxy }
  | _ => none

def step (s : LogSession Proc Ctl Shm) : Label Proc Ctl → Option (LogSession Proc Ctl Shm)
  | .world a =>
      if a.caller = some c then none
      else (D.system.step s.world a).map fun world =>
        { s with world, logged := s.record D a }
  | .mode => if s.proxy.thread = some .debugOn then s.changeMode D c localTime else none
  | .stream ec => s.stream D c localTime ec
  | .shutdown =>
      (s.proxy.step localTime .shutdown).map fun proxy => { s with proxy }

/-- The thread is about to call `change_debug_mode(true)`, at any point of any
run of the processes and of the proxy. -/
def session : Lts (LogSession Proc Ctl Shm) (Label Proc Ctl) where
  init s := D.system.Reachable s.world ∧ (DebugProxy.system localTime).Reachable s.proxy
    ∧ s.proxy.thread = some .debugOn ∧ s.world.call c = .idle ∧ s.logged = none
  step := step D c localTime

/-- Nobody else clears the queue of the session's `Debuger` or takes records
from it. -/
def Alone (_ : LogSession Proc Ctl Shm) : Label Proc Ctl → Prop
  | .world (.clear c') => D.own (D.home c') ≠ own D c
  | .world (.getDebugMsg p _ _) => D.own p ≠ own D c
  | _ => True

/-- The log records in the queue of the session's `Debuger`, oldest first. -/
def records (s : LogSession Proc Ctl Shm) : List Message :=
  ofType msgTypeLog (D.queue.pending s.world.shm (own D c))

end Model

/-- The bodies written on the connection, the response head apart. -/
def streamed (sent : List Output) : Bytes :=
  sent.flatMap fun
    | .head _ => []
    | .body text => text

/-- What was popped and is still to be written. -/
def inFlight : Option Point → Bytes
  | some (.body text) => text
  | _ => []

/-! ## What a step does -/

variable {D : Deployment Proc Ctl Shm} {c : Ctl} {localTime : Nat → Bytes}
variable {s t : LogSession Proc Ctl Shm}

theorem step_world {a : Action Proc Ctl}
    (h : s.step D c localTime (.world a) = some t) :
    a.caller ≠ some c ∧ D.system.step s.world a = some t.world
      ∧ t.proxy = s.proxy ∧ t.logged = s.record D a := by
  simp only [step] at h
  split at h
  · cases h
  · rename_i hcaller
    obtain ⟨world, hworld, rfl⟩ := Option.map_eq_some_iff.mp h
    exact ⟨hcaller, hworld, rfl, rfl⟩

/-- The session's own actions, up to the return of the call. -/
theorem step_mode (h : s.step D c localTime .mode = some t) :
    s.proxy.thread = some .debugOn
      ∧ ((∃ a, (s.world.call c = .idle ∧ a = .store c true
            ∨ (s.world.call c).PastClear ∧ (a = .broadcast c ∨ a = .awaitAck c))
          ∧ D.system.step s.world a = some t.world ∧ t.proxy = s.proxy
          ∧ t.logged = s.logged)
        ∨ (s.world.call c = .stored ∧ D.system.step s.world (.clear c) = some t.world
          ∧ t.proxy = s.proxy ∧ t.logged = some [])
        ∨ ((s.world.call c).PastClear ∧ D.system.step s.world (.leave c) = some t.world
          ∧ t.proxy = (s.proxy.changeDebugMode true).goto .head ∧ t.logged = s.logged)) := by
  simp only [step] at h
  split at h
  · rename_i hthread
    refine ⟨hthread, ?_⟩
    unfold changeMode at h
    cases hcall : s.world.call c with
    | idle =>
        rw [hcall] at h
        obtain ⟨world, hworld, rfl⟩ := Option.map_eq_some_iff.mp h
        exact Or.inl ⟨_, Or.inl ⟨rfl, rfl⟩, hworld, rfl, rfl⟩
    | stored =>
        rw [hcall] at h
        obtain ⟨world, hworld, rfl⟩ := Option.map_eq_some_iff.mp h
        exact Or.inr (Or.inl ⟨rfl, hworld, rfl, rfl⟩)
    | cleared =>
        rw [hcall] at h
        obtain ⟨world, hworld, rfl⟩ := Option.map_eq_some_iff.mp h
        exact Or.inl ⟨_, Or.inr ⟨trivial, Or.inl rfl⟩, hworld, rfl, rfl⟩
    | waiting number timeOut =>
        rw [hcall] at h
        simp only at h
        split at h
        · obtain ⟨world, hworld, rfl⟩ := Option.map_eq_some_iff.mp h
          exact Or.inl ⟨_, Or.inr ⟨trivial, Or.inr rfl⟩, hworld, rfl, rfl⟩
        · obtain ⟨world, hworld, hrest⟩ := Option.bind_eq_some_iff.mp h
          obtain ⟨proxy, hproxy, hlast⟩ := Option.bind_eq_some_iff.mp hrest
          obtain rfl := Option.some.inj hlast
          have hgoto : proxy = (s.proxy.changeDebugMode true).goto .head := by
            simpa [DebugProxy.step, hthread, DebugProxy.resume] using hproxy.symm
          exact Or.inr (Or.inr ⟨trivial, hworld, hgoto, rfl⟩)
  · cases h

/-- The session after the call: a step of the thread from one point to the
next. -/
theorem step_stream {ec : ErrorCode} (h : s.step D c localTime (.stream ec) = some t) :
    (∃ answer, s.proxy.step localTime (.thread answer) = some t.proxy)
      ∧ ((s.proxy.thread = some .head
          ∧ t = { s with proxy := (s.proxy.write (.head true)).goto .streamTest })
        ∨ (s.proxy.thread = some .streamTest ∧ t = { s with proxy := s.proxy.goto .pop })
        ∨ (∃ text, s.proxy.thread = some (.body text)
          ∧ t = { s with proxy := (s.proxy.write (.body text)).goto .streamTest })
        ∨ (s.proxy.thread = some .pop
          ∧ D.system.step s.world (.getDebugMsg (D.home c) [] 5) = some t.world
          ∧ t.logged = s.logged
          ∧ (s.popped D c = none ∧ t.proxy = s.proxy.goto .streamTest
            ∨ ∃ m, s.popped D c = some m
              ∧ t.proxy = s.proxy.goto (.body (DebugProxy.format localTime m))))) := by
  -- what a step of the thread is, once its point is known
  have hresume : ∀ {point answer}, s.proxy.thread = some point →
      s.proxy.step localTime (.thread answer) = s.proxy.resume localTime answer point := by
    intro point answer hthread
    simp only [DebugProxy.step, hthread, Option.bind_some]
  simp only [step, stream] at h
  split at h
  · rename_i hthread
    split at h
    · cases h
    · rename_i hec
      obtain ⟨proxy, hproxy, rfl⟩ := Option.map_eq_some_iff.mp h
      refine ⟨⟨_, hproxy⟩, Or.inl ⟨hthread, ?_⟩⟩
      simp only [hresume hthread, DebugProxy.resume, hec] at hproxy
      rw [← Option.some.inj hproxy]
      rfl
  · rename_i hthread
    split at h
    · cases h
    · rename_i hexit
      obtain ⟨proxy, hproxy, rfl⟩ := Option.map_eq_some_iff.mp h
      refine ⟨⟨_, hproxy⟩, Or.inr (Or.inl ⟨hthread, ?_⟩)⟩
      simp only [hresume hthread, DebugProxy.resume, hexit] at hproxy
      rw [← Option.some.inj hproxy]
      rfl
  · rename_i hthread
    obtain ⟨world, hworld, hrest⟩ := Option.bind_eq_some_iff.mp h
    obtain ⟨proxy, hproxy, hlast⟩ := Option.bind_eq_some_iff.mp hrest
    obtain rfl := Option.some.inj hlast
    refine ⟨⟨_, hproxy⟩, Or.inr (Or.inr (Or.inr ⟨hthread, hworld, rfl, ?_⟩))⟩
    simp only [hresume hthread, DebugProxy.resume] at hproxy
    cases hpop : s.popped D c with
    | none =>
        rw [hpop] at hproxy
        exact Or.inl ⟨rfl, (Option.some.inj hproxy).symm⟩
    | some m =>
        rw [hpop] at hproxy
        refine Or.inr ⟨m, rfl, ?_⟩
        rw [← Option.some.inj hproxy]
        simp
  · rename_i text hthread
    split at h
    · cases h
    · rename_i hec
      obtain ⟨proxy, hproxy, rfl⟩ := Option.map_eq_some_iff.mp h
      refine ⟨⟨_, hproxy⟩, Or.inr (Or.inr (Or.inl ⟨text, hthread, ?_⟩))⟩
      simp only [hresume hthread, DebugProxy.resume, hec] at hproxy
      rw [← Option.some.inj hproxy]
      rfl
  · cases h

/-- To the processes the session is some of their actions. -/
theorem step_system {l : Label Proc Ctl} (h : s.step D c localTime l = some t) :
    t.world = s.world ∨ ∃ a, D.system.step s.world a = some t.world := by
  cases l with
  | world a => exact Or.inr ⟨a, (step_world h).2.1⟩
  | mode =>
      rcases (step_mode h).2 with ⟨a, -, hw, -⟩ | ⟨-, hw, -⟩ | ⟨-, hw, -⟩ <;>
        exact Or.inr ⟨_, hw⟩
  | stream ec =>
      rcases (step_stream h).2 with ⟨-, rfl⟩ | ⟨-, rfl⟩ | ⟨_, -, rfl⟩ | ⟨-, hw, -⟩
      · exact Or.inl rfl
      · exact Or.inl rfl
      · exact Or.inl rfl
      · exact Or.inr ⟨_, hw⟩
  | shutdown =>
      obtain ⟨proxy, -, rfl⟩ := Option.map_eq_some_iff.mp h
      exact Or.inl rfl

/-- To the proxy it is a run of its own. -/
theorem step_proxy {l : Label Proc Ctl} (h : s.step D c localTime l = some t) :
    t.proxy = s.proxy ∨ ∃ a, s.proxy.step localTime a = some t.proxy := by
  cases l with
  | world a => exact Or.inl (step_world h).2.2.1
  | mode =>
      obtain ⟨hthread, hcase⟩ := step_mode h
      rcases hcase with ⟨a, -, -, hproxy, -⟩ | ⟨-, -, hproxy, -⟩ | ⟨-, -, hproxy, -⟩
      · exact Or.inl hproxy
      · exact Or.inl hproxy
      · refine Or.inr ⟨.thread {}, ?_⟩
        rw [hproxy]
        simp [DebugProxy.step, hthread, DebugProxy.resume]
  | stream ec =>
      obtain ⟨answer, hproxy⟩ := (step_stream h).1
      exact Or.inr ⟨_, hproxy⟩
  | shutdown =>
      obtain ⟨proxy, hproxy, rfl⟩ := Option.map_eq_some_iff.mp h
      exact Or.inr ⟨_, hproxy⟩

/-- Both parts stay on runs of their own. -/
structure Within (D : Deployment Proc Ctl Shm) (localTime : Nat → Bytes)
    (s : LogSession Proc Ctl Shm) : Prop where
  world : D.system.Reachable s.world
  proxy : (DebugProxy.system localTime).Reachable s.proxy

theorem Within.step {l : Label Proc Ctl} (h : Within D localTime s)
    (hst : s.step D c localTime l = some t) : Within D localTime t := by
  constructor
  · rcases step_system hst with hsame | ⟨a, hw⟩
    · exact hsame ▸ h.world
    · exact h.world.tail trivial hw
  · rcases step_proxy hst with hsame | ⟨a, hp⟩
    · exact hsame ▸ h.proxy
    · exact h.proxy.tail trivial hp

/-! ## The records in the queue -/

omit [DecidableEq Proc] [DecidableEq Ctl] in
/-- Only a log writer adds records; the calls of a handshake, of a timer
handler and of the configuration leave them alone. -/
theorem queueCall_spares_log {w : World Proc Ctl Shm} {a : Action Proc Ctl} {r : Bytes}
    (hlog : ∀ p buffers, a ≠ .log p buffers)
    (hclear : ∀ c', a = .clear c' → D.own (D.home c') ≠ r)
    (hget : ∀ p module level, a = .getDebugMsg p module level → D.own p ≠ r)
    {call : QueueCall} (hcall : D.queueCall w a = some call) : call.Spares r msgTypeLog := by
  cases Deployment.calls_of_queueCall hcall with
  | openCommon p => trivial
  | construct p => trivial
  | tickPop p => exact Or.inr (by decide)
  | tickPush _ =>
      show msgTypeDebug ≠ msgTypeLog
      decide
  | clear c' => exact hclear c' rfl
  | broadcast c' =>
      show msgTypeDebug ≠ msgTypeLog
      decide
  | awaitAck c' => exact Or.inr (by decide)
  | log p buffers => exact absurd rfl (hlog p buffers)
  | getDebugMsg p module level => exact Or.inl (hget p module level rfl)
  | setConfig p args =>
      show ConfigMgr.msgTypeConfig ≠ msgTypeLog
      decide
  | configTick p => exact Or.inr (by decide)

/-- A record is queued behind the others. -/
theorem records_log (hQ : D.queue.Fifo) {w : World Proc Ctl Shm}
    (hname : own D c = ascii "Debuger") (hmem : own D c ∈ D.queue.names w.shm) (p : Proc)
    (buffers : Bytes) :
    ofType msgTypeLog (D.queue.pending (D.next w (.log p buffers)).shm (own D c))
      = ofType msgTypeLog (D.queue.pending w.shm (own D c))
        ++ [LogRecord.queued ⟨D.common p, D.queue.now w.shm, buffers⟩] := by
  have hreach : (logMessage buffers).reaches (D.common p) (own D c) = true :=
    (Message.reaches_receiver (by simp [logMessage, ascii])).mpr hname
  have hpush := hQ.ofType_push (n := D.common p) hmem (logMessage buffers)
  rw [if_pos hreach] at hpush
  exact hpush

/-- The session pops the oldest record. -/
theorem records_pop (hQ : D.queue.Fifo) (hlevel : D.queue.levelOk 5 1 = true)
    {left : List LogRecord} (h : s.records D c = left.map LogRecord.queued) :
    s.popped D c = (left.map LogRecord.queued).head?
      ∧ ofType msgTypeLog
          (D.queue.pending (D.next s.world (.getDebugMsg (D.home c) [] 5)).shm (own D c))
        = (left.map LogRecord.queued).tail := by
  -- the filter accepts every record there is
  have hacc : ∀ m ∈ D.queue.pending s.world.shm (own D c),
      m.type = (logFilter [] 5).type → D.queue.accepts (logFilter [] 5) m = true := by
    intro m hm htype
    have hrec : m ∈ s.records D c := List.mem_filter.mpr ⟨hm, beq_iff_eq.mpr htype⟩
    rw [h] at hrec
    obtain ⟨r, -, rfl⟩ := List.mem_map.mp hrec
    simp [accepts, logFilter, LogRecord.queued, logMessage, hlevel]
  obtain ⟨hhead, htail⟩ := hQ.ofType_pop hacc
  rw [← h]
  exact ⟨hhead, htail⟩

/-- Whoever has called `change_debug_mode` has a `Debuger`, so its queue is
there. -/
theorem own_mem_names (hQ : D.queue.Fifo) {w : World Proc Ctl Shm}
    (hw : D.system.Reachable w) :
    ∀ c, w.call c ≠ .idle → own D c ∈ D.queue.names w.shm := by
  refine Lts.Reachable.invariant
    (I := fun w => ∀ c, w.call c ≠ .idle → own D c ∈ D.queue.names w.shm) ?_ ?_ hw
  · intro w₀ h₀ c hc
    exact absurd (Deployment.Initial.call h₀ c) hc
  · intro w a w' hr ih hst c hc
    obtain ⟨ha, rfl⟩ := Deployment.step_eq_some.mp hst
    refine Deployment.names_next hQ a ?_
    rcases Deployment.next_call (D := D) w a c with hsame | ⟨bdebug, rfl, -⟩ | ⟨rfl, -⟩ |
        ⟨rfl, -⟩ | ⟨number, timeOut, -, hcall, -⟩ | ⟨-, hidle⟩
    · exact ih c (hsame ▸ hc)
    · -- a store goes through the pointer of a constructed `Debuger`
      cases hd : (w.proc (D.home c)).debuger with
      | none => simp [Deployment.enabled, hd] at ha
      | some d => exact (Deployment.sound_heard hQ hr).1.own hd
    · exact ih c (by simp [Deployment.enabled] at ha; simp [ha])
    · exact ih c (by simp [Deployment.enabled] at ha; simp [ha])
    · exact ih c (by simp [hcall])
    · exact absurd hidle hc

/-! ## Conservation -/

theorem call_next {w : World Proc Ctl Shm} {a : Action Proc Ctl}
    (hcaller : a.caller ≠ some c) : (D.next w a).call c = w.call c := by
  rcases Deployment.next_call (D := D) w a c with hsame | ⟨bdebug, rfl, -⟩ | ⟨rfl, -⟩ |
      ⟨rfl, -⟩ | ⟨number, timeOut, rfl, -⟩ | ⟨rfl, -⟩
  · exact hsame
  all_goals exact absurd rfl hcaller

/-- What was pushed since the clear was taken, and then is written or about to
be, or is queued. -/
def Conserved (D : Deployment Proc Ctl Shm) (c : Ctl) (localTime : Nat → Bytes)
    (s : LogSession Proc Ctl Shm) (pushed : List LogRecord) : Prop :=
  ∃ taken left, pushed = taken ++ left
    ∧ s.records D c = left.map LogRecord.queued
    ∧ streamed s.proxy.sent ++ inFlight s.proxy.thread
      = taken.flatMap (LogRecord.formatted localTime)

structure Delivering (D : Deployment Proc Ctl Shm) (c : Ctl) (localTime : Nat → Bytes)
    (s : LogSession Proc Ctl Shm) : Prop where
  within : Within D localTime s
  calling : s.proxy.thread = some .debugOn →
    (s.logged.isSome = true ↔ (s.world.call c).PastClear)
  streaming : s.proxy.thread ≠ some .debugOn → s.logged.isSome = true
  name : s.logged.isSome = true → own D c ∈ D.queue.names s.world.shm
  conserved : ∀ pushed, s.logged = some pushed → Conserved D c localTime s pushed

theorem Delivering.step_world (hQ : D.queue.Fifo) (hname : own D c = ascii "Debuger")
    {a : Action Proc Ctl} (h : Delivering D c localTime s) (hok : Alone D c s (.world a))
    (hst : s.step D c localTime (.world a) = some t) : Delivering D c localTime t := by
  obtain ⟨hcaller, hw, hproxy, hlogged⟩ := LogSession.step_world hst
  obtain ⟨-, hnext⟩ := Deployment.step_eq_some.mp hw
  have hsome : t.logged.isSome = s.logged.isSome := by
    rw [hlogged]
    cases a <;> simp [record]
  have hcall : t.world.call c = s.world.call c := by
    rw [hnext]
    exact call_next hcaller
  refine ⟨h.within.step hst, ?_, ?_, ?_, ?_⟩
  · rw [hproxy, hsome, hcall]
    exact h.calling
  · rw [hproxy, hsome]
    exact h.streaming
  · rw [hsome, hnext]
    exact fun hs => Deployment.names_next hQ a (h.name hs)
  · intro pushed hpushed
    by_cases hlog : ∃ p buffers, a = .log p buffers
    · obtain ⟨p, buffers, rfl⟩ := hlog
      rw [hlogged] at hpushed
      obtain ⟨before, hbefore, rfl⟩ := Option.map_eq_some_iff.mp hpushed
      obtain ⟨taken, left, rfl, hleft, hsent⟩ := h.conserved before hbefore
      refine ⟨taken, left ++ [_], List.append_assoc .., ?_, hproxy ▸ hsent⟩
      rw [records, hnext, records_log hQ hname (h.name (by simp [hbefore])), List.map_append]
      exact congrArg (· ++ _) hleft
    · have hlog' : ∀ p buffers, a ≠ .log p buffers := fun p buffers ha => hlog ⟨p, buffers, ha⟩
      have hsame : t.logged = s.logged := by
        rw [hlogged]
        cases a with
        | log p buffers => exact absurd rfl (hlog' p buffers)
        | _ => rfl
      obtain ⟨taken, left, hsplit, hleft, hsent⟩ := h.conserved pushed (hsame ▸ hpushed)
      refine ⟨taken, left, hsplit, ?_, hproxy ▸ hsent⟩
      rw [← hleft, records, hnext]
      refine Deployment.ofType_next hQ fun _ hcall => queueCall_spares_log hlog' ?_ ?_ hcall
      · rintro c' rfl
        exact hok
      · rintro p module level rfl
        exact hok

omit [DecidableEq Proc] [DecidableEq Ctl] in
/-- Nothing popped, pushed or written. -/
theorem Conserved.of_same {pushed : List LogRecord}
    (h : Conserved D c localTime s pushed) (hrecords : t.records D c = s.records D c)
    (hsent : t.proxy.sent = s.proxy.sent)
    (hflight : inFlight t.proxy.thread = inFlight s.proxy.thread) :
    Conserved D c localTime t pushed := by
  obtain ⟨taken, left, hsplit, hleft, hbytes⟩ := h
  refine ⟨taken, left, hsplit, hrecords.trans hleft, ?_⟩
  rw [hsent, hflight]
  exact hbytes

/-- No step of the call but its clear touches a record: it pops debug messages
only. -/
theorem records_mode (hQ : D.queue.Fifo) {a : Action Proc Ctl} (ha : a.caller = some c)
    (hclear : a ≠ .clear c) (hst : D.system.step s.world a = some t.world) :
    t.records D c = s.records D c := by
  obtain ⟨-, hnext⟩ := Deployment.step_eq_some.mp hst
  rw [records, hnext]
  refine Deployment.ofType_next hQ fun _ hcall => queueCall_spares_log ?_ ?_ ?_ hcall
  · rintro p buffers rfl
    cases ha
  · rintro c' rfl
    obtain rfl := Option.some.inj ha
    exact absurd rfl hclear
  · rintro p module level rfl
    cases ha

/-- The steps of the call on either side of its clear stay there. -/
theorem mode_pastClear {w : World Proc Ctl Shm} {a : Action Proc Ctl}
    (ha : w.call c = .idle ∧ a = .store c true
      ∨ (w.call c).PastClear ∧ (a = .broadcast c ∨ a = .awaitAck c)) :
    ((D.next w a).call c).PastClear ↔ (w.call c).PastClear := by
  rcases ha with ⟨hidle, rfl⟩ | ⟨hpast, rfl | rfl⟩
  · rcases Deployment.next_call (D := D) w (.store c true) c with hsame | ⟨_, -, hstored⟩ |
        ⟨ha, -⟩ | ⟨ha, -⟩ | ⟨_, _, ha, -⟩ | ⟨ha, -⟩
    · rw [hsame]
    · rw [hstored, hidle]
      exact Iff.rfl
    all_goals cases ha
  · rcases Deployment.next_call (D := D) w (.broadcast c) c with hsame | ⟨_, ha, -⟩ |
        ⟨ha, -⟩ | ⟨-, hnext⟩ | ⟨_, _, ha, -⟩ | ⟨ha, -⟩
    · rw [hsame]
    · cases ha
    · cases ha
    · rw [hnext]
      exact iff_of_true trivial hpast
    all_goals cases ha
  · rcases Deployment.next_call (D := D) w (.awaitAck c) c with hsame | ⟨_, ha, -⟩ |
        ⟨ha, -⟩ | ⟨ha, -⟩ | ⟨number, timeOut, -, -, hnext⟩ | ⟨ha, -⟩
    · rw [hsame]
    · cases ha
    · cases ha
    · cases ha
    · rw [hnext]
      refine iff_of_true ?_ hpast
      split <;> exact trivial
    · cases ha

theorem Delivering.step_mode (hQ : D.queue.Fifo) (h : Delivering D c localTime s)
    (hst : s.step D c localTime .mode = some t) : Delivering D c localTime t := by
  obtain ⟨hthread, hcase⟩ := LogSession.step_mode hst
  have hnames : ∀ {a}, D.system.step s.world a = some t.world →
      own D c ∈ D.queue.names s.world.shm → own D c ∈ D.queue.names t.world.shm := by
    intro a hw hmem
    rw [(Deployment.step_eq_some.mp hw).2]
    exact Deployment.names_next hQ a hmem
  rcases hcase with ⟨a, ha, hw, hproxy, hlogged⟩ | ⟨hcall, hw, hproxy, hlogged⟩ |
      ⟨hcall, hw, hproxy, hlogged⟩
  · have hcaller : a.caller = some c ∧ a ≠ .clear c := by
      rcases ha with ⟨-, rfl⟩ | ⟨-, rfl | rfl⟩ <;> exact ⟨rfl, by simp⟩
    refine ⟨h.within.step hst, ?_, ?_, ?_, ?_⟩
    · intro _
      rw [hlogged, (Deployment.step_eq_some.mp hw).2, mode_pastClear ha]
      exact h.calling hthread
    · rw [hproxy, hlogged]
      exact h.streaming
    · rw [hlogged]
      exact fun hs => hnames hw (h.name hs)
    · intro pushed hpushed
      refine (h.conserved pushed (hlogged ▸ hpushed)).of_same
        (records_mode hQ hcaller.1 hcaller.2 hw) ?_ ?_ <;> rw [hproxy]
  · -- the clear: nothing was written on this connection, nothing is queued
    have hunsent : s.proxy.sent = [] := by
      have hpoint := (DebugProxy.unsent_reachable h.within.proxy).point
      rw [hthread] at hpoint
      exact hpoint
    obtain ⟨-, hnext⟩ := Deployment.step_eq_some.mp hw
    have hcleared : t.world.call c = .cleared := by
      rw [hnext]
      exact World.setCall_self ..
    have hempty : t.records D c = [] := by
      rw [records, hnext]
      show ofType msgTypeLog
        (D.queue.pending (D.queue.clear s.world.shm (own D c)) (own D c)) = []
      rw [hQ.pending_clear, if_pos rfl]
      rfl
    refine ⟨h.within.step hst, ?_, ?_, ?_, ?_⟩
    · intro _
      rw [hlogged, hcleared]
      exact iff_of_true rfl trivial
    · intro _
      rw [hlogged]
      rfl
    · intro _
      exact hnames hw (own_mem_names hQ h.within.world c (by simp [hcall]))
    · intro pushed hpushed
      obtain rfl := Option.some.inj (hlogged.symm.trans hpushed)
      refine ⟨[], [], rfl, hempty, ?_⟩
      rw [hproxy, hunsent, hthread]
      rfl
  · -- the return of the call
    have hlog : s.logged.isSome = true := (h.calling hthread).mpr hcall
    refine ⟨h.within.step hst, ?_, ?_, ?_, ?_⟩
    · rw [hproxy]
      intro hpoint
      cases hpoint
    · rw [hlogged]
      exact fun _ => hlog
    · intro _
      exact hnames hw (h.name hlog)
    · intro pushed hpushed
      refine (h.conserved pushed (hlogged ▸ hpushed)).of_same
        (records_mode hQ rfl (by simp) hw) ?_ ?_
      · rw [hproxy]
        rfl
      · rw [hproxy, hthread]
        rfl

theorem streamed_write (proxy : DebugProxy) (output : Output) :
    streamed (proxy.write output).sent = streamed proxy.sent ++ streamed [output] := by
  simp [streamed, DebugProxy.write]

theorem Delivering.step_stream (hQ : D.queue.Fifo) (hlevel : D.queue.levelOk 5 1 = true)
    {ec : ErrorCode} (h : Delivering D c localTime s)
    (hst : s.step D c localTime (.stream ec) = some t) : Delivering D c localTime t := by
  have hpast : s.proxy.thread ≠ some .debugOn → t.proxy.thread ≠ some .debugOn →
      t.logged = s.logged → (s.logged.isSome = true →
        own D c ∈ D.queue.names t.world.shm) →
      (∀ pushed, Conserved D c localTime s pushed → Conserved D c localTime t pushed) →
      Delivering D c localTime t := by
    intro hthread hthread' hlogged hname hcons
    have hlog : s.logged.isSome = true := h.streaming hthread
    refine ⟨h.within.step hst, fun hd => absurd hd hthread', fun _ => hlogged ▸ hlog,
      fun _ => hname hlog, fun pushed hpushed => ?_⟩
    exact hcons pushed (h.conserved pushed (hlogged ▸ hpushed))
  rcases (LogSession.step_stream hst).2 with ⟨hthread, rfl⟩ | ⟨hthread, rfl⟩ |
      ⟨text, hthread, rfl⟩ | ⟨hthread, hw, hlogged, hpop⟩
  · refine hpast (by simp [hthread]) (by simp [DebugProxy.goto]) rfl h.name ?_
    rintro pushed ⟨taken, left, hsplit, hleft, hbytes⟩
    refine ⟨taken, left, hsplit, hleft, ?_⟩
    rw [← hbytes, hthread]
    show streamed (s.proxy.write (.head true)).sent ++ [] = streamed s.proxy.sent ++ []
    rw [streamed_write]
    simp [streamed]
  · refine hpast (by simp [hthread]) (by simp [DebugProxy.goto]) rfl h.name ?_
    intro pushed hcons
    refine hcons.of_same rfl rfl ?_
    rw [hthread]
    rfl
  · refine hpast (by simp [hthread]) (by simp [DebugProxy.goto]) rfl h.name ?_
    rintro pushed ⟨taken, left, hsplit, hleft, hbytes⟩
    refine ⟨taken, left, hsplit, hleft, ?_⟩
    rw [← hbytes, hthread]
    show streamed (s.proxy.write (.body text)).sent ++ [] = streamed s.proxy.sent ++ text
    rw [streamed_write]
    simp [streamed]
  · have hnext := (Deployment.step_eq_some.mp hw).2
    have hthread' : t.proxy.thread ≠ some .debugOn := by
      rcases hpop with ⟨-, hproxy⟩ | ⟨m, -, hproxy⟩ <;> (rw [hproxy]; simp [DebugProxy.goto])
    refine hpast (by simp [hthread]) hthread' hlogged ?_ ?_
    · intro hlog
      rw [hnext]
      exact Deployment.names_next hQ _ (h.name hlog)
    · rintro pushed ⟨taken, left, hsplit, hleft, hbytes⟩
      obtain ⟨hhead, htail⟩ := records_pop hQ hlevel hleft
      rw [← hnext] at htail
      rw [hthread] at hbytes
      cases left with
      | nil =>
          -- nothing to pop
          rcases hpop with ⟨-, hproxy⟩ | ⟨m, hm, -⟩
          · refine ⟨taken, [], hsplit, htail, ?_⟩
            rw [hproxy]
            exact hbytes
          · rw [hhead] at hm
            cases hm
      | cons r rest =>
          rcases hpop with ⟨hnone, -⟩ | ⟨m, hm, hproxy⟩
          · rw [hhead] at hnone
            cases hnone
          · obtain rfl : r.queued = m := Option.some.inj (hhead.symm.trans hm)
            refine ⟨taken ++ [r], rest, by simp [hsplit], htail, ?_⟩
            rw [hproxy, List.flatMap_append, ← hbytes]
            simp [inFlight, DebugProxy.goto, LogRecord.format_queued]

theorem delivering_reachable (hQ : D.queue.Fifo) (hlevel : D.queue.levelOk 5 1 = true)
    (hname : own D c = ascii "Debuger")
    (hs : (session D c localTime).ReachableUnder (Alone D c) s) :
    Delivering D c localTime s := by
  refine Lts.ReachableUnder.invariant (I := Delivering D c localTime) ?_ ?_ hs
  · rintro s ⟨hworld, hproxy, hthread, hcall, hlogged⟩
    refine ⟨⟨hworld, hproxy⟩, ?_, ?_, ?_, ?_⟩
    · intro _
      rw [hlogged, hcall]
      exact iff_of_false (by simp) id
    · exact fun hne => absurd hthread hne
    · rw [hlogged]
      intro hlog
      cases hlog
    · rw [hlogged]
      intro pushed hpushed
      cases hpushed
  · intro s l t _ h hok hst
    have hst : s.step D c localTime l = some t := hst
    cases l with
    | world a => exact h.step_world hQ hname hok hst
    | mode => exact h.step_mode hQ hst
    | stream ec => exact h.step_stream hQ hlevel hst
    | shutdown =>
        obtain ⟨proxy, hproxy, rfl⟩ := Option.map_eq_some_iff.mp hst
        have hsame := DebugProxy.step_shutdown hproxy
        refine ⟨h.within.step hst, ?_, ?_, h.name, fun pushed hpushed => ?_⟩
        · rw [hsame]
          exact h.calling
        · rw [hsame]
          exact h.streaming
        · refine (h.conserved pushed hpushed).of_same rfl ?_ ?_ <;> rw [hsame]

/-- **Every record once, in order.** In every state of a session after its
clear: what was written after the response head, what was popped and is
still to be written, and what is queued make up the records pushed since the
clear. The handshake pops no record, the session no acknowledgement. -/
theorem session_delivers_records (hQ : D.queue.Fifo)
    (hlevel : D.queue.levelOk 5 1 = true) (hname : own D c = ascii "Debuger")
    (hs : (session D c localTime).ReachableUnder (Alone D c) s) :
    (∀ pushed, s.logged = some pushed →
        streamed s.proxy.sent ++ inFlight s.proxy.thread
            ++ (s.records D c).flatMap (DebugProxy.format localTime)
          = pushed.flatMap (LogRecord.formatted localTime))
      ∧ (s.logged = none → s.proxy.thread = some .debugOn ∧ ¬(s.world.call c).PastClear)
      ∧ (∀ t, s.step D c localTime .mode = some t → s.logged.isSome = true →
        t.records D c = s.records D c)
      ∧ ∀ ec t, s.step D c localTime (.stream ec) = some t →
        ofType msgTypeDebug (D.queue.pending t.world.shm (own D c))
          = ofType msgTypeDebug (D.queue.pending s.world.shm (own D c)) := by
  have h : Delivering D c localTime s := delivering_reachable hQ hlevel hname hs
  refine ⟨?_, ?_, ?_, ?_⟩
  · intro pushed hpushed
    obtain ⟨taken, left, rfl, hleft, hbytes⟩ := h.conserved pushed hpushed
    rw [hbytes, hleft, List.flatMap_append, List.flatMap_map]
    rfl
  · intro hnone
    have hnot : ¬s.logged.isSome = true := by simp [hnone]
    have hthread : s.proxy.thread = some .debugOn := by
      by_contra hne
      exact hnot (h.streaming hne)
    exact ⟨hthread, fun hpast => hnot ((h.calling hthread).mpr hpast)⟩
  · intro t hst hlog
    obtain ⟨hthread, hcase⟩ := step_mode hst
    rcases hcase with ⟨a, ha, hw, -⟩ | ⟨hcall, -⟩ | ⟨-, hw, -⟩
    · rcases ha with ⟨-, rfl⟩ | ⟨-, rfl | rfl⟩ <;> exact records_mode hQ rfl (by simp) hw
    · -- past its clear the call does not clear again
      have hpast := (h.calling hthread).mp hlog
      rw [hcall] at hpast
      exact absurd hpast id
    · exact records_mode hQ rfl (by simp) hw
  · intro ec t hst
    rcases (step_stream hst).2 with ⟨-, rfl⟩ | ⟨-, rfl⟩ | ⟨_, -, rfl⟩ | ⟨-, hw, -⟩
    · rfl
    · rfl
    · rfl
    · rw [(Deployment.step_eq_some.mp hw).2]
      refine Deployment.ofType_next hQ fun call hcall => ?_
      obtain rfl := Option.some.inj hcall
      exact Or.inr (show msgTypeLog ≠ msgTypeDebug by decide)

/-! ## A session -/

/-- Nobody else clears a queue or pops a record. -/
def quietLabel : Label Proc Ctl → Bool
  | .world (.clear _) => false
  | .world (.getDebugMsg _ _ _) => false
  | _ => true

omit [DecidableEq Proc] [DecidableEq Ctl] in
theorem alone_of_quiet {l : Label Proc Ctl} (h : quietLabel l = true) : Alone D c s l := by
  cases l with
  | world a =>
      cases a with
      | clear c' => cases h
      | getDebugMsg p module level => cases h
      | _ => exact trivial
  | _ => exact trivial

/-- Both processes run. -/
def booted : World Deployment.Host Unit Boxes :=
  Deployment.twoProcesses.after (fun _ _ => true) Deployment.twoProcesses.start
    Deployment.twoProcesses.boot

theorem booted_reachable : Deployment.twoProcesses.system.Reachable booted :=
  ⟨Deployment.twoProcesses.start, Deployment.twoProcesses.start_initial,
    Deployment.twoProcesses.path_after (fun _ _ _ => trivial) (by decide +kernel)⟩

/-- A Firefox is connected and the thread is about to call. -/
def connected : DebugProxy := DebugProxy.after (fun _ _ => true) (DebugProxy.session.take 5)

theorem connected_reachable : (DebugProxy.system fun _ => []).Reachable connected :=
  DebugProxy.reachable_after (fun _ _ _ => trivial) (by decide +kernel)

/-- The call is acknowledged by both, the second process logs twice and the
first of its records is about to be written. -/
def schedule : List (Label Deployment.Host Unit) :=
  [.mode, .mode, .mode, .world (.log .second (ascii "one"))]
    ++ ((Deployment.twoProcesses.tick .first ++ Deployment.twoProcesses.tick .second).map
      Label.world)
    ++ [.mode, .mode, .mode, .stream .success, .world (.log .second (ascii "two")),
      .stream .success, .stream .success]

def served : LogSession Deployment.Host Unit Boxes :=
  ((session Deployment.twoProcesses () fun _ => []).replay
    (fun _ l => quietLabel l) ⟨booted, connected, none⟩ schedule).getD
      ⟨booted, connected, none⟩

theorem served_reachable :
    (session Deployment.twoProcesses () fun _ => []).ReachableUnder
      (Alone Deployment.twoProcesses ()) served :=
  ⟨⟨booted, connected, none⟩,
    ⟨booted_reachable, connected_reachable, by decide +kernel, by decide +kernel, rfl⟩,
    Lts.path_replay (fun _ _ h => alone_of_quiet h) (by decide +kernel)⟩

theorem session_delivers_records_served :
    ∃ first second : LogRecord, served.logged = some [first, second]
      ∧ streamed served.proxy.sent ++ inFlight served.proxy.thread
            ++ (served.records Deployment.twoProcesses ()).flatMap
              (DebugProxy.format fun _ => [])
          = ascii "[] [second] one[] [second] two"
      ∧ inFlight served.proxy.thread = ascii "[] [second] one" := by
  refine ⟨⟨ascii "second", 0, ascii "one"⟩, ⟨ascii "second", 0, ascii "two"⟩,
    by decide +kernel, ?_, by decide +kernel⟩
  have hpushed : served.logged
      = some [⟨ascii "second", 0, ascii "one"⟩, ⟨ascii "second", 0, ascii "two"⟩] := by
    decide +kernel
  rw [(session_delivers_records Boxes.queue_fifo (by decide) rfl served_reachable).1 _ hpushed]
  decide +kernel

end LogSession

end JustCommon
