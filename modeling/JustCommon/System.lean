import JustCommon.ConfigMgr
import JustCommon.Debuger
import JustCommon.Runs
import Mathlib.Tactic.Simps.Basic

/-!
# Processes around one shared memory segment

The system the debug switch and the remote configuration are part of: any
number of processes, each with a `CommonModule` (and its message queue), a
`Debuger` (with a queue of its own) and a `ConfigMgr`, and any number of
threads that call `change_debug_mode`. They share the debug word and the
message queues.

An action is one indivisible step. `handle_timer` of the debuger is three
(pop, `check_debug_mode`, push), `change_debug_mode` is its store, its
`clear`, its broadcast, one action for each round of the wait loop, and the
return. A `LOG_INFO` inside one of them is a `log` action of its process.
An action makes at most one call on the message queue
(`Deployment.queueCall`), which is what the proofs about queues go by.

The last fields of `World` are history: no action reads them.
-/

namespace JustCommon

open Debuger ConfigMgr

/-- The queues of the processes, and what the framework provides.

A process's own queue is named `"Debuger"` in the source; whether that is
one queue for all processes or one each is left open. The queue of its
`CommonModule` has the name the constructor is given, one for each process
(`common_inj`). The constructor without a name calls it `"CommonModule"`;
processes that share that queue are left out. -/
structure Deployment (Proc Ctl Shm : Type) where
  queue : MessageQueue Shm
  slice : Bytes → List Bytes
  /-- The name of the queue of a process's `CommonModule`. -/
  common : Proc → Bytes
  /-- The name of the queue of a process's `Debuger`. -/
  own : Proc → Bytes
  /-- The process whose `Debuger` a caller of `change_debug_mode` uses. -/
  home : Ctl → Proc
  common_inj : Function.Injective common
  common_ne_own : ∀ p q, common p ≠ own q
  own_ne_nil : ∀ p, own p ≠ []

/-- Where a process is in `Debuger::handle_timer`. -/
inductive Tick where
  | idle
  | popped (msg : Message)
  | checked (msg : Message)
deriving DecidableEq, Repr

/-- Where a caller is in `Debuger::change_debug_mode`. -/
inductive Call where
  | idle
  | stored
  | cleared
  | waiting (number timeOut : Nat)
deriving DecidableEq, Repr

structure Process where
  /-- The `Debuger`, once constructed. -/
  debuger : Option Debuger
  /-- The streams the process's logger holds. -/
  streams : Streams
  tick : Tick
  config : Config

/-- Started and not shut down. -/
def Process.running (p : Process) : Bool := p.debuger.any (·.timer)

structure World (Proc Ctl Shm : Type) where
  /-- `*debug_mode_` -/
  word : UInt32
  shm : Shm
  proc : Proc → Process
  call : Ctl → Call
  /-- The `set_config` calls made, with the pushing queue. -/
  sent : List (Bytes × SetConfig)
  /-- The `config().set` calls each process made. -/
  applied : Proc → List (Bytes × Bytes × Bytes)
  /-- The queues a caller's last broadcast was delivered to. -/
  delivered : Ctl → Finset Bytes
  /-- The processes that ran `check_debug_mode` since a caller's last store. -/
  checked : Ctl → Finset Proc
  /-- The processes that pushed an acknowledgement for a caller's queue since
  the caller last cleared it. -/
  answered : Ctl → Finset Proc

inductive Action (Proc Ctl : Type) where
  | openCommon (p : Proc)
  | construct (p : Proc)
  | startup (p : Proc)
  | shutdown (p : Proc)
  | setLogHook (p : Proc) (hook : Option Nat) (level : UInt64)
  | tickPop (p : Proc)
  | tickCheck (p : Proc)
  | tickPush (p : Proc)
  | store (c : Ctl) (bdebug : Bool)
  | clear (c : Ctl)
  | broadcast (c : Ctl)
  | awaitAck (c : Ctl)
  | leave (c : Ctl)
  | log (p : Proc) (buffers : Bytes)
  /-- One message of a `get_debug_msg`. -/
  | getDebugMsg (p : Proc) (module : Bytes) (level : Int)
  | setConfig (p : Proc) (args : SetConfig)
  | configTick (p : Proc)
deriving DecidableEq, Repr

variable {Proc Ctl Shm : Type} [DecidableEq Proc]

namespace World

/-- An operation of the `Debuger` of `p`, with its calls on the logger. -/
@[simps word shm call sent applied delivered checked answered]
def debuger (w : World Proc Ctl Shm) (p : Proc)
    (op : Debuger → Debuger × List LoggerCall) : World Proc Ctl Shm :=
  { w with proc := match (w.proc p).debuger with
      | some d => Function.update w.proc p { w.proc p with
          debuger := some (op d).1
          streams := (w.proc p).streams.applyAll (op d).2 }
      | none => w.proc }

@[simps word shm call sent applied delivered checked answered]
def setTick (w : World Proc Ctl Shm) (p : Proc) (tick : Tick) : World Proc Ctl Shm :=
  { w with proc := Function.update w.proc p { w.proc p with tick } }

@[simps word shm call sent applied delivered checked answered]
def setConfig (w : World Proc Ctl Shm) (p : Proc) (config : Config) :
    World Proc Ctl Shm :=
  { w with proc := Function.update w.proc p { w.proc p with config } }

def setCall [DecidableEq Ctl] (w : World Proc Ctl Shm) (c : Ctl) (call : Call) :
    World Proc Ctl Shm :=
  { w with call := Function.update w.call c call }

/-- History: `p` ran `check_debug_mode`. -/
@[simps word shm proc call sent applied delivered answered]
def noteCheck (w : World Proc Ctl Shm) (p : Proc) : World Proc Ctl Shm :=
  { w with checked := fun c => insert p (w.checked c) }

@[simp] theorem debuger_tick (w : World Proc Ctl Shm) (p q : Proc)
    (op : Debuger → Debuger × List LoggerCall) :
    ((w.debuger p op).proc q).tick = (w.proc q).tick := by
  unfold debuger
  split
  · by_cases h : q = p <;> simp [h]
  · rfl

@[simp] theorem debuger_config (w : World Proc Ctl Shm) (p q : Proc)
    (op : Debuger → Debuger × List LoggerCall) :
    ((w.debuger p op).proc q).config = (w.proc q).config := by
  unfold debuger
  split
  · by_cases h : q = p <;> simp [h]
  · rfl

theorem debuger_proc_self {w : World Proc Ctl Shm} {p : Proc} {d : Debuger}
    (h : (w.proc p).debuger = some d) (op : Debuger → Debuger × List LoggerCall) :
    (w.debuger p op).proc p = { w.proc p with
      debuger := some (op d).1
      streams := (w.proc p).streams.applyAll (op d).2 } := by
  simp [debuger, h]

theorem debuger_proc_ne (w : World Proc Ctl Shm) {p q : Proc} (h : q ≠ p)
    (op : Debuger → Debuger × List LoggerCall) :
    (w.debuger p op).proc q = w.proc q := by
  unfold debuger
  split
  · exact Function.update_of_ne h _ _
  · rfl

@[simp] theorem setTick_debuger (w : World Proc Ctl Shm) (p q : Proc) (tick : Tick) :
    ((w.setTick p tick).proc q).debuger = (w.proc q).debuger := by
  by_cases h : q = p <;> simp [setTick, h]

@[simp] theorem setTick_streams (w : World Proc Ctl Shm) (p q : Proc) (tick : Tick) :
    ((w.setTick p tick).proc q).streams = (w.proc q).streams := by
  by_cases h : q = p <;> simp [setTick, h]

@[simp] theorem setTick_config (w : World Proc Ctl Shm) (p q : Proc) (tick : Tick) :
    ((w.setTick p tick).proc q).config = (w.proc q).config := by
  by_cases h : q = p <;> simp [setTick, h]

@[simp] theorem setTick_tick_self (w : World Proc Ctl Shm) (p : Proc) (tick : Tick) :
    ((w.setTick p tick).proc p).tick = tick := by
  simp [setTick]

theorem setTick_tick_ne (w : World Proc Ctl Shm) {p q : Proc} (h : q ≠ p) (tick : Tick) :
    ((w.setTick p tick).proc q).tick = (w.proc q).tick := by
  simp [setTick, h]

omit [DecidableEq Proc] in
@[simp] theorem setCall_self [DecidableEq Ctl] (w : World Proc Ctl Shm) (c : Ctl)
    (call : Call) : (w.setCall c call).call c = call := by
  simp [setCall]

omit [DecidableEq Proc] in
theorem setCall_ne [DecidableEq Ctl] (w : World Proc Ctl Shm) {c c' : Ctl} (h : c ≠ c')
    (call : Call) : (w.setCall c' call).call c = w.call c := by
  simp [setCall, h]

@[simp] theorem setConfig_debuger (w : World Proc Ctl Shm) (p q : Proc)
    (config : Config) : ((w.setConfig p config).proc q).debuger = (w.proc q).debuger := by
  by_cases h : q = p <;> simp [setConfig, h]

@[simp] theorem setConfig_streams (w : World Proc Ctl Shm) (p q : Proc)
    (config : Config) : ((w.setConfig p config).proc q).streams = (w.proc q).streams := by
  by_cases h : q = p <;> simp [setConfig, h]

@[simp] theorem setConfig_tick (w : World Proc Ctl Shm) (p q : Proc) (config : Config) :
    ((w.setConfig p config).proc q).tick = (w.proc q).tick := by
  by_cases h : q = p <;> simp [setConfig, h]

end World

namespace Deployment

variable [DecidableEq Ctl] (D : Deployment Proc Ctl Shm)

/-- The action is one the program can take next. -/
def enabled (w : World Proc Ctl Shm) : Action Proc Ctl → Bool
  | .openCommon _ => true
  | .construct p => decide (D.common p ∈ D.queue.names w.shm) && (w.proc p).debuger.isNone
  | .startup p => (w.proc p).debuger.any (!·.timer)
  | .shutdown p => (w.proc p).running
  | .setLogHook p _ _ => (w.proc p).debuger.isSome
  | .tickPop p => (w.proc p).running && decide ((w.proc p).tick = .idle)
  | .tickCheck p => match (w.proc p).tick with | .popped _ => true | _ => false
  | .tickPush p => match (w.proc p).tick with | .checked _ => true | _ => false
  | .store c bdebug => decide (w.call c = .idle)
      && ((w.proc (D.home c)).debuger.bind (·.storeDebugMode bdebug)).isSome
  | .clear c => decide (w.call c = .stored)
  | .broadcast c => decide (w.call c = .cleared)
  -- while (number != 0 && time_out != 0)
  | .awaitAck c => match w.call c with
      | .waiting number timeOut => number != 0 && timeOut != 0
      | _ => false
  | .leave c => match w.call c with
      | .waiting number timeOut => !(number != 0 && timeOut != 0)
      | _ => false
  | .log p _ => decide (D.common p ∈ D.queue.names w.shm)
  | .getDebugMsg p _ _ => (w.proc p).debuger.isSome
  | .setConfig p _ => decide (D.common p ∈ D.queue.names w.shm)
  | .configTick p => decide (D.common p ∈ D.queue.names w.shm)

/-- What the action does. -/
def next (w : World Proc Ctl Shm) : Action Proc Ctl → World Proc Ctl Shm
  | .openCommon p => { w with shm := D.queue.attach w.shm (D.common p) }
  | .construct p =>
      -- the word is initialised: `alloc_with_id` gives `NULL`, `get_by_id` finds it
      let made := Debuger.construct false true w.word w.word
      World.noteCheck { w with
        shm := D.queue.attach w.shm (D.own p)
        proc := Function.update w.proc p { w.proc p with
          debuger := some made.1
          streams := (w.proc p).streams.applyAll made.2 } } p
  | .startup p => (w.debuger p fun d => d.startup w.word w.word).noteCheck p
  | .shutdown p => w.debuger p Debuger.shutdown
  | .setLogHook p hook level => w.debuger p fun d => d.setLogHook hook level
  | .tickPop p =>
      let popped := D.queue.pop w.shm (D.common p) debugMessage
      World.setTick { w with shm := popped.2 } p
        (match popped.1 with | some msg => .popped msg | none => .idle)
  | .tickCheck p =>
      match (w.proc p).tick with
      | .popped msg => ((w.debuger p fun d => d.checkDebugMode w.word w.word).noteCheck
          p).setTick p (.checked msg)
      | _ => w
  | .tickPush p =>
      match (w.proc p).tick with
      | .checked msg => World.setTick { w with
          shm := (D.queue.push w.shm (D.common p) (acknowledgement msg)).2
          answered := fun c => if msg.sender = D.own (D.home c)
            then insert p (w.answered c) else w.answered c } p .idle
      | _ => w
  | .store c bdebug =>
      match (w.proc (D.home c)).debuger.bind (·.storeDebugMode bdebug) with
      | some word => World.setCall { w with
          word
          checked := Function.update w.checked c ∅ } c .stored
      | none => w
  | .clear c => World.setCall { w with
      shm := D.queue.clear w.shm (D.own (D.home c))
      answered := Function.update w.answered c ∅ } c .cleared
  | .broadcast c =>
      let pushed := D.queue.push w.shm (D.own (D.home c)) debugMessage
      World.setCall { w with
        shm := pushed.2
        delivered := Function.update w.delivered c ((D.queue.names w.shm).filter fun r =>
          debugMessage.reaches (D.own (D.home c)) r = true) } c (.waiting pushed.1 30)
  | .awaitAck c =>
      match w.call c with
      | .waiting number timeOut =>
          let popped := D.queue.pop w.shm (D.own (D.home c)) debugMessage
          World.setCall { w with shm := popped.2 } c
            (match popped.1 with
              | some _ => .waiting (number - 1) timeOut
              | none => .waiting number (timeOut - 1))
      | _ => w
  | .leave c => w.setCall c .idle
  | .log p buffers =>
      { w with shm := (D.queue.push w.shm (D.common p) (logMessage buffers)).2 }
  | .getDebugMsg p module level =>
      { w with shm := (D.queue.pop w.shm (D.own p) (logFilter module level)).2 }
  | .setConfig p args => { w with
      shm := (D.queue.push w.shm (D.common p) args.message).2
      sent := w.sent ++ [(D.common p, args)] }
  | .configTick p =>
      let popped := D.queue.pop w.shm (D.common p) ConfigMgr.filter
      match popped.1 with
      | some msg => World.setConfig { w with
          shm := popped.2
          applied := Function.update w.applied p
            (w.applied p ++ (decoded D.slice msg).toList) } p
            (handle D.slice msg (w.proc p).config)
      | none => { w with shm := popped.2 }

/-- Nothing constructed, no call under way, every queue there is empty; the
debug word is already initialised, to a value `change_debug_mode` stores. -/
structure Initial (w : World Proc Ctl Shm) : Prop where
  word : w.word = 0 ∨ w.word = 1
  pending : ∀ n, D.queue.pending w.shm n = []
  debuger : ∀ p, (w.proc p).debuger = none
  streams : ∀ p stream, (w.proc p).streams stream = false
  tick : ∀ p, (w.proc p).tick = .idle
  call : ∀ c, w.call c = .idle
  sent : w.sent = []
  applied : ∀ p, w.applied p = []

def system : Lts (World Proc Ctl Shm) (Action Proc Ctl) where
  init w := D.Initial w
  step w a := if D.enabled w a then some (D.next w a) else none

variable {D}

theorem step_eq_some {w w' : World Proc Ctl Shm} {a : Action Proc Ctl} :
    D.system.step w a = some w' ↔ D.enabled w a = true ∧ w' = D.next w a := by
  simp only [system]
  split
  · rename_i h
    exact ⟨fun he => ⟨h, (Option.some.inj he).symm⟩, fun he => by rw [he.2]⟩
  · rename_i h
    exact ⟨fun he => (by cases he), fun he => absurd he.1 h⟩

/-! ## The call an action makes on the message queue -/

variable (D) in
def queueCall (w : World Proc Ctl Shm) : Action Proc Ctl → Option MessageQueue.QueueCall
  | .openCommon p => some (.attach (D.common p))
  | .construct p => some (.attach (D.own p))
  | .tickPop p => some (.pop (D.common p) debugMessage)
  | .tickPush p =>
      match (w.proc p).tick with
      | .checked msg => some (.push (D.common p) (acknowledgement msg))
      | _ => none
  | .clear c => some (.clear (D.own (D.home c)))
  | .broadcast c => some (.push (D.own (D.home c)) debugMessage)
  | .awaitAck c =>
      match w.call c with
      | .waiting _ _ => some (.pop (D.own (D.home c)) debugMessage)
      | _ => none
  | .log p buffers => some (.push (D.common p) (logMessage buffers))
  | .getDebugMsg p module level => some (.pop (D.own p) (logFilter module level))
  | .setConfig p args => some (.push (D.common p) args.message)
  | .configTick p => some (.pop (D.common p) ConfigMgr.filter)
  | _ => none

/-- An action touches the segment through its call on the queue only. -/
theorem next_shm (w : World Proc Ctl Shm) (a : Action Proc Ctl) :
    (D.next w a).shm = match D.queueCall w a with
      | some call => D.queue.perform w.shm call
      | none => w.shm := by
  cases a with
  | openCommon p => rfl
  | construct p => rfl
  | startup p => rfl
  | shutdown p => rfl
  | setLogHook p hook level => rfl
  | tickPop p => rfl
  | tickCheck p =>
      simp only [next, queueCall]
      split <;> rfl
  | tickPush p =>
      simp only [next, queueCall]
      cases (w.proc p).tick <;> rfl
  | store c bdebug =>
      simp only [next, queueCall]
      split <;> rfl
  | clear c => rfl
  | broadcast c => rfl
  | awaitAck c =>
      simp only [next, queueCall]
      cases w.call c <;> rfl
  | leave c => rfl
  | log p buffers => rfl
  | getDebugMsg p module level => rfl
  | setConfig p args => rfl
  | configTick p =>
      simp only [next, queueCall]
      split <;> rfl

theorem ofType_next (hQ : D.queue.Fifo) {w : World Proc Ctl Shm} {a : Action Proc Ctl}
    {r : Bytes} {t : Nat}
    (h : ∀ call, D.queueCall w a = some call → call.Spares r t) :
    MessageQueue.ofType t (D.queue.pending (D.next w a).shm r)
      = MessageQueue.ofType t (D.queue.pending w.shm r) := by
  rw [next_shm]
  cases hcall : D.queueCall w a with
  | none => rfl
  | some call => exact hQ.ofType_perform (h call hcall)

/-- What is queued after an action was queued before, or the action pushed it. -/
theorem mem_pending_next (hQ : D.queue.Fifo) {w : World Proc Ctl Shm} {a : Action Proc Ctl}
    {r : Bytes} {m : Message} (hm : m ∈ D.queue.pending (D.next w a).shm r) :
    m ∈ D.queue.pending w.shm r ∨ ∃ n m', D.queueCall w a = some (.push n m')
      ∧ m = D.queue.stamp w.shm n m' := by
  rw [next_shm] at hm
  cases hcall : D.queueCall w a with
  | none =>
      rw [hcall] at hm
      exact Or.inl hm
  | some call =>
      rw [hcall] at hm
      rcases hQ.mem_of_perform hm with hold | ⟨n, m', rfl, -, -, rfl⟩
      · exact Or.inl hold
      · exact Or.inr ⟨n, m', rfl, rfl⟩

variable (D) in
/-- `queueCall` as a relation: which action makes which call. -/
inductive Calls (w : World Proc Ctl Shm) :
    Action Proc Ctl → MessageQueue.QueueCall → Prop
  | openCommon (p : Proc) : Calls w (.openCommon p) (.attach (D.common p))
  | construct (p : Proc) : Calls w (.construct p) (.attach (D.own p))
  | tickPop (p : Proc) : Calls w (.tickPop p) (.pop (D.common p) debugMessage)
  | tickPush {p : Proc} {msg : Message} (htick : (w.proc p).tick = .checked msg) :
      Calls w (.tickPush p) (.push (D.common p) (acknowledgement msg))
  | clear (c : Ctl) : Calls w (.clear c) (.clear (D.own (D.home c)))
  | broadcast (c : Ctl) :
      Calls w (.broadcast c) (.push (D.own (D.home c)) debugMessage)
  | awaitAck (c : Ctl) : Calls w (.awaitAck c) (.pop (D.own (D.home c)) debugMessage)
  | log (p : Proc) (buffers : Bytes) :
      Calls w (.log p buffers) (.push (D.common p) (logMessage buffers))
  | getDebugMsg (p : Proc) (module : Bytes) (level : Int) :
      Calls w (.getDebugMsg p module level) (.pop (D.own p) (logFilter module level))
  | setConfig (p : Proc) (args : SetConfig) :
      Calls w (.setConfig p args) (.push (D.common p) args.message)
  | configTick (p : Proc) : Calls w (.configTick p) (.pop (D.common p) ConfigMgr.filter)

omit [DecidableEq Proc] [DecidableEq Ctl] in
theorem calls_of_queueCall {w : World Proc Ctl Shm} {a : Action Proc Ctl}
    {call : MessageQueue.QueueCall} (hcall : D.queueCall w a = some call) :
    D.Calls w a call := by
  cases a with
  | openCommon p => obtain rfl := Option.some.inj hcall; exact .openCommon p
  | construct p => obtain rfl := Option.some.inj hcall; exact .construct p
  | tickPop p => obtain rfl := Option.some.inj hcall; exact .tickPop p
  | tickPush p =>
      simp only [queueCall] at hcall
      split at hcall
      · rename_i msg htick
        obtain rfl := Option.some.inj hcall
        exact .tickPush htick
      · cases hcall
  | clear c => obtain rfl := Option.some.inj hcall; exact .clear c
  | broadcast c => obtain rfl := Option.some.inj hcall; exact .broadcast c
  | awaitAck c =>
      simp only [queueCall] at hcall
      split at hcall
      · obtain rfl := Option.some.inj hcall
        exact .awaitAck c
      · cases hcall
  | log p buffers => obtain rfl := Option.some.inj hcall; exact .log p buffers
  | getDebugMsg p module level =>
      obtain rfl := Option.some.inj hcall
      exact .getDebugMsg p module level
  | setConfig p args => obtain rfl := Option.some.inj hcall; exact .setConfig p args
  | configTick p => obtain rfl := Option.some.inj hcall; exact .configTick p
  | _ => cases hcall

omit [DecidableEq Proc] [DecidableEq Ctl] in
/-- Requests are pushed by a broadcast, acknowledgements by a timer handler
that has checked. -/
theorem queueCall_push_debug {w : World Proc Ctl Shm} {a : Action Proc Ctl} {n : Bytes}
    {m : Message} (hcall : D.queueCall w a = some (.push n m))
    (htype : m.type = msgTypeDebug) :
    (∃ c, a = .broadcast c ∧ n = D.own (D.home c) ∧ m = debugMessage)
      ∨ ∃ p msg, a = .tickPush p ∧ (w.proc p).tick = .checked msg ∧ n = D.common p
          ∧ m = acknowledgement msg := by
  cases calls_of_queueCall hcall with
  | broadcast c => exact Or.inl ⟨c, rfl, rfl, rfl⟩
  | tickPush htick => exact Or.inr ⟨_, _, rfl, htick, rfl, rfl⟩
  | log p buffers => cases htype
  | setConfig p args => cases htype

theorem names_next (hQ : D.queue.Fifo) {w : World Proc Ctl Shm} (a : Action Proc Ctl)
    {n : Bytes} (hn : n ∈ D.queue.names w.shm) :
    n ∈ D.queue.names (D.next w a).shm := by
  rw [next_shm]
  split
  · exact hQ.names_perform hn _
  · exact hn

/-! ## Where an action takes a timer handler and a call -/

theorem next_tick (w : World Proc Ctl Shm) (a : Action Proc Ctl) (p : Proc) :
    ((D.next w a).proc p).tick = (w.proc p).tick
    ∨ (a = .tickPop p ∧ ((D.next w a).proc p).tick =
        match (D.queue.pop w.shm (D.common p) debugMessage).1 with
        | some msg => .popped msg
        | none => .idle)
    ∨ (∃ msg, a = .tickCheck p ∧ (w.proc p).tick = .popped msg
        ∧ ((D.next w a).proc p).tick = .checked msg)
    ∨ ∃ msg, a = .tickPush p ∧ (w.proc p).tick = .checked msg
        ∧ ((D.next w a).proc p).tick = .idle := by
  cases a with
  | tickPop q =>
      by_cases hp : p = q
      · subst hp
        exact Or.inr (Or.inl ⟨rfl, World.setTick_tick_self ..⟩)
      · exact Or.inl (World.setTick_tick_ne _ hp _)
  | tickCheck q =>
      cases htick : (w.proc q).tick with
      | popped msg =>
          by_cases hp : p = q
          · subst hp
            refine Or.inr (Or.inr (Or.inl ⟨msg, rfl, htick, ?_⟩))
            simp only [next, htick, World.setTick_tick_self]
          · left
            simp only [next, htick, World.setTick_tick_ne _ hp, World.noteCheck,
              World.debuger_tick]
      | idle => exact Or.inl (by simp only [next, htick])
      | checked msg => exact Or.inl (by simp only [next, htick])
  | tickPush q =>
      cases htick : (w.proc q).tick with
      | checked msg =>
          by_cases hp : p = q
          · subst hp
            refine Or.inr (Or.inr (Or.inr ⟨msg, rfl, htick, ?_⟩))
            simp only [next, htick, World.setTick_tick_self]
          · left
            simp only [next, htick, World.setTick_tick_ne _ hp]
      | idle => exact Or.inl (by simp only [next, htick])
      | popped msg => exact Or.inl (by simp only [next, htick])
  | construct q =>
      left
      by_cases hp : p = q
      · subst hp
        simp [next, World.noteCheck]
      · simp [next, World.noteCheck, hp]
  | startup q => exact Or.inl (World.debuger_tick ..)
  | shutdown q => exact Or.inl (World.debuger_tick ..)
  | setLogHook q hook level => exact Or.inl (World.debuger_tick ..)
  | store c bdebug =>
      left
      simp only [next]
      split <;> rfl
  | awaitAck c =>
      left
      simp only [next]
      split <;> rfl
  | configTick q =>
      left
      simp only [next]
      split
      · exact World.setConfig_tick ..
      · rfl
  | _ => exact Or.inl rfl

theorem next_call (w : World Proc Ctl Shm) (a : Action Proc Ctl) (c : Ctl) :
    (D.next w a).call c = w.call c
    ∨ (∃ bdebug, a = .store c bdebug ∧ (D.next w a).call c = .stored)
    ∨ (a = .clear c ∧ (D.next w a).call c = .cleared)
    ∨ (a = .broadcast c ∧ (D.next w a).call c =
        .waiting (D.queue.push w.shm (D.own (D.home c)) debugMessage).1 30)
    ∨ (∃ number timeOut, a = .awaitAck c ∧ w.call c = .waiting number timeOut
        ∧ (D.next w a).call c =
          match (D.queue.pop w.shm (D.own (D.home c)) debugMessage).1 with
          | some _ => .waiting (number - 1) timeOut
          | none => .waiting number (timeOut - 1))
    ∨ a = .leave c ∧ (D.next w a).call c = .idle := by
  cases a with
  | store c' bdebug =>
      simp only [next]
      split
      · by_cases hc : c = c'
        · subst hc
          exact Or.inr (Or.inl ⟨bdebug, rfl, World.setCall_self ..⟩)
        · exact Or.inl (World.setCall_ne _ hc _)
      · exact Or.inl rfl
  | clear c' =>
      by_cases hc : c = c'
      · subst hc
        exact Or.inr (Or.inr (Or.inl ⟨rfl, World.setCall_self ..⟩))
      · exact Or.inl (World.setCall_ne _ hc _)
  | broadcast c' =>
      by_cases hc : c = c'
      · subst hc
        exact Or.inr (Or.inr (Or.inr (Or.inl ⟨rfl, World.setCall_self ..⟩)))
      · exact Or.inl (World.setCall_ne _ hc _)
  | awaitAck c' =>
      cases hcall : w.call c' with
      | waiting number timeOut =>
          by_cases hc : c = c'
          · subst hc
            refine Or.inr (Or.inr (Or.inr (Or.inr (Or.inl
              ⟨number, timeOut, rfl, hcall, ?_⟩))))
            simp only [next, hcall, World.setCall_self]
          · left
            simp only [next, hcall, World.setCall_ne _ hc]
      | _ => exact Or.inl (by simp only [next, hcall])
  | leave c' =>
      by_cases hc : c = c'
      · subst hc
        exact Or.inr (Or.inr (Or.inr (Or.inr (Or.inr ⟨rfl, World.setCall_self ..⟩))))
      · exact Or.inl (World.setCall_ne _ hc _)
  | tickCheck q =>
      left
      simp only [next]
      split <;> rfl
  | tickPush q =>
      left
      simp only [next]
      split <;> rfl
  | configTick q =>
      left
      simp only [next]
      split <;> rfl
  | _ => exact Or.inl rfl

/-- A clear moves its call on. -/
theorem next_clear_ne {w : World Proc Ctl Shm} {c : Ctl}
    (ha : D.enabled w (.clear c) = true) : (D.next w (.clear c)).call c ≠ w.call c := by
  have hc : w.call c = .stored := by simpa [enabled] using ha
  have hcleared : (D.next w (.clear c)).call c = .cleared := World.setCall_self ..
  rw [hcleared, hc]
  simp

/-- So does a broadcast. -/
theorem next_broadcast_ne {w : World Proc Ctl Shm} {c : Ctl}
    (ha : D.enabled w (.broadcast c) = true) :
    (D.next w (.broadcast c)).call c ≠ w.call c := by
  have hc : w.call c = .cleared := by simpa [enabled] using ha
  have hwaiting : (D.next w (.broadcast c)).call c = .waiting _ 30 := World.setCall_self ..
  rw [hwaiting, hc]
  simp

theorem next_clear_answered (w : World Proc Ctl Shm) (c : Ctl) :
    (D.next w (.clear c)).answered c = ∅ := by
  simp [next, World.setCall]

/-! ## A concrete deployment -/

inductive Host where
  | first
  | second
deriving DecidableEq, Repr

/-- Two processes and a caller in the first, over plain lists; the queues of
the `Debuger`s have the name the source gives them. -/
def twoProcesses : Deployment Host Unit Boxes where
  queue := Boxes.queue
  slice data := data.splitOn bar
  common
    | .first => ascii "first"
    | .second => ascii "second"
  own _ := ascii "Debuger"
  home _ := .first
  common_inj p q h := by
    cases p <;> cases q <;> first | rfl | exact absurd h (by decide)
  common_ne_own p _ := by
    cases p <;> decide
  own_ne_nil _ := by decide

namespace twoProcesses

def start : World Host Unit Boxes where
  word := 0
  shm := Boxes.empty
  proc _ := ⟨none, fun _ => false, .idle, fun _ _ => none⟩
  call _ := .idle
  sent := []
  applied _ := []
  delivered _ := ∅
  checked _ := ∅
  answered _ := ∅

theorem start_initial : twoProcesses.Initial start where
  word := Or.inl rfl
  pending _ := rfl
  debuger _ := rfl
  streams _ _ := rfl
  tick _ := rfl
  call _ := rfl
  sent := rfl
  applied _ := rfl

/-- The world after a schedule of steps that each meet `check`. -/
def after (check : World Host Unit Boxes → Action Host Unit → Bool)
    (w : World Host Unit Boxes) (schedule : List (Action Host Unit)) :
    World Host Unit Boxes :=
  (twoProcesses.system.replay check w schedule).getD w

theorem path_after {check : World Host Unit Boxes → Action Host Unit → Bool}
    {ok : World Host Unit Boxes → Action Host Unit → Prop}
    (hcheck : ∀ w a, check w a = true → ok w a) {w : World Host Unit Boxes}
    {schedule : List (Action Host Unit)}
    (h : (twoProcesses.system.replay check w schedule).isSome = true) :
    twoProcesses.system.Path ok w (after check w schedule) :=
  Lts.path_replay hcheck h

theorem run_after {w : World Host Unit Boxes} {l : List (Action Host Unit)}
    (h : (twoProcesses.system.run w l).isSome = true) :
    twoProcesses.system.run w l = some (after (fun _ _ => true) w l) := by
  obtain ⟨w', hw'⟩ := Option.isSome_iff_exists.mp h
  unfold after
  rw [show twoProcesses.system.replay (fun _ _ => true) w l = some w' from hw', hw']
  rfl

/-- Both processes open their queues, construct their `Debuger` and start. -/
def boot : List (Action Host Unit) :=
  [.openCommon .first, .openCommon .second, .construct .first, .construct .second,
    .startup .first, .startup .second]

def publish (bdebug : Bool) : List (Action Host Unit) :=
  [.store () bdebug, .clear (), .broadcast ()]

def tick (p : Host) : List (Action Host Unit) :=
  [.tickPop p, .tickCheck p, .tickPush p]

end twoProcesses

end Deployment

end JustCommon
