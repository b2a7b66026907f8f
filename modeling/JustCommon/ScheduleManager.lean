import JustCommon.Basic
import JustCommon.Heap
import JustCommon.Ledger
import Mathlib.Data.List.Count
import Mathlib.Data.List.Perm.Basic

/-!
# Scheduled callbacks

`schedule_callback` allocates a timer of the daemon's `io_service` and waits
on it with the callback; the timer is the handle. Three things happen on
their own account: the timer expires, which queues the wait handler with
success; `cancel_callback` cancels and deletes it, which queues a handler
that is still waiting with `operation_aborted`; and a thread of the
`io_service` runs a queued handler.

A handler that is queued is out of the timer's reach. So `cancel_callback`
between the expiry and the run of the handler cancels nothing, and the
callback is called later as if nothing had been cancelled. The history of
calls and returns says when that happens: exactly if a `cancel_callback`
comes at a time the handler of its timer is queued with success
(`cancelled_stays_silent_iff`).
-/

namespace JustCommon

/-- `boost::asio::error::operation_aborted` -/
def operationAborted : ErrorCode := .other 125

section Model

variable (Callback UserData : Type)

/-- `boost::bind(callback, user_data, _1)`, and of which schedule it is. -/
structure Handler where
  handle : Nat
  callback : Callback
  userData : UserData

/-- A `deadline_timer`, with the handler that waits on it. -/
structure DeadlineTimer where
  /-- `expires_from_now`, in milliseconds -/
  delay : UInt32
  wait : Option (Handler Callback UserData)

/-- A handler handed to the `io_service`, and what it is to be called with. -/
structure Completion where
  handler : Handler Callback UserData
  ec : ErrorCode

/-- What happened, oldest first. -/
inductive ScheduleEvent where
  /-- `schedule_callback` returned the handle -/
  | scheduled (handle : Nat) (callback : Callback) (userData : UserData)
  /-- `cancel_callback` returned -/
  | cancelled (handle : Nat)
  /-- `callback(user_data, ec)` -/
  | called (handle : Nat) (callback : Callback) (userData : UserData) (ec : ErrorCode)

/-- The `io_service` of the daemon. The history is not part of it. -/
structure IoService where
  timers : Heap (DeadlineTimer Callback UserData)
  queue : List (Completion Callback UserData)
  history : List (ScheduleEvent Callback UserData)

inductive ScheduleAction where
  | schedule (delay : UInt32) (userData : UserData) (callback : Callback)
  /-- The time of the timer has come. -/
  | expire (handle : Nat)
  /-- `ec` is what `timer->cancel(ec)` reports. -/
  | cancel (handle : Nat) (ec : ErrorCode)
  /-- A thread of the `io_service` takes a handler off the queue and runs it. -/
  | dispatch (pos : Nat)

end Model

variable {Callback UserData : Type}

/-- `cancel`, and what the destructor does before the timer is gone: the timer
and the handlers it queues. -/
def DeadlineTimer.cancel (timer : DeadlineTimer Callback UserData) :
    DeadlineTimer Callback UserData × List (Completion Callback UserData) :=
  ({ timer with wait := none }, timer.wait.toList.map fun handler => ⟨handler, operationAborted⟩)

namespace IoService

def empty : IoService Callback UserData := ⟨.empty, [], []⟩

/-- `ScheduleManager::schedule_callback` -/
def scheduleCallback (s : IoService Callback UserData) (delay : UInt32)
    (userData : UserData) (callback : Callback) : Nat × IoService Callback UserData :=
  let handle := s.timers.fresh
  let timer := { delay, wait := some ⟨handle, callback, userData⟩ }
  (handle, { s with
    timers := (s.timers.alloc timer).2
    history := s.history ++ [.scheduled handle callback userData] })

/-- `ScheduleManager::cancel_callback`, with what it leaves in `ec`. A handle
that is no timer, or one no more, is undefined behaviour. -/
def cancelCallback (s : IoService Callback UserData) (handle : Nat) (ec : ErrorCode) :
    Option (ErrorCode × IoService Callback UserData) := do
  let timer ← s.timers.read handle
  let cancelled := timer.cancel
  let destroyed := cancelled.1.cancel
  let timers ← s.timers.free handle
  some (ec, { timers
              queue := s.queue ++ cancelled.2 ++ destroyed.2
              history := s.history ++ [.cancelled handle] })

def expire (s : IoService Callback UserData) (handle : Nat) :
    Option (IoService Callback UserData) := do
  let timer ← s.timers.read handle
  let handler ← timer.wait
  let timers ← s.timers.write handle { timer with wait := none }
  some { s with timers, queue := s.queue ++ [⟨handler, .success⟩] }

def dispatch (s : IoService Callback UserData) (pos : Nat) :
    Option (IoService Callback UserData) := do
  let c ← s.queue[pos]?
  some { s with
    queue := s.queue.eraseIdx pos
    history := s.history
      ++ [.called c.handler.handle c.handler.callback c.handler.userData c.ec] }

def step (s : IoService Callback UserData) :
    ScheduleAction Callback UserData → Option (IoService Callback UserData)
  | .schedule delay userData callback => some (s.scheduleCallback delay userData callback).2
  | .expire handle => s.expire handle
  | .cancel handle ec => (s.cancelCallback handle ec).map Prod.snd
  | .dispatch pos => s.dispatch pos

end IoService

/-- Every order of calls, expiries and runs of handlers. -/
def scheduling (Callback UserData : Type) :
    Lts (IoService Callback UserData) (ScheduleAction Callback UserData) where
  init s := s = .empty
  step := IoService.step

namespace IoService

variable {s t : IoService Callback UserData}

/-! ## What each step does -/

theorem schedule_cases {delay : UInt32} {userData : UserData} {callback : Callback}
    (h : s.step (.schedule delay userData callback) = some t) :
    (∀ q, t.timers.read q = if q = s.timers.fresh
        then some ⟨delay, some ⟨s.timers.fresh, callback, userData⟩⟩ else s.timers.read q)
      ∧ t.timers.fresh = s.timers.fresh + 1 ∧ t.queue = s.queue
      ∧ t.history = s.history ++ [.scheduled s.timers.fresh callback userData] := by
  obtain rfl := Option.some.inj h
  exact ⟨Heap.read_alloc s.timers _, Heap.fresh_alloc s.timers _, rfl, rfl⟩

theorem expire_cases {handle : Nat} (h : s.step (.expire handle) = some t) :
    ∃ timer handler, s.timers.read handle = some timer ∧ timer.wait = some handler
      ∧ (∀ q, t.timers.read q
          = if q = handle then some { timer with wait := none } else s.timers.read q)
      ∧ t.timers.fresh = s.timers.fresh
      ∧ t.queue = s.queue ++ [⟨handler, .success⟩] ∧ t.history = s.history := by
  obtain ⟨timer, htimer, h⟩ := Option.bind_eq_some_iff.mp h
  obtain ⟨handler, hwait, h⟩ := Option.bind_eq_some_iff.mp h
  obtain ⟨timers, hwrite, h⟩ := Option.bind_eq_some_iff.mp h
  obtain rfl := Option.some.inj h
  obtain ⟨timers', hwrite', hread⟩ := Heap.write_eq_some htimer { timer with wait := none }
  obtain rfl := Option.some.inj (hwrite.symm.trans hwrite')
  exact ⟨timer, handler, htimer, hwait, hread, Heap.fresh_write hwrite, rfl, rfl⟩

theorem cancel_cases {handle : Nat} {ec : ErrorCode}
    (hstep : s.step (.cancel handle ec) = some t) :
    ∃ timer, s.timers.read handle = some timer
      ∧ (∀ q, t.timers.read q = if q = handle then none else s.timers.read q)
      ∧ t.timers.fresh = s.timers.fresh
      ∧ t.queue = s.queue ++ timer.wait.toList.map (fun handler => ⟨handler, operationAborted⟩)
      ∧ t.history = s.history ++ [.cancelled handle] := by
  obtain ⟨result, h, rfl⟩ := Option.map_eq_some_iff.mp hstep
  obtain ⟨timer, htimer, h⟩ := Option.bind_eq_some_iff.mp h
  obtain ⟨timers, hfree, h⟩ := Option.bind_eq_some_iff.mp h
  obtain rfl := Option.some.inj h
  obtain ⟨timers', hfree', hread⟩ := Heap.free_eq_some htimer
  obtain rfl := Option.some.inj (hfree.symm.trans hfree')
  refine ⟨timer, htimer, hread, Heap.fresh_free hfree, ?_, rfl⟩
  -- the destructor finds no handler waiting
  exact List.append_nil _

theorem dispatch_cases {pos : Nat} (h : s.step (.dispatch pos) = some t) :
    ∃ c, s.queue.Perm (c :: t.queue) ∧ t.timers = s.timers
      ∧ t.history = s.history
        ++ [.called c.handler.handle c.handler.callback c.handler.userData c.ec] := by
  obtain ⟨c, hc, h⟩ := Option.bind_eq_some_iff.mp h
  obtain rfl := Option.some.inj h
  obtain ⟨hlt, rfl⟩ := List.getElem?_eq_some_iff.mp hc
  exact ⟨_, (List.getElem_cons_eraseIdx_perm hlt).symm, rfl, rfl⟩

/-! ## Histories -/

end IoService

namespace ScheduleEvent

/-- The event is the return of `schedule_callback` with the handle. -/
def schedules (handle : Nat) : ScheduleEvent Callback UserData → Bool
  | .scheduled handle' _ _ => handle' == handle
  | _ => false

/-- The event is a call of the callback of the handle. -/
def calls (handle : Nat) : ScheduleEvent Callback UserData → Bool
  | .called handle' _ _ _ => handle' == handle
  | _ => false

end ScheduleEvent

/-- A callback is called at most once for each time it was scheduled, later
and with the user data of that time. -/
structure Paired (history : List (ScheduleEvent Callback UserData)) : Prop where
  scheduledOnce : ∀ handle, history.countP (ScheduleEvent.schedules handle) ≤ 1
  calledOnce : ∀ handle, history.countP (ScheduleEvent.calls handle) ≤ 1
  bound : ∀ before handle callback userData ec after,
    history = before ++ .called handle callback userData ec :: after →
    .scheduled handle callback userData ∈ before

/-- No callback is called with success once `cancel_callback` of its handle has
returned. -/
def Silent (history : List (ScheduleEvent Callback UserData)) : Prop :=
  ∀ before handle callback userData ec after,
    history = before ++ .called handle callback userData ec :: after →
    .cancelled handle ∈ before → ec.failed = true

/-- One more event: the splits of the longer list. -/
theorem split_append_singleton {α : Type*} {l before after : List α} {a b : α}
    (h : l ++ [a] = before ++ b :: after) :
    (before = l ∧ b = a) ∨ ∃ after', l = before ++ b :: after' := by
  rcases List.eq_nil_or_concat after with rfl | ⟨after', c, rfl⟩
  · obtain ⟨hl, ha⟩ := List.append_inj' h rfl
    exact Or.inl ⟨hl.symm, (List.cons.inj ha).1.symm⟩
  · right
    rw [List.concat_eq_append, ← List.cons_append, ← List.append_assoc] at h
    exact ⟨after', (List.append_inj' h rfl).1⟩

theorem silent_append {history : List (ScheduleEvent Callback UserData)}
    (event : ScheduleEvent Callback UserData) :
    Silent (history ++ [event]) ↔ Silent history
      ∧ ∀ handle callback userData ec, event = .called handle callback userData ec →
        .cancelled handle ∈ history → ec.failed = true := by
  constructor
  · intro h
    refine ⟨fun before handle callback userData ec after hsplit hmem => ?_,
      fun handle callback userData ec hevent hmem => ?_⟩
    · refine h before handle callback userData ec (after ++ [event]) ?_ hmem
      rw [hsplit, List.append_assoc, List.cons_append]
    · exact h history handle callback userData ec [] (by rw [hevent]) hmem
  · rintro ⟨hold, hnew⟩ before handle callback userData ec after hsplit hmem
    rcases split_append_singleton hsplit with ⟨rfl, hevent⟩ | ⟨after', hsplit'⟩
    · exact hnew handle callback userData ec hevent.symm hmem
    · exact hold before handle callback userData ec after' hsplit' hmem

namespace IoService

variable {s t : IoService Callback UserData}

/-! ## One handler for each schedule -/

/-- The handlers that wait on the timer: none or one. -/
def waits (s : IoService Callback UserData) (handle : Nat) : Nat :=
  ((s.timers.read handle).bind DeadlineTimer.wait).toList.length

/-- The handlers of the schedule in the queue. -/
def queued (s : IoService Callback UserData) (handle : Nat) : Nat :=
  s.queue.countP fun c => c.handler.handle == handle

theorem waits_of_read {handle : Nat} {timer : DeadlineTimer Callback UserData}
    (h : s.timers.read handle = some timer) : s.waits handle = timer.wait.toList.length := by
  rw [waits, h, Option.bind_some]

theorem waits_of_none {handle : Nat} (h : s.timers.read handle = none) :
    s.waits handle = 0 := by
  rw [waits, h]
  rfl

theorem waits_congr {handle : Nat} (h : t.timers.read handle = s.timers.read handle) :
    t.waits handle = s.waits handle := by
  rw [waits, waits, h]

/-- A handler is of the schedule that made it. -/
def Made (history : List (ScheduleEvent Callback UserData))
    (handler : Handler Callback UserData) : Prop :=
  .scheduled handler.handle handler.callback handler.userData ∈ history

/-- Each schedule has one handler: it waits on the timer of the handle, is
queued or was called. A timer that was cancelled is gone. -/
structure Wf (s : IoService Callback UserData) : Prop where
  waiting : ∀ handle timer handler, s.timers.read handle = some timer →
    timer.wait = some handler → handler.handle = handle ∧ Made s.history handler
  made : ∀ c ∈ s.queue, Made s.history c.handler
  ledger : ∀ handle, s.waits handle + s.queued handle
    + s.history.countP (ScheduleEvent.calls handle)
      = s.history.countP (ScheduleEvent.schedules handle)
  schedules : ∀ handle, s.history.countP (ScheduleEvent.schedules handle)
    = if handle < s.timers.fresh then 1 else 0
  gone : ∀ handle, .cancelled handle ∈ s.history →
    handle < s.timers.fresh ∧ s.timers.read handle = none
  bound : ∀ before handle callback userData ec after,
    s.history = before ++ .called handle callback userData ec :: after →
    .scheduled handle callback userData ∈ before

/-- One more event, counted. -/
theorem countP_append_event (p : ScheduleEvent Callback UserData → Bool)
    (history : List (ScheduleEvent Callback UserData))
    (event : ScheduleEvent Callback UserData) :
    (history ++ [event]).countP p = history.countP p + if p event then 1 else 0 := by
  rw [List.countP_append, List.countP_singleton]

theorem wf_empty : (empty : IoService Callback UserData).Wf where
  waiting := by simp [empty]
  made := by simp [empty]
  ledger := by simp [empty, waits, queued]
  schedules handle := (if_neg (Nat.not_lt_zero handle)).symm
  gone := by simp [empty]
  bound := by simp [empty]

theorem Made.append {history : List (ScheduleEvent Callback UserData)}
    {handler : Handler Callback UserData} (h : Made history handler)
    (events : List (ScheduleEvent Callback UserData)) : Made (history ++ events) handler :=
  List.mem_append_left events h

/-- An event that is no call is no new obligation. -/
theorem Wf.bound_append (h : s.Wf) {event : ScheduleEvent Callback UserData}
    (hbound : ∀ handle callback userData ec, event = .called handle callback userData ec →
      .scheduled handle callback userData ∈ s.history) :
    ∀ before handle callback userData ec after,
      s.history ++ [event] = before ++ .called handle callback userData ec :: after →
      .scheduled handle callback userData ∈ before := by
  intro before handle callback userData ec after hsplit
  rcases split_append_singleton hsplit with ⟨rfl, hevent⟩ | ⟨after', hsplit'⟩
  · exact hbound handle callback userData ec hevent.symm
  · exact h.bound before handle callback userData ec after' hsplit'

/-! ### Where the handlers are -/

theorem schedule_waits {delay : UInt32} {userData : UserData} {callback : Callback}
    (hst : s.step (.schedule delay userData callback) = some t) (handle : Nat) :
    t.waits handle = s.waits handle + if s.timers.fresh = handle then 1 else 0 := by
  obtain ⟨hread, -⟩ := schedule_cases hst
  by_cases heq : s.timers.fresh = handle
  · subst heq
    rw [if_pos rfl, waits_of_none (Heap.read_fresh _),
      waits_of_read (by rw [hread, if_pos rfl])]
    rfl
  · rw [if_neg heq, Nat.add_zero]
    exact waits_congr (by rw [hread, if_neg (Ne.symm heq)])

/-- An expiry moves the handler of its timer to the queue. -/
theorem Wf.expire_moves (h : s.Wf) {handle₀ : Nat} (hst : s.step (.expire handle₀) = some t)
    (handle : Nat) : t.waits handle + t.queued handle = s.waits handle + s.queued handle := by
  obtain ⟨timer, handler, htimer, hwait, hread, -, hqueue, -⟩ := expire_cases hst
  have hhandle := (h.waiting handle₀ timer handler htimer hwait).1
  have hqueued : t.queued handle = s.queued handle + if handle₀ = handle then 1 else 0 := by
    rw [queued, hqueue, List.countP_append, List.countP_singleton, hhandle]
    simp only [queued, beq_iff_eq]
  by_cases heq : handle₀ = handle
  · subst heq
    have hwaits : t.waits handle₀ = 0 := by
      rw [waits_of_read (by rw [hread, if_pos rfl])]
      rfl
    have hwaits' : s.waits handle₀ = 1 := by
      rw [waits_of_read htimer, hwait]
      rfl
    rw [if_pos rfl] at hqueued
    omega
  · have hwaits : t.waits handle = s.waits handle :=
      waits_congr (by rw [hread, if_neg (Ne.symm heq)])
    rw [if_neg heq] at hqueued
    omega

/-- So does a cancellation, if there is one left. -/
theorem Wf.cancel_moves (h : s.Wf) {handle₀ : Nat} {ec : ErrorCode}
    (hst : s.step (.cancel handle₀ ec) = some t) (handle : Nat) :
    t.waits handle + t.queued handle = s.waits handle + s.queued handle := by
  obtain ⟨timer, htimer, hread, -, hqueue, -⟩ := cancel_cases hst
  have hqueued : t.queued handle
      = s.queued handle + if handle₀ = handle then s.waits handle₀ else 0 := by
    rw [queued, hqueue, List.countP_append, ← queued, waits_of_read htimer]
    cases hwait : timer.wait with
    | none => simp
    | some handler =>
        have hhandle := (h.waiting handle₀ timer handler htimer hwait).1
        simp [hhandle]
  by_cases heq : handle₀ = handle
  · subst heq
    have hwaits : t.waits handle₀ = 0 := waits_of_none (by rw [hread, if_pos rfl])
    rw [if_pos rfl] at hqueued
    omega
  · have hwaits : t.waits handle = s.waits handle :=
      waits_congr (by rw [hread, if_neg (Ne.symm heq)])
    rw [if_neg heq] at hqueued
    omega

/-! ### The steps -/

theorem Wf.schedule (h : s.Wf) {delay : UInt32} {userData : UserData} {callback : Callback}
    (hst : s.step (.schedule delay userData callback) = some t) : t.Wf := by
  obtain ⟨hread, hfresh, hqueue, hhistory⟩ := schedule_cases hst
  refine ⟨?_, ?_, ?_, ?_, ?_, ?_⟩
  · intro handle timer handler htimer hwait
    rw [hhistory]
    rw [hread] at htimer
    split at htimer
    · rename_i heq
      obtain rfl := Option.some.inj htimer
      obtain rfl := Option.some.inj hwait
      exact ⟨heq.symm, List.mem_append_right _ (List.mem_singleton.mpr rfl)⟩
    · obtain ⟨hhandle, hmade⟩ := h.waiting handle timer handler htimer hwait
      exact ⟨hhandle, hmade.append _⟩
  · rw [hqueue, hhistory]
    exact fun c hc => (h.made c hc).append _
  · intro handle
    have hledger := h.ledger handle
    have hwaits := schedule_waits hst handle
    have hqueued : t.queued handle = s.queued handle := by rw [queued, queued, hqueue]
    rw [hhistory, countP_append_event, countP_append_event]
    simp only [ScheduleEvent.schedules, ScheduleEvent.calls, Bool.false_eq_true, if_false,
      beq_iff_eq, Nat.add_zero]
    omega
  · intro handle
    have hschedules := h.schedules handle
    rw [hhistory, hfresh, countP_append_event]
    simp only [ScheduleEvent.schedules, beq_iff_eq]
    split at hschedules <;> split <;> split <;> omega
  · intro handle hmem
    rw [hhistory, List.mem_append, List.mem_singleton] at hmem
    obtain ⟨hlt, hnone⟩ := h.gone handle (hmem.resolve_right (by simp))
    rw [hfresh, hread, if_neg (by omega)]
    exact ⟨by omega, hnone⟩
  · rw [hhistory]
    refine h.bound_append fun handle callback userData ec hevent => ?_
    cases hevent

theorem Wf.expire (h : s.Wf) {handle₀ : Nat} (hst : s.step (.expire handle₀) = some t) :
    t.Wf := by
  obtain ⟨timer₀, handler₀, htimer₀, hwait₀, hread, hfresh, hqueue, hhistory⟩ :=
    expire_cases hst
  obtain ⟨hhandle₀, hmade₀⟩ := h.waiting handle₀ timer₀ handler₀ htimer₀ hwait₀
  refine ⟨?_, ?_, ?_, ?_, ?_, ?_⟩
  · intro handle timer handler htimer hwait
    rw [hhistory]
    rw [hread] at htimer
    split at htimer
    · obtain rfl := Option.some.inj htimer
      cases hwait
    · exact h.waiting handle timer handler htimer hwait
  · intro c hc
    rw [hhistory]
    rw [hqueue, List.mem_append, List.mem_singleton] at hc
    rcases hc with hold | rfl
    · exact h.made c hold
    · exact hmade₀
  · intro handle
    rw [hhistory, h.expire_moves hst]
    exact h.ledger handle
  · rw [hhistory, hfresh]
    exact h.schedules
  · intro handle hmem
    rw [hhistory] at hmem
    obtain ⟨hlt, hnone⟩ := h.gone handle hmem
    have hne : handle ≠ handle₀ := by
      rintro rfl
      rw [htimer₀] at hnone
      cases hnone
    rw [hfresh, hread, if_neg hne]
    exact ⟨hlt, hnone⟩
  · rw [hhistory]
    exact h.bound

theorem Wf.cancel (h : s.Wf) {handle₀ : Nat} {ec : ErrorCode}
    (hst : s.step (.cancel handle₀ ec) = some t) : t.Wf := by
  obtain ⟨timer₀, htimer₀, hread, hfresh, hqueue, hhistory⟩ := cancel_cases hst
  refine ⟨?_, ?_, ?_, ?_, ?_, ?_⟩
  · intro handle timer handler htimer hwait
    rw [hhistory]
    rw [hread] at htimer
    split at htimer
    · cases htimer
    · obtain ⟨hhandle, hmade⟩ := h.waiting handle timer handler htimer hwait
      exact ⟨hhandle, hmade.append _⟩
  · intro c hc
    rw [hhistory]
    rw [hqueue, List.mem_append, List.mem_map] at hc
    rcases hc with hold | ⟨handler, hhandler, rfl⟩
    · exact (h.made c hold).append _
    · have hwait := Option.mem_toList.mp hhandler
      exact (h.waiting handle₀ timer₀ handler htimer₀ hwait).2.append _
  · intro handle
    rw [hhistory, h.cancel_moves hst, countP_append_event, countP_append_event]
    exact h.ledger handle
  · intro handle
    rw [hhistory, hfresh, countP_append_event, ← h.schedules]
    rfl
  · intro handle hmem
    rw [hhistory, List.mem_append, List.mem_singleton] at hmem
    rw [hfresh, hread]
    by_cases heq : handle = handle₀
    · have hlt : handle₀ < s.timers.fresh := Heap.lt_of_read htimer₀
      exact ⟨by omega, if_pos heq⟩
    · rw [if_neg heq]
      exact h.gone handle (hmem.resolve_right fun hevent => heq (by simpa using hevent))
  · rw [hhistory]
    refine h.bound_append fun handle callback userData ec hevent => ?_
    cases hevent

theorem Wf.dispatch (h : s.Wf) {pos : Nat} (hst : s.step (.dispatch pos) = some t) : t.Wf := by
  obtain ⟨c, hperm, htimers, hhistory⟩ := dispatch_cases hst
  refine ⟨?_, ?_, ?_, ?_, ?_, ?_⟩
  · intro handle timer handler htimer hwait
    rw [htimers] at htimer
    rw [hhistory]
    obtain ⟨hhandle, hmade⟩ := h.waiting handle timer handler htimer hwait
    exact ⟨hhandle, hmade.append _⟩
  · intro c' hc'
    rw [hhistory]
    exact (h.made c' (hperm.mem_iff.mpr (List.mem_cons_of_mem c hc'))).append _
  · intro handle
    have hledger := h.ledger handle
    have hwaits : t.waits handle = s.waits handle := waits_congr (by rw [htimers])
    have hqueued : s.queued handle
        = t.queued handle + if c.handler.handle = handle then 1 else 0 := by
      rw [queued, hperm.countP_eq, List.countP_cons]
      simp only [queued, beq_iff_eq]
    rw [hhistory, countP_append_event, countP_append_event]
    simp only [ScheduleEvent.schedules, ScheduleEvent.calls, Bool.false_eq_true, if_false,
      Nat.add_zero, beq_iff_eq]
    omega
  · intro handle
    rw [hhistory, htimers, countP_append_event, ← h.schedules]
    rfl
  · intro handle hmem
    rw [hhistory, List.mem_append, List.mem_singleton] at hmem
    rw [htimers]
    exact h.gone handle (hmem.resolve_right (by simp))
  · rw [hhistory]
    refine h.bound_append fun handle callback userData ec hevent => ?_
    cases hevent
    exact h.made c (hperm.mem_iff.mpr List.mem_cons_self)

theorem Wf.step {a : ScheduleAction Callback UserData} (h : s.Wf)
    (hst : s.step a = some t) : t.Wf := by
  cases a with
  | schedule delay userData callback => exact h.schedule hst
  | expire handle => exact h.expire hst
  | cancel handle ec => exact h.cancel hst
  | dispatch pos => exact h.dispatch hst

theorem Wf.paired (h : s.Wf) : Paired s.history where
  scheduledOnce handle := by
    rw [h.schedules]
    split <;> omega
  calledOnce handle := by
    have hledger := h.ledger handle
    have hschedules := h.schedules handle
    split at hschedules <;> omega
  bound := h.bound

/-! ## Cancelled in time -/

/-- A `cancel_callback` comes at a time the handler of its timer is not queued
with success: before the expiry, or after the callback was called. -/
def InTime (s : IoService Callback UserData) : ScheduleAction Callback UserData → Prop
  | .cancel handle _ => ∀ c ∈ s.queue, c.handler.handle = handle → c.ec.failed = true
  | _ => True

/-- Nothing in the queue is to call a cancelled schedule with success. -/
def Settled (s : IoService Callback UserData) : Prop :=
  ∀ c ∈ s.queue, .cancelled c.handler.handle ∈ s.history → c.ec.failed = true

theorem settled_schedule {delay : UInt32} {userData : UserData} {callback : Callback}
    (hst : s.step (.schedule delay userData callback) = some t) :
    (Silent t.history ∧ t.Settled) ↔ Silent s.history ∧ s.Settled := by
  obtain ⟨-, -, hqueue, hhistory⟩ := schedule_cases hst
  rw [Settled, hqueue, hhistory, silent_append]
  simp [Settled]

/-- What expires was not cancelled: its timer is there. -/
theorem settled_expire (h : s.Wf) {handle : Nat} (hst : s.step (.expire handle) = some t) :
    (Silent t.history ∧ t.Settled) ↔ Silent s.history ∧ s.Settled := by
  obtain ⟨timer, handler, htimer, hwait, -, -, hqueue, hhistory⟩ := expire_cases hst
  have hnot : .cancelled handler.handle ∉ s.history := by
    intro hmem
    have hnone := (h.gone _ hmem).2
    rw [(h.waiting handle timer handler htimer hwait).1, htimer] at hnone
    cases hnone
  rw [Settled, hqueue, hhistory]
  refine and_congr_right fun _ => ⟨fun hall c hc => hall c (List.mem_append_left _ hc),
    fun hall c hc hmem => ?_⟩
  rcases List.mem_append.mp hc with hold | hnew
  · exact hall c hold hmem
  · obtain rfl := List.mem_singleton.mp hnew
    exact absurd hmem hnot

/-- A cancellation puts the handlers of its timer among those not to be called
with success. -/
theorem settled_cancel {handle : Nat} {ec : ErrorCode}
    (hst : s.step (.cancel handle ec) = some t) :
    (Silent t.history ∧ t.Settled)
      ↔ (Silent s.history ∧ s.Settled) ∧ s.InTime (.cancel handle ec) := by
  obtain ⟨timer, -, -, -, hqueue, hhistory⟩ := cancel_cases hst
  have hsilent : Silent t.history ↔ Silent s.history := by
    rw [hhistory, silent_append]
    simp
  rw [hsilent, and_assoc]
  refine and_congr_right fun _ => ?_
  rw [Settled, hqueue, hhistory]
  constructor
  · intro hall
    refine ⟨fun c hc hmem => ?_, fun c hc heq => ?_⟩
    · exact hall c (List.mem_append_left _ hc) (List.mem_append_left _ hmem)
    · refine hall c (List.mem_append_left _ hc) (List.mem_append_right _ ?_)
      rw [heq]
      exact List.mem_singleton.mpr rfl
  · rintro ⟨hsettled, hintime⟩ c hc hmem
    rcases List.mem_append.mp hc with hold | hnew
    · rcases List.mem_append.mp hmem with hbefore | hnow
      · exact hsettled c hold hbefore
      · exact hintime c hold (by simpa using hnow)
    · -- what the cancellation queued is aborted
      obtain ⟨handler, -, rfl⟩ := List.mem_map.mp hnew
      rfl

theorem settled_dispatch {pos : Nat} (hst : s.step (.dispatch pos) = some t) :
    (Silent t.history ∧ t.Settled) ↔ Silent s.history ∧ s.Settled := by
  obtain ⟨c, hperm, -, hhistory⟩ := dispatch_cases hst
  have hmem : ∀ handle, .cancelled handle ∈ t.history ↔ .cancelled handle ∈ s.history := by
    intro handle
    rw [hhistory, List.mem_append, List.mem_singleton]
    exact or_iff_left (by simp)
  have hsilent : Silent t.history ↔ Silent s.history
      ∧ (.cancelled c.handler.handle ∈ s.history → c.ec.failed = true) := by
    rw [hhistory, silent_append]
    refine and_congr_right fun _ => ⟨fun hall => hall _ _ _ _ rfl, ?_⟩
    rintro hone handle callback userData ec hevent
    cases hevent
    exact hone
  have hsettled : s.Settled
      ↔ (.cancelled c.handler.handle ∈ s.history → c.ec.failed = true) ∧ t.Settled := by
    simp only [Settled, hperm.mem_iff, List.forall_mem_cons, hmem]
  rw [hsilent, hsettled, and_assoc]

/-- What is lost is lost by a cancellation that comes too late, and for good. -/
theorem settled_step (h : s.Wf) {a : ScheduleAction Callback UserData}
    (hst : s.step a = some t) :
    (Silent t.history ∧ t.Settled) ↔ (Silent s.history ∧ s.Settled) ∧ s.InTime a := by
  cases a with
  | schedule delay userData callback =>
      rw [settled_schedule hst]
      exact (and_iff_left trivial).symm
  | expire handle =>
      rw [settled_expire h hst]
      exact (and_iff_left trivial).symm
  | cancel handle ec => exact settled_cancel hst
  | dispatch pos =>
      rw [settled_dispatch hst]
      exact (and_iff_left trivial).symm

theorem wf_run {actions : List (ScheduleAction Callback UserData)}
    (h : (scheduling Callback UserData).run s actions = some t) (hs : s.Wf) : t.Wf :=
  Lts.run_invariant (fun _ _ _ hw hst => hw.step hst) h hs

/-- A handler that is queued can be run next. -/
theorem dispatch_of_mem {c : Completion Callback UserData} (hc : c ∈ s.queue) :
    ∃ pos, ∃ t, s.step (.dispatch pos) = some t
      ∧ t.history = s.history
        ++ [.called c.handler.handle c.handler.callback c.handler.userData c.ec] := by
  obtain ⟨pos, hpos⟩ := List.mem_iff_getElem?.mp hc
  exact ⟨pos, _, Option.bind_eq_some_iff.mpr ⟨c, hpos, rfl⟩, rfl⟩

/-- **When a cancelled schedule stays silent.** In every run each schedule is
called at most once, with its own user data. No continuation with
cancellations in time calls one with success after its `cancel_callback` has
returned, exactly if the cancellations of the run were in time. -/
theorem cancelled_stays_silent_iff {actions : List (ScheduleAction Callback UserData)}
    (h : (scheduling Callback UserData).run empty actions = some s) :
    Paired s.history
      ∧ ((scheduling Callback UserData).Meets InTime empty actions
        ↔ ∀ more t, (scheduling Callback UserData).run s more = some t →
          (scheduling Callback UserData).Meets InTime s more → Silent t.history) := by
  have hwf : s.Wf := wf_run h wf_empty
  have hstart : Silent (empty : IoService Callback UserData).history
      ∧ (empty : IoService Callback UserData).Settled :=
    ⟨fun _ _ _ _ _ _ hsplit => by simp [empty] at hsplit,
      fun _ hc => absurd hc List.not_mem_nil⟩
  have hgood := Lts.run_good_iff (I := Wf) (fun _ _ _ hw hst => hw.step hst)
    (fun _ _ _ hw hst => settled_step hw hst) h wf_empty
  refine ⟨hwf.paired, ?_⟩
  constructor
  · intro hmeets more t hmore hmeets'
    have hs := hgood.mpr ⟨hstart, hmeets⟩
    have hthen := Lts.run_good_iff (I := Wf) (fun _ _ _ hw hst => hw.step hst)
      (fun _ _ _ hw hst => settled_step hw hst) hmore hwf
    exact (hthen.mpr ⟨hs, hmeets'⟩).1
  · intro hsilent
    have hnow : Silent s.history := hsilent [] s rfl trivial
    refine (hgood.mp ⟨hnow, fun c hc hmem => ?_⟩).2
    -- run the handler next
    obtain ⟨pos, t, hst, hhistory⟩ := dispatch_of_mem hc
    have hthen : Silent t.history := by
      refine hsilent [.dispatch pos] t ?_ ⟨trivial, fun _ _ => trivial⟩
      rw [Lts.run_cons]
      exact Option.bind_eq_some_iff.mpr ⟨t, hst, rfl⟩
    rw [hhistory, silent_append] at hthen
    exact hthen.2 _ _ _ _ rfl hmem

/-- One timer is cancelled before it expires, one after its callback was
called. -/
def inTimeRun : List (ScheduleAction Nat Nat) :=
  [.schedule 100 7 1, .schedule 200 8 2, .cancel 0 .success, .expire 1, .dispatch 1,
    .cancel 1 .success, .dispatch 0]

instance (s : IoService Callback UserData) : DecidablePred s.InTime
  | .cancel handle _ => inferInstanceAs (Decidable
      (∀ c ∈ s.queue, c.handler.handle = handle → c.ec.failed = true))
  | .schedule _ _ _ | .expire _ | .dispatch _ => .isTrue trivial

/-- So neither is called with success from then on. -/
theorem cancelled_stays_silent_iff_inTime :
    ∃ s, (scheduling Nat Nat).run empty inTimeRun = some s ∧ Paired s.history
      ∧ ∀ more t, (scheduling Nat Nat).run s more = some t →
        (scheduling Nat Nat).Meets InTime s more → Silent t.history := by
  have hreplay : (scheduling Nat Nat).replay (fun s a => decide (s.InTime a)) empty inTimeRun
      = some _ := rfl
  obtain ⟨hrun, hmeets⟩ := Lts.meets_of_replay (fun _ _ h => of_decide_eq_true h) hreplay
  obtain ⟨hpaired, hiff⟩ := cancelled_stays_silent_iff hrun
  exact ⟨_, hrun, hpaired, hiff.mp hmeets⟩

/-- The timer expires just before it is cancelled. -/
def expiredFirst : List (ScheduleAction Nat Nat) :=
  [.schedule 100 7 1, .expire 0, .cancel 0 .success, .dispatch 0]

/-- The callback is called with success after the cancellation has returned. -/
theorem expired_first_is_called :
    ∃ s, (scheduling Nat Nat).run empty expiredFirst = some s
      ∧ s.history = [.scheduled 0 1 7, .cancelled 0, .called 0 1 7 .success]
      ∧ ¬Silent s.history := by
  refine ⟨_, rfl, rfl, ?_⟩
  intro h
  have hfailed := h [.scheduled 0 1 7, .cancelled 0] 0 1 7 .success [] rfl (by simp)
  cases hfailed

end IoService

end JustCommon
