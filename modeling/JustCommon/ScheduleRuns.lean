import JustCommon.Ledger
import JustCommon.ScheduleManager

/-!
# What every schedule comes to

A schedule is called for one of two reasons, and the error tells which: with
success because its timer expired, with `operation_aborted` because it was
cancelled before. And it is called: as long as a timer waits or a handler is
queued, an expiry or a run of a handler is possible, and these alone bring
every run to a state in which each schedule has been called once.

The timer is another matter. It is the caller's until `cancel_callback`,
also when its callback has been called, so a schedule that is not cancelled
leaves its timer behind (`timers_owned`).
-/

namespace JustCommon

namespace IoService

variable {Callback UserData : Type} {s t : IoService Callback UserData}

/-! ## Why a callback is called -/

/-- A call is with success, or with `operation_aborted` after a `cancel_callback`. -/
def Reason (history : List (ScheduleEvent Callback UserData)) (handle : Nat)
    (ec : ErrorCode) : Prop :=
  ec = .success ∨ ec = operationAborted ∧ .cancelled handle ∈ history

structure Explained (s : IoService Callback UserData) : Prop where
  queued : ∀ c ∈ s.queue, Reason s.history c.handler.handle c.ec
  called : ∀ before handle callback userData ec after,
    s.history = before ++ .called handle callback userData ec :: after →
    Reason before handle ec

theorem Reason.append {history : List (ScheduleEvent Callback UserData)} {handle : Nat}
    {ec : ErrorCode} (h : Reason history handle ec)
    (events : List (ScheduleEvent Callback UserData)) :
    Reason (history ++ events) handle ec :=
  h.imp_right fun haborted => ⟨haborted.1, List.mem_append_left events haborted.2⟩

theorem explained_empty : (empty : IoService Callback UserData).Explained where
  queued := by simp [empty]
  called := by simp [empty]

/-- One more event, which is no call or one with its reason. -/
theorem Explained.called_append (h : s.Explained) {event : ScheduleEvent Callback UserData}
    (hreason : ∀ handle callback userData ec, event = .called handle callback userData ec →
      Reason s.history handle ec) :
    ∀ before handle callback userData ec after,
      s.history ++ [event] = before ++ .called handle callback userData ec :: after →
      Reason before handle ec := by
  intro before handle callback userData ec after hsplit
  rcases split_append_singleton hsplit with ⟨rfl, hevent⟩ | ⟨after', hsplit'⟩
  · exact hreason handle callback userData ec hevent.symm
  · exact h.called before handle callback userData ec after' hsplit'

theorem Explained.step (hwf : s.Wf) (h : s.Explained) {a : ScheduleAction Callback UserData}
    (hst : s.step a = some t) : t.Explained := by
  cases a with
  | schedule delay userData callback =>
      obtain ⟨-, -, hqueue, hhistory⟩ := schedule_cases hst
      refine ⟨?_, ?_⟩
      · rw [hqueue, hhistory]
        exact fun c hc => (h.queued c hc).append _
      · rw [hhistory]
        exact h.called_append fun _ _ _ _ hevent => by cases hevent
  | expire handle =>
      obtain ⟨timer, handler, -, -, -, -, hqueue, hhistory⟩ := expire_cases hst
      refine ⟨?_, ?_⟩
      · rw [hqueue, hhistory]
        intro c hc
        rcases List.mem_append.mp hc with hold | hnew
        · exact h.queued c hold
        · obtain rfl := List.mem_singleton.mp hnew
          exact Or.inl rfl
      · rw [hhistory]
        exact h.called
  | cancel handle ec =>
      obtain ⟨timer, htimer, -, -, hqueue, hhistory⟩ := cancel_cases hst
      refine ⟨?_, ?_⟩
      · rw [hqueue, hhistory]
        intro c hc
        rcases List.mem_append.mp hc with hold | hnew
        · exact (h.queued c hold).append _
        · obtain ⟨handler, hwait, rfl⟩ := List.mem_map.mp hnew
          have hhandle := (hwf.waiting handle timer handler htimer (Option.mem_toList.mp hwait)).1
          refine Or.inr ⟨rfl, List.mem_append_right _ ?_⟩
          rw [hhandle]
          exact List.mem_singleton.mpr rfl
      · rw [hhistory]
        exact h.called_append fun _ _ _ _ hevent => by cases hevent
  | dispatch pos =>
      obtain ⟨c, hperm, -, hhistory⟩ := dispatch_cases hst
      refine ⟨?_, ?_⟩
      · rw [hhistory]
        exact fun c' hc' =>
          (h.queued c' (hperm.mem_iff.mpr (List.mem_cons_of_mem c hc'))).append _
      · rw [hhistory]
        refine h.called_append fun handle callback userData ec hevent => ?_
        cases hevent
        exact h.queued c (hperm.mem_iff.mpr List.mem_cons_self)

/-! ## Every schedule is called -/

end IoService

namespace ScheduleAction

variable {Callback UserData : Type}

/-- What happens without the callers: an expiry or the run of a handler. -/
def isOwn : ScheduleAction Callback UserData → Bool
  | .expire _ => true
  | .dispatch _ => true
  | _ => false

def isSchedule : ScheduleAction Callback UserData → Bool
  | .schedule .. => true
  | _ => false

def isCancel : ScheduleAction Callback UserData → Bool
  | .cancel _ _ => true
  | _ => false

end ScheduleAction

namespace IoService

variable {Callback UserData : Type} {s t : IoService Callback UserData}

/-- The timers with a handler that waits. -/
def waiting (s : IoService Callback UserData) : Finset Nat :=
  (Finset.range s.timers.fresh).filter fun handle => s.waits handle ≠ 0

/-- The expiries and the runs of handlers still to come. -/
def outstanding (s : IoService Callback UserData) : Nat :=
  2 * s.waiting.card + s.queue.length

theorem mem_waiting {handle : Nat} : handle ∈ s.waiting ↔ s.waits handle ≠ 0 := by
  rw [waiting, Finset.mem_filter, Finset.mem_range]
  refine and_iff_right_of_imp fun hwaits => ?_
  by_contra hge
  have hnone : s.timers.read handle = none := by
    cases hread : s.timers.read handle with
    | none => rfl
    | some timer => exact absurd (Heap.lt_of_read hread) hge
  exact hwaits (waits_of_none hnone)

/-- A handler that waits can be queued. -/
theorem expire_of_waits {handle : Nat} (h : s.waits handle ≠ 0) :
    ∃ t, s.step (.expire handle) = some t := by
  cases htimer : s.timers.read handle with
  | none => exact absurd (waits_of_none htimer) h
  | some timer =>
      cases hwait : timer.wait with
      | none => exact absurd (by rw [waits_of_read htimer, hwait]; rfl) h
      | some handler =>
          obtain ⟨timers, hwrite, -⟩ := Heap.write_eq_some htimer { timer with wait := none }
          exact ⟨_, by simp [step, expire, htimer, hwait, hwrite]; rfl⟩

theorem outstanding_expire {handle : Nat} (hst : s.step (.expire handle) = some t) :
    t.outstanding + 1 = s.outstanding := by
  obtain ⟨timer, handler, htimer, hwait, hread, -, hqueue, -⟩ := expire_cases hst
  have hmem : handle ∈ s.waiting := by
    rw [mem_waiting, waits_of_read htimer, hwait]
    exact Nat.one_ne_zero
  have hwaiting : t.waiting = s.waiting.erase handle := by
    ext other
    rw [Finset.mem_erase, mem_waiting, mem_waiting]
    by_cases heq : other = handle
    · subst heq
      have hnone : t.waits other = 0 := waits_of_read (by rw [hread, if_pos rfl])
      simp [hnone]
    · have hsame : t.waits other = s.waits other := waits_congr (by rw [hread, if_neg heq])
      rw [hsame, and_iff_right heq]
  have hcard := Finset.card_erase_add_one hmem
  rw [outstanding, outstanding, hwaiting, hqueue, List.length_append, List.length_singleton]
  omega

theorem outstanding_dispatch {pos : Nat} (hst : s.step (.dispatch pos) = some t) :
    t.outstanding + 1 = s.outstanding := by
  obtain ⟨c, hperm, htimers, -⟩ := dispatch_cases hst
  have hwaiting : t.waiting = s.waiting := by
    ext handle
    have hsame : t.waits handle = s.waits handle := waits_congr (by rw [htimers])
    rw [mem_waiting, mem_waiting, hsame]
  have hlength := hperm.length_eq
  rw [List.length_cons] at hlength
  rw [outstanding, outstanding, hwaiting, hlength]
  omega

/-- An own step schedules nothing. -/
theorem schedules_own {a : ScheduleAction Callback UserData} (hown : a.isOwn = true)
    (hst : s.step a = some t) (handle : Nat) :
    t.history.countP (ScheduleEvent.schedules handle)
      = s.history.countP (ScheduleEvent.schedules handle) := by
  cases a with
  | expire _ =>
      obtain ⟨-, -, -, -, -, -, -, hhistory⟩ := expire_cases hst
      rw [hhistory]
  | dispatch _ =>
      obtain ⟨c, -, -, hhistory⟩ := dispatch_cases hst
      rw [hhistory, countP_append_event]
      rfl
  | schedule _ _ _ => cases hown
  | cancel _ _ => cases hown

/-- Nothing was scheduled since `s`. -/
def SameSchedules (s t : IoService Callback UserData) : Prop :=
  t.Wf ∧ ∀ handle, t.history.countP (ScheduleEvent.schedules handle)
    = s.history.countP (ScheduleEvent.schedules handle)

/-- As long as something is outstanding there is an own step, and it is one less. -/
theorem own_step (h : s.outstanding ≠ 0) : ∃ (a : ScheduleAction Callback UserData) (t : _),
    a.isOwn = true ∧ s.step a = some t ∧ t.outstanding < s.outstanding := by
  cases hqueue : s.queue with
  | nil =>
      have hcard : s.waiting.card ≠ 0 := by
        rw [outstanding, hqueue, List.length_nil] at h
        omega
      obtain ⟨handle, hmem⟩ := Finset.card_pos.mp (Nat.pos_of_ne_zero hcard)
      obtain ⟨t, hst⟩ := expire_of_waits (mem_waiting.mp hmem)
      exact ⟨.expire handle, t, rfl, hst, by have := outstanding_expire hst; omega⟩
  | cons c rest =>
      obtain ⟨pos, t, hst, -⟩ := dispatch_of_mem (hqueue ▸ List.mem_cons_self : c ∈ s.queue)
      exact ⟨.dispatch pos, t, rfl, hst, by have := outstanding_dispatch hst; omega⟩

theorem SameSchedules.own_step (h : s.SameSchedules t) (hne : t.outstanding ≠ 0) :
    ∃ (a : ScheduleAction Callback UserData) (u : _), a.isOwn = true
      ∧ (scheduling Callback UserData).step t a = some u ∧ u.outstanding < t.outstanding
      ∧ s.SameSchedules u := by
  obtain ⟨a, u, hown, hst, hlt⟩ := IoService.own_step hne
  exact ⟨a, u, hown, hst, hlt, h.1.step hst,
    fun handle => (schedules_own hown hst handle).trans (h.2 handle)⟩

/-- With nothing outstanding each schedule has been called. -/
theorem Wf.called_of_outstanding (h : s.Wf) (hzero : s.outstanding = 0) (handle : Nat) :
    s.history.countP (ScheduleEvent.calls handle)
      = s.history.countP (ScheduleEvent.schedules handle) := by
  rw [outstanding] at hzero
  have hwaits : s.waits handle = 0 := by
    by_contra hne
    have hpos := Finset.card_pos.mpr ⟨handle, mem_waiting.mpr hne⟩
    omega
  have hqueue : s.queue = [] := List.length_eq_zero_iff.mp (by omega)
  have hledger := h.ledger handle
  rw [hwaits, queued, hqueue, List.countP_nil] at hledger
  omega

/-- **Every schedule is called, once, and told why.** In every run a call is
with success or, after a `cancel_callback` of its handle, with
`operation_aborted`. Expiries and runs of handlers alone, at most as many as
are outstanding, bring any run to a state in which each schedule so far has
been called exactly once. -/
theorem every_schedule_called {actions : List (ScheduleAction Callback UserData)}
    (h : (scheduling Callback UserData).run empty actions = some s) :
    (∀ before handle callback userData ec after,
      s.history = before ++ .called handle callback userData ec :: after →
      Reason before handle ec)
      ∧ ∃ more t, (scheduling Callback UserData).run s more = some t
        ∧ (scheduling Callback UserData).Meets (fun _ a => a.isOwn = true) s more
        ∧ more.length ≤ s.outstanding
        ∧ ∀ handle, t.history.countP (ScheduleEvent.calls handle)
          = s.history.countP (ScheduleEvent.schedules handle) := by
  have hwf : s.Wf := wf_run h wf_empty
  have hexplained := Lts.run_invariant (M := scheduling Callback UserData)
    (I := fun s => s.Wf ∧ s.Explained)
    (fun _ _ _ hboth hst => ⟨hboth.1.step hst, hboth.2.step hboth.1 hst⟩) h
    ⟨wf_empty, explained_empty⟩
  obtain ⟨more, t, hrun, hmeets, hlength, hzero, hwf', hsame⟩ :=
    Lts.exhaust (I := SameSchedules s) (fun _ hu hne => hu.own_step hne) ⟨hwf, fun _ => rfl⟩
  exact ⟨hexplained.2.called, more, t, hrun, hmeets, hlength, fun handle =>
    (hwf'.called_of_outstanding hzero handle).trans (hsame handle)⟩

/-- One is cancelled while it waits, one has expired, one waits. -/
def threeSchedules : List (ScheduleAction Nat Nat) :=
  [.schedule 100 7 1, .schedule 200 8 2, .schedule 300 9 3, .cancel 0 .success, .expire 1]

theorem every_schedule_called_three :
    ∃ s, (scheduling Nat Nat).run empty threeSchedules = some s
      ∧ ∃ more t, (scheduling Nat Nat).run s more = some t
        ∧ ∀ handle, t.history.countP (ScheduleEvent.calls handle)
          = s.history.countP (ScheduleEvent.schedules handle) := by
  have hrun : (scheduling Nat Nat).run empty threeSchedules = some _ := rfl
  obtain ⟨-, more, t, hmore, -, -, hcalled⟩ := every_schedule_called hrun
  exact ⟨_, hrun, more, t, hmore, hcalled⟩

/-! ## Whose timers are left -/

/-- A timer is there from its `schedule_callback` to its `cancel_callback`. -/
def Owned (s : IoService Callback UserData) : Prop :=
  ∀ handle, handle ∈ s.timers.live
    ↔ handle < s.timers.fresh ∧ .cancelled handle ∉ s.history

theorem owned_empty : (empty : IoService Callback UserData).Owned := by
  intro handle
  rw [Heap.mem_live]
  constructor
  · rintro ⟨timer, htimer⟩
    cases htimer
  · rintro ⟨hlt, -⟩
    cases hlt

/-- What a step does to the timers that are there. -/
theorem live_step {a : ScheduleAction Callback UserData} (hst : s.step a = some t) :
    t.timers.live.card + (if a.isCancel then 1 else 0)
      = s.timers.live.card + if a.isSchedule then 1 else 0 := by
  cases a with
  | schedule delay userData callback =>
      obtain ⟨hread, -⟩ := schedule_cases hst
      exact Heap.card_live_alloc hread
  | expire handle =>
      obtain ⟨timer, handler, htimer, -, hread, -⟩ := expire_cases hst
      rw [Heap.live_write htimer hread]
      rfl
  | cancel handle ec =>
      obtain ⟨timer, htimer, hread, -⟩ := cancel_cases hst
      exact Heap.card_live_free htimer hread
  | dispatch pos =>
      obtain ⟨c, -, htimers, -⟩ := dispatch_cases hst
      rw [htimers]
      rfl

theorem Owned.step (hwf : s.Wf) (h : s.Owned) {a : ScheduleAction Callback UserData}
    (hst : s.step a = some t) : t.Owned := by
  intro handle
  cases a with
  | schedule delay userData callback =>
      obtain ⟨hread, hfresh, -, hhistory⟩ := schedule_cases hst
      have hold := h handle
      rw [Heap.mem_live] at hold ⊢
      rw [hread, hfresh, hhistory, List.mem_append, List.mem_singleton]
      by_cases heq : handle = s.timers.fresh
      · have hnot : .cancelled handle ∉ s.history := fun hmem =>
          absurd (hwf.gone handle hmem).1 (by omega)
        simp [heq ▸ hnot, heq]
      · rw [if_neg heq, hold]
        simp
        omega
  | expire handle₀ =>
      obtain ⟨timer, handler, htimer, -, hread, hfresh, -, hhistory⟩ := expire_cases hst
      rw [Heap.live_write htimer hread, hfresh, hhistory]
      exact h handle
  | cancel handle₀ ec =>
      obtain ⟨timer, htimer, hread, hfresh, -, hhistory⟩ := cancel_cases hst
      have hold := h handle
      rw [Heap.mem_live] at hold ⊢
      rw [hread, hfresh, hhistory, List.mem_append, List.mem_singleton]
      by_cases heq : handle = handle₀
      · simp [heq]
      · rw [if_neg heq, hold]
        simp [heq]
  | dispatch pos =>
      obtain ⟨c, -, htimers, hhistory⟩ := dispatch_cases hst
      have hold := h handle
      rw [htimers, hhistory, hold, List.mem_append, List.mem_singleton]
      simp

/-- A timer that is there can be cancelled, and no other. -/
theorem cancel_isSome (s : IoService Callback UserData) (handle : Nat) (ec : ErrorCode) :
    (s.step (.cancel handle ec)).isSome = true ↔ handle ∈ s.timers.live := by
  rw [Heap.mem_live]
  constructor
  · intro hsome
    obtain ⟨t, hst⟩ := Option.isSome_iff_exists.mp hsome
    obtain ⟨timer, htimer, -⟩ := cancel_cases hst
    exact ⟨timer, htimer⟩
  · rintro ⟨timer, htimer⟩
    obtain ⟨timers, hfree, -⟩ := Heap.free_eq_some htimer
    simp [step, cancelCallback, htimer, hfree]

/-- **A timer is left for each schedule that is not cancelled.** In every run the
timers that are there are those of the handles returned and not cancelled yet,
whether their callbacks have been called or not, one for each schedule but the
cancelled ones; and `cancel_callback` is defined exactly for these handles. -/
theorem timers_owned {actions : List (ScheduleAction Callback UserData)}
    (h : (scheduling Callback UserData).run empty actions = some s) :
    (∀ handle, handle ∈ s.timers.live
        ↔ s.history.countP (ScheduleEvent.schedules handle) = 1
          ∧ .cancelled handle ∉ s.history)
      ∧ s.timers.live.card + actions.countP ScheduleAction.isCancel
        = actions.countP ScheduleAction.isSchedule
      ∧ ∀ handle ec, (s.step (.cancel handle ec)).isSome = true ↔ handle ∈ s.timers.live := by
  obtain ⟨hwf, howned⟩ := Lts.run_invariant (M := scheduling Callback UserData)
    (I := fun s => s.Wf ∧ s.Owned)
    (fun _ _ _ hboth hst => ⟨hboth.1.step hst, hboth.2.step hboth.1 hst⟩) h
    ⟨wf_empty, owned_empty⟩
  refine ⟨fun handle => ?_, ?_, s.cancel_isSome⟩
  · rw [howned handle, hwf.schedules]
    refine and_congr_left fun _ => ?_
    split <;> simp_all
  · have hcount := Lts.count_balance (M := scheduling Callback UserData) (I := fun _ => True)
      (m := fun s => s.timers.live.card) (p := ScheduleAction.isCancel)
      (q := ScheduleAction.isSchedule) (fun _ _ _ _ _ => trivial)
      (fun _ _ _ _ hst => live_step hst) h trivial
    have hnone : (empty : IoService Callback UserData).timers.live.card = 0 := rfl
    omega

theorem timers_owned_three :
    ∃ s, (scheduling Nat Nat).run empty threeSchedules = some s
      ∧ s.timers.live.card + 1 = 3
      ∧ ∀ handle ec, (s.step (.cancel handle ec)).isSome = true ↔ handle ∈ s.timers.live := by
  have hrun : (scheduling Nat Nat).run empty threeSchedules = some _ := rfl
  obtain ⟨-, hcard, hcancel⟩ := timers_owned hrun
  exact ⟨_, hrun, hcard, hcancel⟩

end IoService

end JustCommon
