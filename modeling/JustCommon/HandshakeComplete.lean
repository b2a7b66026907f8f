import JustCommon.Convergence
import JustCommon.LogSession
import JustCommon.SerialCalls

/-!
# No acknowledgement is lost

The other half of the handshake. `Tallied` bounds what a call counts by the
processes that answered; here, for calls that come one at a time, the two
are equal (`Exact`): what is still to be counted is what the receivers have
not answered and what is queued. So once every receiver has answered, each
further round of the wait loop finds an acknowledgement, and the call
returns because the count is 0 and not because the time is up.
-/

namespace JustCommon

open Debuger ConfigMgr MessageQueue

variable {Proc Ctl Shm : Type} [DecidableEq Proc] [DecidableEq Ctl]

namespace Deployment

variable {D : Deployment Proc Ctl Shm}

variable (D) in
/-- The debug messages in the queue a call waits on. -/
def awaited (w : World Proc Ctl Shm) (c : Ctl) : List Message :=
  ofType msgTypeDebug (D.queue.pending w.shm (D.own (D.home c)))

omit [DecidableEq Proc] [DecidableEq Ctl] in
/-- The wait loop accepts every debug message there is. -/
theorem acks_eq (hQ : D.queue.Fifo) {w : World Proc Ctl Shm} (h : D.Levelled w) (c : Ctl) :
    D.acks w c = (D.awaited w c).length := by
  unfold acks awaited ofType
  rw [← List.countP_eq_length_filter]
  refine List.countP_congr fun m hm => ⟨fun hacc => ?_, fun htype => ?_⟩
  · exact beq_iff_eq.mpr (accepts_type hacc)
  · have htype := beq_iff_eq.mp htype
    have hlevel : m.level = debugMessage.level := h _ m hm htype
    simp [accepts, htype, hlevel, hQ.levelOk_self, debugMessage]

/-- While a call is past its clear and no other one is under way, only an
answer to it adds to its queue. -/
theorem awaited_next (hQ : D.queue.Fifo) {w : World Proc Ctl Shm} (hw : D.Sourced w)
    (hserial : Serial w) {c : Ctl} (hpast : (w.call c).PastClear) {a : Action Proc Ctl}
    (ha : D.enabled w a = true) (hb : a ≠ .broadcast c) (hawait : a ≠ .awaitAck c)
    (hpush : ∀ p msg, a = .tickPush p → (w.proc p).tick = .checked msg →
      msg.sender ≠ D.own (D.home c)) :
    D.awaited (D.next w a) c = D.awaited w c := by
  have hbusy : w.call c ≠ .idle := by
    intro hidle
    rw [hidle] at hpast
    exact hpast
  by_cases hanswer : ∃ p msg, a = .tickPush p ∧ (w.proc p).tick = .checked msg
  · obtain ⟨p, msg, rfl, htick⟩ := hanswer
    have hreach : ¬(acknowledgement msg).reaches (D.common p) (D.own (D.home c)) = true :=
      fun hr => hpush p msg rfl htick (hw.reaches htick hr).1.symm
    unfold awaited
    simp only [next, htick, World.setTick, hQ.pending_push,
      if_neg fun hboth : _ ∧ _ => hreach hboth.2]
  · refine ofType_next hQ fun call hcall => ?_
    cases calls_of_queueCall hcall with
    | openCommon q => trivial
    | construct q => trivial
    | tickPop q => exact Or.inl (D.common_ne_own _ _)
    | tickPush htick => exact absurd ⟨_, _, rfl, htick⟩ hanswer
    | clear c' =>
        have hc' : w.call c' = .stored := by simpa [enabled] using ha
        obtain rfl := hserial c c' hbusy (by rw [hc']; simp)
        rw [hc'] at hpast
        exact hpast.elim
    | broadcast c' =>
        have hc' : w.call c' = .cleared := by simpa [enabled] using ha
        obtain rfl := hserial c c' hbusy (by rw [hc']; simp)
        exact absurd rfl hb
    | awaitAck c' =>
        have hc' : w.call c' ≠ .idle := by
          intro hidle
          simp [enabled, hidle] at ha
        obtain rfl := hserial c c' hbusy hc'
        exact absurd rfl hawait
    | log q buffers =>
        show msgTypeLog ≠ msgTypeDebug
        decide
    | getDebugMsg q module level =>
        exact Or.inr (show msgTypeLog ≠ msgTypeDebug by decide)
    | setConfig q args =>
        show msgTypeConfig ≠ msgTypeDebug
        decide
    | configTick q => exact Or.inl (D.common_ne_own _ _)

/-- An answer is queued for the call it answers. -/
theorem awaited_tickPush (hQ : D.queue.Fifo) {w : World Proc Ctl Shm} {c : Ctl} {p : Proc}
    {msg : Message} (htick : (w.proc p).tick = .checked msg)
    (hsender : msg.sender = D.own (D.home c))
    (hname : D.own (D.home c) ∈ D.queue.names w.shm) :
    (D.awaited (D.next w (.tickPush p)) c).length = (D.awaited w c).length + 1 := by
  have hne : (acknowledgement msg).receiver ≠ [] := by
    rw [show (acknowledgement msg).receiver = msg.sender from rfl, hsender]
    exact D.own_ne_nil _
  have hreach : (acknowledgement msg).reaches (D.common p) (D.own (D.home c)) = true :=
    (Message.reaches_receiver hne).mpr hsender.symm
  have hqueued := hQ.ofType_push (n := D.common p) hname (acknowledgement msg)
  rw [if_pos hreach] at hqueued
  have hafter : D.awaited (D.next w (.tickPush p)) c = D.awaited w c
      ++ [D.queue.stamp w.shm (D.common p) (acknowledgement msg)] := by
    unfold awaited
    simp only [next, htick, World.setTick]
    exact hqueued
  rw [hafter, List.length_append, List.length_singleton]

/-! ## What is to be counted is exact -/

variable (D) in
/-- What a call has still to count, and the answers given, are the queues it
broadcast to and the answers queued. -/
def Exact (w : World Proc Ctl Shm) (c : Ctl) : Prop :=
  match w.call c with
  | .cleared => (w.answered c).card = (D.awaited w c).length
  | .waiting number _ =>
      number + (w.answered c).card = (w.delivered c).card + (D.awaited w c).length
  | _ => True

/-- Each action that is no round of the call keeps answers and queue in step. -/
theorem answered_awaited_next (hQ : D.queue.Fifo) {w : World Proc Ctl Shm}
    (hr : D.system.Reachable w) (hserial : Serial w) {c : Ctl}
    (hpast : (w.call c).PastClear) {a : Action Proc Ctl} (ha : D.enabled w a = true)
    (hfits : D.Fits w a) (hb : a ≠ .broadcast c) (hawait : a ≠ .awaitAck c)
    (hclear : a ≠ .clear c) :
    ((D.next w a).answered c).card + (D.awaited w c).length
      = (w.answered c).card + (D.awaited (D.next w a) c).length := by
  have hw := sourced_reachable hQ hr
  rcases next_answered (D := D) w hclear with hsame | ⟨p, msg, rfl, htick, hsender, hins⟩
  · have hpush : ∀ p msg, a = .tickPush p → (w.proc p).tick = .checked msg →
        msg.sender ≠ D.own (D.home c) := by
      -- such an answer would be recorded, and it is the first of its process
      rintro p msg rfl htick hsender
      simp only [Fits, htick, AnswerFits] at hfits
      have hnew := (hfits c hsender hpast).2
      rw [← hsame] at hnew
      refine hnew ?_
      simp only [next, htick, World.setTick, if_pos hsender]
      exact Finset.mem_insert_self _ _
    rw [hsame, awaited_next hQ hw hserial hpast ha hb hawait hpush]
  · simp only [Fits, htick, AnswerFits] at hfits
    have hnew := (hfits c hsender hpast).2
    have hname : D.own (D.home c) ∈ D.queue.names w.shm := by
      refine LogSession.own_mem_names hQ hr c ?_
      intro hidle
      rw [hidle] at hpast
      exact hpast
    rw [hins, Finset.card_insert_of_notMem hnew, awaited_tickPush hQ htick hsender hname]
    omega

/-- The wait loop takes the oldest acknowledgement. -/
theorem awaited_awaitAck (hQ : D.queue.Fifo) {w : World Proc Ctl Shm} (h : D.Levelled w)
    {c : Ctl} {number timeOut : Nat} (hcall : w.call c = .waiting number timeOut) :
    D.awaited (D.next w (.awaitAck c)) c = (D.awaited w c).tail
      ∧ (D.queue.pop w.shm (D.own (D.home c)) debugMessage).1 = (D.awaited w c).head? := by
  obtain ⟨hhead, htail⟩ := pop_debug hQ h (D.own (D.home c))
  refine ⟨?_, hhead⟩
  unfold awaited
  simp only [next, hcall, World.setCall]
  exact htail

theorem Exact.step (hQ : D.queue.Fifo) {w : World Proc Ctl Shm} {a : Action Proc Ctl}
    {c : Ctl} (h : D.Exact w c) (hr : D.system.Reachable w) (hserial : Serial w)
    (ha : D.enabled w a = true) (hfits : D.Fits w a) : D.Exact (D.next w a) c := by
  have hlevel := levelled_reachable hQ hr
  unfold Exact at h ⊢
  rcases next_call (D := D) w a c with hsame | ⟨_, -, hstored⟩ | ⟨rfl, hcleared⟩ |
      ⟨rfl, hnew⟩ | ⟨number, timeOut, rfl, hold, hnew⟩ | ⟨-, hidle⟩
  · rw [hsame]
    by_cases hpast : (w.call c).PastClear
    · have hclear : a ≠ .clear c := by
        rintro rfl
        exact next_clear_ne ha hsame
      have hb : a ≠ .broadcast c := by
        rintro rfl
        exact next_broadcast_ne ha hsame
      have hawait : a ≠ .awaitAck c := by
        rintro rfl
        exact next_continues_ne ha (by simp [Action.continues]) hsame
      have hkeep := answered_awaited_next hQ hr hserial hpast ha hfits hb hawait hclear
      cases hcall : w.call c with
      | cleared =>
          rw [hcall] at h
          simp only at h ⊢
          omega
      | waiting number timeOut =>
          rw [hcall] at h
          simp only [next_delivered (D := D) w hb] at h ⊢
          omega
      | idle => trivial
      | stored => trivial
    · cases hcall : w.call c with
      | cleared => rw [hcall] at hpast; exact absurd trivial hpast
      | waiting number timeOut => rw [hcall] at hpast; exact absurd trivial hpast
      | idle => trivial
      | stored => trivial
  · rw [hstored]
    trivial
  · rw [hcleared]
    have hempty : D.awaited (D.next w (.clear c)) c = [] := by
      simp [awaited, next, World.setCall, hQ.pending_clear, ofType]
    simp only [next_clear_answered, hempty, Finset.card_empty, List.length_nil]
  · rw [hnew]
    have hcall : w.call c = .cleared := by simpa [enabled] using ha
    rw [hcall] at h
    -- the broadcast leaves the queue it comes from out
    have hown : D.awaited (D.next w (.broadcast c)) c = D.awaited w c := by
      unfold awaited
      simp [next, World.setCall, hQ.pending_push, Message.reaches, debugMessage]
    have hdelivered : ((D.next w (.broadcast c)).delivered c).card
        = (D.queue.push w.shm (D.own (D.home c)) debugMessage).1 := by
      rw [hQ.count_push]
      simp [next, World.setCall]
    have hanswered : (D.next w (.broadcast c)).answered c = w.answered c := rfl
    simp only [hdelivered, hanswered, hown]
    simp only at h
    omega
  · rw [hnew]
    rw [hold] at h
    have hloop : number ≠ 0 ∧ timeOut ≠ 0 := by simpa [enabled, hold] using ha
    obtain ⟨htail, hhead⟩ := awaited_awaitAck hQ hlevel hold
    have hdelivered := next_delivered (D := D) w (a := .awaitAck c) (c := c) (by simp)
    have hanswered : (D.next w (.awaitAck c)).answered c = w.answered c := by
      rcases next_answered (D := D) w (a := .awaitAck c) (c := c) (by simp)
        with hsame | ⟨_, _, heq, -⟩
      · exact hsame
      · cases heq
    rw [hhead]
    cases hqueue : D.awaited w c with
    | nil =>
        rw [hqueue] at htail h
        simp only [List.head?_nil, hdelivered, hanswered, htail, List.tail_nil] at h ⊢
        exact h
    | cons m rest =>
        rw [hqueue] at htail h
        simp only [List.head?_cons, hdelivered, hanswered, htail, List.tail_cons,
          List.length_cons] at h ⊢
        omega
  · rw [hidle]
    trivial

theorem exact_reachable (hQ : D.queue.Fifo) {w : World Proc Ctl Shm}
    (hw : D.system.ReachableUnder D.Quiet w) (c : Ctl) : D.Exact w c := by
  refine Lts.ReachableUnder.invariant (I := fun w => D.Exact w c) ?_ ?_ hw
  · intro w₀ h₀
    unfold Exact
    rw [Initial.call h₀ c]
    trivial
  · intro w a w' hr h _ hstep
    obtain ⟨ha, rfl⟩ := step_eq_some.mp hstep
    obtain ⟨hserial, hfresh⟩ := fresh_reachable hQ hr
    exact h.step hQ hr.reachable hserial ha (fits_of_fresh hserial hfresh ha)

/-- **No acknowledgement is lost.** When calls come one at a time, what a call
has still to count is the receivers that have not answered and the answers
queued. Once all have answered, every further round counts down. -/
theorem handshake_completes (hQ : D.queue.Fifo) {w : World Proc Ctl Shm}
    (hw : D.system.ReachableUnder D.Quiet w) {c : Ctl} {number timeOut : Nat}
    (hcall : w.call c = .waiting number timeOut) :
    number + (w.answered c).card = (w.delivered c).card + D.acks w c
      ∧ ((∀ n ∈ w.delivered c, ∃ p ∈ w.answered c, D.common p = n) → number ≠ 0 →
        (D.next w (.awaitAck c)).call c = .waiting (number - 1) timeOut) := by
  have hlevel := levelled_reachable hQ hw.reachable
  have hexact := exact_reachable hQ hw c
  unfold Exact at hexact
  rw [hcall] at hexact
  simp only at hexact
  refine ⟨by rw [acks_eq hQ hlevel]; exact hexact, fun hall hnumber => ?_⟩
  have hcard : (w.delivered c).card ≤ (w.answered c).card := by
    have hsub : w.delivered c ⊆ (w.answered c).image D.common := by
      intro n hn
      obtain ⟨p, hp, rfl⟩ := hall n hn
      exact Finset.mem_image_of_mem _ hp
    have hle := Finset.card_le_card hsub
    rwa [Finset.card_image_of_injective _ D.common_inj] at hle
  have hhead := (awaited_awaitAck hQ hlevel hcall).2
  cases hqueue : D.awaited w c with
  | nil =>
      rw [hqueue, List.length_nil] at hexact
      omega
  | cons m rest =>
      rw [hqueue, List.head?_cons] at hhead
      simp only [next, hcall, World.setCall_self, hhead]

/-! ## A call every process answers -/

omit [DecidableEq Proc] [DecidableEq Ctl] in
theorem mem_requests {w : World Proc Ctl Shm} {p : Proc} {m : Message}
    (h : D.Request w p m) : m.sender ∈ D.requests w p := by
  unfold requests
  rcases h with ⟨hm, htype⟩ | htick | htick
  · refine List.mem_append_right _ (List.mem_map_of_mem ?_)
    exact List.mem_filter.mpr ⟨hm, beq_iff_eq.mpr htype⟩
  · rw [htick]
    exact List.mem_append_left _ (List.mem_singleton_self _)
  · rw [htick]
    exact List.mem_append_left _ (List.mem_singleton_self _)

namespace twoProcesses

/-- A store comes while no call is under way and no request is unanswered. -/
def quietly (w : World Host Unit Boxes) : Action Host Unit → Bool
  | .store _ _ => decide (w.call () = .idle) && (twoProcesses.requests w .first).isEmpty
      && (twoProcesses.requests w .second).isEmpty
  | _ => true

theorem quiet_of_quietly {w : World Host Unit Boxes} {a : Action Host Unit}
    (h : quietly w a = true) : twoProcesses.Quiet w a := by
  cases a with
  | store c bdebug =>
      simp only [quietly, Bool.and_eq_true, decide_eq_true_eq, List.isEmpty_iff] at h
      refine ⟨fun _ => h.1.1, fun p m hm => ?_⟩
      have hmem := mem_requests hm
      cases p with
      | first =>
          rw [h.1.2] at hmem
          cases hmem
      | second =>
          rw [h.2] at hmem
          cases hmem
  | _ => trivial

/-- Both processes have answered and nothing is counted yet. -/
def answeredByBoth : World Host Unit Boxes :=
  after quietly start (boot ++ publish true ++ tick .first ++ tick .second)

theorem answeredByBoth_reachable :
    twoProcesses.system.ReachableUnder twoProcesses.Quiet answeredByBoth :=
  ⟨start, start_initial, path_after (fun _ _ h => quiet_of_quietly h) (by decide +kernel)⟩

end twoProcesses

open twoProcesses in
theorem handshake_completes_both :
    (twoProcesses.next answeredByBoth (.awaitAck ())).call () = .waiting 1 30 := by
  have hcall : answeredByBoth.call () = .waiting 2 30 := by decide +kernel
  exact (handshake_completes Boxes.queue_fifo answeredByBoth_reachable hcall).2
    (by decide +kernel) (by decide)

end Deployment

end JustCommon
