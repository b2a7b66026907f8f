import JustCommon.System

/-!
# What an acknowledged debug-mode change says

`change_debug_mode` counts acknowledgements. They carry no identity, so the
count says that every receiver has looked at the word only as long as each
acknowledgement in the queue is the first one of a process that did.
`clear` discards the acknowledgements that are already queued for this;
it cannot discard the requests that are not answered yet, and what comes
back for those is counted too (`twoProcesses.overtaken`).

`Fits` is the condition under which nothing stale is counted, and `Tallied`
the invariant: what is still to be counted and what was counted are covered
by the processes that answered since the clear.
-/

namespace JustCommon

open Debuger ConfigMgr MessageQueue

/-- The caller has cleared its queue and not returned. -/
def Call.PastClear : Call → Prop
  | .cleared => True
  | .waiting _ _ => True
  | _ => False

instance : DecidablePred Call.PastClear
  | .idle => .isFalse id
  | .stored => .isFalse id
  | .cleared => .isTrue trivial
  | .waiting _ _ => .isTrue trivial

variable {Proc Ctl Shm : Type} [DecidableEq Proc] [DecidableEq Ctl]

namespace Deployment

variable {D : Deployment Proc Ctl Shm}

variable (D) in
/-- Whoever acknowledges to a call past its clear has looked at the word since
that call's store, and acknowledges to it for the first time. -/
def AnswerFits (w : World Proc Ctl Shm) (p : Proc) : Tick → Prop
  | .checked msg => ∀ c, msg.sender = D.own (D.home c) → (w.call c).PastClear →
      p ∈ w.checked c ∧ p ∉ w.answered c
  | _ => True

variable (D) in
/-- No call broadcasts while another one is past its clear, and every
acknowledgement fits. -/
def Fits (w : World Proc Ctl Shm) : Action Proc Ctl → Prop
  | .broadcast c => ∀ c', c' ≠ c → ¬(w.call c').PastClear
  | .tickPush p => D.AnswerFits w p (w.proc p).tick
  | _ => True

/-! ## Requests -/

variable (D) in
/-- `m` asks `p` to look at the word: it is queued for it or in its hands. -/
def Request (w : World Proc Ctl Shm) (p : Proc) (m : Message) : Prop :=
  (m ∈ D.queue.pending w.shm (D.common p) ∧ m.type = msgTypeDebug)
    ∨ (w.proc p).tick = .popped m ∨ (w.proc p).tick = .checked m

variable (D) in
/-- A request came from the queue of a `Debuger`, to a queue that exists. -/
def Sourced (w : World Proc Ctl Shm) : Prop :=
  ∀ p m, D.Request w p m →
    (∃ q, m.sender = D.own q) ∧ D.common p ∈ D.queue.names w.shm

omit [DecidableEq Proc] [DecidableEq Ctl] in
/-- The acknowledgement a process pushes is for the queue that asked. -/
theorem Sourced.reaches {w : World Proc Ctl Shm} (h : D.Sourced w) {p : Proc}
    {msg : Message} (htick : (w.proc p).tick = .checked msg) {r : Bytes}
    (hr : (acknowledgement msg).reaches (D.common p) r = true) :
    r = msg.sender ∧ ∃ q, r = D.own q := by
  obtain ⟨⟨q, hq⟩, -⟩ := h p msg (Or.inr (Or.inr htick))
  have hne : (acknowledgement msg).receiver ≠ [] := by
    rw [show (acknowledgement msg).receiver = msg.sender from rfl, hq]
    exact D.own_ne_nil q
  have hrs : r = msg.sender := (Message.reaches_receiver hne).mp hr
  exact ⟨hrs, q, hrs.trans hq⟩

/-- Where a request comes from: it was there before, or it is the one a
broadcast just made. -/
theorem request_of_next (hQ : D.queue.Fifo) {w : World Proc Ctl Shm}
    {a : Action Proc Ctl} (hw : D.Sourced w) {p : Proc} {m : Message}
    (h : D.Request (D.next w a) p m) :
    D.Request w p m ∨ ∃ c, a = .broadcast c ∧ m.sender = D.own (D.home c)
      ∧ D.common p ∈ D.queue.names w.shm
      ∧ debugMessage.reaches (D.own (D.home c)) (D.common p) = true := by
  rcases h with ⟨hm, htype⟩ | htick | htick
  · rw [next_shm] at hm
    cases hcall : D.queueCall w a with
    | none =>
        rw [hcall] at hm
        exact Or.inl (Or.inl ⟨hm, htype⟩)
    | some call =>
        rw [hcall] at hm
        rcases hQ.mem_of_perform hm with hold | ⟨n, m', rfl, hr, hreach, rfl⟩
        · exact Or.inl (Or.inl ⟨hold, htype⟩)
        rcases queueCall_push_debug hcall htype
          with ⟨c, rfl, rfl, rfl⟩ | ⟨q, msg, -, htick, rfl, rfl⟩
        · exact Or.inr ⟨c, rfl, rfl, hr, hreach⟩
        · -- an acknowledgement does not go to a common queue
          obtain ⟨-, q', hq'⟩ := hw.reaches htick hreach
          exact absurd hq' (D.common_ne_own p q')
  · left
    rcases next_tick (D := D) w a p with hsame | ⟨-, hpop⟩ | ⟨_, -, -, hnew⟩ | ⟨_, -, -, hnew⟩
    · exact Or.inr (Or.inl (hsame.symm.trans htick))
    · rw [hpop, hQ.pop_result] at htick
      split at htick
      · rename_i msg hfind
        obtain rfl := Tick.popped.inj htick
        exact Or.inl ⟨List.mem_of_find?_eq_some hfind, accepts_type (List.find?_some hfind)⟩
      · cases htick
    · rw [hnew] at htick
      cases htick
    · rw [hnew] at htick
      cases htick
  · left
    rcases next_tick (D := D) w a p with hsame | ⟨-, hpop⟩ | ⟨_, -, hold, hnew⟩ |
        ⟨_, -, -, hnew⟩
    · exact Or.inr (Or.inr (hsame.symm.trans htick))
    · rw [hpop] at htick
      split at htick <;> cases htick
    · rw [hnew] at htick
      obtain rfl := Tick.checked.inj htick
      exact Or.inr (Or.inl hold)
    · rw [hnew] at htick
      cases htick

theorem Sourced.step (hQ : D.queue.Fifo) {w : World Proc Ctl Shm}
    (h : D.Sourced w) (a : Action Proc Ctl) : D.Sourced (D.next w a) := by
  intro p m hm
  rcases request_of_next hQ h hm with hold | ⟨c, rfl, hsender, hp, -⟩
  · exact ⟨(h p m hold).1, names_next hQ a (h p m hold).2⟩
  · exact ⟨⟨D.home c, hsender⟩, names_next hQ _ hp⟩

theorem sourced_reachable (hQ : D.queue.Fifo) {w : World Proc Ctl Shm}
    (hw : D.system.Reachable w) : D.Sourced w := by
  refine Lts.Reachable.invariant (I := D.Sourced) ?_ ?_ hw
  · rintro w₀ h₀ p m (⟨hm, -⟩ | htick | htick)
    · rw [Initial.pending h₀] at hm
      cases hm
    · rw [Initial.tick h₀] at htick
      cases htick
    · rw [Initial.tick h₀] at htick
      cases htick
  · intro w a w' _ h hstep
    obtain ⟨-, rfl⟩ := step_eq_some.mp hstep
    exact h.step hQ a

/-! ## Acknowledgements and who pushed them -/

variable (D) in
/-- How many acknowledgements are queued for `c`. -/
def acks (w : World Proc Ctl Shm) (c : Ctl) : Nat :=
  (D.queue.pending w.shm (D.own (D.home c))).countP (D.queue.accepts debugMessage)

/-- One more acknowledgement is queued for `c` only through a process that
answers a request from the queue of `c`. -/
theorem acks_next (hQ : D.queue.Fifo) {w : World Proc Ctl Shm} {a : Action Proc Ctl}
    {c : Ctl} (hw : D.Sourced w) (hb : ∀ c', a = .broadcast c' → c' = c) :
    D.acks (D.next w a) c ≤ D.acks w c
      ∨ ∃ p msg, a = .tickPush p ∧ (w.proc p).tick = .checked msg
          ∧ msg.sender = D.own (D.home c) ∧ D.acks (D.next w a) c = D.acks w c + 1 := by
  unfold acks
  rw [next_shm]
  cases hcall : D.queueCall w a with
  | none => exact Or.inl le_rfl
  | some call =>
      rcases hQ.countP_perform (D.queue.accepts debugMessage) w.shm (D.own (D.home c))
        call with hle | ⟨n, m, rfl, hreach, hacc, hcount⟩
      · exact Or.inl hle
      rcases queueCall_push_debug hcall (accepts_type hacc)
        with ⟨c', ha, rfl, rfl⟩ | ⟨p, msg, ha, htick, rfl, rfl⟩
      · -- the broadcast of `c` itself leaves its own queue out
        obtain rfl := hb c' ha
        exact absurd rfl ((Message.reaches_broadcast rfl).mp hreach)
      · exact Or.inr ⟨p, msg, ha, htick, (hw.reaches htick hreach).1.symm, hcount⟩

/-- A successful pop of the wait loop takes an acknowledgement away. -/
theorem acks_awaitAck (hQ : D.queue.Fifo) {w : World Proc Ctl Shm} {c : Ctl}
    {number timeOut : Nat} {m : Message} (hcall : w.call c = .waiting number timeOut)
    (hpop : (D.queue.pop w.shm (D.own (D.home c)) debugMessage).1 = some m) :
    D.acks (D.next w (.awaitAck c)) c + 1 = D.acks w c := by
  unfold acks
  simp only [next, hcall, World.setCall, hQ.pending_pop, if_pos]
  rw [hQ.pop_result] at hpop
  rw [(perm_eraseP_of_find? hpop).countP_eq, List.countP_cons_of_pos]
  exact List.find?_some hpop

/-- The history of `c` that a clear starts: only a push for its queue adds. -/
theorem next_answered (w : World Proc Ctl Shm) {a : Action Proc Ctl} {c : Ctl}
    (ha : a ≠ .clear c) :
    (D.next w a).answered c = w.answered c
      ∨ ∃ p msg, a = .tickPush p ∧ (w.proc p).tick = .checked msg
          ∧ msg.sender = D.own (D.home c)
          ∧ (D.next w a).answered c = insert p (w.answered c) := by
  cases a with
  | clear c' =>
      left
      have hc : c ≠ c' := fun hc => ha (by rw [hc])
      simp [next, World.setCall, hc]
  | tickPush p =>
      cases htick : (w.proc p).tick with
      | checked msg =>
          by_cases hs : msg.sender = D.own (D.home c)
          · refine Or.inr ⟨p, msg, rfl, htick, hs, ?_⟩
            simp only [next, htick, World.setTick, if_pos hs]
          · left
            simp only [next, htick, World.setTick, if_neg hs]
      | idle => exact Or.inl (by simp only [next, htick])
      | popped msg => exact Or.inl (by simp only [next, htick])
  | store c' bdebug =>
      left
      simp only [next]
      split <;> rfl
  | awaitAck c' =>
      left
      simp only [next]
      split <;> rfl
  | tickCheck p =>
      left
      simp only [next]
      split <;> rfl
  | configTick p =>
      left
      simp only [next]
      split <;> rfl
  | _ => exact Or.inl rfl

theorem checked_subset_next (w : World Proc Ctl Shm) {a : Action Proc Ctl} {c : Ctl}
    (ha : ∀ bdebug, a ≠ .store c bdebug) : w.checked c ⊆ (D.next w a).checked c := by
  cases a with
  | store c' bdebug =>
      have hc : c ≠ c' := fun hc => ha bdebug (by rw [hc])
      simp only [next]
      split <;> simp [World.setCall, hc]
  | awaitAck c' =>
      simp only [next]
      split <;> exact Finset.Subset.refl _
  | tickCheck p =>
      simp only [next]
      split <;> simp [World.setTick, World.noteCheck]
  | tickPush p =>
      simp only [next]
      split <;> exact Finset.Subset.refl _
  | configTick p =>
      simp only [next]
      split <;> exact Finset.Subset.refl _
  | construct p => exact Finset.subset_insert _ _
  | startup p => exact Finset.subset_insert _ _
  | _ => exact Finset.Subset.refl _

theorem next_delivered (w : World Proc Ctl Shm) {a : Action Proc Ctl} {c : Ctl}
    (ha : a ≠ .broadcast c) : (D.next w a).delivered c = w.delivered c := by
  cases a with
  | broadcast c' =>
      have hc : c ≠ c' := fun hc => ha (by rw [hc])
      simp [next, World.setCall, hc]
  | store c' bdebug =>
      simp only [next]
      split <;> rfl
  | awaitAck c' =>
      simp only [next]
      split <;> rfl
  | tickCheck p =>
      simp only [next]
      split <;> rfl
  | tickPush p =>
      simp only [next]
      split <;> rfl
  | configTick p =>
      simp only [next]
      split <;> rfl
  | _ => rfl

/-! ## The count is covered -/

variable (D) in
/-- Of `total` acknowledgements asked for, `number` are still to be counted.
Those counted and those queued come from different processes, each with its
queue in `asked`, that looked at the word since the store. -/
structure Tally (w : World Proc Ctl Shm) (c : Ctl) (asked : Finset Bytes)
    (total number : Nat) : Prop where
  count : total + D.acks w c ≤ (w.answered c).card + number
  checked : w.answered c ⊆ w.checked c
  answered : ∀ p ∈ w.answered c, D.common p ∈ asked
  requests : ∀ p m, D.Request w p m → m.sender = D.own (D.home c) → D.common p ∈ asked

variable (D) in
def Tallied (w : World Proc Ctl Shm) (c : Ctl) : Prop :=
  match w.call c with
  | .cleared => D.Tally w c (D.queue.names w.shm) 0 0
  | .waiting number _ => D.Tally w c (w.delivered c) (w.delivered c).card number
  | _ => True

/-- An action that is no broadcast keeps a tally. -/
theorem Tally.step (hQ : D.queue.Fifo) {w : World Proc Ctl Shm} {a : Action Proc Ctl}
    {c : Ctl} {asked asked' : Finset Bytes} {total number : Nat}
    (h : D.Tally w c asked total number) (hsub : asked ⊆ asked') (hw : D.Sourced w)
    (hfits : D.Fits w a) (hpast : (w.call c).PastClear)
    (hstore : ∀ bdebug, a ≠ .store c bdebug) (hclear : a ≠ .clear c)
    (hb : ∀ c', a ≠ .broadcast c') : D.Tally (D.next w a) c asked' total number := by
  have hchecked := checked_subset_next (D := D) w hstore
  have hrequests : ∀ p m, D.Request (D.next w a) p m →
      m.sender = D.own (D.home c) → D.common p ∈ asked' := by
    intro p m hm hsender
    rcases request_of_next hQ hw hm with hold | ⟨c', rfl, -⟩
    · exact hsub (h.requests p m hold hsender)
    · exact absurd rfl (hb c')
  rcases next_answered (D := D) w hclear with hsame | ⟨p, msg, rfl, htick, hsender, hins⟩
  · refine ⟨?_, ?_, ?_, hrequests⟩
    · have hcount := h.count
      rw [hsame]
      rcases acks_next hQ hw (a := a) (c := c) (fun c' hc' => absurd hc' (hb c'))
        with hle | ⟨p, msg, rfl, htick, hsender, -⟩
      · omega
      · -- the push of an acknowledgement for `c` is recorded
        simp only [Fits, htick, AnswerFits] at hfits
        have hnew := (hfits c hsender hpast).2
        rw [← hsame] at hnew
        refine absurd ?_ hnew
        simp only [next, htick, World.setTick, if_pos hsender]
        exact Finset.mem_insert_self _ _
    · rw [hsame]
      exact h.checked.trans hchecked
    · rw [hsame]
      exact fun p hp => hsub (h.answered p hp)
  · simp only [Fits, htick, AnswerFits] at hfits
    obtain ⟨hlooked, hnew⟩ := hfits c hsender hpast
    refine ⟨?_, ?_, ?_, hrequests⟩
    · have hcount := h.count
      rw [hins, Finset.card_insert_of_notMem hnew]
      rcases acks_next hQ hw (a := .tickPush p) (c := c) (fun c' hc' => absurd hc' (hb c'))
        with hle | ⟨_, _, -, -, -, heq⟩
      · omega
      · omega
    · rw [hins]
      exact Finset.insert_subset (hchecked hlooked) (h.checked.trans hchecked)
    · rw [hins]
      intro q hq
      rcases Finset.mem_insert.mp hq with rfl | hq
      · exact hsub (h.requests q msg (Or.inr (Or.inr htick)) hsender)
      · exact hsub (h.answered q hq)

/-- The wait loop counts an acknowledgement as it takes it out of the queue. -/
theorem Tally.awaitAck (hQ : D.queue.Fifo) {w : World Proc Ctl Shm} {c : Ctl}
    {asked : Finset Bytes} {total number timeOut : Nat}
    (h : D.Tally w c asked total number) (hw : D.Sourced w)
    (hcall : w.call c = .waiting number timeOut) (hnumber : number ≠ 0) {m : Message}
    (hpop : (D.queue.pop w.shm (D.own (D.home c)) debugMessage).1 = some m) :
    D.Tally (D.next w (.awaitAck c)) c asked total (number - 1) := by
  have hpast : (w.call c).PastClear := by rw [hcall]; trivial
  have hkeep : D.Tally (D.next w (.awaitAck c)) c asked total number :=
    h.step hQ (Finset.Subset.refl _) hw trivial hpast (by simp) (by simp) (by simp)
  refine ⟨?_, hkeep.checked, hkeep.answered, hkeep.requests⟩
  have hpos := Nat.pos_of_ne_zero hnumber
  have hacks := acks_awaitAck hQ hcall hpop
  have hanswered : (D.next w (.awaitAck c)).answered c = w.answered c := by
    rcases next_answered (D := D) w (a := .awaitAck c) (c := c) (by simp)
      with hsame | ⟨_, _, heq, -⟩
    · exact hsame
    · cases heq
  have hcount := h.count
  rw [hanswered]
  omega

/-- A call that broadcasts has nothing queued but what was answered since its
clear, and asks every queue it may have been answered from. -/
theorem Tally.broadcast (hQ : D.queue.Fifo) {w : World Proc Ctl Shm} {c : Ctl}
    (h : D.Tally w c (D.queue.names w.shm) 0 0) (hw : D.Sourced w) :
    D.Tally (D.next w (.broadcast c)) c ((D.next w (.broadcast c)).delivered c)
      ((D.next w (.broadcast c)).delivered c).card
      (D.queue.push w.shm (D.own (D.home c)) debugMessage).1 := by
  have hdelivered : (D.next w (.broadcast c)).delivered c =
      (D.queue.names w.shm).filter fun r =>
        debugMessage.reaches (D.own (D.home c)) r = true := by
    simp [next, World.setCall]
  -- every common queue there is gets a copy
  have hasked : ∀ p, D.common p ∈ D.queue.names w.shm →
      D.common p ∈ (D.next w (.broadcast c)).delivered c := by
    intro p hp
    rw [hdelivered, Finset.mem_filter]
    exact ⟨hp, (Message.reaches_broadcast rfl).mpr (D.common_ne_own p _)⟩
  refine ⟨?_, h.checked, fun p hp => hasked p (h.answered p hp), fun p m hm hsender => ?_⟩
  · have hcount := h.count
    have hanswered : (D.next w (.broadcast c)).answered c = w.answered c := rfl
    rw [hdelivered, hQ.count_push, hanswered]
    rcases acks_next hQ hw (a := .broadcast c) (c := c) (fun c' hc' => by cases hc'; rfl)
      with hle | ⟨_, _, heq, -⟩
    · omega
    · cases heq
  · rcases request_of_next hQ hw hm with hold | ⟨c', -, -, hp, -⟩
    · exact hasked p (h.requests p m hold hsender)
    · exact hasked p hp

theorem Tallied.step (hQ : D.queue.Fifo) {w : World Proc Ctl Shm} {a : Action Proc Ctl}
    {c : Ctl} (h : D.Tallied w c) (hw : D.Sourced w) (ha : D.enabled w a = true)
    (hfits : D.Fits w a) : D.Tallied (D.next w a) c := by
  unfold Tallied at h ⊢
  rcases next_call (D := D) w a c with hsame | ⟨_, -, hstored⟩ | ⟨rfl, hcleared⟩ |
      ⟨rfl, hnew⟩ | ⟨number, timeOut, rfl, hold, hnew⟩ | ⟨-, hidle⟩
  · rw [hsame]
    by_cases hpast : (w.call c).PastClear
    · -- none of the steps that start or restart the tally of `c`
      have hstore : ∀ bdebug, a ≠ .store c bdebug := by
        rintro bdebug rfl
        cases hcall : w.call c <;> simp [enabled, hcall, Call.PastClear] at ha hpast
      have hclear : a ≠ .clear c := by
        rintro rfl
        exact next_clear_ne ha hsame
      have hb : ∀ c', a ≠ .broadcast c' := by
        rintro c' rfl
        by_cases hc : c = c'
        · subst hc
          exact next_broadcast_ne ha hsame
        · exact hfits c hc hpast
      have hnames : D.queue.names w.shm ⊆ D.queue.names (D.next w a).shm :=
        fun n hn => names_next hQ a hn
      cases hcall : w.call c with
      | cleared =>
          rw [hcall] at h
          exact Tally.step hQ h hnames hw hfits hpast hstore hclear hb
      | waiting number timeOut =>
          rw [hcall] at h
          simp only [next_delivered (D := D) w (hb c)]
          exact Tally.step hQ h (Finset.Subset.refl _) hw hfits hpast hstore hclear hb
      | idle => trivial
      | stored => trivial
    · cases hcall : w.call c with
      | cleared => rw [hcall] at hpast; exact absurd trivial hpast
      | waiting number timeOut => rw [hcall] at hpast; exact absurd trivial hpast
      | idle => trivial
      | stored => trivial
  · rw [hstored]
    trivial
  · rw [hcleared]
    refine ⟨?_, ?_, ?_, fun p m hm _ => (hw.step hQ (.clear c) p m hm).2⟩
    · have hacks : D.acks (D.next w (.clear c)) c = 0 := by
        simp [acks, next, World.setCall, hQ.pending_clear]
      omega
    · rw [next_clear_answered]
      exact Finset.empty_subset _
    · rw [next_clear_answered]
      intro p hp
      cases hp
  · rw [hnew]
    have hcall : w.call c = .cleared := by simpa [enabled] using ha
    rw [hcall] at h
    exact Tally.broadcast hQ h hw
  · rw [hnew]
    rw [hold] at h
    have hloop : number ≠ 0 ∧ timeOut ≠ 0 := by simpa [enabled, hold] using ha
    have hdelivered := next_delivered (D := D) w (a := .awaitAck c) (c := c) (by simp)
    cases hpop : (D.queue.pop w.shm (D.own (D.home c)) debugMessage).1 with
    | some m =>
        simp only [hdelivered]
        exact Tally.awaitAck hQ h hw hold hloop.1 hpop
    | none =>
        simp only [hdelivered]
        refine Tally.step hQ h (Finset.Subset.refl _) hw trivial ?_ (by simp) (by simp)
          (by simp)
        rw [hold]
        trivial
  · rw [hidle]
    trivial

theorem tallied_reachable (hQ : D.queue.Fifo) {w : World Proc Ctl Shm}
    (hw : D.system.ReachableUnder D.Fits w) (c : Ctl) : D.Tallied w c := by
  refine Lts.ReachableUnder.invariant (I := fun w => D.Tallied w c) ?_ ?_ hw
  · intro w₀ h₀
    unfold Tallied
    rw [Initial.call h₀ c]
    trivial
  · intro w a w' hr h hfits hstep
    obtain ⟨ha, rfl⟩ := step_eq_some.mp hstep
    exact Tallied.step hQ h (sourced_reachable hQ hr.reachable) ha hfits

/-- **An acknowledged change was seen.** In every run whose steps fit, a call
that counted down to 0 broadcast to queues whose owners have all run
`check_debug_mode` since its store. -/
theorem acknowledged_checked (hQ : D.queue.Fifo) {w : World Proc Ctl Shm}
    (hw : D.system.ReachableUnder D.Fits w) {c : Ctl} {timeOut : Nat}
    (hcall : w.call c = .waiting 0 timeOut) :
    ∀ n ∈ w.delivered c, ∃ p ∈ w.checked c, D.common p = n := by
  have h := tallied_reachable hQ hw c
  unfold Tallied at h
  rw [hcall] at h
  have hsub : (w.answered c).image D.common ⊆ w.delivered c := by
    intro n hn
    obtain ⟨p, hp, rfl⟩ := Finset.mem_image.mp hn
    exact h.answered p hp
  have hcard : (w.delivered c).card ≤ ((w.answered c).image D.common).card := by
    have hcount := h.count
    rw [Finset.card_image_of_injective _ D.common_inj]
    omega
  intro n hn
  rw [← Finset.eq_of_subset_of_card_le hsub hcard] at hn
  obtain ⟨p, hp, rfl⟩ := Finset.mem_image.mp hn
  exact ⟨p, h.checked hp, rfl⟩

/-! ## A call that fits, and one that does not -/

namespace twoProcesses

instance (w : World Host Unit Boxes) (p : Host) :
    DecidablePred (twoProcesses.AnswerFits w p)
  | .checked msg => inferInstanceAs (Decidable (∀ c : Unit,
      msg.sender = twoProcesses.own (twoProcesses.home c) → (w.call c).PastClear →
        p ∈ w.checked c ∧ p ∉ w.answered c))
  | .idle => .isTrue trivial
  | .popped _ => .isTrue trivial

instance (w : World Host Unit Boxes) : DecidablePred (twoProcesses.Fits w)
  | .broadcast c => inferInstanceAs (Decidable
      (∀ c' : Unit, c' ≠ c → ¬(w.call c').PastClear))
  | .tickPush p => inferInstanceAs (Decidable
      (twoProcesses.AnswerFits w p (w.proc p).tick))
  | .openCommon _ | .construct _ | .startup _ | .shutdown _ | .setLogHook _ _ _
  | .tickPop _ | .tickCheck _ | .store _ _ | .clear _ | .awaitAck _ | .leave _
  | .log _ _ | .getDebugMsg _ _ _ | .setConfig _ _ | .configTick _ => .isTrue trivial

/-- Both processes answer and both acknowledgements are counted. -/
def acknowledged : World Host Unit Boxes :=
  after (fun w a => decide (twoProcesses.Fits w a)) start
    (boot ++ publish true ++ tick .first ++ tick .second ++ [.awaitAck (), .awaitAck ()])

theorem acknowledged_reachable :
    twoProcesses.system.ReachableUnder twoProcesses.Fits acknowledged :=
  ⟨start, start_initial,
    path_after (fun _ _ h => of_decide_eq_true h) (by decide +kernel)⟩

/-- Nobody answers a first call, which times out. The first process then
answers it and the second call; the second process does neither. -/
def overtaken : World Host Unit Boxes :=
  after (fun _ _ => true) start (boot ++ publish true ++ List.replicate 30 (.awaitAck ())
    ++ [.leave ()] ++ publish false ++ tick .first ++ tick .first
    ++ [.awaitAck (), .awaitAck ()])

theorem overtaken_reachable : twoProcesses.system.Reachable overtaken :=
  ⟨start, start_initial, path_after (fun _ _ _ => trivial) (by decide +kernel)⟩

end twoProcesses

theorem acknowledged_checked_both :
    ascii "second" ∈ twoProcesses.acknowledged.delivered ()
      ∧ ∀ n ∈ twoProcesses.acknowledged.delivered (),
          ∃ p ∈ twoProcesses.acknowledged.checked (), twoProcesses.common p = n := by
  have hcall : twoProcesses.acknowledged.call () = .waiting 0 30 := by decide +kernel
  exact ⟨by decide +kernel, acknowledged_checked Boxes.queue_fifo
    twoProcesses.acknowledged_reachable hcall⟩

/-- The second call counts down to 0 and the second process, to which it was
delivered, has not looked at the word. -/
theorem overtaken_unchecked :
    twoProcesses.system.Reachable twoProcesses.overtaken
      ∧ twoProcesses.overtaken.call () = .waiting 0 30
      ∧ ascii "second" ∈ twoProcesses.overtaken.delivered ()
      ∧ ∀ p ∈ twoProcesses.overtaken.checked (), twoProcesses.common p ≠ ascii "second" :=
  ⟨twoProcesses.overtaken_reachable, by decide +kernel, by decide +kernel,
    by decide +kernel⟩

end Deployment

end JustCommon
