import JustCommon.Handshake

/-!
# Calls that come one at a time

`Fits` speaks about single acknowledgements. This module shows that a
discipline on the callers alone is enough for it: a call of
`change_debug_mode` starts while no other one is under way, and only once
no process has a request of its queue left to answer (`Quiet`). A call that
timed out is what breaks the second half.

The argument is a count per process: between a call's broadcast and its
return, the requests of that call a process has not answered and the
answers it gave are together at most one (`Fresh`).
-/

namespace JustCommon

open Debuger ConfigMgr MessageQueue

variable {Proc Ctl Shm : Type} [DecidableEq Proc] [DecidableEq Ctl]

/-- How many requests of the queue `own` a timer handler has in its hands. -/
def Tick.holds (own : Bytes) : Tick → Nat
  | .idle => 0
  | .popped m => if m.sender = own then 1 else 0
  | .checked m => if m.sender = own then 1 else 0

namespace Deployment

variable {D : Deployment Proc Ctl Shm}

variable (D) in
/-- A call starts when no other one is under way and every request of its
queue was answered. -/
def Quiet (w : World Proc Ctl Shm) : Action Proc Ctl → Prop
  | .store c _ => (∀ c', w.call c' = .idle)
      ∧ ∀ p m, D.Request w p m → m.sender ≠ D.own (D.home c)
  | _ => True

variable (D) in
def asks (c : Ctl) (m : Message) : Bool :=
  m.type == msgTypeDebug && m.sender == D.own (D.home c)

variable (D) in
/-- The requests of the queue of `c` that `p` has yet to answer. -/
def unanswered (w : World Proc Ctl Shm) (c : Ctl) (p : Proc) : Nat :=
  (D.queue.pending w.shm (D.common p)).countP (D.asks c)
    + (w.proc p).tick.holds (D.own (D.home c))

/-! ## Requests are answered and not made up -/

/-- Between broadcasts no queue gets another request. -/
theorem countP_asks_next (hQ : D.queue.Fifo) {w : World Proc Ctl Shm}
    (hw : D.Sourced w) {a : Action Proc Ctl} (hb : ∀ c', a ≠ .broadcast c') (c : Ctl)
    (p : Proc) : (D.queue.pending (D.next w a).shm (D.common p)).countP (D.asks c)
      ≤ (D.queue.pending w.shm (D.common p)).countP (D.asks c) := by
  rw [next_shm]
  cases hcall : D.queueCall w a with
  | none => exact le_rfl
  | some call =>
      rcases hQ.countP_perform (D.asks c) w.shm (D.common p) call
        with hle | ⟨n, m, rfl, hreach, hasks, -⟩
      · exact hle
      have htype : m.type = msgTypeDebug := by
        simp only [asks, stamp, Bool.and_eq_true, beq_iff_eq] at hasks
        exact hasks.1
      rcases queueCall_push_debug hcall htype with ⟨c', ha, -⟩ | ⟨q, msg, -, htick, rfl, rfl⟩
      · exact absurd ha (hb c')
      · obtain ⟨-, q', hq'⟩ := hw.reaches htick hreach
        exact absurd hq' (D.common_ne_own p q')

/-- A tick that pops a request has it in its hands instead. -/
theorem unanswered_tickPop (hQ : D.queue.Fifo) (w : World Proc Ctl Shm) (c : Ctl)
    (p : Proc) : D.unanswered (D.next w (.tickPop p)) c p ≤ D.unanswered w c p := by
  have hshm : (D.next w (.tickPop p)).shm
      = (D.queue.pop w.shm (D.common p) debugMessage).2 := rfl
  unfold unanswered
  rw [hshm]
  cases hpop : (D.queue.pop w.shm (D.common p) debugMessage).1 with
  | none =>
      have htick : ((D.next w (.tickPop p)).proc p).tick = .idle := by
        simp only [next, hpop, World.setTick_tick_self]
      rw [htick, hQ.pending_pop_none hpop]
      exact Nat.le_add_right _ _
  | some m =>
      have htick : ((D.next w (.tickPop p)).proc p).tick = .popped m := by
        simp only [next, hpop, World.setTick_tick_self]
      rw [hQ.pop_result] at hpop
      have htype : m.type = msgTypeDebug := accepts_type (List.find?_some hpop)
      have hasks : D.asks c m = true ↔ m.sender = D.own (D.home c) := by
        simp [asks, htype]
      rw [htick, hQ.pending_pop, if_pos rfl, (perm_eraseP_of_find? hpop).countP_eq,
        List.countP_cons]
      simp only [hasks, Tick.holds]
      exact Nat.le_add_right _ _

theorem holds_next (w : World Proc Ctl Shm) {a : Action Proc Ctl} {p : Proc}
    (ha : a ≠ .tickPop p) (own : Bytes) :
    ((D.next w a).proc p).tick.holds own ≤ (w.proc p).tick.holds own := by
  rcases next_tick (D := D) w a p with hsame | ⟨rfl, -⟩ | ⟨msg, -, hold, hnew⟩ |
      ⟨msg, -, -, hnew⟩
  · rw [hsame]
  · exact absurd rfl ha
  · rw [hold, hnew]
    exact le_rfl
  · rw [hnew]
    exact Nat.zero_le _

theorem unanswered_next (hQ : D.queue.Fifo) {w : World Proc Ctl Shm}
    (hw : D.Sourced w) {a : Action Proc Ctl} (hb : ∀ c', a ≠ .broadcast c') (c : Ctl)
    (p : Proc) : D.unanswered (D.next w a) c p ≤ D.unanswered w c p := by
  by_cases ha : a = .tickPop p
  · subst ha
    exact unanswered_tickPop hQ w c p
  · exact Nat.add_le_add (countP_asks_next hQ hw hb c p) (holds_next w ha _)

/-- An acknowledgement is the answer to a request. -/
theorem unanswered_tickPush (hQ : D.queue.Fifo) {w : World Proc Ctl Shm}
    (hw : D.Sourced w) {c : Ctl} {p : Proc} {msg : Message}
    (htick : (w.proc p).tick = .checked msg) (hsender : msg.sender = D.own (D.home c)) :
    D.unanswered (D.next w (.tickPush p)) c p + 1 ≤ D.unanswered w c p := by
  have hcount := countP_asks_next hQ hw (a := .tickPush p) (by simp) c p
  have hnew : ((D.next w (.tickPush p)).proc p).tick = .idle := by
    simp only [next, htick, World.setTick_tick_self]
  unfold unanswered
  rw [hnew, htick]
  simp only [Tick.holds, if_pos hsender]
  omega

/-- A broadcast asks each process once. -/
theorem unanswered_broadcast (hQ : D.queue.Fifo) (w : World Proc Ctl Shm) (c : Ctl)
    (p : Proc) : D.unanswered (D.next w (.broadcast c)) c p ≤ D.unanswered w c p + 1 := by
  have hcount := hQ.countP_perform (D.asks c) w.shm (D.common p)
    (.push (D.own (D.home c)) debugMessage)
  have hshm : (D.next w (.broadcast c)).shm
      = D.queue.perform w.shm (.push (D.own (D.home c)) debugMessage) := rfl
  have htick : ((D.next w (.broadcast c)).proc p).tick = (w.proc p).tick := rfl
  unfold unanswered
  rw [hshm, htick]
  rcases hcount with hle | ⟨-, -, -, -, -, heq⟩
  · omega
  · omega

omit [DecidableEq Proc] [DecidableEq Ctl] in
theorem unanswered_eq_zero {w : World Proc Ctl Shm} {c : Ctl} {p : Proc}
    (h : ∀ m, D.Request w p m → m.sender ≠ D.own (D.home c)) :
    D.unanswered w c p = 0 := by
  have hcount : (D.queue.pending w.shm (D.common p)).countP (D.asks c) = 0 := by
    rw [List.countP_eq_zero]
    intro m hm hasks
    simp only [asks, Bool.and_eq_true, beq_iff_eq] at hasks
    exact h m (Or.inl ⟨hm, hasks.1⟩) hasks.2
  have hholds : (w.proc p).tick.holds (D.own (D.home c)) = 0 := by
    cases htick : (w.proc p).tick with
    | idle => rfl
    | popped m => exact if_neg (h m (Or.inr (Or.inl htick)))
    | checked m => exact if_neg (h m (Or.inr (Or.inr htick)))
  unfold unanswered
  omega

omit [DecidableEq Proc] [DecidableEq Ctl] in
theorem one_le_unanswered {w : World Proc Ctl Shm} {c : Ctl} {p : Proc} {msg : Message}
    (htick : (w.proc p).tick = .checked msg) (hsender : msg.sender = D.own (D.home c)) :
    1 ≤ D.unanswered w c p := by
  unfold unanswered
  rw [htick]
  simp only [Tick.holds, if_pos hsender]
  omega

/-! ## One request and one answer a process -/

/-- No two calls are under way. -/
def Serial (w : World Proc Ctl Shm) : Prop :=
  ∀ c c', w.call c ≠ .idle → w.call c' ≠ .idle → c = c'

variable (D) in
/-- What a process still owes the call of `c`, and that an answer it is about
to give is one to this call. -/
structure Owes (w : World Proc Ctl Shm) (c : Ctl) (most : Nat) (p : Proc) : Prop where
  once : D.unanswered w c p + (if p ∈ w.answered c then 1 else 0) ≤ most
  looked : ∀ msg, (w.proc p).tick = .checked msg → msg.sender = D.own (D.home c) →
    p ∈ w.checked c

variable (D) in
def Fresh (w : World Proc Ctl Shm) (c : Ctl) : Prop :=
  match w.call c with
  | .idle => True
  | .stored => ∀ p, D.unanswered w c p = 0
  | .cleared => ∀ p, D.Owes w c 0 p
  | .waiting _ _ => ∀ p, D.Owes w c 1 p

theorem Serial.step {w : World Proc Ctl Shm} {a : Action Proc Ctl} (h : Serial w)
    (ha : D.enabled w a = true) (hquiet : D.Quiet w a) : Serial (D.next w a) := by
  -- a call that is under way afterwards was under way, or has just stored
  have hold : ∀ c, (D.next w a).call c ≠ .idle →
      w.call c ≠ .idle ∨ ∃ bdebug, a = .store c bdebug := by
    intro c hc
    rcases next_call (D := D) w a c with hsame | ⟨bdebug, rfl, -⟩ | ⟨rfl, -⟩ | ⟨rfl, -⟩ |
        ⟨_, _, rfl, hwaiting, -⟩ | ⟨-, hidle⟩
    · exact Or.inl (hsame ▸ hc)
    · exact Or.inr ⟨bdebug, rfl⟩
    · left
      rw [show w.call c = .stored by simpa [enabled] using ha]
      simp
    · left
      rw [show w.call c = .cleared by simpa [enabled] using ha]
      simp
    · left
      rw [hwaiting]
      simp
    · exact absurd hidle hc
  intro c c' hc hc'
  rcases hold c hc with hbefore | ⟨bdebug, rfl⟩
  · rcases hold c' hc' with hbefore' | ⟨bdebug, rfl⟩
    · exact h c c' hbefore hbefore'
    · exact absurd (hquiet.1 c) hbefore
  · rcases hold c' hc' with hbefore' | ⟨bdebug', heq⟩
    · exact absurd (hquiet.1 c') hbefore'
    · exact (Action.store.inj heq).1

theorem Owes.step (hQ : D.queue.Fifo) {w : World Proc Ctl Shm} {a : Action Proc Ctl}
    {c : Ctl} {most : Nat} (h : ∀ p, D.Owes w c most p) (hw : D.Sourced w)
    (hstore : ∀ bdebug, a ≠ .store c bdebug) (hclear : a ≠ .clear c)
    (hb : ∀ c', a ≠ .broadcast c') (p : Proc) : D.Owes (D.next w a) c most p where
  once := by
    have hle := unanswered_next hQ hw hb c p
    have honce := (h p).once
    rcases next_answered (D := D) w hclear with hsame | ⟨q, msg, rfl, htick, hsender, hins⟩
    · rw [hsame]
      omega
    · rw [hins]
      by_cases hpq : p = q
      · subst hpq
        have hpush := unanswered_tickPush hQ hw htick hsender
        rw [if_pos (Finset.mem_insert_self _ _)]
        omega
      · simp only [Finset.mem_insert, hpq, false_or]
        omega
  looked := by
    intro msg hnew hsender
    rcases next_tick (D := D) w a p with hsame | ⟨-, hpop⟩ | ⟨msg', rfl, htick, -⟩ |
        ⟨_, -, -, hidle⟩
    · exact checked_subset_next w hstore ((h p).looked msg (hsame ▸ hnew) hsender)
    · rw [hpop] at hnew
      split at hnew <;> cases hnew
    · simp only [next, htick, World.setTick_checked, World.noteCheck]
      exact Finset.mem_insert_self _ _
    · rw [hidle] at hnew
      cases hnew

theorem Fresh.step (hQ : D.queue.Fifo) {w : World Proc Ctl Shm} {a : Action Proc Ctl}
    {c : Ctl} (h : D.Fresh w c) (hw : D.Sourced w) (hserial : Serial w)
    (ha : D.enabled w a = true) (hquiet : D.Quiet w a) : D.Fresh (D.next w a) c := by
  unfold Fresh at h ⊢
  rcases next_call (D := D) w a c with hsame | ⟨bdebug, rfl, hstored⟩ | ⟨rfl, hcleared⟩ |
      ⟨rfl, hnew⟩ | ⟨number, timeOut, rfl, hold, hnew⟩ | ⟨-, hidle⟩
  · rw [hsame]
    by_cases hcall : w.call c = .idle
    · rw [hcall]
      trivial
    -- the call goes on: no other one starts, clears or broadcasts
    have hstore : ∀ bdebug, a ≠ .store c bdebug := by
      rintro bdebug rfl
      exact hcall (hquiet.1 c)
    have hb : ∀ c', a ≠ .broadcast c' := by
      rintro c' rfl
      have hc' : w.call c' = .cleared := by simpa [enabled] using ha
      obtain rfl := hserial c c' hcall (by rw [hc']; simp)
      exact next_broadcast_ne ha hsame
    have hclear : a ≠ .clear c := by
      rintro rfl
      exact next_clear_ne ha hsame
    cases hc : w.call c with
    | idle => trivial
    | stored =>
        rw [hc] at h
        intro p
        have hle := unanswered_next hQ hw hb c p
        have hzero := h p
        omega
    | cleared =>
        rw [hc] at h
        exact Owes.step hQ h hw hstore hclear hb
    | waiting number timeOut =>
        rw [hc] at h
        exact Owes.step hQ h hw hstore hclear hb
  · rw [hstored]
    intro p
    have hle := unanswered_next hQ hw (a := .store c bdebug) (by simp) c p
    have hzero := unanswered_eq_zero (fun m hm => hquiet.2 p m hm)
    omega
  · rw [hcleared]
    have hc : w.call c = .stored := by simpa [enabled] using ha
    rw [hc] at h
    intro p
    have hle := unanswered_next hQ hw (a := .clear c) (by simp) c p
    have hzero := h p
    refine ⟨?_, fun msg hmsg hsender => ?_⟩
    · rw [next_clear_answered, if_neg (Finset.notMem_empty p)]
      omega
    · have hone := one_le_unanswered hmsg hsender
      omega
  · rw [hnew]
    have hc : w.call c = .cleared := by simpa [enabled] using ha
    rw [hc] at h
    intro p
    have hle := unanswered_broadcast hQ w c p
    have hzero := (h p).once
    have hanswered : (D.next w (.broadcast c)).answered c = w.answered c := rfl
    refine ⟨?_, (h p).looked⟩
    rw [hanswered]
    omega
  · rw [hold] at h
    have hkeep := Owes.step hQ h hw (a := .awaitAck c) (by simp) (by simp) (by simp)
    rw [hnew]
    cases (D.queue.pop w.shm (D.own (D.home c)) debugMessage).1 with
    | some m => exact hkeep
    | none => exact hkeep
  · rw [hidle]
    trivial

theorem fresh_reachable (hQ : D.queue.Fifo) {w : World Proc Ctl Shm}
    (hw : D.system.ReachableUnder D.Quiet w) : Serial w ∧ ∀ c, D.Fresh w c := by
  refine Lts.ReachableUnder.invariant (I := fun w => Serial w ∧ ∀ c, D.Fresh w c) ?_ ?_ hw
  · intro w₀ h₀
    refine ⟨fun c _ hc => absurd (Initial.call h₀ c) hc, fun c => ?_⟩
    unfold Fresh
    rw [Initial.call h₀ c]
    trivial
  · intro w a w' hr h hquiet hstep
    obtain ⟨ha, rfl⟩ := step_eq_some.mp hstep
    exact ⟨h.1.step ha hquiet, fun c => Fresh.step hQ (h.2 c)
      (sourced_reachable hQ hr.reachable) h.1 ha hquiet⟩

/-! ## What follows for an acknowledgement -/

omit [DecidableEq Ctl] in
theorem fits_of_fresh {w : World Proc Ctl Shm} {a : Action Proc Ctl} (hserial : Serial w)
    (hfresh : ∀ c, D.Fresh w c) (ha : D.enabled w a = true) : D.Fits w a := by
  cases a with
  | broadcast c =>
      intro c' hne hpast
      have hc : w.call c = .cleared := by simpa [enabled] using ha
      refine hne (hserial c' c ?_ (by rw [hc]; simp))
      intro hidle
      rw [hidle] at hpast
      exact hpast
  | tickPush p =>
      simp only [Fits]
      cases htick : (w.proc p).tick with
      | idle => trivial
      | popped msg => trivial
      | checked msg =>
          intro c hsender hpast
          have hone := one_le_unanswered htick hsender
          have hc := hfresh c
          unfold Fresh at hc
          cases hcall : w.call c with
          | idle => rw [hcall] at hpast; exact hpast.elim
          | stored => rw [hcall] at hpast; exact hpast.elim
          | cleared =>
              rw [hcall] at hc
              have honce := (hc p).once
              omega
          | waiting number timeOut =>
              rw [hcall] at hc
              refine ⟨(hc p).looked msg htick hsender, fun hmem => ?_⟩
              have honce := (hc p).once
              rw [if_pos hmem] at honce
              omega
  | _ => trivial

/-- **Serial calls fit.** A run in which calls come one at a time and start
with no request unanswered is one in which every acknowledgement fits. -/
theorem fits_of_quiet (hQ : D.queue.Fifo) {w : World Proc Ctl Shm}
    (hw : D.system.ReachableUnder D.Quiet w) : D.system.ReachableUnder D.Fits w := by
  refine Lts.ReachableUnder.invariant (I := D.system.ReachableUnder D.Fits) ?_ ?_ hw
  · intro w₀ h₀
    exact ⟨w₀, h₀, .refl⟩
  · intro w a w' hr hfits _ hstep
    obtain ⟨ha, -⟩ := step_eq_some.mp hstep
    obtain ⟨hserial, hfresh⟩ := fresh_reachable hQ hr
    exact hfits.tail (fits_of_fresh hserial hfresh ha) hstep

end Deployment

end JustCommon
