import JustCommon.Handshake
import JustCommon.Ledger

/-!
# A call of `change_debug_mode` returns

Each round of the wait loop pops an acknowledgement and counts `number`
down, or finds none, sleeps and counts `time_out` down. So a call ends
whatever the other processes do, also if none of them ever answers and if
acknowledgements for other calls pour in. `remaining` is how many actions
it still takes at most; the other processes can raise it by opening a queue
before the broadcast, which is then one more queue to hear from, and by
nothing else.
-/

namespace JustCommon

open Debuger ConfigMgr MessageQueue

/-- The action is one of the call of `c` once it has stored. -/
def Action.continues {Proc Ctl : Type} [DecidableEq Ctl] (c : Ctl) :
    Action Proc Ctl → Bool
  | .clear c' | .broadcast c' | .awaitAck c' | .leave c' => decide (c' = c)
  | _ => false

/-- The action attaches a queue to the segment. -/
def Action.opens {Proc Ctl : Type} : Action Proc Ctl → Bool
  | .openCommon _ | .construct _ => true
  | _ => false

/-- The call has still to broadcast. -/
def Call.unsent : Call → Bool
  | .stored | .cleared => true
  | _ => false

/-- The rounds the wait loop can still make: one of the counts stays above 0
until the last. -/
def rounds (number timeOut : Nat) : Nat :=
  if number = 0 ∨ timeOut = 0 then 0 else number + timeOut - 1

theorem rounds_le (number timeOut : Nat) : rounds number timeOut ≤ number + timeOut - 1 := by
  unfold rounds
  split <;> omega

/-- A round uses one up, whichever count it lowers. -/
theorem rounds_pred {number timeOut : Nat} (hn : number ≠ 0) (ht : timeOut ≠ 0) :
    rounds (number - 1) timeOut + 1 ≤ rounds number timeOut
      ∧ rounds number (timeOut - 1) + 1 ≤ rounds number timeOut := by
  have hfull : rounds number timeOut = number + timeOut - 1 := if_neg (by omega)
  have hpop := rounds_le (number - 1) timeOut
  have hsleep := rounds_le number (timeOut - 1)
  omega

variable {Proc Ctl Shm : Type} [DecidableEq Proc] [DecidableEq Ctl]

namespace Deployment

variable (D : Deployment Proc Ctl Shm)

/-- The queues a broadcast of `c` is delivered to. -/
def receivers (w : World Proc Ctl Shm) (c : Ctl) : Finset Bytes :=
  (D.queue.names w.shm).filter fun r => debugMessage.reaches (D.own (D.home c)) r = true

/-- How many actions the call of `c` takes at most until it has returned: a
clear, a broadcast, a round for each receiver and 29 more, and the return. -/
def remaining (w : World Proc Ctl Shm) (c : Ctl) : Nat :=
  match w.call c with
  | .idle => 0
  | .stored => (D.receivers w c).card + 32
  | .cleared => (D.receivers w c).card + 31
  | .waiting number timeOut => rounds number timeOut + 1

/-- By how much an action may raise `remaining`: a store by what its call takes,
and a queue that is opened before the broadcast by one round. -/
def granted (c : Ctl) (w : World Proc Ctl Shm) : Action Proc Ctl → Nat
  | .store c' _ => if c' = c then (D.receivers w c).card + 32 else 0
  | a => if a.opens && (w.call c).unsent then 1 else 0

/-- The round finds no acknowledgement, and sleeps. -/
def sleeps (c : Ctl) (w : World Proc Ctl Shm) : Action Proc Ctl → Nat
  | .awaitAck c' =>
      if c' = c ∧ (D.queue.pop w.shm (D.own (D.home c)) debugMessage).1 = none then 1 else 0
  | _ => 0

/-- What `time_out` is down to. -/
def timeLeft (w : World Proc Ctl Shm) (c : Ctl) : Nat :=
  match w.call c with
  | .waiting _ timeOut => timeOut
  | _ => 0

variable {D}

/-! ## The receivers of a broadcast -/

theorem names_next_eq (hQ : D.queue.Fifo) {w : World Proc Ctl Shm} {a : Action Proc Ctl}
    (ha : a.opens = false) : D.queue.names (D.next w a).shm = D.queue.names w.shm := by
  rw [next_shm]
  cases hcall : D.queueCall w a with
  | none => rfl
  | some call =>
      cases calls_of_queueCall hcall with
      | openCommon p => cases ha
      | construct p => cases ha
      | tickPop p => exact hQ.names_pop
      | tickPush _ => exact hQ.names_push
      | clear c => exact hQ.names_clear
      | broadcast c => exact hQ.names_push
      | awaitAck c => exact hQ.names_pop
      | log p buffers => exact hQ.names_push
      | getDebugMsg p module level => exact hQ.names_pop
      | setConfig p args => exact hQ.names_push
      | configTick p => exact hQ.names_pop

/-- At most one queue more to hear from, and that only by opening one. -/
theorem card_receivers_next (hQ : D.queue.Fifo) (w : World Proc Ctl Shm)
    (a : Action Proc Ctl) (c : Ctl) :
    (D.receivers (D.next w a) c).card ≤ (D.receivers w c).card + if a.opens then 1 else 0 := by
  have hattach : ∀ n, (D.queue.names (D.next w a).shm) = insert n (D.queue.names w.shm) →
      (D.receivers (D.next w a) c).card ≤ (D.receivers w c).card + 1 := by
    intro n hn
    unfold receivers
    rw [hn, Finset.filter_insert]
    split
    · exact Finset.card_insert_le _ _
    · exact Nat.le_succ _
  cases a with
  | openCommon p => exact hattach _ (by rw [next_shm]; exact hQ.names_attach)
  | construct p => exact hattach _ (by rw [next_shm]; exact hQ.names_attach)
  | _ =>
      unfold receivers
      rw [names_next_eq hQ rfl]
      exact Nat.le_add_right _ _

/-! ## One action -/

/-- Every action of a call that has stored moves it. -/
theorem next_continues_ne {w : World Proc Ctl Shm} {a : Action Proc Ctl} {c : Ctl}
    (ha : D.enabled w a = true) (hc : a.continues c = true) :
    (D.next w a).call c ≠ w.call c := by
  cases a with
  | clear c' =>
      obtain rfl : c' = c := of_decide_eq_true hc
      exact next_clear_ne ha
  | broadcast c' =>
      obtain rfl : c' = c := of_decide_eq_true hc
      exact next_broadcast_ne ha
  | awaitAck c' =>
      obtain rfl : c' = c := of_decide_eq_true hc
      cases hcall : w.call c' with
      | waiting number timeOut =>
          have hloop : number ≠ 0 ∧ timeOut ≠ 0 := by simpa [enabled, hcall] using ha
          simp only [next, hcall, World.setCall_self]
          split
          · intro heq
            have := (Call.waiting.inj heq).1
            omega
          · intro heq
            have := (Call.waiting.inj heq).2
            omega
      | _ => simp [enabled, hcall] at ha
  | leave c' =>
      obtain rfl : c' = c := of_decide_eq_true hc
      cases hcall : w.call c' with
      | waiting number timeOut =>
          simp only [next, World.setCall_self]
          exact Call.noConfusion
      | _ => simp [enabled, hcall] at ha
  | _ => cases hc

/-- An action of the call uses up one of those that remain; only a store and
the opening of a queue before the broadcast give more. -/
theorem remaining_next (hQ : D.queue.Fifo) {w : World Proc Ctl Shm} {a : Action Proc Ctl}
    (ha : D.enabled w a = true) (c : Ctl) :
    D.remaining (D.next w a) c + (if a.continues c then 1 else 0)
      ≤ D.remaining w c + D.granted c w a := by
  have hreceivers := card_receivers_next hQ w a c
  rcases next_call (D := D) w a c with hsame | ⟨bdebug, rfl, hnew⟩ | ⟨rfl, hnew⟩ |
      ⟨rfl, hnew⟩ | ⟨number, timeOut, rfl, hold, hnew⟩ | ⟨rfl, hnew⟩
  · -- the call is not moved, so the action is not one of it
    have hother : a.continues c = false := by
      cases hc : a.continues c with
      | false => rfl
      | true => exact absurd hsame (next_continues_ne ha hc)
    have hgranted : (w.call c).unsent = true →
        (if a.opens then 1 else 0) ≤ D.granted c w a := by
      intro hunsent
      cases a with
      | openCommon p | construct p =>
          simp only [granted, hunsent, Action.opens, Bool.and_self]
          exact Nat.le_refl _
      | _ => exact Nat.zero_le _
    unfold remaining
    rw [hsame, hother]
    cases hcall : w.call c with
    | idle => exact Nat.zero_le _
    | stored =>
        have hraise := hgranted (by rw [hcall]; rfl)
        simp only [Bool.false_eq_true, if_false]
        omega
    | cleared =>
        have hraise := hgranted (by rw [hcall]; rfl)
        simp only [Bool.false_eq_true, if_false]
        omega
    | waiting number timeOut => exact Nat.le_add_right _ _
  · have hgranted : D.granted c w (.store c bdebug) = (D.receivers w c).card + 32 := if_pos rfl
    unfold remaining
    rw [hnew, hgranted]
    simp only [Action.opens, Action.continues, Bool.false_eq_true, if_false] at hreceivers ⊢
    omega
  · have hold : w.call c = .stored := by simpa [enabled] using ha
    unfold remaining
    rw [hnew, hold]
    simp only [Action.opens, Action.continues, decide_true, Bool.false_eq_true, if_true,
      if_false] at hreceivers ⊢
    omega
  · have hold : w.call c = .cleared := by simpa [enabled] using ha
    have hnumber : (D.queue.push w.shm (D.own (D.home c)) debugMessage).1
        = (D.receivers w c).card := hQ.count_push
    have hrounds := rounds_le (D.receivers w c).card 30
    unfold remaining
    rw [hnew, hold, hnumber]
    simp only [Action.continues, decide_true, if_true]
    omega
  · have hloop : number ≠ 0 ∧ timeOut ≠ 0 := by simpa [enabled, hold] using ha
    obtain ⟨hpop, hsleep⟩ := rounds_pred hloop.1 hloop.2
    unfold remaining
    rw [hnew, hold]
    simp only [Action.continues, decide_true, if_true]
    cases (D.queue.pop w.shm (D.own (D.home c)) debugMessage).1 with
    | some m =>
        simp only
        omega
    | none =>
        simp only
        omega
  · unfold remaining
    rw [hnew]
    cases hcall : w.call c with
    | waiting number timeOut =>
        simp only [Action.continues, decide_true, if_true]
        omega
    | _ => simp [enabled, hcall] at ha

/-- A sleep is paid from `time_out`, which only a broadcast sets. -/
theorem timeLeft_next {w : World Proc Ctl Shm} {a : Action Proc Ctl}
    (ha : D.enabled w a = true) (c : Ctl) :
    timeLeft (D.next w a) c + D.sleeps c w a
      ≤ timeLeft w c + (if a = .broadcast c then 30 else 0) := by
  have hawake : a ≠ .awaitAck c → D.sleeps c w a = 0 := by
    intro hne
    cases a with
    | awaitAck c' => exact if_neg fun h => hne (by rw [h.1])
    | _ => rfl
  rcases next_call (D := D) w a c with hsame | ⟨bdebug, rfl, hnew⟩ | ⟨rfl, hnew⟩ |
      ⟨rfl, hnew⟩ | ⟨number, timeOut, rfl, hold, hnew⟩ | ⟨rfl, hnew⟩
  · rw [hawake]
    · unfold timeLeft
      rw [hsame]
      exact Nat.le_add_right _ _
    · rintro rfl
      exact next_continues_ne ha (by simp [Action.continues]) hsame
  · rw [hawake (by simp)]
    unfold timeLeft
    rw [hnew]
    exact Nat.zero_le _
  · rw [hawake (by simp)]
    unfold timeLeft
    rw [hnew]
    exact Nat.zero_le _
  · rw [hawake (by simp), if_pos rfl]
    unfold timeLeft
    rw [hnew]
    exact Nat.le_add_left _ _
  · have hloop : number ≠ 0 ∧ timeOut ≠ 0 := by simpa [enabled, hold] using ha
    unfold timeLeft sleeps
    rw [hnew, hold]
    cases hpop : (D.queue.pop w.shm (D.own (D.home c)) debugMessage).1 with
    | some m => simp
    | none =>
        simp only [and_self, if_true]
        omega
  · rw [hawake (by simp)]
    unfold timeLeft
    rw [hnew]
    exact Nat.zero_le _

omit [DecidableEq Proc] in
/-- A call under way has an action to go on with. -/
theorem continues_enabled {w : World Proc Ctl Shm} {c : Ctl} (h : w.call c ≠ .idle) :
    ∃ a : Action Proc Ctl, a.continues c = true ∧ D.enabled w a = true := by
  cases hcall : w.call c with
  | idle => exact absurd hcall h
  | stored => exact ⟨.clear c, by simp [Action.continues], by simp [enabled, hcall]⟩
  | cleared => exact ⟨.broadcast c, by simp [Action.continues], by simp [enabled, hcall]⟩
  | waiting number timeOut =>
      cases hloop : (number != 0 && timeOut != 0) with
      | true => exact ⟨.awaitAck c, by simp [Action.continues], by simp [enabled, hcall, hloop]⟩
      | false => exact ⟨.leave c, by simp [Action.continues], by simp [enabled, hcall, hloop]⟩

omit [DecidableEq Proc] [DecidableEq Ctl] in
theorem remaining_eq_zero {w : World Proc Ctl Shm} {c : Ctl} :
    D.remaining w c = 0 ↔ w.call c = .idle := by
  unfold remaining
  cases w.call c <;> simp

/-! ## Whole runs -/

/-- **`change_debug_mode` returns.** In every run the calls of `c` take, after
each store, at most 32 actions and one for each queue there is or that is
opened before the broadcast, and sleep at most 30 times for each broadcast. A call
under way is never stuck: by its own actions alone it comes to its return. -/
theorem change_debug_mode_returns (hQ : D.queue.Fifo) (c : Ctl) :
    (∀ l w w', D.system.run w l = some w' →
        D.remaining w' c + l.countP (Action.continues c)
            ≤ D.remaining w c + D.system.total (D.granted c) w l
          ∧ timeLeft w' c + D.system.total (D.sleeps c) w l
            ≤ timeLeft w c + 30 * l.count (.broadcast c))
      ∧ ∀ w : World Proc Ctl Shm, ∃ l w', D.system.run w l = some w'
        ∧ D.system.Meets (fun _ a => a.continues c = true) w l
        ∧ l.length ≤ D.remaining w c ∧ w'.call c = .idle := by
  constructor
  · intro l w w' h
    constructor
    · have hrun := Lts.run_budget (M := D.system) (I := fun _ => True)
        (m := fun w => D.remaining w c)
        (f := fun _ a => if a.continues c then 1 else 0) (g := D.granted c)
        (fun _ _ _ _ _ => trivial) (fun w a w' _ hst => by
          obtain ⟨ha, rfl⟩ := step_eq_some.mp hst
          exact remaining_next hQ ha c) h trivial
      rwa [Lts.total_label 1 _ h, Nat.one_mul] at hrun
    · have hrun := Lts.run_budget (M := D.system) (I := fun _ => True)
        (m := fun w => timeLeft w c) (f := D.sleeps c)
        (g := fun _ a => if a == .broadcast c then 30 else 0)
        (fun _ _ _ _ _ => trivial) (fun w a w' _ hst => by
          obtain ⟨ha, rfl⟩ := step_eq_some.mp hst
          simpa only [beq_iff_eq] using timeLeft_next ha c) h trivial
      rwa [Lts.total_label 30 _ h] at hrun
  · intro w
    have hstep : ∀ w : World Proc Ctl Shm, True → D.remaining w c ≠ 0 →
        ∃ a w', a.continues c = true ∧ D.system.step w a = some w'
          ∧ D.remaining w' c < D.remaining w c ∧ True := by
      intro w _ hw
      obtain ⟨a, hc, ha⟩ := continues_enabled fun hidle => hw (remaining_eq_zero.mpr hidle)
      have hless := remaining_next hQ ha c
      have hgranted : D.granted c w a = 0 := by
        cases a with
        | store c' bdebug => cases hc
        | openCommon p => cases hc
        | construct p => cases hc
        | _ => rfl
      rw [hc, hgranted, if_pos rfl] at hless
      exact ⟨a, D.next w a, hc, step_eq_some.mpr ⟨ha, rfl⟩, by omega, trivial⟩
    obtain ⟨l, w', hrun, hmeets, hlen, hend, -⟩ := Lts.exhaust hstep (s := w) trivial
    exact ⟨l, w', hrun, hmeets, hlen, remaining_eq_zero.mp hend⟩

open twoProcesses in
/-- Both processes were asked, and neither has ticked. -/
def asked : World Host Unit Boxes :=
  after (fun _ _ => true) start (boot ++ publish true)

theorem change_debug_mode_returns_asked :
    twoProcesses.remaining asked () = 32
      ∧ ∃ l w', twoProcesses.system.run asked l = some w'
        ∧ twoProcesses.system.Meets (fun _ a => a.continues () = true) asked l
        ∧ l.length ≤ twoProcesses.remaining asked () ∧ w'.call () = .idle :=
  ⟨by decide +kernel, (change_debug_mode_returns Boxes.queue_fifo ()).2 asked⟩

end Deployment

end JustCommon
