import JustCommon.CallProgress
import JustCommon.ModeSync

/-!
# Requests are answered in order, and the processes agree

A broadcast of `change_debug_mode` puts one request into the queue of each
process, and a timer handler answers one. `requests` is what a process has
still to answer, the request in its hands first; it is a queue in the sense
of `Lts.run_queue`, so over any run the answers of a process go to the
queues that asked, one for each request and in the order of the broadcasts.

So how far a process is behind is a number, `backlog`, that only broadcasts
raise and only its own ticks lower. A process that has answered that often
agrees with the word, and it can always come to that by ticking alone.
-/

namespace JustCommon

open Debuger ConfigMgr MessageQueue

/-- From whom the request in the hands of a timer handler is. -/
def Tick.inHand : Tick → List Bytes
  | .idle => []
  | .popped msg => [msg.sender]
  | .checked msg => [msg.sender]

def Action.broadcasts {Proc Ctl : Type} : Action Proc Ctl → Bool
  | .broadcast _ => true
  | _ => false

/-- The action is a step of `Debuger::handle_timer` of `p`. -/
def Action.ticks {Proc Ctl : Type} [DecidableEq Proc] (p : Proc) : Action Proc Ctl → Bool
  | .tickPop q | .tickCheck q | .tickPush q => decide (q = p)
  | _ => false

variable {Proc Ctl Shm : Type} [DecidableEq Proc] [DecidableEq Ctl]

namespace Deployment

variable (D : Deployment Proc Ctl Shm)

/-- From whom the requests are that `p` has not answered, in the order it will. -/
def requests (w : World Proc Ctl Shm) (p : Proc) : List Bytes :=
  (w.proc p).tick.inHand
    ++ (ofType msgTypeDebug (D.queue.pending w.shm (D.common p))).map Message.sender

def backlog (w : World Proc Ctl Shm) (p : Proc) : Nat := (D.requests w p).length

/-- From whom the request is that the action puts into every common queue. -/
def posed (_ : World Proc Ctl Shm) : Action Proc Ctl → List Bytes
  | .broadcast c => [D.own (D.home c)]
  | _ => []

/-- To whom the action sends an acknowledgement of `p`. -/
def answersOf (p : Proc) (w : World Proc Ctl Shm) : Action Proc Ctl → List Bytes
  | .tickPush q =>
      if q = p then
        match (w.proc p).tick with
        | .checked msg => [(acknowledgement msg).receiver]
        | _ => []
      else []
  | _ => []

/-- Every debug message that is queued has the level all of them are pushed
with. -/
def Levelled (w : World Proc Ctl Shm) : Prop :=
  ∀ n, ∀ m ∈ D.queue.pending w.shm n, m.type = msgTypeDebug → m.level = msgLevel

variable {D}

theorem Levelled.step (hQ : D.queue.Fifo) {w : World Proc Ctl Shm} (h : D.Levelled w)
    (a : Action Proc Ctl) : D.Levelled (D.next w a) := by
  intro n m hm htype
  rcases mem_pending_next hQ hm with hold | ⟨n', m', hcall, rfl⟩
  · exact h n m hold htype
  · rcases queueCall_push_debug hcall htype with ⟨c, -, -, rfl⟩ | ⟨q, msg, -, -, -, rfl⟩
    · rfl
    · rfl

theorem levelled_reachable (hQ : D.queue.Fifo) {w : World Proc Ctl Shm}
    (hw : D.system.Reachable w) : D.Levelled w := by
  refine Lts.Reachable.invariant (I := D.Levelled) ?_ ?_ hw
  · intro w₀ h₀ n m hm
    rw [Initial.pending h₀] at hm
    cases hm
  · intro w a w' _ h hstep
    obtain ⟨-, rfl⟩ := step_eq_some.mp hstep
    exact h.step hQ a

/-! ## One action -/

omit [DecidableEq Proc] [DecidableEq Ctl] in
/-- A timer handler and a wait loop pop the oldest debug message. -/
theorem pop_debug (hQ : D.queue.Fifo) {w : World Proc Ctl Shm} (h : D.Levelled w)
    (n : Bytes) :
    (D.queue.pop w.shm n debugMessage).1
        = (ofType msgTypeDebug (D.queue.pending w.shm n)).head?
      ∧ ofType msgTypeDebug (D.queue.pending (D.queue.pop w.shm n debugMessage).2 n)
        = (ofType msgTypeDebug (D.queue.pending w.shm n)).tail := by
  refine hQ.ofType_pop (w := debugMessage) fun m hm htype => ?_
  have hlevel : m.level = debugMessage.level := h _ m hm htype
  simp [accepts, htype, hlevel, hQ.levelOk_self, debugMessage]

/-- Only a broadcast adds to the requests of a process, and only the process
itself takes them. -/
theorem ofType_debug_next (hQ : D.queue.Fifo) {w : World Proc Ctl Shm} (hw : D.Sourced w)
    {a : Action Proc Ctl} {p : Proc} (hb : a.broadcasts = false) (hpop : a ≠ .tickPop p) :
    ofType msgTypeDebug (D.queue.pending (D.next w a).shm (D.common p))
      = ofType msgTypeDebug (D.queue.pending w.shm (D.common p)) := by
  by_cases hpush : ∃ q msg, a = .tickPush q ∧ (w.proc q).tick = .checked msg
  · -- an acknowledgement goes to the queue that asked, which is no common one
    obtain ⟨q, msg, rfl, htick⟩ := hpush
    have hreach : ¬(acknowledgement msg).reaches (D.common q) (D.common p) = true := by
      intro hr
      obtain ⟨-, q', hq'⟩ := hw.reaches htick hr
      exact D.common_ne_own p q' hq'
    simp only [next, htick, World.setTick, hQ.pending_push,
      if_neg fun hboth : _ ∧ _ => hreach hboth.2]
  · refine ofType_next hQ fun call hcall => ?_
    cases calls_of_queueCall hcall with
    | openCommon q => trivial
    | construct q => trivial
    | tickPop q => exact Or.inl fun hq => hpop (by rw [D.common_inj hq])
    | tickPush htick => exact absurd ⟨_, _, rfl, htick⟩ hpush
    | clear c => exact (D.common_ne_own _ _).symm
    | broadcast c => cases hb
    | awaitAck c => exact Or.inl (D.common_ne_own _ _).symm
    | log q buffers =>
        show msgTypeLog ≠ msgTypeDebug
        decide
    | getDebugMsg q module level => exact Or.inl (D.common_ne_own _ _).symm
    | setConfig q args =>
        show msgTypeConfig ≠ msgTypeDebug
        decide
    | configTick q => exact Or.inr (by decide)

theorem inHand_next (w : World Proc Ctl Shm) {a : Action Proc Ctl} {p : Proc}
    (hpop : a ≠ .tickPop p) (hpush : a ≠ .tickPush p) :
    ((D.next w a).proc p).tick.inHand = (w.proc p).tick.inHand := by
  rcases next_tick (D := D) w a p with hsame | ⟨ha, -⟩ | ⟨msg, -, hold, hnew⟩ | ⟨msg, ha, -⟩
  · rw [hsame]
  · exact absurd ha hpop
  · rw [hold, hnew]
    rfl
  · exact absurd ha hpush

/-- An action takes the requests it answers off one end and puts the ones it
makes on at the other. -/
theorem requests_next (hQ : D.queue.Fifo) {w : World Proc Ctl Shm} (hw : D.Sourced w)
    (hlevel : D.Levelled w) {a : Action Proc Ctl} (ha : D.enabled w a = true) {p : Proc}
    (hp : D.common p ∈ D.queue.names w.shm) :
    D.requests w p ++ D.posed w a = answersOf p w a ++ D.requests (D.next w a) p := by
  by_cases hpop : a = .tickPop p
  · subst hpop
    obtain ⟨hhead, htail⟩ := pop_debug hQ hlevel (D.common p)
    have hidle : (w.proc p).tick = .idle := by
      have hboth : (w.proc p).running = true ∧ (w.proc p).tick = .idle := by
        simpa [enabled] using ha
      exact hboth.2
    simp only [requests, hidle, next, World.setTick_tick_self]
    rw [show (D.queue.pending (World.setTick { w with
        shm := (D.queue.pop w.shm (D.common p) debugMessage).2 } p _).shm (D.common p))
      = D.queue.pending (D.queue.pop w.shm (D.common p) debugMessage).2 (D.common p) from rfl,
      htail, hhead]
    cases ofType msgTypeDebug (D.queue.pending w.shm (D.common p)) with
    | nil => rfl
    | cons m rest => simp [Tick.inHand, posed, answersOf]
  by_cases hpush : a = .tickPush p
  · subst hpush
    have hqueued := ofType_debug_next hQ hw (a := .tickPush p) (p := p) rfl (by simp)
    cases htick : (w.proc p).tick with
    | checked msg =>
        have hidle : ((D.next w (.tickPush p)).proc p).tick = .idle := by
          simp only [next, htick, World.setTick_tick_self]
        have hanswer : answersOf p w (.tickPush p : Action Proc Ctl) = [msg.sender] := by
          simp only [answersOf, htick, if_true]
          rfl
        rw [hanswer]
        simp only [requests, posed, hqueued, hidle, htick, Tick.inHand, List.nil_append,
          List.append_nil]
    | idle => simp [enabled, htick] at ha
    | popped msg => simp [enabled, htick] at ha
  have hinHand := inHand_next (D := D) w hpop hpush
  by_cases hb : a.broadcasts = true
  · cases a with
    | broadcast c =>
        have hreach : debugMessage.reaches (D.own (D.home c)) (D.common p) = true :=
          (Message.reaches_broadcast rfl).mpr (D.common_ne_own p _)
        have hqueued := hQ.ofType_push (n := D.own (D.home c)) hp debugMessage
        rw [if_pos hreach] at hqueued
        have hafter : ofType msgTypeDebug
            (D.queue.pending (D.next w (.broadcast c)).shm (D.common p)) = _ := hqueued
        simp only [requests, hinHand, hafter, List.map_append, List.map_singleton,
          List.append_assoc]
        rfl
    | _ => cases hb
  · have hb' : a.broadcasts = false := by simpa using hb
    have hqueued := ofType_debug_next hQ hw hb' hpop
    have hposed : D.posed w a = [] := by
      cases a with
      | broadcast c => cases hb'
      | _ => rfl
    have hanswer : answersOf p w a = [] := by
      cases a with
      | tickPush q => exact if_neg fun hq => hpush (by rw [hq])
      | _ => rfl
    rw [hposed, hanswer, List.append_nil, List.nil_append]
    simp only [requests, hinHand, hqueued]

/-! ## Whole runs -/

/-- A reachable state in which `p` has its queue. -/
def Asked (D : Deployment Proc Ctl Shm) (p : Proc) (w : World Proc Ctl Shm) : Prop :=
  D.system.Reachable w ∧ D.common p ∈ D.queue.names w.shm

theorem Asked.step (hQ : D.queue.Fifo) {p : Proc} {w w' : World Proc Ctl Shm}
    {a : Action Proc Ctl} (h : D.Asked p w) (hst : D.system.step w a = some w') :
    D.Asked p w' := by
  refine ⟨h.1.tail trivial hst, ?_⟩
  obtain ⟨-, rfl⟩ := step_eq_some.mp hst
  exact names_next hQ a h.2

/-- **Requests are answered in order.** Over every run the requests a process
had and those broadcast since, in this order, are those it answered, each
once and to the queue that asked, and those it has still to answer. -/
theorem requests_answered_in_order (hQ : D.queue.Fifo) {w w' : World Proc Ctl Shm}
    {p : Proc} (hw : D.system.Reachable w) (hp : D.common p ∈ D.queue.names w.shm)
    {l : List (Action Proc Ctl)} (h : D.system.run w l = some w') :
    D.requests w p ++ D.system.collect D.posed w l
      = D.system.collect (answersOf p) w l ++ D.requests w' p := by
  refine Lts.run_queue (I := D.Asked p) (q := fun w => D.requests w p) (f := answersOf p)
    (g := D.posed) (fun _ _ _ hi hst => hi.step hQ hst) ?_ h ⟨hw, hp⟩
  intro w a w' hi hst
  obtain ⟨ha, rfl⟩ := step_eq_some.mp hst
  exact requests_next hQ (sourced_reachable hQ hi.1) (levelled_reachable hQ hi.1) ha hi.2

theorem asked_reachable : twoProcesses.system.Reachable asked :=
  ⟨twoProcesses.start, twoProcesses.start_initial,
    twoProcesses.path_after (fun _ _ _ => trivial) (by decide +kernel)⟩

open twoProcesses in
/-- The second process answers its one request. -/
theorem requests_answered_in_order_second :
    twoProcesses.requests asked .second = [ascii "Debuger"]
      ∧ twoProcesses.requests (after (fun _ _ => true) asked (tick .second)) .second = []
      ∧ twoProcesses.requests asked .second
          ++ twoProcesses.system.collect twoProcesses.posed asked (tick .second)
        = twoProcesses.system.collect (answersOf .second) asked (tick .second)
          ++ twoProcesses.requests (after (fun _ _ => true) asked (tick .second)) .second :=
  ⟨by decide +kernel, by decide +kernel, requests_answered_in_order Boxes.queue_fifo
    asked_reachable (by decide +kernel) (run_after (by decide +kernel))⟩

/-- Counted: a tick of `p` lowers its backlog, a broadcast raises it. -/
theorem backlog_run (hQ : D.queue.Fifo) {w w' : World Proc Ctl Shm} {p : Proc}
    (hi : D.Asked p w) {l : List (Action Proc Ctl)} (h : D.system.run w l = some w') :
    D.backlog w' p + l.count (.tickPush p) = D.backlog w p + l.countP Action.broadcasts := by
  refine Lts.count_balance (I := D.Asked p) (m := fun w => D.backlog w p)
    (p := (· == .tickPush p)) (q := Action.broadcasts)
    (fun _ _ _ hi hst => hi.step hQ hst) ?_ h hi
  intro w a w' hi hst
  obtain ⟨ha, rfl⟩ := step_eq_some.mp hst
  have hlen := congrArg List.length (requests_next hQ (sourced_reachable hQ hi.1)
    (levelled_reachable hQ hi.1) ha hi.2)
  rw [List.length_append, List.length_append] at hlen
  have hposed : (D.posed w a).length = if a.broadcasts then 1 else 0 := by
    cases a <;> rfl
  have hanswers : (answersOf p w a).length = if a == .tickPush p then 1 else 0 := by
    cases a with
    | tickPush q =>
        by_cases hq : q = p
        · subst hq
          cases htick : (w.proc q).tick with
          | checked msg => simp [answersOf, htick]
          | idle => simp [enabled, htick] at ha
          | popped msg => simp [enabled, htick] at ha
        · simp [answersOf, hq]
    | _ => rfl
  unfold backlog
  omega

/-! ## Agreement -/

theorem synced_of_backlog (hQ : D.queue.Fifo) {w : World Proc Ctl Shm}
    (hw : D.system.Reachable w) {p : Proc} (hrun : (w.proc p).running = true)
    (hcalls : ¬SomePublishing w) (hzero : D.backlog w p = 0) : Synced w p := by
  have hnil : D.requests w p = [] := List.length_eq_zero_iff.mp hzero
  obtain ⟨hhand, hqueued⟩ := List.append_eq_nil_iff.mp hnil
  rcases (sound_heard hQ hw).2 p hrun with hsync | ⟨m, hm, htype⟩ | ⟨m, hm⟩ | hpub
  · exact hsync
  · have hmem : m ∈ ofType msgTypeDebug (D.queue.pending w.shm (D.common p)) :=
      List.mem_filter.mpr ⟨hm, beq_iff_eq.mpr htype⟩
    rw [List.map_eq_nil_iff.mp hqueued] at hmem
    cases hmem
  · rw [hm] at hhand
    cases hhand
  · exact absurd hpub hcalls

/-- A running process that no call is publishing to, and where the word is. -/
structure Settling (D : Deployment Proc Ctl Shm) (p : Proc) (word : UInt32)
    (w : World Proc Ctl Shm) : Prop where
  asked : D.Asked p w
  running : (w.proc p).running = true
  calls : ¬SomePublishing w
  word : w.word = word

/-- How many steps a process takes to answer what it has to: three for each
request, of which some are done for the one in its hands. -/
def ticksLeft (D : Deployment Proc Ctl Shm) (w : World Proc Ctl Shm) (p : Proc) : Nat :=
  3 * (ofType msgTypeDebug (D.queue.pending w.shm (D.common p))).length
    + match (w.proc p).tick with
      | .idle => 0
      | .popped _ => 2
      | .checked _ => 1

omit [DecidableEq Proc] [DecidableEq Ctl] in
theorem ticksLeft_le (w : World Proc Ctl Shm) (p : Proc) :
    D.ticksLeft w p ≤ 3 * D.backlog w p := by
  unfold ticksLeft backlog requests
  rw [List.length_append, List.length_map]
  cases (w.proc p).tick with
  | idle =>
      simp only [Tick.inHand, List.length_nil]
      omega
  | popped msg =>
      simp only [Tick.inHand, List.length_singleton]
      omega
  | checked msg =>
      simp only [Tick.inHand, List.length_singleton]
      omega

omit [DecidableEq Proc] [DecidableEq Ctl] in
theorem backlog_of_ticksLeft {w : World Proc Ctl Shm} {p : Proc}
    (h : D.ticksLeft w p = 0) : D.backlog w p = 0 := by
  unfold ticksLeft at h
  unfold backlog requests
  rw [List.length_append, List.length_map]
  cases htick : (w.proc p).tick with
  | idle =>
      rw [htick] at h
      simp only [Tick.inHand, List.length_nil]
      omega
  | popped msg =>
      rw [htick] at h
      simp only at h
      omega
  | checked msg =>
      rw [htick] at h
      simp only at h
      omega

/-- A step of the timer handler of `p` leaves the process running, the calls
and the word. -/
theorem Settling.ticks (hQ : D.queue.Fifo) {p : Proc} {word : UInt32}
    {w : World Proc Ctl Shm} {a : Action Proc Ctl} (h : D.Settling p word w)
    (ha : D.enabled w a = true) (hticks : a.ticks p = true) :
    D.Settling p word (D.next w a) := by
  have hcall : (D.next w a).call = w.call := by
    cases a with
    | tickPop q => rfl
    | tickCheck q =>
        simp only [next]
        split <;> rfl
    | tickPush q =>
        simp only [next]
        split <;> rfl
    | _ => cases hticks
  have hword : (D.next w a).word = w.word := by
    rcases next_word (D := D) w a with hsame | ⟨c, bdebug, _, _, rfl, -⟩
    · exact hsame
    · cases hticks
  refine ⟨h.asked.step hQ (step_eq_some.mpr ⟨ha, rfl⟩), ?_, ?_, hword.trans h.word⟩
  · obtain ⟨d, hd, htimer⟩ := running_iff.mp h.running
    have hmade : a ≠ .construct p := by
      rintro rfl
      cases hticks
    refine running_iff.mpr ?_
    rcases next_debugerStep (D := D) w hmade with ⟨hsame, -⟩ | ⟨d', op, hop, hd', hnew, -⟩
    · exact ⟨d, hsame.trans hd, htimer⟩
    · obtain rfl := Option.some.inj (hd'.symm.trans hd)
      refine ⟨_, hnew, ?_⟩
      cases a with
      | tickCheck q =>
          simp only [World.debugerOp] at hop
          split at hop
          · obtain ⟨-, rfl⟩ := Prod.mk.inj (Option.some.inj hop)
            rw [checkDebugMode_timer]
            exact htimer
          · cases hop
      | tickPop q => cases hop
      | tickPush q => cases hop
      | _ => cases hticks
  · unfold SomePublishing
    rw [hcall]
    exact h.calls

/-- As long as there is something to answer, the timer handler of `p` has a
step that brings it nearer. -/
theorem Settling.progress (hQ : D.queue.Fifo) {p : Proc} {word : UInt32}
    {w : World Proc Ctl Shm} (h : D.Settling p word w) (hleft : D.ticksLeft w p ≠ 0) :
    ∃ a w', a.ticks p = true ∧ D.system.step w a = some w'
      ∧ D.ticksLeft w' p < D.ticksLeft w p ∧ D.Settling p word w' := by
  have hw := sourced_reachable hQ h.asked.1
  have hlevel := levelled_reachable hQ h.asked.1
  have htake : ∀ a : Action Proc Ctl, a.ticks p = true → D.enabled w a = true →
      D.ticksLeft (D.next w a) p < D.ticksLeft w p →
      ∃ a w', a.ticks p = true ∧ D.system.step w a = some w'
        ∧ D.ticksLeft w' p < D.ticksLeft w p ∧ D.Settling p word w' :=
    fun a hticks ha hless =>
      ⟨a, D.next w a, hticks, step_eq_some.mpr ⟨ha, rfl⟩, hless, h.ticks hQ ha hticks⟩
  cases htick : (w.proc p).tick with
  | idle =>
      refine htake (.tickPop p) (by simp [Action.ticks]) (by simp [enabled, h.running, htick]) ?_
      obtain ⟨hhead, htail⟩ := pop_debug hQ hlevel (D.common p)
      have hafter : ofType msgTypeDebug
          (D.queue.pending (D.next w (.tickPop p)).shm (D.common p)) = _ := htail
      have hnew : ((D.next w (.tickPop p)).proc p).tick = _ := World.setTick_tick_self ..
      unfold ticksLeft at hleft ⊢
      rw [hafter, hnew, hhead]
      rw [htick] at hleft ⊢
      cases hqueue : ofType msgTypeDebug (D.queue.pending w.shm (D.common p)) with
      | nil =>
          rw [hqueue] at hleft
          exact absurd rfl hleft
      | cons m rest =>
          simp only [List.tail_cons, List.head?_cons, List.length_cons]
          omega
  | popped msg =>
      refine htake (.tickCheck p) (by simp [Action.ticks]) (by simp [enabled, htick]) ?_
      have hqueued := ofType_debug_next hQ hw (a := .tickCheck p) (p := p) rfl (by simp)
      have hnew : ((D.next w (.tickCheck p)).proc p).tick = .checked msg := by
        simp only [next, htick, World.setTick_tick_self]
      unfold ticksLeft
      rw [hqueued, hnew, htick]
      simp only
      omega
  | checked msg =>
      refine htake (.tickPush p) (by simp [Action.ticks]) (by simp [enabled, htick]) ?_
      have hqueued := ofType_debug_next hQ hw (a := .tickPush p) (p := p) rfl (by simp)
      have hnew : ((D.next w (.tickPush p)).proc p).tick = .idle := by
        simp only [next, htick, World.setTick_tick_self]
      unfold ticksLeft
      rw [hqueued, hnew, htick]
      simp only
      omega

/-- **The processes come to agree with the word.** A run in which `p` answers
as many requests as it had and as were broadcast ends, no call publishing,
with the debug stream of `p` registered exactly if the word is 1. From any
reachable state without a call publishing, `p` comes to that by the steps of
its timer handler alone, three for each request it has. -/
theorem processes_converge (hQ : D.queue.Fifo) {w : World Proc Ctl Shm}
    (hw : D.system.Reachable w) {p : Proc} (hp : D.common p ∈ D.queue.names w.shm) :
    (∀ l w', D.system.run w l = some w' →
        D.backlog w p + l.countP Action.broadcasts ≤ l.count (.tickPush p) →
        (w'.proc p).running = true → ¬SomePublishing w' → Synced w' p)
      ∧ ((w.proc p).running = true → ¬SomePublishing w →
        ∃ l w', D.system.run w l = some w'
          ∧ D.system.Meets (fun _ a => a.ticks p = true) w l
          ∧ l.length ≤ 3 * D.backlog w p ∧ Synced w' p ∧ w'.word = w.word) := by
  constructor
  · intro l w' h hanswered hrun hcalls
    have hcount := backlog_run hQ ⟨hw, hp⟩ h
    exact synced_of_backlog hQ (hw.run h) hrun hcalls (by omega)
  · intro hrun hcalls
    have hstart : D.Settling p w.word w := ⟨⟨hw, hp⟩, hrun, hcalls, rfl⟩
    obtain ⟨l, w', h, hmeets, hlen, hend, hsettled⟩ :=
      Lts.exhaust (fun _ hi hleft => hi.progress hQ hleft) hstart
    refine ⟨l, w', h, hmeets, hlen.trans (ticksLeft_le w p), ?_, hsettled.word⟩
    exact synced_of_backlog hQ hsettled.asked.1 hsettled.running hsettled.calls
      (backlog_of_ticksLeft hend)

theorem processes_converge_second :
    twoProcesses.backlog asked .second = 1
      ∧ ∃ l w', twoProcesses.system.run asked l = some w'
        ∧ twoProcesses.system.Meets (fun _ a => a.ticks .second = true) asked l
        ∧ l.length ≤ 3 * twoProcesses.backlog asked .second ∧ Synced w' .second
        ∧ w'.word = asked.word :=
  ⟨by decide +kernel, (processes_converge Boxes.queue_fifo asked_reachable
    (by decide +kernel)).2 (by decide +kernel) (by unfold SomePublishing; decide +kernel)⟩

end Deployment

end JustCommon
