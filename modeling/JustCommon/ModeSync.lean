import JustCommon.System

/-!
# No debug-mode change is lost

The debug word and the wake-up message are two channels, written in two
steps. What connects them is `Heard`: a running process either has its
debug stream registered as the word says, or it will look at the word
again, because a request is queued for it, or it popped one and has not
checked yet, or some caller has stored and not yet broadcast. Every action
keeps `Heard`: a store makes the last alternative true for everybody, the
broadcast that ends it puts a request into every queue there is, and a
check re-establishes the first.
-/

namespace JustCommon

open Debuger ConfigMgr MessageQueue

/-- The caller is between its store and the return of its broadcast. -/
def Call.Publishing : Call → Prop
  | .stored => True
  | .cleared => True
  | _ => False

instance : DecidablePred Call.Publishing
  | .idle => .isFalse id
  | .stored => .isTrue trivial
  | .cleared => .isTrue trivial
  | .waiting _ _ => .isFalse id

variable {Proc Ctl Shm : Type} [DecidableEq Proc] [DecidableEq Ctl]

/-! ## The operations on a debuger -/

namespace World

/-- The operation on a constructed `Debuger` an action is, and whose. -/
def debugerOp (w : World Proc Ctl Shm) :
    Action Proc Ctl → Option (Proc × (Debuger → Debuger × List LoggerCall))
  | .startup p => some (p, fun d => d.startup w.word w.word)
  | .shutdown p => some (p, Debuger.shutdown)
  | .setLogHook p hook level => some (p, fun d => d.setLogHook hook level)
  | .tickCheck p =>
      match (w.proc p).tick with
      | .popped _ => some (p, fun d => d.checkDebugMode w.word w.word)
      | _ => none
  | _ => none

/-- The `Debuger` of `p` and the streams of its logger, from `w` to `w'`:
untouched, or one operation further. -/
def DebugerStep (w w' : World Proc Ctl Shm) (a : Action Proc Ctl) (p : Proc) : Prop :=
  ((w'.proc p).debuger = (w.proc p).debuger ∧ (w'.proc p).streams = (w.proc p).streams
    ∧ ∀ op, w.debugerOp a = some (p, op) → (w.proc p).debuger = none)
  ∨ ∃ d op, w.debugerOp a = some (p, op) ∧ (w.proc p).debuger = some d
      ∧ (w'.proc p).debuger = some (op d).1
      ∧ (w'.proc p).streams = (w.proc p).streams.applyAll (op d).2

omit [DecidableEq Ctl] in
theorem DebugerStep.of_debuger {w w' : World Proc Ctl Shm} {a : Action Proc Ctl}
    {p q : Proc} {op : Debuger → Debuger × List LoggerCall}
    (hop : w.debugerOp a = some (q, op))
    (hd : (w'.proc p).debuger = ((w.debuger q op).proc p).debuger)
    (hs : (w'.proc p).streams = ((w.debuger q op).proc p).streams) :
    DebugerStep w w' a p := by
  by_cases hp : p = q
  · subst hp
    cases hold : (w.proc p).debuger with
    | some d =>
        rw [debuger_proc_self hold] at hd hs
        exact Or.inr ⟨d, op, hop, hold, hd, hs⟩
    | none =>
        have hsame : w.debuger p op = w := by unfold debuger; rw [hold]
        rw [hsame] at hd hs
        exact Or.inl ⟨hd, hs, fun _ _ => hold⟩
  · rw [debuger_proc_ne w hp] at hd hs
    refine Or.inl ⟨hd, hs, fun op' hop' => ?_⟩
    rw [hop] at hop'
    exact absurd (congrArg Prod.fst (Option.some.inj hop')).symm hp

end World

namespace Deployment

variable {D : Deployment Proc Ctl Shm}

/-- An action that does not construct the `Debuger` of `p` does at most one
operation on it. -/
theorem next_debugerStep (w : World Proc Ctl Shm) {a : Action Proc Ctl} {p : Proc}
    (hmade : a ≠ .construct p) : World.DebugerStep w (D.next w a) a p := by
  have same : ∀ {w' : World Proc Ctl Shm}, w.debugerOp a = none →
      (w'.proc p).debuger = (w.proc p).debuger →
      (w'.proc p).streams = (w.proc p).streams → World.DebugerStep w w' a p := by
    intro w' hop hd hs
    exact Or.inl ⟨hd, hs, fun op hop' => by rw [hop] at hop'; cases hop'⟩
  cases a with
  | openCommon q => exact same rfl rfl rfl
  | construct q =>
      have hp : p ≠ q := fun hp => hmade (by rw [hp])
      refine same rfl ?_ ?_ <;>
        simp only [next, World.noteCheck, Function.update_of_ne hp]
  | startup q => exact World.DebugerStep.of_debuger rfl rfl rfl
  | shutdown q => exact World.DebugerStep.of_debuger rfl rfl rfl
  | setLogHook q hook level => exact World.DebugerStep.of_debuger rfl rfl rfl
  | tickPop q => exact same rfl (World.setTick_debuger ..) (World.setTick_streams ..)
  | tickCheck q =>
      cases htick : (w.proc q).tick with
      | idle =>
          have hn : D.next w (.tickCheck q) = w := by simp only [next, htick]
          rw [hn]
          exact same (by simp only [World.debugerOp, htick]) rfl rfl
      | checked msg =>
          have hn : D.next w (.tickCheck q) = w := by simp only [next, htick]
          rw [hn]
          exact same (by simp only [World.debugerOp, htick]) rfl rfl
      | popped msg =>
          have hop : w.debugerOp (.tickCheck q : Action Proc Ctl)
              = some (q, fun d => d.checkDebugMode w.word w.word) := by
            simp only [World.debugerOp, htick]
          refine World.DebugerStep.of_debuger hop ?_ ?_ <;>
            simp only [next, htick, World.setTick_debuger, World.setTick_streams,
              World.noteCheck]
  | tickPush q =>
      simp only [next]
      split
      · exact same rfl (World.setTick_debuger ..) (World.setTick_streams ..)
      · exact same rfl rfl rfl
  | store c bdebug =>
      simp only [next]
      split <;> exact same rfl rfl rfl
  | clear c => exact same rfl rfl rfl
  | broadcast c => exact same rfl rfl rfl
  | awaitAck c =>
      simp only [next]
      split <;> exact same rfl rfl rfl
  | leave c => exact same rfl rfl rfl
  | log q buffers => exact same rfl rfl rfl
  | getDebugMsg q module level => exact same rfl rfl rfl
  | setConfig q args => exact same rfl rfl rfl
  | configTick q =>
      simp only [next]
      split
      · exact same rfl (World.setConfig_debuger ..) (World.setConfig_streams ..)
      · exact same rfl rfl rfl

theorem next_construct (w : World Proc Ctl Shm) (p : Proc) :
    ((D.next w (.construct p)).proc p).debuger
        = some (Debuger.construct false true w.word w.word).1
      ∧ ((D.next w (.construct p)).proc p).streams = (w.proc p).streams.applyAll
          (Debuger.construct false true w.word w.word).2 := by
  simp only [next, World.noteCheck, Function.update_self, and_self]

theorem next_word (w : World Proc Ctl Shm) (a : Action Proc Ctl) :
    (D.next w a).word = w.word
      ∨ ∃ c bdebug d word, a = .store c bdebug ∧ (w.proc (D.home c)).debuger = some d
          ∧ d.storeDebugMode bdebug = some word ∧ (D.next w a).word = word := by
  cases a with
  | store c bdebug =>
      simp only [next]
      split
      · rename_i word hword
        obtain ⟨d, hd, hstore⟩ := Option.bind_eq_some_iff.mp hword
        exact Or.inr ⟨c, bdebug, d, word, rfl, hd, hstore, rfl⟩
      · exact Or.inl rfl
  | tickCheck p =>
      simp only [next]
      split <;> exact Or.inl rfl
  | tickPush p =>
      simp only [next]
      split <;> exact Or.inl rfl
  | awaitAck c =>
      simp only [next]
      split <;> exact Or.inl rfl
  | configTick p =>
      simp only [next]
      split <;> exact Or.inl rfl
  | _ => exact Or.inl rfl

/-! ## What holds of every constructed debuger -/

variable (D) in
/-- The word holds a value `change_debug_mode` stores; a constructed `Debuger`
has its queues, its pointer, and its flag set if its stream is registered. -/
structure Sound (w : World Proc Ctl Shm) : Prop where
  word : w.word = 0 ∨ w.word = 1
  common : ∀ {p d}, (w.proc p).debuger = some d → D.common p ∈ D.queue.names w.shm
  own : ∀ {p d}, (w.proc p).debuger = some d → D.own p ∈ D.queue.names w.shm
  pointer : ∀ {p d}, (w.proc p).debuger = some d → d.debugMode = true
  streamed : ∀ {p d}, (w.proc p).debuger = some d → Streamed (w.proc p).streams d
  unmade : ∀ {p}, (w.proc p).debuger = none → (w.proc p).streams .debug = false

omit [DecidableEq Proc] [DecidableEq Ctl] in
theorem Initial.sound {w : World Proc Ctl Shm} (h : D.Initial w) : D.Sound w where
  word := h.word
  common {p d} hd := by rw [h.debuger p] at hd; cases hd
  own {p d} hd := by rw [h.debuger p] at hd; cases hd
  pointer {p d} hd := by rw [h.debuger p] at hd; cases hd
  streamed {p d} hd := by rw [h.debuger p] at hd; cases hd
  unmade {p} _ := h.streams p .debug

omit [DecidableEq Proc] [DecidableEq Ctl] in
/-- Every operation keeps the pointer, and the flag that `shutdown` tests. -/
theorem debugerOp_keeps {w : World Proc Ctl Shm} {a : Action Proc Ctl} {p : Proc}
    {op : Debuger → Debuger × List LoggerCall} (hop : w.debugerOp a = some (p, op))
    {held : Streams} {d : Debuger} (hptr : d.debugMode = true) (hs : Streamed held d) :
    (op d).1.debugMode = true ∧ Streamed (held.applyAll (op d).2) (op d).1 := by
  cases a with
  | startup q =>
      obtain ⟨-, rfl⟩ := Prod.mk.inj (Option.some.inj hop)
      refine ⟨by simpa [startup] using hptr, ?_⟩
      exact checkDebugMode_streamed (d := { d with timer := true }) w.word w.word hs
  | shutdown q =>
      obtain ⟨-, rfl⟩ := Prod.mk.inj (Option.some.inj hop)
      exact ⟨hptr, shutdown_streamed hs⟩
  | setLogHook q hook level =>
      obtain ⟨-, rfl⟩ := Prod.mk.inj (Option.some.inj hop)
      obtain ⟨hheld, hstream, hout⟩ := setLogHook_debug held d hook level
      refine ⟨by simpa using hptr, fun hreg => ?_⟩
      rw [hstream, hout]
      exact hs (hheld ▸ hreg)
  | tickCheck q =>
      simp only [World.debugerOp] at hop
      split at hop
      · obtain ⟨-, rfl⟩ := Prod.mk.inj (Option.some.inj hop)
        exact ⟨by simpa using hptr, checkDebugMode_streamed w.word w.word hs⟩
      · cases hop
  | _ => cases hop

theorem Sound.step (hQ : D.queue.Fifo) {w : World Proc Ctl Shm} {a : Action Proc Ctl}
    (h : D.Sound w) (ha : D.enabled w a = true) : D.Sound (D.next w a) := by
  have hstep : ∀ p, a ≠ .construct p → World.DebugerStep w (D.next w a) a p :=
    fun p hp => next_debugerStep w hp
  -- what `construct` makes, from a process that holds no debug stream
  have hnew : ∀ p, a = .construct p →
      D.common p ∈ D.queue.names w.shm ∧ (w.proc p).debuger = none := by
    rintro p rfl
    simpa [enabled] using ha
  have hmade : ∀ {held : Streams}, held .debug = false →
      Streamed (held.applyAll (Debuger.construct false true w.word w.word).2)
        (Debuger.construct false true w.word w.word).1 := by
    intro held hheld
    refine checkDebugMode_streamed w.word w.word ?_
    intro hreg
    rw [hheld] at hreg
    cases hreg
  refine ⟨?_, ?_, ?_, ?_, ?_, ?_⟩
  · rcases next_word w a with hw | ⟨c, bdebug, d, word, -, -, hstore, hw⟩
    · rw [hw]
      exact h.word
    · rw [hw]
      unfold storeDebugMode at hstore
      cases hptr : d.debugMode <;> cases bdebug <;> simp [hptr] at hstore <;>
        simp [← hstore]
  · intro p d hd
    refine names_next hQ a ?_
    by_cases hp : a = .construct p
    · exact (hnew p hp).1
    · rcases hstep p hp with ⟨hsame, -⟩ | ⟨d₀, op, -, hold, -⟩
      · exact h.common (hsame ▸ hd)
      · exact h.common hold
  · intro p d hd
    by_cases hp : a = .construct p
    · subst hp
      simp only [next, World.noteCheck, hQ.names_attach]
      exact Finset.mem_insert_self _ _
    · refine names_next hQ a ?_
      rcases hstep p hp with ⟨hsame, -⟩ | ⟨d₀, op, -, hold, -⟩
      · exact h.own (hsame ▸ hd)
      · exact h.own hold
  · intro p d hd
    by_cases hp : a = .construct p
    · subst hp
      rw [(next_construct w p).1] at hd
      rw [← Option.some.inj hd]
      simp [Debuger.construct]
    · rcases hstep p hp with ⟨hsame, -⟩ | ⟨d₀, op, hop, hold, hnew', -⟩
      · exact h.pointer (hsame ▸ hd)
      · rw [hnew'] at hd
        rw [← Option.some.inj hd]
        exact (debugerOp_keeps hop (h.pointer hold) (h.streamed hold)).1
  · intro p d hd
    by_cases hp : a = .construct p
    · subst hp
      rw [(next_construct w p).1] at hd
      rw [(next_construct w p).2, ← Option.some.inj hd]
      exact hmade (h.unmade (hnew p rfl).2)
    · rcases hstep p hp with ⟨hsame, hs, -⟩ | ⟨d₀, op, hop, hold, hnew', hs⟩
      · rw [hs]
        exact h.streamed (hsame ▸ hd)
      · rw [hnew'] at hd
        rw [hs, ← Option.some.inj hd]
        exact (debugerOp_keeps hop (h.pointer hold) (h.streamed hold)).2
  · intro p hd
    by_cases hp : a = .construct p
    · subst hp
      rw [(next_construct w p).1] at hd
      cases hd
    · rcases hstep p hp with ⟨hsame, hs, -⟩ | ⟨d₀, op, -, -, hnew', -⟩
      · rw [hs]
        exact h.unmade (hsame ▸ hd)
      · rw [hnew'] at hd
        cases hd

/-! ## Every running process hears of the word -/

def Synced (w : World Proc Ctl Shm) (p : Proc) : Prop :=
  (w.proc p).streams .debug = true ↔ w.word = 1

variable (D) in
/-- A request is queued for `p`. -/
def Requested (w : World Proc Ctl Shm) (p : Proc) : Prop :=
  ∃ m ∈ D.queue.pending w.shm (D.common p), m.type = msgTypeDebug

def Popped (w : World Proc Ctl Shm) (p : Proc) : Prop :=
  ∃ m, (w.proc p).tick = .popped m

def SomePublishing (w : World Proc Ctl Shm) : Prop :=
  ∃ c, (w.call c).Publishing

variable (D) in
/-- `p` has yet to look at the word. -/
def Due (w : World Proc Ctl Shm) (p : Proc) : Prop :=
  D.Requested w p ∨ Popped w p ∨ SomePublishing w

variable (D) in
def Heard (w : World Proc Ctl Shm) (p : Proc) : Prop :=
  (w.proc p).running = true → Synced w p ∨ D.Due w p

/-- A request for `p` stays queued until a tick of `p` pops. -/
theorem Requested.step (hQ : D.queue.Fifo) {w : World Proc Ctl Shm}
    {a : Action Proc Ctl} {p : Proc} (h : D.Requested w p) (ha : a ≠ .tickPop p) :
    D.Requested (D.next w a) p := by
  obtain ⟨m, hm, htype⟩ := h
  refine ⟨m, ?_, htype⟩
  rw [next_shm]
  cases hcall : D.queueCall w a with
  | none => exact hm
  | some call =>
      refine hQ.mem_perform hm ?_
      -- no other pop is from the queue of `p` and accepts a request
      cases calls_of_queueCall hcall with
      | tickPop q =>
          rintro ⟨hq, -⟩
          exact ha (by rw [D.common_inj hq])
      | configTick q =>
          rintro ⟨-, hacc⟩
          have htype' := accepts_type hacc
          rw [htype] at htype'
          cases htype'
      | clear c => exact fun hq => D.common_ne_own _ _ hq.symm
      | awaitAck c => exact fun hq => D.common_ne_own _ _ hq.1.symm
      | getDebugMsg q module level => exact fun hq => D.common_ne_own _ _ hq.1.symm
      | _ => exact id

/-- A popped request is kept until the check. -/
theorem Popped.step {w : World Proc Ctl Shm} {a : Action Proc Ctl} {p : Proc}
    (h : Popped w p) (ha : D.enabled w a = true) (hcheck : a ≠ .tickCheck p) :
    Popped (D.next w a) p := by
  obtain ⟨m, hm⟩ := h
  rcases next_tick (D := D) w a p with hsame | ⟨rfl, -⟩ | ⟨_, rfl, -⟩ | ⟨_, -, htick, -⟩
  · exact ⟨m, hsame.trans hm⟩
  · simp [enabled, hm] at ha
  · exact absurd rfl hcheck
  · rw [hm] at htick
    cases htick

/-- A call that has stored stays publishing until its broadcast. -/
theorem SomePublishing.step {w : World Proc Ctl Shm} {a : Action Proc Ctl}
    (h : SomePublishing w) (ha : D.enabled w a = true)
    (hbroadcast : ∀ c, a ≠ .broadcast c) : SomePublishing (D.next w a) := by
  obtain ⟨c, hc⟩ := h
  refine ⟨c, ?_⟩
  rcases next_call (D := D) w a c with hsame | ⟨_, -, hstored⟩ | ⟨-, hcleared⟩ | ⟨rfl, -⟩ |
      ⟨number, timeOut, -, hwaiting, -⟩ | ⟨rfl, -⟩
  · rw [hsame]
    exact hc
  · rw [hstored]
    trivial
  · rw [hcleared]
    trivial
  · exact absurd rfl (hbroadcast c)
  · rw [hwaiting] at hc
    cases hc
  · -- a call that is publishing is not in its wait loop
    cases hcall : w.call c with
    | waiting number timeOut => rw [hcall] at hc; cases hc
    | _ => simp [enabled, hcall] at ha

/-- The broadcast that ends a publication asks every constructed `Debuger`. -/
theorem broadcast_requested (hQ : D.queue.Fifo) {w : World Proc Ctl Shm} {p : Proc}
    (hp : D.common p ∈ D.queue.names w.shm) (c : Ctl) :
    D.Requested (D.next w (.broadcast c)) p := by
  have hreach : debugMessage.reaches (D.own (D.home c)) (D.common p) = true := by
    simpa [Message.reaches, debugMessage] using D.common_ne_own p (D.home c)
  refine ⟨D.queue.stamp w.shm (D.own (D.home c)) debugMessage, ?_, rfl⟩
  simp only [next, World.setCall, hQ.pending_push, if_pos (And.intro hp hreach)]
  exact List.mem_append_right _ (List.mem_singleton_self _)

theorem tickPop_due (hQ : D.queue.Fifo) {w : World Proc Ctl Shm} {p : Proc}
    (h : D.Requested w p) : D.Due (D.next w (.tickPop p)) p := by
  cases hpop : (D.queue.pop w.shm (D.common p) debugMessage).1 with
  | some m => exact Or.inr (Or.inl ⟨m, by simp [next, hpop]⟩)
  | none =>
      obtain ⟨m, hm, htype⟩ := h
      refine Or.inl ⟨m, ?_, htype⟩
      simp only [next, World.setTick]
      rw [hQ.pending_pop_none hpop]
      exact hm

theorem Due.step (hQ : D.queue.Fifo) {w : World Proc Ctl Shm} {a : Action Proc Ctl}
    {p : Proc} (h : D.Due w p) (ha : D.enabled w a = true)
    (hp : D.common p ∈ D.queue.names w.shm) (hcheck : a ≠ .tickCheck p) :
    D.Due (D.next w a) p := by
  rcases h with hreq | hpop | hpub
  · by_cases hpop : a = .tickPop p
    · subst hpop
      exact tickPop_due hQ hreq
    · exact Or.inl (hreq.step hQ hpop)
  · exact Or.inr (Or.inl (hpop.step ha hcheck))
  · by_cases hb : ∃ c, a = .broadcast c
    · obtain ⟨c, rfl⟩ := hb
      exact Or.inl (broadcast_requested hQ hp c)
    · exact Or.inr (Or.inr (hpub.step ha fun c hc => hb ⟨c, hc⟩))

/-- A process whose streams an action leaves alone stays as the word says,
unless the word is stored to. -/
theorem Synced.step {w : World Proc Ctl Shm} {a : Action Proc Ctl} {p : Proc}
    (h : Synced w p)
    (hs : ((D.next w a).proc p).streams .debug = (w.proc p).streams .debug) :
    Synced (D.next w a) p ∨ D.Due (D.next w a) p := by
  rcases next_word (D := D) w a with hw | ⟨c, bdebug, d, word, rfl, hd, hstore, -⟩
  · left
    unfold Synced at h ⊢
    rw [hs, hw]
    exact h
  · right
    refine Or.inr (Or.inr ⟨c, ?_⟩)
    simp [next, hd, hstore, World.setCall, Call.Publishing]

omit [DecidableEq Proc] [DecidableEq Ctl] in
theorem running_iff {w : World Proc Ctl Shm} {p : Proc} :
    (w.proc p).running = true ↔ ∃ d, (w.proc p).debuger = some d ∧ d.timer = true := by
  simp [Process.running, Option.any_eq_true]

omit [DecidableEq Proc] [DecidableEq Ctl] in
/-- What an operation on the `Debuger` of `p` does to `Heard`: a check makes
the stream what the word says, a shut down process does not run, and
`set_log_hook` does not touch the stream. -/
theorem Heard.op {w : World Proc Ctl Shm} {a : Action Proc Ctl} {p : Proc}
    {op : Debuger → Debuger × List LoggerCall} {d : Debuger} (hw : D.Sound w)
    (hop : w.debugerOp a = some (p, op)) (hd : (w.proc p).debuger = some d)
    (htimer : (op d).1.timer = true) :
    ((w.proc p).streams.applyAll (op d).2 .debug = true ↔ w.word = 1)
      ∨ ∃ hook level, a = .setLogHook p hook level ∧ d.timer = true
          ∧ (w.proc p).streams.applyAll (op d).2 .debug = (w.proc p).streams .debug := by
  have hptr := hw.pointer hd
  have hs := hw.streamed hd
  cases a with
  | startup q =>
      obtain ⟨rfl, rfl⟩ := Prod.mk.inj (Option.some.inj hop)
      exact Or.inl (checkDebugMode_synced (d := { d with timer := true }) hptr hw.word hs).2
  | shutdown q =>
      obtain ⟨rfl, rfl⟩ := Prod.mk.inj (Option.some.inj hop)
      cases htimer
  | setLogHook q hook level =>
      obtain ⟨rfl, rfl⟩ := Prod.mk.inj (Option.some.inj hop)
      exact Or.inr ⟨hook, level, rfl, by simpa using htimer,
        (setLogHook_debug _ d hook level).1⟩
  | tickCheck q =>
      simp only [World.debugerOp] at hop
      split at hop
      · obtain ⟨rfl, rfl⟩ := Prod.mk.inj (Option.some.inj hop)
        exact Or.inl (checkDebugMode_synced hptr hw.word hs).2
      · cases hop
  | _ => cases hop

theorem Heard.step (hQ : D.queue.Fifo) {w : World Proc Ctl Shm} {a : Action Proc Ctl}
    {p : Proc} (hw : D.Sound w) (h : D.Heard w p) (ha : D.enabled w a = true) :
    D.Heard (D.next w a) p := by
  intro hrun
  obtain ⟨d', hd', htimer⟩ := running_iff.mp hrun
  by_cases hmade : a = .construct p
  · -- a `Debuger` is constructed without its timer
    subst hmade
    rw [(next_construct w p).1] at hd'
    rw [← Option.some.inj hd'] at htimer
    simp [Debuger.construct] at htimer
  rcases next_debugerStep (D := D) w hmade with ⟨hsame, hs, hno⟩ | ⟨d, op, hop, hd, hnew, hs⟩
  · rw [hsame] at hd'
    have hcheck : ¬(a = .tickCheck p ∧ Popped w p) := by
      rintro ⟨rfl, m, hm⟩
      have hnone := hno (fun d => d.checkDebugMode w.word w.word)
        (by simp only [World.debugerOp, hm])
      rw [hnone] at hd'
      cases hd'
    rcases h (running_iff.mpr ⟨d', hd', htimer⟩) with hsync | hdue
    · exact hsync.step (by rw [hs])
    · by_cases hc : a = .tickCheck p
      · subst hc
        cases htick : (w.proc p).tick with
        | popped m => exact absurd ⟨rfl, m, htick⟩ hcheck
        | idle => simp [enabled, htick] at ha
        | checked m => simp [enabled, htick] at ha
      · exact Or.inr (hdue.step hQ ha (hw.common hd') hc)
  · rw [hnew] at hd'
    rw [← Option.some.inj hd'] at htimer
    rcases Heard.op hw hop hd htimer with hsync | ⟨hook, level, rfl, htimer₀, hdebug⟩
    · left
      unfold Synced
      rw [hs]
      rcases next_word (D := D) w a with hword | ⟨c, bdebug, _, _, rfl, -⟩
      · rw [hword]
        exact hsync
      · cases hop
    · rw [← hs] at hdebug
      rcases h (running_iff.mpr ⟨d, hd, htimer₀⟩) with hsync | hdue
      · exact hsync.step hdebug
      · exact Or.inr (hdue.step hQ ha (hw.common hd) (by simp))

theorem sound_heard (hQ : D.queue.Fifo) {w : World Proc Ctl Shm}
    (hw : D.system.Reachable w) : D.Sound w ∧ ∀ p, D.Heard w p := by
  refine Lts.Reachable.invariant (I := fun w => D.Sound w ∧ ∀ p, D.Heard w p) ?_ ?_ hw
  · intro w₀ h₀
    refine ⟨Initial.sound h₀, fun p hrun => ?_⟩
    obtain ⟨d, hd, -⟩ := running_iff.mp hrun
    rw [Initial.debuger h₀ p] at hd
    cases hd
  · intro w a w' _ h hstep
    obtain ⟨ha, rfl⟩ := step_eq_some.mp hstep
    exact ⟨h.1.step hQ ha, fun p => Heard.step hQ h.1 (h.2 p) ha⟩

/-- **No debug-mode change is lost.** In every reachable state with no caller
between its store and the return of its broadcast, a started process that is
not in its timer handler and has no request queued has its debug stream
registered exactly if the word is 1. -/
theorem mode_change_not_lost (hQ : D.queue.Fifo) {w : World Proc Ctl Shm}
    (hw : D.system.Reachable w) (hcalls : ∀ c, ¬(w.call c).Publishing) {p : Proc}
    (hrun : (w.proc p).running = true) (htick : (w.proc p).tick = .idle)
    (hqueue : ∀ m ∈ D.queue.pending w.shm (D.common p), m.type ≠ msgTypeDebug) :
    (w.proc p).streams .debug = true ↔ w.word = 1 := by
  rcases (sound_heard hQ hw).2 p hrun with hsync | ⟨m, hm, htype⟩ | ⟨m, hm⟩ | ⟨c, hc⟩
  · exact hsync
  · exact absurd htype (hqueue m hm)
  · rw [hm] at htick
    cases htick
  · exact absurd hc (hcalls c)

open twoProcesses in
/-- Both processes were asked and the first has ticked. -/
def switchedOn : World Host Unit Boxes :=
  after (fun _ _ => true) start (boot ++ publish true ++ tick .first)

theorem switchedOn_reachable : twoProcesses.system.Reachable switchedOn :=
  ⟨twoProcesses.start, twoProcesses.start_initial,
    twoProcesses.path_after (fun _ _ _ => trivial) (by decide +kernel)⟩

theorem mode_change_not_lost_switched_on :
    (switchedOn.proc .first).streams .debug = true ∧ switchedOn.word = 1 := by
  have hword : switchedOn.word = 1 := by decide +kernel
  exact ⟨(mode_change_not_lost Boxes.queue_fifo switchedOn_reachable (by decide +kernel)
    (by decide +kernel) (by decide +kernel) (by decide +kernel)).mpr hword, hword⟩

end Deployment

end JustCommon
