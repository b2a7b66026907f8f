import JustCommon.System

/-!
# What becomes of a `set_config` call

Two results about the configuration of one process. Over any queue that
neither alters nor duplicates messages, every value that is set was sent,
for its own section and key, and set once. Over lossless ordered queues,
the configuration of a process that has caught up is the one that was sent
if and only if no field of it contains the separator: a call with such a
field is decoded into more than three pieces and dropped.

Both rest on one count: what was set so far and what is still queued is
what was sent. `Watch` is where the counting starts.
-/

namespace JustCommon

open Debuger ConfigMgr MessageQueue

variable {Proc Ctl Shm : Type} [DecidableEq Proc] [DecidableEq Ctl]

namespace Deployment

variable (D : Deployment Proc Ctl Shm)

/-- The `set_config` calls made so far that are for `p`: by its name, or by a
broadcast from another queue. -/
def addressed (w : World Proc Ctl Shm) (p : Proc) : List SetConfig :=
  (w.sent.filter fun call => call.2.message.reaches call.1 (D.common p)).map Prod.snd

/-- The configuration messages queued for `p`. -/
def configs (w : World Proc Ctl Shm) (p : Proc) : List Message :=
  ofType msgTypeConfig (D.queue.pending w.shm (D.common p))

/-- No call was made yet and none is queued for `p`. -/
structure Watch (w : World Proc Ctl Shm) (p : Proc) : Prop where
  sent : w.sent = []
  applied : w.applied p = []
  configs : D.configs w p = []

variable {D}

/-! ## What one action does -/

omit [DecidableEq Proc] [DecidableEq Ctl] in
/-- Only `set_config` adds configuration messages, and only the process itself
takes them. -/
theorem queueCall_spares {w : World Proc Ctl Shm} {a : Action Proc Ctl} {p : Proc}
    (hset : ∀ q args, a ≠ .setConfig q args) (htick : a ≠ .configTick p)
    {call : QueueCall} (hcall : D.queueCall w a = some call) :
    call.Spares (D.common p) msgTypeConfig := by
  cases calls_of_queueCall hcall with
  | openCommon q => trivial
  | construct q => trivial
  | tickPop q => exact Or.inr (by decide)
  | tickPush _ =>
      show msgTypeDebug ≠ msgTypeConfig
      decide
  | clear c => exact (D.common_ne_own _ _).symm
  | broadcast c =>
      show msgTypeDebug ≠ msgTypeConfig
      decide
  | awaitAck c => exact Or.inr (by decide)
  | log q buffers =>
      show msgTypeLog ≠ msgTypeConfig
      decide
  | getDebugMsg q module level => exact Or.inl (D.common_ne_own _ _).symm
  | setConfig q args => exact absurd rfl (hset q args)
  | configTick q => exact Or.inl fun hq => htick (by rw [D.common_inj hq])

theorem next_sent {w : World Proc Ctl Shm} {a : Action Proc Ctl}
    (hset : ∀ q args, a ≠ .setConfig q args) : (D.next w a).sent = w.sent := by
  cases a with
  | setConfig q args => exact absurd rfl (hset q args)
  | tickCheck q =>
      simp only [next]
      split <;> rfl
  | tickPush q =>
      simp only [next]
      split <;> rfl
  | store c bdebug =>
      simp only [next]
      split <;> rfl
  | awaitAck c =>
      simp only [next]
      split <;> rfl
  | configTick q =>
      simp only [next]
      split <;> rfl
  | _ => rfl

/-- A configuration is changed by the tick of its own process only. -/
theorem next_config {w : World Proc Ctl Shm} {a : Action Proc Ctl} {p : Proc}
    (htick : a ≠ .configTick p) :
    (D.next w a).applied p = w.applied p
      ∧ ((D.next w a).proc p).config = (w.proc p).config := by
  cases a with
  | construct q =>
      by_cases hp : p = q
      · subst hp
        simp [next, World.noteCheck]
      · simp [next, World.noteCheck, hp]
  | startup q => exact ⟨rfl, World.debuger_config ..⟩
  | shutdown q => exact ⟨rfl, World.debuger_config ..⟩
  | setLogHook q hook level => exact ⟨rfl, World.debuger_config ..⟩
  | tickPop q => exact ⟨rfl, World.setTick_config ..⟩
  | tickCheck q =>
      simp only [next]
      split
      · exact ⟨rfl, by simp only [World.setTick_config, World.noteCheck_proc,
          World.debuger_config]⟩
      · exact ⟨rfl, rfl⟩
  | tickPush q =>
      simp only [next]
      split
      · exact ⟨rfl, World.setTick_config ..⟩
      · exact ⟨rfl, rfl⟩
  | store c bdebug =>
      simp only [next]
      split <;> exact ⟨rfl, rfl⟩
  | awaitAck c =>
      simp only [next]
      split <;> exact ⟨rfl, rfl⟩
  | configTick q =>
      have hp : p ≠ q := fun hp => htick (by rw [hp])
      simp only [next]
      split
      · simp [World.setConfig, hp]
      · exact ⟨rfl, rfl⟩
  | _ => exact ⟨rfl, rfl⟩

/-- A tick sets what the message it popped decodes to. -/
theorem next_configTick (w : World Proc Ctl Shm) (p : Proc) :
    (D.next w (.configTick p)).applied p = w.applied p
        ++ ((D.queue.pop w.shm (D.common p) ConfigMgr.filter).1.bind
          (decoded D.slice)).toList
      ∧ ((D.next w (.configTick p)).proc p).config = setAll (w.proc p).config
          ((D.queue.pop w.shm (D.common p) ConfigMgr.filter).1.bind
            (decoded D.slice)).toList := by
  simp only [next]
  cases (D.queue.pop w.shm (D.common p) ConfigMgr.filter).1 with
  | some m =>
      refine ⟨by simp [World.setConfig], ?_⟩
      simp [World.setConfig, handle_eq_setAll]
  | none => simp [setAll]

theorem addressed_setConfig (w : World Proc Ctl Shm) (q : Proc) (args : SetConfig)
    (p : Proc) : D.addressed (D.next w (.setConfig q args)) p = D.addressed w p
      ++ if args.message.reaches (D.common q) (D.common p) = true then [args] else [] := by
  simp only [addressed, next, List.filter_append, List.map_append]
  congr 1
  by_cases hr : args.message.reaches (D.common q) (D.common p) = true
  · simp [hr]
  · simp [hr]

theorem filterMap_cons_toList {α β : Type*} (f : α → Option β) (x : α) (l : List α) :
    (x :: l).filterMap f = (f x).toList ++ l.filterMap f := by
  rw [List.filterMap_cons]
  cases f x with
  | none => rfl
  | some y => rfl

/-! ## Queues that neither alter nor duplicate -/

/-- What was set and what is queued to be set, counted with repetitions, was
sent. -/
def Accounted (D : Deployment Proc Ctl Shm) (p : Proc) (w : World Proc Ctl Shm) : Prop :=
  (w.applied p ++ (D.configs w p).filterMap (decoded D.slice)).Subperm
    ((D.addressed w p).filterMap fun args => decoded D.slice args.message)

theorem configs_perm (hQ : D.queue.Conserves) {w : World Proc Ctl Shm}
    {a : Action Proc Ctl} {p : Proc} (hset : ∀ q args, a ≠ .setConfig q args)
    (htick : a ≠ .configTick p) : (D.configs (D.next w a) p).Perm (D.configs w p) := by
  unfold configs
  rw [next_shm]
  cases hcall : D.queueCall w a with
  | none => exact List.Perm.refl _
  | some call => exact hQ.ofType_perform (queueCall_spares hset htick hcall)

theorem Accounted.setConfig (hQ : D.queue.Conserves) {w : World Proc Ctl Shm} {p : Proc}
    (h : D.Accounted p w) (q : Proc) (args : SetConfig) :
    D.Accounted p (D.next w (.setConfig q args)) := by
  unfold Accounted at h ⊢
  have happlied := (next_config (D := D) (w := w) (a := .setConfig q args) (p := p)
    (by simp)).1
  rw [happlied, addressed_setConfig, List.filterMap_append]
  rcases hQ.pending_push (s := w.shm) (n := D.common q) (m := args.message)
    (r := D.common p) with hperm | ⟨hr, hperm⟩
  · -- the message is lost, or for another process
    have hconfigs := (ofType_perm hperm msgTypeConfig).filterMap (decoded D.slice)
    refine ((hconfigs.append_left _).subperm.trans h).trans ?_
    exact (List.sublist_append_left _ _).subperm
  · have hconfigs := (ofType_perm hperm msgTypeConfig).filterMap (decoded D.slice)
    have htype : (D.queue.stamp w.shm (D.common q) args.message).type = msgTypeConfig := rfl
    rw [ofType_cons htype, filterMap_cons_toList] at hconfigs
    rw [if_pos hr, filterMap_cons_toList]
    refine (hconfigs.append_left _).subperm.trans ?_
    have hswap : (w.applied p ++ ((decoded D.slice args.message).toList
          ++ (D.configs w p).filterMap (decoded D.slice))).Perm
        ((w.applied p ++ (D.configs w p).filterMap (decoded D.slice))
          ++ (decoded D.slice args.message).toList) := by
      rw [List.append_assoc]
      exact List.perm_append_comm.append_left _
    refine hswap.subperm.trans ?_
    simpa only [List.filterMap_nil, List.append_nil] using (List.subperm_append_right _).mpr h

theorem Accounted.configTick (hQ : D.queue.Conserves) {w : World Proc Ctl Shm} {p : Proc}
    (h : D.Accounted p w) : D.Accounted p (D.next w (.configTick p)) := by
  unfold Accounted at h ⊢
  have hconfigs : D.configs (D.next w (.configTick p)) p
      = ofType msgTypeConfig (D.queue.pending
          (D.queue.pop w.shm (D.common p) ConfigMgr.filter).2 (D.common p)) := by
    rw [configs, next_shm]
    rfl
  have haddressed : D.addressed (D.next w (.configTick p)) p = D.addressed w p := by
    rw [addressed, next_sent (by simp)]
    rfl
  rw [(next_configTick w p).1, haddressed, hconfigs]
  cases hpop : (D.queue.pop w.shm (D.common p) ConfigMgr.filter).1 with
  | none =>
      have hsame := (ofType_perm (hQ.pop_none hpop (D.common p)) msgTypeConfig).filterMap
        (decoded D.slice)
      simpa using (hsame.append_left (w.applied p)).subperm.trans h
  | some m =>
      obtain ⟨hacc, hperm, -⟩ := hQ.pop_some hpop
      have htype : m.type = msgTypeConfig := accepts_type hacc
      have htaken := (ofType_perm hperm msgTypeConfig).filterMap (decoded D.slice)
      rw [ofType_cons htype, filterMap_cons_toList] at htaken
      rw [Option.bind_some, List.append_assoc]
      exact (htaken.symm.append_left (w.applied p)).subperm.trans h

theorem Accounted.step (hQ : D.queue.Conserves) {w : World Proc Ctl Shm} {p : Proc}
    (h : D.Accounted p w) (a : Action Proc Ctl) : D.Accounted p (D.next w a) := by
  by_cases hset : ∃ q args, a = .setConfig q args
  · obtain ⟨q, args, rfl⟩ := hset
    exact h.setConfig hQ q args
  · by_cases htick : a = .configTick p
    · subst htick
      exact h.configTick hQ
    · have hset' : ∀ q args, a ≠ .setConfig q args := fun q args ha => hset ⟨q, args, ha⟩
      have hconfigs := (configs_perm hQ (w := w) hset' htick).filterMap (decoded D.slice)
      unfold Accounted addressed at h ⊢
      rw [(next_config htick).1, next_sent hset']
      exact (hconfigs.append_left _).subperm.trans h

/-- What is set is the configuration a process started with, changed by the
calls it made. -/
def SetBy (w₀ : World Proc Ctl Shm) (p : Proc) (w : World Proc Ctl Shm) : Prop :=
  (w.proc p).config = setAll (w₀.proc p).config (w.applied p)

theorem SetBy.step {w₀ w : World Proc Ctl Shm} {p : Proc} (h : SetBy w₀ p w)
    (a : Action Proc Ctl) : SetBy w₀ p (D.next w a) := by
  unfold SetBy at h ⊢
  by_cases htick : a = .configTick p
  · subst htick
    rw [(next_configTick w p).1, (next_configTick w p).2, setAll_append, h]
  · rw [(next_config htick).1, (next_config htick).2, h]

omit [DecidableEq Proc] [DecidableEq Ctl] in
/-- A call either decodes to what it was made with or to nothing. -/
theorem filterMap_decoded (hs : SplitsAtBar D.slice) (calls : List SetConfig) :
    calls.filterMap (fun args => decoded D.slice args.message)
      = (calls.filter fun args => decide args.BarFree).map SetConfig.triple := by
  induction calls with
  | nil => rfl
  | cons args calls ih =>
      rw [filterMap_cons_toList, ih, decoded_message hs]
      by_cases hfree : args.BarFree
      · simp [hfree]
      · simp [hfree]

/-- The steps of one `handle_timer` of the debuger of `q`. -/
def debugerTick (q : Proc) : List (Action Proc Ctl) := [.tickPop q, .tickCheck q, .tickPush q]

/-- **Configuration is never corrupted or misattributed.** The values a
process sets are, each at most once, values of calls for it; they are all
that changes its configuration; a message that is not three pieces changes
nothing; and no step of a debuger's tick touches a queued call. -/
theorem config_not_misattributed (hQ : D.queue.Conserves) (hs : SplitsAtBar D.slice)
    {w₀ w : World Proc Ctl Shm} {p : Proc} (h₀ : D.Watch w₀ p)
    (hpath : D.system.Path (fun _ _ => True) w₀ w) :
    (w.applied p).Subperm ((D.addressed w p).map SetConfig.triple)
      ∧ (w.proc p).config = setAll (w₀.proc p).config (w.applied p)
      ∧ (∀ m, (D.queue.pop w.shm (D.common p) ConfigMgr.filter).1 = some m →
          (D.slice m.data).length ≠ 3 →
          ((D.next w (.configTick p)).proc p).config = (w.proc p).config)
      ∧ ∀ q, ∀ a ∈ debugerTick q, (D.configs (D.next w a) p).Perm (D.configs w p) := by
  have hinv : D.Accounted p w ∧ SetBy w₀ p w := by
    refine hpath.invariant (I := fun w => D.Accounted p w ∧ SetBy w₀ p w) ?_ ⟨?_, ?_⟩
    · intro w a w' h _ hstep
      obtain ⟨-, rfl⟩ := step_eq_some.mp hstep
      exact ⟨h.1.step hQ a, h.2.step a⟩
    · unfold Accounted
      rw [h₀.applied, h₀.configs]
      exact List.nil_subperm
    · unfold SetBy
      rw [h₀.applied]
      rfl
  refine ⟨?_, hinv.2, ?_, ?_⟩
  · have hacc := hinv.1
    unfold Accounted at hacc
    rw [filterMap_decoded hs] at hacc
    exact ((List.sublist_append_left _ _).subperm.trans hacc).trans
      (List.filter_sublist.map _).subperm
  · intro m hpop hlen
    have hdecoded : decoded D.slice m = none := by
      unfold decoded
      split
      · rename_i hslice
        rw [hslice] at hlen
        exact absurd rfl hlen
      · rfl
    rw [(next_configTick w p).2, hpop, Option.bind_some, hdecoded]
    rfl
  · intro q a ha
    refine configs_perm hQ ?_ ?_
    · rintro q' args rfl
      simp [debugerTick] at ha
    · rintro rfl
      simp [debugerTick] at ha

/-! ## Lossless queues, oldest message first -/

/-- What was set and what is queued to be set, in order, is what was sent. -/
structure InOrder (D : Deployment Proc Ctl Shm) (p : Proc) (w : World Proc Ctl Shm) :
    Prop where
  name : D.common p ∈ D.queue.names w.shm
  level : ∀ m ∈ D.configs w p, m.level = ConfigMgr.filter.level
  order : w.applied p ++ (D.configs w p).filterMap (decoded D.slice)
    = (D.addressed w p).filterMap fun args => decoded D.slice args.message

theorem configs_setConfig (hQ : D.queue.Fifo) {w : World Proc Ctl Shm} {p : Proc}
    (hp : D.common p ∈ D.queue.names w.shm) (q : Proc) (args : SetConfig) :
    D.configs (D.next w (.setConfig q args)) p = D.configs w p
      ++ if args.message.reaches (D.common q) (D.common p) = true
        then [D.queue.stamp w.shm (D.common q) args.message] else [] :=
  hQ.ofType_push hp args.message

theorem InOrder.setConfig (hQ : D.queue.Fifo) {w : World Proc Ctl Shm} {p : Proc}
    (h : D.InOrder p w) (q : Proc) (args : SetConfig) :
    D.InOrder p (D.next w (.setConfig q args)) := by
  have hconfigs := configs_setConfig hQ h.name q args
  refine ⟨names_next hQ _ h.name, fun m hm => ?_, ?_⟩
  · rw [hconfigs] at hm
    rcases List.mem_append.mp hm with hold | hnew
    · exact h.level m hold
    · split at hnew
      · rw [List.mem_singleton.mp hnew]
        rfl
      · cases hnew
  · have happlied := (next_config (D := D) (w := w) (a := .setConfig q args) (p := p)
      (by simp)).1
    rw [happlied, hconfigs, addressed_setConfig, List.filterMap_append,
      List.filterMap_append, ← List.append_assoc, h.order]
    congr 1
    split <;> rfl

/-- A tick of `p` pops the oldest configuration message. -/
theorem InOrder.pop_configs (hQ : D.queue.Fifo) {w : World Proc Ctl Shm} {p : Proc}
    (h : D.InOrder p w) :
    (D.queue.pop w.shm (D.common p) ConfigMgr.filter).1 = (D.configs w p).head?
      ∧ D.configs (D.next w (.configTick p)) p = (D.configs w p).tail := by
  -- the filter accepts every configuration message there is
  have hacc : ∀ m ∈ D.queue.pending w.shm (D.common p),
      m.type = ConfigMgr.filter.type → D.queue.accepts ConfigMgr.filter m = true := by
    intro m hm htype
    have hlevel := h.level m (by simpa [configs, ofType] using ⟨hm, htype⟩)
    simp [accepts, htype, hlevel, hQ.levelOk_self, ConfigMgr.filter]
  refine ⟨(hQ.ofType_pop hacc).1, ?_⟩
  rw [configs, next_shm]
  exact (hQ.ofType_pop hacc).2

theorem InOrder.configTick (hQ : D.queue.Fifo) {w : World Proc Ctl Shm} {p : Proc}
    (h : D.InOrder p w) : D.InOrder p (D.next w (.configTick p)) := by
  obtain ⟨hpop, hconfigs⟩ := h.pop_configs hQ
  refine ⟨names_next hQ _ h.name, fun m hm => ?_, ?_⟩
  · rw [hconfigs] at hm
    exact h.level m (List.mem_of_mem_tail hm)
  · have haddressed : D.addressed (D.next w (.configTick p)) p = D.addressed w p := by
      rw [addressed, next_sent (by simp)]
      rfl
    rw [(next_configTick w p).1, hconfigs, haddressed, hpop, ← h.order, List.append_assoc]
    congr 1
    cases D.configs w p with
    | nil => rfl
    | cons m rest =>
        rw [filterMap_cons_toList]
        rfl

theorem InOrder.step (hQ : D.queue.Fifo) {w : World Proc Ctl Shm} {p : Proc}
    (h : D.InOrder p w) (a : Action Proc Ctl) : D.InOrder p (D.next w a) := by
  by_cases hset : ∃ q args, a = .setConfig q args
  · obtain ⟨q, args, rfl⟩ := hset
    exact h.setConfig hQ q args
  · by_cases htick : a = .configTick p
    · subst htick
      exact h.configTick hQ
    · have hset' : ∀ q args, a ≠ .setConfig q args := fun q args ha => hset ⟨q, args, ha⟩
      have hconfigs : D.configs (D.next w a) p = D.configs w p :=
        ofType_next hQ fun _ hcall => queueCall_spares hset' htick hcall
      have horder := h.order
      refine ⟨names_next hQ a h.name, by rw [hconfigs]; exact h.level, ?_⟩
      unfold addressed at horder ⊢
      rw [(next_config htick).1, next_sent hset', hconfigs, horder]

variable (D) in
/-- The configuration of `p` is what was sent to it since `w₀`. -/
structure DeliveredAsSent (w₀ w : World Proc Ctl Shm) (p : Proc) : Prop where
  none_dropped : w.applied p = (D.addressed w p).map SetConfig.triple
  config : (w.proc p).config
    = setAll (w₀.proc p).config ((D.addressed w p).map SetConfig.triple)
  last_wins : ∀ sec key, (w.proc p).config sec key =
    match ((D.addressed w p).map SetConfig.triple).reverse.find?
      (fun set => set.1 = sec ∧ set.2.1 = key) with
    | some set => some set.2.2
    | none => (w₀.proc p).config sec key

/-- **Configuration is delivered as sent, but for separators.** A process
that has caught up with its queue has the configuration it was sent if and
only if no field of a call for it contains `'|'`. -/
theorem config_delivered_iff (hQ : D.queue.Fifo) (hs : SplitsAtBar D.slice)
    {w₀ w : World Proc Ctl Shm} {p : Proc} (h₀ : D.Watch w₀ p)
    (hp : D.common p ∈ D.queue.names w₀.shm)
    (hpath : D.system.Path (fun _ _ => True) w₀ w)
    (hdrained : ∀ m ∈ D.queue.pending w.shm (D.common p), m.type ≠ msgTypeConfig) :
    D.DeliveredAsSent w₀ w p ↔ ∀ args ∈ D.addressed w p, args.BarFree := by
  have hinv : D.InOrder p w ∧ SetBy w₀ p w := by
    refine hpath.invariant (I := fun w => D.InOrder p w ∧ SetBy w₀ p w) ?_ ⟨⟨hp, ?_, ?_⟩, ?_⟩
    · intro w a w' h _ hstep
      obtain ⟨-, rfl⟩ := step_eq_some.mp hstep
      exact ⟨h.1.step hQ a, h.2.step a⟩
    · rw [h₀.configs]
      intro m hm
      cases hm
    · rw [h₀.applied, h₀.configs, addressed, h₀.sent]
      rfl
    · unfold SetBy
      rw [h₀.applied]
      rfl
  have hconfigs : D.configs w p = [] := by
    simpa [configs, ofType, List.filter_eq_nil_iff] using hdrained
  have horder := hinv.1.order
  rw [hconfigs, filterMap_decoded hs, List.filterMap_nil, List.append_nil] at horder
  constructor
  · intro h args hargs
    have hlen := congrArg List.length (h.none_dropped.symm.trans horder)
    rw [List.length_map, List.length_map] at hlen
    have hall := List.length_filter_eq_length_iff.mp hlen.symm
    exact of_decide_eq_true (hall args hargs)
  · intro hfree
    have hall : (D.addressed w p).filter (fun args => decide args.BarFree)
        = D.addressed w p :=
      List.filter_eq_self.mpr fun args hargs => decide_eq_true (hfree args hargs)
    rw [hall] at horder
    have hconfig : (w.proc p).config
        = setAll (w₀.proc p).config ((D.addressed w p).map SetConfig.triple) := by
      rw [← horder]
      exact hinv.2
    refine ⟨horder, hconfig, fun sec key => ?_⟩
    rw [hconfig]
    exact setAll_apply ..

/-! ## A process that catches up, and a call that is dropped -/

namespace twoProcesses

/-- Both processes have their queue. -/
def opened : World Host Unit Boxes :=
  after (fun _ _ => true) start [.openCommon .first, .openCommon .second]

theorem opened_watch : twoProcesses.Watch opened .second where
  sent := by decide +kernel
  applied := by decide +kernel
  configs := by decide +kernel

def port (module : Option Bytes) (value : Bytes) : SetConfig :=
  ⟨module, ascii "net", ascii "port", value⟩

/-- A broadcast and a call by name, both received. -/
def configured : World Host Unit Boxes :=
  after (fun _ _ => true) opened
    [.setConfig .first (port none (ascii "80")), .configTick .second,
      .setConfig .first (port (some (ascii "second")) (ascii "81")), .configTick .second]

theorem configured_path :
    twoProcesses.system.Path (fun _ _ => True) opened configured :=
  path_after (fun _ _ _ => trivial) (by decide +kernel)

/-- A call whose value has a separator in it, received. -/
def piped : World Host Unit Boxes :=
  after (fun _ _ => true) opened
    [.setConfig .first (port none (ascii "80|81")), .configTick .second]

theorem piped_path : twoProcesses.system.Path (fun _ _ => True) opened piped :=
  path_after (fun _ _ _ => trivial) (by decide +kernel)

end twoProcesses

theorem config_not_misattributed_twice :
    twoProcesses.configured.applied .second
        = [(ascii "net", ascii "port", ascii "80"), (ascii "net", ascii "port", ascii "81")]
      ∧ (twoProcesses.configured.applied .second).Subperm
        ((twoProcesses.addressed twoProcesses.configured .second).map SetConfig.triple) :=
  ⟨by decide +kernel, (config_not_misattributed Boxes.queue_fifo.conserves (fun _ => rfl)
    twoProcesses.opened_watch twoProcesses.configured_path).1⟩

theorem config_delivered_iff_twice :
    twoProcesses.DeliveredAsSent twoProcesses.opened twoProcesses.configured .second :=
  (config_delivered_iff Boxes.queue_fifo (fun _ => rfl) twoProcesses.opened_watch
    (by decide +kernel) twoProcesses.configured_path (by decide +kernel)).mpr
    (by decide +kernel)

/-- The call is received and the configuration does not have its value. -/
theorem config_piped_dropped :
    twoProcesses.Watch twoProcesses.opened .second
      ∧ twoProcesses.system.Path (fun _ _ => True) twoProcesses.opened twoProcesses.piped
      ∧ twoProcesses.queue.pending twoProcesses.piped.shm (twoProcesses.common .second) = []
      ∧ twoProcesses.addressed twoProcesses.piped .second
        = [twoProcesses.port none (ascii "80|81")]
      ∧ (twoProcesses.piped.proc .second).config (ascii "net") (ascii "port") = none
      ∧ setAll (twoProcesses.opened.proc .second).config
          ((twoProcesses.addressed twoProcesses.piped .second).map SetConfig.triple)
          (ascii "net") (ascii "port") = some (ascii "80|81") :=
  ⟨twoProcesses.opened_watch, twoProcesses.piped_path, by decide +kernel,
    by decide +kernel, by decide +kernel, by decide +kernel⟩

end Deployment

end JustCommon
