import JustCommon.LogHook
import JustCommon.Simulation

/-!
# Who is told of a log record

The purpose of the streams in its own terms: an `Audience` is who listens at
which level, and whether records are captured. It knows no stream objects
and no flags. A life of a `Debuger` among any records is told to it as
notices, and the records reach exactly the audience of their time
(`records_reach_audience`). The life is simulated twice, by the audience and
by the life without records (`Attached.life`), whose flags are what makes
`shutdown` leave nobody.
-/

namespace JustCommon

open Debuger

/-! ## The audience -/

/-- Something the audience is told. -/
inductive Notice where
  /-- Who listens from now on: the hook and its level. -/
  | hook (who : Option (Nat × UInt32))
  /-- Whether records are captured from now on. -/
  | capture (on : Bool)
  | record (r : Record)

structure Audience where
  hook : Option (Nat × UInt32)
  capturing : Bool
deriving DecidableEq, Repr

namespace Audience

def next (a : Audience) : Notice → Audience
  | .hook who => { a with hook := who }
  | .capture on => { a with capturing := on }
  | .record _ => a

def system : Lts Audience Notice where
  init a := a = ⟨none, false⟩
  step a n := some (a.next n)

variable (L : Logger)

/-- The hook's call for the notice, and the text it gets. -/
def hears (a : Audience) : Notice → List (Nat × Bytes)
  | .record r =>
      (a.hook.filter fun who => L.passes who.2.toNat r).toList.map fun who =>
        (who.1, r.text.take 1023)
  | _ => []

def captures (a : Audience) : Notice → List Message
  | .record r => if a.capturing && L.passes L.level r then [logMessage r.text] else []
  | _ => []

theorem hears_some {a : Audience} {who : Nat × UInt32} (h : a.hook = some who) (r : Record) :
    a.hears L (.record r)
      = if L.passes who.2.toNat r then [(who.1, r.text.take 1023)] else [] := by
  rw [hears, h]
  cases hpass : L.passes who.2.toNat r <;> simp [Option.filter, hpass]

end Audience

namespace Listening

variable {L : Logger} {s t u : Listening}

/-- Who listens, seen from the objects. -/
def audience (s : Listening) : Audience where
  hook :=
    if s.attached.streams .hook then
      s.attached.debuger.hookLogStream.bind fun stream =>
        stream.callback.map fun callback => (callback, stream.level)
    else none
  capturing := s.attached.streams .debug

/-- The calls of the hooks and the texts they got. -/
def dumps (s : Listening) : List (Nat × Bytes) := s.heard.map fun d => (d.callback, d.text)

/-- From `s` to `t` the audience was told the notices, and got the records among
them. -/
structure Told (L : Logger) (s : Listening) (notices : List Notice) (t : Listening) : Prop where
  audience : Audience.system.run s.audience notices = some t.audience
  dumps : t.dumps = s.dumps ++ Audience.system.collect (Audience.hears L) s.audience notices
  pushed : t.pushed = s.pushed
    ++ Audience.system.collect (Audience.captures L) s.audience notices

theorem Told.trans {notices more : List Notice} (h : Told L s notices t) (h' : Told L t more u) :
    Told L s (notices ++ more) u where
  audience := by rw [Lts.run_append, h.audience, Option.bind_some, h'.audience]
  dumps := by
    rw [Lts.collect_append _ h.audience, ← List.append_assoc, ← h.dumps, h'.dumps]
  pushed := by
    rw [Lts.collect_append _ h.audience, ← List.append_assoc, ← h.pushed, h'.pushed]

/-- Nothing was told: the same audience, and no record. -/
theorem Told.same (haudience : t.audience = s.audience) (hheard : t.heard = s.heard)
    (hpushed : t.pushed = s.pushed) : Told L s [] t where
  audience := by rw [haudience]; rfl
  dumps := by rw [Listening.dumps, Listening.dumps, hheard]; exact (List.append_nil _).symm
  pushed := by rw [hpushed]; exact (List.append_nil _).symm

/-- A change of the audience. -/
theorem Told.change {n : Notice} (hrecord : ∀ r, n ≠ .record r)
    (haudience : t.audience = s.audience.next n) (hheard : t.heard = s.heard)
    (hpushed : t.pushed = s.pushed) : Told L s [n] t where
  audience := by rw [haudience]; rfl
  dumps := by
    rw [Listening.dumps, Listening.dumps, hheard]
    cases n with
    | record r => exact absurd rfl (hrecord r)
    | hook who => exact (List.append_nil _).symm
    | capture on => exact (List.append_nil _).symm
  pushed := by
    rw [hpushed]
    cases n with
    | record r => exact absurd rfl (hrecord r)
    | hook who => exact (List.append_nil _).symm
    | capture on => exact (List.append_nil _).symm

/-! ### One record -/

theorem toDebug_spec (s : Listening) (r : Record) :
    (s.toDebug L r).attached = s.attached ∧ (s.toDebug L r).heard = s.heard
      ∧ (s.toDebug L r).pushed = s.pushed ++ s.audience.captures L (.record r) := by
  unfold toDebug
  split
  · rename_i hpass
    refine ⟨rfl, rfl, ?_⟩
    rw [writeMsgQueue_eq, Audience.captures, show s.audience.capturing = s.attached.streams .debug
      from rfl, if_pos hpass]
    rfl
  · rename_i hpass
    refine ⟨rfl, rfl, ?_⟩
    rw [Audience.captures, show s.audience.capturing = s.attached.streams .debug from rfl,
      if_neg hpass, List.append_nil]

theorem toHook_spec {r : Record} (h : s.toHook L r = some t) :
    t.attached = s.attached ∧ t.dumps = s.dumps ++ s.audience.hears L (.record r)
      ∧ t.pushed = s.pushed := by
  unfold toHook at h
  split at h
  · rename_i hheld
    obtain ⟨stream, hstream, rfl⟩ := Option.map_eq_some_iff.mp h
    have hwho : s.audience.hook
        = stream.callback.map fun callback => (callback, stream.level) := by
      rw [audience]
      simp only [hheld, hstream, if_true, Option.bind_some]
    cases hcallback : stream.callback with
    | none =>
        have hhears : s.audience.hears L (.record r) = [] := by
          simp [Audience.hears, hwho, hcallback]
        rw [hhears, List.append_nil]
        split
        · exact ⟨rfl, by simp [HookLogStream.write, hcallback, dumps], rfl⟩
        · exact ⟨rfl, rfl, rfl⟩
    | some callback =>
        split
        · rename_i hpass
          refine ⟨rfl, ?_, rfl⟩
          have htext := (s.buf.fill_spec r.buffers).2.1
          rw [hcallback, Option.map_some] at hwho
          rw [Audience.hears_some L hwho, if_pos hpass]
          simp [HookLogStream.write, hcallback, dumps, Dump.text, Record.text, htext]
        · rename_i hpass
          rw [hcallback, Option.map_some] at hwho
          rw [Audience.hears_some L hwho, if_neg hpass, List.append_nil]
          exact ⟨rfl, rfl, rfl⟩
  · rename_i hheld
    obtain rfl := Option.some.inj h
    have hwho : s.audience.hook = none := by
      rw [audience]
      exact if_neg hheld
    exact ⟨rfl, by simp [Audience.hears, hwho], rfl⟩

theorem deliver_spec {r : Record} (h : s.deliver L r = some t) :
    t.attached = s.attached ∧ Told L s [.record r] t := by
  obtain ⟨hattached, hheard, hpushed⟩ := s.toDebug_spec (L := L) r
  obtain ⟨hattached', hdumps', hpushed'⟩ := toHook_spec h
  have haudience : (s.toDebug L r).audience = s.audience := by
    rw [Listening.audience, Listening.audience, hattached]
  have hdumps : (s.toDebug L r).dumps = s.dumps := by
    rw [Listening.dumps, Listening.dumps, hheard]
  refine ⟨hattached'.trans hattached, ?_, ?_, ?_⟩
  · have hsame : t.audience = s.audience := by
      rw [Listening.audience, Listening.audience, hattached', hattached]
    rw [hsame]
    rfl
  · rw [hdumps', haudience, hdumps, Lts.collect_cons rfl]
    exact congrArg _ (List.append_nil _).symm
  · rw [hpushed', hpushed, Lts.collect_cons rfl]
    exact congrArg _ (List.append_nil _).symm

/-- Of the records, only those that are logged are told. -/
def recordTold (r : Option Record) : List Notice := r.toList.map .record

theorem perform_record {r : Option Record} (h : s.perform L (.record r) = some t) :
    t.attached = s.attached ∧ Told L s (recordTold r) t := by
  cases r with
  | none =>
      obtain rfl := Option.some.inj h
      exact ⟨rfl, Told.same rfl rfl rfl⟩
  | some r => exact deliver_spec h

theorem perform_call {c : LoggerCall} (h : s.perform L (.call c) = some t) :
    t = { s with attached := { s.attached with
      streams := s.attached.streams.apply c, calls := s.attached.calls ++ [c] } } :=
  (Option.some.inj h).symm

/-- A call on the debug stream starts or ends the capture. -/
theorem perform_debug {c : LoggerCall} {on : Bool} (hc : c.adds .debug = some on)
    (h : s.perform L (.call c) = some t) : Told L s [.capture on] t := by
  obtain rfl := perform_call h
  refine Told.change (fun _ h => by cases h) ?_ rfl rfl
  cases c with
  | addStream stream =>
      cases stream with
      | debug =>
          obtain rfl := Option.some.inj hc
          simp [audience, Audience.next, Streams.apply]
      | hook => cases hc
  | delStream stream =>
      cases stream with
      | debug =>
          obtain rfl := Option.some.inj hc
          simp [audience, Audience.next, Streams.apply]
      | hook => cases hc

theorem perform_delHook (h : s.perform L (.call (.delStream .hook)) = some t) :
    Told L s [.hook none] t := by
  obtain rfl := perform_call h
  refine Told.change (fun _ h => by cases h) ?_ rfl rfl
  simp [audience, Audience.next, Streams.apply]

/-- The streams after the steps are those after their calls. -/
theorem performing_attached : ∀ {steps : List LoggerStep} {s t : Listening},
    (performing L).run s steps = some t →
      t.attached = s.attached.next (s.attached.debuger, steps.filterMap LoggerStep.call?)
  | [], s, t, h => by
      obtain rfl := Option.some.inj h
      simp [Attached.next, Streams.applyAll]
  | .call c :: rest, s, t, h => by
      rw [Lts.run_cons] at h
      obtain ⟨u, hu, hrest⟩ := Option.bind_eq_some_iff.mp h
      obtain rfl := perform_call (L := L) hu
      rw [performing_attached hrest]
      simp [Attached.next, Streams.applyAll, LoggerStep.call?]
  | .record r :: rest, s, t, h => by
      rw [Lts.run_cons] at h
      obtain ⟨u, hu, hrest⟩ := Option.bind_eq_some_iff.mp h
      rw [performing_attached hrest, (perform_record hu).1]
      rfl

section Tell

variable (L : Logger)

def checkTold (d : Debuger) (first second : UInt32) : List Notice :=
  if d.debugMode then
    if first = 1 then .capture true :: recordTold (L.info enterText)
    else if second = 0 ∧ d.debugLogStream then
      recordTold (L.info leaveText) ++ [.capture false]
    else []
  else []

/-- What the audience is told in an operation. `shutdown` leaves nobody, and it
says so before its own record; `set_log_hook` is for one hook at a time. -/
def told (s : Listening) : ListenOp → List Notice
  | .startup first second => checkTold L s.attached.debuger first second
  | .shutdown =>
      .hook none :: ((if s.attached.debuger.outStreamed then recordTold (L.info shutdownText)
        else []) ++ [.capture false])
  | .tick none _ _ => []
  | .tick (some m) first second =>
      checkTold L s.attached.debuger first second ++ recordTold (L.debug (handleTimerText m))
  | .setLogHook hook level => [.hook (hook.map fun callback => (callback, level.toUInt32))]
  | .log r => [.record r]

end Tell

/-- Telling what is so already. -/
theorem Told.idle {n : Notice} (hrecord : ∀ r, n ≠ .record r)
    (haudience : s.audience.next n = s.audience) : Told L s [n] s :=
  Told.change hrecord haudience.symm rfl rfl

theorem told_become {d : Debuger} (h : d.hookLogStream = s.attached.debuger.hookLogStream) :
    Told L s [] (s.become d) := by
  refine Told.same ?_ rfl rfl
  simp only [audience, become, h]

theorem told_check {d : Debuger} {first second : UInt32}
    (h : (performing L).run s (checkDebugModeLogged L d first second).2 = some t) :
    Told L s (checkTold L d first second) t := by
  unfold checkDebugModeLogged at h
  unfold checkTold
  split at h
  · rename_i hptr
    rw [if_pos hptr]
    split at h
    · rename_i hfirst
      rw [if_pos hfirst]
      obtain ⟨u, hu, ht⟩ := Lts.run_pair h
      exact (perform_debug (L := L) rfl hu).trans (perform_record (L := L) ht).2
    · rename_i hfirst
      rw [if_neg hfirst]
      split at h
      · rename_i hleave
        rw [if_pos hleave]
        obtain ⟨u, hu, ht⟩ := Lts.run_pair h
        exact (perform_record (L := L) hu).2.trans (perform_debug (L := L) rfl ht)
      · rename_i hstay
        rw [if_neg hstay]
        obtain rfl := Option.some.inj h
        exact Told.same rfl rfl rfl
  · rename_i hptr
    rw [if_neg hptr]
    obtain rfl := Option.some.inj h
    exact Told.same rfl rfl rfl

theorem checkDebugModeLogged_hook (d : Debuger) (first second : UInt32) :
    (checkDebugModeLogged L d first second).1.hookLogStream = d.hookLogStream := by
  unfold checkDebugModeLogged
  split
  · split
    · rfl
    · split <;> rfl
  · rfl

/-- The flags cover what the logger holds, so that `shutdown` leaves nobody. -/
theorem told_shutdown (hflags : s.attached.Flagged)
    (h : s.outcome L (shutdownLogged L s.attached.debuger) = some t) :
    Told L s (told L s .shutdown) t := by
  have hbecome : Told L s [] (s.become { s.attached.debuger with timer := false }) :=
    told_become rfl
  rw [outcome, shutdownLogged, Lts.run_append] at h
  obtain ⟨u, hu, ht⟩ := Option.bind_eq_some_iff.mp h
  have hhook : Told L s [.hook none] u ∧ u.attached.streams .debug = s.attached.streams .debug := by
    split at hu
    · rw [Lts.run_singleton] at hu
      refine ⟨hbecome.trans (perform_delHook (L := L) hu), ?_⟩
      obtain rfl := perform_call (L := L) hu
      simp [become, Streams.apply]
    · rename_i hflag
      obtain rfl := Option.some.inj hu
      have hnobody : s.audience.hook = none := by
        refine if_neg fun hheld => hflag (hflags.hook hheld).2
      refine ⟨(Told.idle (fun _ h => by cases h) ?_).trans hbecome, rfl⟩
      rw [Audience.next, ← hnobody]
  refine hhook.1.trans ?_
  split at ht
  · rename_i hflag
    rw [if_pos hflag]
    obtain ⟨v, hv, ht⟩ := Lts.run_pair ht
    exact (perform_record (L := L) hv).2.trans (perform_debug (L := L) rfl ht)
  · rename_i hflag
    rw [if_neg hflag]
    obtain rfl := Option.some.inj ht
    refine Told.idle (fun _ h => by cases h) ?_
    have hnone : u.attached.streams .debug = false := by
      rw [hhook.2]
      exact Bool.eq_false_iff.mpr fun hheld => hflag (hflags.debug hheld).2
    rw [Audience.next, ← hnone]
    rfl

theorem told_setLogHook (hflags : s.attached.Flagged) {hook : Option Nat} {level : UInt64}
    (h : s.outcome L (setLogHookLogged s.attached.debuger hook level) = some t) :
    Told L s (told L s (.setLogHook hook level)) t := by
  rw [outcome, setLogHookLogged] at h
  rcases s.attached.debuger.setLogHook_cases hook level with
    ⟨callback, rfl, heq⟩ | ⟨rfl, -, heq⟩ | ⟨rfl, hnever, heq⟩
  · rw [heq] at h
    simp only [List.map_cons, List.map_nil, Lts.run_singleton] at h
    obtain rfl := perform_call (L := L) h
    refine Told.change (fun _ h => by cases h) ?_ rfl rfl
    simp [audience, Audience.next, Streams.apply, become]
  · rw [heq] at h
    simp only [List.map_cons, List.map_nil, Lts.run_singleton] at h
    obtain rfl := perform_call (L := L) h
    refine Told.change (fun _ h => by cases h) ?_ rfl rfl
    simp [audience, Audience.next, Streams.apply, become]
  · rw [heq] at h
    obtain rfl := Option.some.inj h
    have hnobody : s.attached.streams .hook = false := by
      refine Bool.eq_false_iff.mpr fun hheld => ?_
      have hthere := (hflags.hook hheld).1
      rw [hnever] at hthere
      cases hthere
    refine Told.change (fun _ h => by cases h) ?_ rfl rfl
    simp [audience, Audience.next, become, hnobody]

/-- What each operation tells the audience. -/
theorem told_step (hflags : s.attached.Flagged) {op : ListenOp} (h : s.step L op = some t) :
    Told L s (told L s op) t := by
  cases op with
  | startup first second =>
      have hstarted : s.outcome L (checkDebugModeLogged L
          { s.attached.debuger with timer := true } first second) = some t := h
      have htold := (told_become (checkDebugModeLogged_hook
        { s.attached.debuger with timer := true } first second)).trans (told_check hstarted)
      exact htold
  | shutdown =>
      simp only [Listening.step] at h
      split at h
      · exact told_shutdown hflags h
      · cases h
  | tick popped first second =>
      cases popped with
      | none =>
          obtain rfl := Option.some.inj h
          exact Told.same rfl rfl rfl
      | some m =>
          simp only [Listening.step, outcome, handleTimerLogged, Lts.run_append] at h
          obtain ⟨u, hu, ht⟩ := Option.bind_eq_some_iff.mp h
          rw [Lts.run_singleton] at ht
          exact ((told_become (checkDebugModeLogged_hook _ first second)).trans
            (told_check hu)).trans (perform_record (L := L) ht).2
  | setLogHook hook level => exact told_setLogHook hflags h
  | log r => exact (deliver_spec h).2

/-! ### Lives among records -/

/-- The outcome of an operation, its records aside. -/
theorem outcome_attached {r : Debuger × List LoggerStep} {r' : Debuger × List LoggerCall}
    (herase : (r.1, r.2.filterMap LoggerStep.call?) = r') (h : s.outcome L r = some t) :
    t.attached = s.attached.next r' := by
  rw [performing_attached h, ← herase]
  rfl

/-- An operation is the one of the life without records; a record is none. -/
theorem step_attached {op : ListenOp} (h : s.step L op = some t) :
    Attached.life.run s.attached op.life = some t.attached := by
  cases op with
  | startup first second =>
      rw [ListenOp.life, Lts.run_singleton,
        outcome_attached (checkDebugModeLogged_erase L _ first second) h]
      rfl
  | shutdown =>
      simp only [Listening.step] at h
      split at h
      · rename_i htimer
        rw [ListenOp.life, Lts.run_singleton, outcome_attached (shutdownLogged_erase L _) h]
        exact if_pos htimer
      · cases h
  | tick popped first second =>
      rw [ListenOp.life, Lts.run_singleton,
        outcome_attached (handleTimerLogged_erase L _ popped first second) h]
      rfl
  | setLogHook hook level =>
      rw [ListenOp.life, Lts.run_singleton, outcome_attached (setLogHookLogged_erase _ hook level) h]
      rfl
  | log r =>
      rw [(deliver_spec h).1]
      rfl

/-- The life without records, told of the operations. -/
def lifeSimulation (L : Logger) :
    Lts.Simulation (listening L) Attached.life fun s => s.attached.Flagged where
  abs := Listening.attached
  tell _ op := op.life
  step s op t hflags h := by
    have hlife := step_attached h
    exact ⟨Lts.run_invariant (M := Attached.life) (I := Attached.Flagged)
      (fun _ _ _ hs hst => Attached.step_flagged hs hst) hlife hflags, hlife⟩

/-- The audience, told of everything. -/
def audienceSimulation (L : Logger) :
    Lts.Simulation (listening L) Audience.system fun s => s.attached.Flagged where
  abs := audience
  tell := told L
  step s op t hflags h :=
    ⟨((lifeSimulation L).step s op t hflags h).1, (told_step hflags h).audience⟩

theorem constructed_flagged {allocated found : Bool} {first second : UInt32} {buf : HookBuffer}
    (h : constructed L allocated found first second buf = some s) : s.attached.Flagged := by
  rw [outcome_attached (checkDebugModeLogged_erase L _ first second) h]
  exact Attached.checkDebugMode_flagged (Attached.blank_flagged allocated found) first second

theorem flagged_reachable (hs : (listening L).Reachable s) : s.attached.Flagged := by
  refine Lts.Reachable.invariant (I := fun s => s.attached.Flagged) ?_ ?_ hs
  · rintro s ⟨allocated, found, first, second, buf, h⟩
    exact constructed_flagged h
  · exact fun s op t _ hflags h => ((lifeSimulation L).step s op t hflags h).1

/-- **Records reach exactly the audience of their time.** In every run, from any
reachable state, of operations and records of any modules: the hooks are
called for the records told while they listen, with the first 1023 bytes of
each, and for no other; the records told while they are captured are pushed,
with the first 1024 bytes; once each and in order. So an audience is all
there is to the stream objects and flags, and the operations on the logger
are those of the life without records. -/
theorem records_reach_audience (L : Logger) {ops : List ListenOp}
    (hs : (listening L).Reachable s) (hrun : (listening L).run s ops = some t) :
    t.dumps = s.dumps ++ Audience.system.collect (Audience.hears L) s.audience
        ((listening L).collect (told L) s ops)
      ∧ t.pushed = s.pushed ++ Audience.system.collect (Audience.captures L) s.audience
        ((listening L).collect (told L) s ops)
      ∧ Audience.system.run s.audience ((listening L).collect (told L) s ops) = some t.audience
      ∧ Attached.life.run s.attached ((listening L).collect (fun _ op => op.life) s ops)
        = some t.attached := by
  have hflags := flagged_reachable hs
  refine ⟨?_, ?_, ?_, ?_⟩
  · exact (audienceSimulation L).outputs (fun _ _ _ hf h => (told_step hf h).dumps) hrun hflags
  · exact (audienceSimulation L).outputs (fun _ _ _ hf h => (told_step hf h).pushed) hrun hflags
  · exact ((audienceSimulation L).run hrun hflags).2
  · exact ((lifeSimulation L).run hrun hflags).2

/-- It logs all but `LOG_DEBUG`, and a stream gets what is up to its level. -/
def plainLogger : Logger where
  info text := some ⟨2, [ascii "[Info] ", text]⟩
  debug _ := none
  passes level r := decide (r.level ≤ level)
  level := 5

/-- The word is 0 at first. -/
def quiet : Listening :=
  ⟨Attached.construct true false 0 0, ⟨List.replicate 1024 255, List.length_replicate⟩, [], []⟩

theorem quiet_reachable : (listening plainLogger).Reachable quiet :=
  ⟨quiet, ⟨true, false, 0, 0, quiet.buf, rfl⟩, .refl⟩

/-- A hook, then debug mode, with a record before and after each change; the
hook's level is 2. -/
def evening : List ListenOp :=
  [.startup 0 0, .setLogHook (some 7) (2 ^ 32 + 2), .log ⟨1, [ascii "one"]⟩, .tick (some {}) 1 1,
    .log ⟨3, [ascii "two"]⟩, .shutdown, .log ⟨1, [ascii "three"]⟩]

theorem records_reach_audience_evening : ∃ t, (listening plainLogger).run quiet evening = some t
    ∧ t.dumps = [(7, ascii "one"), (7, ascii "[Info] [check_debug_mode] enter debug mode")]
    ∧ t.dumps = quiet.dumps ++ Audience.system.collect (Audience.hears plainLogger)
      quiet.audience ((listening plainLogger).collect (told plainLogger) quiet evening) := by
  obtain ⟨t, ht⟩ := Option.isSome_iff_exists.mp
    (show ((listening plainLogger).run quiet evening).isSome = true by decide +kernel)
  have hdumps : ∀ u, (listening plainLogger).run quiet evening = some u →
      u.dumps = [(7, ascii "one"), (7, ascii "[Info] [check_debug_mode] enter debug mode")] := by
    decide +kernel
  exact ⟨t, ht, hdumps t ht, (records_reach_audience plainLogger quiet_reachable ht).1⟩

/-! ### What a hook is given -/

end Listening

end JustCommon
