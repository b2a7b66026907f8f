import JustCommon.Convergence
import JustCommon.LogSession

/-!
# Log records keep their order, module by module

Any process may write to the log, and any number of readers may call
`get_debug_msg` on the queue the records are in, each for the module and the
level it wants. A reader that wants one module takes its records from among
those of the others, so the queue as a whole is no first-in first-out one;
but what it holds of one module is. In any run the records of a module leave
the queue in the order they were written, each once: to one of the readers,
or dropped by the `clear` of a `change_debug_mode`.

This rests on the level, which is the same for all records: a filter accepts
all the records of a module or none (`filter_find?_eraseP`).
-/

namespace JustCommon

open Debuger MessageQueue

/-- The action may add log records to a queue or take some. -/
def Action.movesRecords {Proc Ctl : Type} : Action Proc Ctl → Bool
  | .log _ _ | .getDebugMsg _ _ _ | .clear _ => true
  | _ => false

variable {Proc Ctl Shm : Type} [DecidableEq Proc] [DecidableEq Ctl]

namespace Deployment

/-- A log record that the queue `n` pushed, of the process with this name. -/
def isRecordOf (n : Bytes) (m : Message) : Bool := m.type == msgTypeLog && m.sender == n

variable (D : Deployment Proc Ctl Shm)

/-- The records of `n` in the queue `r`, oldest first. -/
def recordsOf (n r : Bytes) (w : World Proc Ctl Shm) : List Message :=
  (D.queue.pending w.shm r).filter (isRecordOf n)

/-- The record of `n` the action writes to the queue `r`. -/
def written (n r : Bytes) (w : World Proc Ctl Shm) : Action Proc Ctl → List Message
  | .log p buffers =>
      if D.common p = n ∧ r ∈ D.queue.names w.shm ∧ r = ascii "Debuger" then
        [LogRecord.queued ⟨n, D.queue.now w.shm, buffers⟩]
      else []
  | _ => []

/-- The records of `n` the action takes from the queue `r`: `get_debug_msg` the
one it pops, `clear` all there are. -/
def taken (n r : Bytes) (w : World Proc Ctl Shm) : Action Proc Ctl → List Message
  | .getDebugMsg p module level =>
      if D.own p = r then
        (D.queue.pop w.shm r (logFilter module level)).1.toList.filter (isRecordOf n)
      else []
  | .clear c => if D.own (D.home c) = r then D.recordsOf n r w else []
  | _ => []

/-- Every log record that is queued has the level all of them are pushed with. -/
def RecordsLevelled (w : World Proc Ctl Shm) : Prop :=
  ∀ r, ∀ m ∈ D.queue.pending w.shm r, m.type = msgTypeLog → m.level = 1

variable {D}

theorem recordsLevelled_reachable (hQ : D.queue.Fifo) {w : World Proc Ctl Shm}
    (hw : D.system.Reachable w) : D.RecordsLevelled w := by
  refine Lts.Reachable.invariant (I := D.RecordsLevelled) ?_ ?_ hw
  · intro w₀ h₀ r m hm
    rw [Initial.pending h₀] at hm
    cases hm
  · intro w a w' _ h hstep r m hm htype
    obtain ⟨-, rfl⟩ := step_eq_some.mp hstep
    rcases mem_pending_next hQ hm with hold | ⟨n', m', hcall, rfl⟩
    · exact h r m hold htype
    · cases calls_of_queueCall hcall with
      | log p buffers => rfl
      | tickPush htick => cases htype
      | broadcast c => cases htype
      | setConfig p args => cases htype

omit [DecidableEq Proc] [DecidableEq Ctl] in
/-- The filter of a reader on a record of `n`. -/
theorem RecordsLevelled.accepts_record {w : World Proc Ctl Shm} (h : D.RecordsLevelled w)
    {n r : Bytes} {m : Message} (hm : m ∈ D.queue.pending w.shm r)
    (hn : isRecordOf n m = true) (module : Bytes) (level : Int) :
    D.queue.accepts (logFilter module level) m
      = (D.queue.levelOk level 1 && (module.isEmpty || n == module)) := by
  obtain ⟨htype, hsender⟩ : m.type = msgTypeLog ∧ m.sender = n := by
    simpa [isRecordOf] using hn
  simp only [accepts, logFilter, htype, hsender, h r m hm htype, beq_self_eq_true, Bool.true_and]

/-! ## One action -/

omit [DecidableEq Proc] [DecidableEq Ctl] in
theorem recordsOf_eq (n r : Bytes) (w : World Proc Ctl Shm) :
    D.recordsOf n r w
      = (ofType msgTypeLog (D.queue.pending w.shm r)).filter fun m => m.sender == n := by
  rw [ofType, List.filter_filter]
  exact List.filter_congr fun m _ => Bool.and_comm _ _

/-- A record is queued behind the others of its module. -/
theorem recordsOf_log (hQ : D.queue.Fifo) (n r : Bytes) (w : World Proc Ctl Shm) (p : Proc)
    (buffers : Bytes) :
    D.recordsOf n r (D.next w (.log p buffers))
      = D.recordsOf n r w ++ D.written n r w (.log p buffers : Action Proc Ctl) := by
  have hreach : (logMessage buffers).reaches (D.common p) r = true ↔ r = ascii "Debuger" :=
    Message.reaches_receiver (by simp [logMessage, ascii])
  simp only [recordsOf, written, next, hQ.pending_push, hreach]
  by_cases hr : r ∈ D.queue.names w.shm ∧ r = ascii "Debuger"
  · rw [if_pos hr, List.filter_append]
    by_cases hp : D.common p = n
    · subst hp
      rw [if_pos ⟨rfl, hr⟩]
      simp [isRecordOf, stamp, logMessage, LogRecord.queued]
    · rw [if_neg fun hall => hp hall.1]
      simp [isRecordOf, stamp, hp]
  · rw [if_neg hr, if_neg fun hall => hr hall.2, List.append_nil]

/-- A reader takes the oldest record of its module, or none of it. -/
theorem recordsOf_getDebugMsg (hQ : D.queue.Fifo) {w : World Proc Ctl Shm}
    (h : D.RecordsLevelled w) (n r : Bytes) (p : Proc) (module : Bytes) (level : Int) :
    D.recordsOf n r w
      = D.taken n r w (.getDebugMsg p module level : Action Proc Ctl)
        ++ D.recordsOf n r (D.next w (.getDebugMsg p module level)) := by
  simp only [recordsOf, taken, next, hQ.pending_pop]
  by_cases hr : D.own p = r
  · subst hr
    rw [if_pos rfl, if_pos rfl, hQ.pop_result]
    exact filter_find?_eraseP fun m hm hn => h.accepts_record hm hn module level
  · rw [if_neg hr, if_neg (Ne.symm hr), List.nil_append]

theorem recordsOf_clear (hQ : D.queue.Fifo) (n r : Bytes) (w : World Proc Ctl Shm) (c : Ctl) :
    D.recordsOf n r w
      = D.taken n r w (.clear c : Action Proc Ctl) ++ D.recordsOf n r (D.next w (.clear c)) := by
  have hpending : D.queue.pending (D.next w (.clear c)).shm r
      = if r = D.own (D.home c) then [] else D.queue.pending w.shm r := hQ.pending_clear
  simp only [taken]
  by_cases hr : D.own (D.home c) = r
  · subst hr
    rw [if_pos rfl, recordsOf, recordsOf, hpending, if_pos rfl, List.filter_nil, List.append_nil]
  · rw [if_neg hr, recordsOf, recordsOf, hpending, if_neg (Ne.symm hr), List.nil_append]

/-- Of every module, an action takes records off one end and puts the one it
writes on at the other. -/
theorem recordsOf_next (hQ : D.queue.Fifo) {w : World Proc Ctl Shm} (h : D.RecordsLevelled w)
    (n r : Bytes) (a : Action Proc Ctl) :
    D.recordsOf n r w ++ D.written n r w a = D.taken n r w a ++ D.recordsOf n r (D.next w a) := by
  by_cases ha : a.movesRecords = true
  · cases a with
    | log p buffers => exact (recordsOf_log hQ n r w p buffers).symm
    | getDebugMsg p module level =>
        exact (List.append_nil _).trans (recordsOf_getDebugMsg hQ h n r p module level)
    | clear c => exact (List.append_nil _).trans (recordsOf_clear hQ n r w c)
    | _ => cases ha
  · have ha' : a.movesRecords = false := by simpa using ha
    have hspares : ∀ call, D.queueCall w a = some call → call.Spares r msgTypeLog := by
      intro call hcall
      refine LogSession.queueCall_spares_log ?_ ?_ ?_ hcall
      · rintro p buffers rfl
        cases ha'
      · rintro c rfl
        cases ha'
      · rintro p module level rfl
        cases ha'
    have hsame : D.recordsOf n r (D.next w a) = D.recordsOf n r w := by
      rw [recordsOf_eq, recordsOf_eq, ofType_next hQ hspares]
    have hnone : D.written n r w a = [] ∧ D.taken n r w a = [] := by
      cases a with
      | log p buffers => cases ha'
      | getDebugMsg p module level => cases ha'
      | clear c => cases ha'
      | _ => exact ⟨rfl, rfl⟩
    rw [hsame, hnone.1, hnone.2, List.append_nil, List.nil_append]

omit [DecidableEq Proc] [DecidableEq Ctl] in
/-- A reader that asks for a module, at a level that lets records through, gets
the oldest record of it. -/
theorem pop_record (hQ : D.queue.Fifo) {w : World Proc Ctl Shm} (h : D.RecordsLevelled w)
    {n : Bytes} (hn : n ≠ []) (r : Bytes) {level : Int}
    (hlevel : D.queue.levelOk level 1 = true) :
    (D.queue.pop w.shm r (logFilter n level)).1 = (D.recordsOf n r w).head? := by
  have hsame : (D.queue.pending w.shm r).filter (D.queue.accepts (logFilter n level))
      = D.recordsOf n r w := by
    refine List.filter_congr fun m hm => ?_
    cases hrec : isRecordOf n m with
    | true =>
        rw [h.accepts_record hm hrec, hlevel]
        simp
    | false =>
        have hne : ¬(m.type = msgTypeLog ∧ m.sender = n) := by simpa [isRecordOf] using hrec
        simp only [accepts, logFilter, Bool.and_eq_false_iff]
        by_cases htype : m.type = msgTypeLog
        · right
          simpa [hn] using fun hsender => hne ⟨htype, hsender⟩
        · left
          left
          simpa using htype
  rw [hQ.pop_result, ← hsame, List.head?_filter]

/-! ## Whole runs -/

/-- **Records keep their order, module by module.** Over every run the records
of a module that were in a queue and those written to it since, in this order,
are those taken from it, each once, and those still there; and the next reader
that asks for the module gets the first of the latter. -/
theorem records_in_module_order (hQ : D.queue.Fifo) {w w' : World Proc Ctl Shm}
    (hw : D.system.Reachable w) {l : List (Action Proc Ctl)}
    (h : D.system.run w l = some w') (n r : Bytes) :
    D.recordsOf n r w ++ D.system.collect (D.written n r) w l
        = D.system.collect (D.taken n r) w l ++ D.recordsOf n r w'
      ∧ ∀ level, n ≠ [] → D.queue.levelOk level 1 = true →
          (D.queue.pop w'.shm r (logFilter n level)).1 = (D.recordsOf n r w').head? := by
  refine ⟨?_, fun level hn hlevel =>
    pop_record hQ (recordsLevelled_reachable hQ (hw.run h)) hn r hlevel⟩
  refine Lts.run_queue (I := D.system.Reachable) (q := D.recordsOf n r) (f := D.taken n r)
    (g := D.written n r) (fun _ _ _ hi hst => hi.tail trivial hst) ?_ h hw
  intro w a w' hi hst
  obtain ⟨-, rfl⟩ := step_eq_some.mp hst
  exact recordsOf_next hQ (recordsLevelled_reachable hQ hi) n r a

/-- Both processes write, two readers ask for one module each, and a reader of
any module takes the oldest record left. -/
def readingTwo : List (Action Host Unit) :=
  [.log .first (ascii "a"), .log .second (ascii "b"), .log .first (ascii "c"),
    .getDebugMsg .first (ascii "second") 5, .log .second (ascii "d"),
    .getDebugMsg .second (ascii "first") 5, .getDebugMsg .first [] 5]

open twoProcesses in
/-- The records of the first process went to two readers. -/
theorem records_in_module_order_two :
    twoProcesses.system.collect (twoProcesses.taken (ascii "first") (ascii "Debuger"))
          LogSession.booted readingTwo
        = [LogRecord.queued ⟨ascii "first", 0, ascii "a"⟩,
          LogRecord.queued ⟨ascii "first", 0, ascii "c"⟩]
      ∧ twoProcesses.recordsOf (ascii "first") (ascii "Debuger") LogSession.booted
          ++ twoProcesses.system.collect (twoProcesses.written (ascii "first") (ascii "Debuger"))
            LogSession.booted readingTwo
        = twoProcesses.system.collect (twoProcesses.taken (ascii "first") (ascii "Debuger"))
            LogSession.booted readingTwo
          ++ twoProcesses.recordsOf (ascii "first") (ascii "Debuger")
            (after (fun _ _ => true) LogSession.booted readingTwo)
      ∧ (twoProcesses.queue.pop (after (fun _ _ => true) LogSession.booted readingTwo).shm
          (ascii "Debuger") (logFilter (ascii "second") 5)).1
        = (twoProcesses.recordsOf (ascii "second") (ascii "Debuger")
          (after (fun _ _ => true) LogSession.booted readingTwo)).head? := by
  have hrun : twoProcesses.system.run LogSession.booted readingTwo
      = some (after (fun _ _ => true) LogSession.booted readingTwo) :=
    run_after (by decide +kernel)
  refine ⟨by decide +kernel, ?_, ?_⟩
  · exact (records_in_module_order Boxes.queue_fifo LogSession.booted_reachable hrun
      (ascii "first") (ascii "Debuger")).1
  · exact (records_in_module_order Boxes.queue_fifo LogSession.booted_reachable hrun
      (ascii "second") (ascii "Debuger")).2 5 (by decide) (by decide)

end Deployment

end JustCommon
