import JustCommon.Basic
import JustCommon.Runs
import Mathlib.Data.List.Induction

/-!
# Statistics over several tries

`HttpStatistics` extends the statistics of one HTTP request to a sequence of
tries: the base part is that of the first try, `last_last_error` is that of
the latest one, `total_elapse` is measured from the first try's start, and
`try_times` counts. The counter also decides: `begin_try` resets at 0 and
`end_try` takes the base part over at 1.

There are two `end_try`. `endTryEc` is given the error of the try; `endTry`
takes it from the base part, which after the first try is not that of the
try that ended.
-/

namespace JustCommon

/-- `util::protocol::HttpClient::Statistics`: the member the source names, and
the others. -/
structure Statistics (Rest : Type) where
  lastError : ErrorCode
  rest : Rest
deriving DecidableEq, Repr

/-- What the framework's `Statistics` can do; both read the clock. -/
structure HttpClient (Rest Clock : Type) where
  reset : Statistics Rest → Clock → Statistics Rest
  elapse : Statistics Rest → Clock → UInt32

/-- `w` is the width of `size_t`. -/
structure HttpStatistics (Rest : Type) (w : Nat) extends Statistics Rest where
  tryTimes : BitVec w
  totalElapse : UInt32
  lastLastError : ErrorCode
deriving DecidableEq, Repr

namespace HttpStatistics

variable {Rest Clock : Type} {w : Nat}

section Operations

variable (H : HttpClient Rest Clock)

/-- The constructor, the framework having constructed the base part. -/
def construct (base : Statistics Rest) (now : Clock) : HttpStatistics Rest w where
  toStatistics := H.reset base now
  tryTimes := 0
  totalElapse := -1
  lastLastError := .success

def reset (s : HttpStatistics Rest w) (now : Clock) : HttpStatistics Rest w where
  toStatistics := H.reset s.toStatistics now
  tryTimes := 0
  totalElapse := -1
  lastLastError := .success

def beginTry (s : HttpStatistics Rest w) (now : Clock) : HttpStatistics Rest w :=
  let s := if s.tryTimes = 0 then s.reset H now else s
  { s with tryTimes := s.tryTimes + 1 }

/-- `end_try(stat)` -/
def endTry (s : HttpStatistics Rest w) (stat : Statistics Rest) (now : Clock) :
    HttpStatistics Rest w :=
  let s := if s.tryTimes = 1 then { s with toStatistics := stat } else s
  { s with
    totalElapse := H.elapse s.toStatistics now
    lastLastError := s.lastError }

/-- `end_try(stat, ec)` -/
def endTryEc (s : HttpStatistics Rest w) (stat : Statistics Rest) (ec : ErrorCode)
    (now : Clock) : HttpStatistics Rest w :=
  let s := if s.tryTimes = 1
    then { s with toStatistics := { stat with lastError := ec } } else s
  { s with
    totalElapse := H.elapse s.toStatistics now
    lastLastError := ec }

end Operations

/-! ## What the counter decides -/

variable (H : HttpClient Rest Clock)

theorem beginTry_zero {s : HttpStatistics Rest w} (hs : s.tryTimes = 0) (now : Clock) :
    s.beginTry H now = { s.reset H now with tryTimes := 0 + 1 } := by
  unfold beginTry
  rw [if_pos hs]
  rfl

theorem beginTry_ne {s : HttpStatistics Rest w} (hs : s.tryTimes ≠ 0) (now : Clock) :
    s.beginTry H now = { s with tryTimes := s.tryTimes + 1 } := by
  unfold beginTry
  rw [if_neg hs]

theorem endTry_one {s : HttpStatistics Rest w} (hs : s.tryTimes = 1)
    (stat : Statistics Rest) (now : Clock) :
    s.endTry H stat now
      = { s with
          toStatistics := stat
          totalElapse := H.elapse stat now
          lastLastError := stat.lastError } := by
  unfold endTry
  rw [if_pos hs]

theorem endTry_ne {s : HttpStatistics Rest w} (hs : s.tryTimes ≠ 1)
    (stat : Statistics Rest) (now : Clock) :
    s.endTry H stat now
      = { s with
          totalElapse := H.elapse s.toStatistics now
          lastLastError := s.lastError } := by
  unfold endTry
  rw [if_neg hs]

theorem endTryEc_one {s : HttpStatistics Rest w} (hs : s.tryTimes = 1)
    (stat : Statistics Rest) (ec : ErrorCode) (now : Clock) :
    s.endTryEc H stat ec now
      = { s with
          toStatistics := { stat with lastError := ec }
          totalElapse := H.elapse { stat with lastError := ec } now
          lastLastError := ec } := by
  unfold endTryEc
  rw [if_pos hs]

theorem endTryEc_ne {s : HttpStatistics Rest w} (hs : s.tryTimes ≠ 1)
    (stat : Statistics Rest) (ec : ErrorCode) (now : Clock) :
    s.endTryEc H stat ec now
      = { s with
          totalElapse := H.elapse s.toStatistics now
          lastLastError := ec } := by
  unfold endTryEc
  rw [if_neg hs]

/-! ## A round of the counter -/

/-- `begin_try()`, then `end_try(stat)` or, with an error, `end_try(stat, ec)`. -/
structure Attempt (Rest Clock : Type) where
  stat : Statistics Rest
  ec : Option ErrorCode
  begun : Clock
  ended : Clock

/-- The base part a first attempt leaves. -/
def Attempt.base (t : Attempt Rest Clock) : Statistics Rest :=
  { t.stat with lastError := t.ec.getD t.stat.lastError }

def endAttempt (s : HttpStatistics Rest w) (t : Attempt Rest Clock) : HttpStatistics Rest w :=
  match t.ec with
  | none => s.endTry H t.stat t.ended
  | some ec => s.endTryEc H t.stat ec t.ended

def attempt (s : HttpStatistics Rest w) (t : Attempt Rest Clock) : HttpStatistics Rest w :=
  (s.beginTry H t.begun).endAttempt H t

def attempts (s : HttpStatistics Rest w) (ts : List (Attempt Rest Clock)) :
    HttpStatistics Rest w :=
  ts.foldl (attempt H) s

theorem beginTry_tryTimes (s : HttpStatistics Rest w) (now : Clock) :
    (s.beginTry H now).tryTimes = s.tryTimes + 1 := by
  by_cases hs : s.tryTimes = 0
  · rw [beginTry_zero H hs, hs]
  · rw [beginTry_ne H hs]

theorem endAttempt_tryTimes (s : HttpStatistics Rest w) (t : Attempt Rest Clock) :
    (s.endAttempt H t).tryTimes = s.tryTimes := by
  unfold endAttempt
  split
  · unfold endTry
    split <;> rfl
  · unfold endTryEc
    split <;> rfl

theorem attempt_tryTimes (s : HttpStatistics Rest w) (t : Attempt Rest Clock) :
    (s.attempt H t).tryTimes = s.tryTimes + 1 := by
  rw [attempt, endAttempt_tryTimes, beginTry_tryTimes]

/-- What attempts leave, `first` of them the one the counter's round started with,
`last` the latest one and `n` their number. -/
structure Attempted (first last : Attempt Rest Clock) (n : Nat) (s : HttpStatistics Rest w) :
    Prop where
  base : s.toStatistics = first.base
  tryTimes : s.tryTimes = BitVec.ofNat w n
  totalElapse : s.totalElapse = H.elapse first.base last.ended
  lastLastError : s.lastLastError = last.ec.getD first.base.lastError

theorem endAttempt_one {s : HttpStatistics Rest w} (hs : s.tryTimes = 1)
    (t : Attempt Rest Clock) :
    s.endAttempt H t
      = { s with
          toStatistics := t.base
          totalElapse := H.elapse t.base t.ended
          lastLastError := t.ec.getD t.base.lastError } := by
  obtain ⟨stat, ec, begun, ended⟩ := t
  cases ec with
  | none => exact endTry_one H hs stat ended
  | some ec => exact endTryEc_one H hs stat ec ended

theorem endAttempt_ne {s : HttpStatistics Rest w} (hs : s.tryTimes ≠ 1)
    (t : Attempt Rest Clock) :
    s.endAttempt H t
      = { s with
          totalElapse := H.elapse s.toStatistics t.ended
          lastLastError := t.ec.getD s.lastError } := by
  obtain ⟨stat, ec, begun, ended⟩ := t
  cases ec with
  | none => exact endTry_ne H hs stat ended
  | some ec => exact endTryEc_ne H hs stat ec ended

/-- An attempt at a zero counter starts a round. -/
theorem attempt_first {s : HttpStatistics Rest w} (hs : s.tryTimes = 0)
    (t : Attempt Rest Clock) : Attempted H t t 1 (s.attempt H t) := by
  have hone : (s.beginTry H t.begun).tryTimes = 1 := by
    rw [beginTry_tryTimes, hs]
    exact BitVec.zero_add 1
  rw [attempt, endAttempt_one H hone]
  exact ⟨rfl, hone, rfl, rfl⟩

/-- A further attempt of a round keeps the base part, also the one that brings
the counter back to zero. -/
theorem Attempted.more {first last : Attempt Rest Clock} {n : Nat}
    {s : HttpStatistics Rest w} (h : Attempted H first last n s) (hn : 1 ≤ n)
    (hw : n < 2 ^ w) (t : Attempt Rest Clock) :
    Attempted H first t (n + 1) (s.attempt H t) := by
  have hne0 : s.tryTimes ≠ 0 := by
    intro hzero
    have hnat := congrArg BitVec.toNat (h.tryTimes.symm.trans hzero)
    rw [BitVec.toNat_ofNat, Nat.mod_eq_of_lt hw] at hnat
    have hnone : (0 : BitVec w).toNat = 0 := BitVec.toNat_zero
    omega
  have hnext : (s.beginTry H t.begun).tryTimes = BitVec.ofNat w (n + 1) := by
    rw [beginTry_tryTimes, h.tryTimes, BitVec.ofNat_add]
    rfl
  have hne1 : (s.beginTry H t.begun).tryTimes ≠ 1 := by
    -- one more than a counter that is not zero
    rw [beginTry_tryTimes]
    intro hone
    exact hne0 ((BitVec.add_left_inj 1).mp (hone.trans (BitVec.zero_add 1).symm))
  rw [attempt, endAttempt_ne H hne1]
  rw [beginTry_ne H hne0] at hnext ⊢
  exact ⟨h.base, hnext, by rw [h.base], by rw [h.base]⟩

theorem attempts_round {s : HttpStatistics Rest w} (hs : s.tryTimes = 0)
    (first : Attempt Rest Clock) (more : List (Attempt Rest Clock))
    (hw : more.length < 2 ^ w) :
    Attempted H first ((first :: more).getLast (List.cons_ne_nil _ _)) (more.length + 1)
      (s.attempts H (first :: more)) := by
  -- on the attempts after the first, the latest taken off
  induction more using List.reverseRecOn with
  | nil => exact attempt_first H hs first
  | append_singleton more t ih =>
      rw [List.length_append, List.length_singleton] at hw
      have hbefore := ih (by omega)
      have hlast : (first :: (more ++ [t])).getLast (List.cons_ne_nil _ _) = t := by
        simp
      have hrun : s.attempts H (first :: (more ++ [t]))
          = (s.attempts H (first :: more)).attempt H t := by
        simp [attempts]
      rw [hlast, hrun, List.length_append, List.length_singleton]
      exact hbefore.more H (by omega) hw t

/-! ## Tries -/

/-- `begin_try(); end_try(stat, ec)`, with the clock at each call. -/
structure Try (Rest Clock : Type) where
  stat : Statistics Rest
  ec : ErrorCode
  begun : Clock
  ended : Clock

/-- The base part a first try leaves. -/
def Try.base (t : Try Rest Clock) : Statistics Rest := { t.stat with lastError := t.ec }

def tryOnce (s : HttpStatistics Rest w) (t : Try Rest Clock) : HttpStatistics Rest w :=
  (s.beginTry H t.begun).endTryEc H t.stat t.ec t.ended

def tries (s : HttpStatistics Rest w) (ts : List (Try Rest Clock)) :
    HttpStatistics Rest w :=
  ts.foldl (tryOnce H) s

/-- What `n` tries leave, the first of them `first` and the latest `last`. -/
structure Tried (first last : Try Rest Clock) (n : Nat) (s : HttpStatistics Rest w) :
    Prop where
  base : s.toStatistics = first.base
  tryTimes : s.tryTimes.toNat = n
  totalElapse : s.totalElapse = H.elapse first.base last.ended
  lastLastError : s.lastLastError = last.ec

/-- A try is an attempt that is given its error. -/
def Try.attempt (t : Try Rest Clock) : Attempt Rest Clock :=
  ⟨t.stat, some t.ec, t.begun, t.ended⟩

theorem tries_eq_attempts (s : HttpStatistics Rest w) (ts : List (Try Rest Clock)) :
    s.tries H ts = s.attempts H (ts.map Try.attempt) := by
  rw [attempts, List.foldl_map]
  rfl

/-- A sequence of tries from a zero counter, which it does not bring back to
zero. -/
theorem tries_tried {s : HttpStatistics Rest w} (hs : s.tryTimes = 0)
    (first : Try Rest Clock) (more : List (Try Rest Clock))
    (hw : more.length + 1 < 2 ^ w) :
    Tried H first ((first :: more).getLast (List.cons_ne_nil _ _)) (more.length + 1)
      (s.tries H (first :: more)) := by
  have hround := attempts_round H hs first.attempt (more.map Try.attempt)
    (by rw [List.length_map]; omega)
  have hlast : (first.attempt :: more.map Try.attempt).getLast (List.cons_ne_nil _ _)
      = ((first :: more).getLast (List.cons_ne_nil _ _)).attempt :=
    List.getLast_map (l := first :: more) (List.cons_ne_nil _ _)
  rw [hlast, List.length_map] at hround
  rw [tries_eq_attempts]
  refine ⟨hround.base, ?_, hround.totalElapse, hround.lastLastError⟩
  exact (congrArg BitVec.toNat hround.tryTimes).trans
    ((BitVec.toNat_ofNat _ w).trans (Nat.mod_eq_of_lt hw))

/-- The four members are all there is. -/
theorem Tried.unique {first last : Try Rest Clock} {n : Nat} {s s' : HttpStatistics Rest w}
    (h : Tried H first last n s) (h' : Tried H first last n s') : s = s' := by
  have htimes : s.tryTimes = s'.tryTimes :=
    BitVec.eq_of_toNat_eq (h.tryTimes.trans h'.tryTimes.symm)
  have hbase : s.toStatistics = s'.toStatistics := h.base.trans h'.base.symm
  have helapse : s.totalElapse = s'.totalElapse := h.totalElapse.trans h'.totalElapse.symm
  have herror : s.lastLastError = s'.lastLastError :=
    h.lastLastError.trans h'.lastLastError.symm
  cases s
  cases s'
  simp_all

/-- **What a sequence of tries leaves.** After a `reset`, or on a new object,
the base part and the start of `total_elapse` are the first try's, the
latest error is the last try's and the counter counts the tries. That is
the whole state, so it does not depend on what was there before. -/
theorem tries_summary (s : HttpStatistics Rest w) (base : Statistics Rest) (now : Clock)
    (first : Try Rest Clock) (more : List (Try Rest Clock))
    (hw : more.length + 1 < 2 ^ w) :
    Tried H first ((first :: more).getLast (List.cons_ne_nil _ _)) (more.length + 1)
        ((s.reset H now).tries H (first :: more))
      ∧ Tried H first ((first :: more).getLast (List.cons_ne_nil _ _)) (more.length + 1)
        ((construct H base now : HttpStatistics Rest w).tries H (first :: more))
      ∧ (s.reset H now).tries H (first :: more)
        = (construct H base now).tries H (first :: more) := by
  have hreset := tries_tried H (s := s.reset H now) rfl first more hw
  have hnew := tries_tried H (s := construct H base now) rfl first more hw
  exact ⟨hreset, hnew, hreset.unique H hnew⟩

/-- A framework whose `Statistics` hold the time they were last reset. -/
def stopwatch : HttpClient Nat Nat where
  reset _ now := { lastError := .success, rest := now }
  elapse s now := (now - s.rest).toUInt32

theorem tries_summary_two :
    Tried stopwatch ⟨⟨.success, 10⟩, .other 111, 10, 40⟩ ⟨⟨.success, 50⟩, .success, 50, 90⟩ 2
      ((reset stopwatch (⟨⟨.other 5, 3⟩, 7, 8, .other 9⟩ : HttpStatistics Nat 64) 10).tries
        stopwatch
        [⟨⟨.success, 10⟩, .other 111, 10, 40⟩, ⟨⟨.success, 50⟩, .success, 50, 90⟩]) :=
  (tries_summary stopwatch _ ⟨.success, 0⟩ 10 _ [⟨⟨.success, 50⟩, .success, 50, 90⟩]
    (by decide)).1

/-! ## The two `end_try` -/

inductive HttpOp (Rest Clock : Type) where
  | reset (now : Clock)
  | beginTry (now : Clock)
  | endTry (stat : Statistics Rest) (now : Clock)
  | endTryEc (stat : Statistics Rest) (ec : ErrorCode) (now : Clock)

def exec (s : HttpStatistics Rest w) : HttpOp Rest Clock → HttpStatistics Rest w
  | .reset now => s.reset H now
  | .beginTry now => s.beginTry H now
  | .endTry stat now => s.endTry H stat now
  | .endTryEc stat ec now => s.endTryEc H stat ec now

/-- Every history of an object. -/
def histories : Lts (HttpStatistics Rest w) (HttpOp Rest Clock) where
  init s := ∃ base now, s = construct H base now
  step s op := some (s.exec H op)

/-- The base part's error is that of the try `stat` describes. -/
def Current (s : HttpStatistics Rest w) (stat : Statistics Rest) : Prop :=
  s.tryTimes = 1 ∨ stat.lastError = s.lastError

/-- `end_try(stat)` does what `end_try(stat, stat.last_error)` does, and
`last_last_error` is then the error of the try. -/
structure Agree (s : HttpStatistics Rest w) (stat : Statistics Rest) (now : Clock) :
    Prop where
  same : s.endTry H stat now = s.endTryEc H stat stat.lastError now
  one : (s.endTry H stat now).lastLastError = stat.lastError
  two : (s.endTryEc H stat stat.lastError now).lastLastError = stat.lastError

theorem endTryEc_lastLastError (s : HttpStatistics Rest w) (stat : Statistics Rest)
    (ec : ErrorCode) (now : Clock) : (s.endTryEc H stat ec now).lastLastError = ec := rfl

theorem agree_iff (s : HttpStatistics Rest w) (stat : Statistics Rest) (now : Clock) :
    Agree H s stat now ↔ s.Current stat := by
  constructor
  · intro h
    by_cases hs : s.tryTimes = 1
    · exact Or.inl hs
    · right
      have hone := h.one
      rw [endTry_ne H hs] at hone
      exact hone.symm
  · intro h
    have hsame : s.endTry H stat now = s.endTryEc H stat stat.lastError now := by
      by_cases hs : s.tryTimes = 1
      · rw [endTry_one H hs, endTryEc_one H hs]
      · rw [endTry_ne H hs, endTryEc_ne H hs, h.resolve_left hs]
    refine ⟨hsame, ?_, rfl⟩
    rw [hsame, endTryEc_lastLastError]

/-- The same call through the other overload. -/
def HttpOp.withError : HttpOp Rest Clock → HttpOp Rest Clock
  | .endTry stat now => .endTryEc stat stat.lastError now
  | op => op

/-- Every `end_try(stat)` meets `Current`. -/
def CurrentOp (s : HttpStatistics Rest w) : HttpOp Rest Clock → Prop
  | .endTry stat _ => s.Current stat
  | _ => True

theorem exec_withError {s : HttpStatistics Rest w} {op : HttpOp Rest Clock}
    (h : s.CurrentOp op) : s.exec H op.withError = s.exec H op := by
  cases op with
  | endTry stat now => exact ((agree_iff H s stat now).mpr h).same.symm
  | reset now => rfl
  | beginTry now => rfl
  | endTryEc stat ec now => rfl

theorem run_withError :
    ∀ {ops : List (HttpOp Rest Clock)} {s : HttpStatistics Rest w},
      (histories H).Meets CurrentOp s ops →
      (histories H).run s (ops.map HttpOp.withError) = (histories H).run s ops
  | [], _, _ => rfl
  | op :: rest, s, h => by
      obtain ⟨hop, hrest⟩ := h
      have hstep : (histories H).step s op.withError = some (s.exec H op) :=
        congrArg some (exec_withError H hop)
      rw [List.map_cons, Lts.run_cons, Lts.run_cons, hstep]
      exact run_withError (hrest _ rfl)

/-- **When the two `end_try` agree.** In every reachable state: on the first
try, and on a later one whose error is the first one's. A history whose
`end_try(stat)` are all of that kind ends as if each had been given its
error. -/
theorem endTry_agree_iff (base : Statistics Rest) (now₀ : Clock)
    (ops : List (HttpOp Rest Clock)) :
    (∀ s : HttpStatistics Rest w, (histories H).run (construct H base now₀) ops = some s →
        ∀ stat now, Agree H s stat now ↔ s.Current stat)
      ∧ ((histories H).Meets CurrentOp (construct H base now₀ : HttpStatistics Rest w) ops →
        (histories H).run (construct H base now₀ : HttpStatistics Rest w)
            (ops.map HttpOp.withError)
          = (histories H).run (construct H base now₀) ops) :=
  ⟨fun s _ => agree_iff H s, run_withError H⟩

/-- A failed try and the start of a second one. -/
def failedOnce : List (HttpOp Nat Nat) :=
  [.beginTry 10, .endTry ⟨.other 111, 10⟩ 40, .beginTry 50]

theorem endTry_agree_iff_failedOnce :
    Agree stopwatch
      ((failedOnce.foldl (exec stopwatch) (construct stopwatch ⟨.success, 0⟩ 0) :
        HttpStatistics Nat 64)) ⟨.other 111, 50⟩ 90 :=
  ((endTry_agree_iff stopwatch ⟨.success, 0⟩ 0 failedOnce).1 _ rfl ⟨.other 111, 50⟩ 90).mpr
    (Or.inr rfl)

/-- A second try that succeeds is recorded with the first one's error. -/
theorem second_try_keeps_first_error :
    ∃ s : HttpStatistics Nat 64,
      (histories stopwatch).run (construct stopwatch ⟨.success, 0⟩ 0) failedOnce = some s
        ∧ (s.endTry stopwatch ⟨.success, 50⟩ 90).lastLastError = .other 111
        ∧ (s.endTryEc stopwatch ⟨.success, 50⟩ .success 90).lastLastError = .success
        ∧ ¬Agree stopwatch s ⟨.success, 50⟩ 90 := by
  refine ⟨_, rfl, by decide, by decide, ?_⟩
  intro h
  exact absurd h.one (by decide)

end HttpStatistics

end JustCommon
