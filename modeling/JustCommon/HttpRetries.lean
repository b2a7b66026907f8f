import JustCommon.HttpStatistics

/-!
# More tries than the counter can count

The counter of `HttpStatistics` is a `size_t` and is not guarded. After `2^w`
tries it is zero again, so the next `begin_try` resets without being asked
to, and the try after the reset is taken for a first one. A try may be ended
by either `end_try`; the one without an error reports the base part's, that
of the try the round started with.
-/

namespace JustCommon

namespace HttpStatistics

variable {Rest Clock : Type} {w : Nat} (H : HttpClient Rest Clock)

theorem attempts_tryTimes (s : HttpStatistics Rest w) (ts : List (Attempt Rest Clock)) :
    (s.attempts H ts).tryTimes = s.tryTimes + BitVec.ofNat w ts.length := by
  induction ts generalizing s with
  | nil => exact (BitVec.add_zero s.tryTimes).symm
  | cons t ts ih =>
      rw [attempts, List.foldl_cons, ← attempts, ih, attempt_tryTimes, List.length_cons,
        BitVec.ofNat_add, BitVec.add_assoc, BitVec.add_comm (BitVec.ofNat w ts.length)]
      rfl

/-- Where the round of the last element starts, in rounds of `n`. -/
theorem exists_round {α : Type*} {n : Nat} (hn : 0 < n) :
    ∀ ts : List α, ts ≠ [] → ∃ before first more, ts = before ++ first :: more
      ∧ n ∣ before.length ∧ more.length < n := by
  intro ts hts
  have hpos : 0 < ts.length := List.length_pos_iff.mpr hts
  have hdiv := Nat.div_add_mod (ts.length - 1) n
  have hmod := Nat.mod_lt (ts.length - 1) hn
  have hlt : n * ((ts.length - 1) / n) < ts.length := by omega
  refine ⟨ts.take (n * ((ts.length - 1) / n)), ts[n * ((ts.length - 1) / n)],
    ts.drop (n * ((ts.length - 1) / n) + 1), ?_, ?_, ?_⟩
  · rw [← List.drop_eq_getElem_cons hlt, List.take_append_drop]
  · rw [List.length_take, Nat.min_eq_left (Nat.le_of_lt hlt)]
    exact Nat.dvd_mul_right n _
  · rw [List.length_drop]
    omega

/-- **What any number of tries leaves.** After tries from a zero counter, each
ended by either `end_try`, the counter is their number modulo `2^w`; base part
and start of `total_elapse` are those of the try the current round of `2^w`
started with, whatever was there before; and the latest error is the one the
last `end_try` was given or, if it was given none, that of the round's first
try. -/
theorem attempts_summary {s : HttpStatistics Rest w} (hs : s.tryTimes = 0)
    {ts : List (Attempt Rest Clock)} (hts : ts ≠ []) :
    ∃ before first more, ts = before ++ first :: more
      ∧ 2 ^ w ∣ before.length ∧ more.length < 2 ^ w
      ∧ Attempted H first (ts.getLast hts) ts.length (s.attempts H ts) := by
  obtain ⟨before, first, more, rfl, hdvd, hmore⟩ := exists_round (Nat.two_pow_pos w) ts hts
  refine ⟨before, first, more, rfl, hdvd, hmore, ?_⟩
  have hround : BitVec.ofNat w before.length = 0 := by
    refine BitVec.eq_of_toNat_eq ?_
    rw [BitVec.toNat_ofNat, Nat.mod_eq_zero_of_dvd hdvd]
    exact BitVec.toNat_zero.symm
  have hzero : (s.attempts H before).tryTimes = 0 := by
    rw [attempts_tryTimes, hs, hround]
    exact BitVec.zero_add 0
  have hcount : BitVec.ofNat w (before ++ first :: more).length
      = BitVec.ofNat w (more.length + 1) := by
    rw [List.length_append, BitVec.ofNat_add, hround, List.length_cons]
    exact BitVec.zero_add _
  have hall := attempts_round H hzero first more hmore
  rw [attempts, List.foldl_append, List.getLast_append_of_ne_nil _ (List.cons_ne_nil _ _),
    ← attempts, ← attempts]
  exact ⟨hall.base, hall.tryTimes.trans hcount.symm, hall.totalElapse, hall.lastLastError⟩

/-- Five tries with a counter of two bits: the base part is the fifth one's. -/
def fiveTries : List (Attempt Nat Nat) := [
  ⟨⟨.other 111, 10⟩, none, 10, 15⟩, ⟨⟨.other 5, 20⟩, some (.other 5), 20, 25⟩,
  ⟨⟨.success, 30⟩, none, 30, 35⟩, ⟨⟨.other 7, 40⟩, none, 40, 45⟩,
  ⟨⟨.other 9, 50⟩, none, 50, 55⟩]

theorem attempts_summary_five :
    ∃ before first more, fiveTries = before ++ first :: more
      ∧ 2 ^ 2 ∣ before.length ∧ more.length < 2 ^ 2
      ∧ Attempted stopwatch first ⟨⟨.other 9, 50⟩, none, 50, 55⟩ 5
        (attempts stopwatch (construct stopwatch ⟨.success, 0⟩ 0 : HttpStatistics Nat 2)
          fiveTries) :=
  attempts_summary stopwatch rfl (List.cons_ne_nil _ _)

end HttpStatistics

end JustCommon
