import JustCommon.Ledger
import JustCommon.ProxyRuns

/-!
# Shutting the debug proxy down

With `exit_` set every step of `start()` goes towards its return, from
wherever `shutdown` found the thread, and whatever the operations on the
way answer: `Point.left` is how many steps are left at most. So the join in
`shutdown` comes to an end. And since `exit_` stays set, the threads of all
later startups return from their first test.
-/

namespace JustCommon

/-- The steps from here to the return of `start()` with `exit_` set, at most. -/
def Point.left : Point → Nat
  | .returned => 0
  | .outerTest => 1
  | .lock => 1
  | .accept => 2
  | .refuseBody => 2
  | .streamTest => 2
  | .refuseHead => 3
  | .head => 3
  | .body _ => 3
  | .debugOn => 4
  | .pop => 4
  | .read => 5

theorem Point.left_le (point : Point) : point.left ≤ 5 := by
  cases point <;> simp [Point.left]

namespace DebugProxy

variable {localTime : Nat → Bytes}

/-- `Point.left` of the thread, if there is one. -/
def left (s : DebugProxy) : Nat := s.thread.elim 0 Point.left

/-! ## One step with `exit_` set -/

/-- A step leads to a point that is nearer to the return, and never to an
accept or a read. -/
theorem resume_exiting {s s' : DebugProxy} {answer : Answer} {point : Point}
    (hexit : s.exit = true) (hstep : s.resume localTime answer point = some s') :
    s'.exit = true ∧ ∃ next, s'.thread = some next ∧ next.left < point.left
      ∧ next ≠ .accept ∧ next ≠ .read := by
  cases point with
  | outerTest =>
      obtain rfl := Option.some.inj hstep
      rw [hexit]
      exact ⟨hexit, .returned, rfl, by decide⟩
  | accept =>
      obtain rfl := Option.some.inj hstep
      exact ⟨hexit, .lock, rfl, by decide⟩
  | lock =>
      obtain rfl := Option.some.inj hstep
      rw [hexit]
      exact ⟨rfl, .returned, rfl, by decide⟩
  | read =>
      obtain rfl := Option.some.inj hstep
      split
      · exact ⟨hexit, .returned, rfl, by decide⟩
      · split
        · exact ⟨hexit, .debugOn, rfl, by decide⟩
        · exact ⟨hexit, .refuseHead, rfl, by decide⟩
  | refuseHead =>
      obtain rfl := Option.some.inj hstep
      split
      · exact ⟨hexit, .returned, rfl, by decide⟩
      · exact ⟨hexit, .refuseBody, rfl, by decide⟩
  | refuseBody =>
      obtain rfl := Option.some.inj hstep
      split <;> exact ⟨hexit, .outerTest, rfl, by decide⟩
  | debugOn =>
      obtain rfl := Option.some.inj hstep
      exact ⟨hexit, .head, rfl, by decide⟩
  | head =>
      obtain rfl := Option.some.inj hstep
      split
      · exact ⟨hexit, .returned, rfl, by decide⟩
      · exact ⟨hexit, .streamTest, rfl, by decide⟩
  | streamTest =>
      obtain rfl := Option.some.inj hstep
      rw [hexit]
      exact ⟨hexit, .outerTest, rfl, by decide⟩
  | pop =>
      simp only [DebugProxy.resume] at hstep
      split at hstep
      · obtain rfl := Option.some.inj hstep
        exact ⟨hexit, .streamTest, rfl, by decide⟩
      · obtain rfl := Option.some.inj hstep
        exact ⟨hexit, _, rfl, by simp [Point.left]⟩
  | body text =>
      obtain rfl := Option.some.inj hstep
      split
      · exact ⟨hexit, .outerTest, rfl, by simp [Point.left]⟩
      · exact ⟨hexit, .streamTest, rfl, by simp [Point.left]⟩
  | returned => cases hstep

/-- The thread is stuck nowhere before its return. -/
theorem resume_isSome (localTime : Nat → Bytes) (s : DebugProxy) (answer : Answer)
    {point : Point} (hpoint : point ≠ .returned) : (s.resume localTime answer point).isSome = true := by
  cases point with
  | returned => exact absurd rfl hpoint
  | pop =>
      simp only [DebugProxy.resume]
      split <;> rfl
  | _ => rfl

/-! ## The join -/

/-- `shutdown` sets `exit_` before it joins the thread. -/
def Announced (s : DebugProxy) : Prop := s.phase = .stopping → s.exit = true

theorem Announced.step {s s' : DebugProxy} {a : Action} (h : s.Announced)
    (hstep : s.step localTime a = some s') : s'.Announced := by
  intro hphase
  cases a with
  | startup ec =>
      obtain ⟨-, rfl⟩ := step_startup hstep
      cases hphase
  | shutdown =>
      obtain rfl := step_shutdown hstep
      rfl
  | join =>
      obtain ⟨-, rfl⟩ := step_join hstep
      cases hphase
  | thread answer =>
      obtain ⟨point, -, hresume, hsame⟩ := step_thread hstep
      exact (resume_exiting (h (hsame ▸ hphase)) hresume).1

theorem announced_reachable {s : DebugProxy} (hs : (system localTime).Reachable s) :
    s.Announced := by
  refine Lts.Reachable.invariant (I := Announced) ?_ ?_ hs
  · rintro s rfl hphase
    cases hphase
  · intro s a s' _ h hstep
    exact h.step hstep

/-- The thread's steps, then the join. The induction is on the answers; each
one is used up by a step that lowers `left`. -/
theorem joined_of_exiting : ∀ {answers : List Answer} {s : DebugProxy}, s.exit = true →
    s.phase = .stopping → s.left ≤ answers.length →
    ∃ n t, n ≤ s.left ∧ (system localTime).run s ((answers.take n).map .thread ++ [.join])
        = some t ∧ t.phase = .stopped ∧ t.thread = none := by
  intro answers
  induction answers with
  | nil =>
      intro s _ hphase hleft
      have hdone : s.thread = none ∨ s.thread = some .returned := by
        cases hthread : s.thread with
        | none => exact Or.inl rfl
        | some point =>
            rw [DebugProxy.left, hthread] at hleft
            cases point <;> simp_all [Point.left]
      exact ⟨0, { s with phase := .stopped, thread := none }, Nat.zero_le _,
        by simp [system, DebugProxy.step, hphase, hdone], rfl, rfl⟩
  | cons answer rest ih =>
      intro s hexit hphase hleft
      by_cases hdone : s.thread = none ∨ s.thread = some .returned
      · exact ⟨0, { s with phase := .stopped, thread := none }, Nat.zero_le _,
          by simp [system, DebugProxy.step, hphase, hdone], rfl, rfl⟩
      · obtain ⟨hnone, hreturned⟩ := not_or.mp hdone
        obtain ⟨point, hpoint⟩ := Option.ne_none_iff_exists'.mp hnone
        have hrunning : point ≠ .returned := fun h => hreturned (h ▸ hpoint)
        obtain ⟨s', hresume⟩ := Option.isSome_iff_exists.mp
          (resume_isSome localTime s answer hrunning)
        have hstep : (system localTime).step s (.thread answer) = some s' := by
          simpa [system, DebugProxy.step, hpoint] using hresume
        obtain ⟨hexit', next, hnext, hlt, -⟩ := resume_exiting hexit hresume
        obtain ⟨-, -, -, hsame⟩ := step_thread hstep
        have hs : s.left = point.left := by rw [DebugProxy.left, hpoint]; rfl
        have hs' : s'.left = next.left := by rw [DebugProxy.left, hnext]; rfl
        rw [List.length_cons] at hleft
        obtain ⟨n, t, hn, hrun, hend⟩ := ih hexit' (hsame.trans hphase) (by omega)
        refine ⟨n + 1, t, by omega, ?_, hend⟩
        rw [List.take_succ_cons, List.map_cons, List.cons_append, Lts.run_cons, hstep,
          Option.bind_some, hrun]

/-- **`shutdown` returns.** Wherever it found the thread, after at most five
more of the thread's steps the join is there, whatever these are answered. -/
theorem shutdown_returns (localTime : Nat → Bytes) {s : DebugProxy}
    (hs : (system localTime).Reachable s) (hphase : s.phase = .stopping)
    (answers : List Answer) (hlength : 5 ≤ answers.length) :
    ∃ n t, n ≤ 5 ∧ (system localTime).run s ((answers.take n).map .thread ++ [.join]) = some t
      ∧ t.phase = .stopped ∧ t.thread = none := by
  have hleft : s.left ≤ 5 := by
    rw [DebugProxy.left]
    cases s.thread with
    | none => exact Nat.zero_le _
    | some point => exact point.left_le
  obtain ⟨n, t, hn, hrun, hend⟩ :=
    joined_of_exiting (announced_reachable hs hphase) hphase (hleft.trans hlength)
  exact ⟨n, t, hn.trans hleft, hrun, hend⟩

/-- A session is streaming when `shutdown` comes; the client takes one more record. -/
def interrupted : DebugProxy :=
  after (fun _ _ => true) (session ++ [.thread {}, .shutdown])

theorem interrupted_reachable : (system fun _ => []).Reachable interrupted :=
  reachable_after (fun _ _ _ => trivial) (by decide +kernel)

theorem shutdown_returns_interrupted :
    interrupted.thread = some .pop ∧ ∃ n t, n ≤ 5 ∧ (system fun _ => []).run interrupted
        (((List.replicate 5 { popped := [{}] }).take n).map .thread ++ [.join]) = some t
      ∧ t.phase = .stopped ∧ t.thread = none :=
  ⟨by decide +kernel, shutdown_returns (fun _ => []) interrupted_reachable
    (by decide +kernel) _ (by decide)⟩

/-! ## After it

`exit_` stays set, so what holds of the thread that is joined holds of the
ones of later startups. -/

/-- A step of the thread. -/
def Action.isThread : Action → Bool
  | .thread _ => true
  | _ => false

def Action.isStartup : Action → Bool
  | .startup _ => true
  | _ => false

/-- The thread takes its step from the point `q`. -/
def passes (q : Point) (s : DebugProxy) : Action → Nat
  | .thread _ => if s.thread = some q then 1 else 0
  | _ => 0

/-- There is no thread, or one that has no connection yet or no more. -/
def Quiet (s : DebugProxy) : Prop :=
  s.thread = none ∨ s.thread = some .outerTest ∨ s.thread = some .returned

theorem step_exiting {s s' : DebugProxy} {a : Action} (hexit : s.exit = true)
    (hstep : s.step localTime a = some s') : s'.exit = true := by
  cases a with
  | startup ec =>
      obtain ⟨-, rfl⟩ := step_startup hstep
      exact hexit
  | shutdown =>
      obtain rfl := step_shutdown hstep
      rfl
  | join =>
      obtain ⟨-, rfl⟩ := step_join hstep
      exact hexit
  | thread answer =>
      obtain ⟨point, -, hresume, -⟩ := step_thread hstep
      exact (resume_exiting hexit hresume).1

/-- A startup adds the one test of a new thread, and a step of the thread is
one less of those left. -/
theorem left_step {s s' : DebugProxy} {a : Action} (hexit : s.exit = true)
    (hstep : s.step localTime a = some s') :
    s'.left + (if a.isThread then 1 else 0) ≤ s.left + if a.isStartup then 1 else 0 := by
  cases a with
  | startup ec =>
      obtain ⟨-, rfl⟩ := step_startup hstep
      cases hec : ec.failed <;> simp [left, Action.isThread, Action.isStartup, Point.left]
  | shutdown =>
      obtain rfl := step_shutdown hstep
      exact Nat.le_refl _
  | join =>
      obtain ⟨-, rfl⟩ := step_join hstep
      exact Nat.zero_le _
  | thread answer =>
      obtain ⟨point, hpoint, hresume, -⟩ := step_thread hstep
      obtain ⟨-, next, hnext, hlt, -⟩ := resume_exiting hexit hresume
      simp only [left, hpoint, hnext, Option.elim_some, Action.isThread, Action.isStartup]
      exact hlt

/-- The thread gets to no accept and no read any more. -/
theorem passes_step {s s' : DebugProxy} {a : Action} {q : Point}
    (hq : q = .accept ∨ q = .read) (hexit : s.exit = true)
    (hstep : s.step localTime a = some s') :
    (if s'.thread = some q then 1 else 0) + passes q s a
      ≤ (if s.thread = some q then 1 else 0) + 0 := by
  cases a with
  | startup ec =>
      obtain ⟨-, rfl⟩ := step_startup hstep
      rcases hq with rfl | rfl <;> cases hec : ec.failed <;> simp [passes]
  | shutdown =>
      obtain rfl := step_shutdown hstep
      exact Nat.le_refl _
  | join =>
      obtain ⟨-, rfl⟩ := step_join hstep
      simp [passes]
  | thread answer =>
      obtain ⟨point, -, hresume, -⟩ := step_thread hstep
      obtain ⟨-, next, hnext, -, haccept, hread⟩ := resume_exiting hexit hresume
      have hne : next ≠ q := by rcases hq with rfl | rfl <;> assumption
      simp [passes, hnext, hne]

/-- Out of a quiet state nothing is sent, switched, opened or closed. -/
theorem Quiet.step {s s' : DebugProxy} {a : Action} (h : s.Quiet) (hexit : s.exit = true)
    (hstep : s.step localTime a = some s') : s'.Quiet
      ∧ s'.sent = s.sent ∧ s'.modeCalls = s.modeCalls ∧ s'.socket = s.socket := by
  cases a with
  | startup ec =>
      obtain ⟨-, rfl⟩ := step_startup hstep
      refine ⟨?_, rfl, rfl, rfl⟩
      cases hec : ec.failed with
      | true => exact Or.inl rfl
      | false => exact Or.inr (Or.inl rfl)
  | shutdown =>
      obtain rfl := step_shutdown hstep
      exact ⟨h, rfl, rfl, rfl⟩
  | join =>
      obtain ⟨-, rfl⟩ := step_join hstep
      exact ⟨Or.inl rfl, rfl, rfl, rfl⟩
  | thread answer =>
      obtain ⟨point, hpoint, hresume, -⟩ := step_thread hstep
      rcases h with h | h | h
      · cases hpoint.symm.trans h
      · obtain rfl := Option.some.inj (hpoint.symm.trans h)
        have hs' : s' = s.goto .returned := by
          simpa [DebugProxy.resume, hexit] using hresume.symm
        rw [hs']
        exact ⟨Or.inr (Or.inr rfl), rfl, rfl, rfl⟩
      · obtain rfl := Option.some.inj (hpoint.symm.trans h)
        cases hresume

theorem Quiet.run {s t : DebugProxy} {l : List Action} (h : s.Quiet) (hexit : s.exit = true)
    (hrun : (system localTime).run s l = some t) :
    t.sent = s.sent ∧ t.modeCalls = s.modeCalls ∧ t.socket = s.socket := by
  have hend := Lts.run_invariant (M := system localTime) (I := fun u => u.exit = true ∧ u.Quiet
    ∧ u.sent = s.sent ∧ u.modeCalls = s.modeCalls ∧ u.socket = s.socket) ?_ hrun
    ⟨hexit, h, rfl, rfl, rfl⟩
  · exact hend.2.2
  · rintro u a v ⟨hu, hq, hsent, hmode, hsocket⟩ hstep
    obtain ⟨hv, hsent', hmode', hsocket'⟩ := hq.step hu hstep
    exact ⟨step_exiting hu hstep, hv, hsent'.trans hsent, hmode'.trans hmode,
      hsocket'.trans hsocket⟩

/-- **After `shutdown` the proxy serves nobody, started again or not.** In
every run with `exit_` set the threads take no more steps than were left and
one for each startup; only the accept and the read that were in progress end;
and once the thread has returned, nothing is sent, no mode is switched and no
connection opened or closed. -/
theorem serves_nobody (localTime : Nat → Bytes) {s t : DebugProxy} {l : List Action}
    (hexit : s.exit = true) (hrun : (system localTime).run s l = some t) :
    t.left + l.countP Action.isThread ≤ s.left + l.countP Action.isStartup
      ∧ (∀ q, q = .accept ∨ q = .read →
        (system localTime).total (passes q) s l ≤ if s.thread = some q then 1 else 0)
      ∧ (s.thread = none ∨ s.thread = some .returned →
        t.sent = s.sent ∧ t.modeCalls = s.modeCalls ∧ t.socket = s.socket) := by
  refine ⟨?_, ?_, ?_⟩
  · exact Lts.count_budget (I := fun s => s.exit = true) (fun _ _ _ h => step_exiting h)
      (fun _ _ _ h => left_step h) hrun hexit
  · intro q hq
    have hbudget := Lts.run_budget (I := fun s => s.exit = true) (g := fun _ _ => 0)
      (fun _ _ _ h => step_exiting h) (fun _ _ _ h => passes_step hq h) hrun hexit
    have hzero : (system localTime).total (fun _ _ => 0) s l = 0 := by
      simpa using Lts.total_label 0 (fun _ => true) hrun
    rw [hzero] at hbudget
    exact (Nat.le_add_left _ _).trans hbudget
  · intro hdone
    have hquiet : s.Quiet := hdone.imp_right Or.inr
    exact hquiet.run hexit hrun

/-- The interrupted session is joined, and the proxy started again. -/
def startedAgain : List Action :=
  [.thread {}, .thread {}, .thread {}, .join, .startup .success, .thread {}]

theorem serves_nobody_startedAgain : ∃ t, (system fun _ => []).run interrupted startedAgain
    = some t ∧ t.left + startedAgain.countP Action.isThread
      ≤ interrupted.left + startedAgain.countP Action.isStartup := by
  obtain ⟨t, ht⟩ := Option.isSome_iff_exists.mp
    (show ((system fun _ => []).run interrupted startedAgain).isSome = true by decide +kernel)
  exact ⟨t, ht, (serves_nobody (fun _ => []) (by decide +kernel) ht).1⟩

end DebugProxy

end JustCommon
