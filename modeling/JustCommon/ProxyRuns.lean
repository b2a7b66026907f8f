import JustCommon.DebugProxy

/-!
# Sessions of the debug proxy

Two properties of `DebugProxy::start` over all runs of startups, shutdowns
and connections. Whenever it accepts and whenever it returns, the last
connection is closed and log capture is switched off; and it returns only
because `shutdown` was called or an accept failed. Each holds as long as
one kind of exit is not taken (`Undisturbed`, `Served`), and fails as soon
as it is.
-/

namespace JustCommon

namespace DebugProxy

variable {localTime : Nat → Bytes}

/-! ## What a step does -/

theorem step_startup {s s' : DebugProxy} {ec : ErrorCode}
    (hstep : s.step localTime (.startup ec) = some s') : s.phase = .stopped ∧ s' = { s with
      phase := .running
      thread := if ec.failed then none else some .outerTest
      shutdownSince := false
      acceptFailed := false } := by
  simp only [DebugProxy.step] at hstep
  split at hstep
  · rename_i hstopped
    exact ⟨hstopped, (Option.some.inj hstep).symm⟩
  · cases hstep

theorem step_shutdown {s s' : DebugProxy} (hstep : s.step localTime .shutdown = some s') :
    s' = { s with phase := .stopping, exit := true, shutdownSince := true } := by
  simp only [DebugProxy.step] at hstep
  split at hstep
  · exact (Option.some.inj hstep).symm
  · cases hstep

theorem step_join {s s' : DebugProxy} (hstep : s.step localTime .join = some s') :
    (s.thread = none ∨ s.thread = some .returned)
      ∧ s' = { s with phase := .stopped, thread := none } := by
  simp only [DebugProxy.step] at hstep
  split at hstep
  · rename_i hjoin
    exact ⟨hjoin.2, (Option.some.inj hstep).symm⟩
  · cases hstep

theorem step_thread {s s' : DebugProxy} {answer : Answer}
    (hstep : s.step localTime (.thread answer) = some s') :
    ∃ point, s.thread = some point ∧ s.resume localTime answer point = some s'
      ∧ s'.phase = s.phase := by
  obtain ⟨point, hpoint, hresume⟩ := Option.bind_eq_some_iff.mp hstep
  refine ⟨point, hpoint, hresume, ?_⟩
  cases point with
  | pop =>
      simp only [DebugProxy.resume] at hresume
      split at hresume <;> (obtain rfl := Option.some.inj hresume; rfl)
  | returned => cases hresume
  | _ =>
      obtain rfl := Option.some.inj hresume
      repeat (first | rfl | split)

/-! ## Before the response head -/

/-- Nothing was written on the connection yet. -/
def UnsentAt (s : DebugProxy) : Option Point → Prop
  | some .lock | some .read | some .refuseHead | some .debugOn | some .head => s.sent = []
  | _ => True

structure Unsent (s : DebugProxy) : Prop where
  stopped : s.phase = .stopped → s.thread = none
  point : s.UnsentAt s.thread

theorem UnsentAt.resume {s s' : DebugProxy} {answer : Answer} {point : Point}
    (h : s.UnsentAt (some point)) (hstep : s.resume localTime answer point = some s') :
    s'.UnsentAt s'.thread := by
  cases point with
  | lock =>
      obtain rfl := Option.some.inj hstep
      split <;> split <;> first | exact h | exact trivial
  | read =>
      obtain rfl := Option.some.inj hstep
      split
      · exact trivial
      · split <;> exact h
  | pop =>
      simp only [DebugProxy.resume] at hstep
      split at hstep <;> (obtain rfl := Option.some.inj hstep; exact trivial)
  | debugOn =>
      obtain rfl := Option.some.inj hstep
      exact h
  | accept =>
      obtain rfl := Option.some.inj hstep
      exact rfl
  | returned => cases hstep
  | _ =>
      obtain rfl := Option.some.inj hstep
      repeat (first | exact trivial | split)

theorem unsent_reachable {s : DebugProxy} (hs : (system localTime).Reachable s) :
    s.Unsent := by
  refine Lts.Reachable.invariant (I := Unsent) ?_ ?_ hs
  · rintro s rfl
    exact ⟨fun _ => rfl, trivial⟩
  · intro s a s' _ h hst
    have hst : s.step localTime a = some s' := hst
    cases a with
    | startup ec =>
        obtain ⟨-, rfl⟩ := step_startup hst
        refine ⟨fun hphase => (by cases hphase), ?_⟩
        cases hec : ec.failed <;> exact trivial
    | shutdown =>
        obtain rfl := step_shutdown hst
        exact ⟨fun hphase => (by cases hphase), h.point⟩
    | join =>
        obtain ⟨-, rfl⟩ := step_join hst
        exact ⟨fun _ => rfl, trivial⟩
    | thread answer =>
        obtain ⟨point, hpoint, hresume, hphase⟩ := step_thread hst
        refine ⟨fun hstopped => ?_, ?_⟩
        · rw [h.stopped (hphase ▸ hstopped)] at hpoint
          cases hpoint
        · have hunsent := h.point
          rw [hpoint] at hunsent
          exact hunsent.resume hresume

/-! ## Cleaning up -/

/-- The accepted socket is closed and log capture was last switched off. -/
def Clean (s : DebugProxy) : Prop :=
  s.socket = false ∧ s.modeCalls.getLast? ≠ some true

/-- The streaming loop's test does not find `exit_` set. -/
def Undisturbed (s : DebugProxy) : Action → Prop
  | .thread _ => s.thread = some .streamTest → s.exit = false
  | _ => True

/-- What is open and switched on at each point of `start()`. -/
def TidyAt (s : DebugProxy) : Option Point → Prop
  | none => s.Clean
  | some .outerTest => s.Clean
  | some .accept => s.Clean
  | some .returned => s.Clean
  | some .head => s.modeCalls.getLast? = some true
  | some .streamTest => s.modeCalls.getLast? = some true
  | some .pop => s.modeCalls.getLast? = some true
  | some (.body _) => s.modeCalls.getLast? = some true
  | _ => s.modeCalls.getLast? ≠ some true

structure Tidy (s : DebugProxy) : Prop where
  stopped : s.phase = .stopped → s.thread = none
  point : s.TidyAt s.thread

theorem getLast?_changeDebugMode (s : DebugProxy) (bdebug : Bool) :
    (s.changeDebugMode bdebug).modeCalls.getLast? = some bdebug :=
  List.getLast?_concat

theorem TidyAt.resume {s s' : DebugProxy} {answer : Answer} {point : Point}
    (h : s.TidyAt (some point)) (hexit : point = .streamTest → s.exit = false)
    (hstep : s.resume localTime answer point = some s') : s'.TidyAt s'.thread := by
  cases point with
  | outerTest =>
      obtain rfl := Option.some.inj hstep
      split <;> exact h
  | accept =>
      obtain rfl := Option.some.inj hstep
      exact h.2
  | lock =>
      obtain rfl := Option.some.inj hstep
      split
      · split
        · exact ⟨rfl, h⟩
        · exact h
      · split
        · exact ⟨rfl, h⟩
        · exact h
  | read =>
      obtain rfl := Option.some.inj hstep
      split
      · exact ⟨rfl, h⟩
      · split <;> exact h
  | refuseHead =>
      obtain rfl := Option.some.inj hstep
      split
      · exact ⟨rfl, h⟩
      · exact h
  | refuseBody =>
      obtain rfl := Option.some.inj hstep
      split <;> exact ⟨rfl, h⟩
  | debugOn =>
      obtain rfl := Option.some.inj hstep
      exact getLast?_changeDebugMode s true
  | head =>
      obtain rfl := Option.some.inj hstep
      split
      · refine ⟨rfl, ?_⟩
        simp [changeDebugMode, goto]
      · exact h
  | streamTest =>
      obtain rfl := Option.some.inj hstep
      rw [hexit rfl]
      exact h
  | pop =>
      simp only [DebugProxy.resume] at hstep
      split at hstep
      · obtain rfl := Option.some.inj hstep
        exact h
      · obtain rfl := Option.some.inj hstep
        exact h
  | body text =>
      obtain rfl := Option.some.inj hstep
      split
      · refine ⟨rfl, ?_⟩
        simp [changeDebugMode, goto]
      · exact h
  | returned => cases hstep

theorem Tidy.step {s s' : DebugProxy} {a : Action} (h : s.Tidy) (hok : s.Undisturbed a)
    (hstep : s.step localTime a = some s') : s'.Tidy := by
  cases a with
  | startup ec =>
      obtain ⟨hstopped, rfl⟩ := step_startup hstep
      have hclean := h.point
      rw [h.stopped hstopped] at hclean
      refine ⟨fun hphase => (by cases hphase), ?_⟩
      cases hec : ec.failed <;> exact hclean
  | shutdown =>
      obtain rfl := step_shutdown hstep
      exact ⟨fun hphase => (by cases hphase), h.point⟩
  | join =>
      obtain ⟨hdone, rfl⟩ := step_join hstep
      have hclean := h.point
      refine ⟨fun _ => rfl, ?_⟩
      rcases hdone with hthread | hthread <;> (rw [hthread] at hclean; exact hclean)
  | thread answer =>
      obtain ⟨point, hpoint, hresume, hphase⟩ := step_thread hstep
      refine ⟨fun hstopped => ?_, ?_⟩
      · rw [h.stopped (hphase ▸ hstopped)] at hpoint
        cases hpoint
      · have htidy := h.point
        rw [hpoint] at htidy
        exact htidy.resume (fun hp => hok (hp ▸ hpoint)) hresume

theorem tidy_reachable {s : DebugProxy}
    (hs : (system localTime).ReachableUnder Undisturbed s) : s.Tidy := by
  refine Lts.ReachableUnder.invariant (I := Tidy) ?_ ?_ hs
  · rintro s rfl
    exact ⟨fun _ => rfl, rfl, by simp [new]⟩
  · intro s a s' _ h hok hstep
    exact h.step hok hstep

/-- **The proxy cleans up after a session.** As long as the streaming loop's
test does not find `exit_` set, every accept and every return of `start()`
finds the connection closed and log capture off. A test that does find it
set is followed by a return with log capture on. -/
theorem session_cleaned_up (localTime : Nat → Bytes) :
    (∀ s, (system localTime).ReachableUnder Undisturbed s →
        s.thread = some .accept ∨ s.thread = some .returned → s.Clean)
      ∧ ∀ s a s', (system localTime).ReachableUnder Undisturbed s → ¬s.Undisturbed a →
        (system localTime).step s a = some s' →
        ∃ t, (system localTime).Path (fun _ _ => True) s' t
          ∧ t.thread = some .returned ∧ ¬t.Clean := by
  constructor
  · intro s hs hpoint
    have h := (tidy_reachable hs).point
    rcases hpoint with hpoint | hpoint <;> (rw [hpoint] at h; exact h)
  · intro s a s' hs hbad hstep
    have h := (tidy_reachable hs).point
    cases a with
    | thread answer =>
        obtain ⟨hpoint, hexit⟩ : s.thread = some .streamTest ∧ s.exit = true := by
          simpa [Undisturbed] using hbad
        rw [hpoint] at h
        have hs' : s' = s.goto .outerTest := by
          simpa [system, DebugProxy.step, hpoint, DebugProxy.resume, hexit] using hstep.symm
        refine ⟨s'.goto .returned, .tail (a := .thread {}) .refl trivial ?_, rfl, ?_⟩
        · have hexit' : s'.exit = true := by rw [hs']; exact hexit
          have hpoint' : s'.thread = some .outerTest := by rw [hs']; rfl
          simp [system, DebugProxy.step, hpoint', DebugProxy.resume, hexit']
        · rw [hs']
          exact fun hclean => hclean.2 h
    | startup ec => exact absurd trivial hbad
    | shutdown => exact absurd trivial hbad
    | join => exact absurd trivial hbad

/-- A proxy and its thread after a schedule; times are printed as nothing. -/
def after (check : DebugProxy → Action → Bool) (schedule : List Action) : DebugProxy :=
  ((system fun _ => []).replay check new schedule).getD new

theorem reachable_after {check : DebugProxy → Action → Bool}
    {ok : DebugProxy → Action → Prop} (hcheck : ∀ s a, check s a = true → ok s a)
    {schedule : List Action}
    (h : ((system fun _ => []).replay check new schedule).isSome = true) :
    (system fun _ => []).ReachableUnder ok (after check schedule) :=
  ⟨new, rfl, Lts.path_replay hcheck h⟩

/-- A startup, and a Firefox is connected up to the response head. -/
def session : List Action :=
  [.startup .success, .thread {}, .thread {}, .thread {},
    .thread { userAgent := ascii "Mozilla Firefox" }, .thread {}, .thread {}]

instance (s : DebugProxy) : DecidablePred s.Undisturbed
  | .thread _ => inferInstanceAs (Decidable (s.thread = some .streamTest → s.exit = false))
  | .startup _ | .shutdown | .join => .isTrue trivial

/-- One record is streamed, the client leaves, the next one is waited for. -/
def served : DebugProxy :=
  after (fun s a => decide (s.Undisturbed a)) (session
    ++ [.thread {}, .thread { popped := [{ data := ascii "record" }] }, .thread {},
      .thread {}, .thread { popped := [{}] }, .thread { ec := .other 32 }, .thread {}])

theorem served_reachable : (system fun _ => []).ReachableUnder Undisturbed served :=
  reachable_after (fun _ _ h => of_decide_eq_true h) (by decide +kernel)

theorem session_cleaned_up_served :
    served.modeCalls = [true, false] ∧ served.Clean :=
  ⟨by decide +kernel, (session_cleaned_up fun _ => []).1 served served_reachable
    (by decide +kernel)⟩

/-- `shutdown` comes while a session is streaming: `start()` returns with the
connection open and log capture on. -/
theorem session_abandoned : ∃ s, (system fun _ => []).Reachable s
    ∧ s.thread = some .returned ∧ s.socket = true ∧ s.modeCalls = [true] :=
  ⟨after (fun _ _ => true) (session ++ [.shutdown, .thread {}, .thread {}]),
    reachable_after (fun _ _ _ => trivial) (by decide +kernel), by decide +kernel,
    by decide +kernel, by decide +kernel⟩

/-! ## Staying up -/

/-- The thread is started with `exit_` clear, and no request head or response
head fails before `shutdown`. -/
def Served (s : DebugProxy) : Action → Prop
  | .startup ec => ec.failed = false → s.exit = false
  | .thread answer =>
      s.thread = some .read ∨ s.thread = some .refuseHead ∨ s.thread = some .head →
        answer.ec.failed = true → s.exit = true
  | _ => True

/-- What the thread may return for. -/
def Excused (s : DebugProxy) : Prop := s.shutdownSince = true ∨ s.acceptFailed = true

/-- `exit_` says whether `shutdown` was called, and an accept that failed is
not gone past. -/
def UpAt (s : DebugProxy) : Option Point → Prop
  | none => True
  | some .returned => s.Excused
  | some .lock => s.exit = s.shutdownSince ∧ s.acceptFailed = s.ec.failed
  | some _ => s.exit = s.shutdownSince ∧ s.acceptFailed = false

structure Up (s : DebugProxy) : Prop where
  stopped : s.phase = .stopped → s.thread = none
  point : s.UpAt s.thread

theorem UpAt.resume {s s' : DebugProxy} {answer : Answer} {point : Point}
    (h : s.UpAt (some point))
    (hhead : point = .read ∨ point = .refuseHead ∨ point = .head →
      answer.ec.failed = true → s.exit = true)
    (hstep : s.resume localTime answer point = some s') : s'.UpAt s'.thread := by
  cases point with
  | outerTest =>
      obtain rfl := Option.some.inj hstep
      cases hexit : s.exit with
      | true => exact Or.inl (h.1.symm.trans hexit)
      | false => exact h
  | accept =>
      obtain rfl := Option.some.inj hstep
      refine ⟨h.1, ?_⟩
      simp [goto, h.2]
  | lock =>
      obtain rfl := Option.some.inj hstep
      cases hexit : s.exit with
      | true => exact Or.inl (h.1.symm.trans hexit)
      | false =>
          cases hec : s.ec.failed with
          | true =>
              have hfailed : s.acceptFailed = true := h.2.trans hec
              simp [hec, goto, close, UpAt, Excused, hfailed]
          | false =>
              have hfailed : s.acceptFailed = false := h.2.trans hec
              have hsince : s.shutdownSince = false := h.1.symm.trans hexit
              simp [hec, goto, UpAt, hfailed, hsince]
  | read =>
      obtain rfl := Option.some.inj hstep
      split
      · rename_i hec
        exact Or.inl (h.1.symm.trans (hhead (Or.inl rfl) hec))
      · split <;> exact h
  | refuseHead =>
      obtain rfl := Option.some.inj hstep
      split
      · rename_i hec
        exact Or.inl (h.1.symm.trans (hhead (Or.inr (Or.inl rfl)) hec))
      · exact h
  | refuseBody =>
      obtain rfl := Option.some.inj hstep
      split <;> exact h
  | debugOn =>
      obtain rfl := Option.some.inj hstep
      exact h
  | head =>
      obtain rfl := Option.some.inj hstep
      split
      · rename_i hec
        exact Or.inl (h.1.symm.trans (hhead (Or.inr (Or.inr rfl)) hec))
      · exact h
  | streamTest =>
      obtain rfl := Option.some.inj hstep
      split <;> exact h
  | pop =>
      simp only [DebugProxy.resume] at hstep
      split at hstep <;> (obtain rfl := Option.some.inj hstep; exact h)
  | body text =>
      obtain rfl := Option.some.inj hstep
      split <;> exact h
  | returned => cases hstep

theorem Up.step {s s' : DebugProxy} {a : Action} (h : s.Up) (hok : s.Served a)
    (hstep : s.step localTime a = some s') : s'.Up := by
  cases a with
  | startup ec =>
      obtain ⟨-, rfl⟩ := step_startup hstep
      refine ⟨fun hphase => (by cases hphase), ?_⟩
      cases hec : ec.failed with
      | true => trivial
      | false => exact ⟨hok hec, rfl⟩
  | shutdown =>
      obtain rfl := step_shutdown hstep
      refine ⟨fun hphase => (by cases hphase), ?_⟩
      have hpoint := h.point
      cases hthread : s.thread with
      | none => trivial
      | some point =>
          rw [hthread] at hpoint
          cases point with
          | returned => exact Or.inl rfl
          | _ => exact ⟨rfl, hpoint.2⟩
  | join =>
      obtain ⟨-, rfl⟩ := step_join hstep
      exact ⟨fun _ => rfl, trivial⟩
  | thread answer =>
      obtain ⟨point, hpoint, hresume, hphase⟩ := step_thread hstep
      refine ⟨fun hstopped => ?_, ?_⟩
      · rw [h.stopped (hphase ▸ hstopped)] at hpoint
        cases hpoint
      · have hup := h.point
        rw [hpoint] at hup
        refine hup.resume (fun hhead => hok ?_) hresume
        rw [hpoint]
        simpa using hhead

theorem up_reachable {s : DebugProxy}
    (hs : (system localTime).ReachableUnder Served s) : s.Up := by
  refine Lts.ReachableUnder.invariant (I := Up) ?_ ?_ hs
  · rintro s rfl
    exact ⟨fun _ => rfl, trivial⟩
  · intro s a s' _ h hok hstep
    exact h.step hok hstep

/-- A failed request head or response head ends the thread. -/
theorem return_of_failed_head {s s' : DebugProxy} {answer : Answer}
    (hpoint : s.thread = some .read ∨ s.thread = some .refuseHead ∨ s.thread = some .head)
    (hec : answer.ec.failed = true) (hstep : s.step localTime (.thread answer) = some s') :
    s'.thread = some .returned ∧ s'.shutdownSince = s.shutdownSince
      ∧ s'.acceptFailed = s.acceptFailed := by
  rcases hpoint with hpoint | hpoint | hpoint
  · have hs' : s' = s.close.goto .returned := by
      simpa [DebugProxy.step, hpoint, DebugProxy.resume, hec] using hstep.symm
    rw [hs']
    exact ⟨rfl, rfl, rfl⟩
  · have hs' : s' = s.close.goto .returned := by
      simpa [DebugProxy.step, hpoint, DebugProxy.resume, hec] using hstep.symm
    rw [hs']
    exact ⟨rfl, rfl, rfl⟩
  · have hs' : s' = (s.close.changeDebugMode false).goto .returned := by
      simpa [DebugProxy.step, hpoint, DebugProxy.resume, hec] using hstep.symm
    rw [hs']
    exact ⟨rfl, rfl, rfl⟩

/-- The step is the last one on the connection: a read or a write fails, or the
refusal has been written. -/
def EndsConnection (s : DebugProxy) (answer : Answer) : Prop :=
  match s.thread with
  | some .read | some .refuseHead | some .head | some (.body _) => answer.ec.failed = true
  | some .refuseBody => True
  | _ => False

/-- The connection is closed, and the thread goes on to accept the next one. -/
def AcceptsNext (localTime : Nat → Bytes) (s : DebugProxy) : Prop :=
  s.socket = false
    ∧ ∀ answer, s.step localTime (.thread answer) = some (s.goto .accept)

theorem acceptsNext_outerTest {s : DebugProxy} (hexit : s.exit = false)
    (hsocket : s.socket = false) : (s.goto .outerTest).AcceptsNext localTime := by
  refine ⟨hsocket, fun answer => ?_⟩
  have htest : (s.goto .outerTest).exit = false := hexit
  simp only [DebugProxy.step, goto, Option.bind_some, DebugProxy.resume]
  rw [if_neg (by simpa [goto] using htest)]

/-- A failed head is the only end of a connection that the thread does not
accept the next one after. -/
theorem acceptsNext_iff {s s' : DebugProxy} {answer : Answer} (hexit : s.exit = false)
    (hend : s.EndsConnection answer) (hstep : s.step localTime (.thread answer) = some s') :
    s'.AcceptsNext localTime ↔ s.Served (.thread answer) := by
  by_cases hhead : s.thread = some .read ∨ s.thread = some .refuseHead ∨ s.thread = some .head
  · have hec : answer.ec.failed = true := by
      rcases hhead with hpoint | hpoint | hpoint <;> simpa [EndsConnection, hpoint] using hend
    obtain ⟨hreturned, -, -⟩ := return_of_failed_head hhead hec hstep
    refine iff_of_false (fun haccepts => ?_) fun hserved => ?_
    · have hnext := haccepts.2 {}
      simp [DebugProxy.step, hreturned, DebugProxy.resume] at hnext
    · have hset := hserved hhead hec
      rw [hexit] at hset
      cases hset
  · refine iff_of_true ?_ fun hpoint => absurd hpoint hhead
    unfold EndsConnection at hend
    split at hend
    · rename_i hpoint
      exact absurd (Or.inl hpoint) hhead
    · rename_i hpoint
      exact absurd (Or.inr (Or.inl hpoint)) hhead
    · rename_i hpoint
      exact absurd (Or.inr (Or.inr hpoint)) hhead
    · rename_i text hpoint
      have hs' : s' = (s.close.changeDebugMode false).goto .outerTest := by
        simpa [DebugProxy.step, hpoint, DebugProxy.resume, hend] using hstep.symm
      rw [hs']
      exact acceptsNext_outerTest hexit rfl
    · rename_i hpoint
      have hs' : s' = (if answer.ec.failed then s else s.write (.body refusal)).close.goto
          .outerTest := by
        simpa [DebugProxy.step, hpoint, DebugProxy.resume] using hstep.symm
      rw [hs']
      refine acceptsNext_outerTest ?_ rfl
      split <;> exact hexit
    · cases hend

/-- **A client does not stop the debug server, but for a failed head.** As
long as the thread is started with `exit_` clear and no request head or
response head fails before `shutdown`, `start()` returns only for `shutdown`
or a failed accept. A step that is not so leads to a return for neither. And
while `exit_` is clear, every read or write that ends a connection, but for
such a step, is followed by the next accept. -/
theorem server_stays_up (localTime : Nat → Bytes) :
    (∀ s, (system localTime).ReachableUnder Served s → s.thread = some .returned →
        s.Excused)
      ∧ (∀ s a s', (system localTime).ReachableUnder Served s → ¬s.Served a →
        (system localTime).step s a = some s' →
        ∃ t, (system localTime).Path (fun _ _ => True) s' t
          ∧ t.thread = some .returned ∧ ¬t.Excused)
      ∧ ∀ s answer s', s.exit = false → s.EndsConnection answer →
        (system localTime).step s (.thread answer) = some s' →
        (s'.AcceptsNext localTime ↔ s.Served (.thread answer)) := by
  refine ⟨?_, ?_, fun _ _ _ hexit hend hstep => acceptsNext_iff hexit hend hstep⟩
  · intro s hs hpoint
    have h := (up_reachable hs).point
    rwa [hpoint] at h
  · intro s a s' hs hbad hstep
    have hup := (up_reachable hs).point
    cases a with
    | startup ec =>
        obtain ⟨hec, hexit⟩ : ec.failed = false ∧ s.exit = true := by
          simpa [Served] using hbad
        have hstarted : s.step localTime (.startup ec) = some s' := hstep
        obtain ⟨-, rfl⟩ := step_startup hstarted
        -- the new thread finds `exit_` still set
        refine ⟨{ s with phase := .running, shutdownSince := false, acceptFailed := false
          }.goto .returned, .tail (a := .thread {}) .refl trivial ?_, rfl, ?_⟩
        · simp [system, DebugProxy.step, DebugProxy.resume, hec, hexit, goto]
        · simp [Excused, goto]
    | thread answer =>
        obtain ⟨hpoint, hec, hexit⟩ : (s.thread = some .read ∨ s.thread = some .refuseHead
            ∨ s.thread = some .head) ∧ answer.ec.failed = true ∧ s.exit = false := by
          simpa [Served] using hbad
        obtain ⟨hreturned, hsince, hfailed⟩ := return_of_failed_head hpoint hec hstep
        refine ⟨s', .refl, hreturned, ?_⟩
        have hsame : s.exit = s.shutdownSince ∧ s.acceptFailed = false := by
          rcases hpoint with hpoint | hpoint | hpoint <;> (rw [hpoint] at hup; exact hup)
        rw [Excused, hsince, hfailed, ← hsame.1, hexit, hsame.2]
        simp
    | shutdown => exact absurd trivial hbad
    | join => exact absurd trivial hbad

instance (s : DebugProxy) : DecidablePred s.Served
  | .startup ec => inferInstanceAs (Decidable (ec.failed = false → s.exit = false))
  | .thread answer => inferInstanceAs (Decidable
      (s.thread = some .read ∨ s.thread = some .refuseHead ∨ s.thread = some .head →
        answer.ec.failed = true → s.exit = true))
  | .shutdown | .join => .isTrue trivial

/-- A session, and `shutdown` while the next client is waited for. -/
def shutDown : DebugProxy :=
  after (fun s a => decide (s.Served a)) (session
    ++ [.thread {}, .thread { popped := [{}] }, .thread { ec := .other 32 }, .thread {},
      .shutdown, .thread {}, .thread {}])

theorem shutDown_reachable : (system fun _ => []).ReachableUnder Served shutDown :=
  reachable_after (fun _ _ h => of_decide_eq_true h) (by decide +kernel)

/-- A record is about to be written. -/
def streaming : DebugProxy :=
  after (fun _ _ => true) (session ++ [.thread {}, .thread { popped := [{}] }])

theorem server_stays_up_shutDown :
    shutDown.thread = some .returned ∧ shutDown.Excused
      ∧ ∃ s', streaming.step (fun _ => []) (.thread { ec := .other 32 }) = some s'
        ∧ s'.AcceptsNext fun _ => [] := by
  have hpoint : streaming.thread = some (.body (ascii "[] [] ")) := by decide +kernel
  have hend : streaming.EndsConnection { ec := .other 32 } := by
    rw [EndsConnection, hpoint]
    rfl
  obtain ⟨s', hs'⟩ := Option.isSome_iff_exists.mp
    (show (streaming.step (fun _ => []) (.thread { ec := .other 32 })).isSome = true by
      decide +kernel)
  refine ⟨by decide +kernel, (server_stays_up fun _ => []).1 shutDown shutDown_reachable
    (by decide +kernel), s', hs', ?_⟩
  exact ((server_stays_up fun _ => []).2.2 streaming _ s' (by decide +kernel) hend hs').mpr
    (by decide +kernel)

/-- A client that closes the connection ends the server, and so does a
`shutdown` before `startup`. -/
theorem server_stopped :
    (∃ s, (system fun _ => []).Reachable s ∧ s.thread = some .returned ∧ s.phase = .running
      ∧ s.shutdownSince = false ∧ s.acceptFailed = false ∧ s.exit = false)
    ∧ ∃ s, (system fun _ => []).Reachable s ∧ s.thread = some .returned
      ∧ s.phase = .running ∧ s.shutdownSince = false ∧ s.acceptFailed = false
      ∧ s.exit = true :=
  ⟨⟨after (fun _ _ => true) [.startup .success, .thread {}, .thread {}, .thread {},
      .thread { ec := .other 2 }],
    reachable_after (fun _ _ _ => trivial) (by decide +kernel), by decide +kernel⟩,
  ⟨after (fun _ _ => true) [.startup .success, .shutdown, .thread {}, .join,
      .startup .success, .thread {}],
    reachable_after (fun _ _ _ => trivial) (by decide +kernel), by decide +kernel⟩⟩

end DebugProxy

end JustCommon
