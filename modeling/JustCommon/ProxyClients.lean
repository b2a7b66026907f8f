import JustCommon.ProxyStops

/-!
# What the debug proxy does for its clients

Two more properties of `DebugProxy::start`, of all runs and with no exit
left out. The calls of `change_debug_mode` come in pairs, on and off, and
in between there is a session (or `shutdown` cut one short). And what a
client is sent is one of two responses: the refusal, or a head and then the
records popped while the client was there, each once, whole and in order,
but for one at the end.
-/

namespace JustCommon

namespace DebugProxy

variable {localTime : Nat → Bytes}

/-! ## The mode calls -/

/-- From the mode call to the end of the streaming loop. -/
def inSession (s : DebugProxy) : Bool :=
  match s.thread with
  | some .head | some .streamTest | some .pop | some (.body _) => true
  | _ => false

/-- `n` sessions, and one more that is `opened`. -/
def sessions (n : Nat) (opened : Bool) : List Bool :=
  (List.replicate n [true, false]).flatten ++ if opened then [true] else []

theorem sessions_open (n : Nat) : sessions n false ++ [true] = sessions n true := by
  simp [sessions]

theorem sessions_close (n : Nat) : sessions n true ++ [false] = sessions (n + 1) false := by
  simp [sessions, List.replicate_succ']

/-- What the calls were, by where the thread is. -/
def SwitchedAt (s : DebugProxy) : Option Point → Prop
  | some .head | some .streamTest | some .pop | some (.body _) =>
      ∃ n, s.modeCalls = sessions n true
  | none | some .outerTest | some .returned =>
      ∃ n opened, s.modeCalls = sessions n opened ∧ (opened = true → s.exit = true)
  | _ => ∃ n, s.modeCalls = sessions n false

structure Switched (s : DebugProxy) : Prop where
  stopped : s.phase = .stopped → s.thread = none
  point : s.SwitchedAt s.thread

theorem SwitchedAt.closed {s : DebugProxy} (h : ∃ n, s.modeCalls = sessions n false) :
    ∃ n opened, s.modeCalls = sessions n opened ∧ (opened = true → s.exit = true) := by
  obtain ⟨n, hcalls⟩ := h
  exact ⟨n, false, hcalls, fun h => by cases h⟩

theorem SwitchedAt.resume {s s' : DebugProxy} {answer : Answer} {point : Point}
    (h : s.SwitchedAt (some point)) (hstep : s.resume localTime answer point = some s') :
    s'.SwitchedAt s'.thread := by
  cases point with
  | outerTest =>
      obtain rfl := Option.some.inj hstep
      obtain ⟨n, opened, hcalls, hopened⟩ := h
      cases hexit : s.exit with
      | true => exact ⟨n, opened, by simpa [goto] using hcalls, fun _ => by simpa [goto]⟩
      | false =>
          -- nothing is open: the one that `shutdown` left open is never followed
          have hclosed : opened = false := by
            cases opened with
            | false => rfl
            | true => exact absurd (hopened rfl) (by simp [hexit])
          exact ⟨n, by simpa [goto, hclosed] using hcalls⟩
  | accept =>
      obtain rfl := Option.some.inj hstep
      exact h
  | lock =>
      obtain rfl := Option.some.inj hstep
      split
      · split
        · exact SwitchedAt.closed h
        · exact h
      · split
        · exact SwitchedAt.closed h
        · exact h
  | read =>
      obtain rfl := Option.some.inj hstep
      split
      · exact SwitchedAt.closed h
      · split <;> exact h
  | refuseHead =>
      obtain rfl := Option.some.inj hstep
      split
      · exact SwitchedAt.closed h
      · exact h
  | refuseBody =>
      obtain rfl := Option.some.inj hstep
      split <;> exact SwitchedAt.closed h
  | debugOn =>
      obtain rfl := Option.some.inj hstep
      obtain ⟨n, hcalls⟩ := h
      exact ⟨n, (congrArg (· ++ [true]) hcalls).trans (sessions_open n)⟩
  | head =>
      obtain rfl := Option.some.inj hstep
      split
      · obtain ⟨n, hcalls⟩ := h
        exact SwitchedAt.closed
          ⟨n + 1, (congrArg (· ++ [false]) hcalls).trans (sessions_close n)⟩
      · exact h
  | streamTest =>
      obtain rfl := Option.some.inj hstep
      split
      · rename_i hexit
        obtain ⟨n, hcalls⟩ := h
        exact ⟨n, true, hcalls, fun _ => hexit⟩
      · exact h
  | pop =>
      simp only [DebugProxy.resume] at hstep
      split at hstep <;> (obtain rfl := Option.some.inj hstep; exact h)
  | body text =>
      obtain rfl := Option.some.inj hstep
      split
      · obtain ⟨n, hcalls⟩ := h
        exact SwitchedAt.closed
          ⟨n + 1, (congrArg (· ++ [false]) hcalls).trans (sessions_close n)⟩
      · exact h
  | returned => cases hstep

theorem Switched.step {s s' : DebugProxy} {a : Action} (h : s.Switched)
    (hstep : s.step localTime a = some s') : s'.Switched := by
  cases a with
  | startup ec =>
      obtain ⟨hstopped, rfl⟩ := step_startup hstep
      have hpoint := h.point
      rw [h.stopped hstopped] at hpoint
      refine ⟨fun hphase => (by cases hphase), ?_⟩
      cases hec : ec.failed <;> exact hpoint
  | shutdown =>
      obtain rfl := step_shutdown hstep
      refine ⟨fun hphase => (by cases hphase), ?_⟩
      have hpoint := h.point
      cases hthread : s.thread with
      | none =>
          rw [hthread] at hpoint
          obtain ⟨n, opened, hcalls, -⟩ := hpoint
          exact ⟨n, opened, hcalls, fun _ => rfl⟩
      | some point =>
          rw [hthread] at hpoint
          cases point with
          | outerTest =>
              obtain ⟨n, opened, hcalls, -⟩ := hpoint
              exact ⟨n, opened, hcalls, fun _ => rfl⟩
          | returned =>
              obtain ⟨n, opened, hcalls, -⟩ := hpoint
              exact ⟨n, opened, hcalls, fun _ => rfl⟩
          | _ => exact hpoint
  | join =>
      obtain ⟨hdone, rfl⟩ := step_join hstep
      have hpoint := h.point
      refine ⟨fun _ => rfl, ?_⟩
      rcases hdone with hthread | hthread <;> (rw [hthread] at hpoint; exact hpoint)
  | thread answer =>
      obtain ⟨point, hthread, hresume, hphase⟩ := step_thread hstep
      refine ⟨fun hstopped => ?_, ?_⟩
      · rw [h.stopped (hphase ▸ hstopped)] at hthread
        cases hthread
      · have hpoint := h.point
        rw [hthread] at hpoint
        exact hpoint.resume hresume

theorem switched_reachable {s : DebugProxy} (hs : (system localTime).Reachable s) :
    s.Switched := by
  refine Lts.Reachable.invariant (I := Switched) ?_ ?_ hs
  · rintro s rfl
    exact ⟨fun _ => rfl, 0, false, rfl, fun h => by cases h⟩
  · intro s a s' _ h hstep
    exact h.step hstep

/-- **Log capture is switched on and off in turns.** Over all startups,
clients and shutdowns the calls of `change_debug_mode` are pairs of on and
off, one for each session that is over. An on without its off is the last
call: of the session that goes on, or of one that `shutdown` cut short, after
which there is no other, whatever the proxy does from then on. -/
theorem mode_calls_alternate (localTime : Nat → Bytes) {s : DebugProxy}
    (hs : (system localTime).Reachable s) :
    ∃ n opened, s.modeCalls = sessions n opened ∧ (s.inSession = true → opened = true)
      ∧ (opened = true → s.inSession = true ∨ s.exit = true
        ∧ (s.thread = none ∨ s.thread = some .outerTest ∨ s.thread = some .returned)
        ∧ ∀ l t, (system localTime).run s l = some t → t.modeCalls = s.modeCalls) := by
  have hpoint := (switched_reachable hs).point
  -- without a session nothing is open but what `shutdown` cut short
  have hover : s.Quiet →
      (∃ n opened, s.modeCalls = sessions n opened ∧ (opened = true → s.exit = true)) →
      ∃ n opened, s.modeCalls = sessions n opened ∧ (s.inSession = true → opened = true)
        ∧ (opened = true → s.inSession = true ∨ s.exit = true ∧ s.Quiet
          ∧ ∀ l t, (system localTime).run s l = some t → t.modeCalls = s.modeCalls) := by
    rintro hquiet ⟨n, opened, hcalls, hexit⟩
    have hidle : s.inSession = false := by
      rcases hquiet with h | h | h <;> simp [inSession, h]
    exact ⟨n, opened, hcalls, by simp [hidle], fun h => Or.inr ⟨hexit h, hquiet,
      fun _ _ hrun => (hquiet.run (hexit h) hrun).2.1⟩⟩
  rcases Option.eq_none_or_eq_some s.thread with hthread | ⟨point, hthread⟩
  · rw [hthread] at hpoint
    exact hover (Or.inl hthread) hpoint
  · rw [hthread] at hpoint
    cases point with
    | outerTest => exact hover (Or.inr (Or.inl hthread)) hpoint
    | returned => exact hover (Or.inr (Or.inr hthread)) hpoint
    | head | streamTest | pop | body text =>
        obtain ⟨n, hcalls⟩ := hpoint
        exact ⟨n, true, hcalls, fun _ => rfl, fun _ => Or.inl (by simp [inSession, hthread])⟩
    | accept | lock | read | refuseHead | refuseBody | debugOn =>
        obtain ⟨n, hcalls⟩ := hpoint
        exact ⟨n, false, hcalls, by simp [inSession, hthread], fun h => by cases h⟩

theorem mode_calls_alternate_served :
    served.modeCalls = [true, false]
      ∧ ∃ n opened, served.modeCalls = sessions n opened
        ∧ (served.inSession = true → opened = true)
        ∧ (opened = true → served.inSession = true ∨ served.exit = true
          ∧ (served.thread = none ∨ served.thread = some .outerTest
            ∨ served.thread = some .returned)
          ∧ ∀ l t, (system fun _ => []).run served l = some t →
            t.modeCalls = served.modeCalls) :=
  ⟨by decide +kernel, mode_calls_alternate (fun _ => []) served_reachable.reachable⟩

/-! ## The response -/

/-- The record popped in a step. -/
def taken (s : DebugProxy) : Action → List Message
  | .thread answer => if s.thread = some .pop then answer.popped.take 1 else []
  | _ => []

/-- The next connection is not accepted. -/
def SameClient (s : DebugProxy) : Action → Prop
  | .thread _ => s.thread ≠ some .accept
  | _ => True

/-- The response that streams `records`. -/
def streamed (localTime : Nat → Bytes) (records : List Message) : List Output :=
  .head true :: records.map fun m => .body (format localTime m)

/-- What a client was sent, when the records `past` were popped for it: of the
refusal a part, of the records all but at most the last one. -/
def Outcome (localTime : Nat → Bytes) (firefox : Bool) (past : List Message)
    (s : DebugProxy) : Prop :=
  if firefox then
    past = [] ∧ s.sent = [] ∨ ∃ delivered lost, past = delivered ++ lost ∧ lost.length ≤ 1
      ∧ s.sent = streamed localTime delivered
  else past = [] ∧ s.sent <+: [.head false, .body refusal]

/-- How far the response is, by where the thread is. -/
def ServedAt (localTime : Nat → Bytes) (firefox : Bool) (past : List Message)
    (s : DebugProxy) : Option Point → Prop
  | some .refuseHead => firefox = false ∧ past = [] ∧ s.sent = []
  | some .refuseBody => firefox = false ∧ past = [] ∧ s.sent = [.head false]
  | some .debugOn | some .head => firefox = true ∧ past = [] ∧ s.sent = []
  | some .streamTest | some .pop => firefox = true ∧ s.sent = streamed localTime past
  | some (.body text) => firefox = true ∧ ∃ delivered m, past = delivered ++ [m]
      ∧ text = format localTime m ∧ s.sent = streamed localTime delivered
  | some .lock | some .read => False
  | _ => Outcome localTime firefox past s

structure Serving (localTime : Nat → Bytes) (firefox : Bool) (past : List Message)
    (s : DebugProxy) : Prop where
  stopped : s.phase = .stopped → s.thread = none
  point : s.ServedAt localTime firefox past s.thread

variable {firefox : Bool} {past : List Message}

theorem streamed_concat (delivered : List Message) (m : Message) :
    streamed localTime delivered ++ [.body (format localTime m)]
      = streamed localTime (delivered ++ [m]) := by
  simp [streamed]

theorem Outcome.refused {s : DebugProxy} (hsent : s.sent <+: [.head false, .body refusal]) :
    s.Outcome localTime false [] := ⟨rfl, hsent⟩

theorem Outcome.nothing {s : DebugProxy} (hsent : s.sent = []) :
    s.Outcome localTime true [] := Or.inl ⟨rfl, hsent⟩

theorem Outcome.all {s : DebugProxy} (hsent : s.sent = streamed localTime past) :
    s.Outcome localTime true past :=
  Or.inr ⟨past, [], (List.append_nil past).symm, Nat.zero_le 1, hsent⟩

theorem ServedAt.outcome {s : DebugProxy} {point : Option Point}
    (h : s.ServedAt localTime firefox past point) : s.Outcome localTime firefox past := by
  cases point with
  | none => exact h
  | some point =>
      cases point with
      | outerTest | accept | returned => exact h
      | lock | read => exact h.elim
      | refuseHead =>
          obtain ⟨rfl, rfl, hsent⟩ := h
          exact Outcome.refused (hsent ▸ List.nil_prefix)
      | refuseBody =>
          obtain ⟨rfl, rfl, hsent⟩ := h
          exact Outcome.refused (hsent ▸ List.prefix_append _ [_])
      | debugOn | head =>
          obtain ⟨rfl, rfl, hsent⟩ := h
          exact Outcome.nothing hsent
      | streamTest | pop =>
          obtain ⟨rfl, hsent⟩ := h
          exact Outcome.all hsent
      | body text =>
          obtain ⟨rfl, delivered, m, rfl, -, hsent⟩ := h
          exact Or.inr ⟨delivered, [m], rfl, Nat.le_refl 1, hsent⟩

theorem ServedAt.resume {s s' : DebugProxy} {answer : Answer} {point : Point}
    (h : s.ServedAt localTime firefox past (some point)) (hpoint : s.thread = some point)
    (hsame : point ≠ .accept) (hstep : s.resume localTime answer point = some s') :
    s'.ServedAt localTime firefox (past ++ s.taken (.thread answer)) s'.thread := by
  have hidle : point ≠ .pop → past ++ s.taken (.thread answer) = past := by
    intro hpop
    rw [taken, hpoint, if_neg (by simpa using hpop), List.append_nil]
  cases point with
  | outerTest =>
      rw [hidle (by decide)]
      obtain rfl := Option.some.inj hstep
      split <;> exact h
  | accept => exact absurd rfl hsame
  | lock => exact h.elim
  | read => exact h.elim
  | refuseHead =>
      rw [hidle (by decide)]
      obtain rfl := Option.some.inj hstep
      split
      · exact h.outcome
      · obtain ⟨hfirefox, hpast, hsent⟩ := h
        exact ⟨hfirefox, hpast, congrArg (· ++ [Output.head false]) hsent⟩
  | refuseBody =>
      rw [hidle (by decide)]
      obtain rfl := Option.some.inj hstep
      split
      · exact h.outcome
      · obtain ⟨rfl, rfl, hsent⟩ := h
        have hall : s.sent ++ [.body refusal] = [.head false, .body refusal] := by rw [hsent]; rfl
        exact Outcome.refused (hall ▸ List.prefix_refl _)
  | debugOn =>
      rw [hidle (by decide)]
      obtain rfl := Option.some.inj hstep
      exact h
  | head =>
      rw [hidle (by decide)]
      obtain rfl := Option.some.inj hstep
      split
      · exact h.outcome
      · obtain ⟨hfirefox, rfl, hsent⟩ := h
        exact ⟨hfirefox, congrArg (· ++ [Output.head true]) hsent⟩
  | streamTest =>
      rw [hidle (by decide)]
      obtain rfl := Option.some.inj hstep
      split
      · exact h.outcome
      · exact h
  | pop =>
      obtain ⟨hfirefox, hsent⟩ := h
      rw [taken, hpoint, if_pos rfl]
      cases hpopped : answer.popped with
      | nil =>
          have hs' : s' = s.goto .streamTest := by
            simpa [DebugProxy.resume, hpopped] using hstep.symm
          rw [hs', List.take_nil, List.append_nil]
          exact ⟨hfirefox, hsent⟩
      | cons m rest =>
          have hs' : s' = s.goto (.body (format localTime m)) := by
            simpa [DebugProxy.resume, hpopped] using hstep.symm
          rw [hs', List.take_succ_cons, List.take_zero]
          exact ⟨hfirefox, past, m, rfl, rfl, hsent⟩
  | body text =>
      rw [hidle (by simp)]
      obtain rfl := Option.some.inj hstep
      split
      · exact h.outcome
      · obtain ⟨hfirefox, delivered, m, rfl, rfl, hsent⟩ := h
        exact ⟨hfirefox, (congrArg (· ++ [Output.body (format localTime m)]) hsent).trans
          (streamed_concat delivered m)⟩
  | returned => cases hstep

theorem Serving.step {s s' : DebugProxy} {a : Action} (h : s.Serving localTime firefox past)
    (hsame : s.SameClient a) (hstep : s.step localTime a = some s') :
    s'.Serving localTime firefox (past ++ s.taken a) := by
  cases a with
  | startup ec =>
      obtain ⟨hstopped, rfl⟩ := step_startup hstep
      rw [show s.taken (.startup ec) = [] from rfl, List.append_nil]
      refine ⟨fun hphase => (by cases hphase), ?_⟩
      cases hec : ec.failed <;> exact h.point.outcome
  | shutdown =>
      obtain rfl := step_shutdown hstep
      rw [show s.taken .shutdown = [] from rfl, List.append_nil]
      exact ⟨fun hphase => (by cases hphase), h.point⟩
  | join =>
      obtain ⟨-, rfl⟩ := step_join hstep
      rw [show s.taken .join = [] from rfl, List.append_nil]
      exact ⟨fun _ => rfl, h.point.outcome⟩
  | thread answer =>
      obtain ⟨point, hthread, hresume, hphase⟩ := step_thread hstep
      refine ⟨fun hstopped => ?_, ?_⟩
      · rw [h.stopped (hphase ▸ hstopped)] at hthread
        cases hthread
      · have hpoint := h.point
        rw [hthread] at hpoint
        exact hpoint.resume hthread (fun haccept => hsame (haccept ▸ hthread)) hresume

/-- **A client gets the refusal or the records.** Until the next connection is
accepted, and whatever fails and whenever `shutdown` comes: another browser
than Firefox is sent the refusal or a beginning of it; a Firefox is sent the
response head and the records popped since, each as one write, in order and
none twice, all of them but at most the last one. -/
theorem client_served (localTime : Nat → Bytes) {s t : DebugProxy} {answer : Answer}
    {l : List Action} (hs : (system localTime).Reachable s) (hread : s.thread = some .read)
    (hec : answer.ec.failed = false)
    (hrun : (system localTime).run s (.thread answer :: l) = some t)
    (hsame : (system localTime).Meets SameClient s (.thread answer :: l)) :
    t.Outcome localTime (fromFirefox answer.userAgent)
      ((system localTime).collect taken s (.thread answer :: l)) := by
  have hunsent := unsent_reachable hs
  have hsent : s.sent = [] := by
    have hpoint := hunsent.point
    rwa [hread] at hpoint
  obtain ⟨u, hu, hrest⟩ := Option.bind_eq_some_iff.mp hrun
  have hone : s.step localTime (.thread answer) = some u := hu
  obtain ⟨point, hthread, hresume, hphase⟩ := step_thread hone
  obtain rfl := Option.some.inj (hread.symm.trans hthread)
  have htaken : s.taken (.thread answer) = [] := by rw [taken, hread]; rfl
  have hserving : u.Serving localTime (fromFirefox answer.userAgent) [] := by
    refine ⟨fun hstopped => ?_, ?_⟩
    · rw [hunsent.stopped (hphase ▸ hstopped)] at hread
      cases hread
    · cases hfirefox : fromFirefox answer.userAgent with
      | true =>
          have hdebugOn : u = s.goto .debugOn := by
            simpa [DebugProxy.resume, hec, hfirefox] using hresume.symm
          rw [hdebugOn]
          exact ⟨rfl, rfl, hsent⟩
      | false =>
          have hrefuse : u = s.goto .refuseHead := by
            simpa [DebugProxy.resume, hec, hfirefox] using hresume.symm
          rw [hrefuse]
          exact ⟨rfl, rfl, hsent⟩
  have hend := Lts.run_history (I := Serving localTime (fromFirefox answer.userAgent))
    (fun _ _ _ _ h hok hstep => h.step hok hstep) hrest ((Lts.meets_cons hu l).mp hsame).2 hserving
  rw [Lts.collect_cons hu, htaken]
  exact hend.point.outcome


/-- A client has just been accepted. -/
def accepted : DebugProxy :=
  after (fun _ _ => true) [.startup .success, .thread {}, .thread {}, .thread {}]

theorem accepted_reachable : (system fun _ => []).Reachable accepted :=
  reachable_after (fun _ _ _ => trivial) (by decide +kernel)

/-- What is answered to the read of a Firefox's request. -/
def request : Answer := { userAgent := ascii "Mozilla Firefox" }

/-- Two records are popped for it, and the write of the second one fails. -/
def visit : List Action :=
  [.thread {}, .thread {}, .thread {}, .thread { popped := [{ data := ascii "one" }] },
    .thread {}, .thread {}, .thread { popped := [{ data := ascii "two" }] },
    .thread { ec := .other 32 }]

instance (s : DebugProxy) : DecidablePred s.SameClient
  | .thread _ => inferInstanceAs (Decidable (s.thread ≠ some .accept))
  | .startup _ | .shutdown | .join => .isTrue trivial

theorem client_served_visit : ∃ t, (system fun _ => []).run accepted (.thread request :: visit)
      = some t ∧ t.sent.length = 2
    ∧ t.Outcome (fun _ => []) true
      ((system fun _ => []).collect taken accepted (.thread request :: visit)) := by
  obtain ⟨t, ht⟩ := Option.isSome_iff_exists.mp
    (show ((system fun _ => []).replay (fun s a => decide (s.SameClient a)) accepted
      (.thread request :: visit)).isSome = true by decide +kernel)
  have hcheck : ∀ (s : DebugProxy) (a : Action), decide (s.SameClient a) = true →
      s.SameClient a := fun _ _ h => of_decide_eq_true h
  obtain ⟨hrun, hmeets⟩ := Lts.meets_of_replay hcheck ht
  have hsent : ∀ u, (system fun _ => []).run accepted (.thread request :: visit) = some u →
      u.sent.length = 2 := by decide +kernel
  exact ⟨t, hrun, hsent t hrun, client_served (fun _ => []) accepted_reachable
    (by decide +kernel) (by decide +kernel) hrun hmeets⟩

end DebugProxy

end JustCommon
