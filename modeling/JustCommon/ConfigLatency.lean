import JustCommon.ConfigDelivery

/-!
# When a `set_config` call is applied

A tick of `ConfigMgr` takes one message, and the queue is in the order of
the calls. So a call waits for as many ticks as there are messages before
it and one more, whatever is sent, popped and answered in the same queues
meanwhile: later calls queue up behind it and cannot push it back. With the
accounting of `ConfigDelivery` that is a bound on when the configuration of
a process has everything that was sent by a given moment.
-/

namespace JustCommon

open Debuger ConfigMgr MessageQueue

variable {Proc Ctl Shm : Type} [DecidableEq Proc] [DecidableEq Ctl]

namespace Deployment

variable {D : Deployment Proc Ctl Shm}

/-- A tick of `p` sets what the oldest message decodes to and takes it. -/
theorem InOrder.tick_takes (hQ : D.queue.Fifo) {w : World Proc Ctl Shm} {p : Proc}
    (h : D.InOrder p w) {m : Message} {rest : List Message}
    (hqueue : D.configs w p = m :: rest) :
    (D.next w (.configTick p)).applied p = w.applied p ++ (decoded D.slice m).toList
      ∧ D.configs (D.next w (.configTick p)) p = rest := by
  obtain ⟨hpop, htail⟩ := h.pop_configs hQ
  rw [hqueue] at hpop htail
  refine ⟨?_, htail⟩
  rw [(next_configTick w p).1, hpop, List.head?_cons, Option.bind_some]

/-- Whatever else happens, messages are only added behind. -/
theorem InOrder.other_adds (hQ : D.queue.Fifo) {w : World Proc Ctl Shm} {p : Proc}
    (h : D.InOrder p w) {a : Action Proc Ctl} (htick : a ≠ .configTick p) :
    ∃ more, D.configs (D.next w a) p = D.configs w p ++ more := by
  by_cases hset : ∃ q args, a = .setConfig q args
  · obtain ⟨q, args, rfl⟩ := hset
    exact ⟨_, configs_setConfig hQ h.name q args⟩
  · have hset' : ∀ q args, a ≠ .setConfig q args := fun q args ha => hset ⟨q, args, ha⟩
    refine ⟨[], ?_⟩
    rw [List.append_nil]
    exact ofType_next hQ fun _ hcall => queueCall_spares hset' htick hcall

/-- No action takes back what was set. -/
theorem applied_next (w : World Proc Ctl Shm) (a : Action Proc Ctl) (p : Proc) :
    w.applied p <+: (D.next w a).applied p := by
  by_cases htick : a = .configTick p
  · subst htick
    rw [(next_configTick w p).1]
    exact List.prefix_append _ _
  · rw [(next_config htick).1]

theorem applied_run {p : Proc} :
    ∀ {l : List (Action Proc Ctl)} {w w' : World Proc Ctl Shm},
      D.system.run w l = some w' → w.applied p <+: w'.applied p
  | [], w, w', h => by
      obtain rfl := Option.some.inj h
      exact List.prefix_refl _
  | a :: rest, w, w', h => by
      obtain ⟨u, hu, hrest⟩ := Option.bind_eq_some_iff.mp h
      obtain ⟨-, rfl⟩ := step_eq_some.mp hu
      exact (applied_next w a p).trans (applied_run hrest)

/-- As many ticks as there are messages in front have set what these decode
to. The induction is on the schedule; what is queued behind is arbitrary. -/
theorem applied_front (hQ : D.queue.Fifo) {p : Proc} :
    ∀ {l : List (Action Proc Ctl)} {w w' : World Proc Ctl Shm} {front behind : List Message},
      D.system.run w l = some w' → D.InOrder p w → D.configs w p = front ++ behind →
      front.length ≤ l.count (.configTick p) →
      w.applied p ++ front.filterMap (decoded D.slice) <+: w'.applied p
  | [], w, w', front, behind, h, _, _, hlen => by
      obtain rfl := Option.some.inj h
      obtain rfl := List.length_eq_zero_iff.mp (Nat.le_zero.mp hlen)
      rw [List.filterMap_nil, List.append_nil]
  | a :: rest, w, w', front, behind, h, hi, hqueue, hlen => by
      cases front with
      | nil =>
          rw [List.filterMap_nil, List.append_nil]
          exact applied_run h
      | cons m front =>
          obtain ⟨u, hu, hrest⟩ := Option.bind_eq_some_iff.mp h
          obtain ⟨-, rfl⟩ := step_eq_some.mp hu
          by_cases htick : a = .configTick p
          · subst htick
            obtain ⟨happlied, hafter⟩ := hi.tick_takes hQ hqueue
            rw [List.count_cons_self, List.length_cons] at hlen
            have hlater := applied_front hQ hrest (hi.step hQ _) hafter (by omega)
            rw [happlied, List.append_assoc] at hlater
            rwa [filterMap_cons_toList]
          · obtain ⟨more, hafter⟩ := hi.other_adds hQ htick
            rw [hqueue, List.append_assoc] at hafter
            rw [List.count_cons_of_ne htick] at hlen
            have hlater := applied_front hQ hrest (hi.step hQ a) hafter hlen
            rwa [(next_config htick).1] at hlater

/-- **A call is applied after the ticks for what was queued before it.** Once
`p` has ticked as often as it had configuration messages queued, it has set
every value it had been sent by then, in order and but for those dropped
for a separator, whatever was sent and whoever acted meanwhile. -/
theorem config_applied_within (hQ : D.queue.Fifo) (hs : SplitsAtBar D.slice)
    {w₀ w w' : World Proc Ctl Shm} {p : Proc} (h₀ : D.Watch w₀ p)
    (hp : D.common p ∈ D.queue.names w₀.shm)
    (hpath : D.system.Path (fun _ _ => True) w₀ w) {l : List (Action Proc Ctl)}
    (h : D.system.run w l = some w')
    (hticks : (D.configs w p).length ≤ l.count (.configTick p)) :
    ((D.addressed w p).filter fun args => decide args.BarFree).map SetConfig.triple
      <+: w'.applied p := by
  have hi : D.InOrder p w := by
    refine hpath.invariant (I := D.InOrder p) ?_ ⟨hp, ?_, ?_⟩
    · intro w a w' hi _ hstep
      obtain ⟨-, rfl⟩ := step_eq_some.mp hstep
      exact hi.step hQ a
    · rw [h₀.configs]
      intro m hm
      cases hm
    · rw [h₀.applied, h₀.configs, addressed, h₀.sent]
      rfl
  have hfront := applied_front hQ h hi (List.append_nil _).symm hticks
  rwa [hi.order, filterMap_decoded hs] at hfront

namespace twoProcesses

/-- A broadcast and a call by name, both queued. -/
def sentTwice : World Host Unit Boxes :=
  after (fun _ _ => true) opened [.setConfig .first (port none (ascii "80")),
    .setConfig .first (port (some (ascii "second")) (ascii "81"))]

theorem sentTwice_path : twoProcesses.system.Path (fun _ _ => True) opened sentTwice :=
  path_after (fun _ _ _ => trivial) (by decide +kernel)

/-- A third call comes between the ticks. -/
def meanwhile : List (Action Host Unit) :=
  [.configTick .second, .setConfig .first (port none (ascii "82")), .configTick .second]

end twoProcesses

open twoProcesses in
theorem config_applied_within_two :
    [(ascii "net", ascii "port", ascii "80"), (ascii "net", ascii "port", ascii "81")]
      <+: (after (fun _ _ => true) sentTwice meanwhile).applied .second := by
  have hsent : ((twoProcesses.addressed sentTwice .second).filter fun args =>
      decide args.BarFree).map SetConfig.triple
      = [(ascii "net", ascii "port", ascii "80"), (ascii "net", ascii "port", ascii "81")] := by
    decide +kernel
  rw [← hsent]
  exact config_applied_within Boxes.queue_fifo (fun _ => rfl) opened_watch (by decide +kernel)
    sentTwice_path (run_after (by decide +kernel)) (by decide +kernel)

end Deployment

end JustCommon
