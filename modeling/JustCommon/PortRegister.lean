import JustCommon.PortManager
import JustCommon.Simulation

/-!
# The ports after the construction

However the processes overlap, at most one of them is ever given the record
to construct, so it is constructed once. From there on the record is a
register for each enumerator: `get_port` yields what was last set since, and
all that can be lost are the ports that were published before. The value that
is no enumerator has no place in the record; its port is 0 whatever is set.
-/

namespace JustCommon

namespace PortShm

variable {Proc : Type} [DecidableEq Proc]

/-- A register for each enumerator. -/
def write (ports : ModuleType → UInt16) : PortAction Proc → ModuleType → UInt16
  | .setPort _ type port => if type.named then Function.update ports type port else ports
  | _ => ports

/-! ## One construction -/

/-- The record is given to one process at most. -/
structure OneBuilder (s : PortShm Proc) : Prop where
  block : ∀ p, s.stage p = .allocated → s.block.isSome = true
  one : ∀ p q, s.stage p = .allocated → s.stage q = .allocated → p = q

/-- The record is there with these ports, and nobody is to construct it. -/
structure Built (ports : ModuleType → UInt16) (s : PortShm Proc) : Prop where
  block : ∃ c, s.block = some c ∧ c.port = ports
  nobody : ∀ p, s.stage p ≠ .allocated

/-- Whoever is allocated after a move to another stage was so before. -/
theorem allocated_moveTo {s : PortShm Proc} {p q : Proc} {stage : Attachment}
    (hstage : stage ≠ .allocated) (h : (s.moveTo p stage).stage q = .allocated) :
    q ≠ p ∧ s.stage q = .allocated := by
  rw [moveTo_stage] at h
  split at h
  · exact absurd h hstage
  · rename_i hne
    exact ⟨hne, h⟩

theorem oneBuilder_moveTo {s : PortShm Proc} {p : Proc} {stage : Attachment}
    (hstage : stage ≠ .allocated) (hs : s.OneBuilder) : (s.moveTo p stage).OneBuilder where
  block q hq := hs.block q (allocated_moveTo hstage hq).2
  one q r hq hr := hs.one q r (allocated_moveTo hstage hq).2 (allocated_moveTo hstage hr).2

theorem step_oneBuilder {s t : PortShm Proc} {a : PortAction Proc} (hs : s.OneBuilder)
    (hst : s.step a = some t) : t.OneBuilder := by
  cases a with
  | alloc p raw =>
      obtain ⟨-, ⟨hnone, rfl⟩ | ⟨c, -, rfl⟩⟩ := step_alloc hst
      · -- without a record nobody was allocated, so it is `p` alone
        have hp : ∀ q, (s.moveTo p .allocated).stage q = .allocated → q = p := by
          intro q hq
          rw [moveTo_stage] at hq
          split at hq
          · assumption
          · have hsome := hs.block q hq
            rw [hnone] at hsome
            cases hsome
        exact ⟨fun _ _ => rfl, fun q r hq hr => (hp q hq).trans (hp r hr).symm⟩
      · exact oneBuilder_moveTo (by decide) hs
  | construct p =>
      obtain ⟨-, rfl⟩ := step_construct hst
      have hmoved : (s.moveTo p .ready).OneBuilder := oneBuilder_moveTo (by decide) hs
      exact ⟨fun _ _ => rfl, hmoved.one⟩
  | attach p =>
      obtain ⟨-, rfl⟩ := step_attach hst
      exact oneBuilder_moveTo (by decide) hs
  | setPort p type port =>
      obtain ⟨-, r, hr, rfl⟩ := step_setPort hst
      exact ⟨fun q hq => (PortManager.setPort_keeps hr).trans (hs.block q hq), hs.one⟩
  | getPort p type =>
      obtain ⟨-, rfl⟩ := step_getPort hst
      exact hs

/-- The construction leaves zeros, and nobody else to construct. -/
theorem built_of_construct {s t : PortShm Proc} {p : Proc} (hs : s.OneBuilder)
    (hst : s.step (.construct p) = some t) : t.Built fun _ => 0 := by
  obtain ⟨hp, rfl⟩ := step_construct hst
  refine ⟨⟨.new, rfl, funext PortContainer.new_port⟩, fun q hq => ?_⟩
  have hmoved : (s.moveTo p .ready).stage q = .allocated := hq
  obtain ⟨hne, hold⟩ := allocated_moveTo (by decide) hmoved
  exact hne (hs.one q p hold hp)

/-! ## The register -/

theorem built_moveTo {ports : ModuleType → UInt16} {s : PortShm Proc} {p : Proc}
    {stage : Attachment} (hstage : stage ≠ .allocated) (hs : s.Built ports) :
    (s.moveTo p stage).Built ports where
  block := hs.block
  nobody q hq := hs.nobody q (allocated_moveTo hstage hq).2

theorem step_built {ports : ModuleType → UInt16} {s t : PortShm Proc} {a : PortAction Proc}
    (hs : s.Built ports) (hst : s.step a = some t) :
    t.Built (write ports a) ∧ ∀ p, a ≠ .construct p := by
  cases a with
  | alloc p raw =>
      obtain ⟨-, ⟨hnone, -⟩ | ⟨c, -, rfl⟩⟩ := step_alloc hst
      · obtain ⟨c, hc, -⟩ := hs.block
        rw [hnone] at hc
        cases hc
      · exact ⟨built_moveTo (by decide) hs, fun _ h => by cases h⟩
  | construct p =>
      obtain ⟨hp, -⟩ := step_construct hst
      exact absurd hp (hs.nobody p)
  | attach p =>
      obtain ⟨-, rfl⟩ := step_attach hst
      exact ⟨built_moveTo (by decide) hs, fun _ h => by cases h⟩
  | setPort p type port =>
      obtain ⟨-, r, hr, rfl⟩ := step_setPort hst
      obtain ⟨c, hc, hports⟩ := hs.block
      rw [hc, PortManager.setPort_some] at hr
      obtain rfl := Option.some.inj hr
      refine ⟨⟨⟨_, rfl, ?_⟩, hs.nobody⟩, fun _ h => by cases h⟩
      rw [PortContainer.setPort_port, hports]
      rfl
  | getPort p type =>
      obtain ⟨-, rfl⟩ := step_getPort hst
      exact ⟨hs, fun _ h => by cases h⟩

theorem run_built :
    ∀ {l : List (PortAction Proc)} {ports : ModuleType → UInt16} {s t : PortShm Proc},
      s.Built ports → (sharing Proc).run s l = some t →
      t.Built (l.foldl write ports) ∧ ∀ p, .construct p ∉ l
  | [], ports, s, t, hs, h => by
      obtain rfl := Option.some.inj h
      exact ⟨hs, fun _ => List.not_mem_nil⟩
  | a :: rest, ports, s, t, hs, h => by
      rw [Lts.run_cons] at h
      obtain ⟨u, hu, hrest⟩ := Option.bind_eq_some_iff.mp h
      obtain ⟨hbuilt, hne⟩ := step_built hs hu
      obtain ⟨hend, hnone⟩ := run_built hbuilt hrest
      refine ⟨hend, fun p hmem => ?_⟩
      rcases List.mem_cons.mp hmem with ha | hmem
      · exact hne p ha.symm
      · exact hnone p hmem

omit [DecidableEq Proc] in
theorem initial_oneBuilder : (initial : PortShm Proc).OneBuilder where
  block _ h := by cases h
  one _ _ h _ := by cases h

/-- After a construction there is no other one, and the ports are those set
since. -/
theorem run_construct {before after : List (PortAction Proc)} {p : Proc} {t : PortShm Proc}
    (h : (sharing Proc).run initial (before ++ .construct p :: after) = some t) :
    t.Built (after.foldl write fun _ => 0) ∧ ∀ q, .construct q ∉ after := by
  rw [Lts.run_append] at h
  obtain ⟨s, hbefore, h⟩ := Option.bind_eq_some_iff.mp h
  rw [Lts.run_cons] at h
  obtain ⟨u, hconstruct, hafter⟩ := Option.bind_eq_some_iff.mp h
  have hs : s.OneBuilder :=
    Lts.run_invariant (M := sharing Proc) (I := OneBuilder)
      (fun _ _ _ hs hst => step_oneBuilder hs hst) hbefore initial_oneBuilder
  exact run_built (built_of_construct hs hconstruct) hafter

/-- **From its construction on the record is a register.** In every run with a
construction, whichever processes allocated, attached and published before and
after: it is the only one, and each `get_port` that can be made at the end
yields the port of the most recent `set_port` of that enumerator since, 0
without one or for the value that is no enumerator. -/
theorem register_from_construction {before after : List (PortAction Proc)} {p : Proc}
    {t : PortShm Proc}
    (h : (sharing Proc).run initial (before ++ .construct p :: after) = some t) :
    (∀ q, .construct q ∉ before ++ after)
      ∧ ∀ q, t.stage q = .ready → ∀ type, PortManager.getPort t.block type
        = some (.success, after.foldl write (fun _ => 0) type) := by
  obtain ⟨⟨⟨c, hc, hports⟩, -⟩, hafter⟩ := run_construct h
  refine ⟨fun q hmem => ?_, fun q _ type => ?_⟩
  · rcases List.mem_append.mp hmem with hmem | hmem
    · obtain ⟨before', between, rfl⟩ := List.append_of_mem hmem
      rw [List.append_assoc, List.cons_append] at h
      exact (run_construct h).2 p (List.mem_append_right _ List.mem_cons_self)
    · exact hafter q hmem
  · rw [hc, PortManager.getPort_some, hports]

/-- The port that was published too early is lost, the next one is not. -/
theorem register_from_construction_republished :
    ∃ s, (sharing Bool).run initial (overtaken ++ [.setPort false .live 81, .getPort true .live])
          = some s
      ∧ PortManager.getPort s.block .live = some (.success, 81) := by
  have h : (sharing Bool).run initial
      ([.alloc true ⟨0, 0, 0⟩, .alloc false ⟨0, 0, 0⟩, .attach false, .setPort false .live 80]
        ++ .construct true :: [.getPort false .live, .setPort false .live 81,
          .getPort true .live]) = some _ := rfl
  exact ⟨_, h, (register_from_construction h).2 false rfl .live⟩

end PortShm

end JustCommon
