import JustCommon.Basic
import JustCommon.Runs
import Mathlib.Logic.Function.Basic

/-!
# The ports published in shared memory

Every process constructs a `PortManager` on the same segment. The first to
call `alloc_with_id` gets the record, with whatever bytes the memory held,
and constructs a `PortContainer` in it; the others attach to it with
`get_by_id`. Allocating and constructing are two steps, and a process that
attaches does not wait for the second: it can read and write ports in a
record that is still to be constructed.

`published` is the register a caller expects: the port of the most recent
`set_port`, 0 before the first.
-/

namespace JustCommon

/-- The three enumerators, and the one other value in the range of the
enumeration, which is left to the `default:` of `get_port` and `set_port`. -/
inductive ModuleType where
  | live
  | vod
  | alive
  | unnamed
deriving DecidableEq, Repr

/-- The value is an enumerator. -/
def ModuleType.named : ModuleType → Bool
  | .live | .vod | .alive => true
  | .unnamed => false

theorem ModuleType.eq_unnamed {type : ModuleType} (h : ¬type.named = true) :
    type = .unnamed := by
  cases type with
  | unnamed => rfl
  | _ => exact absurd rfl h

structure PortContainer where
  liveport : UInt16
  vodport : UInt16
  aliveport : UInt16
deriving DecidableEq, Repr

namespace PortContainer

/-- The constructor. -/
def new : PortContainer := { liveport := 0, vodport := 0, aliveport := 0 }

/-- What `get_port` yields of the record. -/
def port (c : PortContainer) : ModuleType → UInt16
  | .live => c.liveport
  | .vod => c.vodport
  | .alive => c.aliveport
  | .unnamed => 0

/-- What `set_port` makes of the record. -/
def setPort (c : PortContainer) (type : ModuleType) (port : UInt16) : PortContainer :=
  match type with
  | .live => { c with liveport := port }
  | .vod => { c with vodport := port }
  | .alive => { c with aliveport := port }
  | .unnamed => c

@[simp] theorem new_port (type : ModuleType) : new.port type = 0 := by
  cases type <;> rfl

theorem setPort_port (c : PortContainer) (type : ModuleType) (port : UInt16) :
    (c.setPort type port).port
      = if type.named then Function.update c.port type port else c.port := by
  funext type'
  cases type <;> cases type' <;> rfl

/-- The record is a register for the enumerators, and for the other value as
long as that stays at 0. -/
theorem setPort_port_iff (c : PortContainer) (type : ModuleType) (port : UInt16) :
    (c.setPort type port).port = Function.update c.port type port
      ↔ type.named = true ∨ port = 0 := by
  rw [setPort_port]
  by_cases hnamed : type.named = true
  · rw [if_pos hnamed]
    exact iff_of_true rfl (Or.inl hnamed)
  · rw [if_neg hnamed, eq_comm, Function.update_eq_self_iff]
    obtain rfl := ModuleType.eq_unnamed hnamed
    exact (or_iff_right hnamed).symm

end PortContainer

/-! ## The operations

`ports` is what `ports_` points to, `none` if it is `NULL`. The result is
`none` where the operation goes through a `NULL` pointer. -/

namespace PortManager

/-- The constructor's `ports_`, given what `alloc_with_id` and, if that was
`NULL`, `get_by_id` returned. -/
def construct (allocated found : Option PortContainer) : Option PortContainer :=
  match allocated with
  | some _ => some .new
  | none => found

def getPort (ports : Option PortContainer) (type : ModuleType) :
    Option (ErrorCode × UInt16) :=
  match type with
  | .live => ports.map fun c => (.success, c.liveport)
  | .vod => ports.map fun c => (.success, c.vodport)
  | .alive => ports.map fun c => (.success, c.aliveport)
  -- `default:`, the 0 the port was set to first
  | .unnamed => some (.success, 0)

def setPort (ports : Option PortContainer) (type : ModuleType) (port : UInt16) :
    Option (ErrorCode × Option PortContainer) :=
  match type with
  | .live => ports.map fun c => (.success, some { c with liveport := port })
  | .vod => ports.map fun c => (.success, some { c with vodport := port })
  | .alive => ports.map fun c => (.success, some { c with aliveport := port })
  -- `default:`
  | .unnamed => some (.success, ports)

theorem getPort_some (c : PortContainer) (type : ModuleType) :
    getPort (some c) type = some (.success, c.port type) := by
  cases type <;> rfl

theorem setPort_some (c : PortContainer) (type : ModuleType) (port : UInt16) :
    setPort (some c) type port = some (.success, some (c.setPort type port)) := by
  cases type <;> rfl

/-- Only an enumerator needs the record. -/
theorem getPort_isSome (ports : Option PortContainer) (type : ModuleType) :
    (getPort ports type).isSome = (ports.isSome || !type.named) := by
  cases ports <;> cases type <;> rfl

theorem setPort_isSome (ports : Option PortContainer) (type : ModuleType) (port : UInt16) :
    (setPort ports type port).isSome = (ports.isSome || !type.named) := by
  cases ports <;> cases type <;> rfl

/-- `set_port` does not change whether there is a record. -/
theorem setPort_keeps {ports : Option PortContainer} {type : ModuleType} {port : UInt16}
    {r : ErrorCode × Option PortContainer} (h : setPort ports type port = some r) :
    r.2.isSome = ports.isSome := by
  cases ports with
  | some c =>
      rw [setPort_some] at h
      rw [← Option.some.inj h]
      rfl
  | none =>
      cases type with
      | unnamed => rw [← Option.some.inj h]
      | _ => cases h

end PortManager

/-! ## Processes on one segment -/

/-- Where a process is in the constructor. -/
inductive Attachment where
  | absent
  /-- `alloc_with_id` returned the record. -/
  | allocated
  /-- `alloc_with_id` returned `NULL`. -/
  | refused
  /-- The constructor returned. -/
  | ready
deriving DecidableEq, Repr

structure PortShm (Proc : Type) where
  /-- The record under `PORTMANAGE_OBJECT_ID`, once allocated. -/
  block : Option PortContainer
  stage : Proc → Attachment
  /-- The port of the most recent `set_port` of each type, 0 if there was
  none; history. -/
  published : ModuleType → UInt16

inductive PortAction (Proc : Type) where
  /-- `alloc_with_id`; `raw` is what the memory holds. -/
  | alloc (p : Proc) (raw : PortContainer)
  /-- `new (ports_) PortContainer()` -/
  | construct (p : Proc)
  /-- `get_by_id` -/
  | attach (p : Proc)
  | setPort (p : Proc) (type : ModuleType) (port : UInt16)
  | getPort (p : Proc) (type : ModuleType)

namespace PortShm

variable {Proc : Type} [DecidableEq Proc]

def moveTo (s : PortShm Proc) (p : Proc) (stage : Attachment) : PortShm Proc :=
  { s with stage := Function.update s.stage p stage }

@[simp] theorem moveTo_block (s : PortShm Proc) (p : Proc) (stage : Attachment) :
    (s.moveTo p stage).block = s.block := rfl

@[simp] theorem moveTo_published (s : PortShm Proc) (p : Proc) (stage : Attachment) :
    (s.moveTo p stage).published = s.published := rfl

@[simp] theorem moveTo_stage (s : PortShm Proc) (p q : Proc) (stage : Attachment) :
    (s.moveTo p stage).stage q = if q = p then stage else s.stage q := by
  simp [moveTo, Function.update_apply]

def step (s : PortShm Proc) : PortAction Proc → Option (PortShm Proc)
  | .alloc p raw =>
      if s.stage p = .absent then
        match s.block with
        | none => some { s.moveTo p .allocated with block := some raw }
        | some _ => some (s.moveTo p .refused)
      else none
  | .construct p =>
      if s.stage p = .allocated then
        some { s.moveTo p .ready with block := some .new }
      else none
  | .attach p => if s.stage p = .refused then some (s.moveTo p .ready) else none
  | .setPort p type port =>
      if s.stage p = .ready then
        (PortManager.setPort s.block type port).map fun r =>
          { s with
            block := r.2
            published := Function.update s.published type port }
      else none
  | .getPort p type =>
      if s.stage p = .ready then (PortManager.getPort s.block type).map fun _ => s
      else none

/-- Nothing allocated, no process there. -/
def initial : PortShm Proc where
  block := none
  stage _ := .absent
  published _ := 0

def sharing (Proc : Type) [DecidableEq Proc] : Lts (PortShm Proc) (PortAction Proc) where
  init s := s = initial
  step := step

/-! ## What a step can do -/

theorem step_alloc {s t : PortShm Proc} {p : Proc} {raw : PortContainer}
    (h : s.step (.alloc p raw) = some t) :
    s.stage p = .absent
      ∧ (s.block = none ∧ t = { s.moveTo p .allocated with block := some raw }
        ∨ ∃ c, s.block = some c ∧ t = s.moveTo p .refused) := by
  simp only [step] at h
  split at h
  · rename_i hp
    cases hb : s.block with
    | none =>
        rw [hb] at h
        exact ⟨hp, Or.inl ⟨rfl, (Option.some.inj h).symm⟩⟩
    | some c =>
        rw [hb] at h
        exact ⟨hp, Or.inr ⟨c, rfl, (Option.some.inj h).symm⟩⟩
  · cases h

theorem step_construct {s t : PortShm Proc} {p : Proc}
    (h : s.step (.construct p) = some t) :
    s.stage p = .allocated ∧ t = { s.moveTo p .ready with block := some .new } := by
  simp only [step] at h
  split at h
  · rename_i hp
    exact ⟨hp, (Option.some.inj h).symm⟩
  · cases h

theorem step_attach {s t : PortShm Proc} {p : Proc} (h : s.step (.attach p) = some t) :
    s.stage p = .refused ∧ t = s.moveTo p .ready := by
  simp only [step] at h
  split at h
  · rename_i hp
    exact ⟨hp, (Option.some.inj h).symm⟩
  · cases h

theorem step_setPort {s t : PortShm Proc} {p : Proc} {type : ModuleType} {port : UInt16}
    (h : s.step (.setPort p type port) = some t) :
    s.stage p = .ready
      ∧ ∃ r, PortManager.setPort s.block type port = some r
        ∧ t = { s with
          block := r.2
          published := Function.update s.published type port } := by
  simp only [step] at h
  split at h
  · rename_i hp
    obtain ⟨r, hr, rfl⟩ := Option.map_eq_some_iff.mp h
    exact ⟨hp, r, hr, rfl⟩
  · cases h

theorem step_getPort {s t : PortShm Proc} {p : Proc} {type : ModuleType}
    (h : s.step (.getPort p type) = some t) : s.stage p = .ready ∧ t = s := by
  simp only [step] at h
  split at h
  · rename_i hp
    obtain ⟨_, -, rfl⟩ := Option.map_eq_some_iff.mp h
    exact ⟨hp, rfl⟩
  · cases h

/-- A process past `alloc_with_id` has a record to use, and nothing is
published before some process is ready. -/
structure Wf (s : PortShm Proc) : Prop where
  block : ∀ p, s.stage p ≠ .absent → s.block.isSome = true
  unpublished : (∀ p, s.stage p ≠ .ready) → ∀ type, s.published type = 0

omit [DecidableEq Proc] in
theorem initial_wf : (initial : PortShm Proc).Wf :=
  ⟨fun _ h => absurd rfl h, fun _ _ => rfl⟩

theorem step_wf {s t : PortShm Proc} {a : PortAction Proc} (h : s.Wf)
    (hst : s.step a = some t) : t.Wf := by
  cases a with
  | alloc p raw =>
      obtain ⟨hp, hcase⟩ := step_alloc hst
      -- `p` was absent, so whoever was ready still is
      have hready : ∀ {stage}, (∀ q, (s.moveTo p stage).stage q ≠ .ready) →
          ∀ q, s.stage q ≠ .ready := by
        intro stage hall q hq
        have hqp : q ≠ p := by
          rintro rfl
          rw [hp] at hq
          cases hq
        refine hall q ?_
        rw [moveTo_stage, if_neg hqp]
        exact hq
      rcases hcase with ⟨-, rfl⟩ | ⟨c, hc, rfl⟩
      · exact ⟨fun _ _ => rfl, fun hall => h.unpublished (hready hall)⟩
      · refine ⟨fun _ _ => ?_, fun hall => h.unpublished (hready hall)⟩
        rw [moveTo_block, hc]
        rfl
  | construct p =>
      obtain ⟨-, rfl⟩ := step_construct hst
      exact ⟨fun _ _ => rfl, fun hall => absurd (by simp) (hall p)⟩
  | attach p =>
      obtain ⟨hp, rfl⟩ := step_attach hst
      refine ⟨fun _ _ => h.block p (by simp [hp]), fun hall => absurd (by simp) (hall p)⟩
  | setPort p type port =>
      obtain ⟨hp, r, hr, rfl⟩ := step_setPort hst
      refine ⟨fun q hq => ?_, fun hall => absurd hp (hall p)⟩
      exact (PortManager.setPort_keeps hr).trans (h.block q hq)
  | getPort p type =>
      obtain ⟨-, rfl⟩ := step_getPort hst
      exact h

/-! ## The register -/

/-- Each `get_port` a process can make yields the published port. -/
def Published (s : PortShm Proc) : Prop :=
  ∀ p, s.stage p = .ready →
    ∀ type, PortManager.getPort s.block type = some (.success, s.published type)

/-- The construction comes before any port is published, a process that is the
first to attach finds zeros in the record, and for a value that is no
enumerator only 0 is published. -/
def Settled (s : PortShm Proc) : PortAction Proc → Prop
  | .construct _ => ∀ type, s.published type = 0
  | .attach _ =>
      (∃ q, s.stage q = .ready) ∨ ∀ c, s.block = some c → ∀ type, c.port type = 0
  | .setPort _ type port => type.named = true ∨ port = 0
  | _ => True

omit [DecidableEq Proc] in
theorem published_iff {s : PortShm Proc} {c : PortContainer} (hc : s.block = some c)
    {p : Proc} (hp : s.stage p = .ready) :
    s.Published ↔ ∀ type, c.port type = s.published type := by
  have hget : ∀ type, PortManager.getPort s.block type = some (.success, c.port type) := by
    intro type
    rw [hc, PortManager.getPort_some]
  constructor
  · intro h type
    have hp := h p hp type
    rw [hget type] at hp
    simpa using hp
  · intro h q _ type
    rw [hget type, h type]

theorem step_published {s t : PortShm Proc} {a : PortAction Proc} (hw : s.Wf)
    (h : s.Published) (hst : s.step a = some t) : t.Published ↔ s.Settled a := by
  cases a with
  | alloc p raw =>
      obtain ⟨hp, hcase⟩ := step_alloc hst
      refine iff_of_true ?_ trivial
      intro q hq
      rcases hcase with ⟨hb, rfl⟩ | ⟨c, -, rfl⟩
      · -- no block, so no process is ready
        have hqs : s.stage q ≠ .absent := by
          intro habs
          have hstage : (s.moveTo p .allocated).stage q = .ready := hq
          rw [moveTo_stage] at hstage
          split at hstage
          · cases hstage
          · rw [habs] at hstage
            cases hstage
        have hsome := hw.block q hqs
        rw [hb] at hsome
        cases hsome
      · rw [moveTo_stage] at hq
        split at hq
        · cases hq
        · exact h q hq
  | construct p =>
      obtain ⟨-, rfl⟩ := step_construct hst
      have hready : ({ s.moveTo p .ready with block := some .new } : PortShm Proc).stage p
          = .ready := by simp
      rw [published_iff rfl hready]
      simp [Settled, eq_comm]
  | attach p =>
      obtain ⟨hp, rfl⟩ := step_attach hst
      obtain ⟨c, hc⟩ := Option.isSome_iff_exists.mp (hw.block p (by simp [hp]))
      have hready : (s.moveTo p .ready).stage p = .ready := by simp
      have hblock : (s.moveTo p .ready).block = some c := hc
      rw [published_iff hblock hready, moveTo_published]
      by_cases hsome : ∃ q, s.stage q = .ready
      · obtain ⟨q, hq⟩ := hsome
        exact iff_of_true ((published_iff hc hq).mp h) (Or.inl ⟨q, hq⟩)
      · -- the first to attach: nothing is published yet
        have hzero : ∀ type, s.published type = 0 :=
          hw.unpublished fun q hq => hsome ⟨q, hq⟩
        constructor
        · intro hport
          refine Or.inr fun c' hc' type => ?_
          obtain rfl := Option.some.inj (hc.symm.trans hc')
          rw [hport type, hzero type]
        · rintro (hq | hport) type
          · exact absurd hq hsome
          · rw [hport c hc type, hzero type]
  | setPort p type port =>
      obtain ⟨hp, r, hr, rfl⟩ := step_setPort hst
      obtain ⟨c, hc⟩ := Option.isSome_iff_exists.mp (hw.block p (by simp [hp]))
      have hport : c.port = s.published := funext ((published_iff hc hp).mp h)
      rw [hc, PortManager.setPort_some] at hr
      obtain rfl := Option.some.inj hr
      have hnext : Published { s with
            block := some (c.setPort type port)
            published := Function.update s.published type port }
          ↔ ∀ type', (c.setPort type port).port type'
            = Function.update s.published type port type' :=
        published_iff (p := p) rfl hp
      rw [hnext, ← hport, ← funext_iff]
      exact c.setPort_port_iff type port
  | getPort p type =>
      obtain ⟨-, rfl⟩ := step_getPort hst
      exact iff_of_true h trivial

/-- **When no published port is lost.** In every run: each `get_port` that
could be made along it yields the port of the most recent `set_port` of that
type, 0 before the first, exactly if the record is constructed before a port
is published, the first process to attach finds zeros in it, and no port but 0
is set for a value that is no enumerator. -/
theorem published_always_iff {actions : List (PortAction Proc)} {s : PortShm Proc}
    (h : (sharing Proc).run initial actions = some s) :
    (sharing Proc).Always Published initial actions
      ↔ (sharing Proc).Meets Settled initial actions :=
  Lts.always_iff (I := Wf) (fun _ _ _ hw hst => step_wf hw hst)
    (fun _ _ _ hw hp hst => step_published hw hp hst) h initial_wf
    fun _ hq => absurd hq (by simp [initial])

/-- The second process attaches, to a record whose bytes were not zero, after
the first constructed it. -/
def constructFirst : List (PortAction Bool) :=
  [.alloc true ⟨9, 9, 9⟩, .alloc false ⟨0, 0, 0⟩, .construct true, .attach false,
    .setPort false .live 80, .setPort true .vod 81, .getPort true .live]

theorem published_always_iff_constructFirst :
    (sharing Bool).Always Published initial constructFirst := by
  have h : (sharing Bool).run initial constructFirst = some _ := rfl
  refine (published_always_iff h).mpr ?_
  refine (Lts.meets_cons rfl _).mpr ⟨trivial, (Lts.meets_cons rfl _).mpr ⟨trivial, ?_⟩⟩
  refine (Lts.meets_cons rfl _).mpr ⟨fun _ => rfl, ?_⟩
  refine (Lts.meets_cons rfl _).mpr ⟨Or.inl ⟨true, rfl⟩, ?_⟩
  refine (Lts.meets_cons rfl _).mpr ⟨Or.inl rfl, (Lts.meets_cons rfl _).mpr ⟨Or.inl rfl, ?_⟩⟩
  exact (Lts.meets_cons rfl _).mpr ⟨trivial, trivial⟩

/-- The second process attaches and publishes a port between the first one's
allocation and its construction. -/
def overtaken : List (PortAction Bool) :=
  [.alloc true ⟨0, 0, 0⟩, .alloc false ⟨0, 0, 0⟩, .attach false,
    .setPort false .live 80, .construct true, .getPort false .live]

/-- The construction erases the port. -/
theorem overtaken_loses_port :
    ∃ s, (sharing Bool).run initial overtaken = some s
      ∧ s.stage false = .ready
      ∧ s.published .live = 80
      ∧ PortManager.getPort s.block .live = some (.success, 0)
      ∧ ¬s.Published := by
  refine ⟨_, rfl, rfl, rfl, rfl, ?_⟩
  intro h
  exact absurd (h false rfl .live) (by decide)

end PortShm

end JustCommon
