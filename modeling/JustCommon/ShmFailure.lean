import JustCommon.Debuger
import JustCommon.PortManager

/-!
# When shared memory is not there

`open_shm` logs the error of `SharedMemory::open` and goes on, so a process
can run without a segment; `alloc_with_id` and `get_by_id` then return
`NULL` and the constructors of `Debuger` and `PortManager` keep it. Every
use of `*debug_mode_` and `*ports_` is written out here as a dereference
that fails on `NULL`. `check_debug_mode` asks first; `change_debug_mode`,
`get_port` and `set_port` do not. The latter two come to `*ports_` for the
enumerators of `ModuleType` only.

Calls on the message queue fail harmlessly without a segment and are left
out.
-/

namespace JustCommon

namespace Debuger

/-- `*debug_mode_`, where reading it gives `value`. -/
def deref (d : Debuger) (value : UInt32) : Option UInt32 :=
  if d.debugMode then some value else none

/-- `check_debug_mode` with its dereferences. -/
def checkDebugModeDeref (d : Debuger) (first second : UInt32) :
    Option (Debuger × List LoggerCall) :=
  if d.debugMode then do
    let mode ← d.deref first
    if mode = 1 then
      return ({ d with debugLogStream := true, outStreamed := true }, [.addStream .debug])
    else
      let mode ← d.deref second
      if mode = 0 ∧ d.debugLogStream then
        return ({ d with outStreamed := false }, [.delStream .debug])
      else return (d, [])
  else return (d, [])

/-- The guard covers both reads. -/
theorem checkDebugModeDeref_eq (d : Debuger) (first second : UInt32) :
    d.checkDebugModeDeref first second = some (d.checkDebugMode first second) := by
  unfold checkDebugModeDeref checkDebugMode deref
  cases hptr : d.debugMode with
  | false => rfl
  | true =>
      by_cases hfirst : first = 1
      · simp [hfirst]
      · by_cases hsecond : second = 0 ∧ d.debugLogStream = true
        · simp [hfirst, hsecond]
        · simp [hfirst, hsecond]

end Debuger

/-- What opening the segment and the calls of the two constructors on it gave. -/
structure ShmOutcome where
  /-- `shm.open` reported no error. -/
  opened : Bool
  debugAllocated : Bool
  debugFound : Bool
  portsAllocated : Option PortContainer
  portsFound : Option PortContainer
  closed_debug : opened = false → debugAllocated = false ∧ debugFound = false
  closed_ports : opened = false → portsAllocated = none ∧ portsFound = none

namespace ShmOutcome

/-- The constructor of `Debuger` got a pointer. -/
def debugMode (o : ShmOutcome) : Bool := o.debugAllocated || o.debugFound

/-- The constructor of `PortManager` got a pointer. -/
def ports (o : ShmOutcome) : Bool := o.portsAllocated.isSome || o.portsFound.isSome

end ShmOutcome

/-- The two modules that keep a pointer into the segment. -/
structure ShmUsers where
  debuger : Debuger
  ports : Option PortContainer

inductive ShmOp where
  | startup (first second : UInt32)
  | tick (pending : Bool) (first second : UInt32)
  | changeDebugMode (bdebug : Bool)
  | setLogHook (hook : Option Nat) (level : UInt64)
  | shutdown
  | getPort (type : ModuleType)
  | setPort (type : ModuleType) (port : UInt16)

namespace ShmUsers

/-- The two constructors; `none` is a dereference of `NULL`. -/
def construct (o : ShmOutcome) (first second : UInt32) : Option ShmUsers := do
  let d ← Debuger.checkDebugModeDeref
    { debugMode := o.debugAllocated || o.debugFound
      debugLogStream := false
      hookLogStream := none
      timer := false
      outStreamed := false
      hookStreamed := false } first second
  return { debuger := d.1, ports := PortManager.construct o.portsAllocated o.portsFound }

/-- One operation; `none` is a dereference of `NULL`. -/
def exec (u : ShmUsers) : ShmOp → Option ShmUsers
  | .startup first second => do
      let r ← Debuger.checkDebugModeDeref { u.debuger with timer := true } first second
      return { u with debuger := r.1 }
  | .tick pending first second =>
      if pending then do
        let r ← u.debuger.checkDebugModeDeref first second
        return { u with debuger := r.1 }
      else return u
  | .changeDebugMode bdebug => do
      let _ ← u.debuger.storeDebugMode bdebug
      return u
  | .setLogHook hook level =>
      return { u with debuger := (u.debuger.setLogHook hook level).1 }
  | .shutdown => return { u with debuger := u.debuger.shutdown.1 }
  | .getPort type => do
      let _ ← PortManager.getPort u.ports type
      return u
  | .setPort type port => do
      let r ← PortManager.setPort u.ports type port
      return { u with ports := r.2 }

/-- A whole run; `none` if some operation of it dereferences `NULL`. -/
def run (o : ShmOutcome) (first second : UInt32) (ops : List ShmOp) : Option ShmUsers := do
  let u ← construct o first second
  ops.foldlM exec u

end ShmUsers

/-- The operation goes through `debug_mode_` without asking. -/
def ShmOp.UsesDebugMode : ShmOp → Prop
  | .changeDebugMode _ => True
  | _ => False

/-- The operation goes through `ports_` without asking. -/
def ShmOp.UsesPorts : ShmOp → Prop
  | .getPort type => type.named = true
  | .setPort type _ => type.named = true
  | _ => False

namespace ShmUsers

/-- Which of the two pointers are not `NULL`. -/
def Pointers (u : ShmUsers) (debugMode ports : Bool) : Prop :=
  u.debuger.debugMode = debugMode ∧ u.ports.isSome = ports

theorem exec_getPort (u : ShmUsers) (type : ModuleType) :
    u.exec (.getPort type) = (PortManager.getPort u.ports type).map fun _ => u := by
  rw [exec]
  cases PortManager.getPort u.ports type <;> rfl

theorem exec_setPort (u : ShmUsers) (type : ModuleType) (port : UInt16) :
    u.exec (.setPort type port)
      = (PortManager.setPort u.ports type port).map fun r => { u with ports := r.2 } := by
  rw [exec]
  cases PortManager.setPort u.ports type port <;> rfl

/-- What an operation needs, and that it changes neither pointer. -/
theorem exec_spec {u : ShmUsers} {debugMode ports : Bool}
    (hu : u.Pointers debugMode ports) (op : ShmOp) :
    ((u.exec op).isSome = true
        ↔ (op.UsesDebugMode → debugMode = true) ∧ (op.UsesPorts → ports = true))
      ∧ ∀ u', u.exec op = some u' → u'.Pointers debugMode ports := by
  obtain ⟨rfl, rfl⟩ := hu
  cases op with
  | startup first second =>
      simp [exec, Debuger.checkDebugModeDeref_eq, ShmOp.UsesDebugMode, ShmOp.UsesPorts,
        Pointers]
  | tick pending first second =>
      cases pending <;>
        simp [exec, Debuger.checkDebugModeDeref_eq, ShmOp.UsesDebugMode, ShmOp.UsesPorts,
          Pointers]
  | changeDebugMode bdebug =>
      cases hd : u.debuger.debugMode <;>
        simp [exec, Debuger.storeDebugMode, ShmOp.UsesDebugMode, ShmOp.UsesPorts, Pointers,
          hd]
  | setLogHook hook level =>
      simp [exec, ShmOp.UsesDebugMode, ShmOp.UsesPorts, Pointers]
  | shutdown => simp [exec, ShmOp.UsesDebugMode, ShmOp.UsesPorts, Pointers, Debuger.shutdown]
  | getPort type =>
      rw [exec_getPort, Option.isSome_map, PortManager.getPort_isSome]
      constructor
      · cases hnamed : type.named <;> simp [ShmOp.UsesDebugMode, ShmOp.UsesPorts, hnamed]
      · intro u' hu'
        obtain ⟨_, -, rfl⟩ := Option.map_eq_some_iff.mp hu'
        exact ⟨rfl, rfl⟩
  | setPort type port =>
      rw [exec_setPort, Option.isSome_map, PortManager.setPort_isSome]
      constructor
      · cases hnamed : type.named <;> simp [ShmOp.UsesDebugMode, ShmOp.UsesPorts, hnamed]
      · intro u' hu'
        obtain ⟨r, hr, rfl⟩ := Option.map_eq_some_iff.mp hu'
        exact ⟨rfl, PortManager.setPort_keeps hr⟩

/-- The two constructors dereference only what they tested. -/
theorem construct_eq (o : ShmOutcome) (first second : UInt32) :
    construct o first second
      = some
        { debuger := (Debuger.construct o.debugAllocated o.debugFound first second).1
          ports := PortManager.construct o.portsAllocated o.portsFound } := by
  rw [construct, Debuger.checkDebugModeDeref_eq]
  rfl

theorem construct_spec (o : ShmOutcome) (first second : UInt32) :
    ∃ u, construct o first second = some u ∧ u.Pointers o.debugMode o.ports := by
  refine ⟨_, construct_eq o first second, ?_, ?_⟩
  · exact Debuger.checkDebugMode_debugMode _ _ _
  · show (PortManager.construct o.portsAllocated o.portsFound).isSome = o.ports
    unfold PortManager.construct ShmOutcome.ports
    cases o.portsAllocated <;> rfl

theorem foldlM_isSome_iff {debugMode ports : Bool} (ops : List ShmOp) :
    ∀ {u : ShmUsers}, u.Pointers debugMode ports →
      ((ops.foldlM exec u).isSome = true
        ↔ ∀ op ∈ ops, (op.UsesDebugMode → debugMode = true) ∧ (op.UsesPorts → ports = true)) := by
  induction ops with
  | nil => simp
  | cons op ops ih =>
      intro u hu
      obtain ⟨hone, hkeep⟩ := exec_spec hu op
      rw [List.forall_mem_cons, ← hone, List.foldlM_cons]
      cases hnext : u.exec op with
      | none => simp
      | some u' => simp [ih (hkeep u' hnext)]

/-- **When shared memory failure is survived.** Whatever opening and allocating
gave, a run dereferences no `NULL` exactly if the debug word is there or
`change_debug_mode` is not called, and the ports are there or neither
`get_port` nor `set_port` is called for an enumerator. -/
theorem run_survives_iff (o : ShmOutcome) (first second : UInt32) (ops : List ShmOp) :
    (run o first second ops).isSome = true
      ↔ (o.debugMode = true ∨ ∀ op ∈ ops, ¬op.UsesDebugMode)
        ∧ (o.ports = true ∨ ∀ op ∈ ops, ¬op.UsesPorts) := by
  obtain ⟨u, hu, hptr⟩ := construct_spec o first second
  have hrun : run o first second ops = ops.foldlM exec u := by
    rw [run, hu]
    rfl
  have hsplit : ∀ {uses : ShmOp → Prop} {there : Bool},
      (∀ op ∈ ops, uses op → there = true) ↔ there = true ∨ ∀ op ∈ ops, ¬uses op := by
    intro uses there
    cases there with
    | true => simp
    | false => simp
  rw [hrun, foldlM_isSome_iff ops hptr, forall₂_and, hsplit, hsplit]

/-- `open_shm` failed. -/
def noSegment : ShmOutcome where
  opened := false
  debugAllocated := false
  debugFound := false
  portsAllocated := none
  portsFound := none
  closed_debug _ := ⟨rfl, rfl⟩
  closed_ports _ := ⟨rfl, rfl⟩

/-- Without a segment the debug switch and the port lookup go through `NULL`;
what the timer and the module interface do does not. -/
theorem no_segment_crashes :
    run noSegment 0 0 [.startup 0 0, .changeDebugMode true] = none
      ∧ run noSegment 0 0 [.startup 0 0, .getPort .live] = none
      ∧ (run noSegment 0 0 [.startup 0 0, .tick true 0 0, .shutdown]).isSome = true :=
  ⟨rfl, rfl, rfl⟩

end ShmUsers

end JustCommon
