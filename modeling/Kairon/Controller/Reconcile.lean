import Mathlib.Data.List.Sort
import Kairon.Controller.Migration
import Kairon.Scheduler.CpuSet

/-!
# The controller's loop

`Reconcile` of `internal/controller/controller.go`: labels and instance types, the migrations, and
the scheduling of the Machines that have no node yet.
-/

namespace Kairon.Controller

open Infra Model Cluster Scheduler

def assignedLabelPatch (node : String) : MachinePatch where
  labels := [(assignedNodeLabel, if node = "" then none else some node)]

variable (types : List MachineInstanceType) (m : Machine) (c : Config) (machines : List Machine)
  (nodes : List Node)

def syncAssignedNodeLabel : M Unit :=
  if m.spec.nodeName = m.metadata.labels.get assignedNodeLabel then .ret ()
  else (Kube.patchMachine .reconcile m.key (assignedLabelPatch m.spec.nodeName)).bind fun _ =>
    .ret ()

def syncAssignedNodeLabels : M Unit := Prog.forEach syncAssignedNodeLabel machines

def syncMigrationSourceLabel (g : MachineMigration) : M Unit :=
  if g.status.phase.isTerminal then .ret ()
  else (ensureMigrationSourceLabel g g.status.sourceNode).bind fun _ => .ret ()

def syncMigrationSourceLabels (migrations : List MachineMigration) : M Unit :=
  Prog.forEach syncMigrationSourceLabel migrations

/-! ## Instance types -/

def machineNeedsInstanceType : Bool :=
  m.spec.instanceTypeName != "" && m.spec.resources.cpu == "" && m.spec.resources.memory == ""

def instanceTypeOf : Option MachineInstanceType :=
  if machineNeedsInstanceType m then
    types.reverse.find? fun t => t.key = ⟨m.key.namespace, m.spec.instanceTypeName⟩
  else none

def resolveInstanceType : Machine :=
  match instanceTypeOf types m with
  | none => m
  | some t => { m with spec := { m.spec with resources := t.resources } }

def storeInstanceType : M Unit :=
  match instanceTypeOf types m with
  | none => .ret ()
  | some t =>
    (Kube.patchMachine .reconcile m.key { resources := some t.resources }).bind fun _ => .ret ()

def resolveInstanceTypes : M (List Machine) :=
  if machines.any machineNeedsInstanceType then do
    match ← Kube.listMachineInstanceTypes with
    | .error _ => return machines
    | .ok types =>
      Prog.forEach (storeInstanceType types) machines
      return machines.map (resolveInstanceType types)
  else .ret machines

/-! ## Scheduling -/

def unplacedStatus (reason message : String) (now : Time) : MachineStatus :=
  { m.status with
    phase := "Pending"
    message := message
    conditions :=
      setCondition m.status.conditions now ⟨"Scheduled", "False", reason, message, ⟨0⟩⟩ }

def reportUnplaced (reason message : String) : M Unit := do
  let now ← clock
  let _ ← Kube.patchMachineStatus m.key (unplacedStatus m reason message now)

variable (volumesNotReady imagesNotReady : List ObjectKey)

def pendingMachines : List Machine :=
  let pending := machines.filter fun m =>
    ¬m.metadata.deleting ∧ m.spec.nodeName = "" ∧ m.desiredPowerState ≠ "Stopped" ∧
      m.desiredPowerState ≠ "Halted" ∧ m.key ∉ volumesNotReady ∧ m.key ∉ imagesNotReady
  pending.insertionSort fun a b => a.spec.priority ≥ b.spec.priority

def placementPatch (m : Machine) (node : String) : Except String MachinePatch :=
  if m.spec.resources.cpuPinning then
    let chosen := (nodeByName nodes node).getD ⟨"", [], []⟩
    (allocateCPUSet c.parseVCPUs m chosen machines).map fun cpus =>
      { assignPatch node with allocatedCpuSet := some cpus }
  else .ok (assignPatch node)

theorem placementPatch_ok {c : Config} {machines : List Machine} {nodes : List Node} {m : Machine}
    {node : String} {p : MachinePatch} (h : placementPatch c machines nodes m node = .ok p) :
    ∃ cpus, p = { assignPatch node with allocatedCpuSet := cpus } := by
  unfold placementPatch at h
  split at h
  · simp only [Except.map] at h
    split at h
    · cases h
    · cases h
      exact ⟨_, rfl⟩
  · cases h
    exact ⟨none, rfl⟩

def placeMachine (m : Machine) : M GoErr := do
  match ← decideBy (.choose m nodes) with
  | .error e =>
    reportUnplaced m "Unschedulable" e
    return .ok ()
  | .ok node =>
    let (blocker : String) ← decideBy (.admitQuota m)
    if blocker ≠ "" then
      reportUnplaced m "QuotaBlocked" blocker
      let _ ← Kube.recordEvent m.key "QuotaBlocked" blocker
      return .ok ()
    else
      match placementPatch c machines nodes m node with
      | .error e =>
        reportUnplaced m "CPUPinningFailed" e
        return .ok ()
      | .ok patch => orText (Kube.patchMachine (.placement machines) m.key patch)

def placeMachines (c : Config) (machines : List Machine) (nodes : List Node) :
    List Machine → M GoErr
  | [] => .ret (.ok ())
  | m :: ms => (placeMachine c machines nodes m).andThen fun _ => placeMachines c machines nodes ms

/-! ## One tick -/

def migrationTick (load : MigrationLoad) (item : MachineMigration) : M MigrationLoad :=
  (reconcileMigration c item machines nodes load).bind fun r =>
    match r.2 with
    | .ok () => .ret r.1
    | .error e =>
      (Kube.patchMachineMigrationStatus .errorHandler item
        { item.status with phase := .failed, message := e }).bind fun _ => .ret r.1

def migrationTicks (c : Config) (machines : List Machine) (nodes : List Node) :
    MigrationLoad → List MachineMigration → M Unit
  | _, [] => .ret ()
  | load, item :: items =>
    (migrationTick c machines nodes load item).bind fun load =>
      migrationTicks c machines nodes load items

def pass (p : ControllerPass) : M GoErr := call (.controllerPass p)

def passes : List ControllerPass → M GoErr
  | [] => .ret (.ok ())
  | p :: ps => (pass p).andThen fun _ => passes ps

def quietly (ps : List ControllerPass) : M Unit :=
  Prog.forEach (fun p => (pass p).bind fun _ => .ret ()) ps

def reconcileListed (migrations : List MachineMigration) : M GoErr := do
  syncMigrationSourceLabels migrations
  quietly [.loadMigrationPolicies]
  migrationTicks c machines nodes (.new migrations) migrations
  quietly [.patchMigrationPolicyStatuses]
  (passes [.snapshots, .snapshotRestores, .machineBackups, .machineSets, .machineClaims,
    .machinePools, .quotas, .draHints]).andThen fun _ =>
  (placeMachines c machines nodes
    (pendingMachines machines volumesNotReady imagesNotReady)).andThen fun _ => do
  quietly [.preemption, .quotaStatuses, .disruptionBudgets, .snapshotSchedules, .attestation,
    .agentStatus, .cordonEvacuation, .unreachableNodes, .staleEvacuation, .fleet]
  return .ok ()

def reconcile : M GoErr :=
  (orText Kube.listMachines).andThen fun machines => do
    syncAssignedNodeLabels machines
    quietly [.tenantFences]
    let machines ← resolveInstanceTypes machines
    let (imagesNotReady : List ObjectKey) ← decideBy .imagesNotReady
    let (volumesNotReady : List ObjectKey) ← decideBy .volumesNotReady
    quietly [.ciliumAttach, .ciliumPolicySync]
    (orText Kube.listNodes).andThen fun nodes => do
      match ← Kube.listMachineMigrations with
      | .error e =>
        if e.notFound then reconcileListed c machines nodes volumesNotReady imagesNotReady []
        else return .error e.text
      | .ok migrations =>
        reconcileListed c machines nodes volumesNotReady imagesNotReady migrations

end Kairon.Controller
