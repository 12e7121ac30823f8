import Kairon.Agent.Status
import Mathlib.Tactic.MkIffOfInductiveProp

/-!
# Whole-status patches

A status is written as one merge patch of its JSON form. A field tagged `omitempty` that is empty is
not in the patch, so it stays as it was stored.

* `MachineStatus.patch_eq_iff` and its like: each kind of status
* `status_patch_exact`: when a patch stores the status it was made from
-/

namespace Kairon.Model

open Infra GoJson

def NilCleared {α : Type} (old new : Option α) : Prop :=
  new = none → old = none

def PtrCleared {α : Type} (clears : α → α → Prop) (old new : Option α) : Prop :=
  NilCleared old new ∧ ∀ o n, old = some o → new = some n → clears o n

@[mk_iff]
structure MachineDataplaneStatus.Clears (old new : MachineDataplaneStatus) : Prop where
  mode : Cleared old.mode new.mode
  schemaVersion : NilCleared old.schemaVersion new.schemaVersion
  identity : Cleared old.identity new.identity
  policyFingerprint : Cleared old.policyFingerprint new.policyFingerprint
  policySynced : Cleared old.policySynced new.policySynced
  interface : Cleared old.interface new.interface

@[mk_iff]
structure MachineCiliumStatus.Clears (old new : MachineCiliumStatus) : Prop where
  externalWorkload : Cleared old.externalWorkload new.externalWorkload
  externalWorkloadUID : Cleared old.externalWorkloadUID new.externalWorkloadUID
  identity : Cleared old.identity new.identity
  ipv4 : Cleared old.ipv4 new.ipv4
  message : Cleared old.message new.message

@[mk_iff]
structure MachineEdgeStatus.Clears (old new : MachineEdgeStatus) : Prop where
  identity : Cleared old.identity new.identity
  guestIPSource : Cleared old.guestIPSource new.guestIPSource
  antiSpoof : Cleared old.antiSpoof new.antiSpoof
  policyName : Cleared old.policyName new.policyName
  conntrackRestored : Cleared old.conntrackRestored new.conntrackRestored
  blackholeWindowMs : Cleared old.blackholeWindowMs new.blackholeWindowMs

@[mk_iff]
structure MachineNetworkStatus.Clears (old new : MachineNetworkStatus) : Prop where
  guestIP : Cleared old.guestIP new.guestIP
  guestIPs : Cleared old.guestIPs new.guestIPs
  tapName : Cleared old.tapName new.tapName
  dataplane : PtrCleared MachineDataplaneStatus.Clears old.dataplane new.dataplane
  cilium : PtrCleared MachineCiliumStatus.Clears old.cilium new.cilium
  edge : PtrCleared MachineEdgeStatus.Clears old.edge new.edge

@[mk_iff]
structure ResourceLimits.Clears (old new : ResourceLimits) : Prop where
  cpuQuotaPercent : NilCleared old.cpuQuotaPercent new.cpuQuotaPercent
  memoryMaxBytes : NilCleared old.memoryMaxBytes new.memoryMaxBytes
  ioWeight : NilCleared old.ioWeight new.ioWeight
  pidsMax : NilCleared old.pidsMax new.pidsMax
  cpuSetCpus : Cleared old.cpuSetCpus new.cpuSetCpus

@[mk_iff]
structure MachineStatus.Clears (old new : MachineStatus) : Prop where
  phase : Cleared old.phase new.phase
  nodeName : Cleared old.nodeName new.nodeName
  runtimeID : Cleared old.runtimeID new.runtimeID
  guestIP : Cleared old.guestIP new.guestIP
  guestIPs : Cleared old.guestIPs new.guestIPs
  network : PtrCleared MachineNetworkStatus.Clears old.network new.network
  observedGeneration : Cleared old.observedGeneration new.observedGeneration
  conditions : Cleared old.conditions new.conditions
  appliedVCPUs : Cleared old.appliedVCPUs new.appliedVCPUs
  appliedMemoryMiB : Cleared old.appliedMemoryMiB new.appliedMemoryMiB
  appliedResourceLimits :
    PtrCleared ResourceLimits.Clears old.appliedResourceLimits new.appliedResourceLimits
  resourceUsage : NilCleared old.resourceUsage new.resourceUsage
  volumeStagingPath : Cleared old.volumeStagingPath new.volumeStagingPath
  volumePublishPath : Cleared old.volumePublishPath new.volumePublishPath
  volumeHandle : Cleared old.volumeHandle new.volumeHandle
  volumeDriver : Cleared old.volumeDriver new.volumeDriver
  appliedServiceFabricMemberships :
    Cleared old.appliedServiceFabricMemberships new.appliedServiceFabricMemberships
  attachedDisks : Cleared old.attachedDisks new.attachedDisks
  diskVolumes : Cleared old.diskVolumes new.diskVolumes
  attachedInterfaces : Cleared old.attachedInterfaces new.attachedInterfaces

@[mk_iff]
structure MachineQuotaStatus.Clears (old new : MachineQuotaStatus) : Prop where
  usedMachines : Cleared old.usedMachines new.usedMachines
  usedTotalCpuCores : Cleared old.usedTotalCpuCores new.usedTotalCpuCores
  usedTotalMemoryMiB : Cleared old.usedTotalMemoryMiB new.usedTotalMemoryMiB

@[mk_iff]
structure MachineSetStatus.Clears (old new : MachineSetStatus) : Prop where
  replicas : Cleared old.replicas new.replicas
  readyReplicas : Cleared old.readyReplicas new.readyReplicas
  updatedReplicas : Cleared old.updatedReplicas new.updatedReplicas
  selector : Cleared old.selector new.selector

@[mk_iff]
structure MachineSnapshotScheduleStatus.Clears (old new : MachineSnapshotScheduleStatus) :
    Prop where
  lastRunSnapshotCount : Cleared old.lastRunSnapshotCount new.lastRunSnapshotCount
  lastRunError : Cleared old.lastRunError new.lastRunError
  lastHandledTriggerTime : Cleared old.lastHandledTriggerTime new.lastHandledTriggerTime

/-! ## When a patch reproduces the new value -/

theorem patchPtr_eq_iff_nil {α : Type} [GoAtom α] (old new : Option α) :
    patchPtr old new = new ↔ NilCleared old new := by
  simp [patchPtr_eq_iff, patch_eq_self, NilCleared]

theorem patchPtr_eq_iff_ptr {α : Type} [GoJson α] {clears : α → α → Prop}
    (h : ∀ o n : α, patch o n = n ↔ clears o n) (old new : Option α) :
    patchPtr old new = new ↔ PtrCleared clears old new := by
  simp only [patchPtr_eq_iff, PtrCleared, NilCleared, h]

theorem MachineDataplaneStatus.patch_eq_iff (old new : MachineDataplaneStatus) :
    patch old new = new ↔ old.Clears new := by
  rw [MachineDataplaneStatus.ext_iff, clears_iff]
  simp only [patch, patchOmit_eq_iff, patchPtr_eq_iff_nil, true_and]

theorem MachineCiliumStatus.patch_eq_iff (old new : MachineCiliumStatus) :
    patch old new = new ↔ old.Clears new := by
  rw [MachineCiliumStatus.ext_iff, clears_iff]
  simp only [patch, patchOmit_eq_iff]

theorem MachineEdgeStatus.patch_eq_iff (old new : MachineEdgeStatus) :
    patch old new = new ↔ old.Clears new := by
  rw [MachineEdgeStatus.ext_iff, clears_iff]
  simp only [patch, patchOmit_eq_iff]

theorem MachineNetworkStatus.patch_eq_iff (old new : MachineNetworkStatus) :
    patch old new = new ↔ old.Clears new := by
  rw [MachineNetworkStatus.ext_iff, clears_iff]
  simp only [patch, patchOmit_eq_iff, patchPtr_eq_iff_ptr MachineDataplaneStatus.patch_eq_iff,
    patchPtr_eq_iff_ptr MachineCiliumStatus.patch_eq_iff,
    patchPtr_eq_iff_ptr MachineEdgeStatus.patch_eq_iff]

theorem ResourceLimits.patch_eq_iff (old new : ResourceLimits) :
    patch old new = new ↔ old.Clears new := by
  rw [ResourceLimits.ext_iff, clears_iff]
  simp only [patch, patchOmit_eq_iff, patchPtr_eq_iff_nil]

variable (old m : MachineStatus)

theorem MachineStatus.patch_eq_iff (new : MachineStatus) :
    patch old new = new ↔ old.Clears new := by
  rw [MachineStatus.ext_iff, clears_iff]
  simp only [patch, patchOmit_eq_iff, patchPtr_eq_iff_ptr MachineNetworkStatus.patch_eq_iff,
    patchPtr_eq_iff_ptr ResourceLimits.patch_eq_iff, patchPtr_eq_iff,
    NilCleared, true_and, implies_true, and_true]

theorem MachineQuotaStatus.patch_eq_iff (old new : MachineQuotaStatus) :
    patch old new = new ↔ old.Clears new := by
  rw [MachineQuotaStatus.ext_iff, clears_iff]
  simp only [patch, patchOmit_eq_iff]

theorem MachineSetStatus.patch_eq_iff (old new : MachineSetStatus) :
    patch old new = new ↔ old.Clears new := by
  rw [MachineSetStatus.ext_iff, clears_iff]
  simp only [patch, patchOmit_eq_iff, and_true]

theorem MachineSnapshotScheduleStatus.patch_eq_iff (old new : MachineSnapshotScheduleStatus) :
    patch old new = new ↔ old.Clears new := by
  rw [MachineSnapshotScheduleStatus.ext_iff, clears_iff]
  simp only [patch, patchOmit_eq_iff, Cleared, isEmpty, Bool.false_eq_true, false_implies, true_and]

/-! ## Patching a stored status -/

def patchStatus {α : Type} [GoJson α] (stored : Json) (new : α) : α :=
  dec (stored.merge (enc new))

theorem patchStatus_eq {α : Type} [GoJson α] (stored : Json) (new : α) :
    patchStatus stored new = patch (dec stored) new :=
  dec_merge stored new

structure KeepsPoweredOff (old after : MachineStatus) : Prop where
  guestIP : after.guestIP = old.guestIP
  network : after.network = old.network
  appliedServiceFabricMemberships :
    after.appliedServiceFabricMemberships = old.appliedServiceFabricMemberships

/-- The fields that `Fence` zeroes are as they were. -/
structure KeepsFenced (old after : MachineStatus) : Prop where
  phase : after.phase = old.phase
  nodeName : after.nodeName = old.nodeName
  runtimeID : after.runtimeID = old.runtimeID
  guestIP : after.guestIP = old.guestIP
  guestIPs : after.guestIPs = old.guestIPs
  network : after.network = old.network
  appliedVCPUs : after.appliedVCPUs = old.appliedVCPUs
  appliedMemoryMiB : after.appliedMemoryMiB = old.appliedMemoryMiB

open Agent Fencing

theorem patch_fencedStatus (reason message : String) (now : Time) :
    KeepsFenced old (patch old (fencedStatus reason message now m)) := by
  constructor <;> rfl

theorem patch_stoppedStatus (nodeName : String) (now : Time) (generation : Int) :
    let new := { stoppedStatus nodeName now m with observedGeneration := generation }
    (patch old new).runtimeID = old.runtimeID ∧ KeepsPoweredOff old (patch old new) := by
  refine ⟨rfl, ?_⟩
  constructor <;> rfl

theorem patch_haltedStatus (nodeName runtimeID : String) (now : Time) (generation : Int) :
    KeepsPoweredOff old (patch old { haltedStatus nodeName runtimeID now m with
      observedGeneration := generation }) := by
  constructor <;> rfl

/--
A whole-status patch stores the new value exactly when it clears nothing: every `omitempty` field
that is empty in the new value was empty in the stored one, down through the nested objects. The
fields that `Fence`, `ensureStopped` and `ensureHalted` zero stay as they were stored.
-/
theorem status_patch_exact (stored : Json) : (∀ new : MachineStatus,
      patchStatus stored new = new ↔ MachineStatus.Clears (dec stored) new) ∧
    (∀ new : MachineQuotaStatus,
      patchStatus stored new = new ↔ MachineQuotaStatus.Clears (dec stored) new) ∧
    (∀ new : MachineSetStatus,
      patchStatus stored new = new ↔ MachineSetStatus.Clears (dec stored) new) ∧
    (∀ new : MachineSnapshotScheduleStatus,
      patchStatus stored new = new ↔ MachineSnapshotScheduleStatus.Clears (dec stored) new) ∧
    (∀ m reason message now,
      KeepsFenced (dec stored) (patchStatus stored (fencedStatus reason message now m))) ∧
    (∀ m nodeName now generation,
      let new := { stoppedStatus nodeName now m with observedGeneration := generation }
      (patchStatus stored new).runtimeID = (dec stored : MachineStatus).runtimeID ∧
        KeepsPoweredOff (dec stored) (patchStatus stored new)) ∧
    (∀ m nodeName runtimeID now generation, KeepsPoweredOff (dec stored) (patchStatus stored
        { haltedStatus nodeName runtimeID now m with observedGeneration := generation })) := by
  simp only [patchStatus_eq]
  exact ⟨fun new => MachineStatus.patch_eq_iff _ new,
    fun new => MachineQuotaStatus.patch_eq_iff _ new,
    fun new => MachineSetStatus.patch_eq_iff _ new,
    fun new => MachineSnapshotScheduleStatus.patch_eq_iff _ new,
    fun m reason message now => patch_fencedStatus _ m reason message now,
    fun m nodeName now generation => patch_stoppedStatus _ m nodeName now generation,
    fun m nodeName runtimeID now generation =>
      patch_haltedStatus _ m nodeName runtimeID now generation⟩

def runningStatus : MachineStatus where
  phase := "Running"
  nodeName := "node-a"
  runtimeID := "r-1"
  guestIP := "10.0.0.5"
  guestIPs := ["10.0.0.5"]
  network := none
  observedGeneration := 1
  message := ""
  conditions := []
  appliedVCPUs := 2
  appliedMemoryMiB := 2048
  appliedResourceLimits := none
  resourceUsage := none
  volumeStagingPath := ""
  volumePublishPath := ""
  volumeHandle := ""
  volumeDriver := ""
  appliedServiceFabricMemberships := []
  attachedDisks := []
  diskVolumes := []
  attachedInterfaces := []

/-- After `ensureStopped` the stored status still names the runtime and its address; after a quota
went back to zero the counter is still there, and so is the error of a schedule's last run. -/
theorem stopped_keeps_runtime :
    let stopped := patchStatus (enc runningStatus) (stoppedStatus "node-a" ⟨7⟩ runningStatus)
    stopped ≠ stoppedStatus "node-a" ⟨7⟩ runningStatus ∧ stopped.runtimeID = "r-1" ∧
      stopped.guestIP = "10.0.0.5" ∧
    (patchStatus (enc (MachineQuotaStatus.mk 3 6 4096)) (MachineQuotaStatus.mk 0 0 0)).usedMachines
      = 3 ∧
    (patchStatus (enc (MachineSnapshotScheduleStatus.mk ⟨5⟩ 0 "no such class" ⟨9⟩ ""))
      (MachineSnapshotScheduleStatus.mk ⟨9⟩ 2 "" ⟨13⟩ "")).lastRunError = "no such class" := by
  decide

end Kairon.Model
