import Kairon.Model.Machine

/-!
# Machine quotas

`internal/controller/quota.go` and the quota part of the Machine webhook of
`internal/controller/webhook.go`. Usage is tallied in the machine integers of the source, so sums
wrap around.
-/

namespace Kairon.Controller

open Infra.GoText Model

structure MachineQuotaSpec where
  maxMachines : Option Int
  maxTotalCPU : String
  maxTotalMemory : String
  deriving DecidableEq

structure MachineQuotaStatus where
  usedMachines : Int
  usedTotalCPUCores : UInt32
  usedTotalMemoryMiB : UInt64
  deriving DecidableEq

structure MachineQuota where
  «namespace» : String
  name : String
  spec : MachineQuotaSpec
  deriving DecidableEq

structure QuotaTracker where
  quota : MachineQuota
  used : MachineQuotaStatus
  deriving DecidableEq

def machineCountsTowardQuota (m : Machine) : Bool :=
  !m.metadata.deleting && m.desiredPowerState != "Stopped" && m.desiredPowerState != "Halted" &&
    m.spec.nodeName != ""

def quantityError {α : Type} (text : String) (parsed : Except String α) (intro : String) :
    Option String :=
  match parsed with
  | .error e => if text ≠ "" then some (intro ++ e) else none
  | .ok _ => none

variable (F : GoFloat)

def MachineQuotaSpec.cpuLimit (s : MachineQuotaSpec) : UInt32 :=
  (parseVCPUs F s.maxTotalCPU).toOption.getD 0

def MachineQuotaSpec.memoryLimit (s : MachineQuotaSpec) : UInt64 :=
  (parseMemoryMiB F s.maxTotalMemory).toOption.getD 0

def machineFootprint (m : Machine) : UInt32 × UInt64 :=
  ((parseVCPUs F m.spec.resources.cpu).toOption.getD 0,
    (parseMemoryMiB F m.spec.resources.memory).toOption.getD 0)

namespace QuotaTracker

variable (t : QuotaTracker)

def spend (footprint : UInt32 × UInt64) : QuotaTracker :=
  { t with used :=
    { usedMachines := t.used.usedMachines + 1
      usedTotalCPUCores := t.used.usedTotalCPUCores + footprint.1
      usedTotalMemoryMiB := t.used.usedTotalMemoryMiB + footprint.2 } }

def label : String := "MachineQuota " ++ t.quota.namespace ++ "/" ++ t.quota.name

def limitError : Option String :=
  quantityError t.quota.spec.maxTotalCPU (parseVCPUs F t.quota.spec.maxTotalCPU)
      (t.label ++ ": invalid maxTotalCpu: ") <|>
    quantityError t.quota.spec.maxTotalMemory (parseMemoryMiB F t.quota.spec.maxTotalMemory)
      (t.label ++ ": invalid maxTotalMemory: ")

def blocker (footprint : UInt32 × UInt64) : Option String :=
  let spec := t.quota.spec
  if spec.maxMachines.any fun max => t.used.usedMachines + 1 > max then
    some (t.label ++ ": maxMachines " ++ toString (spec.maxMachines.getD 0) ++ " reached")
  else if spec.maxTotalCPU ≠ "" ∧ t.used.usedTotalCPUCores + footprint.1 > spec.cpuLimit F then
    some (t.label ++ ": maxTotalCpu " ++ quote spec.maxTotalCPU ++ " reached")
  else if spec.maxTotalMemory ≠ "" ∧
      t.used.usedTotalMemoryMiB + footprint.2 > spec.memoryLimit F then
    some (t.label ++ ": maxTotalMemory " ++ quote spec.maxTotalMemory ++ " reached")
  else none

def resizeBlocker (old new : UInt32 × UInt64) : Option String :=
  let spec := t.quota.spec
  if spec.maxTotalCPU ≠ "" ∧ t.used.usedTotalCPUCores - old.1 + new.1 > spec.cpuLimit F then
    some (t.label ++ ": maxTotalCpu " ++ quote spec.maxTotalCPU ++ " reached")
  else if spec.maxTotalMemory ≠ "" ∧
      t.used.usedTotalMemoryMiB - old.2 + new.2 > spec.memoryLimit F then
    some (t.label ++ ": maxTotalMemory " ++ quote spec.maxTotalMemory ++ " reached")
  else none

end QuotaTracker

def spend (m : Machine) (trackers : List QuotaTracker) : List QuotaTracker :=
  trackers.map fun t =>
    if t.quota.namespace = m.key.namespace then t.spend (machineFootprint F m) else t

def seedTrackers (quotas : List MachineQuota) (machines : List Machine) : List QuotaTracker :=
  (machines.filter machineCountsTowardQuota).foldl (fun trackers m => spend F m trackers)
    (quotas.map fun q => ⟨q, ⟨0, 0, 0⟩⟩)

def buildQuotaTrackers (quotas : List MachineQuota) (machines : List Machine) :
    Except String (List QuotaTracker) :=
  let trackers := seedTrackers F quotas machines
  match trackers.findSome? (·.limitError F) with
  | some e => .error e
  | none => .ok trackers

def trackersIn (ns : String) (trackers : List QuotaTracker) : List QuotaTracker :=
  trackers.filter fun t => t.quota.namespace = ns

def admitQuota (trackers : List QuotaTracker) (m : Machine) : Except String (List QuotaTracker) :=
  match (trackersIn m.key.namespace trackers).findSome? (·.blocker F (machineFootprint F m)) with
  | some blocker => .error blocker
  | none => .ok (spend F m trackers)

structure OtherChecks where
  /-- `ValidateImageSource`. -/
  image : Machine → Option String
  /-- From `validateNetworkMAC` to `checkAttestationWrite`. -/
  create : Machine → Option String
  /-- From `tenantfence.CheckUpdate` to `ValidateCdromsUpdate`. -/
  update : Machine → Machine → Option String

variable (trackers : List QuotaTracker) (checks : OtherChecks)
  (quotas : Except String (List MachineQuota)) (machines : Except String (List Machine))

def admitQuotaResize (ns : String) (old new : UInt32 × UInt64) : Option String :=
  (trackersIn ns trackers).findSome? (·.resizeBlocker F old new)

def quotaTrackersForNamespace : Except String (Option (List QuotaTracker)) :=
  match quotas with
  | .error e => .error ("list MachineQuotas: " ++ e)
  | .ok [] => .ok none
  | .ok quotas =>
    match machines with
    | .error e => .error ("list Machines: " ++ e)
    | .ok machines => (buildQuotaTrackers F quotas machines).map some

/-! ## The webhook -/

inductive Admission where
  | allow
  | deny (message : String)
  deriving DecidableEq

def validateResourceQuantities (r : ResourceSpec) : Option String :=
  quantityError r.cpu (parseVCPUs F r.cpu) "spec.resources.cpu: " <|>
    quantityError r.memory (parseMemoryMiB F r.memory) "spec.resources.memory: " <|>
    quantityError r.maxCPU (parseVCPUs F r.maxCPU) "spec.resources.maxCpu: " <|>
    quantityError r.maxMemory (parseMemoryMiB F r.maxMemory) "spec.resources.maxMemory: "

def decideByQuota (trackers : Except String (Option (List QuotaTracker)))
    (check : List QuotaTracker → Option String) : Admission :=
  match trackers with
  | .error e => .deny e
  | .ok none => .allow
  | .ok (some trackers) =>
    match check trackers with
    | some blocker => .deny blocker
    | none => .allow

def validateMachineCreate (m : Machine) : Admission :=
  match (checks.image m <|> validateResourceQuantities F m.spec.resources) <|> checks.create m with
  | some e => .deny e
  | none =>
    decideByQuota (quotaTrackersForNamespace F quotas machines) fun trackers =>
      match admitQuota F trackers m with
      | .error blocker => some blocker
      | .ok _ => none

def validateMachineResize (old new : Machine) : Admission :=
  match validateResourceQuantities F new.spec.resources <|> checks.update old new with
  | some e => .deny e
  | none =>
    let before := machineFootprint F old
    let after := machineFootprint F new
    if !machineCountsTowardQuota old then .allow
    else if after.1 ≤ before.1 ∧ after.2 ≤ before.2 then .allow
    else
      decideByQuota (quotaTrackersForNamespace F quotas machines) fun trackers =>
        admitQuotaResize F trackers new.key.namespace before after

/-! ## The agent -/

/-- `quotaBlocksResize` of `internal/agent/hotplug.go`: the reason not to grow a Machine. -/
def quotaBlocksResize (m : Machine) (target : UInt32 × UInt64) : Option String :=
  if !machineCountsTowardQuota m then none
  else
    match quotaTrackersForNamespace F quotas machines with
    | .ok (some trackers) => admitQuotaResize F trackers m.key.namespace target target
    | _ => none

end Kairon.Controller
