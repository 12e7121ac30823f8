import Kairon.Infra.GoJson

/-!
# Status types

`model.MachineStatus` with the types it holds, and the other status types that are patched as one
object, with their JSON forms: which fields are tagged `omitempty`, which are pointers, and which
are always written.
-/

namespace Kairon.Model

open Infra GoJson

structure Condition where
  type : String
  status : String
  reason : String
  message : String
  lastTransitionTime : Time
  deriving DecidableEq

structure DiskVolume where
  name : String
  node : String
  driver : String
  volumeHandle : String
  stagingPath : String
  publishPath : String
  block : Bool
  deriving DecidableEq

structure AttachedInterface where
  name : String
  bridge : String
  mac : String
  deriving DecidableEq

structure AppliedServiceFabricMembership where
  name : String
  port : UInt16
  guestIP : String
  deriving DecidableEq

@[ext]
structure MachineDataplaneStatus where
  attached : Bool
  mode : String
  schemaVersion : Option UInt32
  identity : UInt32
  policyFingerprint : String
  policySynced : Bool
  interface : String
  deriving DecidableEq

@[ext]
structure MachineCiliumStatus where
  externalWorkload : String
  externalWorkloadUID : String
  identity : UInt32
  ipv4 : String
  message : String
  deriving DecidableEq

@[ext]
structure MachineEdgeStatus where
  identity : UInt32
  guestIPSource : String
  antiSpoof : Bool
  policyName : String
  conntrackRestored : Int
  blackholeWindowMs : Int
  deriving DecidableEq

@[ext]
structure MachineNetworkStatus where
  guestIP : String
  guestIPs : List String
  tapName : String
  dataplane : Option MachineDataplaneStatus
  cilium : Option MachineCiliumStatus
  edge : Option MachineEdgeStatus
  deriving DecidableEq

@[ext]
structure ResourceLimits where
  cpuQuotaPercent : Option UInt32
  memoryMaxBytes : Option UInt64
  ioWeight : Option UInt32
  pidsMax : Option UInt64
  cpuSetCpus : List UInt32
  deriving DecidableEq

@[ext]
structure ResourceUsage where
  cpuPercent : Float64
  memoryBytes : UInt64
  diskReadBytes : UInt64
  diskWriteBytes : UInt64
  deriving DecidableEq

@[ext]
structure MachineStatus where
  phase : String
  nodeName : String
  runtimeID : String
  guestIP : String
  guestIPs : List String
  network : Option MachineNetworkStatus
  observedGeneration : Int
  message : String
  conditions : List Condition
  appliedVCPUs : UInt32
  appliedMemoryMiB : UInt64
  appliedResourceLimits : Option ResourceLimits
  resourceUsage : Option ResourceUsage
  volumeStagingPath : String
  volumePublishPath : String
  volumeHandle : String
  volumeDriver : String
  appliedServiceFabricMemberships : List AppliedServiceFabricMembership
  attachedDisks : List String
  diskVolumes : List DiskVolume
  attachedInterfaces : List AttachedInterface
  deriving DecidableEq

/-! ## JSON forms -/

instance : GoJson Condition where
  enc c := .object
    [("type", enc c.type), ("status", enc c.status), ("reason", encOmit c.reason),
      ("message", encOmit c.message), ("lastTransitionTime", enc c.lastTransitionTime)]
  dec j :=
    ⟨dec (j.member "type"), dec (j.member "status"), dec (j.member "reason"),
      dec (j.member "message"), dec (j.member "lastTransitionTime")⟩
  patch old new :=
    ⟨patch old.type new.type, patch old.status new.status, patchOmit old.reason new.reason,
      patchOmit old.message new.message, patch old.lastTransitionTime new.lastTransitionTime⟩

instance : GoJson DiskVolume where
  enc v := .object
    [("name", enc v.name), ("node", enc v.node), ("driver", enc v.driver),
      ("volumeHandle", enc v.volumeHandle), ("stagingPath", enc v.stagingPath),
      ("publishPath", enc v.publishPath), ("block", encOmit v.block)]
  dec j :=
    ⟨dec (j.member "name"), dec (j.member "node"), dec (j.member "driver"),
      dec (j.member "volumeHandle"), dec (j.member "stagingPath"), dec (j.member "publishPath"),
      dec (j.member "block")⟩
  patch old new :=
    ⟨patch old.name new.name, patch old.node new.node, patch old.driver new.driver,
      patch old.volumeHandle new.volumeHandle, patch old.stagingPath new.stagingPath,
      patch old.publishPath new.publishPath, patchOmit old.block new.block⟩

instance : GoJson AttachedInterface where
  enc i := .object
    [("name", enc i.name), ("bridge", enc i.bridge), ("mac", enc i.mac)]
  dec j :=
    ⟨dec (j.member "name"), dec (j.member "bridge"), dec (j.member "mac")⟩
  patch old new :=
    ⟨patch old.name new.name, patch old.bridge new.bridge, patch old.mac new.mac⟩

instance : GoJson AppliedServiceFabricMembership where
  enc s := .object
    [("name", enc s.name), ("port", enc s.port), ("guestIP", enc s.guestIP)]
  dec j :=
    ⟨dec (j.member "name"), dec (j.member "port"), dec (j.member "guestIP")⟩
  patch old new :=
    ⟨patch old.name new.name, patch old.port new.port, patch old.guestIP new.guestIP⟩

instance : GoJson MachineDataplaneStatus where
  enc d := .object
    [("attached", enc d.attached), ("mode", encOmit d.mode),
      ("schemaVersion", encPtr d.schemaVersion), ("identity", encOmit d.identity),
      ("policyFingerprint", encOmit d.policyFingerprint),
      ("policySynced", encOmit d.policySynced), ("interface", encOmit d.interface)]
  dec j :=
    ⟨dec (j.member "attached"), dec (j.member "mode"), decPtr (j.member "schemaVersion"),
      dec (j.member "identity"), dec (j.member "policyFingerprint"),
      dec (j.member "policySynced"), dec (j.member "interface")⟩
  patch old new :=
    ⟨patch old.attached new.attached, patchOmit old.mode new.mode,
      patchPtr old.schemaVersion new.schemaVersion, patchOmit old.identity new.identity,
      patchOmit old.policyFingerprint new.policyFingerprint,
      patchOmit old.policySynced new.policySynced, patchOmit old.interface new.interface⟩

instance : GoJson MachineCiliumStatus where
  enc c := .object
    [("externalWorkload", encOmit c.externalWorkload),
      ("externalWorkloadUID", encOmit c.externalWorkloadUID), ("identity", encOmit c.identity),
      ("ipv4", encOmit c.ipv4), ("message", encOmit c.message)]
  dec j :=
    ⟨dec (j.member "externalWorkload"), dec (j.member "externalWorkloadUID"),
      dec (j.member "identity"), dec (j.member "ipv4"), dec (j.member "message")⟩
  patch old new :=
    ⟨patchOmit old.externalWorkload new.externalWorkload,
      patchOmit old.externalWorkloadUID new.externalWorkloadUID,
      patchOmit old.identity new.identity, patchOmit old.ipv4 new.ipv4,
      patchOmit old.message new.message⟩

instance : GoJson MachineEdgeStatus where
  enc e := .object
    [("identity", encOmit e.identity), ("guestIPSource", encOmit e.guestIPSource),
      ("antiSpoof", encOmit e.antiSpoof), ("policyName", encOmit e.policyName),
      ("conntrackRestored", encOmit e.conntrackRestored),
      ("blackholeWindowMs", encOmit e.blackholeWindowMs)]
  dec j :=
    ⟨dec (j.member "identity"), dec (j.member "guestIPSource"), dec (j.member "antiSpoof"),
      dec (j.member "policyName"), dec (j.member "conntrackRestored"),
      dec (j.member "blackholeWindowMs")⟩
  patch old new :=
    ⟨patchOmit old.identity new.identity, patchOmit old.guestIPSource new.guestIPSource,
      patchOmit old.antiSpoof new.antiSpoof, patchOmit old.policyName new.policyName,
      patchOmit old.conntrackRestored new.conntrackRestored,
      patchOmit old.blackholeWindowMs new.blackholeWindowMs⟩

instance : GoJson MachineNetworkStatus where
  enc n := .object
    [("guestIP", encOmit n.guestIP), ("guestIPs", encOmit n.guestIPs),
      ("tapName", encOmit n.tapName), ("dataplane", encPtr n.dataplane),
      ("cilium", encPtr n.cilium), ("edge", encPtr n.edge)]
  dec j :=
    ⟨dec (j.member "guestIP"), dec (j.member "guestIPs"), dec (j.member "tapName"),
      decPtr (j.member "dataplane"), decPtr (j.member "cilium"), decPtr (j.member "edge")⟩
  patch old new :=
    ⟨patchOmit old.guestIP new.guestIP, patchOmit old.guestIPs new.guestIPs,
      patchOmit old.tapName new.tapName, patchPtr old.dataplane new.dataplane,
      patchPtr old.cilium new.cilium, patchPtr old.edge new.edge⟩

instance : GoJson ResourceLimits where
  enc l := .object
    [("cpuQuotaPercent", encPtr l.cpuQuotaPercent), ("memoryMaxBytes", encPtr l.memoryMaxBytes),
      ("ioWeight", encPtr l.ioWeight), ("pidsMax", encPtr l.pidsMax),
      ("cpuSetCpus", encOmit l.cpuSetCpus)]
  dec j :=
    ⟨decPtr (j.member "cpuQuotaPercent"), decPtr (j.member "memoryMaxBytes"),
      decPtr (j.member "ioWeight"), decPtr (j.member "pidsMax"), dec (j.member "cpuSetCpus")⟩
  patch old new :=
    ⟨patchPtr old.cpuQuotaPercent new.cpuQuotaPercent,
      patchPtr old.memoryMaxBytes new.memoryMaxBytes, patchPtr old.ioWeight new.ioWeight,
      patchPtr old.pidsMax new.pidsMax, patchOmit old.cpuSetCpus new.cpuSetCpus⟩

instance : GoJson ResourceUsage where
  enc u := .object
    [("cpuPercent", enc u.cpuPercent), ("memoryBytes", enc u.memoryBytes),
      ("diskReadBytes", enc u.diskReadBytes), ("diskWriteBytes", enc u.diskWriteBytes)]
  dec j :=
    ⟨dec (j.member "cpuPercent"), dec (j.member "memoryBytes"), dec (j.member "diskReadBytes"),
      dec (j.member "diskWriteBytes")⟩
  patch old new :=
    ⟨patch old.cpuPercent new.cpuPercent, patch old.memoryBytes new.memoryBytes,
      patch old.diskReadBytes new.diskReadBytes, patch old.diskWriteBytes new.diskWriteBytes⟩

instance : GoJson MachineStatus where
  enc s := .object
    [("phase", encOmit s.phase), ("nodeName", encOmit s.nodeName),
      ("runtimeID", encOmit s.runtimeID), ("guestIP", encOmit s.guestIP),
      ("guestIPs", encOmit s.guestIPs), ("network", encPtr s.network),
      ("observedGeneration", encOmit s.observedGeneration), ("message", enc s.message),
      ("conditions", encOmit s.conditions), ("appliedVCPUs", encOmit s.appliedVCPUs),
      ("appliedMemoryMiB", encOmit s.appliedMemoryMiB),
      ("appliedResourceLimits", encPtr s.appliedResourceLimits),
      ("resourceUsage", encPtr s.resourceUsage), ("volumeStagingPath", encOmit s.volumeStagingPath),
      ("volumePublishPath", encOmit s.volumePublishPath),
      ("volumeHandle", encOmit s.volumeHandle), ("volumeDriver", encOmit s.volumeDriver),
      ("appliedServiceFabricMemberships", encOmit s.appliedServiceFabricMemberships),
      ("attachedDisks", encOmit s.attachedDisks), ("diskVolumes", encOmit s.diskVolumes),
      ("attachedInterfaces", encOmit s.attachedInterfaces)]
  dec j :=
    ⟨dec (j.member "phase"), dec (j.member "nodeName"), dec (j.member "runtimeID"),
      dec (j.member "guestIP"), dec (j.member "guestIPs"), decPtr (j.member "network"),
      dec (j.member "observedGeneration"), dec (j.member "message"), dec (j.member "conditions"),
      dec (j.member "appliedVCPUs"), dec (j.member "appliedMemoryMiB"),
      decPtr (j.member "appliedResourceLimits"), decPtr (j.member "resourceUsage"),
      dec (j.member "volumeStagingPath"), dec (j.member "volumePublishPath"),
      dec (j.member "volumeHandle"), dec (j.member "volumeDriver"),
      dec (j.member "appliedServiceFabricMemberships"), dec (j.member "attachedDisks"),
      dec (j.member "diskVolumes"), dec (j.member "attachedInterfaces")⟩
  patch old new :=
    ⟨patchOmit old.phase new.phase, patchOmit old.nodeName new.nodeName,
      patchOmit old.runtimeID new.runtimeID, patchOmit old.guestIP new.guestIP,
      patchOmit old.guestIPs new.guestIPs, patchPtr old.network new.network,
      patchOmit old.observedGeneration new.observedGeneration, patch old.message new.message,
      patchOmit old.conditions new.conditions, patchOmit old.appliedVCPUs new.appliedVCPUs,
      patchOmit old.appliedMemoryMiB new.appliedMemoryMiB,
      patchPtr old.appliedResourceLimits new.appliedResourceLimits,
      patchPtr old.resourceUsage new.resourceUsage,
      patchOmit old.volumeStagingPath new.volumeStagingPath,
      patchOmit old.volumePublishPath new.volumePublishPath,
      patchOmit old.volumeHandle new.volumeHandle, patchOmit old.volumeDriver new.volumeDriver,
      patchOmit old.appliedServiceFabricMemberships new.appliedServiceFabricMemberships,
      patchOmit old.attachedDisks new.attachedDisks, patchOmit old.diskVolumes new.diskVolumes,
      patchOmit old.attachedInterfaces new.attachedInterfaces⟩

/-! ## Conditions -/

variable (conditions : List Condition)

def findCondition (type : String) : Option Condition := conditions.find? fun c => c.type == type

def stampCondition (now : Time) (cond : Condition) : Condition :=
  let fresh := if cond.lastTransitionTime.instant = 0 then now else cond.lastTransitionTime
  match findCondition conditions cond.type with
  | none => { cond with lastTransitionTime := fresh }
  | some prev =>
    if prev.status = cond.status ∧ prev.reason = cond.reason ∧ prev.message = cond.message then
      { cond with lastTransitionTime := prev.lastTransitionTime }
    else
      { cond with lastTransitionTime := fresh }

def setCondition (now : Time) (cond : Condition) : List Condition :=
  let stamped := stampCondition conditions now cond
  if conditions.any fun c => c.type == cond.type then
    conditions.map fun c => if c.type = cond.type then stamped else c
  else
    conditions ++ [stamped]

def MachineStatus.equalIgnoringVolatile (a b : MachineStatus) : Bool :=
  { a with resourceUsage := none } == { b with resourceUsage := none }

@[ext]
structure MachineQuotaStatus where
  usedMachines : Int
  usedTotalCpuCores : UInt32
  usedTotalMemoryMiB : UInt64

@[ext]
structure MachineSetStatus where
  replicas : Int
  readyReplicas : Int
  updatedReplicas : Int
  selector : String
  message : String

@[ext]
structure MachineSnapshotScheduleStatus where
  lastRunTime : Time
  lastRunSnapshotCount : Int
  lastRunError : String
  nextRunTime : Time
  lastHandledTriggerTime : String

instance : GoJson MachineQuotaStatus where
  enc q := .object
    [("usedMachines", encOmit q.usedMachines), ("usedTotalCpuCores", encOmit q.usedTotalCpuCores),
      ("usedTotalMemoryMiB", encOmit q.usedTotalMemoryMiB)]
  dec j :=
    ⟨dec (j.member "usedMachines"), dec (j.member "usedTotalCpuCores"),
      dec (j.member "usedTotalMemoryMiB")⟩
  patch old new :=
    ⟨patchOmit old.usedMachines new.usedMachines,
      patchOmit old.usedTotalCpuCores new.usedTotalCpuCores,
      patchOmit old.usedTotalMemoryMiB new.usedTotalMemoryMiB⟩

instance : GoJson MachineSetStatus where
  enc s := .object
    [("replicas", encOmit s.replicas), ("readyReplicas", encOmit s.readyReplicas),
      ("updatedReplicas", encOmit s.updatedReplicas), ("selector", encOmit s.selector),
      ("message", enc s.message)]
  dec j :=
    ⟨dec (j.member "replicas"), dec (j.member "readyReplicas"), dec (j.member "updatedReplicas"),
      dec (j.member "selector"), dec (j.member "message")⟩
  patch old new :=
    ⟨patchOmit old.replicas new.replicas, patchOmit old.readyReplicas new.readyReplicas,
      patchOmit old.updatedReplicas new.updatedReplicas, patchOmit old.selector new.selector,
      patch old.message new.message⟩

instance : GoJson MachineSnapshotScheduleStatus where
  enc s := .object
    [("lastRunTime", encOmit s.lastRunTime),
      ("lastRunSnapshotCount", encOmit s.lastRunSnapshotCount),
      ("lastRunError", encOmit s.lastRunError), ("nextRunTime", encOmit s.nextRunTime),
      ("lastHandledTriggerTime", encOmit s.lastHandledTriggerTime)]
  dec j :=
    ⟨dec (j.member "lastRunTime"), dec (j.member "lastRunSnapshotCount"),
      dec (j.member "lastRunError"), dec (j.member "nextRunTime"),
      dec (j.member "lastHandledTriggerTime")⟩
  patch old new :=
    ⟨patchOmit old.lastRunTime new.lastRunTime,
      patchOmit old.lastRunSnapshotCount new.lastRunSnapshotCount,
      patchOmit old.lastRunError new.lastRunError, patchOmit old.nextRunTime new.nextRunTime,
      patchOmit old.lastHandledTriggerTime new.lastHandledTriggerTime⟩

end Kairon.Model
