import Kairon.Infra.Prog
import Kairon.Migration.Session
import Kairon.Model.MachineMigration

/-!
# The calls of the reconcile loops

What the controller and the node agents ask of the API server, of FluxVM on their node, of the
migration peer and of the source adapter. A call carries the object as the caller holds it. The
passes that are not modelled are single calls that may be answered in any way.
-/

namespace Kairon.Cluster

open Infra Model Migration

structure ApiError where
  notFound : Bool
  text : String
  deriving DecidableEq

/-- Where in the code a write comes from. The API server does not see it. -/
inductive Site where
  /-- The reconcile of one object. -/
  | reconcile
  /-- The branch of a loop for an object whose reconcile returned an error. -/
  | errorHandler
  /-- The scheduling loop, which works on `snapshot`. -/
  | placement (snapshot : List Machine)

inductive Subject where
  | machine (m : Machine)
  | migration (item : MachineMigration)

inductive FluxCall where
  | get (id : String)
  | lookupByName (name : String)
  | createWithVfio
  | createSandbox
  | fork (parentID : String)
  | resume (id : String)
  | start (id : String)
  | pause (id : String)
  | stop (id : String)
  | delete (id : String)
  | getStats (id : String)
  | networkMigrationQuiesce (id : String)
  | networkMigrationExport (id : String)
  | networkMigrationResume (id : String)

def FluxCall.Ans : FluxCall → Type
  | get _ | createWithVfio | createSandbox | fork _ | resume _ | start _ | pause _ | stop _ =>
    Except String RuntimeRecord
  | lookupByName _ => Except String (Option RuntimeRecord)
  | delete _ | networkMigrationQuiesce _ | networkMigrationResume _ => GoErr
  | getStats _ => Except String ResourceUsage
  | networkMigrationExport _ => Except String String

inductive PeerCall where
  | prepare (s : Session)
  | commit (sessionID : String)
  | abort (sessionID : String)
  | heartbeat (sessionID : String)
  | diagnose (sessionID : String)

def PeerCall.Ans : PeerCall → Type
  | prepare _ => Except String PrepareResponse
  | commit _ | abort _ | heartbeat _ => GoErr
  | diagnose _ => Except String DiagnosisResult

structure SourceOptions where
  mode : String
  bandwidthMbps : UInt64
  maxDowntimeMs : UInt64
  multifdChannels : UInt8
  deriving DecidableEq

structure SourceRequest where
  session : Session
  runtimeID : String
  endpoint : String
  options : SourceOptions
  deriving DecidableEq

structure TransferStatus where
  transferID : String
  phase : String
  message : String
  ramTransferred : UInt64
  ramRemaining : UInt64
  ramTotal : UInt64
  totalTimeMs : UInt64
  downtimeMs : UInt64
  deriving DecidableEq

structure SourceError where
  unsupported : Bool
  text : String

inductive SourceCall where
  | start (r : SourceRequest)
  | status (s : Session) (transferID : String)
  | abort (sessionID transferID : String)

def SourceCall.Ans : SourceCall → Type
  | start _ => Except SourceError TransferStatus
  | status _ _ => Except String TransferStatus
  | abort _ _ => GoErr

structure VolumeStatus where
  stagingPath : String
  publishPath : String
  volumeID : String
  driver : String

inductive MachineStep where
  /-- Boot disk, cdroms and data volumes. -/
  | resolveDisks
  /-- `ValidateCiliumAttach`, the pod UID and `resolveVFIODevices`. -/
  | prepareCreate
  | ejectRemovedCdroms (rec : RuntimeRecord)
  | pruneStaleCSIVolume (volume : VolumeStatus)
  | reconcileHotplug (rec : RuntimeRecord) (freshlyCreated restarted : Bool)
  | reconcileDevices (rec : RuntimeRecord)
  | reconcileResourceLimits (rec : RuntimeRecord)
  | projectNetworkStatus (rec : RuntimeRecord)
  | reconcileGuestQuiesce (rec : RuntimeRecord)
  | reconcileServiceFabric (guestIP : String)
  | deregisterServiceFabric
  | teardownCSIVolume
  | teardownDiskVolumes
  | exportConntrackSnapshot (id : String)

structure NetworkProjection where
  guestIP : String
  guestIPs : List String
  network : Option MachineNetworkStatus

def MachineStep.Ans : MachineStep → Type
  | resolveDisks => Except String VolumeStatus
  | ejectRemovedCdroms _ => Except String RuntimeRecord
  | reconcileHotplug _ _ _ => UInt32 × UInt64 × Option String
  | reconcileDevices _ =>
    List String × List DiskVolume × List AttachedInterface × Option String
  | reconcileResourceLimits _ => Option ResourceLimits × Option String
  | projectNetworkStatus _ => Except String NetworkProjection
  | reconcileGuestQuiesce _ => Unit
  | reconcileServiceFabric _ => Except String (List AppliedServiceFabricMembership)
  | exportConntrackSnapshot _ => String
  | prepareCreate | pruneStaleCSIVolume _ | deregisterServiceFabric | teardownCSIVolume
  | teardownDiskVolumes => GoErr

inductive AgentPass where
  | networkResources
  | publishCapabilities
  | serveAttestation
  | backups

inductive ControllerPass where
  | tenantFences | ciliumAttach | ciliumPolicySync | loadMigrationPolicies
  | patchMigrationPolicyStatuses | snapshots | snapshotRestores | machineBackups | machineSets
  | machineClaims | machinePools | quotas | draHints | preemption | quotaStatuses
  | disruptionBudgets | snapshotSchedules | attestation | agentStatus | cordonEvacuation
  | unreachableNodes | staleEvacuation | fleet

structure MachineInstanceType where
  key : ObjectKey
  resources : ResourceSpec

inductive Decision where
  /-- `Scheduler.Choose` among the candidates. -/
  | choose (m : Machine) (candidates : List Node)
  /-- `admitQuota`: the blocker, or `""`. -/
  | admitQuota (m : Machine)
  /-- `AdmitMigrationPolicy`: the blocker, or `""`. -/
  | admitMigrationPolicy (m : Machine)
  | bandwidthMbpsFromPolicies (m : Machine)
  /-- `migrationPreflight` and `deviceClaimsPreflight`: the blocker, or `""`. -/
  | preflight (m : Machine) (source target : Node) (strategy : String)
  /-- `resolveImageRefs`: the Machines that wait for an image. -/
  | imagesNotReady
  /-- `reconcileAtlasVolumes`: the Machines that wait for a volume. -/
  | volumesNotReady

def Decision.Ans : Decision → Type
  | choose _ _ => Except String String
  | admitQuota _ | admitMigrationPolicy _ | preflight _ _ _ _ => String
  | bandwidthMbpsFromPolicies _ => UInt64
  | imagesNotReady | volumesNotReady => List ObjectKey

inductive ClusterOp where
  | listMachines
  | listMachinesWithSelector (node : String)
  | getMachine (key : ObjectKey)
  | patchMachine (site : Site) (key : ObjectKey) (patch : MachinePatch)
  | patchMachineStatus (key : ObjectKey) (status : MachineStatus)
  | listMachineMigrations
  | listMachineMigrationsWithSelector (node : String)
  | listMachineMigrationsNamespace («namespace» : String)
  | patchMachineMigration (item : MachineMigration) (patch : MigrationPatch)
  | patchMachineMigrationStatus (site : Site) (item : MachineMigration)
      (status : MachineMigrationStatus)
  | listNodes
  | listMachineInstanceTypes
  | recordEvent (key : ObjectKey) (reason message : String)
  | flux (s : Subject) (call : FluxCall)
  | peer (item : MachineMigration) (url : String) (call : PeerCall)
  | source (item : MachineMigration) (call : SourceCall)
  /-- `MigrationPeerURL` or `targetControlURL`. -/
  | targetControlURL (node : String)
  | machineStep (m : Machine) (step : MachineStep)
  | agentPass (pass : AgentPass)
  | controllerPass (pass : ControllerPass)
  | decision (d : Decision)
  | now

def ClusterOp.Ans : ClusterOp → Type
  | listMachines | listMachinesWithSelector _ => Except ApiError (List Machine)
  | getMachine _ => Except ApiError Machine
  | listMachineMigrations | listMachineMigrationsWithSelector _
  | listMachineMigrationsNamespace _ => Except ApiError (List MachineMigration)
  | patchMachine _ _ _ | patchMachineStatus _ _ | patchMachineMigration _ _
  | patchMachineMigrationStatus _ _ _ | recordEvent _ _ _ => Except ApiError Unit
  | listNodes => Except ApiError (List Node)
  | listMachineInstanceTypes => Except ApiError (List MachineInstanceType)
  | flux _ call => call.Ans
  | peer _ _ call => call.Ans
  | source _ call => call.Ans
  | targetControlURL _ => Except String String
  | machineStep _ step => step.Ans
  | agentPass _ | controllerPass _ => GoErr
  | decision d => d.Ans
  | now => Time

abbrev M := Prog ClusterOp.Ans

def call (e : ClusterOp) : M e.Ans := Prog.perform ClusterOp.Ans e

def orText {Op : Type} {Ans : Op → Type} {α : Type} (p : Prog Ans (Except ApiError α)) :
    Prog Ans (Except String α) :=
  p.bind fun r => .ret (r.mapError ApiError.text)

def wrap {Op : Type} {Ans : Op → Type} {α : Type} (text : String)
    (p : Prog Ans (Except String α)) : Prog Ans (Except String α) :=
  p.bind fun r => .ret (r.mapError fun e => text ++ ": " ++ e)

/-! ## The calls under the names the code has for them -/

variable (site : Site) (key : ObjectKey) (s : Subject) (node id : String) (item : MachineMigration)

namespace Kube

def listMachines : M (Except ApiError (List Machine)) := call .listMachines

def listMachinesWithSelector : M (Except ApiError (List Machine)) :=
  call (.listMachinesWithSelector node)

def getMachine : M (Except ApiError Machine) := call (.getMachine key)

def patchMachine (patch : MachinePatch) : M (Except ApiError Unit) :=
  call (.patchMachine site key patch)

def patchMachineStatus (status : MachineStatus) : M (Except ApiError Unit) :=
  call (.patchMachineStatus key status)

def listMachineMigrations : M (Except ApiError (List MachineMigration)) :=
  call .listMachineMigrations

def listMachineMigrationsWithSelector : M (Except ApiError (List MachineMigration)) :=
  call (.listMachineMigrationsWithSelector node)

def listMachineMigrationsNamespace (ns : String) : M (Except ApiError (List MachineMigration)) :=
  call (.listMachineMigrationsNamespace ns)

def patchMachineMigration (patch : MigrationPatch) : M (Except ApiError Unit) :=
  call (.patchMachineMigration item patch)

def patchMachineMigrationStatus (status : MachineMigrationStatus) : M (Except ApiError Unit) :=
  call (.patchMachineMigrationStatus site item status)

def listNodes : M (Except ApiError (List Node)) := call .listNodes

def listMachineInstanceTypes : M (Except ApiError (List MachineInstanceType)) :=
  call .listMachineInstanceTypes

def recordEvent (reason message : String) : M (Except ApiError Unit) :=
  call (.recordEvent key reason message)

end Kube

namespace Flux

def get : M (Except String RuntimeRecord) := call (.flux s (.get id))

def lookupByName (name : String) : M (Except String (Option RuntimeRecord)) :=
  call (.flux s (.lookupByName name))

def createWithVfio : M (Except String RuntimeRecord) := call (.flux s .createWithVfio)

def createSandboxForMachine : M (Except String RuntimeRecord) := call (.flux s .createSandbox)

def fork (parentID : String) : M (Except String RuntimeRecord) := call (.flux s (.fork parentID))

def resume : M (Except String RuntimeRecord) := call (.flux s (.resume id))

def start : M (Except String RuntimeRecord) := call (.flux s (.start id))

def pause : M (Except String RuntimeRecord) := call (.flux s (.pause id))

def stop : M (Except String RuntimeRecord) := call (.flux s (.stop id))

def delete : M GoErr := call (.flux s (.delete id))

def getStats : M (Except String ResourceUsage) := call (.flux s (.getStats id))

def networkMigrationQuiesce : M GoErr := call (.flux s (.networkMigrationQuiesce id))

def networkMigrationExport : M (Except String String) := call (.flux s (.networkMigrationExport id))

def networkMigrationResume : M GoErr := call (.flux s (.networkMigrationResume id))

end Flux

variable (url sessionID : String)

namespace Peer

def prepare (s : Session) : M (Except String PrepareResponse) := call (.peer item url (.prepare s))

def commit : M GoErr := call (.peer item url (.commit sessionID))

def abort : M GoErr := call (.peer item url (.abort sessionID))

def heartbeat : M GoErr := call (.peer item url (.heartbeat sessionID))

def diagnose : M (Except String DiagnosisResult) := call (.peer item url (.diagnose sessionID))

end Peer

namespace Source

def start (r : SourceRequest) : M (Except SourceError TransferStatus) :=
  call (.source item (.start r))

def status (s : Session) (transferID : String) : M (Except String TransferStatus) :=
  call (.source item (.status s transferID))

def abort (transferID : String) : M GoErr := call (.source item (.abort sessionID transferID))

end Source

def targetControlURL : M (Except String String) := call (.targetControlURL node)

def decideBy (d : Decision) : M d.Ans := call (.decision d)

def step (m : Machine) (s : MachineStep) : M s.Ans := call (.machineStep m s)

def clock : M Time := call .now

end Kairon.Cluster
