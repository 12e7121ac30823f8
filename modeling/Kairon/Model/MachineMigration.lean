import Kairon.Model.Machine

/-!
# Machine migrations

`model.MachineMigration`: what a user asks for, what the operator attests when a migration is
parked in `NeedsRecovery`, and the status the controller and the source agent write.
-/

namespace Kairon.Model

open Infra GoJson

inductive MigrationPhase where
  | unset
  | pending
  | starting
  | running
  | cutover
  | adopting
  | stopping
  | restarting
  | needsRecovery
  | succeeded
  | failed
  | blocked
  | cancelled
  | other (text : String)
  deriving DecidableEq

namespace MigrationPhase

def text : MigrationPhase → String
  | unset => ""
  | pending => "Pending"
  | starting => "Starting"
  | running => "Running"
  | cutover => "Cutover"
  | adopting => "Adopting"
  | stopping => "Stopping"
  | restarting => "Restarting"
  | needsRecovery => "NeedsRecovery"
  | succeeded => "Succeeded"
  | failed => "Failed"
  | blocked => "Blocked"
  | cancelled => "Cancelled"
  | other s => s

def isActive : MigrationPhase → Bool
  | starting | running | cutover | adopting | stopping | restarting | needsRecovery => true
  | _ => false

def isPending : MigrationPhase → Bool
  | unset | pending => true
  | _ => false

/-- `isTerminalMigrationPhase` of the controller. -/
def isTerminal : MigrationPhase → Bool
  | succeeded | failed | blocked | cancelled | unset => true
  | _ => false

def isNonTerminal : MigrationPhase → Bool
  | succeeded | failed | blocked | unset => false
  | _ => true

def patch (old new : MigrationPhase) : MigrationPhase :=
  if new.text = "" then old else new

end MigrationPhase

inductive RecoveryAction where
  | confirmDestinationCommitted
  | confirmDestinationNotCommitted
  | forceAbort
  | other (text : String)
  deriving DecidableEq

def RecoveryAction.text : RecoveryAction → String
  | confirmDestinationCommitted => "ConfirmDestinationCommitted"
  | confirmDestinationNotCommitted => "ConfirmDestinationNotCommitted"
  | forceAbort => "ForceAbort"
  | other s => s

inductive RecoveryDiagnosis where
  | destinationCommitted
  | destinationNotCommitted
  | unknown
  | other (text : String)
  deriving DecidableEq

def RecoveryDiagnosis.text : RecoveryDiagnosis → String
  | destinationCommitted => "DestinationCommitted"
  | destinationNotCommitted => "DestinationNotCommitted"
  | unknown => "Unknown"
  | other s => s

def RecoveryAction.requires : RecoveryAction → Option RecoveryDiagnosis
  | confirmDestinationCommitted => some .destinationCommitted
  | confirmDestinationNotCommitted => some .destinationNotCommitted
  | _ => none

structure RecoverySpec where
  action : RecoveryAction
  acknowledgedDiagnosis : RecoveryDiagnosis
  reason : String
  deriving DecidableEq

structure MachineMigrationSpec where
  machineName : String
  strategy : String
  targetNode : String
  mode : String
  bandwidthMbps : UInt64
  maxDowntimeMs : UInt64
  multifdChannels : UInt8
  migrationNetwork : String
  recovery : Option RecoverySpec
  cancel : Bool
  deriving DecidableEq

structure MachineMigrationRecoveryStatus where
  sourceRuntimeStatus : String
  destinationSessionPhase : String
  destinationRuntimeStatus : String
  destinationRuntimeFound : Bool
  diagnosedAt : Option Time
  appliedAction : String
  appliedReason : String
  appliedAcknowledgedDiagnosis : String
  appliedAt : Option Time
  deriving DecidableEq

instance : GoJson MachineMigrationRecoveryStatus where
  enc r := .object
    [("sourceRuntimeStatus", encOmit r.sourceRuntimeStatus),
      ("destinationSessionPhase", encOmit r.destinationSessionPhase),
      ("destinationRuntimeStatus", encOmit r.destinationRuntimeStatus),
      ("destinationRuntimeFound", encOmit r.destinationRuntimeFound),
      ("diagnosedAt", encPtr r.diagnosedAt), ("appliedAction", encOmit r.appliedAction),
      ("appliedReason", encOmit r.appliedReason),
      ("appliedAcknowledgedDiagnosis", encOmit r.appliedAcknowledgedDiagnosis),
      ("appliedAt", encPtr r.appliedAt)]
  dec j :=
    ⟨dec (j.member "sourceRuntimeStatus"), dec (j.member "destinationSessionPhase"),
      dec (j.member "destinationRuntimeStatus"), dec (j.member "destinationRuntimeFound"),
      decPtr (j.member "diagnosedAt"), dec (j.member "appliedAction"),
      dec (j.member "appliedReason"), dec (j.member "appliedAcknowledgedDiagnosis"),
      decPtr (j.member "appliedAt")⟩
  patch old new :=
    ⟨patchOmit old.sourceRuntimeStatus new.sourceRuntimeStatus,
      patchOmit old.destinationSessionPhase new.destinationSessionPhase,
      patchOmit old.destinationRuntimeStatus new.destinationRuntimeStatus,
      patchOmit old.destinationRuntimeFound new.destinationRuntimeFound,
      patchPtr old.diagnosedAt new.diagnosedAt, patchOmit old.appliedAction new.appliedAction,
      patchOmit old.appliedReason new.appliedReason,
      patchOmit old.appliedAcknowledgedDiagnosis new.appliedAcknowledgedDiagnosis,
      patchPtr old.appliedAt new.appliedAt⟩

structure MachineMigrationStatus where
  phase : MigrationPhase
  message : String
  sourceNode : String
  targetNode : String
  effectiveStrategy : String
  runtimeID : String
  sessionID : String
  transferID : String
  transferPhase : String
  backend : String
  ramTransferred : UInt64
  ramRemaining : UInt64
  ramTotal : UInt64
  totalTimeMs : UInt64
  downtimeMs : UInt64
  dataPlaneEncrypted : Bool
  recovery : Option MachineMigrationRecoveryStatus
  deriving DecidableEq

/-- The stored status after a whole-status merge patch: the message is always written, every
other field is tagged `omitempty`. -/
def MachineMigrationStatus.patch (old new : MachineMigrationStatus) : MachineMigrationStatus where
  phase := old.phase.patch new.phase
  message := new.message
  sourceNode := patchOmit old.sourceNode new.sourceNode
  targetNode := patchOmit old.targetNode new.targetNode
  effectiveStrategy := patchOmit old.effectiveStrategy new.effectiveStrategy
  runtimeID := patchOmit old.runtimeID new.runtimeID
  sessionID := patchOmit old.sessionID new.sessionID
  transferID := patchOmit old.transferID new.transferID
  transferPhase := patchOmit old.transferPhase new.transferPhase
  backend := patchOmit old.backend new.backend
  ramTransferred := patchOmit old.ramTransferred new.ramTransferred
  ramRemaining := patchOmit old.ramRemaining new.ramRemaining
  ramTotal := patchOmit old.ramTotal new.ramTotal
  totalTimeMs := patchOmit old.totalTimeMs new.totalTimeMs
  downtimeMs := patchOmit old.downtimeMs new.downtimeMs
  dataPlaneEncrypted := patchOmit old.dataPlaneEncrypted new.dataPlaneEncrypted
  recovery := patchPtr old.recovery new.recovery

structure MachineMigration where
  metadata : ObjectMeta
  spec : MachineMigrationSpec
  status : MachineMigrationStatus
  deriving DecidableEq

variable (g : MachineMigration) (s : MachineMigrationStatus)

namespace MachineMigration

def key : ObjectKey := g.metadata.key

/-- The Machine a migration names: it lives in the migration's own namespace. -/
def machineKey : ObjectKey := ⟨g.key.namespace, g.spec.machineName⟩

def patchStatus (status : MachineMigrationStatus) : MachineMigration :=
  { g with status := g.status.patch status }

@[simp] theorem key_patchStatus : (g.patchStatus s).key = g.key := rfl

@[simp] theorem machineKey_patchStatus : (g.patchStatus s).machineKey = g.machineKey := rfl

end MachineMigration

/-- The other merge patches of a migration: labels, and the bandwidth a policy supplies. -/
structure MigrationPatch where
  labels : List (String × Option String) := []
  bandwidthMbps : Option UInt64 := none

variable (p : MigrationPatch)

def MachineMigration.patch : MachineMigration :=
  { g with
    metadata := { g.metadata with labels := g.metadata.labels.patchAll p.labels }
    spec := { g.spec with bandwidthMbps := p.bandwidthMbps.getD g.spec.bandwidthMbps } }

@[simp] theorem MachineMigration.key_patch : (g.patch p).key = g.key := rfl

end Kairon.Model
