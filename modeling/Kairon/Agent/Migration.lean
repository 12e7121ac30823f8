import Kairon.Agent.Machine

/-!
# The migration reconcile of the source agent

`reconcileMigration`, `projectTransfer`, `reconcileNeedsRecovery` and `cancelLiveMigration` of
`internal/agent/agent.go`. An error carries what the recovery part of the listed status points to by
then, as the source shares that pointer with the caller.
-/

namespace Kairon.Agent

open Infra GoText Model Migration Cluster

structure Failure where
  text : String
  recovery : Option MachineMigrationRecoveryStatus

variable (a : Config) (item : MachineMigration) (status : MachineMigrationStatus)

def finish (recovery : Option MachineMigrationRecoveryStatus) (status : MachineMigrationStatus) : M
    (Except Failure Unit) := do
  match ← Kube.patchMachineMigrationStatus .reconcile item status with
  | .ok () => return .ok ()
  | .error e => return .error ⟨e.text, recovery⟩

def fail (text : String) : M (Except Failure Unit) := .ret (.error ⟨text, item.status.recovery⟩)

def migrationSessionID : String :=
  let seed :=
    if item.metadata.uid = "" then item.key.namespace ++ "/" ++ item.metadata.name
    else item.metadata.uid
  "kmm-" ++ a.digest seed

def resumeSourceNetworkQuiesce (runtimeID : String) : M Unit :=
  if runtimeID = "" then .ret ()
  else (Flux.networkMigrationResume (.migration item) runtimeID).bind fun _ => .ret ()

def blockLiveMigrationWithStatus (message : String) : M (Except Failure Unit) :=
  finish item item.status.recovery { status with phase := .blocked, message := message }

def abortSource : M Unit :=
  if a.sourceMigrator ∧ item.status.transferID ≠ "" then
    (Source.abort item
      (if item.status.sessionID = "" then migrationSessionID a item else item.status.sessionID)
      item.status.transferID).bind fun _ => .ret ()
  else .ret ()

def abortDestination : M Unit :=
  if a.migrationPeer ∧ item.status.sessionID ≠ "" then do
    match ← targetControlURL item.status.targetNode with
    | .error _ => return ()
    | .ok url => (Peer.abort item url item.status.sessionID).bind fun _ => .ret ()
  else .ret ()

def cancelLiveMigration : M (Except Failure Unit) := do
  abortSource a item
  abortDestination a item
  resumeSourceNetworkQuiesce item item.status.runtimeID
  finish item item.status.recovery
    { item.status with
      phase := .cancelled
      message := "operator requested cancel (spec.cancel); in-flight live migration aborted " ++
        "before target commit, source runtime was left untouched" }

variable (transfer : TransferStatus) (targetURL : String)
  (recovery : MachineMigrationRecoveryStatus)

def transferStatus : MachineMigrationStatus :=
  { status with
    transferPhase := toLower (trimSpace transfer.phase)
    ramTransferred := transfer.ramTransferred
    ramRemaining := transfer.ramRemaining
    ramTotal := transfer.ramTotal
    totalTimeMs := transfer.totalTimeMs
    downtimeMs := transfer.downtimeMs
    transferID := if transfer.transferID = "" then status.transferID else transfer.transferID }

inductive TransferVerdict where
  | done
  | over
  | inProgress
  deriving DecidableEq

-- opaque to unification: the text of a phase is never worth unfolding there
@[irreducible] def TransferVerdict.of : TransferVerdict :=
  match toLower (trimSpace transfer.phase) with
  | "completed" | "transferred" => .done
  | "failed" | "cancelled" | "canceled" | "aborted" => .over
  | _ => .inProgress

def projectTransfer (session : Session) (targetURL : String) (transfer : TransferStatus) :
    M (Except Failure Unit) :=
  let status := transferStatus status transfer
  match TransferVerdict.of transfer with
  | .done => do
    match ← Peer.commit item targetURL session.id with
    | .error e =>
      finish item item.status.recovery
        { status with
          phase := .needsRecovery
          message := "source transfer completed but target commit failed; automatic cutover " ++
            "is stopped to avoid split brain: " ++ e }
    | .ok () =>
      finish item item.status.recovery
        { status with
          phase := .cutover
          message := "source transfer completed and target committed; waiting for guarded " ++
            "target adoption" }
  | .over => do
    let _ ← Peer.abort item targetURL session.id
    resumeSourceNetworkQuiesce item session.runtimeID
    finish item item.status.recovery
      { status with
        phase := .failed
        message :=
          if transfer.message = "" then
            "source transfer " ++ status.transferPhase ++ "; prepared target aborted"
          else transfer.message }
  | .inProgress =>
    finish item item.status.recovery
      { status with phase := .running, message := "live migration transfer in progress" }

/-! ## Recovery -/

def noDiagnosis : MachineMigrationRecoveryStatus where
  sourceRuntimeStatus := ""
  destinationSessionPhase := ""
  destinationRuntimeStatus := ""
  destinationRuntimeFound := false
  diagnosedAt := none
  appliedAction := ""
  appliedReason := ""
  appliedAcknowledgedDiagnosis := ""
  appliedAt := none

def diagnoseSource : M MachineMigrationRecoveryStatus :=
  if item.status.runtimeID = "" then .ret recovery
  else do
    match ← Flux.get (.migration item) item.status.runtimeID with
    | .error _ => return { recovery with sourceRuntimeStatus := "" }
    | .ok rec => return { recovery with sourceRuntimeStatus := rec.status }

def diagnoseDestination : M MachineMigrationRecoveryStatus :=
  if item.status.sessionID = "" then .ret recovery
  else do
    match ← Peer.diagnose item targetURL item.status.sessionID with
    | .error _ => return recovery
    | .ok diag =>
      return { recovery with
        destinationSessionPhase := diag.sessionPhase.text
        destinationRuntimeFound := diag.destinationRuntimeFound
        destinationRuntimeStatus := diag.destinationRuntimeStatus }

def diagnose (now : Time) : M MachineMigrationRecoveryStatus :=
  (diagnoseSource item
    { item.status.recovery.getD noDiagnosis with diagnosedAt := some now }).bind
    (diagnoseDestination item targetURL)

def refusal (action : RecoverySpec) : Option String :=
  if trimSpace action.reason = "" then
    some ("spec.recovery.reason is required -- refusing to act without the operator's " ++
      "attested evidence")
  else
    match action.action.requires with
    | some want =>
      if action.acknowledgedDiagnosis = want then none
      else some ("spec.recovery.acknowledgedDiagnosis (" ++ action.acknowledgedDiagnosis.text ++
        ") does not match spec.recovery.action (" ++ action.action.text ++
        "); refusing to act -- update spec.recovery to match what you actually observed")
    | none =>
      if action.action = .forceAbort then none
      else some ("unknown spec.recovery.action " ++ quote action.action.text)

def deleteSourceRuntime : M Unit :=
  if item.status.runtimeID = "" then .ret ()
  else (Flux.delete (.migration item) item.status.runtimeID).bind fun _ => .ret ()

def applyRecovery : RecoveryAction → M (MigrationPhase × String)
  | .confirmDestinationCommitted => do
    let _ ← Peer.commit item targetURL item.status.sessionID
    deleteSourceRuntime item
    return (.cutover, "recovery: operator confirmed destination committed; source runtime " ++
      "removed, handing off to normal cutover")
  | .confirmDestinationNotCommitted => do
    match ← Peer.commit item targetURL item.status.sessionID with
    | .error e =>
      let _ ← Peer.abort item targetURL item.status.sessionID
      return (.failed, "recovery: retried commit failed, confirming destination never " ++
        "committed: " ++ e ++ "; host-level inspection is required before reusing this Machine")
    | .ok () =>
      deleteSourceRuntime item
      return (.cutover, "recovery: retried commit succeeded; source runtime removed, handing " ++
        "off to normal cutover")
  | .forceAbort => do
    let _ ← Peer.abort item targetURL item.status.sessionID
    return (.failed, "recovery: operator forced abort; source runtime was left untouched -- " ++
      "verify its state before reuse")
  | .other _ => return (item.status.phase, item.status.message)

def reconcileNeedsRecovery : M (Except Failure Unit) :=
  if !a.migrationPeer then
    fail item "secure migration control plane is not configured; cannot diagnose NeedsRecovery"
  else do
    match ← targetControlURL item.status.targetNode with
    | .error e => fail item e
    | .ok targetURL =>
      let now ← clock
      let recovery ← diagnose item targetURL now
      let status := { item.status with recovery := some recovery }
      -- the listed status shares the recovery part, unless it had none
      let shared := fun r => item.status.recovery.map fun _ => r
      match item.spec.recovery with
      | none => finish item (shared recovery) status
      | some action =>
        match refusal action with
        | some message => finish item (shared recovery) { status with message := message }
        | none =>
          let appliedAt ← clock
          let recovery := { recovery with
            appliedAction := action.action.text
            appliedReason := action.reason
            appliedAcknowledgedDiagnosis := action.acknowledgedDiagnosis.text
            appliedAt := some appliedAt }
          let (phase, message) ← applyRecovery item targetURL action.action
          finish item (shared recovery)
            { status with recovery := some recovery, phase := phase, message := message }

end Kairon.Agent
