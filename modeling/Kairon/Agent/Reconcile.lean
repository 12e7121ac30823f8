import Kairon.Agent.Migration

/-!
# The agent's loop

The rest of the migration reconcile, from an admitted live migration to its transfer, and
`Reconcile`: one tick of a node agent.
-/

namespace Kairon.Agent

open Infra GoText Model Migration Cluster

variable (a : Config) (item : MachineMigration) (machine : Machine) (rec : RuntimeRecord)
  (session : Session) (targetURL : String)

def sourceSession : Session where
  id := migrationSessionID a item
  «namespace» := item.key.namespace
  machine := item.spec.machineName
  sourceNode := item.status.sourceNode
  targetNode := item.status.targetNode
  runtimeID := rec.id
  phase := .other ""
  backend := ""
  endpoint := ""
  transferSupported := false
  reason := ""
  dataPlaneEncrypted := false
  networkSnapshot := ""
  conntrackSnapshot := ""
  diskPath := rec.disk
  mac := rec.mac
  vcpus := rec.vcpus
  memoryMiB := rec.memoryMiB
  migrationNetwork := item.spec.migrationNetwork
  createdAt := 0
  updatedAt := 0

def takeSnapshots : M Session := do
  let session ←
    match ← Flux.networkMigrationQuiesce (.machine machine) rec.id with
    | .error _ => pure session
    | .ok () =>
      match ← Flux.networkMigrationExport (.machine machine) rec.id with
      | .error _ => pure session
      | .ok snapshot => pure { session with networkSnapshot := snapshot }
  let conntrack ← step machine (.exportConntrackSnapshot rec.id)
  return { session with conntrackSnapshot := conntrack }

def preparedStatus (prepared : PrepareResponse) : MachineMigrationStatus :=
  { item.status with
    sessionID := prepared.sessionID
    runtimeID := rec.id
    backend := prepared.backend
    transferPhase := prepared.phase.text
    dataPlaneEncrypted := prepared.dataPlaneEncrypted }

def transferMode : String := if item.spec.mode = "" then "pre-copy" else item.spec.mode

def startTransfer (prepared : PrepareResponse) : M (Except Failure Unit) := do
  let status := preparedStatus item rec prepared
  let mode := transferMode item
  if mode ≠ "pre-copy" ∧ mode ≠ "post-copy" then
    let _ ← Peer.abort item targetURL session.id
    resumeSourceNetworkQuiesce item rec.id
    fail item ("unsupported migration mode " ++ quote mode)
  else
    match ← Source.start item
        ⟨session, rec.id, prepared.endpoint, ⟨mode, item.spec.bandwidthMbps,
          item.spec.maxDowntimeMs, item.spec.multifdChannels⟩⟩ with
    | .error e =>
      let _ ← Peer.abort item targetURL session.id
      resumeSourceNetworkQuiesce item rec.id
      if e.unsupported then
        blockLiveMigrationWithStatus item status
          (e.text ++ "; prepared target was aborted and source runtime was left untouched")
      else
        finish item item.status.recovery
          { status with
            phase := .failed
            transferPhase := "start-failed"
            message :=
              "start source transfer failed; prepared target was aborted: " ++ e.text }
    | .ok transfer =>
      projectTransfer item { status with transferID := transfer.transferID } session targetURL
        transfer

def startMigration : M (Except Failure Unit) := do
  let session ← takeSnapshots machine rec session
  match ← Peer.prepare item targetURL session with
  | .error e => fail item ("prepare target " ++ item.status.targetNode ++ ": " ++ e)
  | .ok prepared =>
    if !prepared.transferSupported then
      let message :=
        if prepared.reason = "" then "target node has no live migration backend"
        else prepared.reason
      resumeSourceNetworkQuiesce item rec.id
      blockLiveMigrationWithStatus item (preparedStatus item rec prepared)
        (message ++ "; source runtime was left untouched")
    else startTransfer item rec session targetURL prepared

def pollMigration : M (Except Failure Unit) :=
  if item.status.sessionID = "" ∨ item.status.transferID = "" then
    fail item "running migration is missing sessionID or transferID"
  else do
    match ← Source.status item session item.status.transferID with
    | .error e => fail item ("poll source transfer: " ++ e)
    | .ok transfer =>
      let _ ← Peer.heartbeat item targetURL session.id
      projectTransfer item item.status session targetURL transfer

def driveMigration : M (Except Failure Unit) := do
  match ← Kube.getMachine item.machineKey with
  | .error e => fail item e.text
  | .ok machine =>
    let backend := machine.spec.backend
    if machine.spec.nodeName ≠ a.nodeName then
      fail item ("source Machine is assigned to " ++ machine.spec.nodeName ++ ", not " ++
        a.nodeName)
    else if backend ≠ "" ∧ backend ≠ "auto" ∧ backend ≠ "qemu" then
      fail item ("live migration currently requires qemu backend, Machine requests " ++ backend)
    else if !a.migrationPeer || !a.sourceMigrator then
      blockLiveMigrationWithStatus item item.status
        ("secure migration control plane or source adapter is not configured; " ++
          "source runtime was left untouched")
    else
      match ← current machine with
      | .error e => fail item e
      | .ok none => fail item "source FluxVM runtime not found"
      | .ok (some rec) =>
        if rec.id = "" then fail item "source FluxVM runtime not found"
        else
          match ← targetControlURL item.status.targetNode with
          | .error e => fail item e
          | .ok targetURL =>
            let session := sourceSession a item rec
            if item.status.phase = .starting then
              startMigration item machine rec session targetURL
            else pollMigration item session targetURL

def reconcileMigration : M (Except Failure Unit) :=
  if item.status.phase = .needsRecovery then reconcileNeedsRecovery a item
  else if item.status.phase ≠ .starting ∧ item.status.phase ≠ .running then .ret (.ok ())
  else if item.status.effectiveStrategy ≠ "live" then .ret (.ok ())
  else if item.spec.cancel then cancelLiveMigration a item
  else driveMigration a item

/-! ## One tick -/

def machineTick (m : Machine) : M Unit :=
  if m.spec.nodeName ≠ a.nodeName then .ret ()
  else do
    match ← reconcileMachine a m with
    | .ok () => pure ()
    | .error e =>
      let now ← clock
      let _ ← patchMachineStatusIfChanged m
        (waitingStatus m "Error" a.nodeName e "ReconcileFailed" now)

def migrationTick : M Unit :=
  if item.status.sourceNode ≠ a.nodeName then .ret ()
  else do
    match ← reconcileMigration a item with
    | .ok () => pure ()
    | .error e =>
      let _ ← Kube.patchMachineMigrationStatus .errorHandler item
        { item.status with phase := .failed, message := e.text, recovery := e.recovery }

def agentPass (p : AgentPass) : M GoErr := call (.agentPass p)

def reconcile : M GoErr :=
  (orText (Kube.listMachinesWithSelector a.nodeName)).andThen fun machines =>
  (Prog.forEach (machineTick a) machines).bind fun _ =>
  (agentPass .networkResources).andThen fun _ => do
    let _ ← agentPass .publishCapabilities
    let _ ← agentPass .serveAttestation
    let _ ← agentPass .backups
    match ← Kube.listMachineMigrationsWithSelector a.nodeName with
    | .error e => return if e.notFound then .ok () else .error e.text
    | .ok migrations =>
      Prog.forEach (migrationTick a) migrations
      return .ok ()

end Kairon.Agent
