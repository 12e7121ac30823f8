import Kairon.Agent.Status
import Kairon.Cluster.Op

/-!
# The Machine reconcile of a node agent

`reconcileMachine` of `internal/agent/agent.go`: from the power state a Machine asks for and the
runtime FluxVM has for it to the calls that bring the two together, and the status written back.
-/

namespace Kairon.Agent

open Infra GoText Model Cluster

/-- The configuration of an agent. `digest` is the hexadecimal form of the first 16 bytes of
SHA-256; the two flags say whether the migration services are configured. -/
structure Config where
  nodeName : String
  migrationPeer : Bool
  sourceMigrator : Bool
  digest : String → String

variable (a : Config) (m : Machine)

def current : M (Except String (Option RuntimeRecord)) :=
  if m.status.runtimeID ≠ "" then do
    match ← Flux.get (.machine m) m.status.runtimeID with
    | .ok rec => return .ok (some rec)
    | .error _ => Flux.lookupByName (.machine m) m.key.runtimeName
  else
    Flux.lookupByName (.machine m) m.key.runtimeName

def patchMachineStatusIfChanged (status : MachineStatus) : M GoErr :=
  match statusToPatch m.metadata.generation m.status status with
  | none => .ret (.ok ())
  | some status => orText (Kube.patchMachineStatus m.key status)

def deregisterServiceFabric : M GoErr :=
  wrap "deregister service fabric membership" (step m .deregisterServiceFabric)

def waitingStatus (phase nodeName message reason : String) (now : Time) : MachineStatus :=
  { m.status with
    phase := phase
    nodeName := nodeName
    message := message
    conditions := setCondition m.status.conditions now (readyCondition "False" reason message) }

def ensureStopped : M GoErr :=
  (current m).andThen fun rec =>
    (match rec with
      | some r =>
        if r.id ≠ "" then Flux.delete (.machine m) r.id else .ret (.ok ())
      | none => .ret (.ok ())).andThen fun _ =>
    (deregisterServiceFabric m).andThen fun _ => do
      let now ← clock
      patchMachineStatusIfChanged m (stoppedStatus a.nodeName now m.status)

def ensurePaused : M GoErr :=
  (current m).andThen fun
    | none => do
      let now ← clock
      patchMachineStatusIfChanged m (waitingStatus m "Pending" a.nodeName
        "cannot pause: no existing runtime -- set powerState to Running first, then Paused"
        "NoRuntime" now)
    | some rec =>
      (if equalFold rec.status "Paused" then .ret (.ok rec)
        else Flux.pause (.machine m) rec.id).andThen fun rec => do
      let now ← clock
      patchMachineStatusIfChanged m
        { m.status with
          phase := normalizePhase rec.status
          nodeName := a.nodeName
          runtimeID := rec.id
          guestIP := rec.guestIP
          message := ""
          conditions :=
            setCondition m.status.conditions now (readyCondition "False" "Paused" "") }

def ensureHalted : M GoErr :=
  (current m).andThen fun
    | none => do
      let now ← clock
      patchMachineStatusIfChanged m (waitingStatus m "Pending" a.nodeName
        "cannot halt: no existing runtime -- set powerState to Running first, then Halted"
        "NoRuntime" now)
    | some rec =>
      (if normalizePhase rec.status = "Stopped" then .ret (.ok rec)
        else Flux.stop (.machine m) rec.id).andThen fun rec =>
      (deregisterServiceFabric m).andThen fun _ => do
        let now ← clock
        patchMachineStatusIfChanged m (haltedStatus a.nodeName rec.id now m.status)

def migrationInFlightFor : M (Except String Bool) :=
  (orText (Kube.listMachineMigrationsNamespace m.key.namespace)).andThen fun migrations =>
    .ret (.ok (migrations.any fun g =>
      g.spec.machineName == m.metadata.name && g.status.phase.isNonTerminal))

def cleanup : M GoErr :=
  (if m.status.runtimeID ≠ "" then Flux.delete (.machine m) m.status.runtimeID
    else .ret (.ok ())).andThen fun _ =>
  (wrap "tear down CSI volume" (step m .teardownCSIVolume)).andThen fun _ =>
  (wrap "tear down CSI disk volumes" (step m .teardownDiskVolumes)).andThen fun _ =>
  (deregisterServiceFabric m).andThen fun _ =>
    orText (Kube.patchMachine .reconcile m.key
      { finalizers := some (m.metadata.finalizers.filter fun f => f ≠ runtimeFinalizer) })

/-! ## A Machine that is to run -/

def forkRuntime : M (Except String RuntimeRecord) := do
  match ← Flux.lookupByName (.machine m) (m.key.runtimeName ++ "-1") with
  | .error e => return .error e
  | .ok (some rec) => return .ok rec
  | .ok none =>
    let name := m.key.namespace ++ "/" ++ m.metadata.name
    if m.spec.volumes ≠ [] ∨ m.spec.disks ≠ [] ∨ m.spec.deviceClaims ≠ [] then
      return .error ("fork child " ++ name ++ " must not have volumes, disks or device claims: " ++
        "the child gets a copy-on-write copy of the parent's disk")
    let parentName := m.metadata.annotations.get annotationForkFrom
    let parentText := m.key.namespace ++ "/" ++ parentName
    (wrap ("fork parent " ++ parentText)
      (orText (Kube.getMachine ⟨m.key.namespace, parentName⟩))).andThen fun parent =>
    if parent.spec.nodeName ≠ a.nodeName then
      .ret (.error ("fork parent " ++ parentText ++ " runs on node " ++
        quote parent.spec.nodeName ++ ", not " ++ quote a.nodeName ++
        ": a fork child must be scheduled on its parent's node"))
    else
      (current parent).andThen fun
        | none => .ret (.error ("fork parent " ++ parentText ++ " has no running FluxVM runtime"))
        | some src =>
          if src.id = "" then
            .ret (.error ("fork parent " ++ parentText ++ " has no running FluxVM runtime"))
          else wrap ("fork " ++ parentText) (Flux.fork (.machine m) src.id)

def bringUp : Option RuntimeRecord → M (Except String (RuntimeRecord × Bool))
  | none =>
    (if m.metadata.annotations.get annotationForkFrom ≠ "" then forkRuntime a m
      else if m.spec.sandbox.isSome then Flux.createSandboxForMachine (.machine m)
      else
        Prog.andThen (step m .prepareCreate) fun _ =>
          Flux.createWithVfio (.machine m)).andThen fun rec =>
    .ret (.ok (rec, false))
  | some rec =>
    if equalFold rec.status "Paused" ∧ m.desiredPowerState = "Running" then
      (Flux.resume (.machine m) rec.id).andThen fun rec => .ret (.ok (rec, false))
    else if normalizePhase rec.status = "Stopped" ∧ m.desiredPowerState ≠ "Stopped" then
      (Flux.start (.machine m) rec.id).andThen fun rec => .ret (.ok (rec, true))
    else .ret (.ok (rec, false))

def appliedStatus (status : MachineStatus) (hotplug : UInt32 × UInt64 × Option String)
    (devices : List String × List DiskVolume × List AttachedInterface × Option String)
    (limits : Option ResourceLimits × Option String) : MachineStatus :=
  { status with
    appliedVCPUs := hotplug.1
    appliedMemoryMiB := hotplug.2.1
    attachedDisks := devices.1
    diskVolumes := devices.2.1
    attachedInterfaces := devices.2.2.1
    appliedResourceLimits := limits.1
    message := ((limits.2 <|> devices.2.2.2) <|> hotplug.2.2).getD status.message }

def ejectRemovedCdroms (rec : RuntimeRecord) : M (Except String RuntimeRecord) :=
  step m (.ejectRemovedCdroms rec)

def followUp (volume : VolumeStatus) (freshlyCreated : Bool) (rec : RuntimeRecord)
    (restarted : Bool) : M GoErr :=
  (if ¬freshlyCreated ∧ (m.spec.sandbox.getD "") = "" then ejectRemovedCdroms m rec
    else .ret (.ok rec)).andThen fun rec =>
  Prog.andThen (step m (.pruneStaleCSIVolume volume)) fun _ => do
    let status : MachineStatus :=
      { m.status with
        phase := normalizePhase rec.status
        nodeName := a.nodeName
        runtimeID := rec.id
        guestIP := rec.guestIP
        message := ""
        volumeStagingPath := volume.stagingPath
        volumePublishPath := volume.publishPath
        volumeHandle := volume.volumeID
        volumeDriver := volume.driver }
    let hotplug ← step m (.reconcileHotplug rec freshlyCreated restarted)
    let devices ← step m (.reconcileDevices rec)
    let limits ← step m (.reconcileResourceLimits rec)
    let status := appliedStatus status hotplug devices limits
    let stats ← Flux.getStats (.machine m) rec.id
    let status := match stats with
      | .ok usage => { status with resourceUsage := some usage }
      | .error _ => status
    Prog.andThen (step m (.projectNetworkStatus rec)) fun (net : NetworkProjection) => do
      let status :=
        { status with guestIP := net.guestIP, guestIPs := net.guestIPs, network := net.network }
      let _ ← step m (.reconcileGuestQuiesce rec)
      Prog.andThen (step m (.reconcileServiceFabric status.guestIP)) fun memberships => do
        let now ← clock
        patchMachineStatusIfChanged m
          { status with
            appliedServiceFabricMemberships := memberships
            conditions := setCondition status.conditions now
              (readyCondition (readyStatus status.phase) "FluxVMReconciled" "") }

def ensureRunning : M GoErr :=
  Prog.andThen (step m .resolveDisks) fun volume =>
  (current m).andThen fun rec =>
    if rec.isNone ∧ m.metadata.annotationTrue annotationAdoptOnly then do
      let now ← clock
      patchMachineStatusIfChanged m (waitingStatus m "Blocked" a.nodeName
        ("adopt-only cutover guard: incoming FluxVM runtime was not found; " ++
          "refusing to create a duplicate VM") "IncomingRuntimeMissing" now)
    else
      (bringUp a m rec).andThen fun r => followUp a m volume rec.isNone r.1 r.2

def reconcileMachine : M GoErr :=
  if m.metadata.deleting then
    (wrap "check in-flight migrations before cleanup" (migrationInFlightFor m)).andThen fun
      | true => .ret (.error ("refusing to delete the FluxVM runtime for " ++ m.key.namespace ++
          "/" ++ m.metadata.name ++ " while a MachineMigration targeting it is still in flight; " ++
          "will retry once it reaches a terminal phase"))
      | false => cleanup m
  else
    (if m.hasFinalizer then .ret (.ok ())
      else orText (Kube.patchMachine .reconcile m.key
        { finalizers := some (m.metadata.finalizers ++ [runtimeFinalizer]) })).andThen fun _ =>
    if m.desiredPowerState = "Stopped" then ensureStopped a m
    else if m.desiredPowerState = "Paused" then ensurePaused a m
    else if m.desiredPowerState = "Halted" then ensureHalted a m
    else ensureRunning a m

end Kairon.Agent
