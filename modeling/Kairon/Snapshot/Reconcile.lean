import Kairon.Cluster.Op
import Kairon.Model.MachineSnapshot

/-!
# The snapshot passes

`reconcileSnapshot` of `internal/controller/snapshot.go` and the Atlas half of it in
`internal/controller/atlas_snapshot.go`, with the loop over the snapshots in `Reconcile`; and
`reconcileGuestQuiesce` of `internal/agent/quiesce.go`. They call the API server, Atlas, and FluxVM
on the agent's node.
-/

namespace Kairon.Snapshot

open Infra GoText Model Cluster

structure Accepted where
  jobID : String
  snapshotID : String
  succeeded : Bool

inductive JobState where
  | succeeded
  | failed
  | other (terminal : Bool)

structure Job where
  id : String
  state : JobState
  error : Option String
  snapshotID : String

def Job.terminal (job : Job) : Bool :=
  match job.state with
  | .succeeded | .failed => true
  | .other terminal => terminal

structure AtlasError where
  notFound : Bool
  conflict : Bool
  text : String

/-- The calls. The `owner` of a call is the snapshot it is made for, that of a freeze or a thaw the
Machine whose VM it is; the services do not see it. -/
inductive SnapshotOp where
  | listMachines
  | listMachinesWithSelector (node : String)
  /-- `PatchMachine` with the quiesce request; none removes it. -/
  | patchQuiesceRequest (owner key : ObjectKey) (value : Option String)
  /-- `PatchMachine` with the quiesce status; none removes it. -/
  | patchQuiesceStatus (key : ObjectKey) (value : Option String)
  | listMachineSnapshots
  | patchMachineSnapshot (key : ObjectKey) (finalizers : List String)
  | patchMachineSnapshotStatus (key : ObjectKey) (status : MachineSnapshotStatus)
  | getVolumeSnapshot (owner key : ObjectKey)
  | createVolumeSnapshot (owner : ObjectKey) (vs : VolumeSnapshot)
  | createSnapshot (owner : ObjectKey) (volumeID name : String)
  | getJob (owner : ObjectKey) (id : String)
  | deleteSnapshot (owner : ObjectKey) (id : String)
  | qgaFsfreezeFreeze (owner : ObjectKey) (id : String)
  | qgaFsfreezeThaw (owner : ObjectKey) (id : String)
  /-- `reconcileMachine` up to its quiesce step: the id of the runtime, or none if it has returned
  before. -/
  | reachRuntime (key : ObjectKey)
  | now

def SnapshotOp.Ans : SnapshotOp → Type
  | listMachines | listMachinesWithSelector _ => Except ApiError (List GuestMachine)
  | listMachineSnapshots => Except ApiError (List MachineSnapshot)
  | patchQuiesceRequest _ _ _ | patchQuiesceStatus _ _ | patchMachineSnapshot _ _
  | patchMachineSnapshotStatus _ _ => Except ApiError Unit
  | getVolumeSnapshot _ _ | createVolumeSnapshot _ _ => Except ApiError VolumeSnapshot
  | createSnapshot _ _ _ => Except AtlasError Accepted
  | getJob _ _ => Except AtlasError Job
  | deleteSnapshot _ _ => Except AtlasError Unit
  | qgaFsfreezeFreeze _ _ | qgaFsfreezeThaw _ _ => GoErr
  | reachRuntime _ => Option String
  | now => Time

abbrev SnapM := Prog SnapshotOp.Ans

def call (e : SnapshotOp) : SnapM e.Ans := Prog.perform SnapshotOp.Ans e

abbrev History := List (Event SnapshotOp.Ans)

/-- What the passes are set up with. `digest` is the start of the SHA-256 in hex. -/
structure Config where
  layout : TimeLayout
  atlas : Bool
  digest : String → String

def quiesceFreezeTimeout : Int := 30 * 10 ^ 9

variable (c : Config) (s : MachineSnapshot) (machines : List GuestMachine) (m : GuestMachine)
  (volume : MachineVolume)

def findMachine (key : ObjectKey) : Option GuestMachine := machines.find? fun m => m.key = key

variable (refs : List VolumeSnapshotReference) (name : String)

def quiesceRef : Option (String × Time) :=
  parseQuiesceRef c.layout (m.metadata.annotations.get name)

def machineTitle : String := m.key.namespace ++ "/" ++ m.metadata.name

def snapshotVolumes : Except String (List MachineVolume) :=
  if s.spec.volumeNames = [] then .ok m.volumes
  else s.spec.volumeNames.mapM fun name =>
    match m.volumes.find? fun v => v.name = name with
    | some v => .ok v
    | none => .error ("spec.volumeNames: machine " ++ m.metadata.name ++ " has no volume " ++
        quote name)

/-! ## The quiesce request -/

def addQuiesceFinalizer : SnapM GoErr :=
  if s.metadata.finalizers.contains finalizerSnapshotQuiesce then .ret (.ok ())
  else wrap ("add quiesce finalizer to snapshot " ++ s.title)
    (orText (call (.patchMachineSnapshot s.key
      (s.metadata.finalizers ++ [finalizerSnapshotQuiesce]))))

def requestGuestFreeze : SnapM GoErr :=
  (addQuiesceFinalizer s).andThen fun _ =>
  (call .now).bind fun now =>
  (wrap ("request guest quiesce on machine " ++ machineTitle m)
    (orText (call (.patchQuiesceRequest s.key m.key
      (some (formatQuiesceRef c.layout s.metadata.name now)))))).andThen fun _ =>
  orText (call (.patchMachineSnapshotStatus s.key
    { s.status with
      phase := "Freezing"
      message := "requested a guest filesystem freeze for an application-consistent snapshot" }))

def clearRequest (what : String) (s : MachineSnapshot) (m : GuestMachine) : SnapM GoErr :=
  wrap what (orText (call (.patchQuiesceRequest s.key m.key none)))

def requestGuestThaw : SnapM GoErr :=
  (clearRequest ("request guest thaw on machine " ++ machineTitle m) s m).andThen fun _ =>
  orText (call (.patchMachineSnapshotStatus s.key
    { s.status with
      volumeSnapshots := refs
      phase := "Thawing"
      message := "VolumeSnapshots requested; waiting for the guest filesystem to thaw" }))

/-! ## Atlas -/

def usesAtlasSnapshots : Bool := c.atlas && m.volumes.any fun v => v.atlas

def atlasSnapshotName (volume : String) : String :=
  atlasVolumeName c.digest s.key.namespace ("snap-" ++ s.metadata.name) volume

/-- `ensureAtlasSnapshotFinalizer`; only `releaseAtlasSnapshots` reads the finalizers afterwards. -/
def ensureAtlasSnapshotFinalizer : SnapM GoErr :=
  if !usesAtlasSnapshots c m || s.metadata.finalizers.contains finalizerAtlasSnapshots then
    .ret (.ok ())
  else wrap ("add atlas finalizer to snapshot " ++ s.title)
    (orText (call (.patchMachineSnapshot s.key
      (s.metadata.finalizers ++ [finalizerAtlasSnapshots]))))

structure AtlasStep where
  ref : VolumeSnapshotReference
  created : Bool := false
  err : Option String := none

def previousRef (volume : String) : VolumeSnapshotReference :=
  s.status.volumeSnapshots.foldl
    (fun ref prev => if prev.volumeName = volume ∧ prev.atlasJobID ≠ "" then prev else ref)
    { volumeName := volume, volumeSnapshotName := atlasSnapshotName c s volume }

def stepAtlasSnapshot : SnapM AtlasStep :=
  let ref := previousRef c s volume.name
  if ref.readyToUse then .ret { ref }
  else if ref.atlasJobID = "" then
    let st := m.atlasState volume.name
    if st.phase ≠ atlasPhaseReady ∨ st.volumeID = "" then
      .ret { ref, err := some ("atlas volume " ++ quote volume.name ++ " is not Ready (phase " ++
        quote st.phase ++ ")") }
    else
      (call (.createSnapshot s.key st.volumeID ref.volumeSnapshotName)).bind fun
        | .error e =>
          .ret { ref, err := some ("atlas snapshot of volume " ++ quote volume.name ++ ": " ++
            e.text) }
        | .ok acc =>
          .ret
            { ref := { ref with
                atlasJobID := acc.jobID
                atlasSnapshotID := acc.snapshotID
                readyToUse := acc.succeeded && acc.snapshotID ≠ "" }
              created := true }
  else
    (call (.getJob s.key ref.atlasJobID)).bind fun
      | .error e => .ret { ref, err := some ("get atlas job " ++ ref.atlasJobID ++ ": " ++ e.text) }
      | .ok job =>
        match job.state with
        | .succeeded =>
          let id := if ref.atlasSnapshotID = "" then job.snapshotID else ref.atlasSnapshotID
          if id = "" then
            .ret { ref, err := some ("atlas snapshot job " ++ job.id ++
              " succeeded without a snapshot id") }
          else .ret { ref := { ref with atlasSnapshotID := id, readyToUse := true } }
        | .failed =>
          .ret { ref, err := some ("atlas snapshot job " ++ job.id ++ " for volume " ++
            quote volume.name ++ ": " ++ job.error.getD "failed") }
        | .other _ => .ret { ref }

def failSnapshot (cause : String) : SnapM GoErr :=
  let record := orText (call (.patchMachineSnapshotStatus s.key
    { s.status with
      volumeSnapshots := refs, phase := "Failed", readyToUse := false, message := cause }))
  if s.status.phase = "Freezing" then
    (clearRequest ("thaw machine " ++ machineTitle m ++ " after failed snapshot") s m).andThen
      fun _ => record
  else record

/-! ## Volume snapshots -/

structure Progress where
  refs : List VolumeSnapshotReference
  allReady : Bool
  created : Bool

def newVolumeSnapshot : VolumeSnapshot where
  metadata :=
    { name
      «namespace» := s.key.namespace
      uid := ""
      generation := 0
      labels := [("kairon.zyvor.dev/machine", m.metadata.name),
        ("kairon.zyvor.dev/snapshot", s.metadata.name)]
      annotations := []
      finalizers := []
      deleting := false }
  persistentVolumeClaimName := some volume.claimName
  volumeSnapshotClassName :=
    if s.spec.volumeSnapshotClassName ≠ "" then some s.spec.volumeSnapshotClassName else none
  readyToUse := none
  errorMessage := none

def obtainVolumeSnapshot : SnapM (Except String (VolumeSnapshot × Bool)) :=
  (call (.getVolumeSnapshot s.key ⟨s.key.namespace, name⟩)).bind fun
    | .ok vs => .ret (.ok (vs, false))
    | .error e =>
      if !e.notFound then .ret (.error e.text)
      else
        (orText (call (.createVolumeSnapshot s.key (newVolumeSnapshot s m volume name)))).andThen
          fun vs => .ret (.ok (vs, true))

def eachVolume (c : Config) (s : MachineSnapshot) (m : GuestMachine)
    (rest : Progress → SnapM GoErr) : List MachineVolume → Progress → SnapM GoErr
  | [], p => rest p
  | volume :: volumes, p =>
    if volume.atlas && c.atlas then
      (stepAtlasSnapshot c s m volume).bind fun step =>
        match step.err with
        | some err => failSnapshot s m (p.refs ++ [step.ref]) err
        | none =>
          eachVolume c s m rest volumes
            { refs := p.refs ++ [step.ref]
              allReady := p.allReady && step.ref.readyToUse
              created := p.created || step.created }
    else if trimSpace volume.name = "" ∨ trimSpace volume.claimName = "" then
      .ret (.error "machine volume requires name and claimName")
    else
      let name := snapshotVolumeName s.metadata.name volume.name
      (obtainVolumeSnapshot s m volume name).andThen fun (vs, made) =>
        if vs.errorMessage.any (· ≠ "") then
          .ret (.error ("VolumeSnapshot " ++ name ++ " failed: " ++ vs.errorMessage.getD ""))
        else
          let ready := vs.readyToUse.getD false
          eachVolume c s m rest volumes
            { refs := p.refs ++
                [{ volumeName := volume.name, volumeSnapshotName := name, readyToUse := ready }]
              allReady := p.allReady && ready
              created := p.created || made }

def recordVolumeSnapshots (p : Progress) : SnapM GoErr :=
  if p.created && m.guestAgentEnabled && s.status.phase = "Freezing" then
    requestGuestThaw s m p.refs
  else if p.created && !p.allReady then
    orText (call (.patchMachineSnapshotStatus s.key
      { s.status with
        volumeSnapshots := p.refs, phase := "Pending", message := "waiting for volume snapshots" }))
  else
    orText (call (.patchMachineSnapshotStatus s.key
      { s.status with
        volumeSnapshots := p.refs
        readyToUse := p.allReady
        phase := if p.allReady then "Succeeded" else "Pending"
        message :=
          if p.allReady then "all volume snapshots are ready to use"
          else "waiting for volume snapshots" }))

def reconcileVolumeSnapshots : SnapM GoErr :=
  (ensureAtlasSnapshotFinalizer c s m).andThen fun _ =>
  eachVolume c s m (recordVolumeSnapshots s m) m.volumes ⟨[], true, false⟩

/-! ## The phases -/

def giveUpFreeze : SnapM GoErr :=
  (clearRequest ("clear timed-out guest quiesce request on machine " ++ machineTitle m) s
    m).andThen fun _ =>
  (orText (call (.patchMachineSnapshotStatus s.key
    { s.status with
      message := "guest quiesce freeze did not confirm within 30s; proceeding with a " ++
        "crash-consistent snapshot" }))).andThen fun _ =>
  reconcileVolumeSnapshots c s m

def awaitGuestFreeze : SnapM GoErr :=
  let confirmed := ((quiesceRef c m annotationQuiesceStatus).map Prod.fst).getD ""
  match quiesceRef c m annotationQuiesceRequest with
  | none => requestGuestFreeze c s m
  | some (requested, requestedAt) =>
    if requested ≠ s.metadata.name then requestGuestFreeze c s m
    else if confirmed = s.metadata.name then reconcileVolumeSnapshots c s m
    else
      (call .now).bind fun now =>
        if now.instant - requestedAt.instant < quiesceFreezeTimeout then .ret (.ok ())
        else giveUpFreeze c s m

def awaitGuestThaw : SnapM GoErr :=
  if (quiesceRef c m annotationQuiesceStatus).isSome then .ret (.ok ())
  else reconcileVolumeSnapshots c s m

def stepSnapshot : SnapM GoErr :=
  if m.guestAgentEnabled then
    if s.status.phase = "" then requestGuestFreeze c s m
    else if s.status.phase = "Freezing" then awaitGuestFreeze c s m
    else if s.status.phase = "Thawing" then awaitGuestThaw c s m
    else reconcileVolumeSnapshots c s m
  else reconcileVolumeSnapshots c s m

/-! ## Deletion -/

def releaseRefs (s : MachineSnapshot) : List VolumeSnapshotReference → SnapM (Except String Bool)
  | [] => .ret (.ok true)
  | ref :: refs =>
    let delete := fun id : String =>
      if id = "" then releaseRefs s refs
      else
        (call (.deleteSnapshot s.key id)).bind fun
          | .ok () => releaseRefs s refs
          | .error e =>
            if e.notFound || e.conflict then releaseRefs s refs
            else .ret (.error ("delete atlas snapshot " ++ id ++ ": " ++ e.text))
    if ref.atlasSnapshotID = "" ∧ ref.atlasJobID ≠ "" then
      (call (.getJob s.key ref.atlasJobID)).bind fun
        | .error e =>
          if e.notFound then delete ""
          else .ret (.error ("get atlas job " ++ ref.atlasJobID ++ ": " ++ e.text))
        | .ok job => if !job.terminal then .ret (.ok false) else delete job.snapshotID
    else delete ref.atlasSnapshotID

def releaseAtlasSnapshots : SnapM (Except String (List String)) :=
  if !c.atlas then
    .ret (.error ("snapshot " ++ s.title ++ " has Atlas snapshots but Atlas is not configured"))
  else
    (releaseRefs s s.status.volumeSnapshots).andThen fun finished =>
      if !finished then .ret (.ok s.metadata.finalizers)
      else
        let finals := removeFinalizer s.metadata.finalizers finalizerAtlasSnapshots
        (orText (call (.patchMachineSnapshot s.key finals))).andThen fun _ => .ret (.ok finals)

def reconcileSnapshotDeletion : SnapM GoErr :=
  let released : SnapM (Except String (List String)) :=
    if s.metadata.finalizers.contains finalizerAtlasSnapshots then releaseAtlasSnapshots c s
    else .ret (.ok s.metadata.finalizers)
  released.andThen fun finalizers =>
    let finish := orText (call (.patchMachineSnapshot s.key
      (removeFinalizer finalizers finalizerSnapshotQuiesce)))
    if !finalizers.contains finalizerSnapshotQuiesce then .ret (.ok ())
    else
      match findMachine machines s.target with
      | none => finish
      | some m =>
        if (quiesceRef c m annotationQuiesceRequest).any (·.1 = s.metadata.name) then
          clearRequest ("request guest thaw before deleting snapshot " ++ s.title) s m
        else if (quiesceRef c m annotationQuiesceStatus).any (·.1 = s.metadata.name) then
          .ret (.ok ())
        else finish

/-! ## The pass -/

def checkSnapshot : Except String GuestMachine :=
  if trimSpace s.spec.machineName = "" then .error "spec.machineName is required"
  else
    match findMachine machines s.target with
    | none =>
      .error ("machine " ++ s.key.namespace ++ "/" ++ s.spec.machineName ++ " not found")
    | some m =>
      if m.volumes = [] then .error "machine has no PVC-backed spec.volumes to snapshot"
      else (snapshotVolumes s m).map fun volumes => { m with volumes }

def reconcileSnapshot : SnapM GoErr :=
  if s.metadata.deleting then reconcileSnapshotDeletion c s machines
  else if s.status.phase = "Succeeded" ∨ s.status.phase = "Failed" then .ret (.ok ())
  else
    match checkSnapshot s machines with
    | .error e => .ret (.error e)
    | .ok m => stepSnapshot c s m

def snapshotTick (s : MachineSnapshot) : SnapM Unit :=
  (reconcileSnapshot c s machines).bind fun
    | .ok () => .ret ()
    | .error e =>
      (call (.patchMachineSnapshotStatus s.key
        { s.status with phase := "Failed", readyToUse := false, message := e })).bind
        fun _ => .ret ()

def reconcileSnapshots : SnapM GoErr :=
  (orText (call .listMachines)).andThen fun machines =>
  (call .listMachineSnapshots).bind fun
    | .error e => if e.notFound then .ret (.ok ()) else .ret (.error e.text)
    | .ok snapshots =>
      (Prog.forEach (snapshotTick c machines) snapshots).bind fun _ => .ret (.ok ())

inductive QuiesceDuty where
  | freeze
  | thaw
  | nothing

def quiesceDuty : QuiesceDuty :=
  if !m.guestAgentEnabled then .nothing
  else
    match quiesceRef c m annotationQuiesceRequest, quiesceRef c m annotationQuiesceStatus with
    | some _, none => .freeze
    | some (requestName, _), some (statusName, _) =>
      if statusName ≠ requestName then .freeze else .nothing
    | none, some _ => .thaw
    | none, none => .nothing

def reconcileGuestQuiesce (id : String) : SnapM Unit :=
  match quiesceDuty c m with
  | .freeze =>
    (call (.qgaFsfreezeFreeze m.key id)).bind fun
      | .error _ => .ret ()
      | .ok () =>
        (call (.patchQuiesceStatus m.key
          (some (m.metadata.annotations.get annotationQuiesceRequest)))).bind fun _ => .ret ()
  | .thaw =>
    (call (.qgaFsfreezeThaw m.key id)).bind fun
      | .error _ => .ret ()
      | .ok () =>
        (call (.patchQuiesceStatus m.key none)).bind fun _ => .ret ()
  | .nothing => .ret ()

def quiesceTick (node : String) (m : GuestMachine) : SnapM Unit :=
  if m.nodeName ≠ node then .ret ()
  else
    (call (.reachRuntime m.key)).bind fun
      | none => .ret ()
      | some id => reconcileGuestQuiesce c m id

def reconcileQuiesce (node : String) : SnapM GoErr :=
  (orText (call (.listMachinesWithSelector node))).andThen fun machines =>
  (Prog.forEach (quiesceTick c node) machines).bind fun _ => .ret (.ok ())

end Kairon.Snapshot
