import Kairon.Agent.Node
import Kairon.Model.MachineBackup

/-!
# The disk half of backups and restores

`internal/agent/backup.go`, and `startMachineBackup` of `internal/controller/machinebackup.go`,
which hands the disk half of a backup over. The agent calls the API server, FluxVM's backups, and
its own table of the copies that run in the background.
-/

namespace Kairon.Backup

open Infra GoText Model Cluster

inductive JobKey where
  | backup (key : ObjectKey)
  | restore (key : ObjectKey)
  deriving DecidableEq

structure FluxBackup where
  name : String
  createdAt : String
  sizeBytes : Int
  quiesced : Bool
  disks : List String
  deriving DecidableEq

inductive Job where
  | backup (b : MachineBackup) (disk : DiskBackupStatus) (id quiesce : String)
  | restore (r : MachineBackupRestore) (disk : DiskBackupStatus) (id : String)
  deriving DecidableEq

def Job.key : Job → JobKey
  | backup b _ _ _ => .backup b.key
  | restore r _ _ => .restore r.key

inductive Cleanup where
  /-- Its MachineBackup is being deleted. -/
  | finalizer
  /-- `recoverDiskBackup` takes it for unfinished. -/
  | recovery

inductive BackupOp where
  /-- A call of the rest of the tick. -/
  | cluster (e : ClusterOp)
  | listMachineBackups
  | listMachineBackupRestores
  | patchMachineBackup (b : MachineBackup) (finalizers : List String)
  | patchMachineBackupStatus (b : MachineBackup) (p : BackupStatusPatch)
  | patchMachineBackupRestoreStatus (r : MachineBackupRestore) (disk : DiskBackupStatus)
  | busy (key : JobKey)
  | start (key : JobKey)
  /-- The `go` statement. -/
  | go (job : Job)
  | listBackups
  | deleteBackup (why : Cleanup) (b : MachineBackup) (name : String)
  /-- The process stops; there is no answer. -/
  | panic

def BackupOp.Ans : BackupOp → Type
  | cluster e => e.Ans
  | listMachineBackups => Except ApiError (List MachineBackup)
  | listMachineBackupRestores => Except ApiError (List MachineBackupRestore)
  | patchMachineBackup _ _ | patchMachineBackupStatus _ _
  | patchMachineBackupRestoreStatus _ _ => Except ApiError Unit
  | busy _ | start _ => Bool
  | go _ => Unit
  | listBackups => Except String (List FluxBackup)
  | deleteBackup _ _ _ => GoErr
  | panic => Unit

abbrev BackupM := Prog BackupOp.Ans

abbrev History := List (Event BackupOp.Ans)

def call (e : BackupOp) : BackupM e.Ans := Prog.perform BackupOp.Ans e

def busy (key : JobKey) : BackupM Bool := call (.busy key)

def start (key : JobKey) : BackupM Bool := call (.start key)

def inTick {α : Type} (p : M α) : BackupM α := p.expand (fun _ e => call (.cluster e)) []

def tickEvent (ev : Event ClusterOp.Ans) : Event BackupOp.Ans := ⟨.cluster ev.op, ev.ans⟩

theorem answered_inTick {α : Type} (answer : (e : BackupOp) → e.Ans) (p : M α) (past : History) :
    (inTick p).answered answer past = ((p.answered (fun e => answer (.cluster e)) []).1,
        (p.answered (fun e => answer (.cluster e)) []).2.map tickEvent ++ past) :=
  Prog.answered_expand tickEvent (fun _ _ _ => rfl) p [] [] past

inductive Halt where
  | error (text : String)
  /-- A nil pointer is dereferenced. -/
  | panic
  deriving DecidableEq

def last (p : BackupM (Except ApiError Unit)) : BackupM (Except Halt Unit) :=
  p.bind fun r => .ret (r.mapError fun e => .error e.text)

/-- The Atlas settings of the controller. The Machine's volumes are kept by name here; `isAtlas`
says which of them are Atlas volumes. -/
structure AtlasSettings where
  client : Bool
  backupBucketID : String
  isAtlas : Machine → String → Bool

variable (node : String) (s : AtlasSettings) (r : MachineBackupRestore) (b : MachineBackup)
  (disk : DiskBackupStatus) (machines : List Machine)

def patchDiskBackup : BackupM (Except ApiError Unit) :=
  call (.patchMachineBackupStatus b { disk := some disk })

def fillDiskBackup (out : FluxBackup) : DiskBackupStatus :=
  { disk with
    phase := .succeeded
    message :=
      if out.quiesced then "" else "crash-consistent: the guest agent did not freeze filesystems"
    sizeBytes := out.sizeBytes
    quiesced := out.quiesced
    disks := out.disks }

def recoverFrom (b : MachineBackup) (disk : DiskBackupStatus) :
    List FluxBackup → BackupM (Option (Except Halt Unit))
  | [] => .ret none
  | item :: items =>
    if item.name ≠ disk.name then recoverFrom b disk items
    else if item.createdAt ≠ "" then
      (last (patchDiskBackup b (fillDiskBackup disk item))).bind fun r => .ret (some r)
    else do
      match ← call (.deleteBackup .recovery b disk.name) with
      | .error e => return some (.error (.error e))
      | .ok () => recoverFrom b disk items

def recoverDiskBackup : BackupM (Except Halt Unit) := do
  match ← call .listBackups with
  | .error e => return .error (.error e)
  | .ok items =>
    match ← recoverFrom b disk items with
    | some r => return r
    | none =>
      last (patchDiskBackup b
        { disk with
          phase := .failed
          message :=
            "kairon-node restarted before the backup finished; create a new MachineBackup" })

def releaseDiskBackup : BackupM (Except Halt Unit) :=
  let finals := removeFinalizer b.metadata.finalizers finalizerFluxVMBackup
  if finalizerFluxVMBackup ∉ b.metadata.finalizers then .ret (.ok ())
  else if disk.name = "" then last (call (.patchMachineBackup b finals))
  else do
    match ← call (.deleteBackup .finalizer b disk.name) with
    | .error e => return .error (.error ("delete FluxVM backup " ++ disk.name ++ ": " ++ e))
    | .ok () => last (call (.patchMachineBackup b finals))

def quiesceMode : String := if b.spec.quiesce = "" then backupQuiesceAuto else b.spec.quiesce

def copyingDisks : DiskBackupStatus :=
  { disk with name := fluxVMBackupName b, phase := .running, message := "copying disks" }

def startBackup (rec : Option RuntimeRecord) : BackupM (Except Halt Unit) := do
  match ← patchDiskBackup b (copyingDisks b disk) with
  | .error e => return .error (.error e.text)
  | .ok () =>
    if !(← start (.backup b.key)) then return .ok ()
    else
      match rec with
      | none => return .error .panic
      | some rec =>
        call (.go (.backup b (copyingDisks b disk) rec.id (quiesceMode b)))
        return .ok ()

def takeDiskBackup : BackupM (Except Halt Unit) :=
  match machines.find? fun m => m.key = b.machineKey with
  | none =>
    last (patchDiskBackup b
      { disk with phase := .failed, message := "machine is no longer on this node" })
  | some m => do
    match ← inTick (Agent.current m) with
    | .error e =>
      last (patchDiskBackup b
        { disk with phase := .failed, message := "find the FluxVM VM: " ++ e })
    | .ok rec => startBackup b disk rec

def visitDiskBackup : BackupM (Except Halt Unit) :=
  if b.metadata.deleting then releaseDiskBackup b disk
  else
    match disk.phase with
    | .pending => takeDiskBackup b disk machines
    | .running => recoverDiskBackup b disk
    | _ => .ret (.ok ())

def reconcileDiskBackup : BackupM (Except Halt Unit) := do
  if ← busy (.backup b.key) then return .ok () else visitDiskBackup b disk machines

/-! ## Restores -/

def patchDiskRestore : BackupM (Except ApiError Unit) :=
  call (.patchMachineBackupRestoreStatus r disk)

def failRestore (message : String) : BackupM (Except Halt Unit) :=
  last (patchDiskRestore r { disk with phase := .failed, message := message })

def startRestore (rec : RuntimeRecord) : BackupM (Except Halt Unit) := do
  let disk := { disk with phase := .running, message := "copying disks" }
  match ← patchDiskRestore r disk with
  | .error e => return .error (.error e.text)
  | .ok () =>
    if !(← start (.restore r.key)) then return .ok ()
    else
      call (.go (.restore r disk rec.id))
      return .ok ()

def takeDiskRestore : BackupM (Except Halt Unit) :=
  match machines.find? fun m => m.key = r.machineKey with
  | none => failRestore r disk "machine is no longer on this node"
  | some m => do
    match ← inTick (Agent.current m) with
    | .error e => failRestore r disk ("find the FluxVM VM: " ++ e)
    | .ok rec =>
      match rec.filter fun rec => rec.id ≠ "" with
      | none =>
        failRestore r disk ("the Machine has no FluxVM VM to restore into (powerState Stopped " ++
          "deletes it; use Halted)")
      | some rec =>
        if m.desiredPowerState ≠ "Halted" ∨ Agent.normalizePhase rec.status ≠ "Stopped" then
          let message := "waiting for the Machine to be halted (spec.powerState: Halted)"
          if disk.message = message then return .ok ()
          else last (patchDiskRestore r { disk with message := message })
        else startRestore r disk rec

def visitDiskRestore : BackupM (Except Halt Unit) :=
  match disk.phase with
  | .pending => takeDiskRestore r disk machines
  | .running =>
    failRestore r disk ("kairon-node restarted during the restore; the Machine's disks may " ++
      "be partly restored, so restore again before starting it")
  | _ => .ret (.ok ())

def reconcileDiskRestore : BackupM (Except Halt Unit) := do
  if ← busy (.restore r.key) then return .ok () else visitDiskRestore r disk machines

/-! ## The pass -/

def handled (p : BackupM (Except Halt Unit)) : BackupM Unit := do
  match ← p with
  | .error .panic => call .panic
  | _ => return ()

def backupTick (b : MachineBackup) : BackupM Unit :=
  match b.status.disk with
  | some disk =>
    if b.status.nodeName ≠ node then .ret () else handled (reconcileDiskBackup b disk machines)
  | none => .ret ()

def restoreTick (r : MachineBackupRestore) : BackupM Unit :=
  match r.status.disk with
  | some disk =>
    if r.status.nodeName ≠ node then .ret () else handled (reconcileDiskRestore r disk machines)
  | none => .ret ()

def reconcileBackups : BackupM GoErr := do
  match ← call .listMachineBackups with
  | .error e => return if e.notFound then .ok () else .error e.text
  | .ok backups =>
    Prog.forEach (backupTick node machines) backups
    match ← call .listMachineBackupRestores with
    | .error e => return if e.notFound then .ok () else .error e.text
    | .ok restores =>
      Prog.forEach (restoreTick node machines) restores
      return .ok ()

def localMachines (past : Cluster.History) : List Machine :=
  (Agent.machinesSeen past).filter fun m => m.spec.nodeName = node

def withBackups (a : Agent.Config) (past : Cluster.History) : (e : ClusterOp) → BackupM e.Ans
  | .agentPass .backups => reconcileBackups a.nodeName (localMachines a.nodeName past)
  | e => call (.cluster e)

def tick (a : Agent.Config) : BackupM GoErr :=
  (Agent.reconcile a).expand (withBackups a) []

/-! ## The hand-over -/

variable (machine : Machine) (atlas : MachineBackupAtlas)

def backupBucket : String := if atlas.bucketID ≠ "" then atlas.bucketID else s.backupBucketID

/-- The loop of `atlasBackupVolumes`: the volumes taken, and the names still wanted. A name that was
found is no longer wanted, and once none is, all further volumes are taken. -/
def takeAtlasVolumes (isAtlas : String → Bool) (want : List String) :
    List String → List VolumeBackupStatus × List String
  | [] => ([], want)
  | v :: volumes =>
    if !isAtlas v || (want ≠ [] && v ∉ want) then takeAtlasVolumes isAtlas want volumes
    else
      let (taken, left) := takeAtlasVolumes isAtlas (want.filter (· ≠ v)) volumes
      (⟨v, .pending⟩ :: taken, left)

def atlasBackupVolumes (machine : Machine) : Except String (List VolumeBackupStatus) :=
  match takeAtlasVolumes (s.isAtlas machine) atlas.volumeNames machine.spec.volumes with
  | (_, n :: _) =>
    .error ("spec.atlas.volumeNames: machine " ++ machine.metadata.name ++
      " has no Atlas volume " ++ quote n)
  | ([], []) =>
    .error ("spec.atlas is set but machine " ++ machine.metadata.name ++ " has no Atlas volumes")
  | (taken, []) => .ok taken

def atlasHalf : Except String (Option (List VolumeBackupStatus)) :=
  match b.spec.atlas with
  | none => .ok none
  | some atlas =>
    if !s.client then
      .error "spec.atlas is set but Atlas is not configured on kairon-controller"
    else if backupBucket s atlas = "" then
      .error "spec.atlas.bucketID is empty and kairon-controller has no --atlas-backup-bucket"
    else (atlasBackupVolumes s atlas machine).map some

def addBackupFinalizer : BackupM GoErr :=
  if finalizerFluxVMBackup ∈ b.metadata.finalizers then .ret (.ok ())
  else wrap "add backup finalizer"
    (orText (call (.patchMachineBackup b (b.metadata.finalizers ++ [finalizerFluxVMBackup]))))

def handOver (disk : Option DiskBackupStatus) : BackupM GoErr :=
  match atlasHalf s b machine with
  | .error e => .ret (.error e)
  | .ok volumes =>
    let parts :=
      (disk.map fun _ => "disks on " ++ machine.spec.nodeName).toList ++
        (volumes.map fun vs => toString vs.length ++ " Atlas volume(s)").toList
    if parts = [] then
      .ret (.error ("nothing to back up: machine " ++ machine.metadata.name ++
        " boots from spec.volumes (use MachineSnapshot) and spec.atlas is unset"))
    else
      orText (call (.patchMachineBackupStatus b
        { phase := some .running
          message := some ("backing up " ++ " and ".intercalate parts)
          nodeName := disk.map fun _ => machine.spec.nodeName
          disk := disk
          volumes := volumes }))

def startMachineBackup : BackupM GoErr :=
  if trimSpace b.spec.machineName = "" then .ret (.error "spec.machineName is required")
  else if !validBackupQuiesce b.spec.quiesce then
    .ret (.error "spec.quiesce must be auto, required or never")
  else
    match machines.find? fun m => m.key = b.machineKey with
    | none =>
      .ret (.error ("machine " ++ b.metadata.namespace ++ "/" ++ b.spec.machineName ++
        " not found"))
    | some machine =>
      -- FluxVM owns the root disk only when the Machine boots from an image
      if machine.spec.volumes ≠ [] then handOver s b machine none
      else if machine.spec.nodeName = "" then
        .ret (.error ("machine " ++ machine.metadata.name ++ " is not scheduled to a node yet"))
      else
        (addBackupFinalizer b).andThen fun _ =>
          handOver s b machine
            (some (.handedOver "" ("waiting for kairon-node on " ++ machine.spec.nodeName)))

end Kairon.Backup
