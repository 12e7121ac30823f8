import Kairon.Model.Machine

/-!
# Backups of Machines

`MachineBackup` and `MachineBackupRestore` of `internal/model/machinebackup.go`, as far as the
disk half reads them, and what a merge patch of their status leaves.
-/

namespace Kairon.Model

open Infra GoText

inductive BackupPhase where
  | unset
  | pending
  | running
  | succeeded
  | failed
  | other (text : String)
  deriving DecidableEq

structure DiskBackupStatus where
  phase : BackupPhase
  message : String
  name : String
  sizeBytes : Int
  quiesced : Bool
  disks : List String
  deriving DecidableEq

def DiskBackupStatus.handedOver (name message : String) : DiskBackupStatus :=
  ⟨.pending, message, name, 0, false, []⟩

/-- A merge patch with the encoding of `new`: phase and message are always written, the other
fields are tagged `omitempty`. -/
def DiskBackupStatus.patch (old new : DiskBackupStatus) : DiskBackupStatus where
  phase := new.phase
  message := new.message
  name := if new.name = "" then old.name else new.name
  sizeBytes := if new.sizeBytes = 0 then old.sizeBytes else new.sizeBytes
  quiesced := new.quiesced || old.quiesced
  disks := if new.disks = [] then old.disks else new.disks

def patchDisk (old new : Option DiskBackupStatus) : Option DiskBackupStatus :=
  match new with
  | none => old
  | some d => some ((old.map fun o => o.patch d).getD d)

@[simp] theorem phase_patchDisk (old : Option DiskBackupStatus) (d : DiskBackupStatus) :
    (patchDisk old (some d)).map DiskBackupStatus.phase = some d.phase := by
  cases old <;> rfl

structure MachineBackupAtlas where
  bucketID : String
  volumeNames : List String
  deriving DecidableEq

structure MachineBackupSpec where
  machineName : String
  quiesce : String
  atlas : Option MachineBackupAtlas
  deriving DecidableEq

structure VolumeBackupStatus where
  volumeName : String
  phase : BackupPhase
  deriving DecidableEq

structure MachineBackupStatus where
  phase : BackupPhase
  message : String
  nodeName : String
  disk : Option DiskBackupStatus
  volumes : List VolumeBackupStatus
  deriving DecidableEq

structure MachineBackup where
  metadata : ObjectMeta
  spec : MachineBackupSpec
  status : MachineBackupStatus
  deriving DecidableEq

structure BackupStatusPatch where
  phase : Option BackupPhase := none
  message : Option String := none
  nodeName : Option String := none
  disk : Option DiskBackupStatus := none
  volumes : Option (List VolumeBackupStatus) := none

structure MachineBackupRestoreStatus where
  nodeName : String
  machineName : String
  disk : Option DiskBackupStatus
  deriving DecidableEq

structure MachineBackupRestore where
  metadata : ObjectMeta
  status : MachineBackupRestoreStatus
  deriving DecidableEq

variable (r : MachineBackupRestore) (d : DiskBackupStatus) (b : MachineBackup)
  (p : BackupStatusPatch)

namespace MachineBackup

/-- The object's identity; `Namespace` fills in no default here. -/
def key : ObjectKey := ⟨b.metadata.namespace, b.metadata.name⟩

def machineKey : ObjectKey := ⟨b.metadata.namespace, b.spec.machineName⟩

def patchStatus : MachineBackup :=
  { b with
    status :=
      { phase := p.phase.getD b.status.phase
        message := p.message.getD b.status.message
        nodeName := p.nodeName.getD b.status.nodeName
        disk := patchDisk b.status.disk p.disk
        volumes := p.volumes.getD b.status.volumes } }

def patchFinalizers (finalizers : List String) : MachineBackup :=
  { b with metadata := { b.metadata with finalizers := finalizers } }

@[simp] theorem key_patchStatus : (b.patchStatus p).key = b.key := rfl

@[simp] theorem key_patchFinalizers (fs : List String) : (b.patchFinalizers fs).key = b.key := rfl

end MachineBackup

namespace MachineBackupRestore

def key : ObjectKey := ⟨r.metadata.namespace, r.metadata.name⟩

def machineKey : ObjectKey := ⟨r.metadata.namespace, r.status.machineName⟩

def diskPhase : Option BackupPhase := r.status.disk.map DiskBackupStatus.phase

def patchDiskStatus : MachineBackupRestore :=
  { r with status := { r.status with disk := patchDisk r.status.disk (some d) } }

@[simp] theorem key_patchDiskStatus : (r.patchDiskStatus d).key = r.key := rfl

end MachineBackupRestore

/-! ## Names -/

def finalizerFluxVMBackup : String := "kairon.zyvor.dev/fluxvm-backup"

def backupQuiesceAuto : String := "auto"

def validBackupQuiesce (q : String) : Bool :=
  ["", "auto", "required", "never"].contains q

def dnsSafe (s : String) : String :=
  String.ofList ((toLower s).toList.map fun c =>
    if ('a' ≤ c ∧ c ≤ 'z') ∨ ('0' ≤ c ∧ c ≤ '9') ∨ c = '-' then c else '-')

def trimDashes (s : String) : String :=
  String.ofList ((s.toList.dropWhile (· = '-')).reverse.dropWhile (· = '-')).reverse

def fluxVMBackupName : String :=
  let base := String.ofList
    ((trimDashes (dnsSafe (b.metadata.namespace ++ "-" ++ b.metadata.name))).toList.take 80)
  let uid := String.ofList ((b.metadata.uid.toList.filter (· ≠ '-')).take 8)
  if uid = "" then "kairon-" ++ base else "kairon-" ++ base ++ "-" ++ uid

end Kairon.Model
