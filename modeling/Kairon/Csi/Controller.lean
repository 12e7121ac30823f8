import Kairon.Csi.Iscsi
import Kairon.Infra.GoPath
import Kairon.Infra.Prog

/-!
# The CSI controller

`ControllerServer`: volumes and snapshots as files on the controller's node, and the Linux LIO
target that serves each volume, driven by `targetcli`.
-/

namespace Kairon.Csi

open Infra GoText GoPath List

inductive Command where
  | createBackstore (name path : String) (sizeBytes : Int)
  | deleteBackstore (name : String)
  | createTarget (iqn : String)
  | deleteTarget (iqn : String)
  | createLUN (iqn backstoreName : String)
  | createPortal (iqn host port : String)
  | setAttributes (iqn authAttr : String)
  | setAuth (iqn username password : String)
  | resizeBackstore (name : String) (sizeBytes : Int)
  | copy (src dst : String)

def backstoreType := "fileio"

variable (iqn volumeId : String)

structure OSError where
  notExist : Bool
  text : String

structure FileInfo where
  size : Nat
  modTime : Int

inductive ControllerOp where
  | stat (path : String)
  | remove (path : String)
  | mkdirAll (path : String)
  | now
  /-- `CommandRunner.Run`; nothing reads the output of a command that succeeded. -/
  | run (command : Command)

def ControllerOp.Ans : ControllerOp → Type
  | stat _ => Except OSError FileInfo
  | remove _ => Except OSError Unit
  | mkdirAll _ => GoErr
  | now => Int
  | run _ => GoErr

abbrev ControllerM := Prog ControllerOp.Ans

/-! ## `lioClient` -/

def attempt (command : Command) (harmless : String → Bool) (what : String) : ControllerM GoErr :=
  .call (.run command) fun
    | .ok () => .ret (.ok ())
    | .error err => .ret (if harmless err then .ok () else .error (what ++ ": " ++ err))

def ensureBackstore (name path : String) (sizeBytes : Int) : ControllerM GoErr :=
  attempt (.createBackstore name path sizeBytes) (contains · "already exists")
    ("create " ++ backstoreType ++ " backstore " ++ name)

def deleteBackstore (name : String) : ControllerM GoErr :=
  attempt (.deleteBackstore name) (contains · "No storage object named")
    ("delete " ++ backstoreType ++ " backstore " ++ name)

def ensureTarget : ControllerM GoErr :=
  attempt (.createTarget iqn) (contains · "already exists in configFS")
    ("create iscsi target " ++ iqn)

def deleteTarget : ControllerM GoErr :=
  attempt (.deleteTarget iqn) (contains · "No such Target in configfs")
    ("delete iscsi target " ++ iqn)

def ensureLUN (backstoreName : String) : ControllerM GoErr :=
  attempt (.createLUN iqn backstoreName) (contains · "already exists")
    ("create LUN for " ++ backstoreName ++ " on " ++ iqn)

def ensurePortal (host port : String) : ControllerM GoErr :=
  attempt (.createPortal iqn host port) (contains · "already exists in configFS")
    ("create portal " ++ host ++ ":" ++ port ++ " for " ++ iqn)

def ensureAuth (username password : String) : ControllerM GoErr :=
  let authAttr := if username ≠ "" then "authentication=1" else "authentication=0"
  (attempt (.setAttributes iqn authAttr) (fun _ => false)
    ("configure demo-mode ACLs for " ++ iqn)).andThen fun _ =>
  if username = "" then .ret (.ok ())
  else attempt (.setAuth iqn username password) (fun _ => false) ("configure CHAP for " ++ iqn)

def resizeBackstore (name : String) (sizeBytes : Int) : ControllerM GoErr :=
  attempt (.resizeBackstore name sizeBytes) (fun _ => false)
    ("resize " ++ backstoreType ++ " backstore " ++ name ++ " to " ++ toString sizeBytes ++
      " bytes")

def copyFile (src dst : String) : ControllerM GoErr :=
  attempt (.copy src dst) (fun _ => false) ("copy " ++ src ++ " to " ++ dst)

def orInternal (p : ControllerM GoErr) : ControllerM (Except Status Unit) :=
  p.bind fun
    | .error err => .ret (internal err)
    | .ok () => .ret (.ok ())

/-! ## Requests and responses -/

structure VolumeCapability where
  /-- The file system type of `GetMount`. -/
  mount : Option String
  deriving DecidableEq

inductive ContentSource where
  | snapshot (snapshotId : String)
  | volume (volumeId : String)
  deriving DecidableEq

structure CreateVolumeRequest where
  name : String
  volumeCapabilities : List VolumeCapability
  /-- The `required_bytes` of the capacity range, if there is one. -/
  requiredBytes : Option Int := none
  volumeContentSource : Option ContentSource := none
  secrets : StringMap := []
  deriving DecidableEq

structure CreateVolumeResponse where
  volumeId : String
  capacityBytes : Int
  contentSource : Option ContentSource
  volumeContext : StringMap

structure ExpandVolumeResponse where
  capacityBytes : Int
  nodeExpansionRequired : Bool

structure SnapshotResponse where
  snapshotId : String
  sourceVolumeId : String
  sizeBytes : Int
  creationTime : Int
  readyToUse : Bool

structure ChapCredentials where
  username : String
  password : String

def chapCredentialsFromSecrets (secrets : StringMap) : Except String ChapCredentials :=
  let c : ChapCredentials := ⟨secrets.value secretKeyUsername, secrets.value secretKeyPassword⟩
  if (c.username = "") ≠ (c.password = "") then
    .error ("a provisioner secret must set both " ++ quote secretKeyUsername ++ " and " ++
      quote secretKeyPassword ++ ", or neither")
  else .ok c

/-! ## `ControllerServer` -/

def defaultVolumeSizeBytes : Int := 2 ^ 30

def snapshotSubdir := ".snapshots"

structure ControllerServer where
  portal : String
  volumeDir : String
  /-- `net.SplitHostPort`. -/
  splitHostPort : String → Except String (String × String)
  /-- `NewControllerServer` refuses an empty directory. -/
  volumeDir_ne : volumeDir ≠ ""

variable (splitHostPort : String → Except String (String × String)) (req : CreateVolumeRequest)

def splitPortal (portal : String) : Except String (String × String) :=
  match splitHostPort portal with
  | .error err => .error ("portal " ++ quote portal ++ " must be host:port: " ++ err)
  | .ok hostPort => .ok hostPort

namespace ControllerServer

variable (s : ControllerServer)

def backingFilePath (name : String) : String := join [s.volumeDir, name ++ ".img"]

def snapshotFilePath (name : String) : String :=
  join [s.volumeDir, snapshotSubdir, name ++ ".img"]

section Paths

variable {s} {name n id : String}

theorem plain_img (hn : volumeNamePattern n = true) : Plain (n ++ ".img") := by
  have hchars : ∀ c ∈ n.toList, c.isLower || c.isDigit || c == '-' := by
    unfold volumeNamePattern at hn
    cases hl : n.toList with
    | nil => simp
    | cons c cs =>
      simp only [hl, Bool.and_eq_true, all_eq_true] at hn
      exact forall_mem_cons.mpr ⟨by simp [hn.1.1], hn.2⟩
  have hslash : '/' ∉ (n ++ ".img").toList := by
    rw [String.toList_append, mem_append]
    rintro (h | h)
    · exact absurd (hchars _ h) (by decide)
    · exact absurd h (by decide)
  -- the name ends in `g`, so it is none of the components that are not plain
  have hlast : (n ++ ".img").toList.getLast? = some 'g' := by
    rw [String.toList_append, show ".img".toList = ['.', 'i', 'm'] ++ ['g'] from rfl,
      ← append_assoc, List.getLast?_concat]
  have hne : ∀ c : String, c.toList.getLast? ≠ some 'g' → n ++ ".img" ≠ c := by
    rintro c hc rfl
    exact hc hlast
  exact ⟨⟨hslash, hne "" (by decide), hne "." (by decide)⟩, hne ".." (by decide)⟩

def fileOf (s : ControllerServer) (name : String) : List String :=
  within s.volumeDir [name ++ ".img"]

theorem fileOf_eq (hn : volumeNamePattern n = true) :
    s.fileOf n = place s.volumeDir ++ [n ++ ".img"] :=
  within_plain (by simpa using plain_img hn)

theorem backingFilePath_eq_iff :
    s.backingFilePath name = s.backingFilePath n ↔ s.fileOf name = s.fileOf n :=
  join_eq_join_iff s.volumeDir_ne

theorem backingFilePath_inj (hname : volumeNamePattern name = true)
    (hn : volumeNamePattern n = true) (h : s.backingFilePath name = s.backingFilePath n) :
    name = n := by
  rw [backingFilePath_eq_iff, fileOf_eq hname, fileOf_eq hn] at h
  have himg : name ++ ".img" = n ++ ".img" := by simpa using h
  rw [← String.toList_inj, String.toList_append, String.toList_append] at himg
  exact String.toList_inj.mp (append_cancel_right himg)

theorem snapshotFilePath_ne_backingFilePath (hid : volumeNamePattern id = true)
    (hn : volumeNamePattern n = true) : s.snapshotFilePath id ≠ s.backingFilePath n := by
  have hsub : Plain snapshotSubdir := ⟨⟨by decide, by decide, by decide⟩, by decide⟩
  intro h
  have hplace : within s.volumeDir [snapshotSubdir, id ++ ".img"] = s.fileOf n :=
    (join_eq_join_iff s.volumeDir_ne).mp h
  rw [fileOf_eq hn, within_plain (by simpa using ⟨hsub, plain_img hid⟩)] at hplace
  -- one is a level deeper
  have hlen := congrArg List.length hplace
  simp at hlen

end Paths

/-! ### `CreateVolume` -/

def checkCreateVolume : Except Status Unit :=
  if req.name = "" then invalidArgument "name is required"
  else if volumeNamePattern req.name = false then
    invalidArgument ("name " ++ quote req.name ++ " must match " ++ volumeNamePatternText ++
      " (Kubernetes' own external-provisioner-generated PVC names always do)")
  else if req.volumeCapabilities = [] then invalidArgument "volume_capabilities is required"
  else if req.volumeCapabilities.any (·.mount = none) then
    invalidArgument "only mount-type volumes are supported (no raw block mode) in this first cut"
  else .ok ()

def requestedSize : Int :=
  let sizeBytes := req.requiredBytes.getD 0
  if sizeBytes ≤ 0 then defaultVolumeSizeBytes else sizeBytes

def restoreSnapshot (req : CreateVolumeRequest) : ControllerM (Except Status (Int × Int)) :=
  let sizeBytes := requestedSize req
  match req.volumeContentSource with
  | some (.snapshot id) =>
    if volumeNamePattern id = false then
      .ret (notFound ("snapshot " ++ quote id ++ " not found"))
    else
      .call (.stat (s.snapshotFilePath id)) fun
        | .error err => .ret (notFound ("snapshot " ++ quote id ++ ": " ++ err.text))
        | .ok info =>
          let restoredSize : Int := info.size
          let sizeBytes := if sizeBytes < restoredSize then restoredSize else sizeBytes
          .call (.stat (s.backingFilePath req.name)) fun
            | .error ⟨true, _⟩ =>
              (orInternal (copyFile (s.snapshotFilePath id) (s.backingFilePath req.name))).andThen
                fun _ => .ret (.ok (sizeBytes, restoredSize))
            -- the file is there, or nobody knows: taken for a retry
            | _ => .ret (.ok (sizeBytes, restoredSize))
  | _ => .ret (.ok (sizeBytes, 0))

def provisionBackstore (name : String) (sizeBytes restoredSize : Int) :
    ControllerM (Except Status Unit) :=
  (orInternal (ensureBackstore name (s.backingFilePath name) sizeBytes)).andThen fun _ =>
  if restoredSize > 0 ∧ sizeBytes > restoredSize then orInternal (resizeBackstore name sizeBytes)
  else .ret (.ok ())

def provisionTarget (req : CreateVolumeRequest) : ControllerM (Except Status Unit) :=
  let iqn := iqnPrefix ++ req.name
  (orInternal (ensureTarget iqn)).andThen fun _ =>
  (orInternal (ensureLUN iqn req.name)).andThen fun _ =>
  match splitPortal s.splitHostPort s.portal with
  | .error err => .ret (internal err)
  | .ok (host, port) =>
    (orInternal (ensurePortal iqn host port)).andThen fun _ =>
    match chapCredentialsFromSecrets req.secrets with
    | .error err => .ret (invalidArgument err)
    | .ok chap => orInternal (ensureAuth iqn chap.username chap.password)

def createdVolume (req : CreateVolumeRequest) (sizeBytes : Int) : CreateVolumeResponse :=
  let iqn := iqnPrefix ++ req.name
  { volumeId := encodeVolumeID { portal := s.portal, iqn, lun := defaultLUN }
    capacityBytes := sizeBytes
    contentSource := req.volumeContentSource
    volumeContext :=
      [(volumeAttrPortal, s.portal), (volumeAttrIQN, iqn), (volumeAttrLUN, defaultLUN)] }

def createVolume (req : CreateVolumeRequest) : ControllerM (Except Status CreateVolumeResponse) :=
  match checkCreateVolume req with
  | .error status => .ret (.error status)
  | .ok () =>
    (s.restoreSnapshot req).andThen fun (sizeBytes, restoredSize) =>
    (s.provisionBackstore req.name sizeBytes restoredSize).andThen fun _ =>
    (s.provisionTarget req).andThen fun _ =>
    .ret (.ok (s.createdVolume req sizeBytes))

/-! ### Volumes by their id -/

def deleteVolume (volumeId : String) : ControllerM (Except Status Unit) :=
  if volumeId = "" then .ret (invalidArgument "volume_id is required")
  else
    match decodeVolumeID volumeId with
    | .error _ => .ret (.ok ())
    | .ok cfg =>
      match nameFromIQN cfg.iqn with
      | none => .ret (.ok ())
      | some name =>
        (orInternal (deleteTarget cfg.iqn)).andThen fun _ =>
        (orInternal (deleteBackstore name)).andThen fun _ =>
        .call (.remove (s.backingFilePath name)) fun
          | .error ⟨false, text⟩ =>
            .ret (internal ("remove backing file for " ++ name ++ ": " ++ text))
          | _ => .ret (.ok ())

def controllerExpandVolume (volumeId : String) (requiredBytes : Option Int) :
    ControllerM (Except Status ExpandVolumeResponse) :=
  let sizeBytes := requiredBytes.getD 0
  if volumeId = "" then .ret (invalidArgument "volume_id is required")
  else if sizeBytes ≤ 0 then
    .ret (invalidArgument "capacity_range.required_bytes must be set")
  else
    match decodeVolumeID volumeId with
    | .error err => .ret (invalidArgument err)
    | .ok cfg =>
      match nameFromIQN cfg.iqn with
      | none => .ret (notFound ("volume " ++ quote volumeId ++
          " was not dynamically provisioned by this Controller"))
      | some name =>
        .call (.stat (s.backingFilePath name)) fun
          | .error err => .ret (notFound ("backing file for " ++ name ++ ": " ++ err.text))
          | .ok info =>
            if (info.size : Int) ≥ sizeBytes then .ret (.ok ⟨info.size, true⟩)
            else
              (orInternal (resizeBackstore name sizeBytes)).andThen fun _ =>
              .ret (.ok ⟨sizeBytes, true⟩)

/-! ### Snapshots -/

def createSnapshot (name sourceVolumeId : String) : ControllerM (Except Status SnapshotResponse) :=
  if name = "" then .ret (invalidArgument "name is required")
  else if volumeNamePattern name = false then
    .ret (invalidArgument ("name " ++ quote name ++ " must match " ++ volumeNamePatternText))
  else if sourceVolumeId = "" then .ret (invalidArgument "source_volume_id is required")
  else
    let dst := s.snapshotFilePath name
    .call (.stat dst) fun
      | .ok info => .ret (.ok ⟨name, sourceVolumeId, info.size, info.modTime, true⟩)
      | .error _ =>
        match decodeVolumeID sourceVolumeId with
        | .error err => .ret (notFound ("source volume " ++ quote sourceVolumeId ++ ": " ++ err))
        | .ok cfg =>
          match nameFromIQN cfg.iqn with
          | none => .ret (notFound ("source volume " ++ quote sourceVolumeId ++
              " was not dynamically provisioned by this Controller"))
          | some volName =>
            .call (.stat (s.backingFilePath volName)) fun
              | .error err => .ret (notFound ("source volume " ++ quote sourceVolumeId ++
                  " backing file: " ++ err.text))
              | .ok srcInfo =>
                -- `filepath.Dir` of the snapshot's file
                .call (.mkdirAll (join [s.volumeDir, snapshotSubdir])) fun
                  | .error err => .ret (internal err)
                  | .ok () =>
                    (orInternal (copyFile (s.backingFilePath volName) dst)).andThen fun _ =>
                    .call .now fun now =>
                    .ret (.ok ⟨name, sourceVolumeId, srcInfo.size, now, true⟩)

def deleteSnapshot (snapshotId : String) : ControllerM (Except Status Unit) :=
  if snapshotId = "" then .ret (invalidArgument "snapshot_id is required")
  else if volumeNamePattern snapshotId = false then .ret (.ok ())
  else
    .call (.remove (s.snapshotFilePath snapshotId)) fun
      | .error ⟨false, text⟩ =>
        .ret (internal ("remove snapshot file for " ++ snapshotId ++ ": " ++ text))
      | _ => .ret (.ok ())

end ControllerServer

inductive ControllerCall where
  | createVolume (req : CreateVolumeRequest)
  | deleteVolume (volumeId : String)
  | controllerExpandVolume (volumeId : String) (requiredBytes : Option Int)
  | createSnapshot (name sourceVolumeId : String)
  | deleteSnapshot (snapshotId : String)
  deriving DecidableEq

namespace ControllerCall

def Res : ControllerCall → Type
  | createVolume _ => Except Status CreateVolumeResponse
  | controllerExpandVolume _ _ => Except Status ExpandVolumeResponse
  | createSnapshot _ _ => Except Status SnapshotResponse
  | deleteVolume _ | deleteSnapshot _ => Except Status Unit

def succeeded : (c : ControllerCall) → c.Res → Bool
  | .createVolume _, .ok _ | .deleteVolume _, .ok _ | .controllerExpandVolume _ _, .ok _
  | .createSnapshot _ _, .ok _ | .deleteSnapshot _, .ok _ => true
  | _, _ => false

def code (s : ControllerServer) : (c : ControllerCall) → ControllerM c.Res
  | createVolume req => s.createVolume req
  | deleteVolume volumeId => s.deleteVolume volumeId
  | controllerExpandVolume volumeId requiredBytes =>
    s.controllerExpandVolume volumeId requiredBytes
  | createSnapshot name sourceVolumeId => s.createSnapshot name sourceVolumeId
  | deleteSnapshot snapshotId => s.deleteSnapshot snapshotId

end ControllerCall

end Kairon.Csi
