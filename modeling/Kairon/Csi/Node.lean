import Kairon.Csi.Iscsi
import Kairon.Infra.GoPath
import Kairon.Infra.Session

/-!
# The CSI node plugin

`NodeServer`: volumes are staged by logging in to their iSCSI target and mounting its device, and
published by a bind mount of the staging path.
-/

namespace Kairon.Csi

open Infra GoText

inductive NodeCommand where
  | newRecord (iqn portal : String)
  | updateRecord (iqn portal key value : String)
  | login (iqn portal : String)
  | logout (iqn portal : String)
  | deleteRecord (iqn portal : String)
  | rescan (iqn portal : String)
  | blkid (device : String)
  | mkfs (fsType device : String)
  | resize2fs (device : String)
  | xfsGrowfs (mountPath : String)

structure RunError where
  text : String
  exitCode : Option Int

structure VolumeStats where
  totalBytes : Int
  usedBytes : Int
  availableBytes : Int
  totalInodes : Int
  usedInodes : Int
  availableInodes : Int

def bindMountFlag : Nat := 0x1000
def bindRemountFlag : Nat := 0x20
def bindReadOnlyFlag : Nat := 0x1

inductive NodeOp where
  /-- The lines of `/proc/self/mountinfo`. -/
  | readMountinfo
  | mount (source target fsType : String) (flags : Nat)
  | unmount (target : String)
  | mkdirAll (path : String)
  | evalSymlinks (path : String)
  /-- Wait for `deviceWaitInterval`, unless the context ends before. -/
  | wait
  | statfs (path : String)
  | run (command : NodeCommand)

def NodeOp.Ans : NodeOp → Type
  | readMountinfo => Except String (List String)
  | mount _ _ _ _ | unmount _ | mkdirAll _ | wait => GoErr
  | evalSymlinks _ => Except String String
  | statfs _ => Except String VolumeStats
  | run _ => Except RunError String

abbrev NodeM := Prog NodeOp.Ans

def isMountPointFromReader (lines : List String) (path : String) : Bool :=
  lines.any fun line => (fields line)[4]? == some path

variable (path : String)

def isMountPoint : NodeM (Except String Bool) :=
  .call .readMountinfo fun
    | .error err => .ret (.error err)
    | .ok lines => .ret (.ok (isMountPointFromReader lines path))

/-! ## `iscsiClient` -/

def attemptNode (command : NodeCommand) (harmless : String → Bool) (what : String) : NodeM GoErr :=
  .call (.run command) fun
    | .ok _ => .ret (.ok ())
    | .error err =>
      .ret (if harmless err.text then .ok () else .error (what ++ ": " ++ err.text))

def devicePath (cfg : IscsiConfig) : String :=
  "/dev/disk/by-path/ip-" ++ cfg.portal ++ "-iscsi-" ++ cfg.iqn ++ "-lun-" ++ cfg.lun

def waitForDevice (path : String) : Nat → NodeM (Except String String)
  | 0 =>
    .call (.evalSymlinks path) fun
      | .ok resolved => .ret (.ok resolved)
      | .error _ => .ret (.error ("device " ++ path ++ " did not appear within 10s of iscsi" ++
          " login -- target/LUN misconfigured, or the node's iscsid isn't running"))
  | waits + 1 =>
    .call (.evalSymlinks path) fun
      | .ok resolved => .ret (.ok resolved)
      | .error _ =>
        .call .wait fun
          | .error err => .ret (.error err)
          | .ok () => waitForDevice path waits

def login (waits : Nat) (cfg : IscsiConfig) : NodeM (Except String String) :=
  (attemptNode (.newRecord cfg.iqn cfg.portal) (contains · "already exists")
    "create iscsi node record").andThen fun _ =>
  (if cfg.username = "" then .ret (.ok ())
    else
      Prog.tryEach (fun (key, value) =>
        attemptNode (.updateRecord cfg.iqn cfg.portal key value) (fun _ => false)
          ("configure iscsi CHAP (" ++ key ++ ")"))
        [("node.session.auth.authmethod", "CHAP"), ("node.session.auth.username", cfg.username),
          ("node.session.auth.password", cfg.password)]).andThen fun _ =>
  (attemptNode (.login cfg.iqn cfg.portal) (contains · "already") "iscsi login").andThen fun _ =>
  waitForDevice (devicePath cfg) waits

def logout (cfg : IscsiConfig) : NodeM GoErr :=
  (attemptNode (.logout cfg.iqn cfg.portal) (contains · "No matching sessions")
    "iscsi logout").andThen fun _ =>
  attemptNode (.deleteRecord cfg.iqn cfg.portal) (contains · "No records found")
    "delete iscsi node record"

def rescan (cfg : IscsiConfig) : NodeM GoErr :=
  attemptNode (.rescan cfg.iqn cfg.portal) (fun _ => false) ("rescan iscsi target " ++ cfg.iqn)

def growFilesystem (device mountPath : String) : NodeM GoErr :=
  .call (.run (.blkid device)) fun
    | .error err => .ret (.error ("probe filesystem on " ++ device ++ ": " ++ err.text))
    | .ok output =>
      let fsType := trimSpace output
      let what := "grow " ++ fsType ++ " filesystem on " ++ device
      if fsType = "ext2" ∨ fsType = "ext3" ∨ fsType = "ext4" then
        attemptNode (.resize2fs device) (fun _ => false) what
      else if fsType = "xfs" then attemptNode (.xfsGrowfs mountPath) (fun _ => false) what
      else .ret (.error ("growing a " ++ quote fsType ++ " filesystem is not supported"))

def ensureFormatted (device fsType : String) : NodeM GoErr :=
  .call (.run (.blkid device)) fun
    | .ok _ => .ret (.ok ())
    | .error err =>
      if err.exitCode = some 2 then
        attemptNode (.mkfs fsType device) (fun _ => false) ("format " ++ device ++ " as " ++ fsType)
      else .ret (.error ("probe filesystem on " ++ device ++ ": " ++ err.text))

/-! ## `NodeServer` -/

structure NodeStageVolumeRequest where
  volumeId : String
  stagingTargetPath : String
  /-- The file system type of the mount capability; `none` for a raw block volume. -/
  mount : Option String
  volumeContext : StringMap
  secrets : StringMap := []
  deriving DecidableEq

structure NodePublishVolumeRequest where
  volumeId : String
  stagingTargetPath : String
  targetPath : String
  readonly : Bool
  deriving DecidableEq

structure NodeServer where
  /-- How often `deviceWaitInterval` fits into `deviceWaitTimeout`. -/
  deviceWaits : Nat

def orInternalNode {α : Type} (p : NodeM (Except String α)) (what : String) :
    NodeM (Except Status α) :=
  p.bind fun
    | .error err => .ret (internal (what ++ err))
    | .ok a => .ret (.ok a)

namespace NodeServer

variable (s : NodeServer)

def stageConfig (req : NodeStageVolumeRequest) : Except Status IscsiConfig :=
  if req.volumeId = "" then invalidArgument "volume_id is required"
  else if req.stagingTargetPath = "" then invalidArgument "staging_target_path is required"
  else
    match req.mount with
    | none => invalidArgument
        "only mount-type volumes are supported (no raw block mode) in this first cut"
    | some fsType =>
      match parseISCSIConfig req.volumeContext req.secrets with
      | .error err => invalidArgument err
      | .ok cfg => .ok (if fsType ≠ "" then { cfg with fsType } else cfg)

def nodeStageVolume (req : NodeStageVolumeRequest) : NodeM (Except Status Unit) :=
  match stageConfig req with
  | .error status => .ret (.error status)
  | .ok cfg =>
    let path := req.stagingTargetPath
    (orInternalNode (isMountPoint path) "check staging path: ").andThen fun already =>
    if already then .ret (.ok ())
    else
      (orInternalNode (login s.deviceWaits cfg)
        ("iscsi login for volume " ++ req.volumeId ++ ": ")).andThen fun device =>
      (orInternalNode (ensureFormatted device cfg.fsType) "").andThen fun _ =>
      (orInternalNode (.call (.mkdirAll path) .ret) "create staging directory: ").andThen fun _ =>
      orInternalNode (.call (.mount device path cfg.fsType 0) .ret)
        ("mount " ++ device ++ " at " ++ path ++ ": ")

def nodeUnstageVolume (volumeId stagingTargetPath : String) : NodeM (Except Status Unit) :=
  if volumeId = "" then .ret (invalidArgument "volume_id is required")
  else if stagingTargetPath = "" then .ret (invalidArgument "staging_target_path is required")
  else
    (orInternalNode (isMountPoint stagingTargetPath) "check staging path: ").andThen fun mounted =>
    (if mounted then
        orInternalNode (.call (.unmount stagingTargetPath) .ret)
          ("unmount " ++ stagingTargetPath ++ ": ")
      else .ret (.ok ())).andThen fun _ =>
    match decodeVolumeID volumeId with
    | .error err => .ret (invalidArgument err)
    | .ok cfg => orInternalNode (logout cfg) "iscsi logout: "

def nodePublishVolume (req : NodePublishVolumeRequest) : NodeM (Except Status Unit) :=
  if req.volumeId = "" then .ret (invalidArgument "volume_id is required")
  else if req.stagingTargetPath = "" then
    .ret (invalidArgument "staging_target_path is required (NodeStageVolume must run first)")
  else if req.targetPath = "" then .ret (invalidArgument "target_path is required")
  else
    (orInternalNode (isMountPoint req.targetPath) "check target path: ").andThen fun already =>
    if already then .ret (.ok ())
    else
      (orInternalNode (.call (.mkdirAll req.targetPath) .ret)
        "create target directory: ").andThen fun _ =>
      (orInternalNode (.call (.mount req.stagingTargetPath req.targetPath "" bindMountFlag) .ret)
        ("bind mount " ++ req.stagingTargetPath ++ " at " ++ req.targetPath ++ ": ")).andThen
        fun _ =>
      if req.readonly then
        orInternalNode (.call (.mount "" req.targetPath ""
          (bindMountFlag ||| bindRemountFlag ||| bindReadOnlyFlag)) .ret)
          ("remount " ++ req.targetPath ++ " read-only: ")
      else .ret (.ok ())

def nodeUnpublishVolume (volumeId targetPath : String) : NodeM (Except Status Unit) :=
  if volumeId = "" then .ret (invalidArgument "volume_id is required")
  else if targetPath = "" then .ret (invalidArgument "target_path is required")
  else
    (orInternalNode (isMountPoint targetPath) "check target path: ").andThen fun mounted =>
    if mounted then
      orInternalNode (.call (.unmount targetPath) .ret) ("unmount " ++ targetPath ++ ": ")
    else .ret (.ok ())

def nodeExpandVolume (volumeId volumePath : String) : NodeM (Except Status Unit) :=
  if volumeId = "" then .ret (invalidArgument "volume_id is required")
  else if volumePath = "" then .ret (invalidArgument "volume_path is required")
  else
    match decodeVolumeID volumeId with
    | .error err => .ret (invalidArgument err)
    | .ok cfg =>
      (orInternalNode (rescan cfg) "").andThen fun _ =>
      (orInternalNode (.call (.evalSymlinks (devicePath cfg)) .ret)
        ("resolve device for volume " ++ volumeId ++ ": ")).andThen fun device =>
      orInternalNode (growFilesystem device volumePath) ""

def nodeGetVolumeStats (volumeId volumePath : String) : NodeM (Except Status VolumeStats) :=
  if volumeId = "" then .ret (invalidArgument "volume_id is required")
  else if volumePath = "" then .ret (invalidArgument "volume_path is required")
  else
    (orInternalNode (isMountPoint volumePath) "check volume path: ").andThen fun mounted =>
    if mounted = false then
      .ret (notFound ("volume path " ++ volumePath ++ " is not a mounted volume"))
    else orInternalNode (.call (.statfs volumePath) .ret) ("statfs " ++ volumePath ++ ": ")

end NodeServer

inductive NodeCall where
  | stage (req : NodeStageVolumeRequest)
  | unstage (volumeId stagingTargetPath : String)
  | publish (req : NodePublishVolumeRequest)
  | unpublish (volumeId targetPath : String)
  | expand (volumeId volumePath : String)
  | getStats (volumeId volumePath : String)
  deriving DecidableEq

namespace NodeCall

def Res : NodeCall → Type
  | getStats _ _ => Except Status VolumeStats
  | stage _ | unstage _ _ | publish _ | unpublish _ _ | expand _ _ => Except Status Unit

def succeeded : (c : NodeCall) → c.Res → Bool
  | .stage _, .ok _ | .unstage _ _, .ok _ | .publish _, .ok _ | .unpublish _ _, .ok _
  | .expand _ _, .ok _ | .getStats _ _, .ok _ => true
  | _, _ => false

def code (s : NodeServer) : (c : NodeCall) → NodeM c.Res
  | stage req => s.nodeStageVolume req
  | unstage volumeId path => NodeServer.nodeUnstageVolume volumeId path
  | publish req => NodeServer.nodePublishVolume req
  | unpublish volumeId path => NodeServer.nodeUnpublishVolume volumeId path
  | expand volumeId path => NodeServer.nodeExpandVolume volumeId path
  | getStats volumeId path => NodeServer.nodeGetVolumeStats volumeId path

end NodeCall

/-!
## The node

The mounts and the iSCSI sessions of a node, and what the calls of the plugin do to them. `iscsiadm`
answers that a session is there already, or is not there, only when that is so. Symbolic links are
left out.
-/

open GoPath

structure Mount where
  source : String
  target : String
  readonly : Bool
  deriving DecidableEq

structure NodeState where
  /-- The newest first. -/
  mounts : List Mount
  /-- Portal and target of every session that is logged in. -/
  sessions : List (String × String)

def mangle : String :=
  String.ofList (path.toList.flatMap fun
    | ' ' => "\\040".toList
    | '\t' => "\\011".toList
    | '\n' => "\\012".toList
    | '\\' => "\\134".toList
    | c => [c])

/-- A line of `mountinfo`. Only the mount point is read; the other fields are those of some
mount. -/
def mountLine (m : Mount) : String :=
  "36 25 8:16 / " ++ mangle m.target ++ (if m.readonly then " ro" else " rw") ++
    ",relatime shared:1 - ext4 " ++ mangle m.source ++ " rw"

namespace NodeState

variable (w : NodeState)

def mountinfo : List String := w.mounts.reverse.map mountLine

def topAt (path : String) : Option Mount := w.mounts.find? (·.target = clean path)

def readonlyAt (path : String) : Bool := (w.topAt path).any (·.readonly)

def remountFirst (target : String) : List Mount → List Mount
  | [] => []
  | m :: ms =>
    if m.target = target then { m with readonly := true } :: ms else m :: remountFirst target ms

def mounted (source target : String) (flags : Nat) : List NodeState :=
  if flags &&& bindRemountFlag ≠ 0 then
    if (w.topAt target).isNone then []
    else if flags &&& bindReadOnlyFlag ≠ 0 then
      [{ w with mounts := remountFirst (clean target) w.mounts }]
    else [w]
  -- a bind mount takes over the flags of its source and ignores its own
  else
    let readonly := if flags &&& bindMountFlag ≠ 0 then w.readonlyAt source
      else decide (flags &&& bindReadOnlyFlag ≠ 0)
    [{ w with mounts := ⟨source, clean target, readonly⟩ :: w.mounts }]

def ran : NodeCommand → Except RunError String → List NodeState
  | .login iqn portal, .ok _ =>
    if (portal, iqn) ∈ w.sessions then [w]
    else [{ w with sessions := (portal, iqn) :: w.sessions }]
  | .login iqn portal, .error err =>
    if contains err.text "already" ∧ (portal, iqn) ∉ w.sessions then [] else [w]
  | .logout iqn portal, .ok _ =>
    [{ w with sessions := w.sessions.filter (· ≠ (portal, iqn)) }]
  | .logout iqn portal, .error err =>
    if contains err.text "No matching sessions" ∧ (portal, iqn) ∈ w.sessions then [] else [w]
  | _, _ => [w]

def outcomes : (e : NodeOp) → e.Ans → List NodeState
  | .readMountinfo, .ok lines => if lines = w.mountinfo then [w] else []
  | .mount source target _ flags, .ok () => w.mounted source target flags
  | .unmount target, .ok () =>
    if (w.topAt target).isNone then []
    else [{ w with mounts := w.mounts.eraseP (·.target = clean target) }]
  | .run command, a => w.ran command a
  | .readMountinfo, .error _ | .mount _ _ _ _, .error _ | .unmount _, .error _ => [w]
  | .mkdirAll _, _ | .evalSymlinks _, _ | .wait, _ | .statfs _, _ => [w]

end NodeState

abbrev nodeService : Service NodeOp.Ans NodeState := served NodeState.outcomes

/-- The calls of the plugin one after the other. What others do to the mounts and sessions in
between is left open. -/
abbrev NodeSession (s : NodeServer) :=
  Session nodeService (fun _ _ => True) (NodeCall.code s)

variable {w w' : NodeState}

theorem find_remountFirst (target : String) (ms : List Mount) :
    (NodeState.remountFirst target ms).find? (·.target = target) =
      (ms.find? (·.target = target)).map fun m => { m with readonly := true } := by
  induction ms with
  | nil => rfl
  | cons m ms ih =>
    by_cases hm : m.target = target
    · simp [NodeState.remountFirst, hm]
    · simpa [NodeState.remountFirst, hm] using ih

theorem isMountPoint_ensures (path : String) (what : String) :
    (orInternalNode (isMountPoint path) what).Ensures nodeService (fun _ => True)
      (fun w' already => w' = w ∧ already = isMountPointFromReader w.mountinfo path) w := by
  refine .call trivial fun a w' h => ?_
  match a with
  | .error err => exact .error trivial _
  | .ok lines =>
    obtain ⟨hlines, h⟩ := List.mem_ite_nil_right.mp h
    obtain rfl := List.mem_singleton.mp h
    exact .ok trivial ⟨rfl, by rw [hlines]⟩

theorem mkdirAll_ensures (path what : String) :
    (orInternalNode (.call (.mkdirAll path) .ret) what).Ensures nodeService (fun _ => True)
      (fun w' _ => w' = w) w := by
  refine .call trivial fun a w' h => ?_
  obtain rfl := List.mem_singleton.mp h
  match a with
  | .error err => exact .error trivial _
  | .ok () => exact .ok trivial rfl

theorem mount_ensures (source target fsType : String) (flags : Nat) (what : String) :
    (orInternalNode (.call (.mount source target fsType flags) .ret) what).Ensures nodeService
      (fun _ => True) (fun w' _ => w' ∈ w.mounted source target flags) w := by
  refine .call trivial fun a w' h => ?_
  match a with
  | .error err => exact .error trivial _
  | .ok () => exact .ok trivial h

/-! ## Scripts -/

def serveNode : Oracle NodeOp.Ans NodeState := fun w e =>
  match e with
  | .readMountinfo => (.ok w.mountinfo, 0)
  | .mount _ _ _ _ | .unmount _ | .mkdirAll _ | .wait => (.ok (), 0)
  | .evalSymlinks _ => (.ok "/dev/sdb", 0)
  | .statfs _ => (.ok ⟨0, 0, 0, 0, 0, 0⟩, 0)
  | .run _ => (.ok "", 0)

end Kairon.Csi
