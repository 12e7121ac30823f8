import Kairon.Model.Machine

/-!
# Snapshots of Machines

`MachineSnapshot` and the CSI `VolumeSnapshot` of `internal/model/types.go`, the Machine as far as
the snapshot passes read it, and the quiesce annotations of `internal/model/quiesce.go`.
-/

namespace Kairon.Model

open Infra GoJson GoText

def annotationQuiesceRequest : String := "kairon.zyvor.dev/quiesce-request"

def annotationQuiesceStatus : String := "kairon.zyvor.dev/quiesce-status"

def finalizerSnapshotQuiesce : String := "kairon.zyvor.dev/snapshot-quiesce"

def finalizerAtlasSnapshots : String := "kairon.zyvor.dev/atlas-snapshots"

/-! ## Quiesce references -/

/-- `time.RFC3339`, as the library writes and reads it. No time has an `@` in it. -/
structure TimeLayout where
  format : Time → String
  parse : String → Option Time
  parse_eq_none : ∀ text : String, '@' ∈ text.toList → parse text = none

variable (layout : TimeLayout) (name : String)

def formatQuiesceRef (at' : Time) : String := name ++ "@" ++ layout.format at'

def parseQuiesceRef (v : String) : Option (String × Time) :=
  match cut v '@' with
  | none => none
  | some (name, ts) => (layout.parse ts).map fun t => (name, t)

theorem name_of_parseQuiesceRef {layout : TimeLayout} {name name' : String} {t t' : Time}
    (h : parseQuiesceRef layout (formatQuiesceRef layout name t) = some (name', t')) :
    name' = name := by
  unfold parseQuiesceRef at h
  split at h
  · cases h
  · next front ts hcut =>
    obtain ⟨t'', hts, heq⟩ := Option.map_eq_some_iff.mp h
    cases heq
    have hat : '@' ∉ ts.toList := fun hmem => by simp [layout.parse_eq_none ts hmem] at hts
    obtain ⟨heq, hfront⟩ := cut_eq_some hcut
    have hlist : name.toList ++ '@' :: (layout.format t).toList =
        name'.toList ++ '@' :: ts.toList := by
      simpa [formatQuiesceRef] using heq
    -- the two separators are the same one: neither part of the parsed text has another
    rcases List.append_eq_append_iff.mp hlist with ⟨x, hx, hrest⟩ | ⟨x, hx, hrest⟩
    · cases x with
      | nil => exact String.toList_inj.mp (by simpa using hx)
      | cons y x =>
        rw [List.cons_append] at hrest
        exact absurd (hx ▸ by simp [← (List.cons.inj hrest).1]) hfront
    · cases x with
      | nil => exact String.toList_inj.mp (by simpa using hx.symm)
      | cons y x =>
        rw [List.cons_append] at hrest
        exact absurd (by simp [(List.cons.inj hrest).2]) hat

/-! ## Machines -/

structure AtlasVolumeState where
  phase : String
  volumeID : String
  deriving DecidableEq

def atlasPhaseReady : String := "Ready"

structure MachineVolume where
  name : String
  claimName : String
  atlas : Bool
  deriving DecidableEq

/-- A Machine as the snapshot passes read it. `atlasVolumes` is what `AtlasVolumeStates` decodes
from its annotation. -/
structure GuestMachine where
  metadata : ObjectMeta
  nodeName : String
  guestAgentEnabled : Bool
  volumes : List MachineVolume
  atlasVolumes : List (String × AtlasVolumeState)
  deriving DecidableEq

variable (m : GuestMachine)

namespace GuestMachine

def key : ObjectKey := m.metadata.key

def atlasState (volume : String) : AtlasVolumeState := (m.atlasVolumes.lookup volume).getD ⟨"", ""⟩

def annotate (name : String) (value : Option String) : GuestMachine :=
  { m with
    metadata := { m.metadata with annotations := m.metadata.annotations.patchKey name value } }

@[simp] theorem key_annotate (name : String) (value : Option String) : (m.annotate name value).key =
    m.key := rfl

end GuestMachine

/-! ## Snapshots -/

structure MachineSnapshotSpec where
  machineName : String
  volumeSnapshotClassName : String
  volumeNames : List String
  deriving DecidableEq

structure VolumeSnapshotReference where
  volumeName : String
  volumeSnapshotName : String
  readyToUse : Bool := false
  atlasSnapshotID : String := ""
  atlasJobID : String := ""
  deriving DecidableEq

structure MachineSnapshotStatus where
  phase : String
  message : String
  readyToUse : Bool
  volumeSnapshots : List VolumeSnapshotReference
  deriving DecidableEq

structure MachineSnapshot where
  metadata : ObjectMeta
  spec : MachineSnapshotSpec
  status : MachineSnapshotStatus
  deriving DecidableEq

namespace MachineSnapshot

def key (s : MachineSnapshot) : ObjectKey := s.metadata.key

def target (s : MachineSnapshot) : ObjectKey := ⟨s.key.namespace, s.spec.machineName⟩

def title (s : MachineSnapshot) : String := s.key.namespace ++ "/" ++ s.metadata.name

def patchFinalizers (s : MachineSnapshot) (finalizers : List String) : MachineSnapshot :=
  { s with metadata := { s.metadata with finalizers := finalizers } }

def patchStatus (s : MachineSnapshot) (new : MachineSnapshotStatus) : MachineSnapshot :=
  { s with
    status :=
      { phase := patchOmit s.status.phase new.phase
        message := new.message
        readyToUse := patchOmit s.status.readyToUse new.readyToUse
        volumeSnapshots :=
          if new.volumeSnapshots = [] then s.status.volumeSnapshots else new.volumeSnapshots } }

@[simp] theorem key_patchFinalizers (s : MachineSnapshot) (fs : List String) :
    (s.patchFinalizers fs).key = s.key := rfl

@[simp] theorem key_patchStatus (s : MachineSnapshot) (new : MachineSnapshotStatus) :
    (s.patchStatus new).key = s.key := rfl

end MachineSnapshot

structure VolumeSnapshot where
  metadata : ObjectMeta
  persistentVolumeClaimName : Option String
  volumeSnapshotClassName : Option String
  readyToUse : Option Bool
  errorMessage : Option String
  deriving DecidableEq

def VolumeSnapshot.key (vs : VolumeSnapshot) : ObjectKey := vs.metadata.key

/-! ## Names -/

def dashRuns : List Char → Bool → List Char
  | [], _ => []
  | c :: cs, inRun =>
    if ('a' ≤ c ∧ c ≤ 'z') ∨ ('0' ≤ c ∧ c ≤ '9') ∨ c = '-' then c :: dashRuns cs false
    else if inRun then dashRuns cs true else '-' :: dashRuns cs true

def dnsLabel (limit : Nat) (text : String) : List Char :=
  let trimRight := fun cs : List Char => (cs.reverse.dropWhile (· = '-')).reverse
  let name := trimRight ((dashRuns (toLower text).toList false).dropWhile (· = '-'))
  if name.length > limit then trimRight (name.take limit) else name

def snapshotVolumeName (snapshot volume : String) : String :=
  let name := dnsLabel 63 (snapshot ++ "-" ++ volume)
  if name = [] then "kairon-snapshot" else String.ofList name

def atlasVolumeName (digest : String → String) (ns machine volume : String) : String :=
  String.ofList (dnsLabel 52 (machine ++ "-" ++ volume)) ++ "-" ++
    digest (ns ++ "/" ++ machine ++ "/" ++ volume)

/-!
## Boot volumes in Ceph

`resolveAtlasRBDBoot` of `internal/agent/storage.go`. What `AtlasVolumeStates` decodes from the
annotation, which anyone who may edit the Machine can write, is any list.
-/

structure AtlasVolumeSource where
  mode : String
  pool : String

def AtlasVolumeSource.effectiveMode : Option AtlasVolumeSource → String
  | some s => if s.mode = "" then "pvc" else s.mode
  | none => "pvc"

structure RbdVolumeState where
  phase : String
  nativeID : String

structure RbdMachine where
  metadata : ObjectMeta
  volumes : List (String × Option AtlasVolumeSource)
  states : List (String × RbdVolumeState)

def parseRBDNativeID (id : String) : Option (String × String) := do
  let (pool, image) ← cut (← cutPrefix id "rbd:") '/'
  if pool ≠ "" ∧ image ≠ "" ∧ '/' ∉ image.toList then some (pool, image) else none

/-- The reference is to an image of a pool of `pools`, if the first volume is one in Ceph. -/
def resolveAtlasRBDBoot (digest : String → String) (node : String) (pools : List String)
    (m : RbdMachine) : Except String (Option String) :=
  match m.volumes with
  | [] => .ok none
  | (name, atlas) :: _ =>
    let st := (m.states.lookup name).getD ⟨"", ""⟩
    let want := atlasVolumeName digest m.metadata.key.namespace m.metadata.name name
    let fail := fun text : String => .error ("spec.volumes[0]: " ++ text)
    if AtlasVolumeSource.effectiveMode atlas ≠ "rbd" then .ok none
    else if pools = [] then
      fail ("atlas.mode=rbd is disabled on node " ++ node ++ " (set --atlas-rbd-pools)")
    else if st.phase ≠ atlasPhaseReady then
      fail ("atlas volume " ++ quote name ++ " is not Ready (phase " ++ quote st.phase ++ ")")
    else
      match parseRBDNativeID st.nativeID with
      | none => fail ("atlas volume " ++ quote name ++ " has no rbd native id")
      | some (pool, image) =>
        if image ≠ want then
          fail ("rbd image " ++ quote image ++ " does not belong to this Machine (want " ++
            quote want ++ ")")
        else if !pools.contains pool then
          fail ("rbd pool " ++ quote pool ++ " is not in this node's --atlas-rbd-pools")
        else if atlas.any fun s => s.pool ≠ "" && s.pool ≠ pool then
          fail ("rbd pool " ++ quote pool ++ " does not match atlas.pool " ++
            quote ((atlas.map (·.pool)).getD ""))
        else .ok (some (pool ++ "/" ++ image))

/-!
## Snapshot schedules

`internal/model/machinesnapshotschedule.go`, and what a tick of
`internal/controller/machinesnapshotschedule.go` decides on a schedule. A time is the number of
nanoseconds since the zero `time.Time`.
-/

def second : Int := 1000000000

def day : Int := 86400 * second

def unixEpoch : Int := 62135596800 * second

/-- `time.Duration(n) * time.Second`, which wraps around. -/
def seconds (n : Int) : Int := (n * second).bmod (2 ^ 64)

/-- `t.Sub(u)`, which stops at the ends of the type. -/
def timeSub (t u : Int) : Int := max (-2 ^ 63) (min (2 ^ 63 - 1) (t - u))

structure MachineSnapshotScheduleSpec where
  intervalSeconds : Int
  suspend : Bool
  startingDeadlineSeconds : Int
  dailyAt : String
  jitterSeconds : Int
  maxAgeSeconds : Int

structure MachineSnapshotSchedule where
  metadata : ObjectMeta
  creationTimestamp : Int
  spec : MachineSnapshotScheduleSpec
  lastRunTime : Int
  lastHandledTriggerTime : String

def parseDailyAt (v : String) : Except String Int :=
  let bad := .error ("dailyAt " ++ quote v ++ ": want HH:MM (24h, UTC)")
  match v.toList with
  | [h, h', ':', m, m'] =>
    let number := fun a b : Char => 10 * (a.toNat - 48) + (b.toNat - 48)
    if [h, h', m, m'].all Char.isDigit ∧ number h h' < 24 ∧ number m m' < 60 then
      .ok ((number h h' * 3600 + number m m' * 60 : Nat) * second)
    else bad
  | _ => bad

/-- The loops of `nextSlot` over the days. -/
def laterSlot (slot ref : Int) : Int :=
  if slot ≤ ref then laterSlot (slot + day) ref else slot
termination_by (ref + 1 - slot).toNat
decreasing_by
  simp only [day, second]
  omega

@[inherit_doc laterSlot]
def earlierSlot (slot ref : Int) : Int :=
  if slot - day > ref then earlierSlot (slot - day) ref else slot
termination_by (slot - ref).toNat
decreasing_by
  simp only [day, second] at *
  omega

namespace MachineSnapshotScheduleSpec

variable (s : MachineSnapshotScheduleSpec)

def validate : GoErr := do
  if s.dailyAt ≠ "" then
    if s.intervalSeconds ≠ 0 then throw "set either intervalSeconds or dailyAt, not both"
    let _ ← parseDailyAt s.dailyAt
    if 86400 ≤ s.jitterSeconds then throw "jitterSeconds must be below 86400 with dailyAt"
  else
    if s.intervalSeconds < 60 then throw "intervalSeconds must be at least 60 (or set dailyAt)"
    if s.intervalSeconds ≤ s.jitterSeconds then
      throw "jitterSeconds must be below intervalSeconds"
  if s.jitterSeconds < 0 ∨ s.maxAgeSeconds < 0 then
    throw "jitterSeconds and maxAgeSeconds must not be negative"

def slotted : Bool := s.dailyAt ≠ "" || 0 < s.jitterSeconds

def nextSlot (ref offset : Int) : Int :=
  if s.dailyAt ≠ "" then
    match parseDailyAt s.dailyAt with
    | .error _ => 0
    | .ok at' => earlierSlot (laterSlot (ref - ref % day + (at' + offset)) ref) ref
  else
    let interval := seconds s.intervalSeconds
    if interval ≤ 0 then 0
    else
      let base := unixEpoch + offset
      let k := if ref < base then 0 else timeSub ref base / interval + 1
      base + (k * interval).bmod (2 ^ 64)

end MachineSnapshotScheduleSpec

def fnv32a (text : String) : UInt32 :=
  text.toUTF8.toList.foldl (fun h b => (h ^^^ b.toUInt32) * 16777619) 2166136261

def triggerNowRequested (annotationValue lastHandled : String) : Bool :=
  annotationValue ≠ "" && annotationValue ≠ lastHandled

inductive ScheduleAction
  | invalid (message : String)
  | crash
  | rest
  | skip (message : String)
  | run

namespace MachineSnapshotSchedule

variable (s : MachineSnapshotSchedule)

/-- No offset where the remainder by zero panics: `jitterSeconds` is cut to 32 bits. -/
def jitterOffset : Option Int :=
  if s.spec.jitterSeconds ≤ 0 then some 0
  else
    let sum := fnv32a (s.metadata.namespace ++ "/" ++ s.metadata.name)
    let jitter := s.spec.jitterSeconds.toNat % 2 ^ 32
    if jitter = 0 then none else some ((sum.toNat % jitter : Nat) * second)

def dueAt (lastRun : Int) : Option Int :=
  if !s.spec.slotted then
    some (if lastRun = 0 then 0 else lastRun + seconds s.spec.intervalSeconds)
  else
    let ref := if lastRun = 0 then s.creationTimestamp else lastRun
    if ref = 0 then some 0 else s.jitterOffset.map (s.spec.nextSlot ref)

def due (lastRun now : Int) : Option Bool :=
  if s.spec.suspend then some false
  else if !s.spec.slotted then
    some (lastRun = 0 || seconds s.spec.intervalSeconds ≤ timeSub now lastRun)
  else (s.dueAt lastRun).map (· ≤ now)

def deadlineExceeded (lastRun now : Int) : Option Bool :=
  if s.spec.startingDeadlineSeconds ≤ 0 ∨ lastRun = 0 then some false
  else (s.dueAt lastRun).map (seconds s.spec.startingDeadlineSeconds < timeSub now ·)

def manual : Bool :=
  triggerNowRequested (s.metadata.annotations.get "kairon.zyvor.dev/trigger-now")
    s.lastHandledTriggerTime

/-- One schedule's part of `reconcileMachineSnapshotSchedules`. -/
def reconcile (now : Int) : ScheduleAction :=
  match s.spec.validate with
  | .error e => .invalid ("invalid spec: " ++ e)
  | .ok () =>
    if s.manual then .run
    else
      match s.due s.lastRunTime now, s.deadlineExceeded s.lastRunTime now with
      | some false, _ => .rest
      | some true, some true =>
        .skip ("skipped: this run was more than startingDeadlineSeconds (" ++
          toString s.spec.startingDeadlineSeconds ++ "s) late")
      | some true, some false => .run
      | _, _ => .crash

end MachineSnapshotSchedule

end Kairon.Model
