import Kairon.Csi.Controller
import Kairon.Infra.Session

/-!
# The controller's node

The files of the volume directory, the LIO backstores on them, and what the commands of the
controller do to both. Every command may fail, and a copy after any part of it. Targets, LUNs and
portals are left out: nothing reads them back. `targetcli` answers that a thing exists already, or
does not exist, only when that is so.
-/

namespace Kairon.Csi

open Infra GoText GoPath

/-- A file. `copied` is the file it was last copied from, with what that held at the time. -/
structure File where
  data : List UInt8
  copied : Option (String × List UInt8) := none

structure Storage where
  files : String → Option File
  /-- The storage objects of LIO by name, with their files. -/
  backstores : List (String × String)

def resize (data : List UInt8) (size : Nat) : List UInt8 :=
  data.take size ++ List.replicate (size - data.length) 0

namespace Storage

def put (w : Storage) (path : String) (f : Option File) : Storage :=
  { w with files := Function.update w.files path f }

def touch (w : Storage) (path : String) (sizeBytes : Int) : Storage :=
  if (w.files path).isSome then w
  else w.put path (some { data := List.replicate sizeBytes.toNat 0 })

def occupied (w : Storage) (name path : String) : Bool :=
  w.backstores.any fun b => b.1 = name ∨ b.2 = path

def ran (w : Storage) : Command → GoErr → List Storage
  | .createBackstore name path sizeBytes, .ok () =>
    if w.occupied name path then []
    else
      let w := w.touch path sizeBytes
      [{ w with backstores := (name, path) :: w.backstores }]
  | .createBackstore name path sizeBytes, .error err =>
    if contains err "already exists" then if w.occupied name path then [w] else []
    else [w, w.touch path sizeBytes]
  | .deleteBackstore name, .ok () => [{ w with backstores := w.backstores.filter (·.1 ≠ name) }]
  | .deleteBackstore name, .error err =>
    if contains err "No storage object named" ∧ w.backstores.any (·.1 = name) then [] else [w]
  | .resizeBackstore name sizeBytes, .ok () =>
    match w.backstores.lookup name with
    | none => []
    | some path =>
      match w.files path with
      | none => []
      | some f => [w.put path (some { f with data := resize f.data sizeBytes.toNat })]
  | .copy src dst, .ok () =>
    match w.files src with
    | none => []
    | some f => [w.put dst (some { data := f.data, copied := some (src, f.data) })]
  | .copy src dst, .error _ =>
    match w.files src with
    | none => [w]
    | some f => w :: (List.range (f.data.length + 1)).map fun k =>
        w.put dst (some { data := f.data.take k, copied := some (src, f.data) })
  | _, _ => [w]

def outcomes (w : Storage) : (e : ControllerOp) → e.Ans → List Storage
  | .stat path, .ok info => if (w.files path).any (·.data.length = info.size) then [w] else []
  | .stat path, .error err => if w.files path = none ∧ err.notExist then [w] else []
  | .remove path, .ok () => if (w.files path).isSome then [w.put path none] else []
  | .remove path, .error err => if (w.files path).isSome ∧ err.notExist then [] else [w]
  | .run command, a => w.ran command a
  | .mkdirAll _, _ | .now, _ => [w]

def Written (w w' : Storage) : Prop :=
  ∃ b ∈ w.backstores, ∃ f data, w.files b.2 = some f ∧ data.length = f.data.length ∧
    w' = w.put b.2 (some { f with data })

end Storage

abbrev storageService : Service ControllerOp.Ans Storage := served Storage.outcomes

abbrev ControllerSession (s : ControllerServer) :=
  Session storageService Storage.Written (ControllerCall.code s)

variable {s : ControllerServer} {w w' : Storage} {name path p p' : String}

namespace Storage

@[simp] theorem files_put_self (w : Storage) (path : String) (f : Option File) :
    (w.put path f).files path = f := Function.update_self ..

theorem files_put_of_ne (w : Storage) {path p : String} (h : p ≠ path) (f : Option File) :
    (w.put path f).files p = w.files p := Function.update_of_ne h ..

@[simp] theorem backstores_put (w : Storage) (path : String) (f : Option File) :
    (w.put path f).backstores = w.backstores := rfl

@[simp] theorem backstores_touch (w : Storage) (path : String) (sizeBytes : Int) :
    (w.touch path sizeBytes).backstores = w.backstores := by
  unfold touch
  split <;> rfl

theorem touch_of_some {f : File} (h : w.files path = some f) (sizeBytes : Int) :
    w.touch path sizeBytes = w := by
  rw [touch, h]
  rfl

theorem touch_of_none (h : w.files path = none) (sizeBytes : Int) :
    w.touch path sizeBytes = w.put path (some { data := List.replicate sizeBytes.toNat 0 }) := by
  rw [touch, h]
  rfl

theorem files_touch_of_ne (h : p ≠ path) (sizeBytes : Int) :
    (w.touch path sizeBytes).files p = w.files p := by
  unfold touch
  split
  · rfl
  · exact w.files_put_of_ne h _

end Storage

/-! ## Scripts -/

def serve : Oracle ControllerOp.Ans Storage := fun w e =>
  match e with
  | .stat path =>
    match w.files path with
    | some f => (.ok ⟨f.data.length, 0⟩, 0)
    | none => (.error ⟨true, "no such file or directory"⟩, 0)
  | .remove path =>
    if (w.files path).isSome then (.ok (), 0)
    else (.error ⟨true, "no such file or directory"⟩, 0)
  | .run (.createBackstore name path _) =>
    if w.occupied name path then (.error "already exists", 0) else (.ok (), 0)
  | .run _ => (.ok (), 0)
  | .mkdirAll _ => (.ok (), 0)
  | .now => ((0 : Int), 0)

def serveUntil (k : Nat) : Oracle ControllerOp.Ans Storage := fun w e =>
  match e with
  | .run (.copy _ _) => (.error "no space left on device", k + 1)
  | e => serve w e

def someServer : ControllerServer where
  portal := "192.168.1.50:3260"
  volumeDir := "/var/lib/kairon/csi-volumes"
  splitHostPort := fun _ => .ok ("192.168.1.50", "3260")
  volumeDir_ne := by decide

def noVolumes : Storage := ⟨fun _ => none, []⟩

def smallVolume (name : String) (size : Int) (source : Option ContentSource := none) :
    ControllerCall :=
  .createVolume
    { name, volumeCapabilities := [⟨some "ext4"⟩], requiredBytes := some size,
      volumeContentSource := source }

def someVolumeId (name : String) : String :=
  encodeVolumeID { portal := someServer.portal, iqn := iqnPrefix ++ name, lun := defaultLUN }

/-!
## What the calls of the controller do

For each call, what it has done to the files when it has succeeded. Whatever happens, a backstore
serves the file of a volume with its own name.
-/

open List

variable {s : ControllerServer} {w w' : Storage} {name src dst : String}
  {Q : Storage → Unit → Prop} {command : Command} {harmless : String → Bool} {what : String}

def Homed (s : ControllerServer) (w : Storage) : Prop :=
  ∀ b ∈ w.backstores, volumeNamePattern b.1 = true ∧ b.2 = s.backingFilePath b.1

theorem Homed.of_subset (hw : Homed s w) (h : w'.backstores ⊆ w.backstores) : Homed s w' :=
  fun b hb => hw b (h hb)

def Command.Homed (s : ControllerServer) : Command → Prop
  | createBackstore name path _ => volumeNamePattern name = true ∧ path = s.backingFilePath name
  | _ => True

theorem homed_ran (hw : Homed s w) (hc : command.Homed s) {a : GoErr}
    (h : w' ∈ w.ran command a) : Homed s w' := by
  have same : w'.backstores = w.backstores → Homed s w' := fun he => hw.of_subset (by rw [he]; simp)
  cases command with
  | createBackstore name path sizeBytes =>
    cases a with
    | ok u =>
      obtain ⟨_, h⟩ := mem_ite_nil_left.mp h
      obtain rfl := mem_singleton.mp h
      intro b hb
      rcases mem_cons.mp hb with rfl | hb
      · exact hc
      · exact hw b (by simpa using hb)
    | error err =>
      simp only [Storage.ran] at h
      split at h
      · split at h
        · obtain rfl := mem_singleton.mp h
          exact hw
        · cases h
      · rcases mem_pair.mp h with rfl | rfl
        · exact hw
        · exact same (by simp)
  | deleteBackstore name =>
    cases a with
    | ok u =>
      obtain rfl := mem_singleton.mp h
      exact hw.of_subset (filter_subset_self _)
    | error err =>
      obtain ⟨_, h⟩ := mem_ite_nil_left.mp h
      obtain rfl := mem_singleton.mp h
      exact hw
  | resizeBackstore name sizeBytes =>
    cases a with
    | ok u =>
      simp only [Storage.ran] at h
      split at h
      · cases h
      · split at h
        · cases h
        · obtain rfl := mem_singleton.mp h
          exact same rfl
    | error err =>
      obtain rfl := mem_singleton.mp h
      exact hw
  | copy src dst =>
    cases a with
    | ok u =>
      simp only [Storage.ran] at h
      split at h
      · cases h
      · obtain rfl := mem_singleton.mp h
        exact same rfl
    | error err =>
      simp only [Storage.ran] at h
      split at h
      · obtain rfl := mem_singleton.mp h
        exact hw
      · rcases mem_cons.mp h with rfl | h
        · exact hw
        · obtain ⟨k, -, rfl⟩ := mem_map.mp h
          exact same rfl
  | _ =>
    obtain rfl := mem_singleton.mp h
    exact hw

/-! ## Commands -/

theorem attempt_ensures (hw : Homed s w) (hc : command.Homed s)
    (hok : ∀ w' ∈ w.ran command (.ok ()), Q w' ())
    (hharmless : ∀ err, harmless err = true → ∀ w' ∈ w.ran command (.error err), Q w' ()) :
    (attempt command harmless what).Ensures storageService (Homed s) Q w := by
  refine .call hw fun a w' h => ?_
  have hw' := homed_ran hw hc h
  match a with
  | .ok () => exact .ok hw' (hok w' h)
  | .error err =>
    show Prog.Ensures _ _ _ _ (.ret (if harmless err then _ else _))
    split
    · next he => exact .ok hw' (hharmless err he w' h)
    · exact .error hw' _

theorem orInternal_ensures {p : ControllerM GoErr} (hp : p.Ensures storageService (Homed s) Q w) :
    (orInternal p).Ensures storageService (Homed s) Q w := by
  refine Prog.Keeps.bind hp fun w' r hw' hq => ?_
  match r with
  | .ok () => exact Prog.Ensures.ok hw' (hq () rfl)
  | .error err => exact Prog.Ensures.error hw' _

def Command.idle : Command → Bool
  | createTarget _ | deleteTarget _ | createLUN _ _ | createPortal _ _ _ | setAttributes _ _
  | setAuth _ _ _ => true
  | _ => false

theorem attempt_idle (hw : Homed s w) (hc : command.idle = true) :
    (attempt command harmless what).Ensures storageService (Homed s) (fun w' _ => w' = w) w := by
  have hran : ∀ a, w.ran command a = [w] := by
    intro a
    cases command <;> first | rfl | cases hc
  refine attempt_ensures hw ?_ (fun w' h => ?_) fun err _ w' h => ?_
  · cases command <;> first | exact trivial | cases hc
  · simpa [hran] using h
  · simpa [hran] using h

def ensured (s : ControllerServer) (name : String) (sizeBytes : Int) (w : Storage) : Option File :=
  match w.files (s.backingFilePath name) with
  | some g => some g
  | none =>
    if w.backstores.any (·.1 = name) then none
    else some { data := List.replicate sizeBytes.toNat 0 }

theorem ensureBackstore_ensures (hw : Homed s w) (hn : volumeNamePattern name = true)
    (sizeBytes : Int) :
    (orInternal (ensureBackstore name (s.backingFilePath name) sizeBytes)).Ensures storageService
      (Homed s) (fun w' _ => (∀ p, p ≠ s.backingFilePath name → w'.files p = w.files p) ∧
        w'.files (s.backingFilePath name) = ensured s name sizeBytes w) w := by
  -- a backstore on the file of the volume has its name
  have hoccupied : w.occupied name (s.backingFilePath name) = w.backstores.any (·.1 = name) := by
    rw [Bool.eq_iff_iff]
    simp only [Storage.occupied, any_eq_true, decide_eq_true_eq]
    constructor
    · rintro ⟨b, hb, h | h⟩
      · exact ⟨b, hb, h⟩
      · obtain ⟨hname, hpath⟩ := hw b hb
        exact ⟨b, hb, ControllerServer.backingFilePath_inj hname hn (hpath ▸ h)⟩
    · rintro ⟨b, hb, h⟩
      exact ⟨b, hb, .inl h⟩
  refine orInternal_ensures (attempt_ensures hw ⟨hn, rfl⟩ (fun w' h => ?_) fun err herr w' h => ?_)
  · obtain ⟨hfree, h⟩ := mem_ite_nil_left.mp h
    obtain rfl := mem_singleton.mp h
    refine ⟨fun p hp => Storage.files_touch_of_ne hp _, ?_⟩
    rw [hoccupied] at hfree
    cases hf : w.files (s.backingFilePath name) with
    | some g => simp [ensured, Storage.touch_of_some hf, hf]
    | none => simp [ensured, Storage.touch_of_none hf, hf, hfree]
  · simp only [Storage.ran, herr, if_true] at h
    obtain ⟨hbusy, h⟩ := mem_ite_nil_right.mp h
    obtain rfl := mem_singleton.mp h
    refine ⟨fun _ _ => rfl, ?_⟩
    rw [hoccupied] at hbusy
    cases hf : w'.files (s.backingFilePath name) with
    | some g => simp [ensured, hf]
    | none => simp [ensured, hf, hbusy]

theorem resizeBackstore_ensures (hw : Homed s w) (sizeBytes : Int) :
    (orInternal (resizeBackstore name sizeBytes)).Ensures storageService (Homed s)
      (fun w' _ => ∃ f, w.files (s.backingFilePath name) = some f ∧
        w' = w.put (s.backingFilePath name)
          (some { f with data := resize f.data sizeBytes.toNat })) w := by
  refine orInternal_ensures (attempt_ensures hw trivial (fun w' h => ?_) (by simp))
  simp only [Storage.ran] at h
  split at h
  · cases h
  · next path hlookup =>
    obtain ⟨l₁, l₂, hl, -⟩ := lookup_eq_some_iff.mp hlookup
    obtain rfl : path = s.backingFilePath name := (hw (name, path) (by simp [hl])).2
    split at h
    · cases h
    · next f hf => exact ⟨f, hf, mem_singleton.mp h⟩

theorem copyFile_ensures (hw : Homed s w) :
    (orInternal (copyFile src dst)).Ensures storageService (Homed s)
      (fun w' _ => ∃ f, w.files src = some f ∧
        w' = w.put dst (some { data := f.data, copied := some (src, f.data) })) w := by
  refine orInternal_ensures (attempt_ensures hw trivial (fun w' h => ?_) (by simp))
  simp only [Storage.ran] at h
  split at h
  · cases h
  · next f hf => exact ⟨f, hf, mem_singleton.mp h⟩

theorem stat_ok {path : String} {info : FileInfo}
    (h : storageService w (.stat path) (.ok info) w') :
    w' = w ∧ ∃ f, w.files path = some f ∧ f.data.length = info.size := by
  obtain ⟨hf, h⟩ := mem_ite_nil_right.mp h
  refine ⟨mem_singleton.mp h, ?_⟩
  obtain ⟨f, hf, hsize⟩ := (Option.any_eq_true _ _).mp hf
  exact ⟨f, hf, by simpa using hsize⟩

theorem stat_error {path : String} {err : OSError}
    (h : storageService w (.stat path) (.error err) w') :
    w' = w ∧ w.files path = none ∧ err.notExist = true := by
  obtain ⟨hf, h⟩ := mem_ite_nil_right.mp h
  exact ⟨mem_singleton.mp h, hf⟩

/-! ## `CreateVolume` -/

def restoreSizes (req : CreateVolumeRequest) (f : File) : Int × Int :=
  (max (ControllerServer.requestedSize req) f.data.length, f.data.length)

inductive Restored (s : ControllerServer) (req : CreateVolumeRequest) (w : Storage) :
    Storage → Int × Int → Prop
  | blank (source : ∀ id, req.volumeContentSource ≠ some (.snapshot id)) :
      Restored s req w w (ControllerServer.requestedSize req, 0)
  | retry {id : String} {f g : File} (source : req.volumeContentSource = some (.snapshot id))
      (valid : volumeNamePattern id = true) (snapshot : w.files (s.snapshotFilePath id) = some f)
      (there : w.files (s.backingFilePath req.name) = some g) :
      Restored s req w w (restoreSizes req f)
  | copy {id : String} {f : File} (source : req.volumeContentSource = some (.snapshot id))
      (valid : volumeNamePattern id = true) (snapshot : w.files (s.snapshotFilePath id) = some f)
      (missing : w.files (s.backingFilePath req.name) = none) :
      Restored s req w (w.put (s.backingFilePath req.name)
        (some { data := f.data, copied := some (s.snapshotFilePath id, f.data) }))
        (restoreSizes req f)

theorem restoreSnapshot_ensures (hw : Homed s w) (req : CreateVolumeRequest) :
    (s.restoreSnapshot req).Ensures storageService (Homed s) (Restored s req w) w := by
  rcases hsource : req.volumeContentSource with _ | id | id
  case some.snapshot =>
    simp only [ControllerServer.restoreSnapshot, hsource]
    split
    · exact .error hw _
    next hid =>
    have hid : volumeNamePattern id = true := by simpa using hid
    refine .call hw fun a w₁ h₁ => ?_
    match a with
    | .error err =>
      obtain ⟨rfl, -⟩ := stat_error h₁
      exact .error hw _
    | .ok info =>
      obtain ⟨rfl, f, hf, hsize⟩ := stat_ok h₁
      have hsizes : (if ControllerServer.requestedSize req < (f.data.length : Int)
          then (f.data.length : Int) else ControllerServer.requestedSize req) =
          max (ControllerServer.requestedSize req) f.data.length := by
        omega
      simp only [← hsize, hsizes]
      refine .call hw fun a w₂ h₂ => ?_
      match a with
      | .error ⟨true, _⟩ =>
        obtain ⟨rfl, hmissing, -⟩ := stat_error h₂
        refine (copyFile_ensures hw).andThen fun w₃ _ hw₃ hcopy => ?_
        obtain ⟨f', hf', rfl⟩ := hcopy
        obtain rfl : f = f' := Option.some.inj (hf.symm.trans hf')
        exact .ok hw₃ (.copy hsource hid hf hmissing)
      | .error ⟨false, _⟩ => exact absurd (stat_error h₂).2.2 (by simp)
      | .ok _ =>
        obtain ⟨rfl, g, hg, -⟩ := stat_ok h₂
        exact .ok hw (.retry hsource hid hf hg)
  all_goals
    simp only [ControllerServer.restoreSnapshot, hsource]
    exact .ok hw (.blank (by simp [hsource]))

def grown (data : List UInt8) (sizes : Int × Int) : List UInt8 :=
  if sizes.2 > 0 ∧ sizes.1 > sizes.2 then resize data sizes.1.toNat else data

structure Provisioned (s : ControllerServer) (name : String) (sizes : Int × Int)
    (w w' : Storage) : Prop where
  others : ∀ p, p ≠ s.backingFilePath name → w'.files p = w.files p
  file : w'.files (s.backingFilePath name) =
    (ensured s name sizes.1 w).map fun g => { g with data := grown g.data sizes }

theorem provisionBackstore_ensures (hw : Homed s w) (hn : volumeNamePattern name = true)
    (sizes : Int × Int) :
    (s.provisionBackstore name sizes.1 sizes.2).Ensures storageService (Homed s)
      (fun w' _ => Provisioned s name sizes w w') w := by
  refine (ensureBackstore_ensures hw hn sizes.1).andThen fun w₁ _ hw₁ ⟨hothers, hfile⟩ => ?_
  split
  · next hgrow =>
    refine (resizeBackstore_ensures hw₁ sizes.1).mono fun w₂ _ _ ⟨f, hf, he⟩ => ?_
    subst he
    refine ⟨fun p hp => (w₁.files_put_of_ne hp _).trans (hothers p hp), ?_⟩
    rw [← hfile, hf, Storage.files_put_self, Option.map_some, grown, if_pos hgrow]
  · next hgrow =>
    refine .ok hw₁ ⟨hothers, ?_⟩
    rw [hfile]
    simp [grown, hgrow]

structure Created (s : ControllerServer) (req : CreateVolumeRequest) (w w' : Storage)
    (resp : CreateVolumeResponse) : Prop where
  named : volumeNamePattern req.name = true
  done : ∃ sizes w₁, Restored s req w w₁ sizes ∧ Provisioned s req.name sizes w₁ w' ∧
    resp = s.createdVolume req sizes.1

theorem provisionTarget_ensures (hw : Homed s w) (req : CreateVolumeRequest) :
    (s.provisionTarget req).Ensures storageService (Homed s) (fun w' _ => w' = w) w := by
  refine .andThen (orInternal_ensures (attempt_idle hw rfl)) fun w₁ _ _ h₁ => ?_
  subst h₁
  refine .andThen (orInternal_ensures (attempt_idle hw rfl)) fun w₂ _ _ h₂ => ?_
  subst h₂
  split
  · exact .error hw _
  refine .andThen (orInternal_ensures (attempt_idle hw rfl)) fun w₃ _ _ h₃ => ?_
  subst h₃
  split
  · exact .error hw _
  refine orInternal_ensures (.andThen (attempt_idle hw rfl) fun w₄ _ _ h₄ => ?_)
  subst h₄
  split
  · exact .ok hw rfl
  · exact attempt_idle hw rfl

theorem createVolume_ensures (hw : Homed s w) (req : CreateVolumeRequest) :
    (s.createVolume req).Ensures storageService (Homed s) (Created s req w) w := by
  unfold ControllerServer.createVolume
  split
  · exact .error hw _
  · next hcheck =>
    have hn : volumeNamePattern req.name = true := by
      obtain ⟨-, ⟨⟩⟩ | ⟨_, hcheck⟩ := ite_eq_iff.mp hcheck
      split at hcheck
      · cases hcheck
      · next h => simpa using h
    refine (restoreSnapshot_ensures hw req).andThen fun w₁ sizes hw₁ h₁ => ?_
    refine (provisionBackstore_ensures hw₁ hn sizes).andThen fun w₂ _ hw₂ h₂ => ?_
    refine (provisionTarget_ensures hw₂ req).andThen fun w₃ _ hw₃ h₃ => ?_
    subst h₃
    exact .ok hw₃ ⟨hn, sizes, w₁, h₁, h₂, rfl⟩

/-! ## The other calls -/

theorem homed_remove (hw : Homed s w) {path : String} {a : Except OSError Unit}
    (h : storageService w (.remove path) a w') : Homed s w' := by
  match a with
  | .ok () =>
    obtain ⟨_, h⟩ := mem_ite_nil_right.mp h
    obtain rfl := mem_singleton.mp h
    exact hw
  | .error err =>
    obtain ⟨_, h⟩ := mem_ite_nil_left.mp h
    obtain rfl := mem_singleton.mp h
    exact hw

theorem deleteVolume_ensures (hw : Homed s w) (volumeId : String) :
    (s.deleteVolume volumeId).Ensures storageService (Homed s) (fun _ _ => True) w := by
  unfold ControllerServer.deleteVolume
  split
  · exact .error hw _
  split
  · exact .ok hw trivial
  split
  · exact .ok hw trivial
  refine .andThen (orInternal_ensures (attempt_idle hw rfl)) fun w₁ _ hw₁ _ => ?_
  refine .andThen (Q := fun _ _ => True) (orInternal_ensures (attempt_ensures hw₁ trivial
    (fun _ _ => trivial) fun _ _ _ _ => trivial)) fun w₂ _ hw₂ _ => ?_
  refine .call hw₂ fun a w₃ h₃ => ?_
  have hw₃ := homed_remove hw₂ h₃
  match a with
  | .ok () => exact .ok hw₃ trivial
  | .error ⟨true, _⟩ => exact .ok hw₃ trivial
  | .error ⟨false, _⟩ => exact .error hw₃ _

theorem deleteSnapshot_ensures (hw : Homed s w) (snapshotId : String) :
    (s.deleteSnapshot snapshotId).Ensures storageService (Homed s) (fun _ _ => True) w := by
  unfold ControllerServer.deleteSnapshot
  split
  · exact .error hw _
  split
  · exact .ok hw trivial
  refine .call hw fun a w₁ h₁ => ?_
  have hw₁ := homed_remove hw h₁
  match a with
  | .ok () => exact .ok hw₁ trivial
  | .error ⟨true, _⟩ => exact .ok hw₁ trivial
  | .error ⟨false, _⟩ => exact .error hw₁ _

structure Expanded (s : ControllerServer) (volumeId : String) (w w' : Storage)
    (resp : ExpandVolumeResponse) : Prop where
  done : ∃ name f, volumeName volumeId = some name ∧ w.files (s.backingFilePath name) = some f ∧
    ((resp.capacityBytes = f.data.length ∧ w' = w) ∨ (f.data.length : Int) < resp.capacityBytes ∧
        w' = w.put (s.backingFilePath name)
          (some { f with data := resize f.data resp.capacityBytes.toNat }))

theorem controllerExpandVolume_ensures (hw : Homed s w) (volumeId : String)
    (requiredBytes : Option Int) :
    (s.controllerExpandVolume volumeId requiredBytes).Ensures storageService (Homed s)
      (Expanded s volumeId w) w := by
  unfold ControllerServer.controllerExpandVolume
  dsimp only
  split
  · exact .error hw _
  split
  · exact .error hw _
  split
  · exact .error hw _
  next cfg hid =>
  split
  · exact .error hw _
  next name hname =>
  refine .call hw fun a w₁ h₁ => ?_
  match a with
  | .error err =>
    obtain ⟨rfl, -⟩ := stat_error h₁
    exact .error hw _
  | .ok info =>
    obtain ⟨rfl, f, hf, hsize⟩ := stat_ok h₁
    dsimp only
    split
    · exact .ok hw ⟨name, f, volumeName_eq hid hname, hf, .inl ⟨by rw [hsize], rfl⟩⟩
    · next hless =>
      have hgrow : (f.data.length : Int) < requiredBytes.getD 0 := by omega
      refine (resizeBackstore_ensures hw _).andThen fun w₂ _ hw₂ ⟨f', hf', he⟩ => ?_
      subst he
      obtain rfl : f = f' := Option.some.inj (hf.symm.trans hf')
      exact .ok hw₂ ⟨name, f, volumeName_eq hid hname, hf, .inr ⟨hgrow, rfl⟩⟩

inductive Snapped (s : ControllerServer) (name sourceVolumeId : String) (w : Storage) :
    Storage → Prop
  | retry {f : File} (there : w.files (s.snapshotFilePath name) = some f) :
      Snapped s name sourceVolumeId w w
  | copy {volName : String} {f : File} (missing : w.files (s.snapshotFilePath name) = none)
      (source : volumeName sourceVolumeId = some volName)
      (stored : w.files (s.backingFilePath volName) = some f) :
      Snapped s name sourceVolumeId w (w.put (s.snapshotFilePath name)
        (some { data := f.data, copied := some (s.backingFilePath volName, f.data) }))

theorem createSnapshot_ensures (hw : Homed s w) (name sourceVolumeId : String) :
    (s.createSnapshot name sourceVolumeId).Ensures storageService (Homed s)
      (fun w' _ => volumeNamePattern name = true ∧ Snapped s name sourceVolumeId w w') w := by
  unfold ControllerServer.createSnapshot
  split
  · exact .error hw _
  split
  · exact .error hw _
  next hn =>
  have hn : volumeNamePattern name = true := by simpa using hn
  split
  · exact .error hw _
  refine .call hw fun a w₁ h₁ => ?_
  match a with
  | .ok info =>
    obtain ⟨rfl, f, hf, -⟩ := stat_ok h₁
    exact .ok hw ⟨hn, .retry hf⟩
  | .error err =>
    obtain ⟨rfl, hmissing, -⟩ := stat_error h₁
    dsimp only
    split
    · exact .error hw _
    next cfg hid =>
    split
    · exact .error hw _
    next volName hname =>
    refine .call hw fun a w₂ h₂ => ?_
    match a with
    | .error err =>
      obtain ⟨rfl, -⟩ := stat_error h₂
      exact .error hw _
    | .ok srcInfo =>
      obtain ⟨rfl, f, hf, -⟩ := stat_ok h₂
      refine .call hw fun a w₃ h₃ => ?_
      obtain rfl := mem_singleton.mp h₃
      match a with
      | .error err => exact .error hw _
      | .ok () =>
        refine (copyFile_ensures hw).andThen fun w₄ _ hw₄ ⟨f', hf', he⟩ => ?_
        obtain rfl : f = f' := Option.some.inj (hf.symm.trans hf')
        refine .call hw₄ fun now w₅ h₅ => ?_
        obtain rfl := mem_singleton.mp h₅
        subst he
        exact .ok hw₄ ⟨hn, .copy hmissing (volumeName_eq hid hname) hf⟩

theorem homed_invariant (s : ControllerServer) :
    Session.Invariant storageService Storage.Written (ControllerCall.code s) (Homed s) where
  call w c hw := by
    cases c with
    | createVolume req => exact .mono (createVolume_ensures hw req) fun _ _ _ _ => trivial
    | deleteVolume id => exact .mono (deleteVolume_ensures hw id) fun _ _ _ _ => trivial
    | controllerExpandVolume id size =>
      exact .mono (controllerExpandVolume_ensures hw id size) fun _ _ _ _ => trivial
    | createSnapshot name id =>
      exact .mono (createSnapshot_ensures hw name id) fun _ _ _ _ => trivial
    | deleteSnapshot id => exact .mono (deleteSnapshot_ensures hw id) fun _ _ _ _ => trivial
  env w w' hw h := by
    obtain ⟨b, -, f, data, -, -, rfl⟩ := h
    exact hw

end Kairon.Csi
