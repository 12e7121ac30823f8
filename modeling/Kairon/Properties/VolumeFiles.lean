import Kairon.Csi.Storage

/-!
# The files behind a volume id

The name in a volume id is joined to the volume directory without the check that `CreateVolume`
makes of it. An id may carry a name with `/` and `..`, which leads to any file that ends in `.img`.

* `deleteVolume_follows` and its like: the files a call touches
* `stays_inside_iff`: the volume ids with which these are files of volumes
-/

namespace Kairon.Csi

open Infra GoPath List

def reachedFile (s : ControllerServer) : ControllerOp → Option String
  | .stat path | .remove path => some path
  | .run (.copy src _) => some src
  | .run (.resizeBackstore name _) => some (s.backingFilePath name)
  | _ => none

def Inside (s : ControllerServer) (own : Option String) (e : ControllerOp) : Prop :=
  ∀ path, reachedFile s e = some path →
    own = some path ∨ ∃ n, volumeNamePattern n = true ∧ path = s.backingFilePath n

/-- Whatever the commands answer, no call with this id reaches another file than that of a volume.
A snapshot that is to be made is looked for by its own name. -/
structure StaysInside (s : ControllerServer) (id : String) : Prop where
  deleteVolume : (s.deleteVolume id).Follows (fun _ e => Inside s none e) (fun _ _ => True) []
  expandVolume : ∀ size, (s.controllerExpandVolume id size).Follows (fun _ e => Inside s none e)
    (fun _ _ => True) []
  createSnapshot : ∀ name, (s.createSnapshot name id).Follows
    (fun _ e => Inside s (some (s.snapshotFilePath name)) e) (fun _ _ => True) []

variable {s : ControllerServer} {id name : String} {own : Option String} {command : Command}
  {harmless : String → Bool} {what : String} {past : List (Event ControllerOp.Ans)}

theorem volumeName_eq_some (h : volumeName id = some name) :
    id ≠ "" ∧ ∃ cfg, decodeVolumeID id = .ok cfg ∧ nameFromIQN cfg.iqn = some name := by
  have hne : id ≠ "" := by
    rintro rfl
    simp [show volumeName "" = none by decide] at h
  unfold volumeName at h
  split at h
  · cases h
  · next cfg hcfg => exact ⟨hne, cfg, hcfg, h⟩

def LeadsInside (s : ControllerServer) (name : String) : Prop :=
  ∃ n, volumeNamePattern n = true ∧ s.backingFilePath name = s.backingFilePath n

theorem inside_of_none {e : ControllerOp} (h : reachedFile s e = none) : Inside s own e :=
  fun path hpath => by simp [h] at hpath

theorem LeadsInside.inside (h : LeadsInside s name) {e : ControllerOp}
    (he : reachedFile s e = some (s.backingFilePath name)) : Inside s own e := by
  obtain ⟨n, hn, heq⟩ := h
  intro path hpath
  obtain rfl : s.backingFilePath name = path := Option.some.inj (he.symm.trans hpath)
  exact .inr ⟨n, hn, heq⟩

theorem attempt_follows (h : Inside s own (.run command)) :
    (orInternal (attempt command harmless what)).Follows (fun _ e => Inside s own e)
      (fun _ _ => True) past := by
  refine ⟨h, fun | .ok () => trivial | .error err => ?_⟩
  show Prog.Follows _ _ _ (Prog.bind (.ret (if harmless err then _ else _)) _)
  split <;> trivial

theorem deleteVolume_follows (h : ∀ name, volumeName id = some name → LeadsInside s name) :
    (s.deleteVolume id).Follows (fun _ e => Inside s none e) (fun _ _ => True) [] := by
  unfold ControllerServer.deleteVolume
  split
  · trivial
  split
  · trivial
  next cfg hid =>
  split
  · trivial
  next name hname =>
  have hinside := h name (volumeName_eq hid hname)
  refine Prog.Follows.andThen_any (attempt_follows (inside_of_none rfl)) fun _ _ => ?_
  refine Prog.Follows.andThen_any (attempt_follows (inside_of_none rfl)) fun _ _ => ?_
  exact ⟨hinside.inside rfl, fun
    | .ok () => trivial
    | .error ⟨true, _⟩ => trivial
    | .error ⟨false, _⟩ => trivial⟩

theorem expandVolume_follows (h : ∀ name, volumeName id = some name → LeadsInside s name)
    (size : Option Int) :
    (s.controllerExpandVolume id size).Follows (fun _ e => Inside s none e) (fun _ _ => True)
      [] := by
  unfold ControllerServer.controllerExpandVolume
  dsimp only
  split
  · trivial
  split
  · trivial
  split
  · trivial
  next cfg hid =>
  split
  · trivial
  next name hname =>
  have hinside := h name (volumeName_eq hid hname)
  refine ⟨hinside.inside rfl, fun | .error _ => trivial | .ok info => ?_⟩
  dsimp only
  split
  · trivial
  · refine Prog.Follows.andThen_any (attempt_follows (hinside.inside rfl)) fun _ _ => ?_
    trivial

theorem createSnapshot_follows (h : ∀ name, volumeName id = some name → LeadsInside s name)
    (name : String) :
    (s.createSnapshot name id).Follows (fun _ e => Inside s (some (s.snapshotFilePath name)) e)
      (fun _ _ => True) [] := by
  unfold ControllerServer.createSnapshot
  split
  · trivial
  split
  · trivial
  split
  · trivial
  refine ⟨fun path hpath => .inl hpath, fun | .ok _ => trivial | .error err => ?_⟩
  split
  · trivial
  next cfg hid =>
  split
  · trivial
  next volName hname =>
  have hinside := h volName (volumeName_eq hid hname)
  refine ⟨hinside.inside rfl, fun | .error _ => trivial | .ok srcInfo => ?_⟩
  refine ⟨inside_of_none rfl, fun | .error _ => trivial | .ok () => ?_⟩
  refine Prog.Follows.andThen_any (attempt_follows (hinside.inside rfl)) fun _ _ => ?_
  exact ⟨inside_of_none rfl, fun _ => trivial⟩

/-- A call with a volume id stays inside the volume directory, and with the files of volumes,
exactly if the name in it leads from the directory to a file `n.img` with the name of a volume. -/
theorem stays_inside_iff (s : ControllerServer) (id : String) :
    StaysInside s id ↔ ∀ name, volumeName id = some name → ∃ n, volumeNamePattern n = true ∧
        within s.volumeDir [name ++ ".img"] = place s.volumeDir ++ [n ++ ".img"] := by
  have hleads : ∀ name, LeadsInside s name ↔ ∃ n, volumeNamePattern n = true ∧
      within s.volumeDir [name ++ ".img"] = place s.volumeDir ++ [n ++ ".img"] := by
    intro name
    refine exists_congr fun n => and_congr_right fun hn => ?_
    rw [ControllerServer.backingFilePath_eq_iff, ControllerServer.fileOf_eq hn]
    rfl
  simp only [← hleads]
  constructor
  · intro h name hname
    obtain ⟨hne, cfg, hid, hiqn⟩ := volumeName_eq_some hname
    -- the file that is removed once the target and the backstore are gone
    have hdelete := h.deleteVolume
    simp only [ControllerServer.deleteVolume, if_neg hne, hid, hiqn] at hdelete
    have hremove : Inside s none (.remove (s.backingFilePath name)) :=
      ((hdelete.2 (.ok ())).2 (.ok ())).1
    rcases hremove _ rfl with hown | hinside
    · cases hown
    · exact hinside
  · intro h
    exact ⟨deleteVolume_follows h, expandVolume_follows h, createSnapshot_follows h⟩

def twoFiles : Storage :=
  (noVolumes.put (someServer.snapshotFilePath "snap-1") (some { data := [1, 2] })).put
    "/var/lib/kairon/golden.img" (some { data := [7] })

/-- A snapshot is taken of the file next to the directory, and both files are deleted. -/
theorem foreign_files_reached : ∃ es w, ControllerSession someServer twoFiles es w ∧
      es.map (fun e => (e.call, e.call.succeeded e.result)) =
        [(.createSnapshot "snap-2" (someVolumeId "../golden"), true),
          (.deleteVolume (someVolumeId "../golden"), true),
          (.deleteVolume (someVolumeId ".snapshots/snap-1"), true)] ∧
      (w.files (someServer.snapshotFilePath "snap-2")).map (·.data) = some [7] ∧
      w.files "/var/lib/kairon/golden.img" = none ∧
      w.files (someServer.snapshotFilePath "snap-1") = none := by
  exact exists_session_of_play
    [(.createSnapshot "snap-2" (someVolumeId "../golden"), serve),
      (.deleteVolume (someVolumeId "../golden"), serve),
      (.deleteVolume (someVolumeId ".snapshots/snap-1"), serve)] (by decide +kernel)

end Kairon.Csi
