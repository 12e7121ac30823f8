import Kairon.Csi.Storage

/-!
# Copies of volumes and snapshots

A volume is restored and a snapshot is taken by one copy, and a retry takes a file that is there for
the result of that copy. It may be the part that a failed copy has left, or the copy of something
else under the same name.

* `whole_createVolume`, `whole_createSnapshot`: one call
* `copies_whole_iff`: which calls left a whole copy
-/

namespace Kairon.Csi

open Infra List

variable (s : ControllerServer)

def beginsWith (w : Storage) (name id : String) : Bool :=
  match w.files (s.snapshotFilePath id), w.files (s.backingFilePath name) with
  | some f, some g => decide (f.data <+: g.data)
  | _, _ => false

def holdsCopy (w : Storage) (name sourceVolumeId : String) : Bool :=
  match volumeName sourceVolumeId, w.files (s.snapshotFilePath name) with
  | some volName, some f => decide (f.copied = some (s.backingFilePath volName, f.data))
  | _, _ => false

/-- What a call that has succeeded leaves: a volume from a snapshot begins with the snapshot, and a
snapshot is a copy of its volume. -/
def whole (w' : Storage) : (c : ControllerCall) → c.Res → Bool
  | .createVolume req, .ok _ =>
    match req.volumeContentSource with
    | some (.snapshot id) => beginsWith s w' req.name id
    | _ => true
  | .createSnapshot name sourceVolumeId, .ok _ => holdsCopy s w' name sourceVolumeId
  | _, _ => true

def padding (req : CreateVolumeRequest) (f g : File) : List UInt8 :=
  if (f.data.length : Int) < ControllerServer.requestedSize req then
    List.replicate ((ControllerServer.requestedSize req).toNat - g.data.length) 0
  else []

/-- No file stands where the call would copy to, or the right one: the file of the volume, with the
zeros that are appended to it, begins with the snapshot; the file of the snapshot is a whole copy of
the volume. -/
def unmistaken (w : Storage) : ControllerCall → Bool
  | .createVolume req =>
    match req.volumeContentSource with
    | some (.snapshot id) =>
      match w.files (s.snapshotFilePath id), w.files (s.backingFilePath req.name) with
      | some f, some g => decide (f.data <+: g.data ++ padding req f g)
      | _, _ => true
    | _ => true
  | .createSnapshot name sourceVolumeId =>
    (w.files (s.snapshotFilePath name)).isNone || holdsCopy s w name sourceVolumeId
  | _ => true

variable {s} {w w₀ w' : Storage} {es : List (Entry Storage ControllerCall.Res)}
  {req : CreateVolumeRequest} {resp : CreateVolumeResponse} {f g : File}

theorem isPrefix_grown_iff :
    f.data <+: grown g.data (restoreSizes req f) ↔ f.data <+: g.data ++ padding req f g := by
  unfold grown padding restoreSizes
  by_cases hless : (f.data.length : Int) < ControllerServer.requestedSize req
  · rw [if_pos hless]
    by_cases hempty : f.data = []
    · simp [hempty]
    · have hpos := length_pos_iff.mpr hempty
      have hmax : max (ControllerServer.requestedSize req) f.data.length =
          ControllerServer.requestedSize req := by omega
      simp only [hmax]
      rw [if_pos ⟨by omega, hless⟩, resize]
      by_cases hlong : g.data.length ≤ (ControllerServer.requestedSize req).toNat
      · rw [take_of_length_le hlong]
      · have hnone : (ControllerServer.requestedSize req).toNat - g.data.length = 0 := by omega
        rw [hnone, replicate_zero, append_nil, append_nil, prefix_take_iff]
        exact and_iff_left (by omega)
  · rw [if_neg hless, if_neg (by simp; omega), append_nil]

/-- A `CreateVolume` that succeeded made its volume begin with the snapshot exactly if no other file
was in its place. -/
theorem whole_createVolume (h : Created s req w w' resp) :
    whole s w' (.createVolume req) (.ok resp) = unmistaken s w (.createVolume req) := by
  obtain ⟨hn, sizes, w₁, hrestored, hprovisioned, -⟩ := h
  have hfile := hprovisioned.file
  cases hrestored with
  | blank source =>
    rcases hsource : req.volumeContentSource with _ | id | id
    · simp only [whole, unmistaken, hsource]
    · exact absurd hsource (source id)
    · simp only [whole, unmistaken, hsource]
  | @retry id f g source valid snapshot there =>
    have hsnap : w'.files (s.snapshotFilePath id) = some f := by
      rw [hprovisioned.others _ (ControllerServer.snapshotFilePath_ne_backingFilePath valid hn),
        snapshot]
    rw [ensured, there] at hfile
    simp only [whole, unmistaken, source, beginsWith, hsnap, hfile, snapshot, there,
      Option.map_some, decide_eq_decide]
    exact isPrefix_grown_iff
  | @copy id f source valid snapshot missing =>
    have hne := ControllerServer.snapshotFilePath_ne_backingFilePath (s := s) valid hn
    have hsnap : w'.files (s.snapshotFilePath id) = some f := by
      rw [hprovisioned.others _ hne, Storage.files_put_of_ne _ hne, snapshot]
    rw [ensured, Storage.files_put_self] at hfile
    simp only [whole, unmistaken, source, beginsWith, hsnap, hfile, snapshot, missing,
      Option.map_some, decide_eq_true_eq]
    exact isPrefix_grown_iff.mpr (prefix_append _ _)

theorem whole_createSnapshot {name sourceVolumeId : String} {resp : SnapshotResponse}
    (h : Snapped s name sourceVolumeId w w') :
    whole s w' (.createSnapshot name sourceVolumeId) (.ok resp) =
      unmistaken s w (.createSnapshot name sourceVolumeId) := by
  cases h with
  | retry there => simp [whole, unmistaken, there]
  | copy missing source stored => simp [whole, unmistaken, holdsCopy, missing, source]

/-- Of the calls of a session that have succeeded, those that left a whole copy of what was asked
for are those that found no other file in the place of the copy. -/
theorem copies_whole_iff (hw₀ : Homed s w₀) (hsession : ControllerSession s w₀ es w) :
    (∀ e ∈ es, whole s e.after e.call e.result = true) ↔
      ∀ e ∈ es, e.call.succeeded e.result = true → unmistaken s e.before e.call = true := by
  obtain ⟨-, hentries⟩ := hsession.entry (homed_invariant s) hw₀
  refine forall₂_congr fun e he => ?_
  obtain ⟨hbefore, hran⟩ := hentries e he
  obtain ⟨before, call, result, after⟩ := e
  match call, result with
  | .createVolume req, .ok resp =>
    have h := Prog.Reaches.ensures hran (createVolume_ensures hbefore req)
    simp only [whole_createVolume h, ControllerCall.succeeded, true_imp_iff]
  | .createSnapshot name sourceVolumeId, .ok resp =>
    have h := Prog.Reaches.ensures hran (createSnapshot_ensures hbefore name sourceVolumeId)
    simp only [whole_createSnapshot h.2, ControllerCall.succeeded, true_imp_iff]
  | .createVolume req, .error err | .createSnapshot name sourceVolumeId, .error err =>
    simp [whole, ControllerCall.succeeded]
  | .deleteVolume _, _ | .controllerExpandVolume _ _, _ | .deleteSnapshot _, _ =>
    simp [whole, unmistaken]

/-- A snapshot whose copy failed after one byte of two is there when it is asked for again; so is
the content of a volume; and a snapshot of one volume is there when it is asked for of another. -/
theorem part_taken_for_whole : ∃ es w, ControllerSession someServer noVolumes es w ∧
      (es.filter fun e => !whole someServer e.after e.call e.result).map (·.call) =
        [.createSnapshot "snap-1" (someVolumeId "pvc-1"),
          smallVolume "pvc-2" 2 (some (.snapshot "snap-2")),
          .createSnapshot "snap-2" (someVolumeId "pvc-3")] := by
  exact exists_session_of_play
    [(smallVolume "pvc-1" 2, serve),
      (.createSnapshot "snap-1" (someVolumeId "pvc-1"), serveUntil 1),
      (.createSnapshot "snap-1" (someVolumeId "pvc-1"), serve),
      (.createSnapshot "snap-2" (someVolumeId "pvc-1"), serve),
      (smallVolume "pvc-2" 2 (some (.snapshot "snap-2")), serveUntil 1),
      (smallVolume "pvc-2" 2 (some (.snapshot "snap-2")), serve), (smallVolume "pvc-3" 2, serve),
      (.createSnapshot "snap-2" (someVolumeId "pvc-3"), serve)] (by decide +kernel)

theorem whole_after_delete : ∃ es w, ControllerSession someServer noVolumes es w ∧
      es.map (fun e => e.call.succeeded e.result) = [true, false, true, true, true] ∧
      ∀ e ∈ es, whole someServer e.after e.call e.result = true := by
  obtain ⟨es, w, hsession, hresults, hunmistaken⟩ :
      ∃ es w, ControllerSession someServer noVolumes es w ∧
        es.map (fun e => e.call.succeeded e.result) = [true, false, true, true, true] ∧
        ∀ e ∈ es, e.call.succeeded e.result = true → unmistaken someServer e.before e.call = true :=
    exists_session_of_play
      [(smallVolume "pvc-1" 2, serve),
        (.createSnapshot "snap-1" (someVolumeId "pvc-1"), serveUntil 1),
        (.deleteSnapshot "snap-1", serve), (.createSnapshot "snap-1" (someVolumeId "pvc-1"), serve),
        (smallVolume "pvc-2" 3 (some (.snapshot "snap-1")), serve)] (by decide +kernel)
  exact ⟨es, w, hsession, hresults,
    (copies_whole_iff (by simp [Homed, noVolumes]) hsession).mpr hunmistaken⟩

end Kairon.Csi
