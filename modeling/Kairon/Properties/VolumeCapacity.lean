import Mathlib.Data.List.Chain
import Kairon.Csi.Storage

/-!
# The size of a volume

`CreateVolume` answers the size that was asked for, and a retry of it finds a file that may have
another size by now. A restore gives the file the size that was asked for, also when that is less.

* `honest_entry`: one call
* `capacity_honest_iff`: when all calls answer the size of the file and none shrinks it
-/

namespace Kairon.Csi

open Infra List

variable (s : ControllerServer)

def sizeOf (name : String) (w : Storage) : Nat :=
  match w.files (s.backingFilePath name) with
  | some f => f.data.length
  | none => 0

def capacityBytes : (c : ControllerCall) → c.Res → Option Int
  | .createVolume _, .ok resp => some resp.capacityBytes
  | .controllerExpandVolume _ _, .ok resp => some resp.capacityBytes
  | _, _ => none

def reportsSize (name : String) (e : Entry Storage ControllerCall.Res) : Bool :=
  match e.after.files (s.backingFilePath name) with
  | some f => decide (capacityBytes e.call e.result = some (f.data.length : Int))
  | none => false

def isAbout (name : String) : ControllerCall → Bool
  | .createVolume req => decide (req.name = name)
  | .controllerExpandVolume volumeId _ => decide (volumeName volumeId = some name)
  | _ => false

/-- The file that a `CreateVolume` finds has the size that was asked for, or no more than that if
the call resizes it. Where it finds none, a snapshot is not empty and no backstore is left over. -/
def sizeFits (w : Storage) : ControllerCall → Bool
  | .createVolume req =>
    let sizeBytes := ControllerServer.requestedSize req
    match req.volumeContentSource with
    | some (.snapshot id) =>
      match w.files (s.snapshotFilePath id), w.files (s.backingFilePath req.name) with
      | some f, some g =>
        if 0 < f.data.length ∧ (f.data.length : Int) < sizeBytes then
          decide ((g.data.length : Int) ≤ sizeBytes)
        else decide (max sizeBytes f.data.length = g.data.length)
      | some f, none => decide (0 < f.data.length)
      | none, _ => true
    | _ =>
      match w.files (s.backingFilePath req.name) with
      | some g => decide (sizeBytes = g.data.length)
      | none => !w.backstores.any (·.1 = req.name)
  | _ => true

variable {s} {w w₀ w₁ w' : Storage} {name volumeId : String}
  {es : List (Entry Storage ControllerCall.Res)} {req : CreateVolumeRequest}

/-- A step of the sequence: the file is there, not smaller than before and of the size that was
answered. -/
def Honest (s : ControllerServer) (name : String) (w w' : Storage) (capacity : Int) : Prop :=
  sizeOf s name w ≤ sizeOf s name w' ∧
    ∃ f, w'.files (s.backingFilePath name) = some f ∧ capacity = f.data.length

theorem length_resize (data : List UInt8) (n : Nat) : (resize data n).length = n := by
  simp only [resize, length_append, length_take, length_replicate]
  omega

theorem requestedSize_pos (req : CreateVolumeRequest) : 0 < ControllerServer.requestedSize req := by
  unfold ControllerServer.requestedSize
  dsimp only
  split
  · decide
  · omega

theorem honest_iff {f : File} {capacity : Int} (h : w'.files (s.backingFilePath name) = some f) :
    Honest s name w w' capacity ↔ sizeOf s name w ≤ f.data.length ∧ capacity = f.data.length := by
  simp [Honest, sizeOf, h]

theorem length_grown (data : List UInt8) (sizes : Int × Int) : (grown data sizes).length =
      if sizes.2 > 0 ∧ sizes.1 > sizes.2 then sizes.1.toNat else data.length := by
  unfold grown
  split
  · exact length_resize _ _
  · rfl

theorem honest_blank {capacity : Int}
    (source : ∀ id, req.volumeContentSource ≠ some (.snapshot id))
    (hcapacity : capacity = ControllerServer.requestedSize req)
    (hfile : w'.files (s.backingFilePath req.name) =
      ensured s req.name (ControllerServer.requestedSize req) w) :
    Honest s req.name w w' capacity ↔ sizeFits s w (.createVolume req) = true := by
  have hpos := requestedSize_pos req
  have hfits : sizeFits s w (.createVolume req) = match w.files (s.backingFilePath req.name) with
      | some g => decide (ControllerServer.requestedSize req = g.data.length)
      | none => !w.backstores.any (·.1 = req.name) := by
    rcases hsource : req.volumeContentSource with _ | id | id
    · simp only [sizeFits, hsource]
    · exact absurd hsource (source id)
    · simp only [sizeFits, hsource]
  rw [hfits]
  cases hb : w.files (s.backingFilePath req.name) with
  | some g =>
    rw [ensured, hb] at hfile
    simp [honest_iff hfile, hcapacity, sizeOf, hb]
  | none =>
    rw [ensured, hb] at hfile
    dsimp only at hfile ⊢
    split at hfile
    · next hleft => simp [Honest, hfile, hleft]
    · next hfree =>
      simp only [honest_iff hfile, hcapacity, sizeOf, hb, hfree, length_replicate]
      simp
      omega

theorem honest_createVolume {resp : CreateVolumeResponse} (h : Created s req w w' resp) :
    Honest s req.name w w' resp.capacityBytes ↔ sizeFits s w (.createVolume req) = true := by
  obtain ⟨hn, sizes, w₁, hrestored, hprovisioned, rfl⟩ := h
  have hpos := requestedSize_pos req
  have hfile := hprovisioned.file
  -- when the file is resized
  have hresized : ∀ f : File, (restoreSizes req f).2 > 0 ∧
      (restoreSizes req f).1 > (restoreSizes req f).2 ↔
      0 < f.data.length ∧ (f.data.length : Int) < ControllerServer.requestedSize req := by
    intro f
    simp only [restoreSizes]
    omega
  cases hrestored with
  | blank source =>
    refine honest_blank source rfl ?_
    rw [hfile]
    simp [grown]
  | @retry id f g source valid snapshot there =>
    rw [ensured, there, Option.map_some] at hfile
    simp only [honest_iff hfile, length_grown, hresized, sizeOf, there, sizeFits, source, snapshot,
      ControllerServer.createdVolume]
    split
    · rw [decide_eq_true_eq]
      simp only [restoreSizes]
      omega
    · rw [decide_eq_true_eq]
      simp only [restoreSizes]
      omega
  | @copy id f source valid snapshot missing =>
    rw [ensured, Storage.files_put_self, Option.map_some] at hfile
    simp only [honest_iff hfile, length_grown, hresized, sizeOf, missing, sizeFits, source,
      snapshot, ControllerServer.createdVolume, decide_eq_true_eq]
    split
    · simp only [restoreSizes]
      omega
    · simp only [restoreSizes]
      omega

theorem honest_expandVolume {resp : ExpandVolumeResponse} (h : Expanded s volumeId w w' resp)
    (hname : volumeName volumeId = some name) : Honest s name w w' resp.capacityBytes := by
  obtain ⟨name', f, hname', hf, ⟨hcapacity, rfl⟩ | ⟨hgrow, rfl⟩⟩ := h
  · obtain rfl : name = name' := Option.some.inj (hname.symm.trans hname')
    rw [honest_iff hf, sizeOf, hf]
    exact ⟨le_rfl, hcapacity⟩
  · obtain rfl : name = name' := Option.some.inj (hname.symm.trans hname')
    rw [honest_iff (Storage.files_put_self ..), length_resize, sizeOf, hf]
    dsimp only
    omega

theorem sizeOf_written (h : Storage.Written w w') : sizeOf s name w' = sizeOf s name w := by
  obtain ⟨b, -, f, data, hf, hlen, rfl⟩ := h
  unfold sizeOf
  by_cases hb : s.backingFilePath name = b.2
  · rwa [hb, Storage.files_put_self, hf]
  · rw [Storage.files_put_of_ne _ hb]

theorem honest_iff_reportsSize {e : Entry Storage ControllerCall.Res} {capacity : Int}
    (h : capacityBytes e.call e.result = some capacity) : Honest s name e.before e.after capacity ↔
      sizeOf s name e.before ≤ sizeOf s name e.after ∧ reportsSize s name e = true := by
  unfold Honest reportsSize
  cases hf : e.after.files (s.backingFilePath name) with
  | none => simp
  | some f => simp [h]

theorem honest_entry {e : Entry Storage ControllerCall.Res} (hbefore : Homed s e.before)
    (hran : (e.call.code s).Reaches storageService e.before e.after (.ret e.result))
    (habout : isAbout name e.call = true) (hok : e.call.succeeded e.result = true) :
    sizeOf s name e.before ≤ sizeOf s name e.after ∧ reportsSize s name e = true ↔
      sizeFits s e.before e.call = true := by
  obtain ⟨before, call, result, after⟩ := e
  match call, result with
  | .createVolume req, .ok resp =>
    obtain rfl : req.name = name := of_decide_eq_true habout
    rw [← honest_iff_reportsSize rfl]
    exact honest_createVolume (Prog.Reaches.ensures hran (createVolume_ensures hbefore req))
  | .controllerExpandVolume volumeId requiredBytes, .ok resp =>
    rw [← honest_iff_reportsSize rfl]
    exact iff_of_true (honest_expandVolume (Prog.Reaches.ensures hran
      (controllerExpandVolume_ensures hbefore volumeId requiredBytes)) (of_decide_eq_true habout))
      rfl
  | .createVolume _, .error _ | .controllerExpandVolume _ _, .error _ => cases hok
  | .deleteVolume _, _ | .createSnapshot _ _, _ | .deleteSnapshot _, _ => cases habout

/-- Over a sequence of calls that create or expand one volume and succeed, the size of its file
never decreases and is what each of them answers, exactly if each finds a file whose size fits. -/
theorem capacity_honest_iff (hw₀ : Homed s w₀) (hsession : ControllerSession s w₀ es w)
    (hcalls : ∀ e ∈ es, isAbout name e.call = true ∧ e.call.succeeded e.result = true) :
    (sizeOf s name w₀ :: es.map fun e => sizeOf s name e.after).IsChain (· ≤ ·) ∧
        (∀ e ∈ es, reportsSize s name e = true) ↔
      ∀ e ∈ es, sizeFits s e.before e.call = true := by
  obtain ⟨-, hentries⟩ := hsession.entry (homed_invariant s) hw₀
  -- by induction on the session, with the size that the last call has left
  suffices h : (sizeOf s name w₀ :: es.map fun e => sizeOf s name e.after).getLast? =
      some (sizeOf s name w) ∧ _ from h.2
  induction hsession with
  | nil => simp
  | env session change ih =>
    rw [sizeOf_written change]
    exact ih hcalls hentries
  | @call es w₁ w₂ c r session ended ih =>
    obtain ⟨hlast, ih⟩ := ih (fun e he => hcalls e (by simp [he]))
      fun e he => hentries e (by simp [he])
    obtain ⟨hbefore, hran⟩ := hentries ⟨w₁, c, r, w₂⟩ (by simp)
    obtain ⟨habout, hok⟩ := hcalls ⟨w₁, c, r, w₂⟩ (by simp)
    have hentry := honest_entry hbefore hran habout hok
    rw [map_append, ← cons_append, isChain_append]
    simp only [map_singleton, isChain_singleton, List.head?_singleton, hlast,
      forall_mem_append, forall_mem_singleton, ← ih, ← hentry]
    refine ⟨List.getLast?_concat .., ?_⟩
    constructor
    · rintro ⟨⟨hchain, -, hstep⟩, hreports, hreport⟩
      exact ⟨⟨hchain, hreports⟩, hstep _ rfl _ rfl, hreport⟩
    · rintro ⟨⟨hchain, hreports⟩, hstep, hreport⟩
      refine ⟨⟨hchain, trivial, ?_⟩, hreports, hreport⟩
      rintro _ ⟨⟩ _ ⟨⟩
      exact hstep

def oneSnapshot : Storage :=
  noVolumes.put (someServer.snapshotFilePath "snap-1") (some { data := [1, 2] })

/-- After an expansion a replay of `CreateVolume` answers the old size, and one that restores the
snapshot cuts the file to it. -/
theorem replay_shrinks : ∃ es w, ControllerSession someServer oneSnapshot es w ∧
      (∀ e ∈ es, isAbout "pvc-1" e.call = true ∧ e.call.succeeded e.result = true) ∧
      es.map (fun e => (capacityBytes e.call e.result, sizeOf someServer "pvc-1" e.after)) =
        [(some 3, 3), (some 5, 5), (some 3, 5), (some 3, 3)] := by
  exact exists_session_of_play
    [(smallVolume "pvc-1" 3 (some (.snapshot "snap-1")), serve),
      (.controllerExpandVolume (someVolumeId "pvc-1") (some 5), serve),
      (smallVolume "pvc-1" 3, serve),
      (smallVolume "pvc-1" 3 (some (.snapshot "snap-1")), serve)] (by decide +kernel)

theorem sizes_grow_to_five : ∃ es w, ControllerSession someServer oneSnapshot es w ∧ es.length = 4 ∧
      (sizeOf someServer "pvc-1" oneSnapshot ::
        es.map fun e => sizeOf someServer "pvc-1" e.after).IsChain (· ≤ ·) ∧
      ∀ e ∈ es, reportsSize someServer "pvc-1" e = true := by
  obtain ⟨es, w, hsession, hlength, hentry⟩ :
      ∃ es w, ControllerSession someServer oneSnapshot es w ∧
      es.length = 4 ∧ ∀ e ∈ es, (isAbout "pvc-1" e.call = true ∧
        e.call.succeeded e.result = true) ∧ sizeFits someServer e.before e.call = true :=
    exists_session_of_play
      [(smallVolume "pvc-1" 3 (some (.snapshot "snap-1")), serve),
        (smallVolume "pvc-1" 3 (some (.snapshot "snap-1")), serve),
        (.controllerExpandVolume (someVolumeId "pvc-1") (some 5), serve),
        (.controllerExpandVolume (someVolumeId "pvc-1") (some 4), serve)] (by decide +kernel)
  have hhomed : Homed someServer oneSnapshot := by simp [Homed, oneSnapshot, noVolumes]
  refine ⟨es, w, hsession, hlength, ?_⟩
  exact (capacity_honest_iff hhomed hsession fun e he => (hentry e he).1).mpr
    fun e he => (hentry e he).2

end Kairon.Csi
