import Kairon.Infra.Session
import Kairon.Snapshot.System

/-!
# The names of VolumeSnapshots

A VolumeSnapshot is looked up by a name that is made of those of the snapshot and of the volume.
What is there under it is taken for the snapshot's own, whichever claim it is of.

* `place_ne_iff`: which requests get names of their own
* `own_claims_iff`: when every snapshot has copies of its own claims
-/

namespace Kairon.Snapshot

open Infra GoText Model Cluster

structure VolumeRequest where
  snapshot : MachineSnapshot
  machine : GuestMachine
  volume : MachineVolume

namespace VolumeRequest

variable (r a b : VolumeRequest)

def name : String := snapshotVolumeName r.snapshot.metadata.name r.volume.name

def place : ObjectKey := ⟨r.snapshot.key.namespace, r.name⟩

def code : SnapM (Except String (VolumeSnapshot × Bool)) :=
  obtainVolumeSnapshot r.snapshot r.machine r.volume r.name

/-- For the same volume of the same snapshot. -/
def Same : Prop := a.snapshot.key = b.snapshot.key ∧ a.volume.name = b.volume.name

/-- What the name is before it is cut. -/
def text : List Char :=
  let joined := (dashRuns (toLower (r.snapshot.metadata.name ++ "-" ++ r.volume.name)).toList
    false).dropWhile (· == '-')
  if joined = [] then "kairon-snapshot".toList else joined

def Apart : Prop :=
  a.snapshot.key.namespace ≠ b.snapshot.key.namespace ∨
    ∃ i < 63, a.text.getD i '-' ≠ b.text.getD i '-'

theorem toList_name : r.name.toList = (r.text.take 63).rdropWhile (· == '-') := by
  unfold name snapshotVolumeName text
  generalize r.snapshot.metadata.name ++ "-" ++ r.volume.name = joined
  have hlabel : dnsLabel 63 joined = (((dashRuns (toLower joined).toList false).dropWhile
      (· == '-')).take 63).rdropWhile (· == '-') := by
    rw [← rdropWhile_cut]
    rfl
  have hhead := List.head?_dropWhile_not (· == '-') (dashRuns (toLower joined).toList false)
  dsimp only
  rw [hlabel]
  cases hrest : (dashRuns (toLower joined).toList false).dropWhile (· == '-') with
  | nil => rfl
  | cons x rest =>
    -- a name that is not empty does not begin with a dash, and so it is not cut to nothing
    rw [hrest] at hhead
    have hne : ((x :: rest).take 63).rdropWhile (· == '-') ≠ [] := by
      intro hnil
      have := List.rdropWhile_eq_nil_iff.mp hnil x List.mem_cons_self
      simp_all
    rw [if_neg hne, if_neg (List.cons_ne_nil x rest), String.toList_ofList]

variable {r a b}

theorem place_ne_iff : a.place ≠ b.place ↔ Apart a b := by
  have hname : a.name = b.name ↔ ∀ i < 63, a.text.getD i '-' = b.text.getD i '-' := by
    rw [← String.toList_inj, toList_name, toList_name, rdropWhile_eq_iff]
    refine forall_congr' fun i => ?_
    rw [getD_take, getD_take]
    by_cases hi : i < 63 <;> simp [hi]
  rw [place, place, Ne, ObjectKey.mk.injEq, hname, Apart]
  simp only [not_and_or, not_forall, exists_prop, ne_eq]

end VolumeRequest

open VolumeRequest

/-- Nobody else makes VolumeSnapshots. -/
def Leaves (w w' : World) : Prop :=
  ∀ vs ∈ w'.volumeSnapshots.rows, ∃ vs' ∈ w.volumeSnapshots.rows,
    vs'.key = vs.key ∧ vs'.persistentVolumeClaimName = vs.persistentVolumeClaimName

/-- The VolumeSnapshots that some volumes of some snapshots refer to are their own, and so is the
claim that each is of. -/
structure OwnClaims (R : VolumeRequest → Prop) : Prop where
  names : ∀ a b, R a → R b → ¬Same a b → a.place ≠ b.place
  claims : (∀ a b, R a → R b → Same a b → a.volume.claimName = b.volume.claimName) →
    ∀ w es w', w.volumeSnapshots = noVolumeSnapshots →
      Session (served outcomes) Leaves (fun r : { r // R r } => r.1.code) w es w' →
      ∀ r, R r → ∀ vs ∈ w'.volumeSnapshots.rows, vs.key = r.place →
        vs.persistentVolumeClaimName = some r.volume.claimName

variable {R : VolumeRequest → Prop}

theorem key_newVolumeSnapshot (r : VolumeRequest) :
    (newVolumeSnapshot r.snapshot r.machine r.volume r.name).key = r.place := by
  simp only [VolumeSnapshot.key, newVolumeSnapshot, ObjectMeta.key, place, MachineSnapshot.key,
    ObjectKey.effectiveNamespace]
  split <;> simp_all

def MadeFor (R : VolumeRequest → Prop) (w : World) : Prop :=
  ∀ vs ∈ w.volumeSnapshots.rows, ∃ r, R r ∧ vs.key = r.place ∧
    vs.persistentVolumeClaimName = some r.volume.claimName

theorem madeFor_invariant :
    Session.Invariant (served outcomes) Leaves (fun r : { r // R r } => r.1.code) (MadeFor R) where
  call w r h := by
    refine ⟨h, fun found w' hw => ?_⟩
    obtain rfl : w' = w := by simpa [failed, effect] using (mem_outcomes_iff.mp hw).2
    cases found with
    | ok vs => exact ⟨h, trivial⟩
    | error e =>
      show Prog.Keeps _ _ _ _ (if _ then _ else _)
      split
      · exact ⟨h, trivial⟩
      refine ⟨h, fun made w'' hw => ?_⟩
      have hmade : MadeFor R w'' := by
        intro vs hvs
        rcases (mem_outcomes_iff.mp hw).2 with rfl | ⟨-, rfl⟩
        · rcases Table.mem_add hvs with hvs | rfl
          · exact h vs hvs
          · exact ⟨r, r.2, key_newVolumeSnapshot r.1, rfl⟩
        · exact h vs hvs
      cases made <;> exact ⟨hmade, trivial⟩
  env w w' h hleaves vs hvs := by
    obtain ⟨vs', hvs', hkey, hclaim⟩ := hleaves vs hvs
    rw [← hkey, ← hclaim]
    exact h vs' hvs'

/-- Requests are given copies of their own claims exactly if those of different volumes have names
that differ. -/
theorem own_claims_iff (R : VolumeRequest → Prop) :
    OwnClaims R ↔ ∀ a b, R a → R b → ¬a.Same b → a.Apart b := by
  constructor
  · intro h a b ha hb hne
    exact place_ne_iff.mp (h.names a b ha hb hne)
  · intro h
    refine ⟨fun a b ha hb hne => place_ne_iff.mpr (h a b ha hb hne), ?_⟩
    intro hone w es w' hnone hsession r hr vs hvs hkey
    have hmade : MadeFor R w := by
      rw [MadeFor, hnone]
      exact nofun
    obtain ⟨r', hr', hkey', hclaim⟩ := (hsession.entry madeFor_invariant hmade).1 vs hvs
    have hsame : Same r r' := by
      by_contra hne
      exact place_ne_iff.mpr (h r r' hr hr' hne) (hkey.symm.trans hkey')
    rw [hclaim, hone r r' hr hr' hsame]

/-! ## Two snapshots with one name -/

def requestOf (snapshot volume claim : String) : VolumeRequest where
  snapshot := { sampleSnapshot with metadata := plainMeta snapshot [] }
  machine := sampleMachine
  volume := ⟨volume, claim, false⟩

/-- The volume `data-1` of the snapshot `db` is given the VolumeSnapshot that was made for the
volume `1` of `db-data`. -/
theorem foreign_claim_recorded :
    ¬OwnClaims fun r => r = requestOf "db-data" "1" "one" ∨ r = requestOf "db" "data-1" "two" := by
  intro h
  exact h.names _ _ (.inl rfl) (.inr rfl) (fun hsame => by
    simp [Same, requestOf] at hsame) (by decide +kernel)

end Kairon.Snapshot
