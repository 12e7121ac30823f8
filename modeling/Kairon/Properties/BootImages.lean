import Kairon.Cluster.World
import Kairon.Infra.JsonLine
import Kairon.Infra.Sha256
import Kairon.Model.MachineSnapshot

/-!
# Images to boot from

The image that the annotation of a Machine names is booted only if it is the Machine's own.

* `resolve_eq_some`: the image a boot text resolves to
* `rbd_boot_isolated`: no other Machine boots from it
-/

namespace Kairon.Snapshot

open Infra GoText JsonLine Model Cluster

variable {digest : String → String} {node ref : String} {pools : List String} {m : RbdMachine}

def rbdImage (ref : String) : Option String := (cut ref '/').map (·.2)

/-- What the name of the volume that the Machine boots from is the hash of. -/
def bootText (m : RbdMachine) : Option String :=
  m.volumes.head?.map fun v => m.metadata.key.namespace ++ "/" ++ m.metadata.name ++ "/" ++ v.1

theorem resolve_eq_some (h : resolveAtlasRBDBoot digest node pools m = .ok (some ref)) :
    ∃ pool ∈ pools, ∃ v ∈ m.volumes.head?,
      let image := atlasVolumeName digest m.metadata.key.namespace m.metadata.name v.1
      ref = pool ++ "/" ++ image ∧ rbdImage ref = some image := by
  unfold resolveAtlasRBDBoot at h
  split at h
  · cases h
  next name atlas rest hvolumes =>
  dsimp only at h
  iterate 4
    split at h
    · cases h
  next pool image hparse =>
  split at h
  · cases h
  next himage =>
  split at h
  · cases h
  next hpool =>
  split at h
  · cases h
  cases h
  rw [not_not] at himage
  have hslash : '/' ∉ pool.toList := by
    simp only [parseRBDNativeID, bind, Option.bind_eq_some_iff,
      Option.ite_none_right_eq_some] at hparse
    obtain ⟨rest, -, ⟨pool', image'⟩, hcut, -, hsame⟩ := hparse
    cases hsame
    exact (cut_eq_some hcut).2
  refine ⟨pool, by simpa using hpool, (name, atlas), by simp [hvolumes], by rw [himage], ?_⟩
  have hcut : cut (pool ++ "/" ++ image) '/' = some (pool, image) := cut_of_toList (by simp) hslash
  rw [rbdImage, hcut, himage]
  rfl

theorem split_text {a b c : String} (ha : '/' ∉ a.toList) (hb : '/' ∉ b.toList) :
    split (a ++ "/" ++ b ++ "/" ++ c) '/' = a :: b :: split c '/' := by
  have hall : split (a ++ "/" ++ b ++ "/" ++ c) '/' = split (a ++ "/" ++ b) '/' ++ split c '/' :=
    split_of_toList (by simp)
  have hkey : split (a ++ "/" ++ b) '/' = split a '/' ++ split b '/' := split_of_toList (by simp)
  rw [hall, hkey, split_eq_singleton ha, split_eq_singleton hb]
  rfl

theorem digest_eq_of_name (hlen : ∀ text, (digest text).toList.length = 10)
    {ns name vol ns' name' vol' : String}
    (h : atlasVolumeName digest ns name vol = atlasVolumeName digest ns' name' vol') :
    digest (ns ++ "/" ++ name ++ "/" ++ vol) = digest (ns' ++ "/" ++ name' ++ "/" ++ vol') := by
  have h := congrArg String.toList h
  simp only [atlasVolumeName, String.toList_append] at h
  exact String.toList_inj.mp (List.append_inj_right' h (by rw [hlen, hlen]))

/-- An image that a Machine boots from is in a pool that is configured and has the name of the
Machine's own volume. In a fleet whose sums do not collide no other Machine boots from it, on
whatever node. -/
theorem rbd_boot_isolated (h : resolveAtlasRBDBoot digest node pools m = .ok (some ref)) :
    (∃ pool ∈ pools, ∃ v ∈ m.volumes.head?, ref = pool ++ "/" ++
      atlasVolumeName digest m.metadata.key.namespace m.metadata.name v.1) ∧
    ∀ fleet : Set RbdMachine, (∀ text, (digest text).toList.length = 10) →
      (∀ m ∈ fleet, ∀ m' ∈ fleet, ∀ t ∈ bootText m, ∀ t' ∈ bootText m',
        digest t = digest t' → t = t') →
      (∀ m ∈ fleet, '/' ∉ m.metadata.key.namespace.toList ∧ '/' ∉ m.metadata.name.toList) →
      m ∈ fleet → ∀ m' ∈ fleet, m'.metadata.key ≠ m.metadata.key → ∀ node' pools' ref',
        resolveAtlasRBDBoot digest node' pools' m' = .ok (some ref') →
          rbdImage ref' ≠ rbdImage ref := by
  obtain ⟨pool, hpool, v, hv, href, himage⟩ := resolve_eq_some h
  refine ⟨⟨pool, hpool, v, hv, href⟩, ?_⟩
  intro fleet hlen hinj hslash hm m' hm' hne node' pools' ref' h' hsame
  obtain ⟨-, -, v', hv', -, himage'⟩ := resolve_eq_some h'
  rw [himage, himage'] at hsame
  have htext := congrArg (split · '/') (hinj m' hm' m hm _ (Option.mem_map_of_mem _ hv') _
    (Option.mem_map_of_mem _ hv) (digest_eq_of_name hlen (Option.some.inj hsame)))
  obtain ⟨hns, hname⟩ := hslash m hm
  obtain ⟨hns', hname'⟩ := hslash m' hm'
  rw [split_text hns hname, split_text hns' hname'] at htext
  obtain ⟨hns, hrest⟩ := List.cons.inj htext
  exact hne (congrArg₂ ObjectKey.mk hns (List.cons.inj hrest).1)

/-- The sum in the name of a volume. -/
def shortSum (text : String) : String :=
  String.ofList ((hexEncode (Sha256.sum256 (text.toList.flatMap String.utf8EncodeChar))).take 10)

def cephMachine (name : String) : RbdMachine where
  metadata := plainMeta name []
  volumes := [("boot", some ⟨"rbd", ""⟩)]
  states := [("boot", ⟨"Ready", "rbd:vms/" ++ name ++ "-boot-" ++
    shortSum ("default/" ++ name ++ "/boot")⟩)]

def cephBoot (name : String) : Except String (Option String) :=
  resolveAtlasRBDBoot shortSum "n" ["vms"] (cephMachine name)

theorem boots_apart : cephBoot "a" = .ok (some "vms/a-boot-dd59135793") ∧
    rbdImage "vms/b-boot-6aa781b585" ≠ rbdImage "vms/a-boot-dd59135793" := by
  have ha : cephBoot "a" = .ok (some "vms/a-boot-dd59135793") := by decide +kernel
  refine ⟨ha, (rbd_boot_isolated ha).2 {m | m = cephMachine "a" ∨ m = cephMachine "b"} ?_ ?_ ?_
    (.inl rfl) (cephMachine "b") (.inr rfl) ?_ "n" ["vms"] _ ?_⟩
  · simp [shortSum, length_hexEncode, Sha256.length_sum256]
  · rintro m (rfl | rfl) m' (rfl | rfl) t ht t' ht' <;> cases ht <;> cases ht' <;> decide +kernel
  · rintro m (rfl | rfl) <;> decide +kernel
  · decide +kernel
  · decide +kernel

end Kairon.Snapshot
