import Kairon.Cluster.World
import Kairon.Controller.Cilium

/-!
# The Cilium identity of a Machine

What Cilium lets a Machine do goes by the labels of its CiliumExternalWorkload. Those that say which
Machine it is are written first, so other labels go over them; and the name of the object is the
namespace and the name with all that a DNS label does not have turned into dashes.

* `makes_identifying_iff`, `makes_apart_iff`: the labels and the names that are written
* `own_identity_iff`: the Machines that keep to their own identity
-/

namespace Kairon.Controller

open Infra GoText Model Cluster List

variable {attach : Bool} {m m' : AttachMachine} {k k' : ObjectKey} {Q : AttachOp → Prop}
  {past : List (Event AttachOp.Ans)}

/-! ## Labels -/

def Identifies (k : ObjectKey) (labels : StringMap) : Prop :=
  ∀ e ∈ identityLabels k, labels.lookup e.1 = some e.2

theorem lookup_overlay (base upper : StringMap) {key : String} (hkey : key ≠ "") :
    (overlay base upper).lookup key = (upper.lookup key).or (base.lookup key) := by
  induction upper with
  | nil => rfl
  | cons e upper ih =>
    obtain ⟨k, v⟩ := e
    rw [lookup_cons]
    by_cases hk : key = k
    · subst hk
      rw [beq_self_eq_true]
      dsimp only [overlay, foldr_cons]
      rw [if_neg hkey, StringMap.lookup_patchKey, if_pos rfl]
      rfl
    · rw [beq_eq_false_iff_ne.mpr hk]
      dsimp only [overlay, foldr_cons]
      split
      · exact ih
      · rwa [StringMap.lookup_patchKey, if_neg hk]

theorem lookup_identityLabels {e : String × String} (he : e ∈ identityLabels k) :
    e.1 ≠ "" ∧ (identityLabels k).lookup e.1 = some e.2 := by
  simp only [identityLabels, mem_cons, not_mem_nil, or_false] at he
  rcases he with rfl | rfl | rfl
  · exact ⟨show labelManagedBy ≠ "" by decide, rfl⟩
  · exact ⟨show labelMachineNamespace ≠ "" by decide, rfl⟩
  · exact ⟨show labelMachineName ≠ "" by decide, rfl⟩

/-- The labels of a workload name the Machine unless the Machine's own labels, or those of its spec,
have something else in their place. -/
theorem identifies_workloadLabels_iff :
    Identifies m.key (workloadLabels m) ↔ ∀ e ∈ identityLabels m.key, ∀ v,
      (m.network.ciliumLabels.lookup e.1).or (m.metadata.labels.lookup e.1) = some v → v = e.2 := by
  refine forall₂_congr fun e he => ?_
  obtain ⟨hkey, hid⟩ := lookup_identityLabels he
  rw [workloadLabels, lookup_overlay _ _ hkey, lookup_overlay _ _ hkey, hid, ← Option.or_assoc]
  cases (m.network.ciliumLabels.lookup e.1).or (m.metadata.labels.lookup e.1) <;> simp

/-! ## Names -/

def workloadText (k : ObjectKey) : List Char :=
  (k.namespace ++ "-" ++ k.name).toList.map dnsChar

theorem toList_externalWorkloadName (k : ObjectKey) : (externalWorkloadName k).toList =
      (("kairon-".toList ++ workloadText k).take 253).rdropWhile (· == '-') := by
  have hraw : ("kairon-" ++ k.namespace ++ "-" ++ k.name).toList.map dnsChar =
      "kairon-".toList ++ workloadText k := by
    simp only [workloadText, String.append_assoc, String.toList_append, map_append]
    rfl
  have hleft : ("kairon-".toList ++ workloadText k).dropWhile (· == '-') =
      "kairon-".toList ++ workloadText k := rfl
  have hne : String.ofList (("kairon-".toList ++ workloadText k).rdropWhile (· == '-')) ≠ "" := by
    intro he
    rw [← String.toList_inj, String.toList_ofList] at he
    have := rdropWhile_eq_nil_iff.mp he 'k' mem_cons_self
    exact absurd this (by decide)
  unfold externalWorkloadName
  simp only [hraw, trim, trimRight, String.toList_ofList, hleft]
  rw [if_neg hne, apply_ite String.toList]
  simp only [String.toList_ofList]
  exact rdropWhile_cut ..

/-- Two Machines have one workload exactly if their namespaces and names, joined by a dash, look
the same as far as the name of a workload goes. -/
theorem externalWorkloadName_eq_iff : externalWorkloadName k = externalWorkloadName k' ↔
      ∀ i < 246, (workloadText k).getD i '-' = (workloadText k').getD i '-' := by
  rw [← String.toList_inj, toList_externalWorkloadName, toList_externalWorkloadName,
    rdropWhile_eq_iff]
  constructor
  · intro h i hi
    have := h (i + 7)
    rw [getD_take, getD_take, if_pos (by omega), if_pos (by omega),
      getD_append_right _ _ _ _ (Nat.le_add_left 7 i),
      getD_append_right _ _ _ _ (Nat.le_add_left 7 i)] at this
    exact this
  · intro h i
    rw [getD_take, getD_take]
    split
    · next hi =>
      by_cases hpre : i < "kairon-".toList.length
      · rw [getD_append _ _ _ _ hpre, getD_append _ _ _ _ hpre]
      · have hlen : "kairon-".toList.length = 7 := rfl
        rw [getD_append_right _ _ _ _ (Nat.le_of_not_lt hpre),
          getD_append_right _ _ _ _ (Nat.le_of_not_lt hpre)]
        exact h _ (by omega)
    · rfl

/-! ## Calls -/

def Makes (attach : Bool) (m : AttachMachine) (Q : AttachOp → Prop) : Prop :=
  (reconcileMachineCiliumAttach attach m).Follows (fun _ e => Q e) (fun _ _ => True) []

theorem Makes.mono {Q' : AttachOp → Prop} (h : Makes attach m Q) (hQ : ∀ e, Q e → Q' e) :
    Makes attach m Q' :=
  Prog.Follows.mono h (fun _ => hQ) fun _ _ => id

def AttachOp.workload? : AttachOp → Option String
  | getCiliumExternalWorkload name | createCiliumExternalWorkload name _
  | patchCiliumExternalWorkload name _ | deleteCiliumExternalWorkload name => some name
  | _ => none

def AttachOp.labels? : AttachOp → Option StringMap
  | createCiliumExternalWorkload _ labels | patchCiliumExternalWorkload _ labels => some labels
  | _ => none

def attaches (attach : Bool) (m : AttachMachine) : Bool :=
  !m.metadata.deleting && attach && m.network.ciliumAttach && (validateCiliumAttach m.network).isOk

def tends (attach : Bool) (m : AttachMachine) : Bool :=
  attaches attach m ||
    (m.metadata.deleting || !(attach && m.network.ciliumAttach)) &&
      m.metadata.finalizers.contains finalizerCiliumAttach

structure OwnCall (attach : Bool) (m : AttachMachine) (e : AttachOp) : Prop where
  workload : ∀ name, e.workload? = some name →
    name = externalWorkloadName m.key ∧ tends attach m = true
  labels : ∀ labels, e.labels? = some labels → labels = workloadLabels m ∧ attaches attach m = true

theorem OwnCall.of_other {e : AttachOp} (hw : e.workload? = none) (hl : e.labels? = none) :
    OwnCall attach m e where
  workload := by simp [hw]
  labels := by simp [hl]

theorem ensureWorkload_follows (h : attaches attach m = true) :
    (ensureWorkload (externalWorkloadName m.key) (workloadLabels m)).Follows
      (fun _ e => OwnCall attach m e) (fun _ _ => True) past := by
  have own : ∀ e : AttachOp, e.workload? = some (externalWorkloadName m.key) →
      (∀ l, e.labels? = some l → l = workloadLabels m) → OwnCall attach m e := by
    intro e hw hl
    refine ⟨fun name hname => ?_, fun l hlabels => ⟨hl l hlabels, h⟩⟩
    rw [hw] at hname
    exact ⟨(Option.some.inj hname).symm, by rw [tends, h]; rfl⟩
  refine ⟨own _ rfl (by simp [AttachOp.labels?]), fun a => ?_⟩
  cases a with
  | error e =>
    dsimp only [Prog.bind]
    split
    · exact ⟨own _ rfl (by simp [AttachOp.labels?]), fun _ => trivial⟩
    · trivial
  | ok cew =>
    dsimp only [Prog.bind]
    split
    · refine Prog.Follows.andThen_any ⟨own _ rfl (by simp [AttachOp.labels?]), fun _ => trivial⟩ ?_
      exact fun _ _ => trivial
    · trivial

theorem releaseMachine_follows :
    (releaseMachine m).Follows (fun _ e => OwnCall attach m e) (fun _ _ => True) past :=
  ⟨.of_other rfl rfl, fun _ => trivial⟩

theorem holdMachine_follows :
    (holdMachine m).Follows (fun _ e => OwnCall attach m e) (fun _ _ => True) past := by
  unfold holdMachine
  split
  · trivial
  · exact ⟨.of_other rfl rfl, fun _ => trivial⟩

theorem reconcileMachineCiliumAttach_follows (attach : Bool) (m : AttachMachine) :
    Makes attach m (OwnCall attach m) := by
  have delete : tends attach m = true →
      OwnCall attach m (.deleteCiliumExternalWorkload (externalWorkloadName m.key)) := by
    intro h
    refine ⟨fun name hname => ⟨(Option.some.inj hname).symm, h⟩, nofun⟩
  unfold Makes reconcileMachineCiliumAttach
  dsimp only
  split
  · next hdel =>
    split
    · trivial
    · next hf =>
      have ht : tends attach m = true := by
        rw [tends, hdel, Bool.eq_true_of_not_eq_false hf, Bool.true_or, Bool.and_true, Bool.or_true]
      exact Prog.Follows.andThen_any ⟨delete ht, fun _ => trivial⟩ fun _ _ =>
        releaseMachine_follows
  · next hdel =>
    split
    · next hwant =>
      split
      · trivial
      · next hf =>
        have ht : tends attach m = true := by
          rw [tends, hwant, Bool.eq_true_of_not_eq_false hf, Bool.not_false, Bool.or_true,
            Bool.and_true, Bool.or_true]
        exact ⟨delete ht, fun _ => releaseMachine_follows⟩
    · next hwant =>
      split
      · exact ⟨.of_other rfl rfl, fun _ => trivial⟩
      · next hv =>
        have ha : attaches attach m = true := by
          simp only [Bool.not_eq_false, Bool.and_eq_true] at hwant
          simp [attaches, hdel, hwant.1, hwant.2, hv, Except.isOk, Except.toBool]
        refine holdMachine_follows.andThen_any fun _ _ => ?_
        refine (ensureWorkload_follows ha).andThen_any fun _ cew => ?_
        refine Prog.Follows.andThen_any ⟨.of_other rfl rfl, fun _ => trivial⟩ fun _ _ => ?_
        split
        · exact ⟨.of_other rfl rfl, fun _ => trivial⟩
        · trivial

theorem creates_of_ensureWorkload {name : String} {labels : StringMap}
    {past : List (Event AttachOp.Ans)}
    {f : CiliumExternalWorkload → Prog AttachOp.Ans (Except String Unit)}
    (h : ((ensureWorkload name labels).andThen f).Follows (fun _ e => Q e) (fun _ _ => True) past) :
    Q (.getCiliumExternalWorkload name) ∧ Q (.createCiliumExternalWorkload name labels) :=
  ⟨h.1, (h.2 (.error ⟨true, ""⟩)).1⟩

theorem Makes.create (h : Makes attach m Q) (ha : attaches attach m = true) :
    Q (.getCiliumExternalWorkload (externalWorkloadName m.key)) ∧
      Q (.createCiliumExternalWorkload (externalWorkloadName m.key) (workloadLabels m)) := by
  simp only [attaches, Bool.and_eq_true, Bool.not_eq_true'] at ha
  obtain ⟨⟨⟨hdel, hattach⟩, hspec⟩, hv⟩ := ha
  unfold Makes reconcileMachineCiliumAttach at h
  simp only [hdel, hattach, hspec, Bool.false_eq_true, if_false, Bool.and_self] at h
  cases hval : validateCiliumAttach m.network with
  | error e =>
    rw [hval] at hv
    cases hv
  | ok u =>
    simp only [hval] at h
    unfold holdMachine at h
    by_cases hf : m.metadata.finalizers.contains finalizerCiliumAttach = true
    · rw [if_pos hf] at h
      exact creates_of_ensureWorkload h
    · rw [if_neg hf] at h
      exact creates_of_ensureWorkload (h.2 (.ok ()))

theorem Makes.workload (h : Makes attach m Q) (ht : tends attach m = true) :
    ∃ e : AttachOp, e.workload? = some (externalWorkloadName m.key) ∧ Q e := by
  by_cases ha : attaches attach m = true
  · exact ⟨_, rfl, (h.create ha).1⟩
  · refine ⟨.deleteCiliumExternalWorkload (externalWorkloadName m.key), rfl, ?_⟩
    rw [tends, Bool.eq_false_of_not_eq_true ha, Bool.false_or, Bool.and_eq_true] at ht
    unfold Makes reconcileMachineCiliumAttach at h
    simp only [ht.2, Bool.true_eq_false, if_false] at h
    split at h
    · exact h.1
    · next hdel =>
      rw [Bool.eq_false_of_not_eq_true hdel, Bool.false_or, Bool.not_eq_true'] at ht
      rw [if_pos ht.1] at h
      exact h.1

/-! ## Identities -/

/-- No Machine takes on the identity of another: the labels that are written for `m` name it, and
no workload is used for `m` and for another Machine `m'`. -/
structure OwnIdentity (attach : Bool) (m m' : AttachMachine) : Prop where
  labels : Makes attach m fun e => ∀ labels, e.labels? = some labels → Identifies m.key labels
  apart : m.key ≠ m'.key → ∀ name, (Makes attach m fun e => e.workload? ≠ some name) ∨
      Makes attach m' fun e => e.workload? ≠ some name

/-- The labels of an attached Machine and of its spec agree with the identity labels where they have
them, and the two Machines do not have one workload: they are the same, or one of them has nothing
to do with workloads, or one of the first 246 characters of namespace and name is different, where
upper and lower case are the same, other characters than letters, digits and dashes are dashes,
and dashes follow. -/
structure Unmixed (attach : Bool) (m m' : AttachMachine) : Prop where
  labels : attaches attach m = true → ∀ e ∈ identityLabels m.key, ∀ v,
    (m.network.ciliumLabels.lookup e.1).or (m.metadata.labels.lookup e.1) = some v → v = e.2
  names : m.key = m'.key ∨ tends attach m = false ∨ tends attach m' = false ∨
    ∃ i < 246, (workloadText m.key).getD i '-' ≠ (workloadText m'.key).getD i '-'

theorem makes_identifying_iff :
    (Makes attach m fun e => ∀ labels, e.labels? = some labels → Identifies m.key labels) ↔
      (attaches attach m = true → Identifies m.key (workloadLabels m)) := by
  constructor
  · intro h ha
    exact (h.create ha).2 _ rfl
  · intro h
    refine (reconcileMachineCiliumAttach_follows attach m).mono fun e he labels hl => ?_
    obtain ⟨rfl, ha⟩ := he.labels labels hl
    exact h ha

theorem makes_apart_iff {name : String} : (Makes attach m fun e => e.workload? ≠ some name) ↔
      (tends attach m = true → externalWorkloadName m.key ≠ name) := by
  constructor
  · intro h ht hname
    obtain ⟨e, he, hne⟩ := h.workload ht
    exact hne (he.trans (congrArg some hname))
  · intro h
    refine (reconcileMachineCiliumAttach_follows attach m).mono fun e he hw => ?_
    obtain ⟨hname, ht⟩ := he.workload name hw
    exact h ht hname.symm

/-- A Machine keeps to its own identity beside another one exactly if the two are not mixed up. -/
theorem own_identity_iff (attach : Bool) (m m' : AttachMachine) :
    OwnIdentity attach m m' ↔ Unmixed attach m m' := by
  have hlabels : (Makes attach m fun e =>
      ∀ labels, e.labels? = some labels → Identifies m.key labels) ↔ _ :=
    makes_identifying_iff.trans (imp_congr_right fun _ => identifies_workloadLabels_iff)
  have hnames : (m.key ≠ m'.key → ∀ name, (Makes attach m fun e => e.workload? ≠ some name) ∨
      Makes attach m' fun e => e.workload? ≠ some name) ↔
      (m.key = m'.key ∨ tends attach m = false ∨ tends attach m' = false ∨
        ∃ i < 246, (workloadText m.key).getD i '-' ≠ (workloadText m'.key).getD i '-') := by
    have hdiff : (∃ i < 246, (workloadText m.key).getD i '-' ≠ (workloadText m'.key).getD i '-') ↔
        externalWorkloadName m.key ≠ externalWorkloadName m'.key := by
      rw [ne_eq, externalWorkloadName_eq_iff]
      simp only [not_forall, exists_prop, ne_eq]
    simp only [makes_apart_iff, hdiff]
    constructor
    · intro h
      by_cases hk : m.key = m'.key
      · exact .inl hk
      · rcases h hk (externalWorkloadName m.key) with h | h
        · exact .inr (.inl (Bool.eq_false_of_not_eq_true fun ht => h ht rfl))
        · by_cases ht : tends attach m' = true
          · exact .inr (.inr (.inr (h ht).symm))
          · exact .inr (.inr (.inl (Bool.eq_false_of_not_eq_true ht)))
    · rintro (hk | ht | ht | hne) hk' name
      · exact absurd hk hk'
      · exact .inl fun h => absurd h (by rw [ht]; decide)
      · exact .inr fun h => absurd h (by rw [ht]; decide)
      · by_cases hname : externalWorkloadName m.key = name
        · exact .inr fun _ h => hne (hname.trans h.symm)
        · exact .inl fun _ => hname
  exact ⟨fun h => ⟨hlabels.mp h.labels, hnames.mp h.apart⟩,
    fun h => ⟨hlabels.mpr h.labels, hnames.mpr h.names⟩⟩

def attachable («namespace» name : String) (ciliumLabels : StringMap) : AttachMachine where
  metadata := { plainMeta name [] with «namespace» := «namespace» }
  network :=
    { ciliumAttach := true, mode := "tap", netns := true, dataplaneMode := ""
      ciliumLabels := ciliumLabels, podUID := "" }
  status := blankStatus

/-- A Machine whose spec asks for the labels of another one gets them, and Machines of two
namespaces share a workload. -/
theorem identity_taken : ¬OwnIdentity true
        (attachable "dev" "web" [(labelMachineNamespace, "prod"), (labelMachineName, "db")])
        (attachable "prod" "db" []) ∧
      ¬OwnIdentity true (attachable "a-b" "c" []) (attachable "a" "b-c" []) := by
  constructor
  · intro h
    have hname := makes_identifying_iff.mp h.labels (by decide) (labelMachineName, "web")
      (by decide)
    exact absurd hname (by decide)
  · intro h
    rcases h.apart (by decide) "kairon-a-b-c" with h | h
    · exact makes_apart_iff.mp h (by decide) (by decide)
    · exact makes_apart_iff.mp h (by decide) (by decide)

theorem own_identity_iff_plain :
    OwnIdentity true (attachable "dev" "web" [("tier", "front")]) (attachable "prod" "db" []) := by
  refine (own_identity_iff _ _ _).mpr ⟨fun _ => ?_, .inr (.inr (.inr ⟨0, by decide, by decide⟩))⟩
  have hfree : ∀ e ∈ identityLabels (attachable "dev" "web" [("tier", "front")]).key,
      ([("tier", "front")].lookup e.1).or
        ((attachable "dev" "web" [("tier", "front")]).metadata.labels.lookup e.1) = none := by
    decide
  intro e he v hv
  have := (hfree e he).symm.trans hv
  cases this

end Kairon.Controller
