import Kairon.Cluster.World
import Kairon.Network.Pushes

/-!
# The policy a VM is left under

A Machine that a policy selects is to be left under that policy. A policy that is being deleted
resets the Machines it selects without a look at the other policies, so it must not have its turn
after the policy that is to stay.

* `latest_turn_iff`: whose turn was the last one with a push
* `last_push_covers_iff`: when that was a policy that selects the Machine
-/

namespace Kairon.Network

open Infra Model Cluster List Option

/-- The VM of the Machine was last put under a policy that selects the Machine, with the fence of
its tenant merged in. -/
def LastPushCovers (s : Told) (m : Machine) (h : History) : Prop :=
  ∃ p ∈ s.policies, p.metadata.deleting = false ∧ covers p m = true ∧
    lastPush m.status.runtimeID h = some (s.pushFor p m)

/-- Some selecting policy that can be applied comes after every policy that is being deleted with
the finalizer on it and selects the Machine. -/
def AppliedLast (s : Told) (m : Machine) : Prop :=
  ∃ pre p post, s.policies = pre ++ p :: post ∧ p.metadata.deleting = false ∧ s.held p = true ∧
    covers p m = true ∧ ∀ q ∈ post, ¬(q.leaving = true ∧ covers q m = true)

variable {a : Config} {s : Told} {m : Machine} {b : Push}

theorem turn_of_selected (hm : OwnVM a s m)
    (distinct : (s.policies.map MachineNetworkPolicy.key).Nodup) {p q : MachineNetworkPolicy}
    (hp : p ∈ s.policies) (hcur : p.metadata.deleting = false) (hsel : covers p m = true)
    (hq : q ∈ s.policies) (hturn : turn a s m.status.runtimeID q = some b) :
    (q.leaving = true ∧ covers q m = true ∧ b = reset) ∨
      (q.metadata.deleting = false ∧ s.held q = true ∧ covers q m = true ∧ b = s.pushFor q m) := by
  rcases (turn_eq_some_iff hm).mp hturn with hleave | happly | ⟨-, -, hcov, ⟨name, -, hstale⟩, -⟩
  · exact .inl hleave
  · exact .inr happly
  · obtain ⟨-, -, -, -, -, hother⟩ := stale_eq_some hstale
    have hne : p.key ≠ q.key := by
      intro hkey
      simp [inj_on_of_nodup_map distinct hp hq hkey, hcov] at hsel
    have hselects : anotherPolicyStillSelects s.policies q m = true := by
      simp only [covers, Bool.and_eq_true, decide_eq_true_eq] at hsel
      refine List.any_eq_true.mpr ⟨p, hp, ?_⟩
      simp [hne, hcur, hsel.1, hsel.2]
    simp [hselects] at hother

theorem fallback_of_selected {p : MachineNetworkPolicy} (hp : p ∈ s.policies)
    (hcur : p.metadata.deleting = false) (hsel : covers p m = true)
    (hown : ∀ x ∈ s.machines, x.spec.nodeName = a.nodeName →
      x.status.runtimeID = m.status.runtimeID → x = m) :
    fallback a s m.status.runtimeID = none := by
  refine fallback_eq_none _ fun x hx hun hid => ?_
  simp only [unmatched, Bool.and_eq_true, decide_eq_true_eq, Bool.not_eq_true'] at hun
  rw [hown x hx hun.1.1.1 hid] at hun
  simp only [covers, Bool.and_eq_true, decide_eq_true_eq] at hsel
  have hany : anyCurrentPolicySelects s.policies m = true :=
    List.any_eq_true.mpr ⟨p, hp, by simp [hcur, hsel.1, hsel.2]⟩
  rw [hany] at hun
  cases hun.2

theorem latest_turn_iff (hm : OwnVM a s m)
    (distinct : (s.policies.map MachineNetworkPolicy.key).Nodup) {p : MachineNetworkPolicy}
    (hp : p ∈ s.policies) (hcur : p.metadata.deleting = false) (hsel : covers p m = true) :
    (∃ q ∈ s.policies, q.metadata.deleting = false ∧ covers q m = true ∧
        latest (turn a s m.status.runtimeID) s.policies = some (s.pushFor q m)) ↔
      AppliedLast s m := by
  constructor
  · rintro ⟨q, -, -, -, hlatest⟩
    obtain ⟨pre, x, post, hpol, hx, hpost⟩ := split_of_latest hlatest
    have hxmem : x ∈ s.policies := hpol ▸ mem_append_right pre mem_cons_self
    rcases turn_of_selected hm distinct hp hcur hsel hxmem hx with ⟨-, -, hreset⟩ | happly
    · cases hreset
    · refine ⟨pre, x, post, hpol, happly.1, happly.2.1, happly.2.2.1, fun y hy hleave => ?_⟩
      have hturn := (turn_eq_some_iff hm).mpr (.inl ⟨hleave.1, hleave.2, rfl⟩)
      simp [hpost y hy] at hturn
  · rintro ⟨pre, x, post, hpol, hxcur, hheld, hxcov, hpost⟩
    have hmem : ∀ y ∈ x :: post, y ∈ s.policies := fun y hy => hpol ▸ mem_append_right pre hy
    have hturn : turn a s m.status.runtimeID x = some (s.pushFor x m) :=
      (turn_eq_some_iff hm).mpr (.inr (.inl ⟨hxcur, hheld, hxcov, rfl⟩))
    rw [show latest (turn a s m.status.runtimeID) s.policies =
        (latest (turn a s m.status.runtimeID) post).or (some (s.pushFor x m)) by
      rw [hpol, latest_append, latest_cons, hturn, Option.or_assoc, some_or]]
    -- what comes after `x` either does nothing or is a selecting policy itself
    cases hlatest : latest (turn a s m.status.runtimeID) post with
    | none => exact ⟨x, hmem x mem_cons_self, hxcur, hxcov, none_or⟩
    | some b =>
      obtain ⟨y, hy, hyturn⟩ := exists_of_latest hlatest
      have hymem := hmem y (mem_cons_of_mem x hy)
      rcases turn_of_selected hm distinct hp hcur hsel hymem hyturn with
        ⟨hleave, hcov, -⟩ | ⟨hycur, -, hycov, rfl⟩
      · exact absurd ⟨hleave, hcov⟩ (hpost y hy)
      · exact ⟨y, hymem, hycur, hycov, some_or⟩

/-- For every pass in which the calls to FluxVM succeed, whatever the API server answers to
patches: a running Machine of the node that some policy selects is left under such a policy just
when it has a VM and one of those policies, holding the finalizer by then, has its turn after every
policy that is being deleted, holds the finalizer and selects the Machine. Two Machines of the node
do not share a VM, and a listing does not have two policies of one name. -/
theorem last_push_covers_iff (a : Config) (s : Told) (m : Machine) (listed : m ∈ s.machines)
    (here : m.spec.nodeName = a.nodeName) (running : m.status.phase = "Running")
    (own : m.status.runtimeID ≠ "" → ∀ x ∈ s.machines, x.spec.nodeName = a.nodeName →
      x.status.runtimeID = m.status.runtimeID → x = m)
    (distinct : (s.policies.map MachineNetworkPolicy.key).Nodup)
    (selected : ∃ p ∈ s.policies, p.metadata.deleting = false ∧ covers p m = true) :
    (reconcileNetworkResources a).Ends s.Answers
      (fun h _ => LastPushCovers s m h ↔ m.status.runtimeID ≠ "" ∧ AppliedLast s m) [] := by
  refine (reconcileNetworkResources_ends a s m.status.runtimeID).mono fun h _ hpush => ?_
  obtain ⟨p, hp, hcur, hsel⟩ := selected
  unfold LastPushCovers
  rw [hpush]
  by_cases hid : m.status.runtimeID = ""
  · rw [hid, latest_eq_none_iff.mpr fun q _ => turn_blank]
    rw [fallback_eq_none "" fun x _ hun hx => ?_]
    · simp
    · simp only [unmatched, Bool.and_eq_true, decide_eq_true_eq] at hun
      exact hun.1.2 hx
  · have hm : OwnVM a s m := ⟨listed, here, running, hid, own hid⟩
    rw [fallback_of_selected hp hcur hsel (own hid), none_or,
      latest_turn_iff hm distinct hp hcur hsel]
    exact (and_iff_right hid).symm

/-! ## The order of the turns -/

def vmPolicy (name : String) (deleting : Bool) : MachineNetworkPolicy where
  metadata :=
    { plainMeta name [] with finalizers := [finalizerNetworkPolicy], deleting := deleting }
  spec := ⟨"vm", [], { defaultAllow := false }, []⟩
  status := ⟨"", "", 0, none, false, []⟩

def vmMachine : Machine :=
  { plainMachine "vm" "node-a" twoCores with
    status := { blankStatus with phase := "Running", runtimeID := "r-1" } }

def vmPass (policies : List MachineNetworkPolicy) : Told :=
  ⟨[], policies, [vmMachine], fun _ => false⟩

def callsOf (a : Config) (s : Told) : History :=
  (Prog.answered s.answer [] (reconcileNetworkResources a)).2

theorem vmMachine_own {a : Config} {policies : List MachineNetworkPolicy} :
    ∀ x ∈ (vmPass policies).machines, x.spec.nodeName = a.nodeName →
      x.status.runtimeID = vmMachine.status.runtimeID → x = vmMachine :=
  fun _ hx _ _ => mem_singleton.mp hx

/-- `web` is applied first and then `old`, which is being deleted, resets the VM. -/
theorem reset_after_apply :
    ∃ (a : Config) (s : Told) (m : Machine), m ∈ s.machines ∧ m.spec.nodeName = a.nodeName ∧
      m.status.phase = "Running" ∧ m.status.runtimeID ≠ "" ∧
      (∀ x ∈ s.machines, x.spec.nodeName = a.nodeName →
        x.status.runtimeID = m.status.runtimeID → x = m) ∧
      (s.policies.map MachineNetworkPolicy.key).Nodup ∧
      (∃ p ∈ s.policies, p.metadata.deleting = false ∧ covers p m = true) ∧
      (∀ e, s.Answers ⟨e, s.answer e⟩) ∧ lastPush m.status.runtimeID (callsOf a s) = some reset ∧
      ¬LastPushCovers s m (callsOf a s) := by
  have hlast : lastPush "r-1" (callsOf ⟨"node-a", false⟩
      (vmPass [vmPolicy "web" false, vmPolicy "old" true])) = some reset := by decide +kernel
  refine ⟨⟨"node-a", false⟩, vmPass [vmPolicy "web" false, vmPolicy "old" true], vmMachine,
    mem_singleton.mpr rfl, rfl, rfl, by decide, vmMachine_own, by decide,
    ⟨_, mem_cons_self, rfl, by decide⟩, Told.answers_answer _, hlast, ?_⟩
  rintro ⟨p, -, -, -, hp⟩
  cases hp

theorem apply_after_reset :
    LastPushCovers (vmPass [vmPolicy "old" true, vmPolicy "web" false]) vmMachine
      (callsOf ⟨"node-a", false⟩ (vmPass [vmPolicy "old" true, vmPolicy "web" false])) := by
  have hpass := last_push_covers_iff ⟨"node-a", false⟩
    (vmPass [vmPolicy "old" true, vmPolicy "web" false]) vmMachine (mem_singleton.mpr rfl) rfl
    rfl (fun _ => vmMachine_own) (by decide)
    ⟨vmPolicy "web" false, mem_pair.mpr (.inr rfl), rfl, by decide⟩
  refine (hpass.answered _ (Told.answers_answer _)).mpr ⟨by decide, ?_⟩
  exact ⟨[vmPolicy "old" true], vmPolicy "web" false, [], rfl, rfl, by decide, by decide,
    fun _ hq => by cases hq⟩

end Kairon.Network
