import Kairon.Infra.Conf
import Kairon.Infra.Table
import Kairon.Network.Reconcile

/-!
# The API server and the nodes

The objects that the network pass reads and writes, and what FluxVM has on each node: the VMs with
the policy they are under, and the groups. Both are known by the object they come from.
-/

namespace Kairon.Network

open Infra Model Cluster Table

/-- What the cleanup of an object is about: the VMs under a policy, or the groups made for one. -/
inductive Kind where
  | policy
  | group
  deriving DecidableEq

def Kind.finalizer : Kind → String
  | .policy => finalizerNetworkPolicy
  | .group => finalizerNetworkGroup

structure World where
  groups : Table NetworkSecurityGroup.key
  policies : Table MachineNetworkPolicy.key
  machines : Table Machine.key
  /-- The VMs of a node by their id, with the object whose policy they are under, if any. -/
  vm : String → String → Option (Option ObjectKey)
  /-- The groups of a node by their name, with the object they were made for. -/
  group : String → String → Option ObjectKey

variable (node : String) (w : World)

namespace World

/-- The object that a VM, or a group, of a node goes back to. -/
def mark (kind : Kind) (node id : String) : Option ObjectKey :=
  match kind with
  | .policy => (w.vm node id).join
  | .group => w.group node id

def finalizers (kind : Kind) (k : ObjectKey) : Option (List String) :=
  match kind with
  | .policy => (w.policies.find k).map fun p => p.metadata.finalizers
  | .group => (w.groups.find k).map fun g => g.metadata.finalizers

def holds (kind : Kind) (k : ObjectKey) : Bool :=
  (w.finalizers kind k).any fun fs => fs.contains kind.finalizer

def setVM (node id : String) (owner : Option ObjectKey) : World :=
  { w with vm := fun n i => if n = node ∧ i = id then (w.vm n i).map fun _ => owner else w.vm n i }

def setGroup (node name : String) (owner : Option ObjectKey) : World :=
  { w with group := fun n i => if n = node ∧ i = name then owner else w.group n i }

end World

/-- What a call of the agent of `node` does when it is carried out. An object that is being deleted
goes with its last finalizer. -/
def effect : NetworkOp → World
  | .patchNetworkSecurityGroup k fs =>
    { w with
      groups := w.groups.settle k (·.patchFinalizers fs) (·.key_patchFinalizers fs) fun g =>
        g.metadata.deleting && g.metadata.finalizers = [] }
  | .patchNetworkSecurityGroupStatus k s =>
    { w with groups := w.groups.edit k (·.patchStatus s) (·.key_patchStatus s) }
  | .patchMachineNetworkPolicy k fs =>
    { w with
      policies := w.policies.settle k (·.patchFinalizers fs) (·.key_patchFinalizers fs) fun p =>
        p.metadata.deleting && p.metadata.finalizers = [] }
  | .patchMachineNetworkPolicyStatus k s =>
    { w with policies := w.policies.edit k (·.patchStatus s) (·.key_patchStatus s) }
  | .upsertNetworkGroup owner g => w.setGroup node g.name (some owner)
  | .deleteNetworkGroup name => w.setGroup node name none
  | .setVMNetworkPolicy owner id _ => w.setVM node id owner
  | _ => w

/-- The answers that may be given. What is not stored may be answered in any way. -/
def Answers : (e : NetworkOp) → e.Ans → Bool
  | .listNetworkSecurityGroups, .ok gs => gs.isPerm w.groups.rows
  | .listMachineNetworkPolicies, .ok ps => ps.isPerm w.policies.rows
  | .listMachines, .ok ms => ms.isPerm w.machines.rows
  | .patchNetworkSecurityGroup k _, .ok () => (w.groups.find k).isSome
  | .patchNetworkSecurityGroupStatus k _, .ok () => (w.groups.find k).isSome
  | .patchMachineNetworkPolicy k _, .ok () => (w.policies.find k).isSome
  | .patchMachineNetworkPolicyStatus k _, .ok () => (w.policies.find k).isSome
  | _, _ => true

def failed : (e : NetworkOp) → e.Ans → Bool
  | .patchNetworkSecurityGroup _ _, .error _ | .patchNetworkSecurityGroupStatus _ _, .error _
  | .patchMachineNetworkPolicy _ _, .error _ | .patchMachineNetworkPolicyStatus _ _, .error _
  | .upsertNetworkGroup _ _, .error _ | .deleteNetworkGroup _, .error _
  | .setVMNetworkPolicy _ _ _, .error _ => true
  | _, _ => false

def outcomes (e : NetworkOp) (a : e.Ans) : List World :=
  if Answers w e a then
    if failed e a then [w, effect node w e] else [effect node w e]
  else []

theorem mem_outcomes_iff {node : String} {w w' : World} {e : NetworkOp} {a : e.Ans} :
    w' ∈ outcomes node w e a ↔
      Answers w e a = true ∧ (w' = effect node w e ∨ failed e a = true ∧ w' = w) := by
  unfold outcomes
  by_cases ha : Answers w e a = true <;> by_cases hf : failed e a = true <;> simp [ha, hf, or_comm]

/-! ## What the calls do -/

def writes : NetworkOp → Option (Kind × String × Option ObjectKey)
  | .upsertNetworkGroup owner g => some (.group, g.name, some owner)
  | .deleteNetworkGroup name => some (.group, name, none)
  | .setVMNetworkPolicy owner id _ => some (.policy, id, owner)
  | _ => none

variable {node w} {w' : World} {e : NetworkOp} {a : e.Ans} {kind : Kind} {n id : String}
  {k : ObjectKey}

/-- A place that belongs to an object after a call was carried out belonged to it before and was
left alone, or the call gave it to the object. -/
theorem mark_effect (h : (effect node w e).mark kind n id = some k) :
    (w.mark kind n id = some k ∧ (n = node → ∀ owner, writes e ≠ some (kind, id, owner))) ∨
      n = node ∧ writes e = some (kind, id, some k) := by
  cases e with
  | upsertNetworkGroup owner g =>
    cases kind with
    | policy => exact .inl ⟨h, fun _ _ => nofun⟩
    | group =>
      simp only [effect, World.mark, World.setGroup] at h
      split at h
      · next here =>
        cases h
        exact .inr ⟨here.1, by rw [here.2]; rfl⟩
      · next elsewhere =>
        refine .inl ⟨h, ?_⟩
        rintro rfl _ ⟨⟩
        exact elsewhere ⟨rfl, rfl⟩
  | deleteNetworkGroup name =>
    cases kind with
    | policy => exact .inl ⟨h, fun _ _ => nofun⟩
    | group =>
      obtain ⟨elsewhere, h⟩ := Option.ite_none_left_eq_some.mp h
      refine .inl ⟨h, ?_⟩
      rintro rfl _ ⟨⟩
      exact elsewhere ⟨rfl, rfl⟩
  | setVMNetworkPolicy owner i policy =>
    cases kind with
    | group => exact .inl ⟨h, fun _ _ => nofun⟩
    | policy =>
      simp only [effect, World.mark, World.setVM] at h
      split at h
      · next here =>
        cases hvm : w.vm n id with
        | none => simp [hvm] at h
        | some _ =>
          have howner : owner = some k := by simpa [hvm] using h
          exact .inr ⟨here.1, by rw [here.2, ← howner]; rfl⟩
      · next elsewhere =>
        refine .inl ⟨h, ?_⟩
        rintro rfl _ ⟨⟩
        exact elsewhere ⟨rfl, rfl⟩
  | _ => exact .inl ⟨h, fun _ _ => nofun⟩

def wrote (kind : Kind) (id : String) (ev : Event NetworkOp.Ans) : Bool :=
  (writes ev.op).any (fun x => x.1 = kind ∧ x.2.1 = id) && !failed ev.op ev.ans

theorem mark_of_call (hw : w' ∈ outcomes node w e a) (h : w'.mark kind n id = some k) :
    (w.mark kind n id = some k ∧ (n = node → wrote kind id ⟨e, a⟩ = false)) ∨
      n = node ∧ writes e = some (kind, id, some k) := by
  rcases (mem_outcomes_iff.mp hw).2 with rfl | ⟨hf, rfl⟩
  · refine (mark_effect h).imp_left fun ⟨hk, hno⟩ => ⟨hk, fun hn => ?_⟩
    cases hx : writes e with
    | none => simp [wrote, hx]
    | some x =>
      obtain ⟨kind', id', owner⟩ := x
      have hne : ¬(kind' = kind ∧ id' = id) := by
        rintro ⟨rfl, rfl⟩
        exact hno hn owner hx
      simp [wrote, hx, hne]
  · exact .inl ⟨h, fun _ => by simp [wrote, hf]⟩

def refinalizes : NetworkOp → Option (Kind × ObjectKey × List String)
  | .patchNetworkSecurityGroup k fs => some (.group, k, fs)
  | .patchMachineNetworkPolicy k fs => some (.policy, k, fs)
  | _ => none

theorem writes_of_refinalizes {x : Kind × ObjectKey × List String} (h : refinalizes e = some x) :
    writes e = none := by
  cases e <;> first | rfl | cases h

theorem finalizers_effect (node : String) (w : World) (e : NetworkOp) (kind : Kind)
    (k : ObjectKey) : (effect node w e).finalizers kind k = w.finalizers kind k ∨
      ∃ fs, refinalizes e = some (kind, k, fs) ∧ (fs ≠ [] →
          (effect node w e).finalizers kind k = (w.finalizers kind k).map fun _ => fs) := by
  cases e with
  | patchNetworkSecurityGroup k' fs =>
    cases kind with
    | policy => exact .inl rfl
    | group =>
      simp only [effect, World.finalizers, find_settle]
      split
      · next hk =>
        subst hk
        refine .inr ⟨fs, rfl, fun hne => ?_⟩
        cases w.groups.find k <;> simp [Option.filter, NetworkSecurityGroup.patchFinalizers, hne]
      · exact .inl rfl
  | patchMachineNetworkPolicy k' fs =>
    cases kind with
    | group => exact .inl rfl
    | policy =>
      simp only [effect, World.finalizers, find_settle]
      split
      · next hk =>
        subst hk
        refine .inr ⟨fs, rfl, fun hne => ?_⟩
        cases w.policies.find k <;> simp [Option.filter, MachineNetworkPolicy.patchFinalizers, hne]
      · exact .inl rfl
  | patchNetworkSecurityGroupStatus k' s =>
    cases kind with
    | policy => exact .inl rfl
    | group =>
      simp only [effect, World.finalizers, find_edit]
      split
      · cases w.groups.find k <;> exact .inl rfl
      · exact .inl rfl
  | patchMachineNetworkPolicyStatus k' s =>
    cases kind with
    | group => exact .inl rfl
    | policy =>
      simp only [effect, World.finalizers, find_edit]
      split
      · cases w.policies.find k <;> exact .inl rfl
      · exact .inl rfl
  | _ => cases kind <;> exact .inl rfl

theorem holds_of_call (hw : w' ∈ outcomes node w e a) (hold : w.holds kind k = true)
    (hnew : w'.holds kind k = false) :
    ∃ fs, refinalizes e = some (kind, k, fs) ∧ kind.finalizer ∉ fs := by
  unfold World.holds at hold hnew
  rcases (mem_outcomes_iff.mp hw).2 with rfl | ⟨-, rfl⟩
  · rcases finalizers_effect node w e kind k with hsame | ⟨fs, he, hfs⟩
    · rw [hsame, hold] at hnew
      cases hnew
    · refine ⟨fs, he, fun hmem => ?_⟩
      rw [hfs (List.ne_nil_of_mem hmem)] at hnew
      cases hf : w.finalizers kind k with
      | none => simp [hf] at hold
      | some _ => simp [hf, hmem] at hnew
  · rw [hold] at hnew
    cases hnew

end Kairon.Network
