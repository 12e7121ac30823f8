import Kairon.Network.World

/-!
# What the network pass does

Which calls the pass of an agent makes, seen from the calls it has made before: what it has been
told decides what it writes for whom, and what it cleans up before it takes off a finalizer.
-/

namespace Kairon.Network

open Infra Model Cluster List

abbrev History := List (Event NetworkOp.Ans)

def groupsSeen : History → List NetworkSecurityGroup
  | [] => []
  | ⟨.listNetworkSecurityGroups, .ok gs⟩ :: _ => gs
  | _ :: h => groupsSeen h

def policiesSeen : History → List MachineNetworkPolicy
  | [] => []
  | ⟨.listMachineNetworkPolicies, .ok ps⟩ :: _ => ps
  | _ :: h => policiesSeen h

def machinesSeen : History → Option (List Machine)
  | [] => none
  | ⟨.listMachines, .ok ms⟩ :: _ => some ms
  | _ :: h => machinesSeen h

variable (kind : Kind) (what node : String)

def Current (h : History) (k : ObjectKey) : Prop :=
  match kind with
  | .policy => ∃ p ∈ policiesSeen h, p.key = k ∧ p.metadata.deleting = false
  | .group => ∃ g ∈ groupsSeen h, g.key = k ∧ g.metadata.deleting = false

/-- The pass was told that the object is being deleted and holds the finalizer; `ids` is what it
finds on its node to clean up. -/
def Plan (h : History) (k : ObjectKey) (ids : List String) : Prop :=
  match kind with
  | .policy => ∃ ms, machinesSeen h = some ms ∧ ∃ p ∈ policiesSeen h, p.key = k ∧
      p.leaving = true ∧ ids = (ms.filter (reaches node p)).map fun m => m.status.runtimeID
  | .group => ∃ g ∈ groupsSeen h, g.key = k ∧ g.leaving = true ∧ ids = [g.fluxGroupName]

/-- Finalizers written without that of the agents are those of an object that is being deleted,
for which everything planned has been done. -/
def Releases (h : History) (k : ObjectKey) (fs : List String) : Prop :=
  kind.finalizer ∈ fs ∨
    ∃ ids, Plan kind node h k ids ∧ ∀ id ∈ ids, ∃ ev ∈ h, wrote kind id ev = true

def NetworkRule (h : History) : NetworkOp → Prop
  | .listNetworkSecurityGroups => h = []
  | .listMachineNetworkPolicies => machinesSeen h = none
  | .listMachines => machinesSeen h = none ∧ ∀ ev ∈ h, ∀ id, wrote .policy id ev = false
  | .upsertNetworkGroup owner _ => Current .group h owner
  | .setVMNetworkPolicy (some owner) _ _ => Current .policy h owner
  | .patchNetworkSecurityGroup k fs => Releases .group node h k fs
  | .patchMachineNetworkPolicy k fs => Releases .policy node h k fs
  | _ => True

variable {a : Config} {h : History}

abbrev Anyhow {α : Type} : History → α → Prop := fun _ _ => True

/-- Started after calls of which `P` holds, the program makes allowed calls and keeps `P`. -/
abbrev Keeping {α : Type} (a : Config) (P : History → Prop) (p : NetM α) (h : History) : Prop :=
  P h → p.Follows (NetworkRule a.nodeName) (fun h' _ => P h') h

/-! ## The groups -/

structure AtGroups (groups : List NetworkSecurityGroup) (h : History) : Prop where
  seen : groupsSeen h = groups
  unlisted : machinesSeen h = none
  unwritten : ∀ ev ∈ h, ∀ id, wrote .policy id ev = false

def GroupCall : NetworkOp → Prop
  | .patchNetworkSecurityGroup _ _ | .patchNetworkSecurityGroupStatus _ _
  | .upsertNetworkGroup _ _ | .deleteNetworkGroup _ => True
  | _ => False

theorem AtGroups.call {groups : List NetworkSecurityGroup} (hs : AtGroups groups h)
    {e : NetworkOp} (he : GroupCall e) (r : e.Ans) : AtGroups groups (⟨e, r⟩ :: h) := by
  cases e with
  | patchNetworkSecurityGroup | patchNetworkSecurityGroupStatus | upsertNetworkGroup
  | deleteNetworkGroup =>
    exact ⟨hs.seen, hs.unlisted, forall_mem_cons.mpr ⟨fun _ => rfl, hs.unwritten⟩⟩
  | _ => exact he.elim

variable {groups : List NetworkSecurityGroup} {g : NetworkSecurityGroup}

theorem deleteSecurityGroup_follows (hg : g ∈ groups) (hdel : g.metadata.deleting = true) :
    Keeping a (AtGroups groups) (deleteSecurityGroup g) h := by
  intro hs
  unfold deleteSecurityGroup
  split
  · next hfin =>
    refine ⟨trivial, fun r => ?_⟩
    have hs' := hs.call (e := .deleteNetworkGroup g.fluxGroupName) trivial r
    match r with
    | .error e => exact hs'
    | .ok () =>
      have hplan : Plan .group a.nodeName (⟨.deleteNetworkGroup g.fluxGroupName, .ok ()⟩ :: h) g.key
          [g.fluxGroupName] :=
        ⟨g, hs'.seen ▸ hg, rfl, by rw [NetworkSecurityGroup.leaving, hdel, hfin]; rfl, rfl⟩
      refine ⟨.inr ⟨_, hplan, ?_⟩, fun r => hs'.call (by trivial) r⟩
      simp [wrote, writes, failed]
  · exact hs

theorem holdSecurityGroup_follows : Keeping a (AtGroups groups) (holdSecurityGroup g) h := by
  intro hs
  unfold holdSecurityGroup
  split
  · exact hs
  · exact ⟨.inl (by simp [Kind.finalizer]), fun r => hs.call (by trivial) r⟩

theorem reconcileSecurityGroup_follows (hg : g ∈ groups) :
    Keeping a (AtGroups groups) (reconcileSecurityGroup a g) h := by
  intro hs
  unfold reconcileSecurityGroup
  split
  · next hdel => exact deleteSecurityGroup_follows hg hdel hs
  · next hdel =>
    refine (holdSecurityGroup_follows hs).andThen (fun _ _ hs => hs) fun h _ hs => ?_
    refine ⟨⟨g, hs.seen ▸ hg, rfl, by simpa using hdel⟩, fun r => ?_⟩
    have hs := hs.call (e := .upsertNetworkGroup g.key _) trivial r
    match r with
    | .error e => exact hs
    | .ok identity => exact ⟨trivial, fun r => hs.call (by trivial) r⟩

theorem groupTick_follows (hg : g ∈ groups) : Keeping a (AtGroups groups) (groupTick a g) h := by
  intro hs
  refine (reconcileSecurityGroup_follows hg hs).bind fun h r hs => ?_
  match r with
  | .ok () => exact hs
  | .error e => exact ⟨trivial, fun r => hs.call (by trivial) r⟩

/-! ## The policies -/

structure AtPolicies (policies : List MachineNetworkPolicy) (machines : List Machine)
    (h : History) : Prop where
  seen : policiesSeen h = policies
  listed : machinesSeen h = some machines

def PolicyCall : NetworkOp → Prop
  | .listNetworkSecurityGroups | .listMachineNetworkPolicies | .listMachines => False
  | _ => True

variable {policies : List MachineNetworkPolicy} {machines : List Machine}
  {p : MachineNetworkPolicy}

theorem AtPolicies.call (hs : AtPolicies policies machines h) {e : NetworkOp} (he : PolicyCall e)
    (r : e.Ans) : AtPolicies policies machines (⟨e, r⟩ :: h) := by
  cases e with
  | listNetworkSecurityGroups | listMachineNetworkPolicies | listMachines => exact he.elim
  | _ => exact ⟨hs.seen, hs.listed⟩

theorem resetVM_follows (what : String) (m : Machine) (hs : AtPolicies policies machines h) :
    (resetVM what m).Follows (NetworkRule a.nodeName)
      (fun h' r => AtPolicies policies machines h' ∧ h <:+ h' ∧
        (r = .ok () → ∃ ev ∈ h', wrote .policy m.status.runtimeID ev = true)) h := by
  refine ⟨trivial, fun r => ⟨hs.call (by trivial) r, suffix_cons _ _, fun hr => ?_⟩⟩
  match r with
  | .error e => cases hr
  | .ok () => exact ⟨_, mem_cons_self, by simp [wrote, writes, failed]⟩

theorem resetAll_follows (what : String) (ms : List Machine) (hs : AtPolicies policies machines h) :
    (Prog.tryEach (resetVM what) ms).Follows (NetworkRule a.nodeName)
      (fun h' r => AtPolicies policies machines h' ∧
        (r = .ok () → ∀ m ∈ ms, ∃ ev ∈ h', wrote .policy m.status.runtimeID ev = true)) h := by
  -- a Machine is still to come, or its reset is on record
  have loop := Prog.Follows.tryEach (AtPolicies policies machines)
    (fun h' xs => ∀ m ∈ ms, m ∈ xs ∨ ∃ ev ∈ h', wrote .policy m.status.runtimeID ev = true)
    (fun h x xs hs hleft => (resetVM_follows (a := a) what x hs).weaken
      fun h' r hpost => ⟨hpost.1, fun hr m hm => ?_⟩) hs fun m hm => .inl hm
  · refine loop.weaken fun h' r hpost => ⟨hpost.1, fun hr m hm => ?_⟩
    exact (hpost.2 hr m hm).resolve_left not_mem_nil
  · rcases hleft m hm with hmem | ⟨ev, hev, hw⟩
    · rcases mem_cons.mp hmem with rfl | hmem
      · exact .inr (hpost.2.2 hr)
      · exact .inl hmem
    · exact .inr ⟨ev, hpost.2.1.subset hev, hw⟩

theorem deleteMachineNetworkPolicy_follows (hp : p ∈ policies) (hdel : p.metadata.deleting = true) :
    Keeping a (AtPolicies policies machines) (deleteMachineNetworkPolicy a p machines) h := by
  intro hs
  unfold deleteMachineNetworkPolicy
  split
  · next hfin =>
    refine (resetAll_follows _ _ hs).andThen (fun _ _ hpost => hpost.1) fun h' _ hpost => ?_
    obtain ⟨hs, hdone⟩ := hpost
    have hplan : Plan .policy a.nodeName h' p.key
        ((machines.filter (reaches a.nodeName p)).map fun m => m.status.runtimeID) :=
      ⟨machines, hs.listed, p, hs.seen ▸ hp, rfl,
        by rw [MachineNetworkPolicy.leaving, hdel, hfin]; rfl, rfl⟩
    refine ⟨.inr ⟨_, hplan, ?_⟩, fun r => hs.call (by trivial) r⟩
    rintro _ hid
    obtain ⟨m, hm, rfl⟩ := mem_map.mp hid
    exact hdone rfl m hm
  · exact hs

theorem holdMachineNetworkPolicy_follows :
    Keeping a (AtPolicies policies machines) (holdMachineNetworkPolicy p) h := by
  intro hs
  unfold holdMachineNetworkPolicy
  split
  · exact hs
  · exact ⟨.inl (by simp [Kind.finalizer]), fun r => hs.call (by trivial) r⟩

theorem postCNP_follows : Keeping a (AtPolicies policies machines) (postCNP p) h := by
  intro hs
  unfold postCNP
  split
  · exact hs
  · exact ⟨trivial, fun r => hs.call (by trivial) r⟩

theorem applyPolicy_follows (hp : p ∈ policies) (hdel : p.metadata.deleting = false)
    (denies : Machine → List String) (names : List String) (confirmed : Bool) (ms : List Machine) :
    Keeping a (AtPolicies policies machines) (applyPolicy p denies names confirmed ms) h := by
  intro hs
  induction ms generalizing h names confirmed with
  | nil => exact hs
  | cons m ms ih =>
    refine ⟨⟨p, hs.seen ▸ hp, rfl, hdel⟩, fun r => ?_⟩
    have hs := hs.call (e := .setVMNetworkPolicy (some p.key) m.status.runtimeID _) trivial r
    match r with
    | .error e => exact hs
    | .ok () => exact ⟨trivial, fun r => ih _ _ (hs.call (by trivial) r)⟩

theorem pruneMachine_follows (applied : List String) (name : String) : Keeping a
    (AtPolicies policies machines) (pruneMachine a p policies machines applied name) h := by
  intro hs
  unfold pruneMachine
  split
  · exact hs
  · split
    · exact hs
    · next target _ =>
      split
      · exact hs
      · split
        · exact hs
        · exact (resetVM_follows _ target hs).weaken fun _ _ hpost => hpost.1

theorem reconcileMachineNetworkPolicy_follows (hp : p ∈ policies) (denies : Machine → List String) :
    Keeping a (AtPolicies policies machines)
      (reconcileMachineNetworkPolicy a denies p policies machines) h := by
  intro hs
  unfold reconcileMachineNetworkPolicy
  split
  · next hdel => exact deleteMachineNetworkPolicy_follows hp hdel hs
  · next hdel =>
    have hdel : p.metadata.deleting = false := by simpa using hdel
    refine (holdMachineNetworkPolicy_follows hs).andThen (fun _ _ hs => hs) fun h _ hs => ?_
    refine (postCNP_follows hs).andThen (fun _ _ hs => hs) fun h _ hs => ?_
    refine (applyPolicy_follows hp hdel denies _ _ _ hs).andThen (fun _ _ hs => hs)
      fun h applied hs => ?_
    refine (Prog.Follows.tryEach (AtPolicies policies machines) (fun _ _ => True)
      (fun _ name _ hs _ => (pruneMachine_follows applied.1 name hs).weaken
        fun _ _ hs => ⟨hs, fun _ => trivial⟩) hs trivial).andThen (fun _ _ hs => hs.1)
      fun h _ hs => ?_
    exact ⟨trivial, fun r => ⟨trivial, fun r' => (hs.1.call (by trivial) r).call (by trivial) r'⟩⟩

theorem policyTick_follows (hp : p ∈ policies) (denies : Machine → List String) :
    Keeping a (AtPolicies policies machines) (policyTick a denies policies machines p) h := by
  intro hs
  refine (reconcileMachineNetworkPolicy_follows hp denies hs).bind fun h r hs => ?_
  match r with
  | .ok () => exact hs
  | .error e => exact ⟨trivial, fun r => hs.call (by trivial) r⟩

/-! ## The pass -/

theorem pushes_follow (ms : List Machine) (policyOf : Machine → VmNetworkPolicy) :
    (Prog.forEach (fun m => (call (.setVMNetworkPolicy none m.status.runtimeID (policyOf m))).bind
      fun _ => .ret ()) ms).Follows (NetworkRule a.nodeName) Anyhow h := by
  refine Prog.Follows.forEach (fun _ _ => True) (fun _ m _ _ => ?_) trivial
  exact ⟨trivial, fun _ => trivial⟩

theorem reconcilePolicies_follows (groups : List NetworkSecurityGroup)
    (hseen : policiesSeen h = policies) (hun : machinesSeen h = none)
    (hw : ∀ ev ∈ h, ∀ id, wrote .policy id ev = false) :
    (reconcilePolicies a groups policies).Follows (NetworkRule a.nodeName) Anyhow h := by
  refine ⟨⟨hun, hw⟩, fun | .error _ => trivial | .ok machines => ?_⟩
  have hs : AtPolicies policies machines (⟨.listMachines, .ok machines⟩ :: h) := ⟨hseen, rfl⟩
  refine (Prog.Follows.forEach (fun h' ps => AtPolicies policies machines h' ∧ ∀ p ∈ ps,
    p ∈ policies) (fun h' p ps hleft => ?_) ⟨hs, fun _ hp => hp⟩).bind fun h' _ _ => ?_
  · refine (policyTick_follows (hleft.2 p mem_cons_self) _ hleft.1).weaken
      fun _ _ hs => ⟨hs, fun p' hp' => hleft.2 p' (mem_cons_of_mem _ hp')⟩
  · have deny : (if a.networkDefaultDeny then enforceNetworkDefaultDeny a policies machines
        else .ret ()).Follows (NetworkRule a.nodeName) Anyhow h' := by
      split
      · exact pushes_follow _ _
      · trivial
    exact deny.bind fun _ _ _ => (pushes_follow _ _).bind fun _ _ _ => trivial

theorem reconcileNetworkResources_follows (a : Config) :
    (reconcileNetworkResources a).Follows (NetworkRule a.nodeName) Anyhow [] := by
  refine ⟨rfl, fun | .error _ => trivial | .ok groups => ?_⟩
  have hs : AtGroups groups [⟨.listNetworkSecurityGroups, .ok groups⟩] :=
    ⟨rfl, rfl, forall_mem_singleton.mpr fun _ => rfl⟩
  refine (Prog.Follows.forEach (fun h' gs => AtGroups groups h' ∧ ∀ g ∈ gs, g ∈ groups)
    (fun h' g gs hleft => ?_) ⟨hs, fun _ hg => hg⟩).bind fun h' _ hdone => ?_
  · refine (groupTick_follows (hleft.2 g mem_cons_self) hleft.1).weaken
      fun _ _ hs => ⟨hs, fun g' hg' => hleft.2 g' (mem_cons_of_mem _ hg')⟩
  · refine ⟨hdone.1.unlisted, fun | .error _ => trivial | .ok policies => ?_⟩
    exact reconcilePolicies_follows groups rfl hdone.1.unlisted
      (forall_mem_cons.mpr ⟨fun _ => rfl, hdone.1.unwritten⟩)

end Kairon.Network
