import Kairon.Network.World

/-!
# The names of groups in FluxVM

A node knows a group by a name that has no namespace in it, and that anybody may choose.

* `separate_iff_namedApart`: groups with distinct names
* `groups_separate_iff`: which groups and fences are separate
-/

namespace Kairon.Network

open Infra Model

/-- What the call writes to FluxVM, if anything, is the group of this name. -/
def WritesOnly (name : String) (e : NetworkOp) : Prop :=
  ∀ kind id k, writes e = some (kind, id, k) → kind = .group ∧ id = name

abbrev Confines (name : String) {α : Type} (p : NetM α) (h : List (Event NetworkOp.Ans)) : Prop :=
  p.Follows (fun _ => WritesOnly name) (fun _ _ => True) h

variable {g : NetworkSecurityGroup} {a : Config} {h : List (Event NetworkOp.Ans)} {e : NetworkOp}

theorem writesOnly_of_none {name : String} (he : writes e = none) : WritesOnly name e := by
  intro kind id k hk
  simp [he] at hk

theorem writesOnly_of_some {name : String} {k : Option ObjectKey}
    (he : writes e = some (.group, name, k)) : WritesOnly name e := by
  intro kind id k' hk
  cases he.symm.trans hk
  exact ⟨rfl, rfl⟩

theorem reconcileSecurityGroup_confines :
    Confines g.fluxGroupName (reconcileSecurityGroup a g) h := by
  have patched : ∀ {e : NetworkOp} {α : Type} {k : e.Ans → α} {h}, writes e = none →
      Confines g.fluxGroupName (.call e fun r => .ret (k r)) h := fun he =>
    ⟨writesOnly_of_none he, fun _ => trivial⟩
  refine .ite (fun _ => .ite (fun _ => ⟨writesOnly_of_some rfl, fun r => ?_⟩) fun _ => trivial)
    fun _ => ?_
  · match r with
    | .error _ => trivial
    | .ok () => exact patched rfl
  · have hheld : Confines g.fluxGroupName (holdSecurityGroup g) h :=
      .ite (fun _ => trivial) fun _ => patched rfl
    exact hheld.andThen (fun _ _ _ => trivial) fun h _ _ => ⟨writesOnly_of_some rfl, fun
      | .error _ => trivial
      | .ok _ => patched rfl⟩

theorem groupTick_confines : Confines g.fluxGroupName (groupTick a g) h := by
  refine reconcileSecurityGroup_confines.bind fun h r _ => ?_
  match r with
  | .ok () => trivial
  | .error _ => exact ⟨writesOnly_of_none rfl, fun _ => trivial⟩

variable (gs : List NetworkSecurityGroup)

/-- The groups have different names, and the turn of one writes nothing to another's place. -/
def Separate : Prop :=
  ∀ g ∈ gs, ∀ g' ∈ gs, g.key ≠ g'.key → g.fluxGroupName ≠ g'.fluxGroupName ∧
    ∀ a, (groupTick a g).Follows (fun _ e => ∀ k, writes e ≠ some (.group, g'.fluxGroupName, k))
      (fun _ _ => True) []

/-- Two with the same `groupName` have none, and different `metadata.name`s; and none has the
`metadata.name` of one without for its `groupName`. -/
def NamedApart : Prop :=
  ∀ g ∈ gs, ∀ g' ∈ gs, g.key ≠ g'.key → (g.spec.groupName = g'.spec.groupName →
      g.spec.groupName = "" ∧ g.metadata.name ≠ g'.metadata.name) ∧
    (g.spec.groupName ≠ "" → g'.spec.groupName = "" → g.spec.groupName ≠ g'.metadata.name)

variable {gs}

theorem separate_iff : Separate gs ↔
    ∀ g ∈ gs, ∀ g' ∈ gs, g.key ≠ g'.key → g.fluxGroupName ≠ g'.fluxGroupName := by
  refine ⟨fun h g hg g' hg' hne => (h g hg g' hg' hne).1, fun h g hg g' hg' hne => ?_⟩
  have hname := h g hg g' hg' hne
  exact ⟨hname, fun a => groupTick_confines.mono (fun _ e he k hk => hname (he _ _ k hk).2.symm)
    fun _ _ h => h⟩

theorem separate_iff_namedApart : Separate gs ↔ NamedApart gs := by
  rw [separate_iff]
  unfold NetworkSecurityGroup.fluxGroupName
  constructor
  · intro h g hg g' hg' hne
    have hname := h g hg g' hg' hne
    by_cases he : g.spec.groupName = "" <;> by_cases he' : g'.spec.groupName = "" <;> simp_all
  · intro h g hg g' hg' hne
    obtain ⟨hsame, hmixed⟩ := h g hg g' hg' hne
    have hmixed' := (h g' hg' g hg hne.symm).2
    split
    · next he =>
      split
      · exact fun heq => he (hsame heq).1
      · next he' => exact hmixed he (not_not.mp he')
    · next he =>
      split
      · next he' => exact (hmixed' he' (not_not.mp he)).symm
      · next he' => exact (hsame ((not_not.mp he).trans (not_not.mp he').symm)).2

variable {deny : String → List View → List String} {views : List View}

theorem fence_namespace {v : View} (h : v.opted = true) :
    (fenceOf deny views v.namespace v.tenant).object.key.namespace = v.namespace := by
  refine if_neg fun hns => ?_
  simp [View.opted, View.present, show v.namespace = "" from hns, GoText.trimSpace] at h

theorem separate_desired_iff : Separate ((desired deny views).map DesiredGroup.object) ↔
    ∀ v ∈ views, ∀ v' ∈ views, v.opted = true → v'.opted = true → v.tenant = v'.tenant →
      v.namespace = v'.namespace := by
  have hname : ∀ ns tenant, (fenceOf deny views ns tenant).object.fluxGroupName =
      "tenant-fence-" ++ tenant := fun ns tenant => if_pos (by simp [fenceOf, DesiredGroup.object])
  rw [separate_iff]
  constructor
  · intro h v hv v' hv' ho ho' htenant
    have hmem : ∀ v ∈ views, v.opted = true → (fenceOf deny views v.namespace v.tenant).object ∈
        (desired deny views).map DesiredGroup.object := fun v hv ho =>
      List.mem_map_of_mem ((mem_desired_iff deny).mpr ⟨v, hv, ho, rfl⟩)
    by_contra hns
    refine h _ (hmem v hv ho) _ (hmem v' hv' ho') (fun hkey => hns ?_) ?_
    · rw [← fence_namespace ho, ← fence_namespace ho', hkey]
    · rw [hname, hname, htenant]
  · rintro h g hg g' hg' hne heq
    obtain ⟨d, hd, rfl⟩ := List.mem_map.mp hg
    obtain ⟨d', hd', rfl⟩ := List.mem_map.mp hg'
    obtain ⟨v, hv, ho, rfl⟩ := (mem_desired_iff deny).mp hd
    obtain ⟨v', hv', ho', rfl⟩ := (mem_desired_iff deny).mp hd'
    rw [hname, hname] at heq
    have htenant : v.tenant = v'.tenant := by simpa using heq
    rw [h v hv v' hv' ho ho' htenant, htenant] at hne
    exact hne rfl

/-- Groups are separate exactly if they have different names, and the fences of Machines exactly if
no tenant is fenced in two namespaces. -/
theorem groups_separate_iff : (Separate gs ↔ NamedApart gs) ∧
    (Separate ((desired deny views).map DesiredGroup.object) ↔
      ∀ v ∈ views, ∀ v' ∈ views, v.opted = true → v'.opted = true → v.tenant = v'.tenant →
        v.namespace = v'.namespace) :=
  ⟨separate_iff_namedApart, separate_desired_iff⟩

/-- A tenant is fenced in two namespaces. -/
theorem fences_of_two_namespaces : ¬Separate ((desired (fun _ _ => [])
    (["a", "b"].map fun ns => ⟨ns, "acme", "", [], [(annFence, "true")], false⟩)).map
      DesiredGroup.object) := by
  rw [separate_desired_iff]
  decide +kernel

end Kairon.Network
