import Kairon.Cluster.World
import Kairon.Network.Pushes

/-!
# Cleanup of network policies and security groups

The finalizer of a policy or a group is one for all nodes, and the first agent that comes by takes
it off once its own node is clean. Other nodes are clean only if there was nothing on them.

* `tidying_inductive`: what a pass knows of its node while it cleans up
* `clean_when_released`: in confined runs nothing is left anywhere
-/

namespace Kairon.Network

open Infra Model Cluster List Host Conf Pasts

/-- The agents, one per node. Besides their passes objects may be edited in any way and VMs come
and go; nothing is put under a policy or into a group that way. -/
def networkHost : Host NetworkOp.Ans GoErr String World where
  outcomes := outcomes
  start node p := ∃ a : Config, a.nodeName = node ∧ p = reconcileNetworkResources a
  env w w' := ∀ kind node id k, w'.mark kind node id = some k → w.mark kind node id = some k
  crash := True

abbrev NetworkConf := Conf NetworkOp.Ans GoErr String World

abbrev NetworkLabel := Label NetworkOp.Ans GoErr String World

/-- When a pass learns that an object is to be cleaned up, what there is of the object anywhere is
in its plan. -/
def Complete (w : World) (node : String) (past : History) (ev : Event NetworkOp.Ans) : Prop :=
  ∀ kind k ids, Plan kind node (ev :: past) k ids → ¬Plan kind node past k ids →
    ∀ n id, w.mark kind n id = some k → n = node ∧ id ∈ ids

/-- What is written for an object is written while no other agent has its cleanup planned. -/
def Unplanned (c : NetworkConf) (node : String) (e : NetworkOp) : Prop :=
  ∀ kind id k, writes e = some (kind, id, some k) →
    ∀ u past, u ≠ node → c.past u = some past → ∀ ids, ¬Plan kind u past k ids

/-- Every plan is complete, and nothing is written for an object while another agent cleans it
up. -/
def Confined : Guard NetworkOp.Ans GoErr String World :=
  fun c l =>
    match l with
    | .call node ev =>
      Unplanned c node ev.op ∧ ∀ past, c.past node = some past → Complete c.world node past ev
    | _ => True

variable {w w' : World} {node n id : String} {past : History} {kind : Kind} {k : ObjectKey}
  {ids : List String} {e : NetworkOp} {a : e.Ans}

/-! ## What a pass knows -/

structure Distinct (h : History) : Prop where
  policies : ((policiesSeen h).map MachineNetworkPolicy.key).Nodup
  groups : ((groupsSeen h).map NetworkSecurityGroup.key).Nodup

theorem Distinct.call (h : Distinct past) (hw : w' ∈ outcomes node w e a) :
    Distinct (⟨e, a⟩ :: past) := by
  have ha := (mem_outcomes_iff.mp hw).1
  cases e with
  | listNetworkSecurityGroups =>
    cases a with
    | error e => exact ⟨h.policies, h.groups⟩
    | ok gs =>
      have hperm := (isPerm_iff.mp ha).map NetworkSecurityGroup.key
      exact ⟨h.policies, hperm.nodup_iff.mpr w.groups.distinct⟩
  | listMachineNetworkPolicies =>
    cases a with
    | error e => exact ⟨h.policies, h.groups⟩
    | ok ps =>
      have hperm := (isPerm_iff.mp ha).map MachineNetworkPolicy.key
      exact ⟨hperm.nodup_iff.mpr w.policies.distinct, h.groups⟩
  | _ => exact ⟨h.policies, h.groups⟩

theorem Current.not_plan (hd : Distinct past) (hc : Current kind past k) :
    ¬Plan kind node past k ids := by
  intro hp
  cases kind with
  | policy =>
    obtain ⟨p, hp₁, rfl, hdel⟩ := hc
    obtain ⟨ms, -, p', hp₂, hkey, hleaving, -⟩ := hp
    have hsame : p' = p := inj_on_of_nodup_map hd.policies hp₂ hp₁ hkey
    simp [hsame, MachineNetworkPolicy.leaving, hdel] at hleaving
  | group =>
    obtain ⟨g, hg₁, rfl, hdel⟩ := hc
    obtain ⟨g', hg₂, hkey, hleaving, -⟩ := hp
    have hsame : g' = g := inj_on_of_nodup_map hd.groups hg₂ hg₁ hkey
    simp [hsame, NetworkSecurityGroup.leaving, hdel] at hleaving

theorem NetworkRule.current (he : NetworkRule node past e)
    (hx : writes e = some (kind, id, some k)) : Current kind past k := by
  cases e with
  | upsertNetworkGroup owner g =>
    cases hx
    exact he
  | deleteNetworkGroup name => cases hx
  | setVMNetworkPolicy owner i policy =>
    cases hx
    exact he
  | _ => cases hx

theorem NetworkRule.released (he : NetworkRule node past e) {fs : List String}
    (hx : refinalizes e = some (kind, k, fs)) (hfs : kind.finalizer ∉ fs) :
    ∃ ids, Plan kind node past k ids ∧ ∀ id ∈ ids, ∃ ev ∈ past, wrote kind id ev = true := by
  cases e with
  | patchNetworkSecurityGroup k' fs' | patchMachineNetworkPolicy k' fs' =>
    cases hx
    exact he.resolve_left hfs
  | _ => cases hx

theorem NetworkRule.plan_new (he : NetworkRule node past e)
    (hp : Plan kind node (⟨e, a⟩ :: past) k ids) (hnew : ¬Plan kind node past k ids) :
    writes e = none ∧ ∀ id, ∀ ev ∈ past, wrote kind id ev = false := by
  cases kind with
  | policy =>
    cases e with
    | listMachineNetworkPolicies =>
      -- the Machines are listed after the policies
      obtain ⟨ms, hms, -⟩ := hp
      simp [show machinesSeen (⟨.listMachineNetworkPolicies, a⟩ :: past) = none from he] at hms
    | listMachines => exact ⟨rfl, fun id ev hev => he.2 ev hev id⟩
    | _ => exact absurd hp hnew
  | group =>
    cases e with
    | listNetworkSecurityGroups =>
      rw [show past = [] from he]
      exact ⟨rfl, fun _ _ hev => absurd hev not_mem_nil⟩
    | _ => exact absurd hp hnew

/-! ## The invariant -/

/-- What there is of an object that a pass cleans up is on its node, in its plan, and still to be
written. -/
structure Tidying (w : World) (node : String) (past : History) : Prop where
  distinct : Distinct past
  pending : ∀ kind k ids, Plan kind node past k ids → ∀ n id, w.mark kind n id = some k →
    n = node ∧ id ∈ ids ∧ ∀ ev ∈ past, wrote kind id ev = false

theorem Tidying.nil : Tidying w node [] where
  distinct := ⟨nodup_nil, nodup_nil⟩
  pending kind k ids hp := by
    cases kind with
    | policy =>
      obtain ⟨ms, hms, -⟩ := hp
      cases hms
    | group =>
      obtain ⟨g, hg, -⟩ := hp
      cases hg

theorem Tidying.call (h : Tidying w node past) (he : NetworkRule node past e)
    (hG : Complete w node past ⟨e, a⟩) (hw : w' ∈ outcomes node w e a) :
    Tidying w' node (⟨e, a⟩ :: past) where
  distinct := h.distinct.call hw
  pending kind k ids hp n id hk := by
    by_cases hold : Plan kind node past k ids
    · rcases mark_of_call hw hk with ⟨hmark, hno⟩ | ⟨-, hx⟩
      · obtain ⟨rfl, hid, hclean⟩ := h.pending kind k ids hold n id hmark
        exact ⟨rfl, hid, forall_mem_cons.mpr ⟨hno rfl, hclean⟩⟩
      · exact absurd hold ((he.current hx).not_plan h.distinct)
    · obtain ⟨hx, hclean⟩ := he.plan_new hp hold
      have hmark : w.mark kind n id = some k := by
        rcases mark_of_call hw hk with ⟨hmark, -⟩ | ⟨-, hx'⟩
        · exact hmark
        · simp [hx] at hx'
      obtain ⟨hn, hid⟩ := hG kind k ids hp hold n id hmark
      exact ⟨hn, hid, forall_mem_cons.mpr ⟨by simp [wrote, hx], hclean id⟩⟩

theorem Tidying.other {u : String} (h : Tidying w u past) (hw : w' ∈ outcomes node w e a)
    (hG : ∀ kind id k, writes e = some (kind, id, some k) → ∀ ids, ¬Plan kind u past k ids) :
    Tidying w' u past where
  distinct := h.distinct
  pending kind k ids hp n id hk := by
    rcases mark_of_call hw hk with ⟨hmark, -⟩ | ⟨-, hx⟩
    · exact h.pending kind k ids hp n id hmark
    · exact absurd hp (hG kind id k hx ids)

theorem follows_of_start (t : String) (p : NetM GoErr)
    (h : networkHost.start t p) : p.Follows (NetworkRule t) Anyhow [] := by
  obtain ⟨a, rfl, rfl⟩ := h
  exact reconcileNetworkResources_follows a

theorem tidying_inductive : Inductive networkHost NetworkRule (fun _ => Anyhow) Confined
      fun w ps => ∀ t past, ps t = some past → Tidying w t past where
  start h _ := forall_update (fun past hp => by cases hp; exact Tidying.nil)
    fun u past _ hu => h u past hu
  call := by
    intro c t e a w past h hpast he hG hw
    refine forall_update (fun past' hp => ?_) fun u past' hu hpast' => ?_
    · cases hp
      exact (h t past hpast).call he (hG.2 past hpast) hw
    · exact (h u past' hpast').other hw fun kind id k hx ids =>
        hG.1 kind id k hx u past' hu hpast' ids
  stop h _ _ := forall_update nofun fun u past _ hu => h u past hu
  crash h _ _ _ := forall_update nofun fun u past _ hu => h u past hu
  env := by
    intro c w h hw _ t past hpast
    have ht := h t past hpast
    exact ⟨ht.distinct, fun kind k ids hp n id hk =>
      ht.pending kind k ids hp n id (hw kind n id k hk)⟩

/-- When an agent takes its finalizer off a policy or a group, no VM on any node is under the policy
and no node has a group made for it: for every run of the agents in any interleaving, with calls
that fail, in which a pass that learns of a deletion has all there is of the object on its own
node and in its plan, and nothing is written for the object while another agent cleans up. -/
theorem clean_when_released (w : World) {tr : List NetworkLabel} {c c' : NetworkConf}
    (run : Run networkHost Confined (Conf.idle w) tr c) {node : String}
    {ev : Event NetworkOp.Ans} (step : Step networkHost c (.call node ev) c') (kind : Kind)
    (k : ObjectKey) (held : c.world.holds kind k = true)
    (released : c'.world.holds kind k = false) (n id : String) :
    c'.world.mark kind n id ≠ some k := by
  intro hk
  have hf := run.follows follows_of_start (follows_idle _ _ w)
  have hI := tidying_inductive.run follows_of_start run (follows_idle _ _ w)
    nofun
  cases step with
  | @call _ e next past a w' at_call out =>
    have ht := hI node past (by simp [Conf.past, at_call])
    obtain ⟨fs, hx, hfs⟩ := holds_of_call out held released
    obtain ⟨ids, hplan, hdone⟩ := NetworkRule.released (hf _ _ at_call).1 hx hfs
    -- a patch of finalizers writes nothing to FluxVM
    have hmark : c.world.mark kind n id = some k := by
      rcases mark_of_call out hk with ⟨hmark, -⟩ | ⟨-, hw⟩
      · exact hmark
      · simp [writes_of_refinalizes hx] at hw
    obtain ⟨-, hid, hclean⟩ := ht.pending kind k ids hplan n id hmark
    obtain ⟨ev, hev, hwrote⟩ := hdone id hid
    simp [hclean ev hev] at hwrote

/-! ## Objects that are in use elsewhere -/

def samplePolicy : MachineNetworkPolicy where
  metadata := { plainMeta "deny-all" [] with finalizers := [] }
  spec := ⟨"vm", [], { defaultAllow := false }, []⟩
  status := ⟨"", "", 0, none, false, []⟩

def sampleGroup : NetworkSecurityGroup where
  metadata := { plainMeta "web" [] with finalizers := [] }
  spec := ⟨"", [], 0, "", { defaultAllow := false }⟩
  status := ⟨"", "", 0, ""⟩

def sampleWorld (node : String) : World where
  groups := Table.add ⟨[], nodup_nil⟩ sampleGroup
  policies := Table.add ⟨[], nodup_nil⟩ samplePolicy
  machines := Table.add ⟨[], nodup_nil⟩
    { plainMachine "vm" node twoCores with
      status := { blankStatus with phase := "Running", runtimeID := "r-1" } }
  vm n id := if n = node ∧ id = "r-1" then some none else none
  group _ _ := none

def works (w : World) : (e : NetworkOp) → e.Ans :=
  Told.answer ⟨w.groups.rows, w.policies.rows, w.machines.rows, fun _ => false⟩

abbrev NetworkMove := Move NetworkOp.Ans GoErr String World

def passOf (node : String) (n : Nat) : List NetworkMove :=
  .start node (reconcileNetworkResources ⟨node, false⟩) :: List.replicate n (.call node works 0)

def deleteBoth (w : World) : World :=
  { w with
    groups := w.groups.edit sampleGroup.key
      (fun g => { g with metadata := { g.metadata with deleting := true } }) fun _ => rfl
    policies := w.policies.edit samplePolicy.key
      (fun p => { p with metadata := { p.metadata with deleting := true } }) fun _ => rfl }

def deletionScript (user cleaner : String) (n : Nat) : List NetworkMove :=
  passOf user 11 ++ [.stop user, .env deleteBoth] ++ passOf cleaner n

theorem permits_deleteBoth : networkHost.Permits (.env deleteBoth) := by
  intro w kind n id k hk
  cases kind <;> exact hk

def sampleKey : Kind → ObjectKey
  | .policy => samplePolicy.key
  | .group => sampleGroup.key

def samplePlace : Kind → String
  | .policy => "r-1"
  | .group => "web"

/-- A run in which a finalizer is taken off while some node still has what it stands for. -/
def ReleasedInUse (kind : Kind) : Prop :=
  ∃ w tr c node ev c' n id k, Run networkHost (fun _ _ => True) (Conf.idle w) tr c ∧
    Step networkHost c (.call node ev) c' ∧ c.world.holds kind k = true ∧
    c'.world.holds kind k = false ∧ c'.world.mark kind n id = some k

/-- The agent of node-a takes the finalizer off a policy that a VM on node-b is under, and off a
group that node-b has. -/
theorem released_while_in_use : ReleasedInUse .policy ∧ ReleasedInUse .group := by
  constructor
  · have may : networkHost.Allows (deletionScript "node-b" "node-a" 5) :=
      ⟨⟨_, rfl, rfl⟩, permits_deleteBoth, _, rfl, rfl⟩
    exact ⟨sampleWorld "node-b", _, _, _, _, _, "node-b", "r-1", samplePolicy.key,
      run_of_play may rfl, step_of_move "node-a" works 0 rfl, rfl, rfl, rfl⟩
  · have may : networkHost.Allows (deletionScript "node-b" "node-a" 2) :=
      ⟨⟨_, rfl, rfl⟩, permits_deleteBoth, _, rfl, rfl⟩
    exact ⟨sampleWorld "node-b", _, _, _, _, _, "node-b", "web", sampleGroup.key,
      run_of_play may rfl, step_of_move "node-a" works 0 rfl, rfl, rfl, rfl⟩

/-! ## One node -/

def plansPlace (node : String) (h : History) : Bool :=
  (groupsSeen h).all (fun g => g.fluxGroupName == samplePlace .group) &&
    (machinesSeen h).all fun ms => (policiesSeen h).all fun p =>
      ((ms.filter (reaches node p)).map fun m => m.status.runtimeID).contains (samplePlace .policy)

theorem mem_of_plansPlace {h : History} (hplace : plansPlace node h = true)
    (hp : Plan kind node h k ids) : samplePlace kind ∈ ids := by
  simp only [plansPlace, Bool.and_eq_true] at hplace
  obtain ⟨hgroups, hpolicies⟩ := hplace
  cases kind with
  | policy =>
    obtain ⟨ms, hms, p, hp, -, -, rfl⟩ := hp
    rw [hms, Option.all_some, all_eq_true] at hpolicies
    exact contains_iff_mem.mp (hpolicies p hp)
  | group =>
    obtain ⟨g, hg, -, -, rfl⟩ := hp
    rw [all_eq_true] at hgroups
    exact mem_singleton.mpr (beq_iff_eq.mp (hgroups g hg)).symm

def writesPlace (e : NetworkOp) : Bool :=
  match writes e with
  | some (kind, id, some _) => id == samplePlace kind
  | _ => true

def alone (node : String) (c : NetworkConf) : NetworkLabel → Bool
  | .start t _ => t == node
  | .call t ev => t == node && writesPlace ev.op &&
      (c.past t).all fun past => plansPlace t (ev :: past)
  | _ => true

/-- Nothing happens or is in use anywhere but on `node`. -/
structure AtHome (node : String) (c : NetworkConf) : Prop where
  quiet : ∀ u, u ≠ node → c.past u = none
  marked : ∀ kind n id k, c.world.mark kind n id = some k → n = node ∧ id = samplePlace kind

theorem quiet_put {c : NetworkConf} {t : String} {th : Option (Thread NetworkOp.Ans GoErr)}
    (h : ∀ u, u ≠ node → c.past u = none) (ht : t ≠ node → th = none) (w : World) :
    ∀ u, u ≠ node → (c.put w t th).past u = none := by
  intro u hu
  rw [past_put]
  by_cases hut : u = t
  · subst hut
    rw [Function.update_self, ht hu, Option.map_none]
  · rw [Function.update_of_ne hut, h u hu]

theorem AtHome.step {c c' : NetworkConf} {l : NetworkLabel} (h : AtHome node c)
    (hG : alone node c l = true) (hs : Step networkHost c l c') : AtHome node c' := by
  cases hs with
  | start =>
    exact ⟨quiet_put h.quiet (fun ht => absurd (beq_iff_eq.mp hG) ht) _, h.marked⟩
  | @call t e next past a w' at_call out =>
    simp only [alone, Bool.and_eq_true, beq_iff_eq] at hG
    obtain ⟨⟨rfl, hplace⟩, -⟩ := hG
    refine ⟨quiet_put h.quiet (fun ht => absurd rfl ht) _, fun kind n id k hk => ?_⟩
    rcases mark_of_call out hk with ⟨hmark, -⟩ | ⟨rfl, hx⟩
    · exact h.marked kind n id k hmark
    · rw [writesPlace, hx] at hplace
      exact ⟨rfl, beq_iff_eq.mp hplace⟩
  | stop => exact ⟨quiet_put h.quiet (fun _ => rfl) _, h.marked⟩
  | crash => exact ⟨quiet_put h.quiet (fun _ => rfl) _, h.marked⟩
  | env may => exact ⟨h.quiet, fun kind n id k hk => h.marked kind n id k (may kind n id k hk)⟩

theorem AtHome.confined {c : NetworkConf} {l : NetworkLabel} (h : AtHome node c)
    (hG : alone node c l = true) : Confined c l := by
  cases l with
  | call t ev =>
    simp only [alone, Bool.and_eq_true, beq_iff_eq] at hG
    obtain ⟨⟨rfl, -⟩, hplans⟩ := hG
    refine ⟨fun kind id k _ u past hu hpast => ?_, fun past hpast kind k ids hp _ n id hk => ?_⟩
    · simp [h.quiet u hu] at hpast
    · rw [hpast, Option.all_some] at hplans
      obtain ⟨hn, rfl⟩ := h.marked kind n id k hk
      exact ⟨hn, mem_of_plansPlace hplans hp⟩
  | _ => trivial

theorem atHome_idle (node : String) : AtHome node (Conf.idle (sampleWorld node)) where
  quiet _ _ := rfl
  marked kind n id k hk := by
    cases kind with
    | policy =>
      simp only [world_idle, World.mark, sampleWorld] at hk
      split at hk <;> cases hk
    | group => cases hk

def ReleasedClean (kind : Kind) : Prop :=
  ∃ tr c ev c', Run networkHost Confined (Conf.idle (sampleWorld "node-a")) tr c ∧
    Step networkHost c (.call "node-a" ev) c' ∧ c.world.holds kind (sampleKey kind) = true ∧
    c'.world.holds kind (sampleKey kind) = false ∧
    ∀ n id, c'.world.mark kind n id ≠ some (sampleKey kind)

theorem clean_when_released_alone : ReleasedClean .policy ∧ ReleasedClean .group := by
  have confined {tr c} (h : Run networkHost (fun c l => alone "node-a" c l = true)
      (Conf.idle (sampleWorld "node-a")) tr c) : Run networkHost Confined _ tr c :=
    h.strengthen (atHome_idle "node-a") (fun h hG hs => h.step hG hs) fun h hG => h.confined hG
  constructor
  · have may : networkHost.Allows (deletionScript "node-a" "node-a" 6) :=
      ⟨⟨_, rfl, rfl⟩, permits_deleteBoth, _, rfl, rfl⟩
    have run := confined (play_sound (fun _ _ h => h) may rfl)
    exact ⟨_, _, _, _, run, step_of_move "node-a" works 0 rfl, rfl, rfl,
      clean_when_released _ run (step_of_move "node-a" works 0 rfl) .policy _ rfl rfl⟩
  · have may : networkHost.Allows (deletionScript "node-a" "node-a" 2) :=
      ⟨⟨_, rfl, rfl⟩, permits_deleteBoth, _, rfl, rfl⟩
    have run := confined (play_sound (fun _ _ h => h) may rfl)
    exact ⟨_, _, _, _, run, step_of_move "node-a" works 0 rfl, rfl, rfl,
      clean_when_released _ run (step_of_move "node-a" works 0 rfl) .group _ rfl rfl⟩

end Kairon.Network
