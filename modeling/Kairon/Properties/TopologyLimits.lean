import Kairon.Controller.Quota
import Kairon.Controller.Reconcile
import Kairon.Properties.TopologySkew

/-!
# Anti-affinity and topology spread in a scheduling pass

The scheduler checks a Machine against the Machines and nodes that it is shown. In a scheduling pass
these are the Machines as they were listed, without those that the pass has placed.

* `placements_suit`: what all placements of a pass keep to after it.
* `load_settled`: the load that a pass keeps up is that of all Machines after it.
-/

namespace Kairon.Scheduler

open Infra Model Cluster Controller List

variable (F : GoFloat) (c : Config) (G : ObjectKey → Grounds) (P : ObjectKey → PlacementSpec)
  (machines : List Machine) (nodes : List Node)

/-! ## A scheduling pass -/

structure Placement where
  listed : Machine
  patch : MachinePatch
  candidates : List Node

def Placement.machine (x : Placement) : Machine := x.listed.patch x.patch

/-- What a pass keeps up. -/
structure PassState where
  load : String → NodeLoad
  trackers : List QuotaTracker

/-- One turn of the scheduling loop of `Reconcile`, with a patch that succeeds. The quota is spent
also when no CPUs can be pinned then. -/
def scheduleOne (s : PassState) (m : Machine) : PassState × Option Placement :=
  match choose F m machines s.load (G m.key) (P m.key) nodes with
  | .error _ => (s, none)
  | .ok node =>
    match admitQuota F s.trackers m with
    | .error _ => (s, none)
    | .ok trackers =>
      match placementPatch c machines nodes m node with
      | .error _ => ({ s with trackers }, none)
      | .ok patch => (⟨reserve F s.load node m, trackers⟩,
          some ⟨m, patch, preSkew F m machines s.load (G m.key) (P m.key) nodes⟩)

def schedulePass : PassState → List Machine → PassState × List Placement
  | s, [] => (s, [])
  | s, m :: ms =>
    let (s, x) := scheduleOne F c G P machines nodes s m
    let (s, placed) := schedulePass s ms
    (s, x.toList ++ placed)

/-- The Machines with the states in which their turns come. -/
def turns : PassState → List Machine → List (PassState × Machine)
  | _, [] => []
  | s, m :: ms => (s, m) :: turns (scheduleOne F c G P machines nodes s m).1 ms

/-- All Machines after the pass. -/
def settled (placed : List Placement) : List Machine :=
  (machines.filter fun m => ∀ x ∈ placed, x.listed.key ≠ m.key) ++ placed.map Placement.machine

/-- A placed Machine keeps to its anti-affinity and topology spread on the node `n`, among the
Machines `ms`. -/
structure Placement.Suits (ms : List Machine) (x : Placement) (n : Node) : Prop where
  antiAffinity : ∀ term ∈ (P x.listed.key).antiAffinity,
    termSatisfied x.listed ms nodes n term = false
  spread : ∀ s ∈ (P x.listed.key).hard,
    withinSkew s (countsBy s x.candidates (domainCount x.listed ms s nodes)) n = true

instance (ms : List Machine) (x : Placement) (n : Node) : Decidable (x.Suits P nodes ms n) :=
  decidable_of_iff _ ⟨fun h : _ ∧ _ => ⟨h.1, h.2⟩, fun h => ⟨h.antiAffinity, h.spread⟩⟩

/-- The anti-affinity terms and the enforced constraints, by their selectors and topology keys. -/
def PlacementSpec.rules (p : PlacementSpec) : List (StringMap × String) :=
  p.antiAffinity.map (fun t => (t.labelSelector, t.topologyKey)) ++
    p.hard.map fun s => (s.labelSelector, s.topologyKey)

/-- At its turn the Machine is within the quotas, and the filters leave the node for it. -/
def Open (t : PassState × Machine) (n : Node) : Prop :=
  n ∈ accepted F t.2 machines t.1.load (G t.2.key) (P t.2.key) nodes ∧
    ∃ trackers, admitQuota F t.1.trackers t.2 = .ok trackers

/-- Of two Machines none that a rule of the other selects may get into its domain. -/
def Apart (t t' : PassState × Machine) : Prop :=
  ∀ n n', Open F G P machines nodes t n → Open F G P machines nodes t' n' →
    ∀ rule ∈ (P t.2.key).rules,
      labelsMatch (t'.2.patch (assignPatch n'.name)).metadata.labels rule.1 = true →
        ∀ value, labelOf n rule.2 = some value → labelOf n' rule.2 ≠ some value

variable {F c G P machines nodes} {m : Machine} {x : Placement} {s : PassState} {ms : List Machine}

/-- A Machine is placed at its turn, on a node that the filters have left for it: there it keeps to
its rules among the Machines that were listed. -/
theorem of_scheduleOne (h : (scheduleOne F c G P machines nodes s m).2 = some x) :
    x.listed = m ∧ ∃ n ∈ nodes, Open F G P machines nodes (s, m) n ∧
      (∃ cpus, x.patch = { assignPatch n.name with allocatedCpuSet := cpus }) ∧
      x.Suits P nodes machines n := by
  unfold scheduleOne at h
  split at h
  · cases h
  next node hnode =>
  split at h
  · cases h
  next trackers hquota =>
  split at h
  · cases h
  next patch hpatch =>
  cases h
  obtain ⟨n, hn, rfl⟩ := exists_of_choose hnode
  obtain ⟨hmem, hel⟩ := eligible_of_accepted hn
  refine ⟨rfl, n, hmem, ⟨hn, trackers, hquota⟩, placementPatch_ok hpatch, (of_eligible hel).1, ?_⟩
  simpa [topologyDomainCounts] using (mem_filter.mp hn).2

theorem of_mem_schedulePass (h : x ∈ (schedulePass F c G P machines nodes s ms).2) :
    ∃ s', (s', x.listed) ∈ turns F c G P machines nodes s ms ∧ ∃ n ∈ nodes,
      Open F G P machines nodes (s', x.listed) n ∧
      (∃ cpus, x.patch = { assignPatch n.name with allocatedCpuSet := cpus }) ∧
      x.Suits P nodes machines n := by
  induction ms generalizing s with
  | nil => cases h
  | cons m ms ih =>
    rcases mem_append.mp h with hfirst | hrest
    · obtain ⟨rfl, hplaced⟩ := of_scheduleOne (Option.mem_toList.mp hfirst)
      exact ⟨s, mem_cons_self, hplaced⟩
    · obtain ⟨s', hturn, hplaced⟩ := ih hrest
      exact ⟨s', mem_cons_of_mem _ hturn, hplaced⟩

theorem mem_of_mem_turns {t : PassState × Machine} (h : t ∈ turns F c G P machines nodes s ms) :
    t.2 ∈ ms := by
  induction ms generalizing s with
  | nil => cases h
  | cons m ms ih =>
    rcases mem_cons.mp h with rfl | h
    · exact mem_cons_self
    · exact mem_cons_of_mem _ (ih h)

theorem nodeName_of_mem_pending {volumesNotReady imagesNotReady : List ObjectKey}
    (h : m ∈ pendingMachines machines volumesNotReady imagesNotReady) :
    m ∈ machines ∧ m.spec.nodeName = "" := by
  obtain ⟨hmem, hpending⟩ := mem_filter.mp ((mem_insertionSort _).mp h)
  exact ⟨hmem, (of_decide_eq_true hpending).2.1⟩

/-! ## The Machines after the pass -/

theorem others_append (ms ms' : List Machine) (selector : StringMap) :
    others m (ms ++ ms') selector = others m ms selector ++ others m ms' selector :=
  filter_append ..

section Settled

variable {w : Table Machine.key} {placed : List Placement}
  (hnew : ∀ x ∈ placed, x.listed ∈ w.rows ∧ x.listed.spec.nodeName = "")

include hnew

/-- A Machine with a node is one that was listed with it or one that was placed. -/
theorem others_settled (selector : StringMap) : others m (settled w.rows placed) selector =
      others m w.rows selector ++ others m (placed.map Placement.machine) selector := by
  rw [settled, others_append]
  congr 1
  unfold others
  rw [filter_filter]
  refine filter_congr fun y hy => ?_
  rw [← Bool.decide_and, decide_eq_decide, and_iff_left_iff_imp]
  rintro ⟨-, hnode, -⟩ x hx hkey
  obtain ⟨hlisted, hnone⟩ := hnew x hx
  exact hnode (Table.eq_of_key_eq hlisted hy hkey ▸ hnone)

theorem termSatisfied_settled (n : Node) (term : MachineAffinityTerm) :
    termSatisfied m (settled w.rows placed) nodes n term = (termSatisfied m w.rows nodes n term ||
        termSatisfied m (placed.map Placement.machine) nodes n term) := by
  unfold termSatisfied
  split
  · rfl
  · rw [others_settled hnew, any_append]

theorem domainCount_settled (s : TopologySpreadConstraint) :
    domainCount m (settled w.rows placed) s nodes = fun value =>
      domainCount m w.rows s nodes value +
        domainCount m (placed.map Placement.machine) s nodes value := by
  funext value
  rw [domainCount, others_settled hnew, countP_append]
  rfl

end Settled

theorem nodeLabelValue_eq {n : Node} (hnodes : (nodes.map Node.name).Nodup) (hn : n ∈ nodes)
    (key : String) : nodeLabelValue nodes n.name key = labelOf n key := by
  have hfind : nodes.find? (fun n' => n'.name = n.name) = some n :=
    (Table.find_eq_some_iff (t := ⟨nodes, hnodes⟩)).mpr ⟨hn, rfl⟩
  rw [nodeLabelValue, hfind]
  rfl

/-- Every Machine that a scheduling pass places keeps to its anti-affinity and topology spread in
the cluster as it is after the pass, if all Machines are kept apart in the states in which their
turns come. -/
theorem placements_suit {w : Table Machine.key} {volumesNotReady imagesNotReady : List ObjectKey}
    {placed : List Placement} (hnodes : (nodes.map Node.name).Nodup)
    (hpass : (schedulePass F c G P w.rows nodes s
      (pendingMachines w.rows volumesNotReady imagesNotReady)).2 = placed)
    (hapart : ∀ t ∈ turns F c G P w.rows nodes s
        (pendingMachines w.rows volumesNotReady imagesNotReady),
      ∀ t' ∈ turns F c G P w.rows nodes s
          (pendingMachines w.rows volumesNotReady imagesNotReady),
        t'.2.key ≠ t.2.key → Apart F G P w.rows nodes t t') :
    ∀ x ∈ placed, ∃ n ∈ nodes, n.name = x.machine.spec.nodeName ∧
      x.Suits P nodes (settled w.rows placed) n := by
  have hplaced : ∀ x ∈ placed, _ := fun x hx => of_mem_schedulePass (hpass ▸ hx)
  have hnew : ∀ x ∈ placed, x.listed ∈ w.rows ∧ x.listed.spec.nodeName = "" := fun x hx =>
    have ⟨_, hturn, _⟩ := hplaced x hx
    nodeName_of_mem_pending (mem_of_mem_turns hturn)
  intro x hx
  obtain ⟨s', hturn, n, hn, hopen, ⟨cpus, hpatch⟩, hsuits⟩ := hplaced x hx
  -- no other placed Machine that a rule selects is in the domain of the node
  have hclear : ∀ rule ∈ (P x.listed.key).rules, ∀ value, labelOf n rule.2 = some value →
      ∀ y ∈ others x.listed (placed.map Placement.machine) rule.1,
        nodeLabelValue nodes y.spec.nodeName rule.2 ≠ some value := by
    intro rule hrule value hvalue y hy
    obtain ⟨hmem, hother⟩ := mem_filter.mp hy
    obtain ⟨hkey, -, hmatch⟩ := of_decide_eq_true hother
    obtain ⟨x', hx', rfl⟩ := mem_map.mp hmem
    obtain ⟨s'', hturn', n', hn', hopen', ⟨cpus', hpatch'⟩, -⟩ := hplaced x' hx'
    have hmachine : x'.machine = x'.listed.patch
      { assignPatch n'.name with allocatedCpuSet := cpus' } := hpatch' ▸ rfl
    rw [hmachine] at hmatch ⊢
    have := hapart _ hturn _ hturn' hkey n n' hopen hopen' rule hrule hmatch value hvalue
    exact fun h => this ((nodeLabelValue_eq hnodes hn' _).symm.trans h)
  refine ⟨n, hn, by rw [Placement.machine, hpatch]; rfl, fun term hterm => ?_, fun s hs => ?_⟩
  · rw [termSatisfied_settled hnew, hsuits.antiAffinity term hterm, Bool.false_or]
    unfold termSatisfied
    split
    · rfl
    · next value hvalue =>
      refine any_eq_false.mpr fun y hy => ?_
      have := hclear (_, _) (mem_append_left _ (mem_map_of_mem hterm)) value hvalue y hy
      simpa using this
  · rw [domainCount_settled hnew]
    refine withinSkew_mono (fun v => Nat.le_add_right _ _) (fun v hv => ?_) (hsuits.spread s hs)
    refine Nat.add_eq_left.mpr (countP_eq_zero.mpr fun y hy => ?_)
    have := hclear (_, _) (mem_append_right _ (mem_map_of_mem hs)) v hv y hy
    simpa using this

/-! ## The load after the pass -/

theorem load_schedulePass (s : PassState) (ms : List Machine) :
    let pass := schedulePass F c G P machines nodes s ms
    pass.1.load =
      reserveEach F s.load (pass.2.map fun x => (x.machine.spec.nodeName, x.listed)) := by
  induction ms generalizing s with
  | nil => rfl
  | cons m ms ih =>
    have hone : (scheduleOne F c G P machines nodes s m).1.load = reserveEach F s.load
        ((scheduleOne F c G P machines nodes s m).2.toList.map fun x =>
          (x.machine.spec.nodeName, x.listed)) := by
      unfold scheduleOne
      split
      · rfl
      split
      · rfl
      split
      · rfl
      next patch hpatch =>
      obtain ⟨cpus, rfl⟩ := placementPatch_ok hpatch
      rfl
    simp only [schedulePass, ih, hone, reserveEach, map_append, foldl_append]

/-- The load that a pass keeps up by `Reserve`, from what `BuildNodeLoad` has made of the Machines
that were listed, is what it makes of all Machines after it. -/
theorem load_settled {w : Table Machine.key} {trackers ms} (hms : ∀ m ∈ ms, m ∈ w.rows ∧
      m.spec.nodeName = "" ∧ ∀ n ∈ nodes, consumes (m.patch (assignPatch n.name)) = true) :
    let pass := schedulePass F c G P w.rows nodes ⟨buildNodeLoad F w.rows, trackers⟩ ms
    pass.1.load = buildNodeLoad F (settled w.rows pass.2) := by
  intro pass
  have hplaced : ∀ x ∈ pass.2, x.listed ∈ ms ∧ consumes x.machine = true ∧
      machineRequests F x.machine = machineRequests F x.listed := by
    intro x hx
    obtain ⟨s', hturn, n, hn, -, ⟨cpus, hpatch⟩, -⟩ := of_mem_schedulePass hx
    rw [Placement.machine, hpatch]
    have hx := mem_of_mem_turns hturn
    exact ⟨hx, (hms _ hx).2.2 n hn, rfl⟩
  -- a Machine that was placed had no node before
  have hrest : (w.rows.filter fun m => ∀ x ∈ pass.2, x.listed.key ≠ m.key).filter consumes =
      w.rows.filter consumes := by
    rw [filter_filter]
    refine filter_congr fun m hm => Bool.and_eq_left_iff_imp.mpr fun hc => ?_
    refine decide_eq_true fun x hx hkey => ?_
    obtain ⟨hlisted, hnone, -⟩ := hms _ (hplaced x hx).1
    simp [consumes, ← Table.eq_of_key_eq hlisted hm hkey, hnone] at hc
  have hall : (pass.2.map Placement.machine).filter consumes = pass.2.map Placement.machine :=
    filter_eq_self.mpr (forall_mem_map.mpr fun x hx => (hplaced x hx).2.1)
  have hload : pass.1.load = reserveEach F (buildNodeLoad F w.rows)
      (pass.2.map fun x => (x.machine.spec.nodeName, x.listed)) := load_schedulePass _ ms
  rw [hload]
  simp only [buildNodeLoad, assigned, settled, filter_append, hrest, hall, map_append, reserveEach,
    foldl_append, foldl_map]
  refine foldl_ext _ _ _ fun load x hx => ?_
  rw [reserve, reserve, (hplaced x hx).2.2]

/-! ## Two Machines in two zones -/

def awayFromWeb : PlacementSpec := ⟨[], [⟨[("app", "web")], "zone"⟩], []⟩

def twoWebs : Table Machine.key := ⟨[webVM "a" "", webVM "b" ""], by decide⟩

def preferA : Grounds := { everyNode with score := fun n => if n.name = "node-a" then 1 else 0 }

/-- The Machine `a` may get to the node `node-a` alone. -/
def ownNode (k : ObjectKey) : Grounds :=
  { everyNode with first := fun n => if n.name = "node-" ++ k.name then none else some "held" }

def webPass (G : ObjectKey → Grounds) (p : PlacementSpec) : PassState × List Placement :=
  schedulePass wholeNumbers ⟨0, 0, parseVCPUs wholeNumbers⟩ G (fun _ => p) twoWebs.rows twoZones
    ⟨buildNodeLoad wholeNumbers twoWebs.rows, []⟩ (pendingMachines twoWebs.rows [] [])

theorem of_open_ownNode {t : PassState × Machine} {n : Node} (h : Open wholeNumbers ownNode
    (fun _ => awayFromWeb) twoWebs.rows twoZones t n) :
    n ∈ twoZones ∧ n.name = "node-" ++ t.2.key.name := by
  obtain ⟨hmem, hel⟩ := eligible_of_accepted h.1
  refine ⟨hmem, ?_⟩
  by_contra hname
  simp [eligible, ownNode, hname] at hel

theorem both_kept_apart : let placed := (webPass ownNode awayFromWeb).2
    placed.map (·.machine.spec.nodeName) = ["node-a", "node-b"] ∧
      ∀ x ∈ placed, ∃ n ∈ twoZones, n.name = x.machine.spec.nodeName ∧
        x.Suits (fun _ => awayFromWeb) twoZones (settled twoWebs.rows placed) n := by
  have hpending : pendingMachines twoWebs.rows [] [] = twoWebs.rows := by decide +kernel
  refine ⟨by decide +kernel, placements_suit (by decide) rfl ?_⟩
  intro t ht t' ht' hne n n' hn hn' rule hrule hmatch value hvalue hvalue'
  replace ht := hpending ▸ mem_of_mem_turns ht
  replace ht' := hpending ▸ mem_of_mem_turns ht'
  -- each Machine has its own node, and the two nodes are in different zones
  have hzones : ∀ m ∈ twoWebs.rows, ∀ m' ∈ twoWebs.rows, m'.key ≠ m.key → ∀ n ∈ twoZones,
      ∀ n' ∈ twoZones, n.name = "node-" ++ m.key.name → n'.name = "node-" ++ m'.key.name →
        ∀ rule ∈ awayFromWeb.rules, labelOf n rule.2 ≠ labelOf n' rule.2 := by decide +kernel
  obtain ⟨hmem, hname⟩ := of_open_ownNode hn
  obtain ⟨hmem', hname'⟩ := of_open_ownNode hn'
  exact hzones _ ht _ ht' hne n hmem n' hmem' hname hname' rule hrule (hvalue.trans hvalue'.symm)

theorem load_settled_two : let pass := webPass ownNode awayFromWeb
    pass.2.length = 2 ∧ pass.1.load = buildNodeLoad wholeNumbers (settled twoWebs.rows pass.2) :=
  ⟨by decide +kernel, load_settled (by decide +kernel)⟩

/-- Two Machines that must not share a zone, or must not be two more than in the other zone, are
placed in the same zone by one pass. -/
theorem both_in_one_zone : [awayFromWeb, spreadOut].Forall fun p =>
    ∃ x ∈ (webPass (fun _ => preferA) p).2, x.machine.spec.nodeName = "node-a" ∧
      ¬ x.Suits (fun _ => p) twoZones
        (settled twoWebs.rows (webPass (fun _ => preferA) p).2) (zoned "node-a" "1") := by
  decide +kernel

end Kairon.Scheduler
