import Kairon.Network.Pushes
import Kairon.Properties.NetworkCleanup

/-!
# Machines that a policy does not select any more

A policy remembers in its status on which Machines it is in force, and the agents reset those that
it does not select any more. The list is one for all nodes, and each agent replaces it by the
Machines of its own node.

* `cleared_inductive`: a VM that a pass has reset
* `stale_rules_dropped`: when the pass drops the rules of a Machine
-/

namespace Kairon.Network

open Infra Model Cluster List Option Host Pasts

def agents (deny : String → Bool) : Host NetworkOp.Ans GoErr String World :=
  { networkHost with start := fun node p => p = reconcileNetworkResources ⟨node, deny node⟩ }

/-- There is a push for a Machine that no policy selects: default deny or the fence of its tenant,
or a reset by a policy that has the Machine in its list or is being deleted. -/
def Due (a : Config) (s : Told) (m : Machine) : Prop :=
  a.networkDefaultDeny = true ∨
    (m.spec.tenant ≠ "" ∧ wantsFence m.metadata.annotations = true ∧ deniesFor s.groups m ≠ []) ∨
    (∃ q ∈ s.policies, q.leaving = true ∧ covers q m = true) ∨
    ∃ q ∈ s.policies, q.metadata.deleting = false ∧ q.key.namespace = m.key.namespace ∧
      m.metadata.name ∈ q.status.appliedMachines

section Pass

variable {a : Config} {s : Told} {m : Machine} {b : Push} {q : MachineNetworkPolicy}
  (hm : OwnVM a s m) (unselected : ∀ q ∈ s.policies, q.metadata.deleting = false →
    covers q m = false)

include hm unselected

theorem unmatched_of_unselected : unmatched a s.policies m = true := by
  have hnone : anyCurrentPolicySelects s.policies m = false := by
    refine List.any_eq_false.mpr fun q hq hsel => ?_
    simp only [Bool.and_eq_true, decide_eq_true_eq, Bool.not_eq_true'] at hsel
    have := unselected q hq hsel.1.2
    simp [covers, hsel.1.1, hsel.2] at this
  simp [unmatched, hm.here, hm.running, hm.runtime, hnone]

theorem stale_iff (machines : (s.machines.map Machine.key).Nodup) (hq : q ∈ s.policies)
    (hcur : q.metadata.deleting = false) {name : String} :
    s.stale a q name = some m ↔ q.key.namespace = m.key.namespace ∧ name = m.metadata.name := by
  constructor
  · intro h
    obtain ⟨-, -, hns, hname, -, -⟩ := stale_eq_some h
    exact ⟨hns.symm, hname.symm⟩
  · rintro ⟨hns, rfl⟩
    have unique : ∀ x ∈ s.machines, x.key.namespace = q.key.namespace →
        x.metadata.name = m.metadata.name → x = m := by
      intro x hx hxns hxname
      refine inj_on_of_nodup_map machines hx hm.listed ?_
      calc x.key = ⟨x.key.namespace, x.metadata.name⟩ := rfl
        _ = ⟨m.key.namespace, m.metadata.name⟩ := by rw [hxns, hns, hxname]
        _ = m.key := rfl
    have hfind : findMachineByName s.machines q.key.namespace m.metadata.name = some m := by
      cases hf : findMachineByName s.machines q.key.namespace m.metadata.name with
      | none =>
        have := List.find?_eq_none.mp hf m hm.listed
        simp [hns] at this
      | some x =>
        have hx := List.find?_some hf
        simp only [decide_eq_true_eq] at hx
        rw [unique x (mem_of_find?_eq_some hf) hx.1 hx.2]
    have hno : ((s.targets a q).map fun x => x.metadata.name).contains m.metadata.name = false := by
      refine Bool.eq_false_iff.mpr fun hc => ?_
      obtain ⟨x, hx, hname⟩ := List.mem_map.mp (contains_iff_mem.mp hc)
      have hreach := (mem_filter.mp hx).2
      simp only [reaches, Bool.and_eq_true, decide_eq_true_eq] at hreach
      simp [unique x (mem_filter.mp hx).1 hreach.1.1.1.2 hname, hm.mem_targets_iff,
        unselected q hq hcur] at hx
    have hother : anotherPolicyStillSelects s.policies q m = false := by
      refine List.any_eq_false.mpr fun p hp hsel => ?_
      simp only [Bool.and_eq_true, decide_eq_true_eq, Bool.not_eq_true'] at hsel
      have := unselected p hp hsel.1.2
      simp [covers, hsel.1.1.2, hsel.2] at this
    rw [Told.stale, if_neg (by simp only [hno]; exact Bool.false_ne_true), hfind]
    exact filter_some_pos (by simp [hm.here, hm.runtime, hother])

theorem owner_of_unselected
    (h : (fallback a s m.status.runtimeID).or (latest (turn a s m.status.runtimeID) s.policies) =
      some b) : b.1 = none := by
  rcases or_eq_some_iff.mp h with hfall | ⟨-, hturn⟩
  · rcases or_eq_some_iff.mp hfall with hfence | ⟨-, hdeny⟩
    · obtain ⟨x, -, hx⟩ := exists_of_latest hfence
      rw [(onVM_eq_some _ hx).2]
    · split at hdeny
      · obtain ⟨x, -, hx⟩ := exists_of_latest hdeny
        rw [(onVM_eq_some _ hx).2]
      · cases hdeny
  · obtain ⟨q, hq, hpush⟩ := exists_of_latest hturn
    rcases (turn_eq_some_iff hm).mp hpush with ⟨-, -, rfl⟩ | ⟨hcur, -, hcov, -⟩ | ⟨-, -, -, -, rfl⟩
    · rfl
    · simp [unselected q hq hcur] at hcov
    · rfl

theorem fallback_ne_none_iff : fallback a s m.status.runtimeID ≠ none ↔
      a.networkDefaultDeny = true ∨ (m.spec.tenant ≠ "" ∧ wantsFence m.metadata.annotations = true ∧
          deniesFor s.groups m ≠ []) := by
  have hun := unmatched_of_unselected hm unselected
  -- a filter that has only such Machines has one with this VM just when it has this Machine
  have only : ∀ {keep : Machine → Bool} {push : Machine → Push},
      (∀ x, keep x = true → unmatched a s.policies x = true) →
        (latest (fun x => onVM m.status.runtimeID (push x) x) (s.machines.filter keep) ≠ none ↔
          keep m = true) := by
    intro keep push hkeep
    rw [latest_ne_none_iff]
    constructor
    · rintro ⟨x, hx, hpush⟩
      obtain ⟨hmem, hk⟩ := mem_filter.mp hx
      obtain ⟨b, hb⟩ := ne_none_iff_exists'.mp hpush
      have hnode := hkeep x hk
      simp only [unmatched, Bool.and_eq_true, decide_eq_true_eq] at hnode
      rwa [← hm.own x hmem hnode.1.1.1 (onVM_eq_some _ hb).1]
    · intro hk
      refine ⟨m, mem_filter.mpr ⟨hm.listed, hk⟩, ?_⟩
      rw [onVM, if_pos rfl]
      exact some_ne_none _
  unfold fallback
  rw [ne_eq, or_eq_none_iff, not_and_or, or_comm]
  refine or_congr ?_ ?_
  · by_cases hd : a.networkDefaultDeny = true
    · rw [if_pos hd]
      exact iff_of_true ((only fun _ hx => hx).mpr hun) hd
    · rw [if_neg hd]
      exact iff_of_false (fun h => h rfl) hd
  · refine (only fun x hx => ?_).trans ?_
    · simp only [Bool.and_eq_true] at hx
      exact hx.1.1.1
    · simp [hun, and_assoc]

theorem turns_ne_none_iff (machines : (s.machines.map Machine.key).Nodup)
    (fine : ∀ k, s.refuses k = false) : latest (turn a s m.status.runtimeID) s.policies ≠ none ↔
      (∃ q ∈ s.policies, q.leaving = true ∧ covers q m = true) ∨
        ∃ q ∈ s.policies, q.metadata.deleting = false ∧ q.key.namespace = m.key.namespace ∧
          m.metadata.name ∈ q.status.appliedMachines := by
  rw [latest_ne_none_iff]
  constructor
  · rintro ⟨q, hq, hturn⟩
    obtain ⟨b, hb⟩ := ne_none_iff_exists'.mp hturn
    rcases (turn_eq_some_iff hm).mp hb with
      ⟨hleave, hcov, -⟩ | ⟨hcur, -, hcov, -⟩ | ⟨hcur, -, -, ⟨name, hname, hstale⟩, -⟩
    · exact .inl ⟨q, hq, hleave, hcov⟩
    · simp [unselected q hq hcur] at hcov
    · obtain ⟨hns, rfl⟩ := (stale_iff hm unselected machines hq hcur).mp hstale
      exact .inr ⟨q, hq, hcur, hns, hname⟩
  · rintro (⟨q, hq, hleave, hcov⟩ | ⟨q, hq, hcur, hns, hname⟩)
    · refine ⟨q, hq, ne_none_iff_exists'.mpr ⟨reset, ?_⟩⟩
      exact (turn_eq_some_iff hm).mpr (.inl ⟨hleave, hcov, rfl⟩)
    · refine ⟨q, hq, ne_none_iff_exists'.mpr ⟨reset, ?_⟩⟩
      have hheld : s.held q = true := by simp [Told.held, fine]
      exact (turn_eq_some_iff hm).mpr (.inr (.inr ⟨hcur, hheld, unselected q hq hcur,
        ⟨_, hname, (stale_iff hm unselected machines hq hcur).mpr ⟨hns, rfl⟩⟩, rfl⟩))

theorem due_iff (machines : (s.machines.map Machine.key).Nodup) (fine : ∀ k, s.refuses k = false) :
    (fallback a s m.status.runtimeID).or (latest (turn a s m.status.runtimeID) s.policies) ≠ none ↔
      Due a s m := by
  rw [ne_eq, or_eq_none_iff, not_and_or]
  exact (or_congr (fallback_ne_none_iff hm unselected)
    (turns_ne_none_iff hm unselected machines fine)).trans or_assoc

end Pass

/-! ## Runs -/

theorem agents_follow (deny : String → Bool) (t : String) (p : NetM GoErr)
    (h : (agents deny).start t p) : p.Follows (NetworkRule t) Anyhow [] :=
  follows_of_start t p ⟨⟨t, deny t⟩, rfl, h⟩

def Cleared (w : World) (node : String) (past : History) : Prop :=
  ∀ id policy, lastPush id past = some (none, policy) →
    (∀ ev ∈ past, pushed id ev.op ≠ none → failed ev.op ev.ans = false) →
      ∀ k, w.mark .policy node id ≠ some k

variable {w w' : World} {node u : String} {past : History} {e : NetworkOp} {r : e.Ans}

theorem pushed_of_writes {id : String} {owner : Option ObjectKey}
    (h : writes e = some (.policy, id, owner)) : ∃ policy, pushed id e = some (owner, policy) := by
  cases e with
  | setVMNetworkPolicy owner' i policy =>
    cases h
    exact ⟨policy, if_pos rfl⟩
  | upsertNetworkGroup | deleteNetworkGroup => cases h
  | _ => cases h

theorem writes_of_pushed {id : String} {push : Push} (h : pushed id e = some push) :
    writes e = some (.policy, id, push.1) := by
  cases e with
  | setVMNetworkPolicy owner i policy =>
    obtain ⟨rfl, hpush⟩ := ite_none_right_eq_some.mp h
    cases hpush
    rfl
  | _ => cases h

theorem Cleared.call (h : Cleared w node past) (hw : w' ∈ outcomes node w e r) :
    Cleared w' node (⟨e, r⟩ :: past) := by
  intro id policy hlast hok k hk
  obtain ⟨hnew, hold⟩ := forall_mem_cons.mp hok
  rcases or_eq_some_iff.mp (show (pushed id e).or (lastPush id past) = _ from hlast) with
    hpush | ⟨hnone, hlast⟩
  · have hx := writes_of_pushed hpush
    rcases mark_of_call hw hk with ⟨-, hno⟩ | ⟨-, hx'⟩
    · have hsucc := hnew (by rw [hpush]; exact some_ne_none _)
      have hwrote := hno rfl
      simp [wrote, hx, hsucc] at hwrote
    · simp [hx] at hx'
  · rcases mark_of_call hw hk with ⟨hmark, -⟩ | ⟨-, hx⟩
    · exact h id policy hlast hold k hmark
    · obtain ⟨policy', hpush⟩ := pushed_of_writes hx
      simp [hnone] at hpush

theorem Cleared.other (h : Cleared w u past) (hu : u ≠ node) (hw : w' ∈ outcomes node w e r) :
    Cleared w' u past := by
  intro id policy hlast hok k hk
  rcases mark_of_call hw hk with ⟨hmark, -⟩ | ⟨hn, -⟩
  · exact h id policy hlast hok k hmark
  · exact hu hn

theorem cleared_inductive (deny : String → Bool) :
    Inductive (agents deny) NetworkRule (fun _ => Anyhow) (fun _ _ => True)
      fun w ps => ∀ t past, ps t = some past → Cleared w t past where
  start h _ := forall_update (fun past hp => by cases hp; intro id policy hlast; cases hlast)
    fun u past _ hu => h u past hu
  call := by
    intro c t e r w past h hpast _ _ hw
    refine forall_update (fun past' hp => ?_) fun u past' hu hpast' => ?_
    · cases hp
      exact (h t past hpast).call hw
    · exact (h u past' hpast').other hu hw
  stop h _ _ := forall_update nofun fun u past _ hu => h u past hu
  crash h _ _ _ := forall_update nofun fun u past _ hu => h u past hu
  env := by
    intro c w h hw _ t past hpast id policy hlast hok k hk
    exact h t past hpast id policy hlast hok k (hw .policy t id k hk)

theorem machines_distinct {H : Host NetworkOp.Ans GoErr String World}
    (hH : H.outcomes = outcomes) {w : World} {tr : List NetworkLabel} {c : NetworkConf}
    (run : Run H (fun _ _ => True) (Conf.idle w) tr c) {node : String} {past : History}
    (hpast : c.past node = some past) {ms : List Machine}
    (hlisted : ⟨.listMachines, .ok ms⟩ ∈ past) : (ms.map Machine.key).Nodup := by
  obtain ⟨newer, older, rfl⟩ := append_of_mem hlisted
  obtain ⟨_, _, c₁, c₂, -, -, -, hstep, -⟩ := run.exists_call hpast
  have hout := hstep.outcome
  rw [hH] at hout
  have hperm := (isPerm_iff.mp (mem_outcomes_iff.mp hout).1).map Machine.key
  exact hperm.nodup_iff.mpr c₁.world.machines.distinct

/-- Let the agent of a node complete a pass in which FluxVM answers every call and no patch of a
policy is refused, in any interleaving of the passes of all agents with edits of policies and
Machines. A running Machine of the node with a VM of its own that no listed policy selects gets a
push just when there is one `Due`, and then its VM is under no policy at the end of the pass. -/
theorem stale_rules_dropped (deny : String → Bool) (w : World) {tr : List NetworkLabel}
    {c : NetworkConf} (run : Run (agents deny) (fun _ _ => True) (Conf.idle w) tr c)
    {node : String} {result : Except String Unit} {past : History}
    (completed : c.thread node = some ⟨.ret result, past⟩) (s : Told)
    (fine : ∀ k, s.refuses k = false) (told : ∀ ev ∈ past, s.Answers ev) (m : Machine)
    (hm : OwnVM ⟨node, deny node⟩ s m)
    (unselected : ∀ q ∈ s.policies, q.metadata.deleting = false → covers q m = false) :
    (lastPush m.status.runtimeID past ≠ none ↔ Due ⟨node, deny node⟩ s m) ∧
      (Due ⟨node, deny node⟩ s m → ∀ k, c.world.mark .policy node m.status.runtimeID ≠ some k) := by
  have hpast : c.past node = some past := by simp [Conf.past, completed]
  have passes : ∀ t p, (agents deny).start t p → p.Ends s.Answers (fun h _ =>
      ⟨.listMachines, .ok s.machines⟩ ∈ h ∧ lastPush m.status.runtimeID h =
        (fallback ⟨t, deny t⟩ s m.status.runtimeID).or
          (latest (turn ⟨t, deny t⟩ s m.status.runtimeID) s.policies)) [] := by
    rintro t _ rfl
    exact (reconcileNetworkResources_listed ⟨t, deny t⟩ s).and
      (reconcileNetworkResources_ends ⟨t, deny t⟩ s _)
  obtain ⟨hlisted, hlast⟩ := run.ends passes completed told
  have hdue := due_iff hm unselected (machines_distinct rfl run hpast hlisted) fine
  rw [← hlast] at hdue
  refine ⟨hdue, fun hd k => ?_⟩
  obtain ⟨b, hb⟩ := ne_none_iff_exists'.mp (hdue.mpr hd)
  have howner : b.1 = none := owner_of_unselected hm unselected (hlast ▸ hb)
  have hI := (cleared_inductive deny).run (agents_follow deny) run (Conf.follows_idle _ _ w)
    (by rintro _ _ ⟨⟩)
  refine hI node past hpast _ b.2 (by rw [hb, ← howner]) (fun ev hev hpush => ?_) k
  obtain ⟨e, r⟩ := ev
  cases e with
  | setVMNetworkPolicy owner i policy =>
    have hr : r = .ok () := told _ hev
    rw [hr]
    rfl
  | _ => exact absurd rfl hpush

/-! ## A list that another agent has replaced -/

def webMachine (name node id : String) (labels : StringMap) : Machine :=
  { plainMachine name node twoCores with
    metadata := plainMeta name labels
    status := { blankStatus with phase := "Running", runtimeID := id } }

def webPolicy : MachineNetworkPolicy where
  metadata := { plainMeta "web" [] with finalizers := [finalizerNetworkPolicy] }
  spec := ⟨"", [("app", "web")], { defaultAllow := false }, []⟩
  status := ⟨"", "", 0, none, false, []⟩

def webWorld (nodeB : String) : World where
  groups := ⟨[], nodup_nil⟩
  policies := Table.add ⟨[], nodup_nil⟩ webPolicy
  machines := ⟨[webMachine "vm-a" "node-a" "r-1" [("app", "web")],
    webMachine "vm-b" nodeB "r-2" [("app", "web")]],
    show [(⟨"default", "vm-a"⟩ : ObjectKey), ⟨"default", "vm-b"⟩].Nodup by decide⟩
  vm n id := if n = "node-a" ∧ id = "r-1" ∨ n = nodeB ∧ id = "r-2" then some none else none
  group _ _ := none

def relabel (w : World) : World :=
  { w with
    machines := w.machines.edit (webMachine "vm-a" "node-a" "r-1" []).key
      (fun m => { m with metadata := { m.metadata with labels := [("app", "db")] } }) fun _ => rfl }

def otherMachine : Machine := webMachine "vm-a" "node-a" "r-1" [("app", "db")]

def toldBy (c : NetworkConf) : Told :=
  let past := (c.past "node-a").getD []
  ⟨groupsSeen past, policiesSeen past, (machinesSeen past).getD [], fun _ => false⟩

theorem own_otherMachine {s : Told} (nodeB : String)
    (h : s.machines = [otherMachine, webMachine "vm-b" nodeB "r-2" [("app", "web")]]) :
    OwnVM ⟨"node-a", false⟩ s otherMachine where
  listed := h ▸ .head _
  here := rfl
  running := rfl
  runtime := by decide
  own x hx _ hid := by
    rcases mem_pair.mp (h ▸ hx) with rfl | rfl
    · rfl
    · exact absurd hid (show "r-2" ≠ "r-1" by decide)

def relabelScript (n : Nat) (others : List NetworkMove) (k : Nat) : List NetworkMove :=
  passOf "node-a" n ++ [.stop "node-a"] ++ others ++ [.env relabel] ++ passOf "node-a" k

def passB : List NetworkMove := passOf "node-b" 7 ++ [.stop "node-b"]

theorem relabel_may (w : World) : networkHost.env w (relabel w) := by
  intro kind n id k hk
  cases kind <;> exact hk

/-- The agent of node-b replaces the list of the policy, and `vm-a` stays under the policy. -/
theorem rules_kept : ∃ deny w tr c node result past s m p,
      Run (agents deny) (fun _ _ => True) (Conf.idle w) tr c ∧
        c.thread node = some ⟨.ret result, past⟩ ∧ (∀ k, s.refuses k = false) ∧
        (∀ ev ∈ past, s.Answers ev ∧ failed ev.op ev.ans = false) ∧
        OwnVM ⟨node, deny node⟩ s m ∧ p ∈ s.policies ∧ (∀ q ∈ s.policies, covers q m = false) ∧
        c.world.mark .policy node m.status.runtimeID = some p.key := by
  have may : (agents fun _ => false).Allows (relabelScript 7 passB 5) :=
    ⟨rfl, rfl, relabel_may, rfl⟩
  have run := run_of_play (c := .idle (webWorld "node-b")) may rfl
  refine ⟨fun _ => false, _, _, _, "node-a", _, _, toldBy run.final, otherMachine, _, run, rfl,
    fun _ => rfl, forall_iff_forall_mem.mp ?_, own_otherMachine "node-b" rfl, .head _,
    forall_iff_forall_mem.mp rfl, ?_⟩
  · exact ⟨⟨trivial, rfl⟩, ⟨trivial, rfl⟩, ⟨rfl, rfl⟩, ⟨rfl, rfl⟩, rfl, rfl⟩
  · rfl

theorem stale_rules_dropped_alone : ∃ tr c result past,
      Run (agents fun _ => false) (fun _ _ => True) (Conf.idle (webWorld "node-a")) tr c ∧
      c.thread "node-a" = some ⟨.ret result, past⟩ ∧
      OwnVM ⟨"node-a", false⟩ (toldBy c) otherMachine ∧
      (∀ q ∈ (toldBy c).policies, covers q otherMachine = false) ∧
      ∀ k, c.world.mark .policy "node-a" "r-1" ≠ some k := by
  have may : (agents fun _ => false).Allows (relabelScript 9 [] 8) := ⟨rfl, relabel_may, rfl⟩
  have run := run_of_play (c := .idle (webWorld "node-a")) may rfl
  have completed : run.final.thread "node-a" = some ⟨.ret _, _⟩ := rfl
  have hpass := stale_rules_dropped (fun _ => false) _ run completed
    (toldBy run.final) (fun _ => rfl) (forall_iff_forall_mem.mp
      ⟨trivial, trivial, rfl, trivial, rfl, rfl, rfl, rfl⟩) otherMachine
    (own_otherMachine "node-a" rfl) (forall_iff_forall_mem.mp fun _ => rfl)
  exact ⟨_, _, _, _, run, rfl, own_otherMachine "node-a" rfl, forall_iff_forall_mem.mp rfl,
    hpass.2 (hpass.1.mp nofun)⟩

end Kairon.Network
