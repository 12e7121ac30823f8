import Kairon.Cluster.World
import Kairon.Edge.Apply

/-!
# The rules in the document of a Machine

The agent lists the policies anew for every Machine, and takes a listing that failed for one without
a policy that selects the Machine: then the document allows everything.

* `faithful_of_heard`, `faithful_open_iff`: the documents after each kind of listing
* `posted_rules_iff`: when they have the rules of the policies
-/

namespace Kairon.Edge

open Infra GoText Model Cluster Network List

structure Rules where
  defaultAllow : Bool
  allowCIDRs : List String
  denyCIDRs : List String
  allowPorts : List String
  allowSNI : List String
  allowDNS : List String
  allowICMP : Bool

def EdgeSpec.rules (d : EdgeSpec) : Rules :=
  ⟨d.defaultAllow, d.allowCIDRs, d.denyCIDRs, d.allowPorts, d.allowSNI, d.allowDNS, d.allowICMP⟩

def policyRules (p : MachineNetworkPolicy) : Rules :=
  let r := p.spec.policy
  ⟨r.defaultAllow, r.allowCidrs, r.denyCidrs, r.allowPorts, r.allowSNI,
    if r.allowDNS = [] then r.allowFqdns else r.allowDNS, r.allowIcmp⟩

def openRules : Rules := ⟨true, [], [], [], [], [], false⟩

variable (a : EdgeAgent)

/-- What should hold of the documents posted for a Machine: they have the rules of a policy that
selects the Machine if there is one, and none allows everything by default if the listing has
failed. -/
def Faithful (m : EdgeMachine) (policies : List MachineNetworkPolicy) (failure : Option ApiError)
    (docs : List EdgeSpec) : Prop :=
  ∀ d ∈ docs, ((∃ p ∈ policies, selects m p = true) →
      ∃ p ∈ policies, selects m p = true ∧ d.rules = policyRules p) ∧
    (a.kube = true → failure ≠ none → d.defaultAllow = false)

/-- The agent has heard of the policies, or has nothing to post, or has no access to the API server
and it makes no difference. -/
def Heard (m : EdgeMachine) (runtimeID : String) (policies : List MachineNetworkPolicy) (failure :
    Option ApiError) : Prop :=
  (a.kube = true ∧ failure = none) ∨ a.flux = false ∨ runtimeID = "" ∨ m.metadata.name = "" ∨
    (a.kube = false ∧ ((∃ p ∈ policies, selects m p = true) →
      ∃ p ∈ policies, selects m p = true ∧ policyRules p = openRules))

variable {net : Netip} {a} {m : EdgeMachine} {policies : List MachineNetworkPolicy}
  {failure : Option ApiError} {runtimeID guestIP nicMAC : String} {spec compiled : EdgeSpec}

theorem rules_compile (h : compile net spec = .ok compiled) : compiled.rules = spec.rules := by
  obtain ⟨-, -, -, -, rfl⟩ := compile_eq_ok_iff.mp h
  rfl

theorem rules_withLearned (learned : Option (String × String)) :
    (withLearned compiled learned).rules = compiled.rules := by
  cases learned with
  | none => rfl
  | some x => rfl

theorem name_ne_of_compile_error {e : String}
    (h : compile net (buildEdgeSpec m guestIP nicMAC) = .error e) : m.metadata.name = "" := by
  by_contra hname
  have hns : m.key.namespace ≠ "" := by
    show ObjectKey.effectiveNamespace _ ≠ ""
    unfold ObjectKey.effectiveNamespace
    split
    · decide
    · assumption
  have hok : compile net (buildEdgeSpec m guestIP nicMAC) = .ok _ :=
    compile_eq_ok_iff.mpr ⟨⟨hns, hname⟩, rfl, rfl, rfl, rfl⟩
  simp [h] at hok

theorem compile_of_name (h : compile net (buildEdgeSpec m guestIP nicMAC) = .ok compiled) :
    m.metadata.name ≠ "" :=
  (compile_eq_ok_iff.mp h).1.2

theorem rules_edgeSpec (policy : Option MachineNetworkPolicy) :
    (edgeSpec m guestIP nicMAC policy).rules = (policy.map policyRules).getD openRules := by
  cases policy with
  | none => rfl
  | some p => rfl

theorem faithful_of_heard (heard : a.kube = true ∧ failure = none) {d : EdgeSpec}
    (hd : d.rules = ((found a m policies failure).map policyRules).getD openRules) :
    Faithful a m policies failure [d] := by
  intro d' hd'
  obtain rfl := mem_singleton.mp hd'
  refine ⟨fun ⟨q, hq, hsel⟩ => ?_, fun _ hfail => absurd heard.2 hfail⟩
  rw [found, if_pos heard] at hd
  cases hf : policies.find? (selects m) with
  | none => exact absurd hsel (List.find?_eq_none.mp hf q hq)
  | some p =>
    rw [hf] at hd
    exact ⟨p, mem_of_find?_eq_some hf, List.find?_some hf, hd⟩

theorem faithful_open_iff (unheard : ¬(a.kube = true ∧ failure = none)) {d : EdgeSpec}
    (hd : d.rules = openRules) : Faithful a m policies failure [d] ↔
      a.kube = false ∧ ((∃ p ∈ policies, selects m p = true) →
        ∃ p ∈ policies, selects m p = true ∧ policyRules p = openRules) := by
  have hopen : d.defaultAllow = true := congrArg Rules.defaultAllow hd
  unfold Faithful
  rw [forall_mem_singleton, hopen, hd, and_comm]
  refine and_congr ?_ ?_
  · constructor
    · intro h
      cases hk : a.kube with
      | false => rfl
      | true => cases h hk fun hf => unheard ⟨hk, hf⟩
    · intro hk h
      simp [hk] at h
  · simp only [eq_comm]

/-- For every Machine that asked for the edge, every list of the policies of its namespace and every
outcome of the listing, whatever FluxVM answers: the documents that are posted have the rules of a
policy that selects the Machine, and do not allow everything after a listing that failed, just when
the agent has heard of the policies, or posts nothing, or has no access to the API server at all
and the policies allow everything. -/
theorem posted_rules_iff (net : Netip) (a : EdgeAgent) (m : EdgeMachine)
    (requested : edgeRequested m = true) (runtimeID guestIP nicMAC : String)
    (policies : List MachineNetworkPolicy) (failure : Option ApiError) :
    (applyEdge net a m runtimeID guestIP nicMAC).Ends (Lists policies failure)
      (fun h _ => Faithful a m policies failure (posts h) ↔
        Heard a m runtimeID policies failure) [] := by
  refine (applyEdge_ends requested nicMAC).mono fun h _ hpost => ?_
  by_cases heard : a.kube = true ∧ failure = none
  · refine iff_of_true ?_ (.inl heard)
    rcases hpost with ⟨hnone, -⟩ | ⟨compiled, learned, -, -, hcompile, hposts⟩
    · rw [hnone]
      exact nofun
    · rw [hposts]
      refine faithful_of_heard heard ?_
      rw [rules_withLearned, rules_compile hcompile, rules_edgeSpec]
  · have hfound : found a m policies failure = none := if_neg heard
    rw [hfound] at hpost
    rcases hpost with ⟨hnone, hwhy⟩ | ⟨compiled, learned, hflux, hid, hcompile, hposts⟩
    · rw [hnone]
      refine iff_of_true nofun (.inr ?_)
      rcases hwhy with hflux | hid | ⟨e, he⟩
      · exact .inl hflux
      · exact .inr (.inl hid)
      · exact .inr (.inr (.inl (name_ne_of_compile_error he)))
    · have hrules : (withLearned compiled learned).rules = openRules := by
        rw [rules_withLearned, rules_compile hcompile, rules_edgeSpec]
        rfl
      rw [hposts, faithful_open_iff heard hrules]
      unfold Heard
      have hname := compile_of_name hcompile
      simp only [heard, hflux, hid, hname, false_or, Bool.true_eq_false]

/-! ## A listing that fails -/

def edgeAnswer (policies : List MachineNetworkPolicy) (failure : Option ApiError) :
    (e : EdgeOp) → e.Ans
  | .listMachineNetworkPoliciesNamespace _ => failure.elim (.ok policies) .error
  | .learnedIP _ => .ok ("", "")
  | .applyEdge _ _ => .ok ()
  | .observeEdgeDrops _ _ => ()

theorem lists_edgeAnswer (policies : List MachineNetworkPolicy) (failure : Option ApiError)
    (e : EdgeOp) : Lists policies failure ⟨e, edgeAnswer policies failure e⟩ := by
  cases e with
  | listMachineNetworkPoliciesNamespace => rfl
  | _ => trivial

def edgeCalls (net : Netip) (a : EdgeAgent) (m : EdgeMachine)
    (policies : List MachineNetworkPolicy) (failure : Option ApiError) : EdgeHistory :=
  (Prog.answered (edgeAnswer policies failure) [] (applyEdge net a m "r-1" "10.0.0.8" "")).2

def plainAgent : EdgeAgent := ⟨true, true, [], fun _ => none⟩

def guardedMachine : EdgeMachine :=
  { plainMachine "vm" "node-a" twoCores with network := ⟨"tap", "", false, "", true, false, none⟩ }

def closedPolicy : MachineNetworkPolicy where
  metadata := plainMeta "closed" []
  spec := ⟨"vm", [], { defaultAllow := false }, []⟩
  status := ⟨"", "", 0, none, false, []⟩

/-- The listing fails, and the Machine of a policy that allows nothing gets a document that allows
everything. -/
theorem open_document_posted : ∃ a m policies failure, edgeRequested m = true ∧
      (∃ p ∈ policies, selects m p = true) ∧
      (∀ e, Lists policies failure ⟨e, edgeAnswer policies failure e⟩) ∧
      (∃ d ∈ posts (edgeCalls hostNet a m policies failure), d.rules = openRules) ∧
      ¬Faithful a m policies failure (posts (edgeCalls hostNet a m policies failure)) := by
  have hposts : posts (edgeCalls hostNet plainAgent guardedMachine [closedPolicy]
      (some ⟨false, "timeout"⟩)) = [_] := rfl
  refine ⟨plainAgent, guardedMachine, [closedPolicy], some ⟨false, "timeout"⟩, rfl,
    ⟨closedPolicy, mem_singleton.mpr rfl, by decide⟩, lists_edgeAnswer _ _,
    ⟨_, hposts ▸ mem_singleton.mpr rfl, rfl⟩, fun hfaithful => ?_⟩
  have hclosed := (hfaithful _ (hposts ▸ mem_singleton.mpr rfl)).2 rfl nofun
  cases hclosed

theorem posted_rules_listed : Faithful plainAgent guardedMachine [closedPolicy] none
      (posts (edgeCalls hostNet plainAgent guardedMachine [closedPolicy] none)) := by
  have hends := posted_rules_iff hostNet plainAgent guardedMachine rfl "r-1" "10.0.0.8" ""
    [closedPolicy] none
  exact (hends.answered _ (lists_edgeAnswer _ _)).mpr (.inl ⟨rfl, rfl⟩)

end Kairon.Edge
