import Kairon.Edge.Document
import Kairon.Infra.Trace
import Kairon.Network.Reconcile

/-!
# How the agent posts the document of a Machine

`applyEdge` of `internal/agent/edge.go`: a Machine that asked for the edge, or that a policy which
needs the edge selects, gets a document with the rules of the policy that selects it.
-/

namespace Kairon.Edge

open Infra GoText Model Cluster Network

structure NetworkQoS where
  ingressMbps : Option UInt32
  egressMbps : Option UInt32
  ingressPps : Option UInt32
  egressPps : Option UInt32

structure EdgeNetwork where
  mode : String
  mac : String
  dataplaneRequired : Bool
  dataplaneMode : String
  antiSpoof : Bool
  learnIP : Bool
  qos : Option NetworkQoS

structure EdgeMachine extends Machine where
  network : EdgeNetwork

structure RestoreResult where
  restored : Int
  blackholeWindowMs : Int

/-- What `applyEdge` reads of the agent: whether it has the two clients, the policies of the last
network pass, and the connections restored for Machines that moved here. -/
structure EdgeAgent where
  kube : Bool
  flux : Bool
  policies : List MachineNetworkPolicy
  restores : ObjectKey → Option RestoreResult

inductive EdgeOp where
  | listMachineNetworkPoliciesNamespace («namespace» : String)
  | learnedIP (id : String)
  | applyEdge (id : String) (spec : EdgeSpec)
  | observeEdgeDrops (key : ObjectKey) (id : String)

def EdgeOp.Ans : EdgeOp → Type
  | listMachineNetworkPoliciesNamespace _ => Except ApiError (List MachineNetworkPolicy)
  | learnedIP _ => Except String (String × String)
  | applyEdge _ _ => GoErr
  | observeEdgeDrops _ _ => Unit

abbrev EdgeM := Prog EdgeOp.Ans

def call (e : EdgeOp) : EdgeM e.Ans := Prog.perform EdgeOp.Ans e

/-! ## The policy -/

def edgeRequested (m : EdgeMachine) : Bool :=
  m.network.antiSpoof || m.network.learnIP || m.network.qos ≠ none ||
    equalFold m.network.dataplaneMode "ebpf"

def policyNeedsEdge (p : MachineNetworkPolicy) : Bool :=
  p.spec.policy.allowSNI ≠ [] || p.spec.policy.allowDNS ≠ [] ||
    p.spec.policy.maxIngressMbps ≠ none || p.spec.policy.maxIngressPps ≠ none

def selects (m : EdgeMachine) (p : MachineNetworkPolicy) : Bool :=
  !p.metadata.deleting && policySelectsMachine p m.toMachine

def EdgeAgent.selecting (a : EdgeAgent) (m : EdgeMachine) : Option MachineNetworkPolicy :=
  a.policies.find? fun p => p.key.namespace = m.key.namespace && selects m p

def selectingPolicy (a : EdgeAgent) (m : EdgeMachine) : EdgeM (Option MachineNetworkPolicy) :=
  if a.kube then
    (call (.listMachineNetworkPoliciesNamespace m.key.namespace)).bind fun
      | .error _ => .ret none
      | .ok policies => .ret (policies.find? (selects m))
  else .ret none

def edgePolicy (a : EdgeAgent) (m : EdgeMachine) : EdgeM (Option (Option MachineNetworkPolicy)) :=
  if edgeRequested m then (selectingPolicy a m).bind fun p => .ret (some p)
  else if m.network.mode = "tap" then
    match a.selecting m with
    | none => .ret none
    | some p => if policyNeedsEdge p then .ret (some (some p)) else .ret none
  else .ret none

/-! ## The document -/

def orLimit (limit : UInt32) (other : Option UInt32) : UInt32 :=
  if limit = 0 then other.getD 0 else limit

def buildEdgeSpec (m : EdgeMachine) (guestIP nicMAC : String) : EdgeSpec where
  «namespace» := m.key.namespace
  machine := m.metadata.name
  antiSpoof := m.network.antiSpoof
  learnIP := m.network.learnIP
  assignedMAC := if m.network.mac = "" then nicMAC else m.network.mac
  assignedIP := guestIP
  defaultAllow := true
  qos := match m.network.qos with
    | none => {}
    | some q => ⟨q.ingressMbps.getD 0, q.egressMbps.getD 0, q.ingressPps.getD 0, q.egressPps.getD 0⟩

def mergeSelectingPolicy (spec : EdgeSpec) (p : MachineNetworkPolicy) : EdgeSpec :=
  { spec with
    policyName := p.metadata.name
    defaultAllow := p.spec.policy.defaultAllow
    allowCIDRs := p.spec.policy.allowCidrs
    denyCIDRs := p.spec.policy.denyCidrs
    allowPorts := p.spec.policy.allowPorts
    allowSNI := p.spec.policy.allowSNI
    allowDNS := if p.spec.policy.allowDNS = [] then p.spec.policy.allowFqdns
      else p.spec.policy.allowDNS
    allowICMP := p.spec.policy.allowIcmp
    qos :=
      { ingressMbps := orLimit spec.qos.ingressMbps p.spec.policy.maxIngressMbps
        egressMbps := orLimit spec.qos.egressMbps p.spec.policy.maxEgressMbps
        ingressPps := orLimit spec.qos.ingressPps p.spec.policy.maxIngressPps
        egressPps := orLimit spec.qos.egressPps p.spec.policy.maxEgressPps } }

def edgeSpec (m : EdgeMachine) (guestIP nicMAC : String) : Option MachineNetworkPolicy → EdgeSpec
  | none => buildEdgeSpec m guestIP nicMAC
  | some p => mergeSelectingPolicy (buildEdgeSpec m guestIP nicMAC) p

/-! ## Posting -/

def learn (m : EdgeMachine) (runtimeID guestIP : String) : EdgeM (Option (String × String)) :=
  if m.network.learnIP ∧ guestIP = "" then
    (call (.learnedIP runtimeID)).bind fun
      | .error _ => .ret none
      | .ok (ip, source) => .ret (if ip = "" then none else some (ip, if source = "" then "arp"
        else source))
  else .ret none

def withLearned (compiled : EdgeSpec) : Option (String × String) → EdgeSpec
  | none => compiled
  | some (ip, _) => { compiled with assignedIP := ip }

def edgeStatus (a : EdgeAgent) (m : EdgeMachine) (compiled : EdgeSpec) (guestIP : String)
    (learned : Option (String × String)) : MachineEdgeStatus where
  identity := compiled.identity
  antiSpoof := compiled.antiSpoof
  policyName := compiled.policyName
  guestIPSource := match learned with
    | some (_, source) => source
    | none => if guestIP = "" then "" else "agent"
  conntrackRestored := ((a.restores m.key).map (·.restored)).getD 0
  blackholeWindowMs := ((a.restores m.key).map (·.blackholeWindowMs)).getD 0

def postEdge (a : EdgeAgent) (m : EdgeMachine) (runtimeID guestIP : String)
    (compiled : EdgeSpec) : EdgeM (Except String (Option MachineEdgeStatus)) :=
  (learn m runtimeID guestIP).bind fun learned =>
  (call (.applyEdge runtimeID (withLearned compiled learned))).bind fun
    | .error e =>
      if m.network.dataplaneRequired then
        .ret (.error ("dataplane required but edge apply failed: " ++ e))
      else .ret (.ok (some (edgeStatus a m compiled guestIP learned)))
    | .ok () =>
      (call (.observeEdgeDrops m.key runtimeID)).bind fun _ =>
      .ret (.ok (some (edgeStatus a m compiled guestIP learned)))

def applyEdge (net : Netip) (a : EdgeAgent) (m : EdgeMachine)
    (runtimeID guestIP nicMAC : String) : EdgeM (Except String (Option MachineEdgeStatus)) :=
  if a.flux = false ∨ runtimeID = "" then .ret (.ok none)
  else
    (edgePolicy a m).bind fun
      | none => .ret (.ok none)
      | some policy =>
        match compile net (edgeSpec m guestIP nicMAC policy) with
        | .error e => .ret (.error ("compile edge: " ++ e))
        | .ok compiled => postEdge a m runtimeID guestIP compiled

/-! ## What is posted -/

abbrev EdgeHistory := List (Event EdgeOp.Ans)

def posts (h : EdgeHistory) : List EdgeSpec :=
  h.filterMap fun ev =>
    match ev.op with
    | .applyEdge _ spec => some spec
    | _ => none

/-- The policies of the namespace are `policies`, and the listing of them fails if there is a
`failure`. -/
def Lists (policies : List MachineNetworkPolicy) (failure : Option ApiError) :
    Event EdgeOp.Ans → Prop
  | ⟨.listMachineNetworkPoliciesNamespace _, r⟩ => r = failure.elim (.ok policies) .error
  | _ => True

def found (a : EdgeAgent) (m : EdgeMachine) (policies : List MachineNetworkPolicy)
    (failure : Option ApiError) : Option MachineNetworkPolicy :=
  if a.kube = true ∧ failure = none then policies.find? (selects m) else none

variable {net : Netip} {a : EdgeAgent} {m : EdgeMachine} {policies : List MachineNetworkPolicy}
  {failure : Option ApiError} {h : EdgeHistory} {runtimeID guestIP : String}

theorem selectingPolicy_ends : (selectingPolicy a m).Ends (Lists policies failure)
      (fun h' p => posts h' = posts h ∧ p = found a m policies failure) h := by
  unfold selectingPolicy found
  by_cases hk : a.kube = true
  · rw [if_pos hk]
    intro r hr
    cases failure with
    | none =>
      cases (show r = .ok policies from hr)
      exact ⟨rfl, (if_pos ⟨hk, rfl⟩).symm⟩
    | some e =>
      cases (show r = .error e from hr)
      exact ⟨rfl, (if_neg nofun).symm⟩
  · rw [if_neg hk]
    exact ⟨rfl, (if_neg fun hc => hk hc.1).symm⟩

theorem edgePolicy_ends (hreq : edgeRequested m = true) :
    (edgePolicy a m).Ends (Lists policies failure)
      (fun h' p => posts h' = posts h ∧ p = some (found a m policies failure)) h := by
  unfold edgePolicy
  rw [if_pos hreq]
  exact selectingPolicy_ends.bind fun h' p ⟨hposts, hp⟩ => ⟨hposts, by rw [hp]⟩

theorem learn_ends : (learn m runtimeID guestIP).Ends (Lists policies failure)
      (fun h' _ => posts h' = posts h) h := by
  unfold learn
  split
  · intro r _
    match r with
    | .error e => exact rfl
    | .ok (ip, source) => exact rfl
  · exact rfl

theorem postEdge_ends (compiled : EdgeSpec) :
    (postEdge a m runtimeID guestIP compiled).Ends (Lists policies failure)
      (fun h' _ => ∃ learned, posts h' = withLearned compiled learned :: posts h) h := by
  refine learn_ends.bind fun h₁ learned hposts => ?_
  intro r _
  have hpost : ∀ r, posts (⟨.applyEdge runtimeID (withLearned compiled learned), r⟩ :: h₁) =
      withLearned compiled learned :: posts h := by
    intro r
    rw [← hposts]
    rfl
  match r with
  | .error e =>
    split
    · exact ⟨learned, hpost _⟩
    · exact ⟨learned, hpost _⟩
  | .ok () => exact fun _ _ => ⟨learned, hpost (.ok ())⟩

/-- A Machine that asked for the edge gets the document of the policy that was found for it, if
there is anyone to post it to and it compiles. -/
theorem applyEdge_ends (hreq : edgeRequested m = true) (nicMAC : String) :
    (applyEdge net a m runtimeID guestIP nicMAC).Ends (Lists policies failure)
      (fun h' _ =>
        (posts h' = [] ∧ (a.flux = false ∨ runtimeID = "" ∨
          ∃ e, compile net (edgeSpec m guestIP nicMAC (found a m policies failure)) = .error e)) ∨
        ∃ compiled learned, a.flux = true ∧ runtimeID ≠ "" ∧
          compile net (edgeSpec m guestIP nicMAC (found a m policies failure)) = .ok compiled ∧
          posts h' = [withLearned compiled learned]) [] := by
  unfold applyEdge
  split
  · next hnone => exact .inl ⟨rfl, hnone.imp_right .inl⟩
  · next hsome =>
    obtain ⟨hflux, hid⟩ := not_or.mp hsome
    refine (edgePolicy_ends hreq).bind fun h₁ p ⟨hposts, hp⟩ => ?_
    subst hp
    dsimp only
    split
    · next e hcompile => exact .inl ⟨hposts, .inr (.inr ⟨e, hcompile⟩)⟩
    · next compiled hcompile =>
      refine (postEdge_ends compiled).mono fun h₂ _ ⟨learned, hpost⟩ => ?_
      exact .inr ⟨compiled, learned, by simpa using hflux, hid, hcompile,
        by rw [hpost, hposts]; rfl⟩

end Kairon.Edge
