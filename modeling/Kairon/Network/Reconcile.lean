import Kairon.Cluster.Op
import Kairon.Model.Network

/-!
# The network pass of the agent

`reconcileNetworkResources` of `internal/agent/network.go`: every agent carries out all security
groups on its own node and the network policies on the Machines of its own node, and takes part in
the deletion of both.
-/

namespace Kairon.Network

open Infra Model Cluster

/-! ## The calls -/

structure SecurityGroup where
  name : String
  labels : List String
  policy : VmNetworkPolicy
  priority : UInt32
  description : String

/-- The calls of the pass, to the API server and to FluxVM on the agent's node. The `owner` of what
is written to FluxVM is the object it is written for, none for a reset and for the synthetic
policies; FluxVM does not see it. -/
inductive NetworkOp where
  | listNetworkSecurityGroups
  | patchNetworkSecurityGroup (key : ObjectKey) (finalizers : List String)
  | patchNetworkSecurityGroupStatus (key : ObjectKey) (status : NetworkSecurityGroupStatus)
  | listMachineNetworkPolicies
  | patchMachineNetworkPolicy (key : ObjectKey) (finalizers : List String)
  | patchMachineNetworkPolicyStatus (key : ObjectKey) (status : MachineNetworkPolicyStatus)
  | listMachines
  | upsertNetworkGroup (owner : ObjectKey) (group : SecurityGroup)
  | deleteNetworkGroup (name : String)
  | setVMNetworkPolicy (owner : Option ObjectKey) (id : String) (policy : VmNetworkPolicy)
  | getVMNetworkPolicy (id : String)
  | applyCNP (doc : StringMap)
  | now

/-- Of an upserted group only the identity is read. -/
def NetworkOp.Ans : NetworkOp → Type
  | listNetworkSecurityGroups => Except ApiError (List NetworkSecurityGroup)
  | listMachineNetworkPolicies => Except ApiError (List MachineNetworkPolicy)
  | listMachines => Except ApiError (List Machine)
  | patchNetworkSecurityGroup _ _ | patchNetworkSecurityGroupStatus _ _
  | patchMachineNetworkPolicy _ _ | patchMachineNetworkPolicyStatus _ _ => Except ApiError Unit
  | upsertNetworkGroup _ _ => Except String UInt32
  | deleteNetworkGroup _ | setVMNetworkPolicy _ _ _ | applyCNP _ => GoErr
  | getVMNetworkPolicy _ => Except String VmNetworkPolicy
  | now => Time

abbrev NetM := Prog NetworkOp.Ans

def call (e : NetworkOp) : NetM e.Ans := Prog.perform NetworkOp.Ans e

structure Config where
  nodeName : String
  networkDefaultDeny : Bool

/-! ## Security groups -/

variable (a : Config) (groups : List NetworkSecurityGroup) (g : NetworkSecurityGroup)
  (p : MachineNetworkPolicy) (policies : List MachineNetworkPolicy) (machines : List Machine)

def deleteSecurityGroup : NetM GoErr :=
  if g.metadata.finalizers.contains finalizerNetworkGroup then
    (wrap "delete FluxVM network group" (call (.deleteNetworkGroup g.fluxGroupName))).andThen
      fun _ =>
    orText (call (.patchNetworkSecurityGroup g.key
      (removeFinalizer g.metadata.finalizers finalizerNetworkGroup)))
  else .ret (.ok ())

def holdSecurityGroup : NetM GoErr :=
  if g.metadata.finalizers.contains finalizerNetworkGroup then .ret (.ok ())
  else orText (call (.patchNetworkSecurityGroup g.key
    (g.metadata.finalizers ++ [finalizerNetworkGroup])))

def reconcileSecurityGroup : NetM GoErr :=
  if g.metadata.deleting then deleteSecurityGroup g
  else
    (holdSecurityGroup g).andThen fun _ =>
    (call (.upsertNetworkGroup g.key
      { name := g.fluxGroupName
        labels := g.spec.labels
        policy := g.spec.policy
        priority := g.spec.priority
        description := g.spec.description })).andThen fun identity =>
    orText (call (.patchNetworkSecurityGroupStatus g.key
      { g.status with
        phase := "Applied", message := "", appliedOn := a.nodeName, identity := identity }))

def groupTick : NetM Unit :=
  (reconcileSecurityGroup a g).bind fun
    | .ok () => .ret ()
    | .error e =>
      (call (.patchNetworkSecurityGroupStatus g.key
        { g.status with phase := "Error", message := e })).bind fun _ => .ret ()

/-! ## Network policies -/

def policySelectsMachine (m : Machine) : Bool :=
  if p.spec.machineName ≠ "" then p.spec.machineName = m.metadata.name
  else labelsMatch m.metadata.labels p.spec.selector

def anyCurrentPolicySelects (m : Machine) : Bool :=
  policies.any fun p =>
    p.key.namespace = m.key.namespace && !p.metadata.deleting && policySelectsMachine p m

def anotherPolicyStillSelects (exclude : MachineNetworkPolicy) (m : Machine) : Bool :=
  policies.any fun p =>
    p.key ≠ exclude.key && p.key.namespace = m.key.namespace && !p.metadata.deleting &&
      policySelectsMachine p m

def findMachineByName («namespace» name : String) : Option Machine :=
  machines.find? fun m => m.key.namespace = «namespace» ∧ m.metadata.name = name

def reaches (node : String) (p : MachineNetworkPolicy) (m : Machine) : Bool :=
  m.spec.nodeName = node && m.key.namespace = p.key.namespace && policySelectsMachine p m &&
    m.status.runtimeID ≠ ""

def resetVM (what : String) (m : Machine) : NetM GoErr :=
  wrap (what ++ " on " ++ m.key.namespace ++ "/" ++ m.metadata.name)
    (call (.setVMNetworkPolicy none m.status.runtimeID { defaultAllow := true }))

def deleteMachineNetworkPolicy : NetM GoErr :=
  if p.metadata.finalizers.contains finalizerNetworkPolicy then
    (Prog.tryEach (resetVM "reset network policy")
      (machines.filter (reaches a.nodeName p))).andThen fun _ =>
    orText (call (.patchMachineNetworkPolicy p.key
      (removeFinalizer p.metadata.finalizers finalizerNetworkPolicy)))
  else .ret (.ok ())

def holdMachineNetworkPolicy : NetM GoErr :=
  if p.metadata.finalizers.contains finalizerNetworkPolicy then .ret (.ok ())
  else orText (call (.patchMachineNetworkPolicy p.key
    (p.metadata.finalizers ++ [finalizerNetworkPolicy])))

def postCNP : NetM GoErr :=
  if p.spec.cnp = [] then .ret (.ok ()) else wrap "apply CNP" (call (.applyCNP p.spec.cnp))

def applyPolicy (p : MachineNetworkPolicy) (deniesFor : Machine → List String) :
    List String → Bool → List Machine → NetM (Except String (List String × Bool))
  | names, confirmed, [] => .ret (.ok (names, confirmed))
  | names, confirmed, m :: ms =>
    let posted := mergeDenies p.spec.policy (deniesFor m)
    (wrap ("set policy on " ++ m.key.namespace ++ "/" ++ m.metadata.name)
      (call (.setVMNetworkPolicy (some p.key) m.status.runtimeID posted))).andThen fun _ =>
    (call (.getVMNetworkPolicy m.status.runtimeID)).bind fun (got : Except String _) =>
      let same := match got with
        | .ok policy => decide (policy = posted)
        | .error _ => false
      applyPolicy p deniesFor (names ++ [m.metadata.name]) (confirmed && same) ms

def pruneMachine (applied : List String) (name : String) : NetM GoErr :=
  if applied.contains name then .ret (.ok ())
  else
    match findMachineByName machines p.key.namespace name with
    | none => .ret (.ok ())
    | some target =>
      if target.spec.nodeName ≠ a.nodeName ∨ target.status.runtimeID = "" then .ret (.ok ())
      else if anotherPolicyStillSelects policies p target then .ret (.ok ())
      else resetVM "reset stale network policy" target

def reconcileMachineNetworkPolicy (deniesFor : Machine → List String) (p : MachineNetworkPolicy)
    (policies : List MachineNetworkPolicy) (machines : List Machine) : NetM GoErr :=
  if p.metadata.deleting then deleteMachineNetworkPolicy a p machines
  else
    (holdMachineNetworkPolicy p).andThen fun _ =>
    (postCNP p).andThen fun _ =>
    (applyPolicy p deniesFor [] true (machines.filter fun m =>
      reaches a.nodeName p m && m.status.phase == "Running")).andThen fun (applied, confirmed) =>
    (Prog.tryEach (pruneMachine a p policies machines applied)
      p.status.appliedMachines).andThen fun _ =>
    (call .now).bind fun now =>
    orText (call (.patchMachineNetworkPolicyStatus p.key
      { phase := "Applied"
        message := ""
        observedMachines := applied.length
        lastAppliedTime := some now
        effectiveSynced := applied ≠ [] && confirmed
        appliedMachines := applied }))

def policyTick (deniesFor : Machine → List String) (policies : List MachineNetworkPolicy)
    (machines : List Machine) (p : MachineNetworkPolicy) : NetM Unit :=
  (reconcileMachineNetworkPolicy a deniesFor p policies machines).bind fun
    | .ok () => .ret ()
    | .error e =>
      (call (.patchMachineNetworkPolicyStatus p.key
        { p.status with phase := "Error", message := e })).bind fun _ => .ret ()

/-! ## Machines without a policy -/

def unmatched (m : Machine) : Bool :=
  m.spec.nodeName = a.nodeName && m.status.phase == "Running" && m.status.runtimeID ≠ "" &&
    !anyCurrentPolicySelects policies m

def enforceNetworkDefaultDeny : NetM Unit :=
  Prog.forEach (fun m => (call (.setVMNetworkPolicy none m.status.runtimeID
    { defaultAllow := false })).bind fun _ => .ret ()) (machines.filter (unmatched a policies))

def enforceTenantFence (deniesFor : Machine → List String) (policies : List MachineNetworkPolicy)
    (machines : List Machine) : NetM Unit :=
  let fenced := machines.filter fun m =>
    unmatched a policies m && m.spec.tenant ≠ "" && wantsFence m.metadata.annotations &&
      deniesFor m ≠ []
  Prog.forEach (fun m => (call (.setVMNetworkPolicy none m.status.runtimeID
    (mergeDenies { defaultAllow := !a.networkDefaultDeny } (deniesFor m)))).bind
      fun _ => .ret ()) fenced

/-! ## The pass -/

def deniesFor (groups : List NetworkSecurityGroup) (m : Machine) : List String :=
  if m.spec.tenant = "" then [] else denyIndex groups m.key.namespace m.spec.tenant

def reconcilePolicies (a : Config) (groups : List NetworkSecurityGroup)
    (policies : List MachineNetworkPolicy) : NetM GoErr :=
  (orText (call .listMachines)).andThen fun machines =>
  (Prog.forEach (policyTick a (deniesFor groups) policies machines) policies).bind fun _ =>
  (if a.networkDefaultDeny then enforceNetworkDefaultDeny a policies machines
    else .ret ()).bind fun _ =>
  (enforceTenantFence a (deniesFor groups) policies machines).bind fun _ => .ret (.ok ())

def reconcileNetworkResources (a : Config) : NetM GoErr :=
  (call .listNetworkSecurityGroups).bind fun
    | .error e => .ret (if e.notFound then .ok () else .error e.text)
    | .ok groups =>
      (Prog.forEach (groupTick a) groups).bind fun _ =>
      (call .listMachineNetworkPolicies).bind fun
        | .error e => .ret (if e.notFound then .ok () else .error e.text)
        | .ok policies => reconcilePolicies a groups policies

end Kairon.Network
