import Mathlib.Data.List.Dedup
import Mathlib.Data.List.Sort
import Kairon.Model.Machine

/-!
# Network policies and security groups

`MachineNetworkPolicy` and `NetworkSecurityGroup` of `internal/model/network.go`, and the groups of
`internal/tenantfence/fence.go`.
-/

namespace Kairon.Model

open Infra GoJson GoText

def finalizerNetworkPolicy : String := "kairon.zyvor.dev/network-policy"

def finalizerNetworkGroup : String := "kairon.zyvor.dev/network-group"

structure VmNetworkPolicy where
  defaultAllow : Bool
  allowCidrs : List String := []
  denyCidrs : List String := []
  allowPorts : List String := []
  maxEgressMbps : Option UInt32 := none
  maxEgressPps : Option UInt32 := none
  allowFqdns : List String := []
  groups : List String := []
  labels : List String := []
  entities : List String := []
  auditMode : Bool := false
  allowIcmp : Bool := false
  sampleRate : UInt32 := 0
  allowSNI : List String := []
  allowDNS : List String := []
  maxIngressMbps : Option UInt32 := none
  maxIngressPps : Option UInt32 := none
  deriving DecidableEq

/-! ## Policies -/

/-- `MachineNetworkPolicySpec`; `cnp` has the members of the document with their encodings. -/
structure MachineNetworkPolicySpec where
  machineName : String
  selector : StringMap
  policy : VmNetworkPolicy
  cnp : StringMap
  deriving DecidableEq

structure MachineNetworkPolicyStatus where
  phase : String
  message : String
  observedMachines : Int
  lastAppliedTime : Option Time
  effectiveSynced : Bool
  appliedMachines : List String
  deriving DecidableEq

structure MachineNetworkPolicy where
  metadata : ObjectMeta
  spec : MachineNetworkPolicySpec
  status : MachineNetworkPolicyStatus
  deriving DecidableEq

structure NetworkSecurityGroupSpec where
  groupName : String
  labels : List String
  priority : UInt32
  description : String
  policy : VmNetworkPolicy
  deriving DecidableEq

structure NetworkSecurityGroupStatus where
  phase : String
  message : String
  identity : UInt32
  appliedOn : String
  deriving DecidableEq

structure NetworkSecurityGroup where
  metadata : ObjectMeta
  spec : NetworkSecurityGroupSpec
  status : NetworkSecurityGroupStatus
  deriving DecidableEq

variable (p : MachineNetworkPolicy) (g : NetworkSecurityGroup)

variable (s : MachineNetworkPolicyStatus) (finalizers : List String)

namespace MachineNetworkPolicy

def key : ObjectKey := p.metadata.key

def leaving : Bool := p.metadata.deleting && p.metadata.finalizers.contains finalizerNetworkPolicy

def patchFinalizers : MachineNetworkPolicy :=
  { p with metadata := { p.metadata with finalizers := finalizers } }

def patchStatus : MachineNetworkPolicy :=
  { p with
    status :=
      { phase := patchOmit p.status.phase s.phase
        message := s.message
        observedMachines := patchOmit p.status.observedMachines s.observedMachines
        lastAppliedTime := patchPtr p.status.lastAppliedTime s.lastAppliedTime
        effectiveSynced := patchOmit p.status.effectiveSynced s.effectiveSynced
        appliedMachines := patchOmit p.status.appliedMachines s.appliedMachines } }

@[simp] theorem key_patchFinalizers (fs : List String) : (p.patchFinalizers fs).key = p.key := rfl

@[simp] theorem key_patchStatus : (p.patchStatus s).key = p.key := rfl

end MachineNetworkPolicy

def labelsMatch (labels selector : StringMap) : Bool :=
  selector ≠ [] && selector.all fun e => labels ≠ [] && labels.get e.1 == e.2

/-! ## Groups -/

namespace NetworkSecurityGroup

def key : ObjectKey := g.metadata.key

def fluxGroupName : String := if g.spec.groupName ≠ "" then g.spec.groupName else g.metadata.name

def leaving : Bool := g.metadata.deleting && g.metadata.finalizers.contains finalizerNetworkGroup

def patchFinalizers : NetworkSecurityGroup :=
  { g with metadata := { g.metadata with finalizers := finalizers } }

def patchStatus (s : NetworkSecurityGroupStatus) : NetworkSecurityGroup :=
  { g with
    status :=
      { phase := patchOmit g.status.phase s.phase
        message := s.message
        identity := patchOmit g.status.identity s.identity
        appliedOn := patchOmit g.status.appliedOn s.appliedOn } }

@[simp] theorem key_patchFinalizers (fs : List String) : (g.patchFinalizers fs).key = g.key := rfl

@[simp] theorem key_patchStatus (s : NetworkSecurityGroupStatus) : (g.patchStatus s).key = g.key :=
  rfl

end NetworkSecurityGroup

/-!
## The tenant fence

Which addresses the fence of a tenant denies is a parameter.
-/

def labelTenant : String := "kairon.zyvor.dev/tenant"

def annFence : String := "kairon.zyvor.dev/tenant-fence"

def managedValue : String := "managed"

def wantsFence (annotations : StringMap) : Bool :=
  equalFold (trimSpace (annotations.get annFence)) "true"

def denyIndex (groups : List NetworkSecurityGroup) («namespace» tenant : String) : List String :=
  let fence := groups.reverse.find? fun g =>
    g.metadata.labels.get annFence = managedValue ∧ g.metadata.labels.get labelTenant ≠ "" ∧
      g.key.namespace = «namespace» ∧ g.metadata.labels.get labelTenant = tenant
  (fence.map fun g => g.spec.policy.denyCidrs).getD []

def mergeDenies (p : VmNetworkPolicy) (deny : List String) : VmNetworkPolicy :=
  if deny = [] then p
  else
    let cidrs := ((p.denyCidrs ++ deny).map trimSpace).filter (· ≠ "")
    { p with denyCidrs := cidrs.dedup.insertionSort (· ≤ ·) }

structure View where
  «namespace» : String
  tenant : String
  guestIP : String
  guestIPs : List String
  annotations : StringMap
  deleting : Bool

structure DesiredGroup where
  «namespace» : String
  name : String
  tenant : String
  description : String
  denyCIDRs : List String

def validTenant (tenant : String) : Bool :=
  let plain := fun c : Char => c.isLower || c.isDigit
  let letters := tenant.toList
  letters.length ≤ 63 && letters.all (fun c => plain c || c = '-') && letters.head?.any plain &&
    letters.getLast?.any plain

namespace View

def present (v : View) : Bool := !v.deleting && trimSpace v.namespace ≠ ""

def opted (v : View) : Bool := v.present && wantsFence v.annotations && validTenant v.tenant

end View

variable (denyCIDRs : String → List View → List String)

def fenceOf (views : List View) («namespace» tenant : String) : DesiredGroup where
  «namespace» := «namespace»
  name := "tenant-fence-" ++ tenant
  tenant := tenant
  description := "kairon tenant fence for " ++ «namespace» ++ "/" ++ tenant ++
    ": deny guest addresses observed on other tenants in this namespace"
  denyCIDRs := denyCIDRs tenant (views.filter fun v => v.present && v.namespace = «namespace»)

def desired (views : List View) : List DesiredGroup :=
  let keys := ((views.filter View.opted).map fun v => (v.namespace, v.tenant)).dedup.mergeSort
    fun k l => if k.1 ≠ l.1 then k.1 < l.1 else k.2 ≤ l.2
  keys.map fun k => fenceOf denyCIDRs views k.1 k.2

def DesiredGroup.object (d : DesiredGroup) : NetworkSecurityGroup where
  metadata := ⟨d.name, d.namespace, "", 0, [(annFence, managedValue), (labelTenant, d.tenant)],
    [], [], false⟩
  spec :=
    { groupName := d.name
      labels := ["tenant=" ++ d.tenant, "managed=kairon-tenant-fence"]
      priority := 1000
      description := d.description
      policy := { defaultAllow := true, denyCidrs := d.denyCIDRs } }
  status := ⟨"", "", 0, ""⟩

theorem mem_desired_iff {views : List View} {d : DesiredGroup} : d ∈ desired denyCIDRs views ↔
    ∃ v ∈ views, v.opted = true ∧ fenceOf denyCIDRs views v.namespace v.tenant = d := by
  simp [desired, and_assoc]

/-! ## Validation -/

def checkEach {α : Type} (check : α → GoErr) : List α → GoErr
  | [] => .ok ()
  | x :: xs =>
    match check x with
    | .error e => .error e
    | .ok () => checkEach check xs

def vmNetworkPolicyL4Protocols : List String := ["tcp", "udp", "sctp", "icmp", "icmp6", "icmpv6"]

def validateNetworkPolicyPortRule (raw : String) : GoErr :=
  match cut raw '/' with
  | none => .error ("port rule " ++ quote raw ++ " must be proto/PORT")
  | some (proto, portStr) =>
    let proto := toLower (trimSpace proto)
    if proto ∉ vmNetworkPolicyL4Protocols then
      .error ("port rule " ++ quote raw ++ ": unsupported protocol " ++ quote proto ++
        "; use tcp, udp, sctp, icmp, or icmp6")
    else
      match parseUint 65535 (trimSpace portStr) with
      | .error e => .error ("port rule " ++ quote raw ++ ": invalid port: " ++ e)
      | .ok port =>
        if port = 0 ∧ proto ≠ "icmp" ∧ proto ≠ "icmp6" ∧ proto ≠ "icmpv6" then
          .error ("port rule " ++ quote raw ++ ": port must be 1-65535")
        else .ok ()

def validateListedName (field raw : String) : GoErr :=
  let invalid : GoErr := .error (field ++ ": invalid name " ++ quote raw)
  let name := (toLower (trimSpace raw)).toList
  let body := if ['*', '.'] <+: name then name.drop 2 else name
  if name = [] ∨ name.any (fun c => [' ', '/', ':', '\\'].contains c) then invalid
  else if body = [] ∨ body.head? = some '.' ∨ body.getLast? = some '.' then invalid
  else if (body.splitOn '.').any fun label => label.isEmpty || label.contains '*' then invalid
  else .ok ()

def validateLimit (field : String) (limit : Option UInt32) : GoErr :=
  if limit = some 0 then .error (field ++ " must be greater than zero when set") else .ok ()

section

-- `netip.ParsePrefix`
variable (parsePrefix : String → GoErr)

def validateNetworkPolicyCIDR (field raw : String) : GoErr :=
  match parsePrefix raw with
  | .error e =>
    .error (field ++ ": invalid CIDR " ++ quote raw ++ " (must include /prefix): " ++ e)
  | .ok () => .ok ()

def validateVmNetworkPolicy (p : VmNetworkPolicy) : GoErr := do
  checkEach (validateNetworkPolicyCIDR parsePrefix "allowCidrs") p.allowCidrs
  checkEach (validateNetworkPolicyCIDR parsePrefix "denyCidrs") p.denyCidrs
  checkEach (fun rule => (validateNetworkPolicyPortRule rule).mapError ("allowPorts: " ++ ·))
    p.allowPorts
  validateLimit "maxEgressMbps" p.maxEgressMbps
  validateLimit "maxEgressPps" p.maxEgressPps
  validateLimit "maxIngressMbps" p.maxIngressMbps
  validateLimit "maxIngressPps" p.maxIngressPps
  checkEach (validateListedName "allowSNI") p.allowSNI
  checkEach (validateListedName "allowDNS") p.allowDNS

end

theorem checkEach_eq_ok_iff {α : Type} {check : α → GoErr} {xs : List α} :
    checkEach check xs = .ok () ↔ ∀ x ∈ xs, check x = .ok () := by
  induction xs with
  | nil => simp [checkEach]
  | cons x xs ih =>
    unfold checkEach
    cases hx : check x with
    | error e => simp [hx]
    | ok u => simpa [hx] using ih

theorem portRule_of_validateVmNetworkPolicy {parsePrefix : String → GoErr}
    {p : VmNetworkPolicy} (h : validateVmNetworkPolicy parsePrefix p = .ok ()) {rule : String}
    (hrule : rule ∈ p.allowPorts) : validateNetworkPolicyPortRule rule = .ok () := by
  have next : ∀ {x : GoErr} {f : Unit → GoErr},
      (x >>= f) = .ok () → x = .ok () ∧ f () = .ok () := by
    intro x f hx
    cases x with
    | error e => cases hx
    | ok u => exact ⟨rfl, hx⟩
  have hports := (next (next (next h).2).2).1
  have hone := checkEach_eq_ok_iff.mp hports rule hrule
  cases hr : validateNetworkPolicyPortRule rule with
  | error e =>
    rw [hr] at hone
    cases hone
  | ok u => rfl

end Kairon.Model
