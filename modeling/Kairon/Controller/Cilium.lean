import Kairon.Cluster.Op
import Kairon.Model.Network

/-!
# Policies and Machines in Cilium

What `internal/controller/cilium.go` hands to Cilium: the CiliumNetworkPolicy that mirrors a
MachineNetworkPolicy, and the CiliumExternalWorkload that stands for a Machine.
-/

namespace Kairon.Controller

open Infra GoText Model Cluster

def labelMachineNamespace : String := "kairon.zyvor.dev/machine-namespace"

def labelMachineName : String := "kairon.zyvor.dev/machine-name"

/-! ## Policies -/

def ciliumProtocol : String → Option String
  | "tcp" => some "TCP"
  | "udp" => some "UDP"
  | "sctp" => some "SCTP"
  | _ => none

def translateAllowPort (raw : String) : Option (String × String) :=
  match cut raw '/' with
  | none => none
  | some (proto, portStr) =>
    match ciliumProtocol (toLower (trimSpace proto)) with
    | none => none
    | some proto =>
      match parseUint 65535 (trimSpace portStr) with
      | .error _ => none
      | .ok _ => some (trimSpace portStr, proto)

def portEntry (e : String × String) : Json :=
  .object [("port", .str e.1), ("protocol", .str e.2)]

def translateAllowPorts (rules : List String) : List Json :=
  (rules.filterMap translateAllowPort).map portEntry

def encodeSlice (items : List Json) : Json :=
  if items.isEmpty then .null else .arr items

def egressRule (pol : VmNetworkPolicy) : Json :=
  let ports := translateAllowPorts pol.allowPorts
  .object
    ((if pol.allowCidrs = [] then [] else [("toCIDR", .arr (pol.allowCidrs.map .str))]) ++
      if ports.isEmpty then [] else [("toPorts", .arr [.object [("ports", .arr ports)]])])

def egressRules (pol : VmNetworkPolicy) : List Json :=
  let rules := if pol.allowCidrs = [] ∧ pol.allowPorts = [] then [] else [egressRule pol]
  if pol.defaultAllow && rules.isEmpty then [.object []] else rules

/-- `buildCiliumNetworkPolicySpec`. The members of `spec.cnp` are kept as text; `decode` gives the
document of one. -/
def buildCiliumNetworkPolicySpec (decode : String → Json) (p : MachineNetworkPolicy) :
    Except String Json :=
  if p.spec.cnp ≠ [] then
    match (p.spec.cnp.lookup "spec").map decode with
    | some (.obj spec) => .ok (.obj spec)
    | _ =>
      let out := p.spec.cnp.filter fun e =>
        !(["apiVersion", "kind", "metadata"].contains e.1)
      if out = [] then .error "spec.cnp has no usable policy body"
      else .ok (.object (out.map fun e => (e.1, decode e.2)))
  else
    let matchLabels :=
      if p.spec.machineName ≠ "" then
        [(labelMachineName, p.spec.machineName), (labelMachineNamespace, p.metadata.key.namespace)]
      else p.spec.selector
    if matchLabels = [] then
      .error "cilium sync requires machineName or selector (or spec.cnp)"
    else
      let selector : Json :=
        .object [("matchLabels", .object (matchLabels.map fun e => (e.1, .str e.2)))]
      let egress := egressRules p.spec.policy
      .ok (.object (("endpointSelector", selector) ::
        if p.spec.policy.defaultAllow && egress.isEmpty then []
        else [("egress", encodeSlice egress)]))

/-! ## Machines -/

def labelManagedBy : String := "app.kubernetes.io/managed-by"

def managedByKairon : String := "kairon"

def finalizerCiliumAttach : String := "kairon.zyvor.dev/cilium-attach"

def dnsChar (c : Char) : Char :=
  let c := lowerASCII c
  if c.isLower || c.isDigit || c = '-' then c else '-'

def externalWorkloadName (k : ObjectKey) : String :=
  let raw := String.ofList (("kairon-" ++ k.namespace ++ "-" ++ k.name).toList.map dnsChar)
  let raw := trim raw '-'
  let raw := if raw = "" then "kairon-workload" else raw
  if raw.toList.length > 253 then trimRight (String.ofList (raw.toList.take 253)) '-' else raw

structure AttachSpec where
  ciliumAttach : Bool
  mode : String
  netns : Bool
  dataplaneMode : String
  ciliumLabels : StringMap
  podUID : String

structure AttachMachine where
  metadata : ObjectMeta
  network : AttachSpec
  status : MachineStatus

variable (m : AttachMachine)

def AttachMachine.key : ObjectKey := m.metadata.key

def validateCiliumAttach (n : AttachSpec) : GoErr :=
  if n.ciliumAttach = false then .ok ()
  else if toLower n.mode ≠ "tap" then
    .error ("spec.network.ciliumAttach requires mode=tap (got " ++ quote n.mode ++ ")")
  else if n.netns = false then .error "spec.network.ciliumAttach requires netns=true"
  else if ["", "legacy", "ebpf", "cilium"].contains (toLower n.dataplaneMode) then .ok ()
  else .error ("spec.network.dataplaneMode " ++ quote n.dataplaneMode ++
    " is invalid; use legacy, ebpf, or cilium")

structure CiliumExternalWorkload where
  uid : String
  labels : StringMap
  id : UInt32
  ip : String
  ips : List String

inductive AttachOp where
  | getCiliumExternalWorkload (name : String)
  | createCiliumExternalWorkload (name : String) (labels : StringMap)
  | patchCiliumExternalWorkload (name : String) (labels : StringMap)
  | deleteCiliumExternalWorkload (name : String)
  | patchMachineFinalizers (key : ObjectKey) (finalizers : List String)
  | patchMachinePodUID (key : ObjectKey) (uid : String)
  | patchMachineStatus (key : ObjectKey) (status : MachineStatus)

def AttachOp.Ans : AttachOp → Type
  | getCiliumExternalWorkload _ | createCiliumExternalWorkload _ _ =>
    Except ApiError CiliumExternalWorkload
  | _ => Except ApiError Unit

def attachCall (e : AttachOp) : Prog AttachOp.Ans e.Ans := Prog.perform AttachOp.Ans e

/-- One of the loops that write `upper` into the labels. Go ranges over a map in any order, which
does not matter as its keys are different; here the first entry of a key counts, as in a lookup. -/
def overlay (base upper : StringMap) : StringMap :=
  upper.foldr (fun e m => if e.1 = "" then m else m.patchKey e.1 (some e.2)) base

def identityLabels (k : ObjectKey) : StringMap :=
  [(labelManagedBy, managedByKairon), (labelMachineNamespace, k.namespace),
    (labelMachineName, k.name)]

def workloadLabels : StringMap :=
  overlay (overlay (identityLabels m.key) m.metadata.labels) m.network.ciliumLabels

def labelsChanged (old want : StringMap) : Bool :=
  old.length ≠ want.length || want.any fun e => old.get e.1 ≠ e.2

def releaseMachine : Prog AttachOp.Ans GoErr :=
  orText (attachCall (.patchMachineFinalizers m.key
    (removeFinalizer m.metadata.finalizers finalizerCiliumAttach)))

def holdMachine : Prog AttachOp.Ans GoErr :=
  if m.metadata.finalizers.contains finalizerCiliumAttach then .ret (.ok ())
  else wrap "add cilium-attach finalizer" (orText (attachCall
    (.patchMachineFinalizers m.key (m.metadata.finalizers ++ [finalizerCiliumAttach]))))

def ensureWorkload (name : String) (labels : StringMap) :
    Prog AttachOp.Ans (Except String CiliumExternalWorkload) :=
  (attachCall (.getCiliumExternalWorkload name)).bind fun
    | .error e =>
      if e.notFound then
        wrap ("create CiliumExternalWorkload " ++ name)
          (orText (attachCall (.createCiliumExternalWorkload name labels)))
      else .ret (.error e.text)
    | .ok cew =>
      if labelsChanged cew.labels labels then
        (wrap "patch CiliumExternalWorkload labels"
          (orText (attachCall (.patchCiliumExternalWorkload name labels)))).andThen fun _ =>
        .ret (.ok { cew with labels := labels })
      else .ret (.ok cew)

def ciliumStatus (name : String) (cew : CiliumExternalWorkload) : MachineCiliumStatus where
  externalWorkload := name
  externalWorkloadUID := cew.uid
  identity := cew.id
  ipv4 := if cew.ip = "" then cew.ips.headD "" else cew.ip
  message := ""

def withCilium (s : MachineStatus) (cilium : MachineCiliumStatus) : MachineStatus :=
  let network : MachineNetworkStatus := s.network.getD
    { guestIP := "", guestIPs := [], tapName := "", dataplane := none, cilium := none,
      edge := none }
  { s with network := some { network with cilium := some cilium } }

def reconcileMachineCiliumAttach (attach : Bool) (m : AttachMachine) : Prog AttachOp.Ans GoErr :=
  let hasFinalizer := m.metadata.finalizers.contains finalizerCiliumAttach
  let name := externalWorkloadName m.key
  if m.metadata.deleting then
    if hasFinalizer = false then .ret (.ok ())
    else
      (wrap ("delete CiliumExternalWorkload " ++ name)
        (orText (attachCall (.deleteCiliumExternalWorkload name)))).andThen fun _ =>
      releaseMachine m
  else if (attach && m.network.ciliumAttach) = false then
    if hasFinalizer = false then .ret (.ok ())
    else (attachCall (.deleteCiliumExternalWorkload name)).bind fun _ => releaseMachine m
  else
    match validateCiliumAttach m.network with
    | .error e =>
      orText (attachCall (.patchMachineStatus m.key (withCilium m.status
        { externalWorkload := name, externalWorkloadUID := "", identity := 0, ipv4 := "",
          message := e })))
    | .ok () =>
      (holdMachine m).andThen fun _ =>
      (ensureWorkload name (workloadLabels m)).andThen fun cew =>
      (orText (attachCall (.patchMachineStatus m.key
        (withCilium m.status (ciliumStatus name cew))))).andThen fun _ =>
      if cew.uid ≠ "" ∧ m.network.podUID ≠ cew.uid then
        orText (attachCall (.patchMachinePodUID m.key cew.uid))
      else .ret (.ok ())

end Kairon.Controller
