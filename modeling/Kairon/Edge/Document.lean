import Kairon.Model.Network

/-!
# The document of the VM edge

`internal/ebpfedge/edge.go`: the document that the agent posts for a Machine, its check, and
`Decide`, which says what the edge does with a packet. Addresses and prefixes are read by the
standard library, which is a parameter.
-/

namespace Kairon.Edge

open Infra GoText Model

/-- What is used of `net/netip`. -/
structure Netip where
  Addr : Type
  Prefix : Type
  parseAddr : String → Except String Addr
  parsePrefix : String → Except String Prefix
  contains : Prefix → Addr → Bool
  parseAddr_empty : ∀ addr, parseAddr "" ≠ .ok addr

def hostNet : Netip where
  Addr := String
  Prefix := String
  parseAddr s := if s = "" then .error "unable to parse IP" else .ok s
  parsePrefix s := (cutSuffix s "/32").elim (.error "no '/'") .ok
  contains p a := p = a
  parseAddr_empty _ := by simp

structure QoS where
  ingressMbps : UInt32 := 0
  egressMbps : UInt32 := 0
  ingressPps : UInt32 := 0
  egressPps : UInt32 := 0

structure EdgeSpec where
  «namespace» : String
  machine : String
  identity : UInt32 := 0
  antiSpoof : Bool
  learnIP : Bool
  assignedMAC : String
  assignedIP : String
  qos : QoS := {}
  policyName : String := ""
  defaultAllow : Bool
  allowCIDRs : List String := []
  denyCIDRs : List String := []
  allowPorts : List String := []
  allowSNI : List String := []
  allowDNS : List String := []
  allowICMP : Bool := false

structure PacketMeta where
  srcMAC : String
  srcIP : String
  dstIP : String
  proto : String
  dstPort : UInt16
  sni : String
  dnsQName : String
  bytes : UInt32
  ingress : Bool

/-! ## Compilation -/

def fnv32a (bytes : List UInt8) : UInt32 :=
  bytes.foldl (fun h b => (h ^^^ b.toUInt32) * 16777619) 2166136261

def identityReserved : UInt32 := 256

def stableIdentity («namespace» name : String) : UInt32 :=
  let id := fnv32a («namespace».toUTF8.data.toList ++ 0 :: name.toUTF8.data.toList) &&& 0x00FFFFFF
  if id < identityReserved then id + identityReserved else id

def normalizeMAC (mac : String) : String :=
  toLower (String.ofList ((trimSpace mac).toList.map fun c => if c = '-' then ':' else c))

def validateNameList (field : String) (names : List String) : GoErr :=
  checkEach (validateListedName field) names

section

variable (net : Netip)

def checkCIDR (cidr : String) : GoErr :=
  match net.parsePrefix cidr with
  | .error e => .error ("invalid CIDR " ++ quote cidr ++ ": " ++ e)
  | .ok _ => .ok ()

def compile (spec : EdgeSpec) : Except String EdgeSpec :=
  if spec.namespace = "" ∨ spec.machine = "" then .error "namespace and machine are required"
  else do
    validateNameList "allowSNI" spec.allowSNI
    validateNameList "allowDNS" spec.allowDNS
    checkEach (checkCIDR net) (spec.allowCIDRs ++ spec.denyCIDRs)
    return { spec with
      identity := stableIdentity spec.namespace spec.machine
      assignedMAC := normalizeMAC spec.assignedMAC }

/-! ## Decisions -/

inductive Verdict where
  | allow
  | drop (reason : String)
  deriving DecidableEq

structure Decision where
  verdict : Verdict
  policyName : String
  identity : UInt32

def spoofed (spec : EdgeSpec) (pkt : PacketMeta) : Option String :=
  if spec.antiSpoof = false then none
  else if spec.assignedMAC ≠ "" ∧ pkt.srcMAC ≠ "" ∧
      normalizeMAC pkt.srcMAC ≠ normalizeMAC spec.assignedMAC then some "spoof_mac"
  else if spec.assignedIP ≠ "" ∧ pkt.srcIP ≠ "" ∧ pkt.srcIP ≠ spec.assignedIP then some "spoof_ip"
  else none

def overRate (q : QoS) (pkt : PacketMeta) : Bool :=
  let mbps := if pkt.ingress then q.ingressMbps else q.egressMbps
  if mbps = 0 ∨ pkt.bytes = 0 then false else pkt.bytes > mbps * 125000

def cidrMatch (cidrs : List String) (ip : String) : Bool :=
  match net.parseAddr ip with
  | .error _ => false
  | .ok addr => cidrs.any fun raw =>
    match net.parsePrefix raw with
    | .error _ => false
    | .ok p => net.contains p addr

def nameAllowed (allow : List String) (got : String) : Bool :=
  let got := toLower ((cutSuffix (trimSpace got) ".").getD (trimSpace got))
  allow.any fun raw =>
    let name := toLower (trimSpace raw)
    if ['*', '.'] <+: name.toList then
      let suffix := name.toList.drop 1
      suffix <:+ got.toList && got.toList.length > suffix.length
    else got = name

def decidePacket (spec : EdgeSpec) (pkt : PacketMeta) : Decision :=
  let d (v : Verdict) : Decision := ⟨v, spec.policyName, spec.identity⟩
  match spoofed spec pkt with
  | some reason => d (.drop reason)
  | none =>
    if overRate spec.qos pkt then d (.drop "rate_limit")
    else if pkt.dnsQName ≠ "" ∧ spec.allowDNS ≠ [] ∧ nameAllowed spec.allowDNS pkt.dnsQName = false
      then d (.drop "dns_deny")
    else if pkt.sni ≠ "" ∧ spec.allowSNI ≠ [] ∧ nameAllowed spec.allowSNI pkt.sni = false
      then d (.drop "sni_deny")
    else if pkt.dstIP ≠ "" ∧ cidrMatch net spec.denyCIDRs pkt.dstIP then d (.drop "policy_deny")
    else if pkt.dstIP ≠ "" ∧ spec.allowCIDRs ≠ [] ∧
        cidrMatch net spec.allowCIDRs pkt.dstIP = false ∧ spec.defaultAllow = false
      then d (.drop "policy_deny")
    else if spec.defaultAllow = false ∧ pkt.dstIP ≠ "" ∧ spec.allowCIDRs = [] ∧
        spec.allowPorts = [] ∧ spec.allowSNI = [] ∧ spec.allowDNS = []
      then d (.drop "default_deny")
    else d .allow

end

theorem check_bind_eq_ok_iff {α : Type} {x : GoErr} {f : Unit → Except String α}
    {a : α} : (x >>= f) = .ok a ↔ x = .ok () ∧ f () = .ok a := by
  cases x with
  | error e => exact ⟨nofun, fun h => nomatch h.1⟩
  | ok u => exact ⟨fun h => ⟨rfl, h⟩, fun h => h.2⟩

theorem compile_eq_ok_iff {net : Netip} {spec compiled : EdgeSpec} :
    compile net spec = .ok compiled ↔ (spec.namespace ≠ "" ∧ spec.machine ≠ "") ∧
      validateNameList "allowSNI" spec.allowSNI = .ok () ∧
      validateNameList "allowDNS" spec.allowDNS = .ok () ∧
      checkEach (checkCIDR net) (spec.allowCIDRs ++ spec.denyCIDRs) = .ok () ∧
      compiled = { spec with
        identity := stableIdentity spec.namespace spec.machine
        assignedMAC := normalizeMAC spec.assignedMAC } := by
  unfold compile
  by_cases hname : spec.namespace = "" ∨ spec.machine = ""
  · rw [if_pos hname]
    exact ⟨nofun, fun h => absurd hname (not_or.mpr h.1)⟩
  · rw [if_neg hname, check_bind_eq_ok_iff, check_bind_eq_ok_iff, check_bind_eq_ok_iff,
      and_iff_right (not_or.mp hname)]
    refine and_congr_right fun _ => and_congr_right fun _ => and_congr_right fun _ => ?_
    exact ⟨fun h => (Except.ok.inj h).symm, fun h => h ▸ rfl⟩

theorem verdict_ite {c : Prop} [Decidable c] {reason name : String} {id : UInt32} {x : Decision} :
    (if c then ⟨.drop reason, name, id⟩ else x).verdict = .allow ↔ ¬c ∧ x.verdict = .allow := by
  by_cases hc : c
  · simp [hc]
  · simp [hc]

/-- What a document and a packet have to be for the packet to pass, if nothing is allowed by
default. -/
theorem decidePacket_allow_iff {net : Netip} {spec : EdgeSpec} {pkt : PacketMeta}
    (hdst : pkt.dstIP ≠ "") (hdeny : spec.defaultAllow = false) :
    (decidePacket net spec pkt).verdict = .allow ↔
      spoofed spec pkt = none ∧ overRate spec.qos pkt = false ∧
      (pkt.dnsQName ≠ "" → spec.allowDNS ≠ [] → nameAllowed spec.allowDNS pkt.dnsQName = true) ∧
      (pkt.sni ≠ "" → spec.allowSNI ≠ [] → nameAllowed spec.allowSNI pkt.sni = true) ∧
      cidrMatch net spec.denyCIDRs pkt.dstIP = false ∧
      (spec.allowCIDRs ≠ [] → cidrMatch net spec.allowCIDRs pkt.dstIP = true) ∧
      (spec.allowCIDRs = [] → spec.allowPorts = [] → spec.allowSNI = [] → spec.allowDNS ≠ []) := by
  unfold decidePacket
  cases spoofed spec pkt with
  | some reason => simp
  | none => simp [verdict_ite, hdst, hdeny]

theorem cidrMatch_eq_true_iff {net : Netip} {cidrs : List String} {ip : String} :
    cidrMatch net cidrs ip = true ↔
      ∃ addr, net.parseAddr ip = .ok addr ∧ ∃ cidr ∈ cidrs, ∃ p, net.parsePrefix cidr = .ok p ∧
        net.contains p addr = true := by
  unfold cidrMatch
  cases net.parseAddr ip with
  | error e => simp
  | ok addr =>
    simp only [List.any_eq_true, Except.ok.injEq, exists_eq_left']
    refine exists_congr fun cidr => and_congr_right fun _ => ?_
    cases net.parsePrefix cidr with
    | error e => simp
    | ok p => simp

end Kairon.Edge
