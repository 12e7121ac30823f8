import Kairon.Edge.Apply

/-!
# Packets that the edge lets through

With default allow off a packet should pass only if an entry of the document's allow lists covers
it. `Decide` looks at the names only if the packet has one, and at the ports never.

* `covered_of_settled`, `allowed_of_not_settled`: the two directions
* `allowed_covered_iff`: when only listed packets pass
-/

namespace Kairon.Edge

open Infra GoText Model Network List

def portRuleMatches (rule : String) (pkt : PacketMeta) : Bool :=
  match cut rule '/' with
  | none => false
  | some (proto, port) =>
    toLower (trimSpace proto) = toLower pkt.proto &&
      match parseUint 65535 (trimSpace port) with
      | .error _ => false
      | .ok n => n = pkt.dstPort.toNat

def Covered (net : Netip) (spec : EdgeSpec) (pkt : PacketMeta) : Prop :=
  (∃ addr, net.parseAddr pkt.dstIP = .ok addr ∧ ∃ cidr ∈ spec.allowCIDRs, ∃ p,
      net.parsePrefix cidr = .ok p ∧ net.contains p addr = true) ∨
    (∃ rule ∈ spec.allowPorts, portRuleMatches rule pkt = true) ∨
    (pkt.sni ≠ "" ∧ nameAllowed spec.allowSNI pkt.sni = true) ∨
    (pkt.dnsQName ≠ "" ∧ nameAllowed spec.allowDNS pkt.dnsQName = true) ∨
    (spec.allowICMP = true ∧ pkt.proto = "icmp")

def Undenied (net : Netip) (spec : EdgeSpec) (pkt : PacketMeta) : Prop :=
  ∀ addr, net.parseAddr pkt.dstIP = .ok addr → ∀ cidr ∈ spec.denyCIDRs, ∀ p,
    net.parsePrefix cidr = .ok p → net.contains p addr = false

/-- Some rule that `Decide` applies settles the packet, or an entry that it does not look at
happens to cover it. -/
def Settled (net : Netip) (spec : EdgeSpec) (pkt : PacketMeta) : Prop :=
  -- it is dropped before the allow lists come in
  spoofed spec pkt ≠ none ∨ overRate spec.qos pkt = true ∨
    cidrMatch net spec.denyCIDRs pkt.dstIP = true ∨
    -- a list decides
    spec.allowCIDRs ≠ [] ∨ (spec.allowPorts = [] ∧ spec.allowSNI = [] ∧ spec.allowDNS = []) ∨
    (spec.allowDNS ≠ [] ∧ pkt.dnsQName ≠ "") ∨ (spec.allowSNI ≠ [] ∧ pkt.sni ≠ "") ∨
    -- a port or ICMP
    (∃ rule ∈ spec.allowPorts, portRuleMatches rule pkt = true) ∨
    (spec.allowICMP = true ∧ pkt.proto = "icmp")

variable {net : Netip} {spec : EdgeSpec} {pkt : PacketMeta}

theorem nameAllowed_nil (name : String) : nameAllowed [] name = false := rfl

theorem undenied_of_not_match (h : cidrMatch net spec.denyCIDRs pkt.dstIP = false) :
    Undenied net spec pkt := by
  intro addr haddr cidr hcidr p hp
  cases hc : net.contains p addr with
  | false => rfl
  | true =>
    simp [cidrMatch_eq_true_iff.mpr ⟨addr, haddr, cidr, hcidr, p, hp, hc⟩] at h

theorem covered_of_settled (hdst : pkt.dstIP ≠ "") (hdeny : spec.defaultAllow = false)
    (hallow : (decidePacket net spec pkt).verdict = .allow) (hs : Settled net spec pkt) :
    Covered net spec pkt := by
  obtain ⟨hspoof, hrate, hdns, hsni, hdenied, hcidr, hsome⟩ :=
    (decidePacket_allow_iff hdst hdeny).mp hallow
  rcases hs with h | h | h | h | ⟨hports, hsnis, hdnss⟩ | ⟨hlist, hname⟩ | ⟨hlist, hname⟩ | h | h
  · exact absurd hspoof h
  · simp [hrate] at h
  · simp [hdenied] at h
  · exact .inl (cidrMatch_eq_true_iff.mp (hcidr h))
  · by_cases hcidrs : spec.allowCIDRs = []
    · exact absurd hdnss (hsome hcidrs hports hsnis)
    · exact .inl (cidrMatch_eq_true_iff.mp (hcidr hcidrs))
  · exact .inr (.inr (.inr (.inl ⟨hname, hdns hname hlist⟩)))
  · exact .inr (.inr (.inl ⟨hname, hsni hname hlist⟩))
  · exact .inr (.inl h)
  · exact .inr (.inr (.inr (.inr h)))

theorem allowed_of_not_settled (hdst : pkt.dstIP ≠ "") (hdeny : spec.defaultAllow = false)
    (hs : ¬Settled net spec pkt) :
    (decidePacket net spec pkt).verdict = .allow ∧ ¬Covered net spec pkt := by
  simp only [Settled, not_or, not_and, not_not, Bool.not_eq_true] at hs
  obtain ⟨hspoof, hrate, hdenied, hcidrs, hsome, hdns, hsni, hports, hicmp⟩ := hs
  constructor
  · refine (decidePacket_allow_iff hdst hdeny).mpr ⟨hspoof, hrate, ?_, ?_, hdenied, ?_, ?_⟩
    · exact fun hname hlist => absurd (hdns hlist) hname
    · exact fun hname hlist => absurd (hsni hlist) hname
    · exact fun h => absurd hcidrs h
    · exact fun _ hp hs => hsome hp hs
  · rintro (⟨-, -, cidr, hcidr, -⟩ | h | ⟨hname, h⟩ | ⟨hname, h⟩ | h)
    · simp [hcidrs] at hcidr
    · exact hports h
    · by_cases hlist : spec.allowSNI = []
      · simp [hlist, nameAllowed_nil] at h
      · exact hname (hsni hlist)
    · by_cases hlist : spec.allowDNS = []
      · simp [hlist, nameAllowed_nil] at h
      · exact hname (hdns hlist)
    · exact hicmp h.1 h.2

/-- For every document with default allow off and every packet with a destination address: the
edge lets the packet through only if an entry of the allow lists covers it and no deny CIDR has its
destination, just when the packet is settled. -/
theorem allowed_covered_iff (net : Netip) (spec : EdgeSpec) (pkt : PacketMeta) (addr : net.Addr)
    (parsed : net.parseAddr pkt.dstIP = .ok addr) (hdeny : spec.defaultAllow = false) :
    ((decidePacket net spec pkt).verdict = .allow →
        Covered net spec pkt ∧ Undenied net spec pkt) ↔ Settled net spec pkt := by
  have hdst : pkt.dstIP ≠ "" := by
    intro h
    exact net.parseAddr_empty addr (h ▸ parsed)
  constructor
  · intro h
    by_contra hs
    obtain ⟨hallow, hno⟩ := allowed_of_not_settled hdst hdeny hs
    exact hno (h hallow).1
  · intro hs hallow
    refine ⟨covered_of_settled hdst hdeny hallow hs, undenied_of_not_match ?_⟩
    exact ((decidePacket_allow_iff hdst hdeny).mp hallow).2.2.2.2.1

/-! ## Ports are not looked at -/

def httpsOnly : EdgeSpec where
  «namespace» := "default"
  machine := "vm"
  antiSpoof := false
  learnIP := false
  assignedMAC := ""
  assignedIP := ""
  defaultAllow := false
  allowPorts := ["tcp/443"]

def packetTo (dstIP : String) (port : UInt16) : PacketMeta :=
  ⟨"", "", dstIP, "tcp", port, "", "", 0, false⟩

/-- SSH to any host passes, whatever the host's address is read as. -/
theorem other_port_allowed :
    ∃ raw pkt, ∀ (net : Netip) (addr : net.Addr), net.parseAddr pkt.dstIP = .ok addr →
      ∃ spec, compile net raw = .ok spec ∧ spec.defaultAllow = false ∧
        (decidePacket net spec pkt).verdict = .allow ∧ ¬Covered net spec pkt := by
  refine ⟨httpsOnly, packetTo "203.0.113.9" 22, fun net addr _ => ⟨_, rfl, rfl, ?_⟩⟩
  refine allowed_of_not_settled (show "203.0.113.9" ≠ "" by decide) rfl ?_
  rintro (h | h | h | h | ⟨h, -⟩ | ⟨h, -⟩ | ⟨h, -⟩ | ⟨rule, hrule, h⟩ | ⟨h, -⟩)
  · exact h rfl
  · cases h
  · obtain ⟨-, -, cidr, hcidr, -⟩ := cidrMatch_eq_true_iff.mp h
    cases hcidr
  · exact h rfl
  · cases h
  · exact h rfl
  · exact h rfl
  · rw [List.mem_singleton.mp hrule] at h
    exact absurd h (by decide)
  · cases h

theorem allowed_covered_https :
    (decidePacket hostNet httpsOnly (packetTo "203.0.113.9" 443)).verdict = .allow ∧
      Covered hostNet httpsOnly (packetTo "203.0.113.9" 443) ∧
      Undenied hostNet httpsOnly (packetTo "203.0.113.9" 443) := by
  have hallow : (decidePacket hostNet httpsOnly (packetTo "203.0.113.9" 443)).verdict = .allow := by
    decide +kernel
  have hrule : portRuleMatches "tcp/443" (packetTo "203.0.113.9" 443) = true := by decide
  have hs : Settled hostNet httpsOnly (packetTo "203.0.113.9" 443) := by
    refine .inr (.inr (.inr (.inr (.inr (.inr (.inr (.inl ⟨"tcp/443", ?_, hrule⟩)))))))
    exact List.mem_singleton.mpr rfl
  exact ⟨hallow, (allowed_covered_iff hostNet httpsOnly _ "203.0.113.9" rfl rfl).mpr hs hallow⟩

end Kairon.Edge
