import Kairon.Cluster.World
import Kairon.Controller.Cilium

/-!
# Default deny in Cilium

A MachineNetworkPolicy without `defaultAllow` is meant to let through only what it lists. In the
CiliumNetworkPolicy nothing is enforced without an `egress` list, and a rule without a peer or a
port has no bounds.

* `egressRule_bounded_iff`: one rule
* `egress_bounded_iff`: the policies whose mirror lets through no more than they list
-/

namespace Kairon.Controller

open Infra GoText Model Cluster List

/-! ## Bounded rules -/

/-- The rule is bounded by CIDRs or ports, and all it has of either is from the policy. -/
structure Bounded (pol : VmNetworkPolicy) (rule : Json) : Prop where
  bound : (∃ x xs, rule.member "toCIDR" = .arr (x :: xs)) ∨
    ∃ x xs, rule.member "toPorts" = .arr (x :: xs)
  cidrs : ∀ l, rule.member "toCIDR" = .arr l → ∀ x ∈ l, ∃ cidr ∈ pol.allowCidrs, x = .str cidr
  ports : ∀ l, rule.member "toPorts" = .arr l → ∀ x ∈ l, ∃ y ys, x.member "ports" = .arr (y :: ys) ∧
    ∀ z ∈ y :: ys, ∃ raw ∈ pol.allowPorts, ∃ e, translateAllowPort raw = some e ∧ z = portEntry e

variable (pol : VmNetworkPolicy)

/-- The policy enforces egress, and lets through only what `pol` allows. -/
def DeniesByDefault (spec : Json) : Prop :=
  ∃ rules, spec.member "egress" = .arr rules ∧ ∀ rule ∈ rules, Bounded pol rule

def hasPortProtocol (raw : String) : Bool :=
  (cut raw '/').any fun c => ["tcp", "udp", "sctp"].contains (toLower (trimSpace c.1))

theorem ciliumProtocol_isSome_iff {proto : String} :
    (ciliumProtocol proto).isSome = true ↔ proto ∈ ["tcp", "udp", "sctp"] := by
  unfold ciliumProtocol
  split
  · simp
  · simp
  · simp
  · next h₁ h₂ h₃ => simpa using ⟨h₁, h₂, h₃⟩

theorem translateAllowPort_isSome_iff {raw : String}
    (h : validateNetworkPolicyPortRule raw = .ok ()) :
    (translateAllowPort raw).isSome = true ↔ hasPortProtocol raw = true := by
  unfold validateNetworkPolicyPortRule at h
  unfold translateAllowPort hasPortProtocol
  cases hc : cut raw '/' with
  | none => simp
  | some c =>
    obtain ⟨proto, portStr⟩ := c
    rw [hc] at h
    dsimp only at h ⊢
    split at h
    · cases h
    · -- the port was accepted, so only the protocol decides
      cases hp : parseUint 65535 (trimSpace portStr) with
      | error e =>
        simp [hp] at h
      | ok port =>
        have hproto : (ciliumProtocol (toLower (trimSpace proto))).isSome = true ↔ _ :=
          ciliumProtocol_isSome_iff
        cases hk : ciliumProtocol (toLower (trimSpace proto)) with
        | none => simpa [hk] using hproto
        | some k => simpa [hk] using hproto

/-! ## The rule of a policy -/

theorem member_toCIDR : (egressRule pol).member "toCIDR" = if pol.allowCidrs = [] then .absent else
    .arr (pol.allowCidrs.map .str) := by
  unfold egressRule
  dsimp only
  split <;> split <;> rfl

theorem member_toPorts : (egressRule pol).member "toPorts" =
    if (translateAllowPorts pol.allowPorts).isEmpty then .absent
    else .arr [.object [("ports", .arr (translateAllowPorts pol.allowPorts))]] := by
  unfold egressRule
  dsimp only
  split <;> split <;> rfl

theorem mem_translateAllowPorts {rules : List String} {z : Json} : z ∈ translateAllowPorts rules ↔
      ∃ raw ∈ rules, ∃ e, translateAllowPort raw = some e ∧ z = portEntry e := by
  simp only [translateAllowPorts, mem_map, mem_filterMap]
  constructor
  · rintro ⟨e, ⟨raw, hraw, he⟩, rfl⟩
    exact ⟨raw, hraw, e, he, rfl⟩
  · rintro ⟨raw, hraw, e, he, rfl⟩
    exact ⟨e, ⟨raw, hraw, he⟩, rfl⟩

theorem egressRule_bounded_iff : Bounded pol (egressRule pol) ↔ pol.allowCidrs ≠ [] ∨
    translateAllowPorts pol.allowPorts ≠ [] := by
  constructor
  · rintro ⟨⟨x, xs, hx⟩ | ⟨x, xs, hx⟩, -, -⟩
    · rw [member_toCIDR] at hx
      split at hx
      · cases hx
      · next hne => exact .inl hne
    · rw [member_toPorts] at hx
      split at hx
      · cases hx
      · next hne => exact .inr fun he => hne (by rw [he]; rfl)
  · intro h
    refine ⟨?_, fun l hl x hx => ?_, fun l hl x hx => ?_⟩
    · rcases h with h | h
      · obtain ⟨cidr, cidrs, hc⟩ := exists_cons_of_ne_nil h
        refine .inl ⟨.str cidr, cidrs.map .str, ?_⟩
        rw [member_toCIDR, if_neg h, hc]
        rfl
      · refine .inr ⟨.object [("ports", .arr (translateAllowPorts pol.allowPorts))], [], ?_⟩
        rw [member_toPorts, if_neg (by simpa using h)]
    · rw [member_toCIDR] at hl
      split at hl
      · cases hl
      · cases hl
        obtain ⟨cidr, hcidr, rfl⟩ := mem_map.mp hx
        exact ⟨cidr, hcidr, rfl⟩
    · rw [member_toPorts] at hl
      obtain ⟨-, ⟨⟩⟩ | ⟨hne, ⟨⟩⟩ := ite_eq_iff.mp hl
      rw [mem_singleton.mp hx]
      have hne' : translateAllowPorts pol.allowPorts ≠ [] := by simpa using hne
      obtain ⟨y, ys, hy⟩ := exists_cons_of_ne_nil hne'
      exact ⟨y, ys, congrArg Json.arr hy, fun z hz => mem_translateAllowPorts.mp (hy ▸ hz)⟩

/-! ## The policy -/

theorem egress_of_build (decode : String → Json) {p : MachineNetworkPolicy}
    (hdeny : p.spec.policy.defaultAllow = false) (hcnp : p.spec.cnp = [])
    (hsel : p.spec.machineName ≠ "" ∨ p.spec.selector ≠ []) :
    ∃ spec, buildCiliumNetworkPolicySpec decode p = .ok spec ∧ spec.member "egress" = encodeSlice
        (if p.spec.policy.allowCidrs = [] ∧ p.spec.policy.allowPorts = [] then []
          else [egressRule p.spec.policy]) := by
  unfold buildCiliumNetworkPolicySpec
  rw [if_neg (not_not.mpr hcnp)]
  rw [if_neg]
  · refine ⟨_, rfl, ?_⟩
    simp only [egressRules, hdeny, Bool.false_and, Bool.false_eq_true, if_false]
    rfl
  · split
    · simp
    · next hname => exact hsel.resolve_left hname

/--
Of the accepted policies without `defaultAllow`, those whose mirror lets through only what they
list are the ones that list a CIDR or a port rule with a protocol that has ports.
-/
theorem egress_bounded_iff (parsePrefix : String → Except String Unit) (decode : String → Json)
    (p : MachineNetworkPolicy) (hvalid : validateVmNetworkPolicy parsePrefix p.spec.policy = .ok ())
    (hdeny : p.spec.policy.defaultAllow = false) (hcnp : p.spec.cnp = [])
    (hsel : p.spec.machineName ≠ "" ∨ p.spec.selector ≠ []) :
    (∃ spec, buildCiliumNetworkPolicySpec decode p = .ok spec ∧
        DeniesByDefault p.spec.policy spec) ↔
      p.spec.policy.allowCidrs ≠ [] ∨
        ∃ raw ∈ p.spec.policy.allowPorts, hasPortProtocol raw = true := by
  -- a port rule comes through exactly if its protocol has ports
  have hports : translateAllowPorts p.spec.policy.allowPorts ≠ [] ↔
      ∃ raw ∈ p.spec.policy.allowPorts, hasPortProtocol raw = true := by
    constructor
    · intro hne
      obtain ⟨z, hz⟩ := exists_mem_of_ne_nil _ hne
      obtain ⟨raw, hraw, e, he, -⟩ := mem_translateAllowPorts.mp hz
      have hok := portRule_of_validateVmNetworkPolicy hvalid hraw
      exact ⟨raw, hraw, (translateAllowPort_isSome_iff hok).mp (by simp [he])⟩
    · rintro ⟨raw, hraw, hproto⟩
      have hok := portRule_of_validateVmNetworkPolicy hvalid hraw
      obtain ⟨e, he⟩ := Option.isSome_iff_exists.mp ((translateAllowPort_isSome_iff hok).mpr hproto)
      exact ne_nil_of_mem (mem_translateAllowPorts.mpr ⟨raw, hraw, e, he, rfl⟩)
  obtain ⟨spec, hspec, hegress⟩ := egress_of_build decode hdeny hcnp hsel
  rw [← hports, ← egressRule_bounded_iff]
  constructor
  · rintro ⟨spec', hspec', rules, hrules, hbounded⟩
    rw [hspec] at hspec'
    cases hspec'
    rw [hegress] at hrules
    split at hrules
    · cases hrules
    · cases hrules
      exact hbounded _ (mem_singleton.mpr rfl)
  · intro hbounded
    have hsome : ¬(p.spec.policy.allowCidrs = [] ∧ p.spec.policy.allowPorts = []) := by
      rintro ⟨hc, hp⟩
      rcases (egressRule_bounded_iff _).mp hbounded with h | h
      · exact h hc
      · exact h (by rw [hp]; rfl)
    rw [if_neg hsome] at hegress
    exact ⟨spec, hspec, _, hegress, fun rule hrule => mem_singleton.mp hrule ▸ hbounded⟩

def samplePolicy : MachineNetworkPolicy where
  metadata := ⟨"web", "prod", "", 1, [], [], [], false⟩
  spec := ⟨"web-1", [], pol, []⟩
  status := ⟨"", "", 0, none, false, []⟩

def MirroredAs (egress : Json) : Prop :=
  ∀ parsePrefix decode, validateVmNetworkPolicy parsePrefix pol = .ok () ∧
    ∃ spec, buildCiliumNetworkPolicySpec decode (samplePolicy pol) = .ok spec ∧
      spec.member "egress" = egress ∧ ¬DeniesByDefault pol spec

/-- A policy that allows nothing has `null` in the place of the list, and one that allows ICMP only
has a rule without bounds. -/
theorem egress_unbounded : MirroredAs { defaultAllow := false } .null ∧
      MirroredAs { defaultAllow := false, allowPorts := ["icmp/0"] }
        (.arr [egressRule { defaultAllow := false, allowPorts := ["icmp/0"] }]) ∧
      (egressRule { defaultAllow := false, allowPorts := ["icmp/0"] }).member =
        fun _ => .absent := by
  refine ⟨fun parsePrefix decode => ?_, fun parsePrefix decode => ?_, rfl⟩
  · obtain ⟨spec, hspec, hegress⟩ := egress_of_build (p := samplePolicy { defaultAllow := false })
      decode rfl rfl (.inl (by decide))
    refine ⟨rfl, spec, hspec, hegress, ?_⟩
    rintro ⟨rules, hrules, -⟩
    rw [hegress] at hrules
    cases hrules
  · obtain ⟨spec, hspec, hegress⟩ := egress_of_build
      (p := samplePolicy { defaultAllow := false, allowPorts := ["icmp/0"] }) decode rfl rfl
      (.inl (by decide))
    refine ⟨rfl, spec, hspec, hegress, ?_⟩
    rintro ⟨rules, hrules, hbounded⟩
    rw [hegress] at hrules
    cases hrules
    rcases (egressRule_bounded_iff _).mp (hbounded _ (mem_singleton.mpr rfl)) with h | h
    · exact h rfl
    · exact h rfl

theorem egress_bounded_cidr : ∃ spec, buildCiliumNetworkPolicySpec (fun _ => .null)
        (samplePolicy { defaultAllow := false, allowCidrs := ["10.0.0.0/8"] }) = .ok spec ∧
      DeniesByDefault { defaultAllow := false, allowCidrs := ["10.0.0.0/8"] } spec :=
  (egress_bounded_iff (fun _ => .ok ()) (fun _ => .null)
    (samplePolicy { defaultAllow := false, allowCidrs := ["10.0.0.0/8"] }) rfl rfl rfl
    (.inl (by decide))).mpr (.inl (by decide))

end Kairon.Controller
