import Mathlib.Order.Lattice.Nat
import Kairon.Properties.NodeCapacity

/-!
# Topology spread

The skew of a topology domain is taken against the lowest count of the other domains. That is the
rule of Kubernetes, which counts the domain of the node as it is before the placement.

* `withinSkew_mono`: more Machines in other domains do not make the skew worse.
* `mem_filterMaxSkew_iff`: the nodes that the filter keeps.
-/

namespace Kairon.Scheduler

open Infra Model Cluster List

variable (vs : List String) (count : String → Nat)

theorem lookup_countsBy (v : String) :
    (vs.map fun v => (v, count v)).lookup v = if v ∈ vs then some (count v) else none := by
  induction vs with
  | nil => rfl
  | cons u vs ih =>
    by_cases h : v = u
    · simp [h]
    · simp [lookup_cons, beq_eq_false_iff_ne.mpr h, h, ih]

theorem filter_countsBy (v : String) : (vs.map fun v => (v, count v)).filter (fun e => e.1 ≠ v) =
    (vs.filter fun u => u ≠ v).map fun v => (v, count v) := filter_map

theorem foldl_min_le {count count' : String → Nat} (hle : ∀ v, count v ≤ count' v)
    (vs : List String) {low low' : Nat} (hlow : low ≤ low') :
    vs.foldl (fun low v => min low (count v)) low ≤
      vs.foldl (fun low v => min low (count' v)) low' := by
  induction vs generalizing low low' with
  | nil => exact hlow
  | cons v vs ih => exact ih (min_le_min hlow (hle v))

theorem minAfterPlacingOn_le {count count' : String → Nat} (hle : ∀ v, count v ≤ count' v)
    (vs : List String) {v : String} (hsame : count' v = count v) :
    minAfterPlacingOn (vs.map fun v => (v, count v)) v ≤
      minAfterPlacingOn (vs.map fun v => (v, count' v)) v := by
  unfold minAfterPlacingOn
  rw [filter_countsBy, filter_countsBy]
  cases vs.filter fun u => u ≠ v with
  | nil => simp [lookup_countsBy, hsame]
  | cons u rest =>
    simp only [map_cons, foldl_map]
    exact foldl_min_le hle rest (hle u)

/-- More Machines in other domains do not make the skew of a node worse. -/
theorem withinSkew_mono {s : TopologySpreadConstraint} {cs : List Node} {n : Node}
    {count count' : String → Nat} (hle : ∀ v, count v ≤ count' v)
    (hsame : ∀ v, labelOf n s.topologyKey = some v → count' v = count v)
    (h : withinSkew s (countsBy s cs count) n = true) :
    withinSkew s (countsBy s cs count') n = true := by
  unfold withinSkew at h ⊢
  split
  · rfl
  · next v hv =>
    have hmin := minAfterPlacingOn_le hle (cs.filterMap (labelOf · s.topologyKey)).dedup
      (hsame v hv)
    simp only [hv, decide_eq_true_eq, countsBy, lookup_countsBy, hsame v hv] at h ⊢
    omega

/-! ## The filter -/

variable {m : Machine} {machines : List Machine} {p : PlacementSpec} {nodes candidates : List Node}
  {n : Node} {c : TopologySpreadConstraint} {count : String → Nat}

theorem sub_foldl_min_le_iff {a s : Int} (es : List (String × Nat)) (low : Nat) :
    a - (es.foldl (fun low e => min low e.2) low : Nat) ≤ s ↔
      a - low ≤ s ∧ ∀ e ∈ es, a - e.2 ≤ s := by
  induction es generalizing low with
  | nil => simp
  | cons e es ih =>
    rw [foldl_cons, ih, forall_mem_cons, ← and_assoc]
    refine and_congr_left fun _ => ?_
    omega

/-- With a skew of at least one, the domain of the node itself never decides. -/
theorem withinSkew_iff {value : String} (hn : n ∈ candidates)
    (hvalue : labelOf n c.topologyKey = some value) (hskew : 1 ≤ c.maxSkew) :
    withinSkew c (countsBy c candidates count) n = true ↔
      ∀ v ∈ candidates.filterMap (labelOf · c.topologyKey),
        (count value + 1 : Int) - count v ≤ c.maxSkew := by
  have hmem : value ∈ (candidates.filterMap (labelOf · c.topologyKey)).dedup := by
    simpa using ⟨n, hn, hvalue⟩
  simp only [← mem_dedup (l := candidates.filterMap _), withinSkew, hvalue, countsBy,
    lookup_countsBy, if_pos hmem, Option.getD_some, decide_eq_true_eq]
  generalize (candidates.filterMap (labelOf · c.topologyKey)).dedup = domains at hmem
  have hothers : (∀ v ∈ domains, (count value + 1 : Int) - count v ≤ c.maxSkew) ↔
      ∀ v ∈ domains.filter fun u => u ≠ value, (count value + 1 : Int) - count v ≤ c.maxSkew := by
    refine ⟨fun h v hv => h v (mem_filter.mp hv).1, fun h v hv => ?_⟩
    by_cases heq : v = value
    · rw [heq]
      omega
    · exact h v (by simp [hv, heq])
  rw [hothers, minAfterPlacingOn, filter_countsBy]
  cases domains.filter fun u => u ≠ value with
  | nil =>
    simp only [map_nil, lookup_countsBy, if_pos hmem, Option.getD_some, not_mem_nil,
      IsEmpty.forall_iff, implies_true, iff_true]
    omega
  | cons v vs =>
    rw [map_cons, forall_mem_cons, ← forall_mem_map (f := fun v => (v, count v))
      (P := fun e => (count value + 1 : Int) - e.2 ≤ c.maxSkew)]
    exact sub_foldl_min_le_iff _ _

variable (m machines) in
/-- The lowest number of matching Machines of the domains that some candidate is in. -/
noncomputable def lowestCount (c : TopologySpreadConstraint) (candidates nodes : List Node) : Nat :=
  sInf (domainCount m machines c nodes '' {v | v ∈ candidates.filterMap (labelOf · c.topologyKey)})

/-- The filter keeps the nodes that stay within the skew of every enforced constraint. -/
theorem mem_filterMaxSkew_iff (hskew : ∀ c ∈ p.topologySpreadConstraints, 1 ≤ c.maxSkew) :
    n ∈ filterMaxSkew m machines p candidates nodes ↔ n ∈ candidates ∧
      ∀ c ∈ p.topologySpreadConstraints, c.whenUnsatisfiable = "DoNotSchedule" →
        ∀ value, labelOf n c.topologyKey = some value →
          (domainCount m machines c nodes value + 1 : Int) -
            lowestCount m machines c candidates nodes ≤ c.maxSkew := by
  rw [filterMaxSkew, mem_filter]
  refine and_congr_right fun hn => ?_
  simp only [all_eq_true, PlacementSpec.hard, mem_filter, decide_eq_true_eq, and_imp]
  refine forall₃_congr fun c hc _ => ?_
  cases hvalue : labelOf n c.topologyKey with
  | none => simp [withinSkew, hvalue]
  | some value =>
    rw [topologyDomainCounts, withinSkew_iff hn hvalue (hskew c hc)]
    constructor
    · rintro h _ ⟨⟩
      have hdomain : value ∈ {v | v ∈ candidates.filterMap (labelOf · c.topologyKey)} :=
        mem_filterMap.mpr ⟨n, hn, hvalue⟩
      obtain ⟨v, hv, hlow⟩ :=
        Nat.sInf_mem (.image (domainCount m machines c nodes) ⟨value, hdomain⟩)
      rw [lowestCount, ← hlow]
      exact h v hv
    · intro h v hv
      have hle : lowestCount m machines c candidates nodes ≤ domainCount m machines c nodes v :=
        Nat.sInf_le ⟨v, hv, rfl⟩
      have := h value rfl
      omega

/-! ### Two zones -/

def zoned (name zone : String) : Node := ⟨name, [("zone", zone)], []⟩

def twoZones : List Node := [zoned "node-a" "1", zoned "node-b" "2"]

def webVM (name node : String) : Machine :=
  { plainMachine name node twoCores with metadata := plainMeta name [("app", "web")] }

def spreadOut : PlacementSpec := ⟨[], [], [⟨"zone", [("app", "web")], 1, "DoNotSchedule"⟩]⟩

def oneWeb : Table Machine.key := ⟨[webVM "a" "", webVM "c" "node-b"], by decide⟩

/-- The zone without a web Machine is kept, and the one with it is not. -/
theorem skew_of_spread_out :
    let kept := filterMaxSkew (webVM "a" "") oneWeb.rows spreadOut twoZones twoZones
    let Within (zone : String) := ∀ c ∈ spreadOut.topologySpreadConstraints,
      (domainCount (webVM "a" "") oneWeb.rows c twoZones zone + 1 : Int) -
        lowestCount (webVM "a" "") oneWeb.rows c twoZones twoZones ≤ 1
    (zoned "node-a" "1" ∈ kept ∧ Within "1") ∧ zoned "node-b" "2" ∉ kept ∧ ¬ Within "2" := by
  intro kept Within
  have hkept : zoned "node-a" "1" ∈ kept := by decide +kernel
  have hdropped : zoned "node-b" "2" ∉ kept := by decide +kernel
  refine ⟨⟨hkept, fun c hc => ?_⟩, hdropped, fun hwithin => hdropped ?_⟩
  · obtain rfl := mem_singleton.mp hc
    exact ((mem_filterMaxSkew_iff (by decide)).mp hkept).2 _ hc rfl "1" rfl
  · refine (mem_filterMaxSkew_iff (by decide)).mpr ⟨by decide, fun c hc _ value hvalue => ?_⟩
    obtain rfl := mem_singleton.mp hc
    cases hvalue
    exact hwithin _ hc

end Kairon.Scheduler
