import Kairon.Properties.DisruptionBudgets
import Kairon.Scheduler.Capacity

/-!
# What is put on a node

The scheduler adds requests up in machine integers, so a sum that wraps around passes for a small
one.

* `placed_within_iff`: when a placement is within the capacity of its node
-/

namespace Kairon.Scheduler

open Infra GoText Model Cluster Controller List

variable {F : GoFloat} {m : Machine} {machines : List Machine} {nodes : List Node} {n : Node}

/-- With a Machine that `Choose` puts on a node, what is accounted there is within the capacity of
the node exactly when no sum of a resource that it requests reaches the bound of its machine
integers. -/
theorem placed_within_iff {G : Grounds} {p : PlacementSpec} {placed : List (String × Machine)}
    {alloc : Int64 × UInt64} (hdistinct : (nodes.map Node.name).Nodup) (hn : n ∈ nodes)
    (hknown : nodeAllocatable F n = some alloc)
    (h : choose F m machines (reserveEach F (buildNodeLoad F machines) placed) G p nodes =
      .ok n.name) :
    (∀ r : Resource, 0 < r.request F m →
        r.total F (m :: accounted (assigned machines ++ placed) n.name) ≤ r.of alloc) ↔
      ∀ r : Resource, 0 < r.request F m →
        r.total F (m :: accounted (assigned machines ++ placed) n.name) < r.bound := by
  obtain ⟨n', haccepted, hname⟩ := exists_of_choose h
  obtain ⟨hn', hel⟩ := eligible_of_accepted haccepted
  obtain rfl := inj_on_of_nodup_map hdistinct hn' hn hname
  refine forall_congr' fun r => forall_congr' fun hreq => ?_
  have hfits := Resource.request_le_of_fits hknown (of_eligible hel).2 hreq
  rw [Resource.of_buildNodeLoad, Resource.wrap_wrap_add, Int.add_comm, ← Resource.total_cons]
    at hfits
  constructor
  · exact fun hle => hle.trans_lt (Resource.of_lt_bound alloc)
  · intro hlt
    rwa [Resource.wrap_of_lt (Resource.total_nonneg _) hlt] at hfits

def fourGiB : Node := ⟨"node-a", [], [("cpu", "4"), ("memory", "4Gi")]⟩

def everyNode : Grounds := ⟨fun _ => none, fun _ => none, fun _ => 0⟩

def anywhere : PlacementSpec := ⟨[], [], []⟩

def halfFull : List Machine := [plainMachine "vm" "node-a" twoCores]

theorem two_fit : let web := plainMachine "web" "" twoCores
    choose wholeNumbers web halfFull (reserveEach wholeNumbers (buildNodeLoad wholeNumbers halfFull)
        []) everyNode anywhere [fourGiB] = .ok "node-a" ∧
      ∀ r : Resource, 0 < r.request wholeNumbers web →
        r.total wholeNumbers (web :: accounted (assigned halfFull ++ []) "node-a") ≤
          r.of (4000, 4096) := by
  have hchosen : choose wholeNumbers (plainMachine "web" "" twoCores) halfFull
      (reserveEach wholeNumbers (buildNodeLoad wholeNumbers halfFull) []) everyNode anywhere
      [fourGiB] = .ok "node-a" := by
    decide +kernel
  refine ⟨hchosen, (placed_within_iff (n := fourGiB) (by decide) (by decide) ?_ hchosen).mpr ?_⟩
  · decide +kernel
  · intro r _
    cases r <;> decide +kernel

/-- A request that fills up 64 bits with the 2 GiB that are there is accepted. -/
theorem huge_request_placed :
    let huge := plainMachine "huge" "" { twoCores with memory := "18446744073709549568Mi" }
    choose wholeNumbers huge halfFull (buildNodeLoad wholeNumbers halfFull) everyNode anywhere
        [fourGiB] = .ok "node-a" ∧
      ¬ Resource.memory.total wholeNumbers (huge :: accounted (assigned halfFull) "node-a") ≤
        4096 := by
  decide +kernel

end Kairon.Scheduler
