import Mathlib.Algebra.Order.BigOperators.Group.List
import Kairon.Edge.Document
import Kairon.Scheduler.CpuSet

/-!
# The capacity of a node

`internal/scheduler/capacity.go`. The load of a node is held in machine integers. Additions commute
with taking residues, so a load is the exact sum of its requests, wrapped around once.
-/

namespace Kairon.Scheduler

open Model

structure NodeLoad where
  count : Nat
  cpuMilli : Int64
  memoryMiB : UInt64

def NodeLoad.amounts (l : NodeLoad) : Int64 × UInt64 := (l.cpuMilli, l.memoryMiB)

def NodeLoad.add (l : NodeLoad) (requests : Int64 × UInt64) : NodeLoad :=
  ⟨l.count + 1, l.cpuMilli + requests.1, l.memoryMiB + requests.2⟩

variable (F : GoFloat)

def milli (vcpus : UInt32) : Int64 := Int64.ofNat vcpus.toNat * 1000

def machineRequests (m : Machine) : Int64 × UInt64 :=
  (milli ((parseVCPUs F m.spec.resources.cpu).toOption.getD 0),
    (parseMemoryMiB F m.spec.resources.memory).toOption.getD 0)

def reserve (load : String → NodeLoad) (nodeName : String) (m : Machine) : String → NodeLoad :=
  Function.update load nodeName ((load nodeName).add (machineRequests F m))

def consumes (m : Machine) : Bool :=
  m.spec.nodeName != "" && !m.metadata.deleting &&
    (m.desiredPowerState == "Running" || m.desiredPowerState == "Paused")

/-- `Reserve` for one placement after the other. -/
def reserveEach (load : String → NodeLoad) (placed : List (String × Machine)) : String → NodeLoad :=
  placed.foldl (fun load e => reserve F load e.1 e.2) load

def assigned (machines : List Machine) : List (String × Machine) :=
  (machines.filter consumes).map fun m => (m.spec.nodeName, m)

def buildNodeLoad (machines : List Machine) : String → NodeLoad :=
  reserveEach F (fun _ => ⟨0, 0, 0⟩) (assigned machines)

/-- The Machines that are accounted to a node. -/
def accounted (placed : List (String × Machine)) (nodeName : String) : List Machine :=
  (placed.filter fun e => e.1 = nodeName).map Prod.snd

def nodeAllocatable (n : Node) : Option (Int64 × UInt64) := do
  let cpuRaw ← n.allocatable.lookup "cpu"
  let memRaw ← n.allocatable.lookup "memory"
  let vcpus ← (parseVCPUs F cpuRaw).toOption
  let mem ← (parseMemoryMiB F memRaw).toOption
  return (milli vcpus, mem)

def capacityFits (n : Node) (m : Machine) (load : NodeLoad) : Option String :=
  match nodeAllocatable F n with
  | none => none
  | some (allocCPU, allocMem) =>
    let (reqCPU, reqMem) := machineRequests F m
    let hugepages := n.allocatable.lookup "hugepages-2Mi"
    if reqCPU > 0 ∧ load.cpuMilli + reqCPU > allocCPU then
      some ("insufficient CPU: need " ++ toString reqCPU ++ "m, allocatable " ++
        toString allocCPU ++ "m with " ++ toString load.cpuMilli ++ "m already assigned")
    else if reqMem > 0 ∧ load.memoryMiB + reqMem > allocMem then
      some ("insufficient memory: need " ++ toString reqMem ++ "Mi, allocatable " ++
        toString allocMem ++ "Mi with " ++ toString load.memoryMiB ++ "Mi already assigned")
    else if m.spec.resources.hugepages ∧ (hugepages = some "0" ∨ hugepages = some "0Mi") then
      some "hugepages requested but node allocatable hugepages-2Mi is 0"
    else none

/-! ## Exact numbers -/

inductive Resource where
  | cpu
  | memory
  deriving DecidableEq

namespace Resource

/-- The number that a machine integer stands for. -/
def of (q : Int64 × UInt64) : Resource → Int
  | cpu => q.1.toInt
  | memory => q.2.toNat

def wrap : Resource → Int → Int
  | cpu, x => x.bmod (2 ^ 64)
  | memory, x => x % 2 ^ 64

/-- All machine integers are below. -/
def bound : Resource → Int
  | cpu => 2 ^ 63
  | memory => 2 ^ 64

def request (r : Resource) (m : Machine) : Int := r.of (machineRequests F m)

def total (r : Resource) (ms : List Machine) : Int := (ms.map (r.request F)).sum

variable {F} {r : Resource}

theorem of_lt_bound (q : Int64 × UInt64) : r.of q < r.bound := by
  cases r with
  | cpu => exact q.1.toInt_lt
  | memory =>
    have h := q.2.toNat_lt
    change (q.2.toNat : Int) < 2 ^ 64
    omega

theorem of_add (l : NodeLoad) (requests : Int64 × UInt64) :
    r.of (l.add requests).amounts = r.wrap (r.of l.amounts + r.of requests) := by
  cases r with
  | cpu => exact Int64.toInt_add ..
  | memory => simp [of, wrap, NodeLoad.add, NodeLoad.amounts]

theorem wrap_wrap_add (x y : Int) : r.wrap (r.wrap x + y) = r.wrap (x + y) := by
  cases r with
  | cpu => exact Int.bmod_add_bmod ..
  | memory => exact Int.emod_add_emod ..

theorem wrap_of_lt {x : Int} (hpos : 0 ≤ x) (h : x < r.bound) : r.wrap x = x := by
  cases r with
  | cpu =>
    have h : x < 2 ^ 63 := h
    rw [wrap, Int.bmod_eq_of_le_mul_two] <;> omega
  | memory => exact Int.emod_eq_of_lt hpos h

theorem toInt_milli (v : UInt32) : (milli v).toInt = v.toNat * 1000 := by
  have hv := v.toNat_lt
  have hfactor : (1000 : Int64).toInt = 1000 := by decide
  rw [milli, Int64.toInt_mul, Int64.toInt_ofNat_of_lt (by omega), hfactor,
    Int.bmod_eq_of_le_mul_two] <;> omega

theorem request_nonneg (m : Machine) : 0 ≤ r.request F m := by
  cases r with
  | cpu =>
    change 0 ≤ (milli _).toInt
    rw [toInt_milli]
    omega
  | memory => exact Int.natCast_nonneg _

theorem total_cons (m : Machine) (ms : List Machine) :
    r.total F (m :: ms) = r.request F m + r.total F ms := rfl

theorem total_nonneg (ms : List Machine) : 0 ≤ r.total F ms :=
  List.sum_nonneg (by simpa using fun m _ => request_nonneg m)

theorem request_le_of_fits {n : Node} {m : Machine} {load : NodeLoad} {alloc : Int64 × UInt64}
    (hn : nodeAllocatable F n = some alloc) (h : capacityFits F n m load = none)
    (hreq : 0 < r.request F m) : r.wrap (r.of load.amounts + r.request F m) ≤ r.of alloc := by
  simp only [capacityFits, hn] at h
  obtain ⟨-, ⟨⟩⟩ | ⟨hcpu, h⟩ := ite_eq_iff.mp h
  obtain ⟨-, ⟨⟩⟩ | ⟨hmem, h⟩ := ite_eq_iff.mp h
  unfold request
  rw [← of_add]
  cases r with
  | cpu =>
    have hle := Int64.not_lt.mp fun h => hcpu ⟨Int64.lt_iff_toInt_lt.mpr hreq, h⟩
    exact Int64.le_iff_toInt_le.mp hle
  | memory =>
    have hpos : 0 < (machineRequests F m).2 :=
      UInt64.lt_iff_toNat_lt.mpr (Int.ofNat_lt.mp hreq)
    have hle := UInt64.not_lt.mp fun h => hmem ⟨hpos, h⟩
    exact Int.ofNat_le.mpr (UInt64.le_iff_toNat_le.mp hle)

theorem of_reserveEach (placed : List (String × Machine)) {load : String → NodeLoad}
    {nodeName : String} {x : Int} (h : r.of (load nodeName).amounts = r.wrap x) :
    r.of (reserveEach F load placed nodeName).amounts =
      r.wrap (x + r.total F (accounted placed nodeName)) := by
  induction placed generalizing load x with
  | nil => simpa [reserveEach, accounted, total] using h
  | cons e placed ih =>
    by_cases he : e.1 = nodeName
    · have hone : r.of (reserve F load e.1 e.2 nodeName).amounts =
          r.wrap (x + r.request F e.2) := by
        subst he
        rw [reserve, Function.update_self, of_add, h, wrap_wrap_add]
        rfl
      have := ih hone
      simpa [reserveEach, accounted, total, he, Int.add_assoc] using this
    · have hone : r.of (reserve F load e.1 e.2 nodeName).amounts = r.wrap x := by
        rw [reserve, Function.update_of_ne (Ne.symm he), h]
      have := ih hone
      simpa [reserveEach, accounted, he] using this

theorem of_buildNodeLoad (machines : List Machine) (placed : List (String × Machine))
    (nodeName : String) : r.of (reserveEach F (buildNodeLoad F machines) placed nodeName).amounts =
      r.wrap (r.total F (accounted (assigned machines ++ placed) nodeName)) := by
  let empty : String → NodeLoad := fun _ => ⟨0, 0, 0⟩
  have hzero : r.of (empty nodeName).amounts = r.wrap 0 := by cases r <;> decide
  have := of_reserveEach (F := F) (assigned machines ++ placed) hzero
  simpa [buildNodeLoad, reserveEach] using this

end Resource

/-!
## The choice of a node

`Choose` of `internal/scheduler/scheduler.go`. The filters that look at other Machines are here:
required affinity, capacity, pinned CPUs and the skew of topology domains. What is asked of a node
alone, and the scores, are left open.
-/

open List Option

structure MachineAffinityTerm where
  labelSelector : StringMap
  topologyKey : String
  deriving DecidableEq

structure TopologySpreadConstraint where
  topologyKey : String
  labelSelector : StringMap
  maxSkew : Int
  whenUnsatisfiable : String
  deriving DecidableEq

/-- `PlacementSpec`, as far as the hard filters compare nodes. -/
structure PlacementSpec where
  affinity : List MachineAffinityTerm
  antiAffinity : List MachineAffinityTerm
  topologySpreadConstraints : List TopologySpreadConstraint
  deriving DecidableEq

/-- What is left open: why the first checks of `eligible` exclude a node, or its taints do, and the
scores. -/
structure Grounds where
  first : Node → Option String
  taints : Node → Option String
  score : Node → Int

def labelOf (n : Node) (key : String) : Option String := n.labels.lookup key

def nodeLabelValue (nodes : List Node) (nodeName key : String) : Option String :=
  (nodes.find? fun n => n.name = nodeName).bind (labelOf · key)

section

variable (F : GoFloat) (m : Machine) (machines : List Machine) (load : String → NodeLoad)
  (G : Grounds) (p : PlacementSpec)

def others (selector : StringMap) : List Machine :=
  machines.filter fun other => other.key ≠ m.key ∧ other.spec.nodeName ≠ "" ∧
    labelsMatch other.metadata.labels selector

def termSatisfied (nodes : List Node) (n : Node) (term : MachineAffinityTerm) : Bool :=
  match labelOf n term.topologyKey with
  | none => false
  | some value => (others m machines term.labelSelector).any fun other =>
      nodeLabelValue nodes other.spec.nodeName term.topologyKey = some value

def pinningFits (n : Node) : Option String :=
  if m.spec.resources.cpuPinning then
    match parseVCPUs F m.spec.resources.cpu with
    | .error _ => some "unparseable spec.resources.cpu"
    | .ok requested =>
      let free := UInt32.ofNat (freePinnableCPUs n machines).length
      if free < requested then
        some ("cpuPinning requests " ++ toString requested ++ " vCPU(s), only " ++ toString free ++
          " free")
      else none
  else none

def eligible (nodes : List Node) (n : Node) : Option String :=
  G.first n <|>
    if p.affinity.any fun term => !termSatisfied m machines nodes n term then
      some "a required affinity term is not satisfied"
    else if p.antiAffinity.any fun term => termSatisfied m machines nodes n term then
      some "a required anti-affinity term is violated"
    else G.taints n <|> capacityFits F n m (load n.name) <|> pinningFits F m machines n

def domainCount (c : TopologySpreadConstraint) (nodes : List Node) (value : String) : Nat :=
  (others m machines c.labelSelector).countP fun other =>
    nodeLabelValue nodes other.spec.nodeName c.topologyKey = some value

def countsBy (c : TopologySpreadConstraint) (candidates : List Node) (count : String → Nat) :
    List (String × Nat) :=
  (candidates.filterMap (labelOf · c.topologyKey)).dedup.map fun value => (value, count value)

def topologyDomainCounts (c : TopologySpreadConstraint) (candidates nodes : List Node) :
    List (String × Nat) :=
  countsBy c candidates (domainCount m machines c nodes)

def minAfterPlacingOn (counts : List (String × Nat)) (target : String) : Nat :=
  match counts.filter fun e => e.1 ≠ target with
  | [] => (counts.lookup target).getD 0 + 1
  | first :: rest => rest.foldl (fun low e => min low e.2) first.2

def withinSkew (c : TopologySpreadConstraint) (counts : List (String × Nat)) (n : Node) : Bool :=
  match labelOf n c.topologyKey with
  | none => true
  | some value =>
    (((counts.lookup value).getD 0 + 1 : Nat) : Int) - minAfterPlacingOn counts value ≤ c.maxSkew

def PlacementSpec.hard (p : PlacementSpec) : List TopologySpreadConstraint :=
  p.topologySpreadConstraints.filter fun c => c.whenUnsatisfiable = "DoNotSchedule"

def filterMaxSkew (candidates nodes : List Node) : List Node :=
  candidates.filter fun n => p.hard.all fun c =>
    withinSkew c (topologyDomainCounts m machines c candidates nodes) n

def summarizeEligibilityReasons (reasons : List String) (totalNodes : Nat) : String :=
  if reasons = [] then
    "no nodes were considered (cluster has " ++ toString totalNodes ++ " node(s))"
  else
    "; ".intercalate (reasons.dedup.mergeSort.map fun reason =>
      toString (reasons.count reason) ++ " node(s): " ++ reason)

def preSkew (nodes : List Node) : List Node :=
  nodes.filter fun n => eligible F m machines load G p nodes n = none

def accepted (nodes : List Node) : List Node :=
  filterMaxSkew m machines p (preSkew F m machines load G p nodes) nodes

def choose (nodes : List Node) : Except String String :=
  if preSkew F m machines load G p nodes = [] then
    .error ("no Ready Kairon-capable nodes match placement constraints: " ++
      summarizeEligibilityReasons (nodes.filterMap (eligible F m machines load G p nodes))
        nodes.length)
  else
    let left := (accepted F m machines load G p nodes).insertionSort fun a b => a.name ≤ b.name
    let best := left.filter fun n => left.all fun n' => G.score n' ≤ G.score n
    let sum := Edge.fnv32a (m.key.namespace ++ "/" ++ m.metadata.name).toUTF8.data.toList
    match best[sum.toNat % best.length]? with
    | some n => .ok n.name
    | none => .error ("no node satisfies topologySpreadConstraints maxSkew " ++
        "(whenUnsatisfiable: DoNotSchedule)")

end

section

variable {F : GoFloat} {m : Machine} {machines : List Machine} {load : String → NodeLoad}
  {G : Grounds} {p : PlacementSpec} {nodes : List Node} {n : Node}

theorem exists_of_choose {target : String} (h : choose F m machines load G p nodes = .ok target) :
    ∃ n ∈ accepted F m machines load G p nodes, n.name = target := by
  obtain ⟨-, ⟨⟩⟩ | ⟨_, h⟩ := ite_eq_iff.mp h
  dsimp only at h
  split at h
  · next n hn =>
    cases h
    have hbest := (mem_filter.mp (mem_of_getElem? hn)).1
    exact ⟨n, (mem_insertionSort _).mp hbest, rfl⟩
  · cases h

theorem eligible_of_accepted (h : n ∈ accepted F m machines load G p nodes) :
    n ∈ nodes ∧ eligible F m machines load G p nodes n = none := by
  obtain ⟨hmem, hel⟩ := mem_filter.mp (mem_filter.mp h).1
  exact ⟨hmem, of_decide_eq_true hel⟩

theorem of_eligible (h : eligible F m machines load G p nodes n = none) :
    (∀ term ∈ p.antiAffinity, termSatisfied m machines nodes n term = false) ∧
      capacityFits F n m (load n.name) = none := by
  simp only [eligible, orElse_eq_orElse, orElse_eq_or, or_eq_none_iff] at h
  obtain ⟨-, h⟩ := h
  split at h
  · cases h
  · split at h
    · cases h
    · next hanti =>
      simp only [or_eq_none_iff] at h
      exact ⟨by simpa using hanti, h.2.1⟩

end

end Kairon.Scheduler
