import Kairon.Controller.Quota
import Kairon.Model.MachineMigration
import Kairon.Model.Network

/-!
# Disruption budgets

`internal/model/disruption.go`, `internal/controller/disruption.go`, the two guards that
`internal/controller/fleet.go` hands to the fleet engine, and the webhook for migrations.
-/

namespace Kairon.Controller

open Infra.GoText Model List

structure MachineDisruptionBudgetSpec where
  selector : StringMap
  minAvailable : String
  maxUnavailable : String
  deriving DecidableEq

structure MachineDisruptionBudget where
  «namespace» : String
  name : String
  spec : MachineDisruptionBudgetSpec
  deriving DecidableEq

def MachineDisruptionBudget.selects (b : MachineDisruptionBudget) (m : Machine) : Bool :=
  labelsMatch m.metadata.labels b.spec.selector

/-! ## Allowances -/

section Load

-- `int(math.Ceil(float64(pct) / 100 * float64(total)))`, in the floating-point arithmetic of the
-- Go runtime
variable (ceil : (pct total : Int) → Int)

def parseIntOrPercent (v : String) (total : Int) : Except String Int :=
  let v := trimSpace v
  if v = "" then .error "value is empty"
  else
    match cutSuffix v "%" with
    | some digits =>
      match atoi digits with
      | some pct =>
        if pct < 0 ∨ pct > 100 then .error ("invalid percentage " ++ quote v)
        else .ok (ceil pct total)
      | none => .error ("invalid percentage " ++ quote v)
    | none =>
      match atoi v with
      | some n => if n < 0 then .error ("invalid integer " ++ quote v) else .ok n
      | none => .error ("invalid integer " ++ quote v)

def MachineDisruptionBudgetSpec.desiredHealthy (s : MachineDisruptionBudgetSpec) (total : Int) :
    Except String Int :=
  if s.minAvailable ≠ "" ∧ s.maxUnavailable ≠ "" then
    .error "exactly one of minAvailable/maxUnavailable must be set, not both"
  else if s.minAvailable ≠ "" then parseIntOrPercent ceil s.minAvailable total
  else if s.maxUnavailable ≠ "" then
    (parseIntOrPercent ceil s.maxUnavailable total).map (total - ·)
  else .error "one of minAvailable/maxUnavailable must be set"

structure BudgetState where
  budget : MachineDisruptionBudget
  total : Int
  healthy : Int
  desired : Int
  allowed : Int
  deriving DecidableEq

def inFlight (migrations : List MachineMigration) (key : ObjectKey) : Bool :=
  migrations.any fun g => !g.status.phase.isTerminal && g.machineKey == key

def isHealthy (migrations : List MachineMigration) (m : Machine) : Bool :=
  m.status.phase == "Running" && !inFlight migrations m.key

variable (machines : List Machine) (migrations : List MachineMigration)

def loadBudgetState (b : MachineDisruptionBudget) : Except String BudgetState :=
  let matching := machines.filter b.selects
  let total : Int := matching.length
  let healthy : Int := (matching.filter (isHealthy migrations)).length
  match b.spec.desiredHealthy ceil total with
  | .error e => .error ("MachineDisruptionBudget " ++ b.namespace ++ "/" ++ b.name ++ ": " ++ e)
  | .ok desired => .ok ⟨b, total, healthy, desired, max 0 (healthy - desired)⟩

/-- `LoadBudgetStates`: one budget that cannot be read fails them all. -/
def loadBudgetStates (budgets : List MachineDisruptionBudget) : Except String (List BudgetState) :=
  budgets.mapM (loadBudgetState ceil machines migrations)

end Load

/-! ## Guards -/

namespace BudgetState

variable (st : BudgetState)

def selects (m : Machine) : Bool := st.budget.selects m

def spend (n : Int) : BudgetState := { st with allowed := st.allowed - n }

/-- What a scale-down of `targets` by `count` reserves from the budget: the worst case over the
members it may take. Only targets in the budget's own namespace count here. -/
def reserve (targets : List Machine) (count : Nat) : Nat :=
  min count (targets.countP fun m => m.key.namespace == st.budget.namespace && st.selects m)

theorem selects_congr {st st' : BudgetState} (h : st'.budget = st.budget) :
    st'.selects = st.selects := by
  funext m
  rw [selects, selects, h]

end BudgetState

def admitDisruption (states : List BudgetState) (m : Machine) : Except String (List BudgetState) :=
  match states.find? fun st => st.selects m && st.allowed ≤ 0 with
  | some st => .error ("MachineDisruptionBudget " ++ st.budget.namespace ++ "/" ++ st.budget.name ++
      " has 0 disruptions allowed")
  | none => .ok (states.map fun st => if st.selects m then st.spend 1 else st)

def admitScaleDown (states : List BudgetState) (targets : List Machine) (count : Nat) :
    Except String (List BudgetState) :=
  match states.find? fun st => st.allowed < st.reserve targets count with
  | some st => .error ("MachineDisruptionBudget " ++ st.budget.name ++
      " has insufficient allowance")
  | none => .ok (states.map fun st => st.spend (st.reserve targets count))

/-- `validateMachineMigration` for the creation of a migration of `machineName`, on what the lists
of its namespace return. -/
def validateMachineMigration (ceil : (pct total : Int) → Int)
    (budgets : Except String (List MachineDisruptionBudget))
    (machines : Except String (List Machine)) (migrations : Except String (List MachineMigration))
    (machineName : String) : Admission :=
  match budgets with
  | .error e => .deny ("list MachineDisruptionBudgets: " ++ e)
  | .ok [] => .allow
  | .ok budgets =>
    match machines with
    | .error e => .deny ("list Machines: " ++ e)
    | .ok machines =>
      match machines.find? fun m => m.key.name = machineName with
      | none => .allow
      | some target =>
        match migrations with
        | .error e => .deny ("list MachineMigrations: " ++ e)
        | .ok migrations =>
          match loadBudgetStates ceil machines migrations budgets with
          | .error e => .deny e
          | .ok states =>
            match admitDisruption states target with
            | .error blocker => .deny blocker
            | .ok _ => .allow

/-- An admitted disruption is spent from every budget that selects the Machine, and no budget is
overdrawn. -/
theorem admitDisruption_spends {states states' : List BudgetState} {m : Machine}
    (h : admitDisruption states m = .ok states') {st : BudgetState} (hst : st ∈ states)
    (hpos : 0 ≤ st.allowed) : ∃ st' ∈ states', st'.budget = st.budget ∧ 0 ≤ st'.allowed ∧
      st'.allowed + (if st.selects m then 1 else 0) = st.allowed := by
  unfold admitDisruption at h
  split at h
  · cases h
  · next hnone =>
    cases h
    refine ⟨_, mem_map_of_mem hst, ?_⟩
    have hfree := List.find?_eq_none.mp hnone st hst
    by_cases hsel : st.selects m = true
    · have hroom : 0 < st.allowed := by simpa [hsel] using hfree
      simp only [hsel, if_true, BudgetState.spend, true_and]
      omega
    · simp [hsel, hpos]

/-- An admitted scale-down is reserved from every budget, and no budget is overdrawn. -/
theorem admitScaleDown_spends {states states' : List BudgetState} {targets : List Machine}
    {count : Nat} (h : admitScaleDown states targets count = .ok states') {st : BudgetState}
    (hst : st ∈ states) : ∃ st' ∈ states', st'.budget = st.budget ∧ 0 ≤ st'.allowed ∧
      st'.allowed + st.reserve targets count = st.allowed := by
  unfold admitScaleDown at h
  split at h
  · cases h
  · next hnone =>
    cases h
    refine ⟨_, mem_map_of_mem hst, rfl, ?_⟩
    have hroom := List.find?_eq_none.mp hnone st hst
    simp only [decide_eq_true_eq, not_lt] at hroom
    simp only [BudgetState.spend]
    omega

/-- The Machines `taken` were disrupted one after the other under the guards, from these states.
Those that went by scale-downs are `scaled`. -/
inductive Guarded : List BudgetState → (taken scaled : List Machine) → Prop
  | nil {states} : Guarded states [] []
  | disrupt {states states' m taken scaled} :
    admitDisruption states m = .ok states' → Guarded states' taken scaled →
    Guarded states (m :: taken) scaled
  /-- The disruption was admitted, but the write failed. -/
  | wasted {states states' m taken scaled} :
    admitDisruption states m = .ok states' → Guarded states' taken scaled →
    Guarded states taken scaled
  | scaleDown {states states' targets removed count taken scaled} :
    admitScaleDown states targets count = .ok states' →
    removed.Sublist targets → removed.length ≤ count → Guarded states' taken scaled →
    Guarded states (removed ++ taken) (removed ++ scaled)

theorem countP_le_reserve {st : BudgetState} {targets removed : List Machine} {count : Nat}
    (hsub : removed.Sublist targets) (hlen : removed.length ≤ count)
    (hns : ∀ m ∈ removed, st.selects m → m.key.namespace = st.budget.namespace) :
    removed.countP st.selects ≤ st.reserve targets count := by
  apply le_min
  · exact le_trans countP_le_length hlen
  · calc removed.countP st.selects
        ≤ removed.countP fun m => m.key.namespace == st.budget.namespace && st.selects m := by
          apply countP_mono_left
          intro m hm hsel
          simp [hns m hm hsel, hsel]
      _ ≤ _ := hsub.countP_le

/-- Disruptions under the guards stay within the allowance of every budget. A scale-down counts
only against the budgets of its namespace. -/
theorem Guarded.spent {states : List BudgetState} {taken scaled : List Machine}
    (h : Guarded states taken scaled) {st : BudgetState} (hst : st ∈ states) (hpos : 0 ≤ st.allowed)
    (hns : ∀ m ∈ scaled, st.selects m → m.key.namespace = st.budget.namespace) :
    (taken.countP st.selects : Int) ≤ st.allowed := by
  -- the states change, their budgets do not, so each selects the same Machines throughout
  induction h generalizing st with
  | nil => simpa using hpos
  | disrupt hadm _ ih =>
    obtain ⟨st', hst', hb, hpos', hspent⟩ := admitDisruption_spends hadm hst hpos
    have hsel := BudgetState.selects_congr hb
    have hrest := ih hst' hpos' (by rwa [hsel, hb])
    rw [hsel] at hrest
    rw [countP_cons]
    split_ifs at hspent ⊢ <;> omega
  | wasted hadm _ ih =>
    obtain ⟨st', hst', hb, hpos', hspent⟩ := admitDisruption_spends hadm hst hpos
    have hsel := BudgetState.selects_congr hb
    have hrest := ih hst' hpos' (by rwa [hsel, hb])
    rw [hsel] at hrest
    split at hspent <;> omega
  | @scaleDown states states' targets removed count taken scaled hadm hsub hlen _ ih =>
    obtain ⟨st', hst', hb, hpos', hspent⟩ := admitScaleDown_spends hadm hst
    have hsel := BudgetState.selects_congr hb
    have hres := countP_le_reserve hsub hlen fun m hm => hns m (mem_append_left _ hm)
    have hrest := ih hst' hpos' (by
      rw [hsel, hb]
      exact fun m hm => hns m (mem_append_right _ hm))
    rw [hsel] at hrest
    rw [countP_append]
    push_cast
    omega

/-!
## MachineSets

`internal/controller/machineset.go`: what one call of `reconcileMachineSet` creates or deletes. The
finalizer and the status of the set are left out.
-/

def labelMachineSet : String := "kairon.zyvor.dev/machineset"

def labelMachineSetTemplateHash : String := "kairon.zyvor.dev/machineset-template-hash"

structure MachineTemplate where
  labels : StringMap
  spec : MachineSpec

structure MachineSet where
  metadata : ObjectMeta
  replicas : Int
  strategy : String
  maxUnavailable : String
  template : MachineTemplate

def MachineSet.owns (s : MachineSet) (m : Machine) : Bool :=
  m.key.namespace = s.metadata.key.namespace ∧
    m.metadata.labels.get labelMachineSet = s.metadata.name

def ownedMachines (s : MachineSet) (machines : List Machine) : List Machine :=
  machines.filter fun m => s.owns m && !m.metadata.deleting

def running (m : Machine) : Bool := m.status.phase = "Running"

inductive SetAction where
  | rest
  | create (n : Nat)
  | delete (machines : List Machine)
  deriving DecidableEq

section Reconcile

-- the rounding of percentages, and the start of the SHA-256 of a template's JSON
variable (ceil : (pct total : Int) → Int) (templateHash : MachineTemplate → String)

def resolveMaxUnavailable (spec : String) (desired : Int) : Except String Int :=
  (parseIntOrPercent ceil (if spec = "" then "1" else spec) desired).map (max 1 ·)

def stepMachineSetToward (s : MachineSet) (strategy : String) (desired : Nat)
    (current outdated : List Machine) (readyCurrent : Nat) : Except String SetAction :=
  let total := current.length + outdated.length
  let scaleDown := if current.length > desired
    then .delete (current.take (current.length - desired)) else SetAction.rest
  if total < desired then .ok (.create (desired - total))
  else if strategy = "Recreate" then .ok (if outdated ≠ [] then .delete outdated else scaleDown)
  else if outdated ≠ [] then
    match resolveMaxUnavailable ceil s.maxUnavailable desired with
    | .error e => .error ("spec.maxUnavailable: " ++ e)
    | .ok maxUnavailable =>
      -- these are `int`s: the last difference wraps around where it is too large
      let canDelete := (readyCurrent + outdated.length - (desired - maxUnavailable)).bmod (2 ^ 64)
      .ok (if canDelete ≤ 0 then .rest else .delete (outdated.take canDelete.toNat))
  else .ok scaleDown

def MachineSet.current (s : MachineSet) (m : Machine) : Bool :=
  m.metadata.labels.get labelMachineSetTemplateHash = templateHash s.template

def reconcileMachineSet (s : MachineSet) (machines : List Machine) : Except String SetAction :=
  let owned := ownedMachines s machines
  let current := owned.filter (s.current templateHash)
  stepMachineSetToward ceil s (if s.strategy = "" then "RollingUpdate" else s.strategy)
    s.replicas.toNat current (owned.filter fun m => !s.current templateHash m)
    (current.countP running)

end Reconcile

end Kairon.Controller
