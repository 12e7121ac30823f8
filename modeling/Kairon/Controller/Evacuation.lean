import Kairon.Controller.Disruption
import Kairon.Model.MachineSnapshot

/-!
# The passes that disrupt Machines

What `Controller.Reconcile` disrupts in one call: `preemptForPending` with `internal/preempt`,
`reconcileCordonEvacuation`, `reconcileStaleEvacuation` and the guarded actions of `reconcileFleet`.
Each pass loads the budgets anew.
-/

namespace Kairon.Controller

open Infra GoText Model List

/-! ## Preemption -/

namespace Preempt

def annPreempt : String := "kairon.zyvor.dev/preempt"

def annPolicy : String := "kairon.zyvor.dev/preemption-policy"

def annPreemptedBy : String := "kairon.zyvor.dev/preempted-by"

def annPreemptedPower : String := "kairon.zyvor.dev/preempted-power"

def keyText (m : Machine) : String := m.key.namespace ++ "/" ++ m.key.name

def wants (m : Machine) : Bool :=
  equalFold (trimSpace (m.metadata.annotations.get annPreempt)) "true"

def policyHalt (v : String) : Bool :=
  toLower (trimSpace v) == "halt" || toLower (trimSpace v) == "halted"

def waits (p : Machine) : Bool :=
  wants p && !p.metadata.deleting && p.spec.nodeName == ""

def victimOK (p c : Machine) (migrating : ObjectKey → Bool) (used : List ObjectKey) : Bool :=
  c.key.namespace == p.key.namespace && c.key.name != p.key.name && !c.metadata.deleting &&
    !used.contains c.key && !migrating c.key && c.spec.nodeName != "" &&
    decide (c.spec.priority < p.spec.priority) &&
    policyHalt (c.metadata.annotations.get annPolicy) &&
    trimSpace (c.metadata.annotations.get annPreemptedBy) == "" &&
    equalFold c.desiredPowerState "Running"

def precedes (c best : Machine) : Bool :=
  c.spec.priority < best.spec.priority ||
    (c.spec.priority == best.spec.priority && decide (keyText c < keyText best))

def pickVictim (p : Machine) (candidates : List Machine) (migrating : ObjectKey → Bool)
    (used : List ObjectKey) : Option Machine :=
  (candidates.filter fun c => victimOK p c migrating used).foldl
    (fun best c => if best.all (precedes c) then some c else best) none

structure Decision where
  victim : ObjectKey
  preemptor : String
  previousPower : String

def planEach (candidates : List Machine) (migrating : ObjectKey → Bool) :
    (used : List ObjectKey) → List Machine → List Decision
  | _, [] => []
  | used, p :: ps =>
    if waits p then
      match pickVictim p candidates migrating used with
      | none => planEach candidates migrating used ps
      | some v =>
        ⟨v.key, keyText p, v.desiredPowerState⟩ :: planEach candidates migrating (v.key :: used) ps
    else planEach candidates migrating used ps

def comesFirst (a b : Machine) : Prop :=
  a.spec.priority > b.spec.priority ∨ (a.spec.priority = b.spec.priority ∧ ¬keyText b < keyText a)

instance : DecidableRel comesFirst := fun a b => by
  unfold comesFirst
  infer_instance

def plan (preemptors candidates : List Machine) (migrating : ObjectKey → Bool) : List Decision :=
  planEach candidates migrating [] (preemptors.insertionSort comesFirst)

def preemptorReleased (p : Machine) : Bool :=
  p.metadata.deleting || equalFold p.desiredPowerState "Halted" ||
    equalFold p.desiredPowerState "Stopped" ||
    (p.spec.nodeName == "" && !equalFold p.status.phase "Pending")

/-- Halted by a preemption, with a power state to go back to. -/
def marked (m : Machine) : Bool :=
  let power := m.metadata.annotations.get annPreemptedPower
  trimSpace (m.metadata.annotations.get annPreemptedBy) != "" && !m.metadata.deleting &&
    equalFold m.spec.powerState "Halted" && (power == "" || power == "Running")

/-- The last one listed, as in a map. -/
def preemptorOf (machines : List Machine) (m : Machine) : Option Machine :=
  machines.reverse.find? fun p => keyText p = trimSpace (m.metadata.annotations.get annPreemptedBy)

def resumePlan (machines : List Machine) : List Machine :=
  (machines.filter fun m => marked m && (preemptorOf machines m).all preemptorReleased).mergeSort
    fun a b => keyText a ≤ keyText b

def resumePatch : MachinePatch where
  powerState := some "Running"
  annotations := [(annPreemptedBy, none), (annPreemptedPower, none)]

variable {migrating : ObjectKey → Bool} {used : List ObjectKey}

theorem victimOK_of_pickVictim {p v : Machine} {candidates : List Machine}
    (h : pickVictim p candidates migrating used = some v) :
    v ∈ candidates ∧ victimOK p v migrating used = true := by
  -- the best so far is always one of the acceptable candidates
  have hfold : ∀ (cs : List Machine) (best : Option Machine),
      cs.foldl (fun best c => if best.all (precedes c) then some c else best) best = some v →
      v ∈ cs ∨ best = some v := by
    intro cs
    induction cs with
    | nil => exact fun best h => .inr h
    | cons c cs ih =>
      intro best h
      rcases ih _ h with hv | hv
      · exact .inl (mem_cons_of_mem _ hv)
      · dsimp only at hv
        split at hv
        · cases hv
          exact .inl mem_cons_self
        · exact .inr hv
  rcases hfold _ _ h with hv | hv
  · exact mem_filter.mp hv
  · cases hv

theorem victimOK_nil {p c : Machine}
    (h : victimOK p c migrating used = true) : victimOK p c migrating [] = true := by
  simp only [victimOK, Bool.and_eq_true, contains_nil, Bool.not_false, and_true] at h ⊢
  simp only [h, and_self]

theorem exists_of_mem_planEach {candidates ps : List Machine}
    {d : Decision} (h : d ∈ planEach candidates migrating used ps) :
    ∃ p ∈ ps, ∃ c ∈ candidates, waits p = true ∧ victimOK p c migrating [] = true ∧
      c.key = d.victim := by
  induction ps generalizing used with
  | nil => cases h
  | cons p ps ih =>
    have hrest : ∀ {used}, d ∈ planEach candidates migrating used ps →
        ∃ p' ∈ p :: ps, ∃ c ∈ candidates, waits p' = true ∧ victimOK p' c migrating [] = true ∧
          c.key = d.victim := by
      intro used h
      obtain ⟨p', hp', hc⟩ := ih h
      exact ⟨p', mem_cons_of_mem _ hp', hc⟩
    unfold planEach at h
    split at h
    · next hw =>
      split at h
      · exact hrest h
      · next v hv =>
        obtain ⟨hmem, hok⟩ := victimOK_of_pickVictim hv
        rcases mem_cons.mp h with rfl | h
        · exact ⟨p, mem_cons_self, v, hmem, hw, victimOK_nil hok, rfl⟩
        · exact hrest h
    · exact hrest h

theorem length_planEach_le (candidates ps : List Machine) (migrating : ObjectKey → Bool)
    (used : List ObjectKey) : (planEach candidates migrating used ps).length ≤ ps.countP waits := by
  induction ps generalizing used with
  | nil => simp [planEach]
  | cons p ps ih =>
    unfold planEach
    by_cases hw : waits p = true
    · rw [if_pos hw, countP_cons_of_pos hw]
      split
      · exact (ih used).trans (Nat.le_succ _)
      · simpa using ih _
    · rw [if_neg hw, countP_cons_of_neg hw]
      exact ih used

end Preempt

section Passes

variable (machines : List Machine) (migrations : List MachineMigration)

def machineAt (key : ObjectKey) : Option Machine :=
  machines.reverse.find? fun m => m.key == key

def preemptVictims (failed : List Machine) : List Machine :=
  (Preempt.plan failed machines (inFlight migrations)).filterMap fun d =>
    machineAt machines d.victim

def isPreemptible (failed : List Machine) (m : Machine) : Bool :=
  machines.any fun c => c.key == m.key && failed.any fun p =>
    Preempt.waits p && Preempt.victimOK p c (inFlight migrations) []

variable {machines migrations}

theorem of_mem_preemptVictims {failed : List Machine} {m : Machine}
    (h : m ∈ preemptVictims machines migrations failed) :
    m ∈ machines ∧ isPreemptible machines migrations failed m = true := by
  obtain ⟨d, hd, hm⟩ := mem_filterMap.mp h
  obtain ⟨p, hp, c, hc, hw, hok, hkey⟩ := Preempt.exists_of_mem_planEach hd
  have hmem : m ∈ machines := mem_reverse.mp (mem_of_find?_eq_some hm)
  have hmkey : m.key = d.victim := by simpa using List.find?_some hm
  refine ⟨hmem, any_eq_true.mpr ⟨c, hc, ?_⟩⟩
  have hp' : p ∈ failed := (mem_insertionSort _).mp hp
  simp only [hkey, hmkey, beq_self_eq_true, Bool.true_and]
  exact any_eq_true.mpr ⟨p, hp', by rw [hw, hok]; rfl⟩

theorem length_preemptVictims_le (failed : List Machine) :
    (preemptVictims machines migrations failed).length ≤ failed.countP Preempt.waits := by
  calc (preemptVictims machines migrations failed).length
      ≤ (Preempt.plan failed machines (inFlight migrations)).length :=
        length_filterMap_le ..
    _ ≤ (failed.insertionSort Preempt.comesFirst).countP Preempt.waits :=
        Preempt.length_planEach_le ..
    _ = failed.countP Preempt.waits := (perm_insertionSort _ _).countP_eq _

variable (machines migrations)

/-! ## Evacuation -/

structure CordonEvacuation where
  enabled : Bool
  minRetryInterval : Int

def CordonEvacuation.retryInterval (c : CordonEvacuation) : Int :=
  if c.minRetryInterval > 0 then c.minRetryInterval else 2 * 60 * 1000 * 1000 * 1000

def cordonEvacuateTerminal : MigrationPhase → Bool
  | .succeeded | .failed | .blocked | .cancelled => true
  | _ => false

def isEvacuating (key : ObjectKey) : Bool :=
  migrations.any fun g => !cordonEvacuateTerminal g.status.phase && g.machineKey == key

def cordonEvacuateAttemptedAt : String := "kairon.zyvor.dev/cordon-evacuate-attempted-at"

def attemptedRecently (parseTime : String → Option Time) (now : Time) (interval : Int)
    (m : Machine) : Bool :=
  ((m.metadata.annotations.lookup cordonEvacuateAttemptedAt).bind parseTime).any fun t =>
    now.instant - t.instant < interval

def leavesCordonedNode (c : CordonEvacuation) (parseTime : String → Option Time) (now : Time)
    (cordoned : List String) (m : Machine) : Bool :=
  !m.metadata.deleting && cordoned.contains m.spec.nodeName && !isEvacuating migrations m.key &&
    !attemptedRecently parseTime now c.retryInterval m

structure StaleEvacuation where
  enabled : Bool
  maxPerTick : Int

def StaleEvacuation.limit (s : StaleEvacuation) : Nat :=
  if s.maxPerTick > 0 then s.maxPerTick.toNat else 10

def conditionNodeUnreachable : String := "NodeUnreachable"

def annotationEvacuate : String := "kairon.zyvor.dev/evacuate"

def leavesDeadNode (dead : List String) (m : Machine) : Bool :=
  dead.contains m.spec.nodeName && !m.metadata.deleting &&
    ((findCondition m.status.conditions conditionNodeUnreachable).any
      fun c => c.status == "True") &&
    !isEvacuating migrations m.key && m.metadata.annotationTrue annotationEvacuate

end Passes

/-! ## Loops over the guards -/

/-- Disrupt each Machine that the budgets admit. The write may fail after the disruption was spent:
`works` says where it takes effect. -/
def disruptEach (works : Machine → Bool) : List BudgetState → List Machine → List Machine
  | _, [] => []
  | states, m :: ms =>
    match admitDisruption states m with
    | .error _ => disruptEach works states ms
    | .ok states =>
      if works m then m :: disruptEach works states ms else disruptEach works states ms

def fenceEach (works : Machine → Bool) : Nat → List BudgetState → List Machine → List Machine
  | _, _, [] => []
  | 0, _, _ :: _ => []
  | left + 1, states, m :: ms =>
    match admitDisruption states m with
    | .error _ => fenceEach works (left + 1) states ms
    | .ok states =>
      if works m then m :: fenceEach works left states ms
      else fenceEach works (left + 1) states ms

/-- A scale-down the fleet engine asks for, and the members its target then gives up. Which ones
those are is up to the controller of the target. -/
structure ScaleDown where
  targets : List Machine
  count : Nat
  removed : List Machine
  sublist : removed.Sublist targets
  length_le : removed.length ≤ count

inductive FleetAction where
  | disrupt (m : Machine)
  | scaleDown (s : ScaleDown)

def fleetEach (works : Machine → Bool) : List BudgetState → List FleetAction → List Machine
  | _, [] => []
  | states, .disrupt m :: as =>
    match admitDisruption states m with
    | .error _ => fleetEach works states as
    | .ok states =>
      if works m then m :: fleetEach works states as else fleetEach works states as
  | states, .scaleDown s :: as =>
    match admitScaleDown states s.targets s.count with
    | .error _ => fleetEach works states as
    | .ok states => s.removed ++ fleetEach works states as

def scaledBy (actions : List FleetAction) : List Machine :=
  actions.flatMap fun
    | .disrupt _ => []
    | .scaleDown s => s.removed

variable (works : Machine → Bool)

def askedBy (actions : List FleetAction) : List Machine :=
  actions.flatMap fun
    | .disrupt m => if works m then [m] else []
    | .scaleDown s => s.removed

theorem guarded_fenceEach (left : Nat) (states : List BudgetState) (ms : List Machine) : Guarded
    states (fenceEach works left states ms) [] := by
  induction ms generalizing left states with
  | nil => exact .nil
  | cons m ms ih =>
    cases left with
    | zero => exact .nil
    | succ left =>
      unfold fenceEach
      split
      · exact ih _ _
      · next hadm =>
        split
        · exact .disrupt hadm (ih _ _)
        · exact .wasted hadm (ih _ _)

theorem fenceEach_sublist (left : Nat) (states : List BudgetState) (ms : List Machine) :
    (fenceEach works left states ms).Sublist (ms.filter works) := by
  induction ms generalizing left states with
  | nil => exact .slnil
  | cons m ms ih =>
    cases left with
    | zero => exact nil_sublist _
    | succ left =>
      unfold fenceEach
      rw [filter_cons]
      split
      · split
        · exact (ih _ _).cons _
        · exact ih _ _
      · split
        · exact (ih _ _).cons_cons _
        · exact ih _ _

theorem length_fenceEach_le (left : Nat) (states : List BudgetState) (ms : List Machine) :
    (fenceEach works left states ms).length ≤ left := by
  induction ms generalizing left states with
  | nil => exact Nat.zero_le _
  | cons m ms ih =>
    cases left with
    | zero => exact Nat.le_refl _
    | succ left =>
      unfold fenceEach
      split
      · exact ih _ _
      · split
        · exact Nat.succ_le_succ (ih _ _)
        · exact ih _ _

theorem disruptEach_eq_fenceEach {left : Nat} (states : List BudgetState) {ms : List Machine}
    (h : ms.length ≤ left) : disruptEach works states ms = fenceEach works left states ms := by
  induction ms generalizing left states with
  | nil => cases left <;> rfl
  | cons m ms ih =>
    cases left with
    | zero => cases h
    | succ left =>
      have hle : ms.length ≤ left := Nat.le_of_succ_le_succ h
      have hle' : ms.length ≤ left + 1 := Nat.le_succ_of_le hle
      unfold disruptEach fenceEach
      split
      · exact ih _ hle'
      · rw [← ih _ hle, ← ih _ hle']

theorem guarded_fleetEach (states : List BudgetState) (actions : List FleetAction) : ∃ scaled,
    scaled ⊆ scaledBy actions ∧ Guarded states (fleetEach works states actions) scaled := by
  induction actions generalizing states with
  | nil => exact ⟨[], List.Subset.refl _, .nil⟩
  | cons a as ih =>
    cases a with
    | disrupt m =>
      unfold fleetEach
      split
      · exact ih _
      · next states' hadm =>
        obtain ⟨scaled, hsub, hg⟩ := ih states'
        refine ⟨scaled, hsub, ?_⟩
        split
        · exact .disrupt hadm hg
        · exact .wasted hadm hg
    | scaleDown s =>
      unfold fleetEach
      split
      · obtain ⟨scaled, hsub, hg⟩ := ih states
        exact ⟨scaled, subset_append_of_subset_right _ hsub, hg⟩
      · next states' hadm =>
        obtain ⟨scaled, hsub, hg⟩ := ih states'
        exact ⟨s.removed ++ scaled, append_subset.mpr
          ⟨subset_append_left .., subset_append_of_subset_right _ hsub⟩,
          .scaleDown hadm s.sublist s.length_le hg⟩

theorem fleetEach_subset (states : List BudgetState) (actions : List FleetAction) : fleetEach works
    states actions ⊆ askedBy works actions := by
  induction actions generalizing states with
  | nil => exact List.Subset.refl _
  | cons a as ih =>
    cases a with
    | disrupt m =>
      have hcons : askedBy works (.disrupt m :: as) =
        (if works m then [m] else []) ++ askedBy works as := rfl
      unfold fleetEach
      rw [hcons]
      split
      · exact subset_append_of_subset_right _ (ih _)
      · split
        · exact cons_subset_cons _ (ih _)
        · exact ih _
    | scaleDown s =>
      unfold fleetEach
      split
      · exact subset_append_of_subset_right _ (ih _)
      · exact append_subset.mpr
          ⟨subset_append_left .., subset_append_of_subset_right _ (ih _)⟩

/-! ## One call of `Reconcile` -/

inductive Subsystem where
  | preemption
  | cordon
  | stale
  | fleet

def reconcileOrder : List Subsystem := [.preemption, .cordon, .stale, .fleet]

inductive Listing where
  | listed
  | notFound
  | failed

/-- What one call of `Reconcile` works on: the objects listed, how the calls of each pass end, the
Machines that found no node (`failed`), the nodes that are cordoned, those whose death is attested
(`fencedNodes`), and what the fleet engine asks for. -/
structure Tick where
  machines : List Machine
  migrations : List MachineMigration
  budgets : List MachineDisruptionBudget
  listing : Subsystem → Listing
  works : Subsystem → Machine → Bool
  failed : List Machine
  cordonEvacuation : CordonEvacuation
  cordoned : List String
  parseTime : String → Option Time
  now : Time
  staleEvacuation : StaleEvacuation
  dead : List String
  fleet : List FleetAction

namespace Tick

variable (ceil : (pct total : Int) → Int) (t : Tick)

/-- The budget states of one pass; a pass without states does nothing. Preemption goes on without
budgets where they cannot be had, the evacuations only where there is no such resource. -/
def states (s : Subsystem) : Option (List BudgetState) :=
  let loaded := (loadBudgetStates ceil t.machines t.migrations t.budgets).toOption
  match s, t.listing s with
  | .preemption, .listed => some (loaded.getD [])
  | .preemption, _ => some []
  | .fleet, .listed | .cordon, .listed | .stale, .listed => loaded
  | .cordon, .notFound | .stale, .notFound => some []
  | _, _ => none

def cordonCandidates : List Machine :=
  if t.cordonEvacuation.enabled then
    t.machines.filter (leavesCordonedNode t.migrations t.cordonEvacuation t.parseTime t.now
      t.cordoned)
  else []

def staleCandidates : List Machine :=
  if t.staleEvacuation.enabled then t.machines.filter (leavesDeadNode t.migrations t.dead) else []

def disrupts (s : Subsystem) : List Machine :=
  match t.states ceil s with
  | none => []
  | some states =>
    match s with
    | .preemption =>
      disruptEach (t.works s) states (preemptVictims t.machines t.migrations t.failed)
    | .cordon => disruptEach (t.works s) states t.cordonCandidates
    | .stale => fenceEach (t.works s) t.staleEvacuation.limit states t.staleCandidates
    | .fleet => fleetEach (t.works s) states t.fleet

def disrupted (passes : List Subsystem) : List Machine :=
  passes.flatMap (t.disrupts ceil)

end Tick

end Kairon.Controller
