import Mathlib.Data.Finset.Card
import Kairon.Cluster.World
import Kairon.Controller.Evacuation

/-!
# One reconcile call and the disruption budgets

Each pass of a call spends from budget states of its own, loaded from the same listing: what an
earlier pass has disrupted is not taken off the allowance of a later one.

* `used_step_le`: one pass
* `within_allowance_of_fits`: a call whose passes all fit stays within every allowance
-/

namespace Kairon.Controller

open Infra Model Cluster List

/-! ## Loaded states -/

variable {b : MachineDisruptionBudget} {st : BudgetState}

section Load

variable {ceil : (pct total : Int) → Int} {machines : List Machine}
  {migrations : List MachineMigration}

theorem budget_of_loadBudgetState (h : loadBudgetState ceil machines migrations b = .ok st) :
    st.budget = b ∧ 0 ≤ st.allowed := by
  unfold loadBudgetState at h
  dsimp only at h
  split at h
  · cases h
  · cases h
    exact ⟨rfl, le_max_left _ _⟩

theorem loadBudgetStates_ok_iff {budgets : List MachineDisruptionBudget}
    {states : List BudgetState} : loadBudgetStates ceil machines migrations budgets = .ok states ↔
      List.Forall₂ (fun b st => loadBudgetState ceil machines migrations b = .ok st) budgets
        states := by
  unfold loadBudgetStates
  induction budgets generalizing states with
  | nil => cases states <;> simp [pure, Except.pure]
  | cons b budgets ih =>
    rw [mapM_cons, forall₂_cons_left_iff]
    cases loadBudgetState ceil machines migrations b with
    | error e => simp [bind, Except.bind]
    | ok st =>
      simp only [← ih]
      cases budgets.mapM (loadBudgetState ceil machines migrations) with
      | error e => simp [bind, Except.bind]
      | ok rest => simp [bind, Except.bind, pure, Except.pure, eq_comm]

theorem mem_of_loadBudgetStates {budgets : List MachineDisruptionBudget} {states : List BudgetState}
    (h : loadBudgetStates ceil machines migrations budgets = .ok states) (hb : b ∈ budgets)
    (hst : loadBudgetState ceil machines migrations b = .ok st) : st ∈ states := by
  have hpairs := loadBudgetStates_ok_iff.mp h
  clear h
  induction hpairs with
  | nil => cases hb
  | cons hload _ ih =>
    rcases mem_cons.mp hb with rfl | hb
    · cases hload.symm.trans hst
      exact mem_cons_self
    · exact mem_cons_of_mem _ (ih hb)

end Load

namespace Tick

variable (ceil : (pct total : Int) → Int) (t : Tick)

/-! ## What a call may disrupt -/

def affects (b : MachineDisruptionBudget) (m : Machine) : Bool :=
  b.selects m && isHealthy t.migrations m

/-- The number of distinct healthy Machines of the budget among these. -/
def used (b : MachineDisruptionBudget) (ms : List Machine) : Nat :=
  (ms.toFinset.filter fun m => t.affects b m).card

def candidates : Subsystem → List Machine
  | .preemption => (t.machines.filter (isPreemptible t.machines t.migrations t.failed)).filter
      (t.works .preemption)
  | .cordon => t.cordonCandidates.filter (t.works .cordon)
  | .stale => t.staleCandidates.filter (t.works .stale)
  | .fleet => askedBy (t.works .fleet) t.fleet

def atMost (n : Nat) : Subsystem → Nat
  | .preemption => min n (t.failed.countP Preempt.waits)
  | .stale => min n t.staleEvacuation.limit
  | .cordon | .fleet => n

/-- The number of candidates of a pass that count against the budget and are not among `before`. -/
def fresh (b : MachineDisruptionBudget) (before : List Machine) (s : Subsystem) : Nat :=
  ((t.candidates s).toFinset.filter fun m => t.affects b m ∧ m ∉ before).card

/-- The pass spends from the states of all budgets, and its scale-downs are in the namespace of the
budget. -/
def SpendsFrom (s : Subsystem) (b : MachineDisruptionBudget) : Prop :=
  t.states ceil s = (loadBudgetStates ceil t.machines t.migrations t.budgets).toOption ∧
    (s = .fleet → ∀ m ∈ scaledBy t.fleet, b.selects m → m.key.namespace = b.namespace)

/-- With `before` disrupted, the pass cannot overspend the allowance: it stops, or all it could
disrupt fits into what is left, or nothing of the budget is disrupted yet and the pass spends from
the budget. -/
def Fits (before : List Machine) (s : Subsystem) (b : MachineDisruptionBudget) (allowed : Int) :
    Prop :=
  t.states ceil s = none ∨ (t.used b before + t.atMost (t.fresh b before s) s : Int) ≤ allowed ∨
    (t.used b before = 0 ∧ t.SpendsFrom ceil s b)

/-- Every pass of the call fits, in the state in which it starts. -/
def Fitting : (before : List Machine) → List Subsystem → Prop
  | _, [] => True
  | before, s :: rest =>
    (∀ b ∈ t.budgets, ∀ st, loadBudgetState ceil t.machines t.migrations b = .ok st →
      t.Fits ceil before s b st.allowed) ∧
    Fitting (before ++ t.disrupts ceil s) rest

variable {ceil t}

theorem used_append_le (b : MachineDisruptionBudget) (before taken : List Machine) :
    t.used b (before ++ taken) ≤ t.used b before +
      (taken.toFinset.filter fun m => t.affects b m ∧ m ∉ before).card := by
  refine (Finset.card_le_card fun m hm => ?_).trans (Finset.card_union_le _ _)
  simp only [Finset.mem_filter, mem_toFinset, mem_append, Finset.mem_union] at hm ⊢
  by_cases hb : m ∈ before
  · exact .inl ⟨hb, hm.2⟩
  · exact .inr ⟨hm.1.resolve_left hb, hm.2, hb⟩

theorem used_le_countP (b : MachineDisruptionBudget) (ms : List Machine) :
    t.used b ms ≤ ms.countP b.selects := by
  calc t.used b ms = ((ms.filter (t.affects b)).toFinset).card := by
        rw [used, toFinset_filter]
    _ ≤ (ms.filter (t.affects b)).length := toFinset_card_le _
    _ = ms.countP (t.affects b) := countP_eq_length_filter.symm
    _ ≤ ms.countP b.selects := by
        apply countP_mono_left
        intro m _ hm
        exact (Bool.and_eq_true_iff.mp hm).1

/-! ## One pass -/

theorem disrupts_subset (s : Subsystem) : t.disrupts ceil s ⊆ t.candidates s := by
  intro m hm
  unfold disrupts at hm
  split at hm
  · cases hm
  · next states _ =>
    cases s with
    | preemption =>
      rw [disruptEach_eq_fenceEach _ _ (Nat.le_refl _)] at hm
      obtain ⟨hv, hw⟩ := mem_filter.mp ((fenceEach_sublist ..).subset hm)
      exact mem_filter.mpr ⟨mem_filter.mpr (of_mem_preemptVictims hv), hw⟩
    | cordon =>
      dsimp only at hm
      rw [disruptEach_eq_fenceEach _ _ (Nat.le_refl _)] at hm
      exact (fenceEach_sublist ..).subset hm
    | stale => exact (fenceEach_sublist ..).subset hm
    | fleet => exact fleetEach_subset _ _ _ hm

theorem card_disrupts_le (b : MachineDisruptionBudget) (before : List Machine) (s : Subsystem) :
    ((t.disrupts ceil s).toFinset.filter fun m => t.affects b m ∧ m ∉ before).card ≤
      t.atMost (t.fresh b before s) s := by
  have hfresh : ((t.disrupts ceil s).toFinset.filter
      fun m => t.affects b m ∧ m ∉ before).card ≤ t.fresh b before s := by
    refine Finset.card_le_card (Finset.filter_subset_filter _ fun m hm => ?_)
    exact mem_toFinset.mpr (disrupts_subset s (mem_toFinset.mp hm))
  have hlen : ((t.disrupts ceil s).toFinset.filter
      fun m => t.affects b m ∧ m ∉ before).card ≤ (t.disrupts ceil s).length :=
    (Finset.card_filter_le _ _).trans (toFinset_card_le _)
  cases s with
  | preemption =>
    refine le_min hfresh (hlen.trans ?_)
    unfold disrupts
    split
    · exact Nat.zero_le _
    · rw [disruptEach_eq_fenceEach _ _ (Nat.le_refl _)]
      exact (length_fenceEach_le ..).trans (length_preemptVictims_le _)
  | stale =>
    refine le_min hfresh (hlen.trans ?_)
    unfold disrupts
    split
    · exact Nat.zero_le _
    · exact length_fenceEach_le ..
  | cordon | fleet => exact hfresh

theorem guarded_disrupts {s : Subsystem} {states : List BudgetState}
    (h : t.states ceil s = some states) :
    ∃ scaled, (∀ m ∈ scaled, s = .fleet ∧ m ∈ scaledBy t.fleet) ∧
      Guarded states (t.disrupts ceil s) scaled := by
  unfold disrupts
  rw [h]
  cases s with
  | preemption | cordon =>
    refine ⟨[], fun m hm => (not_mem_nil hm).elim, ?_⟩
    dsimp only
    rw [disruptEach_eq_fenceEach _ _ (Nat.le_refl _)]
    exact guarded_fenceEach ..
  | stale => exact ⟨[], fun m hm => (not_mem_nil hm).elim, guarded_fenceEach ..⟩
  | fleet =>
    obtain ⟨scaled, hsub, hg⟩ := guarded_fleetEach (t.works .fleet) states t.fleet
    exact ⟨scaled, fun m hm => ⟨rfl, hsub hm⟩, hg⟩

theorem used_disrupts_le {s : Subsystem} (hspends : t.SpendsFrom ceil s b)
    (hb : b ∈ t.budgets) (hst : loadBudgetState ceil t.machines t.migrations b = .ok st) :
    (t.used b (t.disrupts ceil s) : Int) ≤ st.allowed := by
  obtain ⟨hbudget, hpos⟩ := budget_of_loadBudgetState hst
  cases hstates : t.states ceil s with
  | none =>
    have hnone : t.disrupts ceil s = [] := by rw [disrupts, hstates]
    rwa [hnone]
  | some states =>
    obtain ⟨scaled, hscaled, hguarded⟩ := guarded_disrupts hstates
    have hload : loadBudgetStates ceil t.machines t.migrations t.budgets = .ok states := by
      have hsome := hspends.1.symm.trans hstates
      cases hl : loadBudgetStates ceil t.machines t.migrations t.budgets with
      | error e => simp [hl, Except.toOption] at hsome
      | ok states' =>
        rw [hl] at hsome
        rw [Option.some.inj hsome]
    have hsel : st.selects = b.selects := by rw [← hbudget]; rfl
    have hspent := hguarded.spent (mem_of_loadBudgetStates hload hb hst) hpos (by
      rw [hsel, hbudget]
      exact fun m hm => hspends.2 (hscaled m hm).1 m (hscaled m hm).2)
    rw [hsel] at hspent
    exact (Int.ofNat_le.mpr (used_le_countP b _)).trans hspent

theorem used_step_le {before : List Machine} {s : Subsystem}
    (hfits : t.Fits ceil before s b st.allowed) (hb : b ∈ t.budgets)
    (hst : loadBudgetState ceil t.machines t.migrations b = .ok st)
    (hbefore : (t.used b before : Int) ≤ st.allowed) :
    (t.used b (before ++ t.disrupts ceil s) : Int) ≤ st.allowed := by
  rcases hfits with hstop | hroom | ⟨hfirst, hspends⟩
  · have hnone : t.disrupts ceil s = [] := by rw [disrupts, hstop]
    rwa [hnone, append_nil]
  · have happ := used_append_le (t := t) b before (t.disrupts ceil s)
    have hcard := @card_disrupts_le ceil t b before s
    omega
  · have halone := used_disrupts_le hspends hb hst
    have happ := used_append_le (t := t) b before (t.disrupts ceil s)
    have hnew : ((t.disrupts ceil s).toFinset.filter
        fun m => t.affects b m ∧ m ∉ before).card ≤ t.used b (t.disrupts ceil s) :=
      Finset.card_le_card (Finset.monotone_filter_right _ fun m _ hm => hm.1)
    omega

/-! ## The whole call -/

theorem used_prefix_le (hb : b ∈ t.budgets)
    (hst : loadBudgetState ceil t.machines t.migrations b = .ok st)
    {passes : List Subsystem} {before : List Machine} (h : t.Fitting ceil before passes)
    (hbefore : (t.used b before : Int) ≤ st.allowed) {done : List Subsystem}
    (hdone : done <+: passes) :
    (t.used b (before ++ t.disrupted ceil done) : Int) ≤ st.allowed := by
  induction passes generalizing before done with
  | nil =>
    rw [prefix_nil.mp hdone]
    simpa [disrupted] using hbefore
  | cons s rest ih =>
    cases done with
    | nil => simpa [disrupted] using hbefore
    | cons s' done =>
      obtain ⟨rfl, hrest⟩ := cons_prefix_cons.mp hdone
      have hstep := used_step_le (h.1 b hb st hst) hb hst hbefore
      have hall := ih h.2 hstep hrest
      rwa [append_assoc] at hall

end Tick

/-- In a call of `Reconcile` whose passes all fit, each in the state in which it starts, the
distinct healthy Machines of a budget that are disrupted never outnumber the allowance the budget
had when the call began, after whichever passes. -/
theorem within_allowance_of_fits {ceil : (pct total : Int) → Int} {t : Tick}
    (h : t.Fitting ceil [] reconcileOrder) {done : List Subsystem}
    (hdone : done <+: reconcileOrder) {b : MachineDisruptionBudget} (hb : b ∈ t.budgets)
    {st : BudgetState} (hst : loadBudgetState ceil t.machines t.migrations b = .ok st) :
    (t.used b (t.disrupted ceil done) : Int) ≤ st.allowed := by
  have hpos : (t.used b [] : Int) ≤ st.allowed := by
    simpa [Tick.used] using (budget_of_loadBudgetState hst).2
  simpa using Tick.used_prefix_le hb hst h hpos hdone

/-! ## An allowance that is spent twice -/

def roundUp (pct total : Int) : Int := -(-(pct * total) / 100)

def webMachine (name node : String) (annotations : StringMap) : Machine :=
  let m := plainMachine name node twoCores
  { m with
    metadata := { m.metadata with labels := [("tier", "web")], annotations := annotations }
    status := { m.status with phase := "Running" } }

def urgent : Machine :=
  let m := plainMachine "urgent" "" twoCores
  { m with
    metadata := { m.metadata with annotations := [(Preempt.annPreempt, "true")] }
    spec := { m.spec with priority := 10 } }

def webTier : MachineDisruptionBudget := ⟨"default", "web-tier", ⟨[("tier", "web")], "1", ""⟩⟩

def webMachines : List Machine :=
  [webMachine "web-a" "node-1" [(Preempt.annPolicy, "Halt")], webMachine "web-b" "node-2" [],
    urgent]

def webTick (cordoned : List String) : Tick where
  machines := webMachines
  migrations := []
  budgets := [webTier]
  listing _ := .listed
  works _ _ := true
  failed := [urgent]
  cordonEvacuation := ⟨true, 0⟩
  cordoned := cordoned
  parseTime _ := none
  now := ⟨0⟩
  staleEvacuation := ⟨false, 0⟩
  dead := []
  fleet := []

theorem webTier_state :
    loadBudgetState roundUp webMachines [] webTier = .ok ⟨webTier, 2, 2, 1, 1⟩ := by
  decide +kernel

/-- The budget of the web Machines allows one disruption. With `node-2` cordoned, preemption halts
`web-a` and cordon evacuation moves `web-b` in the same call. -/
theorem allowance_overspent : ∃ t : Tick, ∃ b ∈ t.budgets, ∃ st,
      loadBudgetState roundUp t.machines t.migrations b = .ok st ∧ st.allowed = 1 ∧
      t.used b (t.disrupted roundUp reconcileOrder) = 2 :=
  ⟨webTick ["node-2"], webTier, mem_singleton_self _, ⟨webTier, 2, 2, 1, 1⟩,
    webTier_state, rfl, by decide +kernel⟩

theorem within_allowance_of_fits_alone : (webTick []).Fitting roundUp [] reconcileOrder ∧
      ((webTick []).used webTier ((webTick []).disrupted roundUp reconcileOrder) : Int) ≤ 1 := by
  have hfit : (webTick []).Fitting roundUp [] reconcileOrder := by
    refine ⟨?_, ?_, ?_, ?_, trivial⟩ <;> intro b hb st hst <;> cases mem_singleton.mp hb <;>
      cases webTier_state.symm.trans hst
    · exact .inr (.inr ⟨rfl, by decide +kernel, nofun⟩)
    · exact .inr (.inl (by decide +kernel))
    · exact .inr (.inl (by decide +kernel))
    · exact .inr (.inl (by decide +kernel))
  exact ⟨hfit, within_allowance_of_fits hfit (prefix_refl _) (mem_singleton_self _)
    webTier_state⟩

end Kairon.Controller
