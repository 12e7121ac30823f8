import Kairon.Properties.DisruptionBudgets

/-!
# What the disruption budgets guard

Disruptions and scale-downs spend what the budgets allowed when they were loaded. Preemption goes on
without budgets if one of them cannot be read. The webhook loads the budgets of one namespace by its
own Machines, and does not see the migrations that it has just let in.

* `charged_within`: admitted calls stay within the budgets
* `preemption_spares_iff`: when preemption does
* `decisions_agree_iff`: when webhook and controller decide alike
* `created_within_iff`: what the webhook lets in between two ticks
-/

namespace Kairon.Controller

open Infra Model Cluster List

variable {ceil : (pct total : Int) → Int} {budgets : List MachineDisruptionBudget}
  {machines : List Machine} {migrations : List MachineMigration} {states : List BudgetState}
  {b : MachineDisruptionBudget} {st : BudgetState} {m : Machine}

/-! ## Calls of the guards -/

inductive GuardCall where
  | disrupt (m : Machine)
  | scaleDown (targets : List Machine) (count : Nat)

namespace GuardCall

def guard (states : List BudgetState) : GuardCall → Except String (List BudgetState)
  | disrupt m => admitDisruption states m
  | scaleDown targets count => admitScaleDown states targets count

/-- What an admitted call is charged to a budget. -/
def charge (st : BudgetState) : GuardCall → Nat
  | disrupt m => if st.selects m then 1 else 0
  | scaleDown targets count => st.reserve targets count

/-- A call disrupts its Machine, or at most `count` of its targets. -/
def Takes : GuardCall → List Machine → Prop
  | disrupt m, removed => removed = [m]
  | scaleDown targets count, removed => removed.Sublist targets ∧ removed.length ≤ count

/-- What a disrupted Machine counts for: scale-downs are charged in their namespace alone. -/
def counts (st : BudgetState) : GuardCall → Machine → Bool
  | disrupt _, m => st.selects m
  | scaleDown _ _, m => m.key.namespace == st.budget.namespace && st.selects m

/-- Calls one after the other: the states after them, and the calls that were admitted. -/
def run (states : List BudgetState) : List GuardCall → List BudgetState × List GuardCall
  | [] => (states, [])
  | call :: calls =>
    match call.guard states with
    | .error _ => run states calls
    | .ok states' => ((run states' calls).1, call :: (run states' calls).2)

theorem guard_charges {states' : List BudgetState} {call : GuardCall}
    (h : call.guard states = .ok states') (hst : st ∈ states) (hpos : 0 ≤ st.allowed) :
    ∃ st' ∈ states', st'.budget = st.budget ∧ 0 ≤ st'.allowed ∧
      st'.allowed + call.charge st = st.allowed := by
  cases call with
  | disrupt m =>
    obtain ⟨st', hst', hb, hpos', hspent⟩ := admitDisruption_spends h hst hpos
    refine ⟨st', hst', hb, hpos', ?_⟩
    rw [← hspent, charge]
    split <;> rfl
  | scaleDown targets count => exact admitScaleDown_spends h hst

theorem charge_congr {st' : BudgetState} (h : st'.budget = st.budget) : charge st' = charge st := by
  funext call
  cases call with
  | disrupt m => rw [charge, charge, BudgetState.selects_congr h]
  | scaleDown targets count =>
    simp only [charge, BudgetState.reserve, BudgetState.selects_congr h, h]

theorem sum_charges_le (calls : List GuardCall) (hst : st ∈ states) (hpos : 0 ≤ st.allowed) :
    (((run states calls).2.map (charge st)).sum : Int) ≤ st.allowed := by
  induction calls generalizing states st with
  | nil => simpa [run] using hpos
  | cons call calls ih =>
    cases hcall : call.guard states with
    | error e =>
      simp only [run, hcall]
      exact ih hst hpos
    | ok states' =>
      obtain ⟨st', hst', hb, hpos', hspent⟩ := guard_charges hcall hst hpos
      have hrest := ih hst' hpos'
      rw [charge_congr hb] at hrest
      simp only [run, hcall, map_cons, sum_cons]
      omega

theorem countP_le_charge {call : GuardCall} {removed : List Machine} (h : call.Takes removed) :
    removed.countP (call.counts st) ≤ call.charge st := by
  cases call with
  | disrupt m =>
    cases h
    rw [countP_singleton]
    exact le_refl _
  | scaleDown targets count =>
    exact le_min (countP_le_length.trans h.2) h.1.countP_le

theorem run_refused {call : GuardCall} {e : String} (calls : List GuardCall)
    (h : call.guard (run states calls).1 = .error e) :
    (run states (calls ++ [call])).1 = (run states calls).1 := by
  induction calls generalizing states with
  | nil =>
    change call.guard states = .error e at h
    simp only [nil_append, run, h]
  | cons c calls ih =>
    cases hc : c.guard states with
    | error e' =>
      simp only [run, hc] at h
      simp only [cons_append, run, hc]
      exact ih h
    | ok states' =>
      simp only [run, hc] at h
      simp only [cons_append, run, hc]
      exact ih h

end GuardCall

/-! ## Loaded states -/

theorem exists_of_mem_loaded (h : loadBudgetStates ceil machines migrations budgets = .ok states)
    (hst : st ∈ states) : ∃ b ∈ budgets, loadBudgetState ceil machines migrations b = .ok st := by
  have hpairs := loadBudgetStates_ok_iff.mp h
  clear h
  induction hpairs with
  | nil => cases hst
  | cons hb _ ih =>
    rcases mem_cons.mp hst with rfl | hst
    · exact ⟨_, mem_cons_self, hb⟩
    · obtain ⟨b', hb', hload⟩ := ih hst
      exact ⟨b', mem_cons_of_mem _ hb', hload⟩

theorem allowed_of_loadBudgetState (h : loadBudgetState ceil machines migrations b = .ok st) :
    st.allowed = max 0 (st.healthy - st.desired) := by
  unfold loadBudgetState at h
  dsimp only at h
  split at h
  · cases h
  · cases h
    rfl

/-- The calls that are admitted charge each budget no more than it had when it was loaded, each
Machine they disrupt is charged, and a refused call changes no state. -/
theorem charged_within (hload : loadBudgetStates ceil machines migrations budgets = .ok states)
    (hst : st ∈ states) (calls : List GuardCall) :
    (((GuardCall.run states calls).2.map (GuardCall.charge st)).sum : Int) ≤
        max 0 (st.healthy - st.desired) ∧
      (∀ call ∈ (GuardCall.run states calls).2, ∀ removed, call.Takes removed →
        removed.countP (call.counts st) ≤ call.charge st) ∧
      ∀ call e, call.guard (GuardCall.run states calls).1 = .error e →
        (GuardCall.run states (calls ++ [call])).1 = (GuardCall.run states calls).1 := by
  obtain ⟨b, -, hb⟩ := exists_of_mem_loaded hload hst
  refine ⟨?_, fun call _ removed h => GuardCall.countP_le_charge h,
    fun call e h => GuardCall.run_refused calls h⟩
  rw [← allowed_of_loadBudgetState hb]
  exact GuardCall.sum_charges_le calls hst (budget_of_loadBudgetState hb).2

theorem web_charged_within :
    loadBudgetStates roundUp webMachines [] [webTier] = .ok [⟨webTier, 2, 2, 1, 1⟩] ∧
      (((GuardCall.run [⟨webTier, 2, 2, 1, 1⟩] (webMachines.map .disrupt)).2.map
        (GuardCall.charge ⟨webTier, 2, 2, 1, 1⟩)).sum : Int) ≤ 1 := by
  have hload : loadBudgetStates roundUp webMachines [] [webTier] = .ok [⟨webTier, 2, 2, 1, 1⟩] := by
    decide +kernel
  exact ⟨hload, (charged_within hload mem_cons_self _).1⟩

/-! ## Preemption -/

theorem disruptEach_nil (works : Machine → Bool) (ms : List Machine) :
    disruptEach works [] ms = ms.filter works := by
  induction ms with
  | nil => rfl
  | cons m ms ih =>
    rw [filter_cons, ← ih]
    rfl

namespace Tick

variable (ceil) in
/-- Every budget that can be read and selects one of the Machines has a disruption left. -/
def Spares (t : Tick) (ms : List Machine) : Prop :=
  ∀ m ∈ ms, ∀ b ∈ t.budgets, ∀ st,
    loadBudgetState ceil t.machines t.migrations b = .ok st → b.selects m = true → 0 < st.allowed

variable {t : Tick}

theorem states_preemption :
    (∃ states, loadBudgetStates ceil t.machines t.migrations t.budgets = .ok states ∧
        t.listing .preemption = .listed ∧ t.states ceil .preemption = some states) ∨
      ¬ (t.listing .preemption = .listed ∧
          ∃ states, loadBudgetStates ceil t.machines t.migrations t.budgets = .ok states) ∧
        t.states ceil .preemption = some [] := by
  unfold states
  cases hl : t.listing .preemption with
  | notFound | failed => exact .inr ⟨fun h => (nomatch h.1), rfl⟩
  | listed =>
    cases hload : loadBudgetStates ceil t.machines t.migrations t.budgets with
    | error e => exact .inr ⟨fun ⟨_, _, h⟩ => (nomatch h), rfl⟩
    | ok states => exact .inl ⟨states, rfl, rfl, rfl⟩

theorem spares_of_loaded {states : List BudgetState}
    (hload : loadBudgetStates ceil t.machines t.migrations t.budgets = .ok states)
    (hstates : t.states ceil .preemption = some states) :
    t.Spares ceil (t.disrupts ceil .preemption) := by
  intro m hm b hb st hst hsel
  obtain ⟨hbudget, hpos⟩ := budget_of_loadBudgetState hst
  obtain ⟨scaled, hscaled, hguarded⟩ := guarded_disrupts hstates
  have hspent := hguarded.spent (mem_of_loadBudgetStates hload hb hst) hpos
    fun m hm => nomatch (hscaled m hm).1
  have hone : 0 < (t.disrupts ceil .preemption).countP st.selects :=
    countP_pos_iff.mpr ⟨m, hm, by rwa [BudgetState.selects, hbudget]⟩
  omega

end Tick

/-- A pass of preemption halts no Machine that a budget without allowance selects exactly when it
has the states of all budgets, or no victim that it would halt without them is such a Machine. -/
theorem preemption_spares_iff {t : Tick} :
    t.Spares ceil (t.disrupts ceil .preemption) ↔ (t.listing .preemption = .listed ∧
          ∃ states, loadBudgetStates ceil t.machines t.migrations t.budgets = .ok states) ∨
        t.Spares ceil ((preemptVictims t.machines t.migrations t.failed).filter
          (t.works .preemption)) := by
  rcases t.states_preemption with ⟨states, hload, hlisted, hstates⟩ | ⟨hno, hstates⟩
  · exact iff_of_true (Tick.spares_of_loaded hload hstates) (.inl ⟨hlisted, states, hload⟩)
  · rw [or_iff_right hno, Tick.disrupts, hstates]
    dsimp only
    rw [disruptEach_nil]

/-- Both web Machines have to stay healthy, and `web-a` is halted: another budget is malformed. -/
theorem preempted_without_budgets :
    let strict : MachineDisruptionBudget := ⟨"default", "strict", ⟨[("tier", "web")], "2", ""⟩⟩
    let t : Tick := { webTick [] with budgets := [strict, ⟨"default", "empty", ⟨[], "", ""⟩⟩] }
    loadBudgetState roundUp t.machines t.migrations strict = .ok ⟨strict, 2, 2, 2, 0⟩ ∧
      ∃ m ∈ t.disrupts roundUp .preemption, strict.selects m = true := by
  decide +kernel

/-! ## The webhook and the controller -/

variable (ceil machines migrations) in
/-- The budget can be read, and has a disruption left if it selects the Machine. -/
def MachineDisruptionBudget.permits (b : MachineDisruptionBudget) (m : Machine) : Bool :=
  match loadBudgetState ceil machines migrations b with
  | .error _ => false
  | .ok st => !b.selects m || 0 < st.allowed

theorem permits_iff : b.permits ceil machines migrations m = true ↔
    ∃ st, loadBudgetState ceil machines migrations b = .ok st ∧
      (st.selects m = true → 0 < st.allowed) := by
  unfold MachineDisruptionBudget.permits
  cases hload : loadBudgetState ceil machines migrations b with
  | error e => simp
  | ok st =>
    have hsel : st.selects m = b.selects m := by
      rw [BudgetState.selects, (budget_of_loadBudgetState hload).1]
    cases hb : b.selects m <;> simp [hsel, hb]

theorem admitDisruption_isOk_iff : (∃ states', admitDisruption states m = .ok states') ↔
      ∀ st ∈ states, st.selects m = true → 0 < st.allowed := by
  unfold admitDisruption
  split
  · next st hst =>
    have hblocks := List.find?_some hst
    have hmem := mem_of_find?_eq_some hst
    simp only [Bool.and_eq_true, decide_eq_true_eq] at hblocks
    refine iff_of_false (fun ⟨_, h⟩ => nomatch h) fun hall => ?_
    exact absurd (hall st hmem hblocks.1) (not_lt.mpr hblocks.2)
  · next hnone =>
    refine iff_of_true ⟨_, rfl⟩ fun st hst hsel => ?_
    simpa [hsel] using List.find?_eq_none.mp hnone st hst

variable (ceil budgets machines migrations m) in
/-- What the passes of the controller and `kaironctl evacuate` decide on a Machine: the budgets can
be loaded and admit the disruption. -/
def Admits : Prop :=
  ∃ states, loadBudgetStates ceil machines migrations budgets = .ok states ∧
    ∃ states', admitDisruption states m = .ok states'

theorem admits_iff_permits : Admits ceil budgets machines migrations m ↔
    budgets.all (·.permits ceil machines migrations m) = true := by
  unfold Admits
  simp only [loadBudgetStates_ok_iff, admitDisruption_isOk_iff]
  induction budgets with
  | nil => simp
  | cons b budgets ih =>
    rw [all_cons, Bool.and_eq_true, permits_iff, ← ih]
    constructor
    · rintro ⟨states, hpairs, hall⟩
      cases hpairs with
      | cons hb hrest =>
        obtain ⟨hfirst, hall⟩ := forall_mem_cons.mp hall
        exact ⟨⟨_, hb, hfirst⟩, _, hrest, hall⟩
    · rintro ⟨⟨st, hb, hfirst⟩, states, hrest, hall⟩
      exact ⟨st :: states, .cons hb hrest, forall_mem_cons.mpr ⟨hfirst, hall⟩⟩

def budgetsIn (ns : String) (budgets : List MachineDisruptionBudget) :
    List MachineDisruptionBudget :=
  budgets.filter (·.namespace = ns)

def machinesIn (ns : String) (machines : List Machine) : List Machine :=
  machines.filter (·.key.namespace = ns)

def migrationsIn (ns : String) (migrations : List MachineMigration) : List MachineMigration :=
  migrations.filter (·.key.namespace = ns)

variable (ceil budgets machines migrations) in
/-- The webhook's answer to a new migration of the Machine `k`, where the lists do not fail. -/
def webhook (k : ObjectKey) : Admission :=
  validateMachineMigration ceil (.ok (budgetsIn k.namespace budgets))
    (.ok (machinesIn k.namespace machines)) (.ok (migrationsIn k.namespace migrations)) k.name

variable (ceil budgets machines migrations) in
/-- Every budget of the Machine's namespace permits it, by the objects of the namespace. -/
def permittedIn (m : Machine) : Bool :=
  (budgetsIn m.key.namespace budgets).all (·.permits ceil
    (machinesIn m.key.namespace machines) (migrationsIn m.key.namespace migrations) m)

theorem webhook_allow_iff {w : Table Machine.key} (hm : m ∈ w.rows) :
    webhook ceil budgets w.rows migrations m.key = .allow ↔
      permittedIn ceil budgets w.rows migrations m = true := by
  have hfind : (machinesIn m.key.namespace w.rows).find? (fun x => x.key.name = m.key.name) =
      some m := by
    rw [machinesIn, List.find?_filter, ← Table.find_eq_some_iff.mpr ⟨hm, rfl⟩, Table.find]
    congr 1
    funext x
    generalize x.key = k
    generalize m.key = k'
    cases k
    cases k'
    simp
  unfold permittedIn webhook validateMachineMigration
  rw [← admits_iff_permits]
  cases hb : budgetsIn m.key.namespace budgets with
  | nil => exact iff_of_true rfl (admits_iff_permits.mpr rfl)
  | cons b budgets =>
    simp only [hfind, Admits]
    cases loadBudgetStates ceil (machinesIn m.key.namespace w.rows)
        (migrationsIn m.key.namespace migrations) (b :: budgets) with
    | error e => simp
    | ok states => cases hadm : admitDisruption states m <;> simp [hadm]

/-! ### What other namespaces count for -/

variable (ceil migrations) in
/-- The budget can be read, and has a disruption left for the Machine if it selects it, by the
Machines `own` and others. -/
def MachineDisruptionBudget.leaves (own others : List Machine) (b : MachineDisruptionBudget)
    (m : Machine) : Bool :=
  let healthy (ms : List Machine) : Int := ms.countP fun x => b.selects x && isHealthy migrations x
  match b.spec.desiredHealthy ceil (own.countP b.selects + others.countP b.selects) with
  | .error _ => false
  | .ok desired => !b.selects m || desired < healthy own + healthy others

theorem isHealthy_migrationsIn {ns : String} (hm : m.key.namespace = ns) :
    isHealthy (migrationsIn ns migrations) m = isHealthy migrations m := by
  rw [isHealthy, isHealthy, inFlight, inFlight, migrationsIn, any_filter]
  congr 3
  funext g
  by_cases hkey : g.machineKey = m.key
  · have : g.key.namespace = ns := by
      rw [← hm, ← hkey]
      rfl
    simp [this]
  · simp [hkey]

theorem permits_eq_leaves {own others : List Machine} {seen : List MachineMigration}
    (hsplit : ∀ p : Machine → Bool, machines.countP p = own.countP p + others.countP p)
    (hseen : ∀ x ∈ machines, isHealthy seen x = isHealthy migrations x) :
    b.permits ceil machines seen m = b.leaves ceil migrations own others m := by
  have hhealthy : ((machines.filter b.selects).filter (isHealthy seen)).length =
      machines.countP fun x => b.selects x && isHealthy migrations x := by
    rw [filter_filter, ← countP_eq_length_filter]
    refine countP_congr fun x hx => ?_
    rw [hseen x hx, Bool.and_comm]
  rw [MachineDisruptionBudget.permits, loadBudgetState, hhealthy, ← countP_eq_length_filter, hsplit,
    hsplit, MachineDisruptionBudget.leaves]
  push_cast
  cases b.spec.desiredHealthy ceil (own.countP b.selects + others.countP b.selects) with
  | error e => rfl
  | ok desired =>
    simp only
    congr 1
    simp

/-- The webhook decides on a Machine as the controller does, exactly when: if its namespace permits
the disruption, the other namespaces' Machines leave each of its budgets one and no budget of
another namespace stands against it; and if its namespace does not, one of its budgets still has
none with the other namespaces' Machines, or a budget of another namespace stands against it. -/
theorem decisions_agree_iff {w : Table Machine.key} (hm : m ∈ w.rows) :
    let own := machinesIn m.key.namespace w.rows
    let others := w.rows.filter (·.key.namespace ≠ m.key.namespace)
    (webhook ceil budgets w.rows migrations m.key = .allow ↔
        Admits ceil budgets w.rows migrations m) ↔
      if ∀ b ∈ budgetsIn m.key.namespace budgets, b.leaves ceil migrations own [] m then
        (∀ b ∈ budgetsIn m.key.namespace budgets, b.leaves ceil migrations own others m) ∧
          ∀ b ∈ budgets, b.namespace ≠ m.key.namespace → b.leaves ceil migrations own others m
      else (∃ b ∈ budgetsIn m.key.namespace budgets, ¬ b.leaves ceil migrations own others m) ∨
        ∃ b ∈ budgets, b.namespace ≠ m.key.namespace ∧ ¬ b.leaves ceil migrations own others m := by
  intro own others
  have hown (b : MachineDisruptionBudget) : b.permits ceil own
      (migrationsIn m.key.namespace migrations) m = b.leaves ceil migrations own [] m :=
    permits_eq_leaves (fun _ => rfl) fun x hx =>
      isHealthy_migrationsIn (of_decide_eq_true (mem_filter.mp hx).2)
  have hall (b : MachineDisruptionBudget) : b.permits ceil w.rows migrations m =
      b.leaves ceil migrations own others m :=
    permits_eq_leaves (fun p => by
      rw [countP_eq_countP_filter_add w.rows p (·.key.namespace = m.key.namespace)]
      simp [own, others, machinesIn]) fun _ _ => rfl
  rw [webhook_allow_iff hm, admits_iff_permits]
  change (((budgetsIn _ _).all fun b => b.permits ceil own _ m) = true ↔ _) ↔ _
  simp only [hown, hall, all_eq_true]
  have hsplit : (∀ b ∈ budgets, b.leaves ceil migrations own others m) ↔
      (∀ b ∈ budgetsIn m.key.namespace budgets, b.leaves ceil migrations own others m) ∧
        ∀ b ∈ budgets, b.namespace ≠ m.key.namespace → b.leaves ceil migrations own others m := by
    simp only [budgetsIn, mem_filter, decide_eq_true_eq, and_imp, ← forall₂_and]
    exact forall₂_congr fun b _ => by by_cases h : b.namespace = m.key.namespace <;> simp [h]
  split
  · next h => rw [hsplit, iff_true_left h]
  · next h =>
    rw [hsplit, iff_false_left h, not_and_or]
    simp only [not_forall, exists_prop]

def webOnly : Table Machine.key := ⟨[webMachine "web-a" "node-1" []], by decide⟩

theorem web_decided_alike :
    webhook roundUp [webTier] webOnly.rows [] (webMachine "web-a" "node-1" []).key = .allow ↔
      Admits roundUp [webTier] webOnly.rows [] (webMachine "web-a" "node-1" []) :=
  (decisions_agree_iff mem_cons_self).mpr (by decide +kernel)

/-- The budget's one Machine must stay. The controller would disrupt it, as it counts a Machine of
another namespace with the same label. -/
theorem foreign_machine_counted : let own := webMachine "web-a" "node-1" []
    let foreign := { own with metadata := { own.metadata with «namespace» := "other" } }
    webhook roundUp [webTier] [own, foreign] [] own.key ≠ .allow ∧
      Admits roundUp [webTier] [own, foreign] [] own := by
  refine ⟨by decide +kernel, admits_iff_permits.mpr ?_⟩
  decide +kernel

/-! ## Migrations created one after the other -/

theorem loadBudgetState_congr {migrations' : List MachineMigration}
    (h : inFlight migrations = inFlight migrations') : loadBudgetState ceil machines migrations =
      loadBudgetState ceil machines migrations' := by
  have hhealthy : isHealthy migrations = isHealthy migrations' := by
    funext m
    rw [isHealthy, isHealthy, h]
  funext b
  rw [loadBudgetState, loadBudgetState, hhealthy]

theorem webhook_cons {g : MachineMigration} (hg : g.status.phase = .unset) (k : ObjectKey) :
    webhook ceil budgets machines (g :: migrations) k =
      webhook ceil budgets machines migrations k := by
  have hflight : inFlight (migrationsIn k.namespace (g :: migrations)) =
      inFlight (migrationsIn k.namespace migrations) := by
    funext key
    unfold migrationsIn
    rw [filter_cons]
    split
    · rw [inFlight, any_cons, hg]
      rfl
    · rfl
  unfold webhook validateMachineMigration loadBudgetStates
  simp only [loadBudgetState_congr hflight]

variable (ceil budgets machines) in
/-- The requests that the webhook admits. Each is stored before the next one comes. -/
def created : (stored requests : List MachineMigration) → List MachineMigration
  | _, [] => []
  | stored, g :: requests =>
    if webhook ceil budgets machines stored g.machineKey = .allow then
      g :: created (g :: stored) requests
    else created stored requests

theorem created_eq_filter {requests : List MachineMigration}
    (hfresh : ∀ g ∈ requests, g.status.phase = .unset) :
    created ceil budgets machines migrations requests = requests.filter fun g =>
        webhook ceil budgets machines migrations g.machineKey = .allow := by
  induction requests generalizing migrations with
  | nil => rfl
  | cons g requests ih =>
    obtain ⟨hg, hfresh⟩ := forall_mem_cons.mp hfresh
    rw [created, filter_cons, ih hfresh, ih hfresh]
    simp only [webhook_cons hg, decide_eq_true_eq]

variable (ceil budgets migrations) in
theorem created_any {w : Table Machine.key} {requests : List MachineMigration}
    (hfresh : ∀ g ∈ requests, g.status.phase = .unset) (hm : m ∈ w.rows) :
    (created ceil budgets w.rows migrations requests).any (·.machineKey == m.key) =
      (requests.any (·.machineKey == m.key) &&
        permittedIn ceil budgets w.rows migrations m) := by
  rw [Bool.eq_iff_iff, created_eq_filter hfresh, Bool.and_eq_true, ← webhook_allow_iff hm]
  simp only [any_eq_true, mem_filter, decide_eq_true_eq, beq_iff_eq]
  constructor
  · rintro ⟨g, ⟨hg, hallow⟩, hkey⟩
    exact ⟨⟨g, hg, hkey⟩, hkey ▸ hallow⟩
  · rintro ⟨⟨g, hg, hkey⟩, hallow⟩
    exact ⟨g, ⟨hg, hkey ▸ hallow⟩, hkey⟩

/-- How many running Machines of a budget pass `p`. -/
def runningOf (b : MachineDisruptionBudget) (machines : List Machine) (p : Machine → Bool) : Nat :=
  machines.countP fun m => b.selects m && m.status.phase == "Running" && p m

theorem runningOf_congr {p q : Machine → Bool} (h : ∀ m ∈ machines, p m = q m) :
    runningOf b machines p = runningOf b machines q :=
  countP_congr fun m hm => by rw [h m hm]

/-- The Machines of a budget's namespace for which a migration was created are within its allowance
exactly when those are that were asked for and are permitted at the start. -/
theorem created_within_iff {w : Table Machine.key} {requests : List MachineMigration}
    (hfresh : ∀ g ∈ requests, g.status.phase = .unset) :
    ∀ b ∈ budgets, ∀ st, loadBudgetState ceil (machinesIn b.namespace w.rows)
        (migrationsIn b.namespace migrations) b = .ok st →
      ((runningOf b (machinesIn b.namespace w.rows) fun m =>
          (created ceil budgets w.rows migrations requests).any (·.machineKey == m.key) : Int) ≤
            st.allowed ↔
        (runningOf b (machinesIn b.namespace w.rows) fun m =>
          requests.any (·.machineKey == m.key) && permittedIn ceil budgets w.rows migrations m :
            Int) ≤ st.allowed) := by
  intro b _ st _
  have hany (m : Machine) (hm : m ∈ machinesIn b.namespace w.rows) :=
    created_any ceil budgets migrations hfresh (mem_filter.mp hm).1
  rw [runningOf_congr hany]

theorem one_created : (runningOf webTier (machinesIn "default" webMachines) fun m =>
      (created roundUp [webTier] webMachines [] [plainMigration "a" "web-a" .unset]).any
        (·.machineKey == m.key) : Int) ≤ 1 := by
  have hload : loadBudgetState roundUp (machinesIn "default" webMachines)
      (migrationsIn "default" []) webTier = .ok ⟨webTier, 2, 2, 1, 1⟩ := by decide +kernel
  refine (created_within_iff (w := ⟨webMachines, by decide⟩) ?_ webTier mem_cons_self _
    hload).mpr ?_
  · decide
  · decide +kernel

/-- The budget allows one disruption, and two migrations are created. -/
theorem created_beyond : (runningOf webTier (machinesIn "default" webMachines) fun m =>
      (created roundUp [webTier] webMachines []
        [plainMigration "a" "web-a" .unset, plainMigration "b" "web-b" .unset]).any
          (·.machineKey == m.key)) = 2 := by
  decide +kernel

end Kairon.Controller
