import Kairon.Agent.TickRule
import Kairon.Controller.Rule

/-!
# The control plane

The controller and the agents of all nodes as concurrent processes over one API server. A process
may be stopped anywhere and started again; a new tick may come with another configuration.
-/

namespace Kairon

open Infra Model Cluster Option

inductive Process where
  | controller
  | agent (node : String)
  deriving DecidableEq

def Rule : Process → History → ClusterOp → Prop
  | .controller => Controller.ControllerRule
  | .agent node => Agent.AgentRule node

def Ends : Process → History → GoErr → Prop
  | .controller => Anyhow
  | .agent _ => fun h _ => ∀ k, pending k h = false

def clusterHost (runs : Process → Prop) (env : Store → Store → Prop) :
    Host ClusterOp.Ans GoErr Process Store where
  outcomes _ := outcomes
  start
    | .controller, p => runs .controller ∧ ∃ c, p = Controller.reconcile c
    | .agent node, p => runs (.agent node) ∧ ∃ a, a.nodeName = node ∧ p = Agent.reconcile a
  env := env
  crash := True

abbrev ClusterConf := Conf ClusterOp.Ans GoErr Process Store

abbrev ClusterLabel := Label ClusterOp.Ans GoErr Process Store

variable {runs : Process → Prop} {env : Store → Store → Prop}

theorem follows_of_start (t : Process) (p : M GoErr) (h : (clusterHost runs env).start t p) :
    p.Follows (fun h e => runs t ∧ Rule t h e) (Ends t) [] := by
  cases t with
  | controller =>
    obtain ⟨hruns, c, rfl⟩ := h
    exact (Controller.reconcile_follows c).mono (fun _ _ he => ⟨hruns, he⟩) fun _ _ h => h
  | agent node =>
    obtain ⟨hruns, a, rfl, rfl⟩ := h
    exact (Agent.reconcile_follows a).mono (fun _ _ he => ⟨hruns, he⟩) fun _ _ h => h

theorem solo_of_start {t₀ : Process} (t : Process) (p : M GoErr)
    (h : (clusterHost (· = t₀) env).start t p) :
    p.Follows (fun h e => t = t₀ ∧ Rule t₀ h e) (Ends t) [] :=
  (follows_of_start t p h).mono (fun _ _ he => ⟨he.1, he.1 ▸ he.2⟩) fun _ _ h => h

theorem solo_run {t₀ : Process} {G : Guard ClusterOp.Ans GoErr Process Store}
    {J : Store → Option History → Prop}
    (hJ : Solo (clusterHost (· = t₀) env) t₀ (Rule t₀) (Ends t₀) G J) {tr : List ClusterLabel}
    {c c' : ClusterConf} (h : Run (clusterHost (· = t₀) env) G c tr c')
    (hf : c.Follows (fun t h e => t = t₀ ∧ Rule t₀ h e) Ends) (hc : J c.world (c.past t₀)) :
    J c'.world (c'.past t₀) :=
  hJ.inductive.run solo_of_start h hf hc

/-! ## What a call does to the stored migrations -/

variable {w w' : Store} {e : ClusterOp} {a : e.Ans} {k : ObjectKey}

theorem find_write_status (w : Store) (k k' : ObjectKey) (s : MachineMigrationStatus) :
    (w.write (.migrationStatus k s)).migrations.find k' =
      if k' = k then (w.migrations.find k').map (·.patchStatus s) else w.migrations.find k' :=
  Table.find_edit w.migrations k k' (·.patchStatus s) fun _ => rfl

theorem status_eq_of_write {x : Write} (hx : ∀ s, x ≠ .migrationStatus k s) :
    ((w.write x).migrations.find k).map MachineMigration.status =
      (w.migrations.find k).map MachineMigration.status := by
  cases x with
  | machine | machineStatus => rfl
  | migration k' p =>
    rw [Store.write, Table.find_edit]
    split
    · rw [map_map]
      rfl
    · rfl
  | migrationStatus k' s =>
    rw [find_write_status, if_neg]
    rintro rfl
    exact hx s rfl

theorem status_eq_of_call (hw : w' ∈ outcomes w e a) (he : writesStatusOf k ⟨e, a⟩ = false) :
    (w'.migrations.find k).map MachineMigration.status =
      (w.migrations.find k).map MachineMigration.status := by
  rcases (mem_outcomes_iff.mp hw).2 with ⟨rfl, -⟩ | ⟨x, hx, rfl⟩
  · rfl
  · refine status_eq_of_write ?_
    rintro s rfl
    cases e with
    | patchMachineMigrationStatus site item s' =>
      cases hx
      simp [writesStatusOf] at he
    | _ => cases hx

theorem phase_eq_of_status {w w' : Store}
    (h : (w'.migrations.find k).map MachineMigration.status =
      (w.migrations.find k).map MachineMigration.status) : w'.phase k = w.phase k := by
  have := congrArg (Option.map MachineMigrationStatus.phase) h
  rwa [map_map, map_map] at this

theorem phase_eq_of_call (hw : w' ∈ outcomes w e a) (he : writesStatusOf k ⟨e, a⟩ = false) :
    w'.phase k = w.phase k :=
  phase_eq_of_status (status_eq_of_call hw he)

theorem phase_of_write {site : Site} {item : MachineMigration} {s : MachineMigrationStatus}
    {a : (ClusterOp.patchMachineMigrationStatus site item s).Ans}
    (hw : w' ∈ outcomes w (.patchMachineMigrationStatus site item s) a) :
    (w'.phase item.key = w.phase item.key ∧ failed _ a = true) ∨
      w'.phase item.key = (w.phase item.key).map (·.patch s.phase) := by
  rcases (mem_outcomes_iff.mp hw).2 with ⟨rfl, h⟩ | ⟨x, hx, rfl⟩
  · exact .inl ⟨rfl, h.resolve_left nofun⟩
  · cases hx
    refine .inr ?_
    rw [Store.phase, find_write_status, if_pos rfl, Store.phase, map_map, map_map]
    rfl

theorem listed_call {h : History} (hw : w' ∈ outcomes w e a) : listed (⟨e, a⟩ :: h) = listed h ∨
      w' = w ∧ ((listed (⟨e, a⟩ :: h)).map MachineMigration.key).Nodup ∧
        ∀ item ∈ listed (⟨e, a⟩ :: h), w.migrations.find item.key = some item := by
  obtain ⟨ha, hw⟩ := mem_outcomes_iff.mp hw
  cases e with
  | listMachineMigrations =>
    cases a with
    | error e => exact .inl rfl
    | ok gs =>
      have ha : gs.isPerm (w.migrations.rows.filter fun _ => true) = true := by
        rwa [List.filter_true]
      exact .inr ⟨(hw.resolve_right fun ⟨x, hx, _⟩ => by cases hx).1, nodup_of_listed ha,
        fun item hi => mem_of_listed ha hi⟩
  | listMachineMigrationsWithSelector node =>
    cases a with
    | error e => exact .inl rfl
    | ok gs =>
      exact .inr ⟨(hw.resolve_right fun ⟨x, hx, _⟩ => by cases hx).1, nodup_of_listed ha,
        fun item hi => mem_of_listed ha hi⟩
  | _ => exact .inl rfl

/-! ## Changes from outside -/

/-- What users do to migrations: they create them and edit their specs and labels, but do not
write statuses. -/
def KeepsStatus (w w' : Store) : Prop :=
  ∀ k g, w.migrations.find k = some g → ∃ g', w'.migrations.find k = some g' ∧ g'.status = g.status

theorem KeepsStatus.phase_eq (h : KeepsStatus w w') {p : MigrationPhase}
    (hp : w.phase k = some p) : w'.phase k = some p := by
  obtain ⟨g, hg, rfl⟩ := map_eq_some_iff.mp hp
  obtain ⟨g', hg', hs⟩ := h k g hg
  exact map_eq_some_iff.mpr ⟨g', hg', by rw [hs]⟩

end Kairon
