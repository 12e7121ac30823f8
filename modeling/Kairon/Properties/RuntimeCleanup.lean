import Kairon.Agent.Node
import Kairon.Controller.Reconcile

/-!
# Runtimes of deleted Machines

When the agent takes its finalizer off a Machine that is being deleted, the runtime named in the
status of the Machine is gone. A runtime that was created but never made it into the status is not
looked for.

* `accounted_solo`: created runtimes and recorded ones
* `gone_when_recorded`: what a finished deletion leaves
* `deletion_goes_on_iff`: which migrations hold a deletion up
-/

namespace Kairon.Agent

open Infra Model Cluster List Host

abbrev NodeConf := Conf ClusterOp.Ans GoErr Unit NodeWorld

abbrev NodeLabel := Label ClusterOp.Ans GoErr Unit NodeWorld

/-- Where a tick lists a Machine that is being deleted, every runtime that was created for it and is
still there is the one that the status of the Machine names. -/
def Recorded : Guard ClusterOp.Ans GoErr Unit NodeWorld := fun c l =>
  match l with
  | .call _ ⟨.listMachinesWithSelector _, .ok ms⟩ =>
    ∀ m ∈ ms, m.metadata.deleting = true →
      ∀ id, (id, m.key) ∈ c.world.runtimes → id = m.status.runtimeID
  | _ => True

structure Accounted (w : NodeWorld) (h : History) : Prop where
  distinct : ∀ m ∈ machinesSeen h, ∀ m' ∈ machinesSeen h, m.key = m'.key → m = m'
  named : ∀ m ∈ machinesSeen h, m.metadata.deleting = true → ∀ id, (id, m.key) ∈ w.runtimes →
    id = m.status.runtimeID ∧ ∀ ev ∈ h, deletes id ev = false

variable {w w' : NodeWorld} {h : History} {k : ObjectKey}

theorem Accounted.nil (w : NodeWorld) : Accounted w [] :=
  ⟨fun _ hm => (not_mem_nil hm).elim, fun _ hm => (not_mem_nil hm).elim⟩

theorem Accounted.env (hc : Accounted w h) (hw : w'.runtimes ⊆ w.runtimes) : Accounted w' h :=
  ⟨hc.distinct, fun m hm hdel id hid => hc.named m hm hdel id (hw hid)⟩

theorem Accounted.call {e : ClusterOp} {a : e.Ans} (hc : Accounted w h) (he : RuntimeRule h e)
    (hseen : machinesSeen (⟨e, a⟩ :: h) = machinesSeen h) (hw : w' ∈ nodeOutcomes w e a) :
    Accounted w' (⟨e, a⟩ :: h) := by
  refine ⟨by rw [hseen]; exact hc.distinct, ?_⟩
  rw [hseen]
  intro m hm hdel id hid
  rcases mem_of_call hw hid with ⟨hown, hd⟩ | ⟨x, call, rfl, hup, hk⟩
  · obtain ⟨hid, hno⟩ := hc.named m hm hdel id hown
    exact ⟨hid, forall_mem_cons.mpr ⟨hd, hno⟩⟩
  · -- nothing is brought up for a Machine that is being deleted
    obtain ⟨y, hy, hyx, hlive⟩ := he hup
    cases hyx
    obtain rfl := hc.distinct x hy m hm hk
    simp [hlive] at hdel

theorem Accounted.listing {node : String} {ms : List Machine}
    (hG : ∀ m ∈ ms, m.metadata.deleting = true →
      ∀ id, (id, m.key) ∈ w.runtimes → id = m.status.runtimeID)
    (hw : w' ∈ nodeOutcomes w (.listMachinesWithSelector node) (.ok ms)) :
    Accounted w' [⟨.listMachinesWithSelector node, .ok ms⟩] := by
  obtain ⟨store, hstore, rfl⟩ := mem_map.mp hw
  have hperm : ms.isPerm (w.store.machines.rows.filter _) = true := (mem_outcomes_iff.mp hstore).1
  constructor
  · have hnodup : (ms.map Machine.key).Nodup := by
      refine ((isPerm_iff.mp hperm).map Machine.key).nodup_iff.mpr ?_
      exact w.store.machines.distinct.sublist (filter_sublist.map _)
    intro m hm m' hm' hk
    exact inj_on_of_nodup_map hnodup hm hm' hk
  · intro m hm hdel id hid
    refine ⟨hG m hm hdel id hid, fun ev hev => ?_⟩
    rw [mem_singleton.mp hev]
    rfl

theorem accounted_solo (node : String) : Solo (nodeHost node) () RuntimeRule Anyhow Recorded
      fun w past => ∀ h, past = some h → Accounted w h where
  start := by
    intro w _ h hh
    cases hh
    exact .nil w
  call := by
    rintro c e a w past hJ - he hG hw h hh
    cases hh
    have hc := hJ past rfl
    cases e with
    | listMachinesWithSelector n =>
      obtain rfl : past = [] := he
      cases a with
      | error e => exact hc.call rfl rfl hw
      | ok ms => exact .listing hG hw
    | _ => exact hc.call he rfl hw
  stop := nofun
  crash := nofun
  env := fun hJ hw _ h hh => (hJ h hh).env hw

/-! ## The finalizer -/

theorem patch_of_released_write {w : Store} {x : Write}
    (hheld : (w.machines.find k).any Machine.hasFinalizer = true)
    (hgone : ((w.write x).machines.find k).any Machine.hasFinalizer = false) :
    ∃ p fs, x = .machine k p ∧ p.finalizers = some fs ∧ runtimeFinalizer ∉ fs := by
  obtain ⟨m, hm⟩ : ∃ m, w.machines.find k = some m := by
    cases hf : w.machines.find k with
    | none => simp [hf] at hheld
    | some m => exact ⟨m, rfl⟩
  have hfin : m.hasFinalizer = true := by simpa [hm] using hheld
  cases x with
  | machine k' p =>
    rw [Store.write, Table.find_edit] at hgone
    split at hgone
    · next hk =>
      subst hk
      have hgone : (m.patch p).hasFinalizer = false := by simpa [hm] using hgone
      cases hp : p.finalizers with
      | none =>
        have same : (m.patch p).hasFinalizer = m.hasFinalizer := by
          simp [Machine.hasFinalizer, Machine.patch, hp]
        simp [same, hfin] at hgone
      | some fs =>
        refine ⟨p, fs, rfl, hp, ?_⟩
        simpa [Machine.hasFinalizer, Machine.patch, hp] using hgone
    · simp [hheld] at hgone
  | machineStatus k' s =>
    rw [Store.write, Table.find_edit, hm] at hgone
    have same : (m.patchStatus s).hasFinalizer = m.hasFinalizer := rfl
    split at hgone <;> simp [same, hfin] at hgone
  | migration | migrationStatus =>
    simp [Store.write, hheld] at hgone

theorem patch_of_released {e : ClusterOp} {a : e.Ans} (hw : w' ∈ nodeOutcomes w e a)
    (hheld : w.held k = true) (hgone : w'.held k = false) :
    ∃ site p fs, e = .patchMachine site k p ∧ p.finalizers = some fs ∧ runtimeFinalizer ∉ fs := by
  rcases (mem_outcomes_iff.mp (store_of_call hw)).2 with ⟨hsame, -⟩ | ⟨x, hx, hwrite⟩
  · rw [NodeWorld.held, hsame] at hgone
    exact absurd (hheld.symm.trans hgone) (by decide)
  · rw [NodeWorld.held, hwrite] at hgone
    obtain ⟨p, fs, rfl, hp, hfs⟩ := patch_of_released_write hheld hgone
    cases e with
    | patchMachine site k' p' =>
      cases hx
      exact ⟨site, p, fs, rfl, hp, hfs⟩
    | _ => cases hx

/-- In every run in which the listed deletions name their runtimes, no runtime that was created for
a Machine is left when the agent takes the finalizer off it. -/
theorem gone_when_recorded (node : String) (w₀ : NodeWorld) {tr : List NodeLabel} {c c' : NodeConf}
    {ev : Event ClusterOp.Ans} {k : ObjectKey} (hrun : Run (nodeHost node) Recorded (.idle w₀) tr c)
    (hstep : Step (nodeHost node) c (.call () ev) c') (hheld : c.world.held k = true)
    (hgone : c'.world.held k = false) : ∀ id, (id, k) ∉ c'.world.runtimes := by
  have started : ∀ t p, (nodeHost node).start t p →
      p.Follows (fun h e => t = () ∧ RuntimeRule h e) Anyhow [] := by
    rintro t p ⟨a, -, rfl⟩
    exact (reconcile_tends a).mono (fun _ _ he => ⟨rfl, he⟩) fun _ _ h => h
  have hfollows := hrun.follows started (Conf.follows_idle _ _ w₀)
  have hacc := (accounted_solo node).inductive.run started hrun (Conf.follows_idle _ _ w₀) nofun
  intro id hid
  cases hstep with
  | @call _ e _ past a w at_call out =>
    obtain ⟨site, p, fs, rfl, hp, hfs⟩ := patch_of_released out hheld hgone
    obtain ⟨m, hm, rfl, hdel, hcleared⟩ := ((hfollows _ _ at_call).1).2 fs hp hfs
    have hout : w ∈ nodeOutcomes c.world (.patchMachine site m.key p) a := out
    have hc : Accounted c.world past := hacc past (by simp [Conf.past, at_call])
    have hown : (id, m.key) ∈ c.world.runtimes := by
      rcases mem_of_call hout hid with ⟨hown, -⟩ | ⟨_, _, he, _⟩
      · exact hown
      · cases he
    obtain ⟨rfl, hno⟩ := hc.named m hm hdel id hown
    rcases hcleared with hempty | hdeleted
    · exact c.world.named _ hown hempty
    · have := hno _ hdeleted
      simp [deletes] at this

/-! ## A runtime that is not recorded -/

def guest : Machine := plainMachine "vm" "node-a" twoCores

def emptyNode : NodeWorld where
  store := storeOf [guest] []
  runtimes := []
  named := forall_mem_nil _

def markDeleted (w : NodeWorld) : NodeWorld where
  store := { w.store with
    machines := w.store.machines.edit guest.key
      (fun m => { m with metadata := { m.metadata with deleting := true } }) fun _ => rfl }
  runtimes := w.runtimes
  named := w.named

def serving (w : NodeWorld) : (e : ClusterOp) → e.Ans
  | .flux _ (.lookupByName _) =>
    if w.runtimes = [] then .ok none else .ok (some (plainRecord "running"))
  | e => works w.store e

def refusing (w : NodeWorld) : (e : ClusterOp) → e.Ans := unreachable w.store

abbrev NodeMove := Move ClusterOp.Ans GoErr Unit NodeWorld

def tick (answers : List (NodeWorld → (e : ClusterOp) → e.Ans)) : List NodeMove :=
  .start () (reconcile ⟨"node-a", true, true, id⟩) :: answers.map fun answer => .call () answer 0

def unrecorded : List NodeMove :=
  tick (List.replicate 14 serving ++ List.replicate 3 refusing ++ List.replicate 5 serving) ++
    [.stop ()]

def recorded : List NodeMove := tick (List.replicate 20 serving) ++ [.stop ()]

def deletion (first : List NodeMove) (n : Nat) : List NodeMove :=
  first ++ .env markDeleted :: tick (List.replicate n serving)

/-- Neither the patch of the status nor that of the error branch gets through after the runtime was
created. The Machine is deleted: its finalizer is taken off, and the runtime stays. -/
theorem finalizer_outlived :
    ∃ tr c ev c', Run (nodeHost "node-a") (fun _ _ => True) (.idle emptyNode) tr c ∧
      Step (nodeHost "node-a") c (.call () ev) c' ∧ c.world.held guest.key = true ∧
      c'.world.held guest.key = false ∧ ("r-1", guest.key) ∈ c'.world.runtimes := by
  have may : (nodeHost "node-a").Allows (deletion unrecorded 5) :=
    ⟨⟨_, rfl, rfl⟩, fun _ => List.Subset.refl _, ⟨_, rfl, rfl⟩⟩
  exact ⟨_, _, _, _, run_of_play may rfl, step_of_move () serving 0 rfl, rfl, rfl, .head _⟩

def recordedTest (c : NodeConf) (l : NodeLabel) : Bool :=
  match l with
  | .call _ ⟨.listMachinesWithSelector _, .ok ms⟩ =>
    ms.all fun m => !m.metadata.deleting ||
      c.world.runtimes.all fun r => r.2 != m.key || r.1 == m.status.runtimeID
  | _ => true

theorem recorded_of_test (c : NodeConf) (l : NodeLabel) (h : recordedTest c l = true) :
    Recorded c l := by
  unfold Recorded
  split
  · next ms =>
    intro m hm hdel id hid
    have hall := all_eq_true.mp h m hm
    rw [hdel] at hall
    have hone := all_eq_true.mp hall _ hid
    simpa using hone
  · trivial

theorem gone_when_recorded_deletion :
    ∃ tr c ev c', Run (nodeHost "node-a") Recorded (.idle emptyNode) tr c ∧
      Step (nodeHost "node-a") c (.call () ev) c' ∧ c.world.held guest.key = true ∧
      c'.world.held guest.key = false ∧ ∀ id, (id, guest.key) ∉ c'.world.runtimes := by
  have may : (nodeHost "node-a").Allows (deletion recorded 6) :=
    ⟨⟨_, rfl, rfl⟩, fun _ => List.Subset.refl _, ⟨_, rfl, rfl⟩⟩
  have run := play_sound recorded_of_test (c := .idle emptyNode) may rfl
  exact ⟨_, _, _, _, run, step_of_move () serving 0 rfl, rfl, rfl,
    gone_when_recorded "node-a" emptyNode run (step_of_move () serving 0 rfl) rfl rfl⟩

/-!
## Migrations that hold up a deletion

The agent deletes the runtime of a Machine only when no migration of it is in flight. It goes by a
list of terminal phases of its own, and `Cancelled`, which nothing ever leaves, is not on it.
-/

/-- A migration in this phase is passed over by the controller and by every agent. -/
def Finished (phase : MigrationPhase) : Prop :=
  ∀ g : MachineMigration, g.status.phase = phase →
    (∀ c machines nodes load, Controller.migrationTick c machines nodes load g = .ret load) ∧
      ∀ a, migrationTick a g = .ret ()

theorem finished_of_mem {phase : MigrationPhase}
    (h : phase ∈ [.succeeded, .failed, .blocked, .cancelled]) : Finished phase := by
  rintro g rfl
  -- in each of the four phases both ticks return before their first call
  have hret : ∀ a, reconcileMigration a g = .ret (.ok ()) := by
    intro a
    unfold reconcileMigration
    rw [if_neg, if_pos]
    · constructor <;> rintro heq <;> simp [heq] at h
    · rintro heq
      simp [heq] at h
  refine ⟨fun c machines nodes load => ?_, fun a => ?_⟩
  · have hskip : Controller.reconcileMigration c g machines nodes load = .ret (load, .ok ()) := by
      simp only [List.mem_cons, List.not_mem_nil, or_false] at h
      unfold Controller.reconcileMigration
      rcases h with h | h | h | h <;> rw [h]
    rw [Controller.migrationTick, hskip]
    rfl
  · unfold migrationTick
    rw [hret]
    split <;> rfl

theorem finished_iff (phase : MigrationPhase) :
    Finished phase ↔ phase ∈ [.succeeded, .failed, .blocked, .cancelled] := by
  refine ⟨fun h => ?_, finished_of_mem⟩
  -- a migration that names no Machine is reported in every other phase
  obtain ⟨hcontroller, hagent⟩ := h (plainMigration "mig" "" phase) rfl
  have hcontroller := hcontroller ⟨0, 0, fun _ => .ok 0⟩ [] [] (.new [])
  have hagent := hagent ⟨"node-a", false, false, id⟩
  cases phase with
  | succeeded | failed | blocked | cancelled => simp
  | needsRecovery => cases hagent
  | _ => cases hcontroller

variable {a : Config} {m : Machine} {migrations : List MachineMigration}

/-- The deletion of `m` goes on after the migrations of its namespace were listed. -/
def GoesOn (a : Config) (m : Machine) (migrations : List MachineMigration) : Prop :=
  (reconcileMachine a m).Becomes [⟨.listMachineMigrationsNamespace m.key.namespace, .ok migrations⟩]
    (cleanup m)

theorem cleanup_ne_ret (m : Machine) (r : GoErr) : cleanup m ≠ .ret r := by
  unfold cleanup
  split <;> exact nofun

theorem goesOn_iff (hdel : m.metadata.deleting = true) :
    GoesOn a m migrations ↔ ∀ g ∈ migrations, g.spec.machineName = m.metadata.name →
      g.status.phase.isNonTerminal = false := by
  have hflight : (migrations.any fun g =>
      g.spec.machineName == m.metadata.name && g.status.phase.isNonTerminal) = false ↔
      ∀ g ∈ migrations, g.spec.machineName = m.metadata.name →
        g.status.phase.isNonTerminal = false := by
    simp
  rw [← hflight, GoesOn, reconcileMachine, if_pos hdel]
  refine Prog.call_becomes_iff.trans ?_
  -- the answer decides between the refusal, which returns, and `cleanup`, which first makes a call
  dsimp only [Prog.bind, Except.mapError]
  cases migrations.any _ <;> simp [cleanup_ne_ret]

/-- Once every migration of a deleting Machine is finished, its deletion goes on exactly when none
of them is `Cancelled`. -/
theorem deletion_goes_on_iff (hdel : m.metadata.deleting = true)
    (hfinished : ∀ g ∈ migrations, g.spec.machineName = m.metadata.name → Finished g.status.phase) :
    GoesOn a m migrations ↔ ∀ g ∈ migrations, g.spec.machineName = m.metadata.name →
      g.status.phase ≠ .cancelled := by
  rw [goesOn_iff hdel]
  refine forall_congr' fun g => forall_congr' fun hg => forall_congr' fun hname => ?_
  have hphase := (finished_iff _).mp (hfinished g hg hname)
  cases hg : g.status.phase <;> simp [hg, MigrationPhase.isNonTerminal] at hphase ⊢

/-- A Machine that is to be deleted. -/
def leaving : Machine :=
  { plainMachine "vm" "node-a" twoCores with
    metadata := { plainMeta "vm" [] with deleting := true } }

theorem goes_on_after_success :
    GoesOn ⟨"node-a", false, false, id⟩ leaving [plainMigration "mig" "vm" .succeeded] := by
  have hphase : (plainMigration "mig" "vm" .succeeded).status.phase = .succeeded := rfl
  exact (deletion_goes_on_iff rfl (by simpa [hphase] using fun _ => finished_of_mem (by simp))).mpr
    (by simp [hphase])

/-- A Machine whose only migration was cancelled is never deleted. -/
theorem cancelled_holds_up_deletion : Finished .cancelled ∧
    ¬GoesOn ⟨"node-a", false, false, id⟩ leaving [plainMigration "mig" "vm" .cancelled] :=
  ⟨finished_of_mem (by simp), fun h => by cases (goesOn_iff rfl).mp h _ (.head _) rfl⟩

end Kairon.Agent
