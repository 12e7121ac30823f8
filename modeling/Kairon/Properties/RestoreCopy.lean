import Kairon.Backup.PassRule
import Kairon.Backup.World
import Kairon.Properties.SourcePower

/-!
# A restore and the power state of its Machine

A restore is started for a Machine that is halted, and its copy runs for many ticks, of which the
Machine loop knows nothing.

* `loopCalm_solo`: the Machine loop while a copy is under way
* `copy_stays_down`: in calm runs it brings up no runtime
-/

namespace Kairon.Backup

open Infra Model Cluster Agent List Host

variable (state : String) (w : World)

def Overwriting (k : ObjectKey) : Prop :=
  ∃ r disk id, ⟨.restore r disk id, .copying⟩ ∈ w.goroutines ∧ r.machineKey = k

/-- The agent of `node`; others may change everything but the state of its process. -/
abbrev tickHost (node : String) : Host BackupOp.Ans GoErr Unit World :=
  backupHost (fun p => ∃ a : Agent.Config, a.nodeName = node ∧ p = tick a)
    fun w w' => w'.running = w.running ∧ w'.goroutines = w.goroutines

/-! ## The order of a tick -/

/-- The calls of a tick, seen from the runtimes and the copies: runtimes are brought up in the
Machine loop, and copies are started after it, in the backup pass. -/
def CopyRule (node : String) (h : History) : BackupOp → Prop
  | .cluster (.flux s call) =>
    powersUp call = true → ∃ h₀, h = h₀.map tickEvent ∧ AgentRule node h₀ (.flux s call)
  | .go _ => ∃ ev ∈ h, listsCopies ev = true
  | _ => True

variable {node : String} {k : ObjectKey} {h : History}

theorem PassRule.copyRule {new : History} {e : BackupOp} (he : PassRule new e) (base : History) :
    CopyRule node (new ++ base) e := by
  cases e with
  | cluster e =>
    cases e with
    | flux s call =>
      intro hup
      obtain ⟨k, item, visit, before, -, hlook⟩ := he
      have hlook : looksUp (.flux s call) = true := hlook
      cases call with
      | get | lookupByName => cases hup
      | _ => cases hlook
    | _ => trivial
  | go job =>
    obtain ⟨k, item, visit, before, hturn, -⟩ := he
    obtain ⟨ev, hmem, hl⟩ := exists_listsCopies_of_seen hturn.seen
    refine ⟨ev, mem_append_left _ ?_, hl⟩
    rw [hturn.eq]
    exact mem_append_right _ (mem_cons_of_mem _ hmem)
  | _ => trivial

theorem reconcileBackups_copies (machines : List Machine) :
    (reconcileBackups node machines).Follows (CopyRule node)
      (fun h' _ => ∃ ev ∈ h', listsCopies ev = true) h := by
  have hpass : (reconcileBackups node machines).Follows (CopyRule node) Anyhow h := by
    refine ((reconcileBackups_follows node machines).after h).mono ?_ fun _ _ _ => trivial
    rintro past e ⟨new, rfl, he⟩
    exact he.copyRule h
  obtain ⟨-, hrest⟩ := hpass
  refine ⟨trivial, fun a => (hrest a).extend.weaken fun h' _ hh => ?_⟩
  exact ⟨_, hh.1.subset mem_cons_self, rfl⟩

/-- The calls of the two levels: the same up to the backup pass. -/
def Fits (past : Cluster.History) (h : History) : Prop :=
  h = past.map tickEvent ∨ (∃ ev ∈ past, isPass ev = true) ∧ ∃ ev ∈ h, listsCopies ev = true

theorem Fits.cons {past : Cluster.History} (hf : Fits past h) (ev : Event ClusterOp.Ans) :
    Fits (ev :: past) (tickEvent ev :: h) := by
  rcases hf with rfl | ⟨⟨ev₁, h₁, hp⟩, ev₂, h₂, hl⟩
  · exact .inl rfl
  · exact .inr ⟨⟨ev₁, mem_cons_of_mem _ h₁, hp⟩, ev₂, mem_cons_of_mem _ h₂, hl⟩

theorem tick_copies (a : Agent.Config) : (tick a).Follows (CopyRule a.nodeName) Anyhow [] := by
  refine (Prog.Follows.expand Fits ?_ ((reconcile_follows a).and (reconcile_beforePasses a))
    (.inl rfl)).weaken fun _ _ _ => trivial
  rintro past h e hfit ⟨hagent, hbefore⟩
  have plain : ∀ e : ClusterOp, CopyRule a.nodeName h (.cluster e) →
      (Backup.call (.cluster e)).Follows (CopyRule a.nodeName)
        (fun h' r => Fits (⟨e, r⟩ :: past) h') h :=
    fun e he => ⟨he, fun r => hfit.cons ⟨e, r⟩⟩
  cases e with
  | agentPass p =>
    cases p with
    | backups =>
      refine (reconcileBackups_copies _).weaken fun h' r hl => ?_
      exact .inr ⟨⟨_, mem_cons_self, rfl⟩, hl⟩
    | _ => exact plain _ trivial
  | flux s call =>
    refine plain _ fun hup => ?_
    rcases hfit with rfl | ⟨⟨ev, hev, hp⟩, -⟩
    · exact ⟨past, rfl, hagent⟩
    · simp [hbefore hup ev hev] at hp
  | _ => exact plain _ trivial

/-! ## The copy and the Machine loop -/

def CalmCall (k : ObjectKey) : Event BackupOp.Ans → Prop
  | ⟨.cluster e, a⟩ => CalmFor k ⟨e, a⟩
  | _ => True

/-- While a copy into the disks of a Machine is under way, FluxVM gives the Machine loop no reason
to bring up its runtime. -/
def CalmCopies : Guard BackupOp.Ans GoErr Unit World :=
  fun c l =>
    match l with
    | .call _ ev => ∀ past, c.past () = some past → (∀ ev' ∈ past, listsCopies ev' = false) →
        ∀ k, Overwriting c.world k → CalmCall k ev
    | _ => True

/-- The tick is past its Machine loop, or has been given no reason for any Machine whose disks are
being overwritten. -/
def LoopCalm (past : History) : Prop :=
  (∃ ev ∈ past, listsCopies ev = true) ∨ ∀ k, Overwriting w k → ∀ ev ∈ past, CalmCall k ev

theorem LoopCalm.mono {w w' : World} {past : History} (hc : LoopCalm w past)
    (hw : ∀ k, Overwriting w' k → Overwriting w k) : LoopCalm w' past :=
  hc.imp_right fun hcalm k hk => hcalm k (hw k hk)

theorem loopCalm_solo (node : String) :
    Solo (tickHost node) () (CopyRule node) (fun _ _ => True) CalmCopies
      (fun w past => ∀ p, past = some p → LoopCalm w p) where
  start := by
    rintro w - p ⟨⟩
    exact .inr fun _ _ => forall_mem_nil _
  call := by
    rintro c e a w past hJ hpast he hG hw p ⟨⟩
    rcases hJ past rfl with ⟨ev, hev, hl⟩ | hcalm
    · exact .inl ⟨ev, mem_cons_of_mem _ hev, hl⟩
    by_cases hlist : ∀ ev ∈ past, listsCopies ev = false
    · rcases (effect_of_mem_outcomes hw).goroutines with hsame | ⟨job, rfl, -⟩
      · have same : ∀ k, Overwriting w k → Overwriting c.world k := by
          rintro k ⟨r, disk, id, hmem, hk⟩
          exact ⟨r, disk, id, hsame ▸ hmem, hk⟩
        exact .inr fun k hk =>
          forall_mem_cons.mpr ⟨hG past hpast hlist k (same k hk), hcalm k (same k hk)⟩
      · -- a copy is started after the loop
        obtain ⟨ev, hev, hl⟩ := he
        simp [hlist ev hev] at hl
    · push Not at hlist
      obtain ⟨ev, hev, hl⟩ := hlist
      exact .inl ⟨ev, mem_cons_of_mem _ hev, by simpa using hl⟩
  stop := nofun
  crash := nofun
  env := by
    intro c w hJ hw _ p hp
    refine (hJ p hp).mono fun k hk => ?_
    obtain ⟨r, disk, id, hmem, hk⟩ := hk
    rcases hw with rfl | hstep | ⟨-, hsame⟩
    · exact ⟨r, disk, id, hmem, hk⟩
    · exact ⟨r, disk, id, hstep.copying hmem, hk⟩
    · exact ⟨r, disk, id, hsame ▸ hmem, hk⟩

theorem copies_of_start {t : Unit} {p : BackupM GoErr} (hp : (tickHost node).start t p) :
    p.Follows (fun past e => t = () ∧ CopyRule node past e) (fun _ _ => True) [] := by
  obtain ⟨a, rfl, rfl⟩ := hp
  exact (tick_copies a).mono (fun _ _ he => ⟨rfl, he⟩) fun _ _ _ => trivial

/-- While a copy into the disks of a Machine is under way, the agent brings up no runtime for it,
in any interleaving of ticks, goroutines and edits by others, as long as FluxVM gives its Machine
loop no reason to. -/
theorem copy_stays_down (node : String) (w₀ : World) {tr : List BackupLabel} {c c' : BackupConf}
    (run : Run (tickHost node) CalmCopies (Conf.idle w₀) tr c) {m : Machine} {call : FluxCall}
    {a : call.Ans}
    (step : Step (tickHost node) c (.call () ⟨.cluster (.flux (.machine m) call), a⟩) c')
    (under : Overwriting c.world m.key) : powersUp call = false := by
  have hidle : (Conf.idle w₀ : BackupConf).Follows (fun t past e => t = () ∧ CopyRule node past e)
      fun _ _ _ => True := Conf.follows_idle _ _ _
  have hf := run.follows (fun _ _ => copies_of_start) hidle
  have hcalm := (loopCalm_solo node).inductive.run (fun _ _ => copies_of_start) run hidle
    nofun
  cases step with
  | @call _ _ _ past _ w at_call out =>
    have hpast : c.past () = some past := by simp [Conf.past, at_call]
    have hrule := (hf _ _ at_call).1.2
    rw [Bool.eq_false_iff]
    intro hup
    obtain ⟨h₀, rfl, hagent⟩ := hrule hup
    have hwatched : Watched node m.key (.agent node) h₀ := by
      intro _
      rcases hcalm _ hpast with ⟨ev, hev, hl⟩ | hcalm
      · obtain ⟨ev', -, rfl⟩ := mem_map.mp hev
        cases hl
      · exact .inr fun ev hev => hcalm _ under _ (mem_map_of_mem hev)
    simp [not_powersUp hwatched hagent rfl] at hup

/-! ## A Machine that is switched on -/

def restoring : World := worldOf [imageMachine "Halted"] [] [plainRestore .pending]

def setPowerState : World :=
  { w with
    store :=
      { w.store with
        machines := w.store.machines.edit sampleKey
          (fun m => { m with spec := { m.spec with powerState := state } }) fun _ => rfl } }

def switchDuringCopy (n : ℕ) : List BackupMove :=
  .start () (tick sampleAgent) :: List.replicate 16 (.call () (serve "stopped") 0) ++
    .stop () :: .env (setPowerState state) :: .start () (tick sampleAgent) ::
    List.replicate n (.call () (serve "stopped") 0)

/-- The Machine is set to `Running` while its disks are being overwritten, and the next tick starts
its runtime. -/
theorem started_under_copy :
    ∃ tr c m call a c', Run (tickHost "node-a") (fun _ _ => True) (Conf.idle restoring) tr c ∧
      Step (tickHost "node-a") c (.call () ⟨.cluster (.flux (.machine m) call), a⟩) c' ∧
      Overwriting c.world m.key ∧ powersUp call = true := by
  have may : (tickHost "node-a").Allows (switchDuringCopy "Running" 3) :=
    ⟨⟨_, rfl, rfl⟩, fun _ => .inr (.inr ⟨rfl, rfl⟩), _, rfl, rfl⟩
  exact ⟨_, _, _, _, _, _, run_of_play may rfl, step_of_move () (serve "stopped") 0 rfl,
    ⟨_, _, _, .head _, rfl⟩, rfl⟩

def haltedOnly (_ : BackupConf) : BackupLabel → Bool
  | .call _ ⟨.cluster (.flux (.machine m) _), _⟩ => m.desiredPowerState = "Halted"
  | _ => true

theorem haltedOnly_sound (c : BackupConf) (l : BackupLabel) (ht : haltedOnly c l = true) :
    CalmCopies c l := by
  unfold CalmCopies
  split
  · next t ev =>
    intro past _ _ k _
    obtain ⟨e, a⟩ := ev
    cases e with
    | cluster e =>
      cases e with
      | flux s call =>
        cases s with
        | migration item => trivial
        | machine m => exact fun _ hwanted => absurd (of_decide_eq_true ht) hwanted.2.2.2
      | _ => trivial
    | _ => trivial
  · trivial

theorem halted_machine_stays_down :
    ∃ tr c m call a c', Run (tickHost "node-a") CalmCopies (Conf.idle restoring) tr c ∧
      Step (tickHost "node-a") c (.call () ⟨.cluster (.flux (.machine m) call), a⟩) c' ∧
      Overwriting c.world m.key ∧ powersUp call = false := by
  have may : (tickHost "node-a").Allows (switchDuringCopy "Halted" 1) :=
    ⟨⟨_, rfl, rfl⟩, fun _ => .inr (.inr ⟨rfl, rfl⟩), _, rfl, rfl⟩
  have run := play_sound haltedOnly_sound (c := .idle restoring) may rfl
  exact ⟨_, _, _, _, _, _, run, step_of_move () (serve "stopped") 0 rfl, ⟨_, _, _, .head _, rfl⟩,
    copy_stays_down "node-a" restoring run (step_of_move () (serve "stopped") 0 rfl)
      ⟨_, _, _, .head _, rfl⟩⟩

end Kairon.Backup
