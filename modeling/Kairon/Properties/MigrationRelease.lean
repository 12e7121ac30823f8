import Kairon.Agent.Release
import Kairon.Properties.SourcePower

/-!
# Giving up a migration that has taken something

When a live migration is given up, the source network has to be resumed and the session on the
target aborted before the new phase is stored. Some ways out do that; others return an error to the
loop, which writes `Failed` and nothing else.

* `inTurn_of_start`: the calls of an agent, by the turns of its migrations
* `given_up_released_iff`: when nothing is left of what a migration took
-/

namespace Kairon

open Infra Model Cluster Agent List

def InTurn (t : Process) (h : History) (e : ClusterOp) : Prop :=
  ∀ node, t = .agent node → ∃ a : Agent.Config, a.nodeName = node ∧ TurnRule a h e

theorem inTurn_of_start (t : Process) (p : M GoErr) (h : fullHost.start t p) :
    p.Follows (InTurn t) Anyhow [] := by
  cases t with
  | controller =>
    obtain ⟨-, c, rfl⟩ := h
    exact (Controller.reconcile_follows c).mono (fun _ _ _ node hnode => by cases hnode)
      fun _ _ _ => trivial
  | agent node =>
    obtain ⟨-, a, rfl, rfl⟩ := h
    refine (reconcile_turns a).mono (fun _ _ he node hnode => ?_) fun _ _ _ => trivial
    cases hnode
    exact ⟨a, rfl, he⟩

/--
In every run, when the agent of a node writes the status of a live migration, whatever phase it
stores: the calls of the agent so far end with the turn of this migration. Nothing that the
migration took on the source or on the target is left exactly if everything that was owed before
the turn, and everything that the turn itself took, is given back by the way out which the answers
of the turn lead to.
-/
theorem given_up_released_iff {w : Store} {tr : List ClusterLabel} {c c' : ClusterConf}
    {node : String} {site : Site} {item : MachineMigration} {s : MachineMigrationStatus}
    {r : (ClusterOp.patchMachineMigrationStatus site item s).Ans}
    (run : Run fullHost (fun _ _ => True) (Conf.idle w) tr c)
    (write : Step fullHost c (.call (.agent node) ⟨.patchMachineMigrationStatus site item s, r⟩) c')
    (live : Live item) :
    ∃ a turn old k, a.nodeName = node ∧ callsOf (.agent node) tr = turn ++ old ∧
      (migrationTick a item).Becomes turn (.call (.patchMachineMigrationStatus site item s) k) ∧
      (owed item (callsOf (.agent node) tr) = [] ↔
        ∀ n, n ∈ owed item old ∨ n ∈ incurred item turn → n ∈ released a item turn) := by
  cases write with
  | @call _ _ _ past _ w' at_call out =>
    have hf := run.follows inTurn_of_start (Conf.follows_idle _ _ _)
    obtain ⟨a, hnode, turn, base, k, rfl, hturn⟩ := (hf _ _ at_call).1 node rfl
    have hpast : c.past (.agent node) = some (turn ++ base) := by simp [Conf.past, at_call]
    obtain ⟨older, holder⟩ := run.past_prefix hpast
    have hcalls : callsOf (.agent node) tr = turn ++ (base ++ older) := by
      rw [← holder, append_assoc]
    refine ⟨a, turn, base ++ older, k, hnode, hcalls, hturn, ?_⟩
    rw [hcalls]
    exact owed_eq_nil_iff live hturn _

/-! ## Two ways out -/

def starting : Store :=
  storeOf [plainMachine "vm" "node-a" twoCores] [plainMigration "mig" "vm" .starting]

def prepareFails (w : Store) : (e : ClusterOp) → e.Ans
  | .peer _ _ (.prepare _) => .error "timeout"
  | e => works w e

def startFails (w : Store) : (e : ClusterOp) → e.Ans
  | .source _ (.start _) => .error ⟨false, "no channel"⟩
  | e => works w e

variable (answer : Store → (e : ClusterOp) → e.Ans)

def tickOf (n : Nat) : List ClusterMove :=
  .start (.agent "node-a") (Agent.reconcile sampleAgent) ::
    List.replicate n (.call (.agent "node-a") answer 0)

/-- The source network is quiesced, the target cannot be prepared, and the migration is stored as
`Failed` while the network is still quiesced and the session may be open. -/
theorem failed_prepare_leaves_session :
    ∃ tr c site item s r c', Run fullHost (fun _ _ => True) (Conf.idle starting) tr c ∧
      Step fullHost c
        (.call (.agent "node-a") ⟨.patchMachineMigrationStatus site item s, r⟩) c' ∧
      Live item ∧ s.phase = .failed ∧ c'.world.phase ⟨"default", "mig"⟩ = some .failed ∧
      owed item (callsOf (.agent "node-a") tr) =
        [.resume "r-1", .abort "kmm-1", .resume "r-1"] := by
  have may : fullHost.Allows (tickOf prepareFails 26) := ⟨trivial, sampleAgent, rfl, rfl⟩
  exact ⟨_, _, _, _, _, _, _, Host.run_of_play may rfl,
    Host.step_of_move (.agent "node-a") prepareFails 0 rfl, .inl rfl, rfl, rfl, rfl⟩

theorem given_up_released_after_failed_start :
    ∃ tr c site item s r c', Run fullHost (fun _ _ => True) (Conf.idle starting) tr c ∧
      Step fullHost c
        (.call (.agent "node-a") ⟨.patchMachineMigrationStatus site item s, r⟩) c' ∧
      Live item ∧ s.phase = .failed ∧ owed item (callsOf (.agent "node-a") tr) = [] ∧
      ∃ a turn old k, a.nodeName = "node-a" ∧ callsOf (.agent "node-a") tr = turn ++ old ∧
        (migrationTick a item).Becomes turn (.call (.patchMachineMigrationStatus site item s) k) ∧
        (owed item (callsOf (.agent "node-a") tr) = [] ↔
          ∀ n, n ∈ owed item old ∨ n ∈ incurred item turn → n ∈ released a item turn) := by
  have may : fullHost.Allows (tickOf startFails 29) := ⟨trivial, sampleAgent, rfl, rfl⟩
  have run := Host.run_of_play (c := .idle starting) may rfl
  exact ⟨_, _, _, _, _, _, _, run, Host.step_of_move (.agent "node-a") startFails 0 rfl, .inl rfl,
    rfl, rfl, given_up_released_iff run (Host.step_of_move (.agent "node-a") startFails 0 rfl)
      (.inl rfl)⟩

end Kairon
