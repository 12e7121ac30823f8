import Kairon.Properties.CommittedPhase

/-!
# Who may move a migration

Every phase of a migration belongs to one process: the live phases to the agent of the source node,
the others to the controller. As long as a process has not written a listed migration that it owns,
nobody else has moved it on; only an error branch may have closed it.

* `ownersAgree_inductive`, `ownersAgree_run`: the invariant of all processes
* `needsRecovery_left_on_instruction`: what ends `NeedsRecovery`
* `moves_exclusive`: no two processes are about to move one migration
-/

namespace Kairon

open Infra Model Cluster Option Pasts Function

abbrev controlPlane := clusterHost (fun _ => True) KeepsStatus

def Steered (p : MigrationPhase) : Prop :=
  p.isPending = true ∨ p = .cutover ∨ p = .adopting ∨ p = .stopping ∨ p = .restarting

def Owns : Process → MachineMigrationStatus → Prop
  | .controller, s => Steered s.phase
  | .agent node, s =>
    (s.phase = .starting ∨ s.phase = .running ∨ s.phase = .needsRecovery) ∧ s.sourceNode = node

variable {t u : Process} {w w' : Store} {past : History} {item : MachineMigration}
  {s : MachineMigrationStatus} {ps : Pasts ClusterOp.Ans Process}

theorem Owns.unique {s' : MachineMigrationStatus} (ht : Owns t s) (hu : Owns u s')
    (hphase : s.phase = s'.phase) (hnode : s.sourceNode = s'.sourceNode) : t = u := by
  have apart : ∀ {p}, Steered p → ¬(p = .starting ∨ p = .running ∨ p = .needsRecovery) := by
    rintro p hs (rfl | rfl | rfl) <;> rcases hs with h | h | h | h | h <;> cases h
  cases t with
  | controller =>
    cases u with
    | controller => rfl
    | agent n => exact absurd hu.1 (hphase ▸ apart ht)
  | agent n =>
    cases u with
    | controller => exact absurd ht.1 (hphase ▸ apart hu)
    | agent n' => rw [← ht.2, ← hu.2, hnode]

theorem Owns.not_failed (ht : Owns t s) : s.phase ≠ .failed := by
  intro hf
  cases t with
  | controller =>
    rw [Owns, hf] at ht
    rcases ht with h | h | h | h | h <;> cases h
  | agent n =>
    rw [Owns, hf] at ht
    rcases ht.1 with h | h | h <;> cases h

theorem steered_of_advance {p q : MigrationPhase} (h : Controller.Advance p q) : Steered p := by
  cases h with
  | block pending | admitLive pending | admitCold pending => exact .inl pending
  | cutover => exact .inr (.inl rfl)
  | adopt => exact .inr (.inr (.inl rfl))
  | restart => exact .inr (.inr (.inr (.inl rfl)))
  | finish => exact .inr (.inr (.inr (.inr rfl)))

structure Entitled (t : Process) (past : History) (item : MachineMigration) : Prop where
  listed : item ∈ Cluster.listed past
  owns : Owns t item.status
  unwritten : ∀ ev ∈ past, writesStatusOf item.key ev = false

def Held (w : Store) (item : MachineMigration) : Prop :=
  (∃ s, (w.migrations.find item.key).map MachineMigration.status = some s ∧
      s.phase = item.status.phase ∧ s.sourceNode = item.status.sourceNode) ∨
    w.phase item.key = some .failed

structure OwnersAgree (w : Store) (ps : Pasts ClusterOp.Ans Process) : Prop where
  distinct : ∀ t past, ps t = some past → ((listed past).map MachineMigration.key).Nodup
  held : ∀ t past, ps t = some past → ∀ item, Entitled t past item → Held w item
  unique : ∀ t past, ps t = some past → ∀ u past', ps u = some past' →
    ∀ item item', Entitled t past item → Entitled u past' item' → item.key = item'.key → t = u

/-- What a write to a status is: the move of an entitled process, or a closing error branch. -/
theorem status_write_cases {site : Site} (hd : ((listed past).map MachineMigration.key).Nodup)
    (he : Rule t past (.patchMachineMigrationStatus site item s)) :
    site = .reconcile ∧ Entitled t past item ∨ site = .errorHandler ∧ s.phase = .failed := by
  cases t with
  | controller =>
    obtain ⟨new, base, rfl, turn, about, ⟨rfl, hmove, hu⟩ | ⟨rfl, -, hf⟩⟩ :=
      Controller.ControllerRule.status_write he
    · obtain ⟨hl, hu⟩ := turn.unwritten hd about hu
      exact .inl ⟨rfl, hl, steered_of_advance hmove, hu⟩
    · exact .inr ⟨rfl, hf⟩
  | agent node =>
    obtain ⟨new, base, rfl, source, turn, about, -, ⟨rfl, hmove⟩ | ⟨rfl, hfail⟩⟩ :=
      Agent.AgentRule.status_write he
    · obtain ⟨hl, hu⟩ := turn.unwritten hd about hmove.unwritten
      exact .inl ⟨rfl, hl, ⟨hmove.driven, source⟩, hu⟩
    · exact .inr ⟨rfl, hfail.phase⟩

/-! ## The invariant is kept -/

theorem Held.of_status_eq (h : Held w item)
    (hs : (w'.migrations.find item.key).map MachineMigration.status =
      (w.migrations.find item.key).map MachineMigration.status) : Held w' item := by
  refine h.imp (fun ⟨s, hs', h⟩ => ⟨s, hs.trans hs', h⟩) fun h => ?_
  rwa [phase_eq_of_status hs]

theorem Held.closed {site : Site} {x : MachineMigration}
    {a : (ClusterOp.patchMachineMigrationStatus site x s).Ans} (h : Held w item)
    (hk : x.key = item.key) (hs : s.phase = .failed)
    (hw : w' ∈ outcomes w (.patchMachineMigrationStatus site x s) a) : Held w' item := by
  rcases (mem_outcomes_iff.mp hw).2 with ⟨rfl, -⟩ | ⟨y, hy, rfl⟩
  · exact h
  · cases hy
    -- the object is there, so that it is closed now
    obtain ⟨g, hg⟩ : ∃ g, w.migrations.find item.key = some g := by
      rcases h with ⟨s', hs', -⟩ | hp
      · exact (map_eq_some_iff.mp hs').imp fun _ h => h.1
      · exact (map_eq_some_iff.mp hp).imp fun _ h => h.1
    refine .inr ?_
    rw [Store.phase, find_write_status, if_pos hk.symm, hg]
    exact congrArg some (congrArg (MigrationPhase.patch g.status.phase) hs)

theorem Entitled.before {e : ClusterOp} {a : e.Ans} (hw : w' ∈ outcomes w e a)
    (h : Entitled t (⟨e, a⟩ :: past) item) :
    Entitled t past item ∨ w' = w ∧ w.migrations.find item.key = some item := by
  rcases listed_call (h := past) hw with hl | ⟨rfl, -, hstored⟩
  · exact .inl ⟨hl ▸ h.listed, h.owns, fun ev hev => h.unwritten ev (List.mem_cons_of_mem _ hev)⟩
  · exact .inr ⟨rfl, hstored item h.listed⟩

theorem Held.owner_unique {item' : MachineMigration} (h : Held w item')
    (hstored : w.migrations.find item.key = some item) (hk : item.key = item'.key)
    (ht : Owns t item.status) (hu : Owns u item'.status) : t = u := by
  rw [hk] at hstored
  rcases h with ⟨s, hs, hphase, hnode⟩ | hp
  · rw [hstored] at hs
    cases hs
    exact ht.unique hu hphase hnode
  · rw [Store.phase, hstored] at hp
    exact absurd (Option.some.inj hp) ht.not_failed

theorem OwnersAgree.call {e : ClusterOp} {a : e.Ans}
    (h : OwnersAgree w ps) (hpast : ps t = some past) (he : Rule t past e)
    (hw : w' ∈ outcomes w e a) : OwnersAgree w' (update ps t (some (⟨e, a⟩ :: past))) := by
  have hd := h.distinct t past hpast
  -- what is entitled afterwards, with what was known of it before
  have before : ∀ u past', update ps t (some (⟨e, a⟩ :: past)) u = some past' →
      ∀ item, Entitled u past' item → (∃ past₀, ps u = some past₀ ∧ Entitled u past₀ item ∧
          (u = t → writesStatusOf item.key ⟨e, a⟩ = false)) ∨
        u = t ∧ w' = w ∧ w.migrations.find item.key = some item := by
    refine forall_update ?_ fun u past' hut hu item hent =>
      .inl ⟨past', hu, hent, fun h => absurd h hut⟩
    rintro past' ⟨⟩ item hent
    rcases hent.before hw with hent' | hnew
    · exact .inl ⟨past, hpast, hent', fun _ => hent.unwritten _ List.mem_cons_self⟩
    · exact .inr ⟨rfl, hnew⟩
  constructor
  · refine forall_update ?_ fun u past' _ => h.distinct u past'
    rintro past' ⟨⟩
    rcases listed_call (h := past) hw with hl | ⟨-, hnodup, -⟩
    · rwa [hl]
    · exact hnodup
  · intro u past' hu item hent
    rcases before u past' hu item hent with ⟨past₀, hu₀, hent₀, hown⟩ | ⟨-, rfl, hstored⟩
    · have hheld := h.held u past₀ hu₀ item hent₀
      cases hwrite : writesStatusOf item.key ⟨e, a⟩ with
      | false => exact hheld.of_status_eq (status_eq_of_call hw hwrite)
      | true =>
        have hut : u ≠ t := fun hut => by simp [hown hut] at hwrite
        cases e with
        | patchMachineMigrationStatus site x s =>
          have hk : x.key = item.key := of_decide_eq_true hwrite
          rcases status_write_cases hd he with ⟨-, hx⟩ | ⟨-, hs⟩
          · exact absurd (h.unique t past hpast u past₀ hu₀ x item hx hent₀ hk).symm hut
          · exact hheld.closed hk hs hw
        | _ => cases hwrite
    · exact .inl ⟨item.status, by rw [hstored]; rfl, rfl, rfl⟩
  · intro u past₁ hu v past₂ hv item item' hent hent' hk
    rcases before u past₁ hu item hent with ⟨past₀, hu₀, hent₀, -⟩ | ⟨rfl, -, hstored⟩ <;>
      rcases before v past₂ hv item' hent' with ⟨past₀', hv₀, hent₀', -⟩ | ⟨rfl, -, hstored'⟩
    · exact h.unique u past₀ hu₀ v past₀' hv₀ item item' hent₀ hent₀' hk
    · exact ((h.held u past₀ hu₀ item hent₀).owner_unique hstored' hk.symm hent'.owns
        hent.owns).symm
    · exact (h.held v past₀' hv₀ item' hent₀').owner_unique hstored hk hent.owns hent'.owns
    · rfl

theorem OwnersAgree.env (h : OwnersAgree w ps) (hw : KeepsStatus w w') : OwnersAgree w' ps := by
  refine ⟨h.distinct, fun t past hp item hent => ?_, h.unique⟩
  rcases h.held t past hp item hent with ⟨s, hs, hrest⟩ | hf
  · obtain ⟨g, hg, rfl⟩ := map_eq_some_iff.mp hs
    obtain ⟨g', hg', hsame⟩ := hw _ g hg
    exact .inl ⟨g.status, by rw [hg', map_some, hsame], hrest⟩
  · exact .inr (hw.phase_eq hf)

theorem OwnersAgree.drop {new : Option History} (h : OwnersAgree w ps)
    (hnew : ∀ past, new = some past → past = []) : OwnersAgree w (update ps t new) := by
  have old : ∀ u past, update ps t new u = some past → past = [] ∨ ps u = some past :=
    forall_update (fun past hp => .inl (hnew past hp)) fun u past _ hu => .inr hu
  constructor
  · intro u past hu
    rcases old u past hu with rfl | hu
    · exact List.nodup_nil
    · exact h.distinct u past hu
  · intro u past hu item hent
    rcases old u past hu with rfl | hu
    · cases hent.listed
    · exact h.held u past hu item hent
  · intro u past hu v past' hv item item' hent hent'
    rcases old u past hu with rfl | hu
    · cases hent.listed
    rcases old v past' hv with rfl | hv
    · cases hent'.listed
    · exact h.unique u past hu v past' hv item item' hent hent'

theorem ownersAgree_inductive :
    Inductive controlPlane (fun t h e => True ∧ Rule t h e) Ends (fun _ _ => True)
      OwnersAgree where
  start h _ := h.drop fun _ hp => (Option.some.inj hp).symm
  call h hpast he _ hw := h.call hpast he.2 hw
  stop h _ _ := h.drop nofun
  crash h _ _ _ := h.drop nofun
  env h hw _ := h.env hw

theorem ownersAgree_run {tr : List ClusterLabel} {c : ClusterConf}
    (h : Run controlPlane (fun _ _ => True) (Conf.idle w) tr c) : OwnersAgree c.world c.past := by
  refine ownersAgree_inductive.run follows_of_start h (Conf.follows_idle _ _ _) ?_
  constructor <;> intro t past hp <;> cases hp

/-!
## The way out of NeedsRecovery

A migration whose Commit was ambiguous is parked in `NeedsRecovery`. The instruction of an operator
is checked against the action it asks for, not against the diagnosis; and the error branches of the
two loops do not look at it at all.
-/

open Agent Host

/-- The write that takes a migration out of `NeedsRecovery`, when it is no error branch: by the
agent of its source node, which listed it in that phase with an acknowledged instruction. -/
structure OnInstruction (c : ClusterConf) (t : Process) (item : MachineMigration) : Prop where
  source : t = .agent item.status.sourceNode
  listed : ∃ past, c.past t = some past ∧ item ∈ Cluster.listed past
  phase : item.status.phase = .needsRecovery
  instruction : ∃ action, item.spec.recovery = some action ∧ Acknowledged action

variable {k : ObjectKey}

theorem onInstruction_of_move {c : ClusterConf} {t : Process} {past : History}
    {item : MachineMigration} {s : MachineMigrationStatus} (ho : OwnersAgree c.world c.past)
    (hpast : c.past t = some past)
    (he : Rule t past (.patchMachineMigrationStatus .reconcile item s))
    (hp : c.world.phase item.key = some .needsRecovery) (hs : s.phase ≠ .needsRecovery) :
    OnInstruction c t item := by
  have hent : Entitled t past item := by
    rcases status_write_cases (ho.distinct t past hpast) he with ⟨-, h⟩ | ⟨h, -⟩
    · exact h
    · cases h
  have hphase : item.status.phase = .needsRecovery := by
    rcases ho.held t past hpast item hent with ⟨s', hs', h, -⟩ | hf
    · obtain ⟨g, hg, rfl⟩ := Option.map_eq_some_iff.mp hs'
      rw [Store.phase, hg] at hp
      exact h.symm.trans (Option.some.inj hp)
    · simp [hf] at hp
  cases t with
  | controller =>
    have := hent.owns
    rw [Owns, hphase] at this
    rcases this with h | h | h | h | h <;> cases h
  | agent node =>
    obtain ⟨new, base, -, source, -, -, -, ⟨-, hmove⟩ | ⟨h, -⟩⟩ := AgentRule.status_write he
    · exact ⟨by rw [source], ⟨past, hpast, hent.listed⟩, hphase, hmove.recovers hphase hs⟩
    · cases h

/-- In every run of the controller and the agents, with any failures, a migration leaves the phase
`NeedsRecovery` only by a write to its status; and unless that write comes from the error branch of
one of the loops, it is made by the agent of the source node for a migration that it listed in this
phase, with an instruction of the operator that has a reason and acknowledges the diagnosis its
action requires (`ForceAbort` requires none). -/
theorem needsRecovery_left_on_instruction (w : Store) {tr : List ClusterLabel} {c c' : ClusterConf}
    {l : ClusterLabel} (run : Run controlPlane (fun _ _ => True) (Conf.idle w) tr c)
    (step : Step controlPlane c l c') (hp : c.world.phase k = some .needsRecovery)
    (hchanged : c'.world.phase k ≠ some .needsRecovery) :
    ∃ t site item s a, l = .call t ⟨.patchMachineMigrationStatus site item s, a⟩ ∧
      item.key = k ∧ (site ≠ .errorHandler → OnInstruction c t item) := by
  cases step with
  | start | stop | crash => exact absurd hp hchanged
  | env may => exact absurd (may.phase_eq hp) hchanged
  | @call t e kont past a w' at_call out =>
    have hpast : c.past t = some past := by simp [Conf.past, at_call]
    have hrule : Rule t past e :=
      (run.follows follows_of_start (Conf.follows_idle _ _ _) _ _ at_call).1.2
    have hout : w' ∈ outcomes c.world e a := out
    cases hwrite : writesStatusOf k ⟨e, a⟩ with
    | false => exact absurd ((phase_eq_of_call hout hwrite).trans hp) hchanged
    | true =>
      cases e with
      | patchMachineMigrationStatus site item s =>
        obtain rfl : item.key = k := of_decide_eq_true hwrite
        refine ⟨t, site, item, s, a, rfl, rfl, fun hsite => ?_⟩
        have ho := ownersAgree_run run
        have hs : s.phase ≠ .needsRecovery := by
          intro hs
          rcases phase_of_write hout with ⟨hsame, -⟩ | hnew
          · exact hchanged (hsame.trans hp)
          · exact hchanged (hnew.trans (by rw [hp, hs]; rfl))
        rcases status_write_cases (ho.distinct t past hpast) hrule with ⟨rfl, -⟩ | ⟨rfl, -⟩
        · exact onInstruction_of_move ho hpast hrule hp hs
        · exact absurd rfl hsite
      | _ => cases hwrite

/-! ## Other ways out -/

def parked (recovery : Option RecoverySpec) : Store :=
  let item := plainMigration "mig" "vm" .needsRecovery
  storeOf [] [{ item with spec := { item.spec with recovery := recovery } }]

def confirmCommitted : RecoverySpec :=
  ⟨.confirmDestinationCommitted, .destinationCommitted, "seen on the host"⟩

def destinationMissing (w : Store) : (e : ClusterOp) → e.Ans
  | .peer _ _ (.diagnose _) => .ok ⟨.prepared, false, "", "", "", 1⟩
  | e => works w e

def confirmTick : List ClusterMove :=
  .start (.agent "node-a") (Agent.reconcile sampleAgent) ::
    List.replicate 14 (.call (.agent "node-a") destinationMissing 0)

def lostPeerTick : List ClusterMove :=
  .start (.agent "node-a") (Agent.reconcile sampleAgent) ::
    List.replicate 6 (.call (.agent "node-a") works 0) ++
    [.call (.agent "node-a") unreachable 0, .call (.agent "node-a") works 0]

def storedRecovery (c : ClusterConf) : Option MachineMigrationRecoveryStatus :=
  (c.world.migrations.find ⟨"default", "mig"⟩).bind fun g => g.status.recovery

/-- The first migration goes on to the cutover on an instruction that acknowledges
`DestinationCommitted`, while the diagnosis in its status is that the session is only prepared and
the destination has no runtime. The second is closed by the error branch with no instruction at
all, because the address of the destination was not found. -/
theorem needsRecovery_left_otherwise :
    (∃ tr c, Run controlPlane (fun _ _ => True) (Conf.idle (parked (some confirmCommitted))) tr c ∧
      c.world.phase ⟨"default", "mig"⟩ = some .cutover ∧
      (storedRecovery c).map (fun r => (r.destinationSessionPhase, r.destinationRuntimeFound)) =
        some ("Prepared", false)) ∧
    ∃ tr c, Run controlPlane (fun _ _ => True) (Conf.idle (parked none)) tr c ∧
      c.world.phase ⟨"default", "mig"⟩ = some .failed := by
  constructor
  · exact exists_free_run _ confirmTick ⟨trivial, sampleAgent, rfl, rfl⟩ (by decide +kernel)
  · exact exists_free_run _ lostPeerTick ⟨trivial, sampleAgent, rfl, rfl⟩ (by decide +kernel)

theorem needsRecovery_left_on_confirmation :
    ∃ tr c l c', Run controlPlane (fun _ _ => True) (Conf.idle (parked (some confirmCommitted)))
        tr c ∧ Step controlPlane c l c' ∧
      c.world.phase ⟨"default", "mig"⟩ = some .needsRecovery ∧
      c'.world.phase ⟨"default", "mig"⟩ ≠ some .needsRecovery ∧
      ∃ t site item s a, l = .call t ⟨.patchMachineMigrationStatus site item s, a⟩ ∧
        item.key = ⟨"default", "mig"⟩ ∧ (site ≠ .errorHandler → OnInstruction c t item) := by
  have may : controlPlane.Allows (confirmTick.take 14) := ⟨trivial, sampleAgent, rfl, rfl⟩
  have run := run_of_play (c := .idle (parked (some confirmCommitted))) may rfl
  exact ⟨_, _, _, _, run, step_of_move (.agent "node-a") destinationMissing 0 rfl, rfl, nofun,
    needsRecovery_left_on_instruction _ run
      (step_of_move (.agent "node-a") destinationMissing 0 rfl) rfl nofun⟩

/-- The migration that a process is about to move on. -/
def moving (c : ClusterConf) (t : Process) : Option MachineMigration :=
  match c.thread t with
  | some ⟨.call (.patchMachineMigrationStatus .reconcile item _) _, _⟩ => some item
  | _ => none

/-- No two processes are about to move one migration, and its phase and source node are as they were
listed, unless an error branch has closed it. -/
theorem moves_exclusive {tr c item'}
    (run : Run controlPlane (fun _ _ => True) (Conf.idle w) tr c) (ht : moving c t = some item)
    (hu : moving c u = some item') (hk : item.key = item'.key) : t = u ∧ Held c.world item := by
  have ho := ownersAgree_run run
  have entitled : ∀ {t item}, moving c t = some item →
      ∃ past, c.past t = some past ∧ Entitled t past item := by
    intro t item h
    unfold moving at h
    split at h
    · next item s k past at_call =>
      cases h
      have hpast : c.past t = some past := by simp [Conf.past, at_call]
      have hrule := (run.follows follows_of_start (Conf.follows_idle _ _ _) _ _ at_call).1.2
      obtain ⟨-, hent⟩ | ⟨⟨⟩, -⟩ := status_write_cases (ho.distinct t past hpast) hrule
      exact ⟨past, hpast, hent⟩
    · cases h
  obtain ⟨past, hpast, hent⟩ := entitled ht
  obtain ⟨past', hpast', hent'⟩ := entitled hu
  exact ⟨ho.unique t past hpast u past' hpast' item item' hent hent' hk,
    ho.held t past hpast item hent⟩

theorem moves_exclusive_confirmed : ∃ tr c item,
    Run controlPlane (fun _ _ => True) (Conf.idle (parked (some confirmCommitted))) tr c ∧
      moving c (.agent "node-a") = some item ∧ Held c.world item := by
  have may : controlPlane.Allows (confirmTick.take 14) := ⟨trivial, sampleAgent, rfl, rfl⟩
  have run := run_of_play (c := .idle (parked (some confirmCommitted))) may rfl
  have hmoving : moving run.final (.agent "node-a") = some _ := rfl
  exact ⟨_, _, _, run, hmoving, (moves_exclusive run hmoving hmoving rfl).2⟩

end Kairon
