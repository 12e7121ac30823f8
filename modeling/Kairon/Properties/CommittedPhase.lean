import Kairon.System

/-!
# What becomes of a migration after its Commit

The source agent sends Commit and then writes the phase `Cutover`. A write that fails, or an agent
that stops in between, leaves a committed migration that the error branch or a later cancel may
still close.

* `tracked_solo`, `kept_solo`: the invariants of the source's agent
* `committed_never_closed`: with the cutover recorded, the migration is never closed
-/

namespace Kairon

open Infra Model Cluster Agent List Option Host Conf

variable {node : String} {k : ObjectKey} {w w' : Store} {past : History} {e : ClusterOp}
  {item : MachineMigration}

abbrev sourceHost (node : String) := clusterHost (· = .agent node) KeepsStatus

/-- As long as the tick has not written the status of a listed migration, it is as listed. -/
structure Fresh (w : Store) (past : History) : Prop where
  distinct : ((listed past).map MachineMigration.key).Nodup
  status : ∀ item ∈ listed past, (∀ ev ∈ past, writesStatusOf item.key ev = false) →
    (w.migrations.find item.key).map MachineMigration.status = some item.status

def Closed (k : ObjectKey) (past : History) : Prop :=
  (∀ item ∈ listed past, item.key = k → ¬Driven item) ∨
    ∃ ev ∈ past, writesStatusOf k ev = true ∧ failed ev.op ev.ans = false

theorem Fresh.nil : Fresh w [] :=
  ⟨nodup_nil, fun _ hi => by cases hi⟩

theorem Fresh.call {a : e.Ans} (hf : Fresh w past)
    (hw : w' ∈ outcomes w e a) : Fresh w' (⟨e, a⟩ :: past) := by
  rcases listed_call (h := past) hw with hl | ⟨rfl, hd, hstored⟩
  · refine ⟨hl ▸ hf.distinct, fun item hi hu => ?_⟩
    rw [forall_mem_cons] at hu
    rw [status_eq_of_call hw hu.1]
    exact hf.status item (hl ▸ hi) hu.2
  · exact ⟨hd, fun item hi _ => by rw [hstored item hi]; rfl⟩

theorem Fresh.env (hf : Fresh w past) (hw : KeepsStatus w w') : Fresh w' past := by
  refine ⟨hf.distinct, fun item hi hu => ?_⟩
  obtain ⟨g, hg, hs⟩ := map_eq_some_iff.mp (hf.status item hi hu)
  obtain ⟨g', hg', hs'⟩ := hw _ g hg
  rw [hg', map_some, hs', hs]

theorem Fresh.turn {new base : History} (hf : Fresh w (new ++ base))
    (ht : Turn item base) (habout : ∀ ev ∈ new, About item ev)
    (hu : ∀ ev ∈ new, writesStatus ev = false) : w.phase item.key = some item.status.phase := by
  obtain ⟨hlisted, hunwritten⟩ := ht.unwritten hf.distinct habout hu
  obtain ⟨g, hg, hs⟩ := map_eq_some_iff.mp (hf.status item hlisted hunwritten)
  rw [Store.phase, hg, map_some, hs]

theorem Closed.call {a : e.Ans} (hc : Closed k past)
    (hk : w.phase k = some .cutover) (hw : w' ∈ outcomes w e a) : Closed k (⟨e, a⟩ :: past) := by
  rcases hc with hc | ⟨ev, hev, hok⟩
  · rcases listed_call (h := past) hw with hl | ⟨rfl, -, hstored⟩
    · exact .inl (hl ▸ hc)
    · refine .inl fun item hi hik hd => ?_
      have hphase : item.status.phase = .cutover := by
        have := hstored item hi
        rw [hik] at this
        rw [Store.phase, this] at hk
        exact Option.some.inj hk
      rcases hd with hd | hd | hd <;> rw [hphase] at hd <;> cases hd
  · exact .inr ⟨ev, mem_cons_of_mem _ hev, hok⟩

theorem Closed.unwritten {a : e.Ans} (hc : Closed k past)
    (hd : ((listed past).map MachineMigration.key).Nodup) (he : AgentRule node past e) :
    writesStatusOf k ⟨e, a⟩ = false := by
  rw [Bool.eq_false_iff]
  intro hw
  cases e with
  | patchMachineMigrationStatus site item s =>
    obtain rfl : item.key = k := of_decide_eq_true hw
    obtain ⟨new, base, rfl, -, turn, about, -, hrule⟩ := he.status_write
    have hl : listed (new ++ base) = listed base := listed_append fun ev hev => (about ev hev).1
    have hdriven : Driven item := hrule.elim (fun h => h.2.driven) fun h => h.2.driven
    rcases hc with hc | ⟨ev, hev, hwev, hok⟩
    · exact hc item (hl ▸ turn.listed) rfl hdriven
    · -- the write that went through belongs to this very reconcile
      rcases mem_append.mp hev with hev | hev
      · have hws := writesStatus_of_writesStatusOf hwev
        rcases hrule with ⟨-, hmove⟩ | ⟨-, hfail⟩
        · simp [hmove.unwritten ev hev] at hws
        · simp [hfail.refused ev hev hws] at hok
      · have := turn.untouched (hl ▸ hd) ev hev
        simp [touches_of_writesStatusOf hwev] at this
  | _ => cases hw

theorem cutover_of_pending {a : e.Ans} (hp : pending k past = true)
    (he : AgentRule node past e) (hw : writesStatusOf k ⟨e, a⟩ = true) :
    ∃ item s, e = .patchMachineMigrationStatus .reconcile item s ∧ item.key = k ∧
      s.phase = .cutover := by
  cases e with
  | patchMachineMigrationStatus site item s =>
    obtain rfl : item.key = k := of_decide_eq_true hw
    obtain ⟨new, base, rfl, -, turn, about, settled, hrule⟩ := he.status_write
    rw [pending_append (settled _)] at hp
    rcases hrule with ⟨rfl, hmove⟩ | ⟨-, hfail⟩
    · exact ⟨item, s, rfl, rfl, hmove.committed hp⟩
    · simp [hfail.settled] at hp
  | _ => cases hw

/-! ## The two invariants -/

def Tracked (w : Store) (o : Option History) : Prop :=
  ∀ past, o = some past → Fresh w past

def GivenUp (p : MigrationPhase) : Prop :=
  p = .failed ∨ p = .cancelled ∨ p = .blocked

def Kept (k : ObjectKey) (w : Store) (o : Option History) : Prop :=
  (∃ past p, o = some past ∧ pending k past = true ∧ w.phase k = some p ∧ ¬GivenUp p) ∨
    w.phase k = some .cutover ∧ ∀ past, o = some past → Closed k past

/-- While a Commit is not recorded the agent does not stop in the middle, and the write that
records it goes through. -/
def CutoverRecorded (node : String) : Guard ClusterOp.Ans GoErr Process Store :=
  fun c l => ∀ past k, c.past (.agent node) = some past → pending k past = true → match l with
    | .crash t => t ≠ .agent node
    | .call _ ev => writesStatusOf k ev = true → failed ev.op ev.ans = false
    | _ => True

theorem tracked_solo (node : String) (G : Guard ClusterOp.Ans GoErr Process Store) :
    Solo (sourceHost node) (.agent node) (Rule (.agent node)) (Ends (.agent node)) G Tracked where
  start := by
    rintro w - past ⟨⟩
    exact Fresh.nil
  call := by
    rintro c e a w past h - - - hw past' ⟨⟩
    exact (h past rfl).call hw
  stop := by
    rintro w past r - - past' ⟨⟩
  crash := by
    rintro c past - - - past' ⟨⟩
  env := fun h hw _ past hp => (h past hp).env hw

theorem kept_solo (node : String) (k : ObjectKey) :
    Solo (sourceHost node) (.agent node) (Rule (.agent node)) (Ends (.agent node))
      (CutoverRecorded node) (fun w o => Tracked w o ∧ Kept k w o) where
  start := by
    rintro w ⟨ht, hk⟩
    refine ⟨(tracked_solo node (CutoverRecorded node)).start ht, ?_⟩
    rcases hk with ⟨past, p, hpast, -⟩ | ⟨hk, -⟩
    · cases hpast
    · refine .inr ⟨hk, ?_⟩
      rintro past ⟨⟩
      exact .inl fun item hi => by cases hi
  call := by
    rintro c e a w past ⟨ht, hk⟩ hpast he hG hw
    refine ⟨(tracked_solo node (CutoverRecorded node)).call ht hpast he hG hw, ?_⟩
    rcases hk with ⟨past', p, ⟨⟩, hpend, hphase, hp⟩ | ⟨hphase, hclosed⟩
    · cases hwk : writesStatusOf k ⟨e, a⟩ with
      | true =>
        -- the cutover is written, and it goes through
        have hok := hG past k hpast hpend hwk
        obtain ⟨item, s, rfl, rfl, hs⟩ := cutover_of_pending hpend he hwk
        refine .inr ⟨?_, ?_⟩
        · rcases phase_of_write hw with ⟨-, hfail⟩ | hwritten
          · simp [hfail] at hok
          · rw [hwritten, hphase, hs]
            rfl
        · rintro past' ⟨⟩
          exact .inr ⟨_, mem_cons_self, hwk, hok⟩
      | false =>
        refine .inl ⟨_, p, rfl, ?_, (phase_eq_of_call hw hwk).trans hphase, hp⟩
        simp [pending, hwk, hpend]
    · have hwk := (hclosed past rfl).unwritten (a := a) (ht past rfl).distinct he
      refine .inr ⟨(phase_eq_of_call hw hwk).trans hphase, ?_⟩
      rintro past' ⟨⟩
      exact (hclosed past rfl).call hphase hw
  stop := by
    rintro w past r ⟨ht, hk⟩ hend
    refine ⟨(tracked_solo node (CutoverRecorded node)).stop ht hend, ?_⟩
    rcases hk with ⟨past', p, ⟨⟩, hpend, -⟩ | ⟨hphase, -⟩
    · simp [hend k] at hpend
    · exact .inr ⟨hphase, by rintro _ ⟨⟩⟩
  crash := by
    rintro c past ⟨ht, hk⟩ hpast hG
    refine ⟨(tracked_solo node (CutoverRecorded node)).crash ht hpast hG, ?_⟩
    rcases hk with ⟨past', p, ⟨⟩, hpend, -⟩ | ⟨hphase, -⟩
    · exact absurd rfl (hG past k hpast hpend)
    · exact .inr ⟨hphase, fun past' hp => by cases hp⟩
  env := by
    rintro c w ⟨ht, hk⟩ hw hG
    refine ⟨(tracked_solo node (CutoverRecorded node)).env ht hw hG, ?_⟩
    rcases hk with ⟨past, p, hpast, hpend, hphase, hp⟩ | ⟨hphase, hclosed⟩
    · exact .inl ⟨past, p, hpast, hpend, hw.phase_eq hphase, hp⟩
    · exact .inr ⟨hw.phase_eq hphase, hclosed⟩

/-! ## The theorem -/

theorem kept_of_commit {c₁ c₂ : ClusterConf} {url id : String}
    (hf : c₁.Follows (fun t h e => t = .agent node ∧ Rule (.agent node) h e) Ends)
    (ht : Tracked c₁.world (c₁.past (.agent node))) (hs : Step (sourceHost node) c₁
      (.call (.agent node) ⟨.peer item url (.commit id), .ok ()⟩) c₂) :
    Tracked c₂.world (c₂.past (.agent node)) ∧ Kept item.key c₂.world (c₂.past (.agent node)) := by
  cases hs with
  | @call _ _ _ past _ w at_call out =>
    have hpast : c₁.past (.agent node) = some past := by simp [Conf.past, at_call]
    rw [hpast] at ht
    have he := (hf _ _ at_call).1.2
    rw [past_put, Function.update_self]
    refine ⟨(tracked_solo node fun _ _ => True).call ht hpast he trivial out, .inl ?_⟩
    obtain ⟨new, base, rfl, turn, hd, about, hu⟩ := AgentRule.commit he
    have hphase := (ht _ rfl).turn turn about hu
    have hout : w ∈ outcomes c₁.world (.peer item url (.commit id)) (.ok ()) := out
    have hsame : w.phase item.key = c₁.world.phase item.key := phase_eq_of_call hout rfl
    refine ⟨_, item.status.phase, rfl, ?_, hsame.trans hphase, ?_⟩
    · simp [pending, writesStatusOf, commitsOf]
    · rintro (h | h | h) <;> rcases hd with hd | hd | hd <;> rw [h] at hd <;> cases hd

/-- After the destination has answered the Commit of a migration with success, the stored phase of
that migration is never `Failed`, `Cancelled` or `Blocked`, whatever else fails, as long as the
write that records the cutover goes through. -/
theorem committed_never_closed (node : String) (w : Store) {tr₁ tr₂ : List ClusterLabel}
    {c₁ c₂ c₃ : ClusterConf} {url id : String}
    (before : Run (sourceHost node) (fun _ _ => True) (Conf.idle w) tr₁ c₁)
    (commit : Step (sourceHost node) c₁
      (.call (.agent node) ⟨.peer item url (.commit id), .ok ()⟩) c₂)
    (after : Run (sourceHost node) (CutoverRecorded node) c₂ tr₂ c₃) :
    ∃ p, c₃.world.phase item.key = some p ∧ ¬GivenUp p := by
  have hf : c₁.Follows (fun t h e => t = .agent node ∧ Rule (.agent node) h e) Ends :=
    before.follows solo_of_start (follows_idle _ _ _)
  have ht : Tracked c₁.world (c₁.past (.agent node)) :=
    solo_run (tracked_solo node _) before (follows_idle _ _ _) fun past hp => by cases hp
  obtain ⟨-, hkept⟩ := solo_run (kept_solo node item.key) after
    (commit.follows solo_of_start hf) (kept_of_commit hf ht commit)
  rcases hkept with ⟨past, p, -, -, hphase, hp⟩ | ⟨hphase, -⟩
  · exact ⟨p, hphase, hp⟩
  · refine ⟨_, hphase, ?_⟩
    rintro (h | h | h) <;> cases h

/-! ## A write that fails -/

def sampleAgent : Agent.Config := ⟨"node-a", true, true, fun _ => "1"⟩

def transferring : Store :=
  storeOf [plainMachine "vm" "node-a" twoCores] [plainMigration "mig" "vm" .running]

abbrev ClusterMove := Move ClusterOp.Ans GoErr Process Store

def commitTick : List ClusterMove :=
  .start (.agent "node-a") (Agent.reconcile sampleAgent) ::
    List.replicate 25 (.call (.agent "node-a") works 0)

def lostCutover : List ClusterMove :=
  [.call (.agent "node-a") unreachable 0, .call (.agent "node-a") works 0]

def committing (c : ClusterConf) : Bool :=
  (c.past (.agent "node-a")).any (pending ⟨"default", "mig"⟩)

/-- A Commit is answered with success, the write of the cutover fails, and the migration is stored
as `Failed`. -/
theorem failed_write_closes_committed : ∃ tr₁ c₁ tr₂ c₂,
      Run (sourceHost "node-a") (fun _ _ => True) (Conf.idle transferring) tr₁ c₁ ∧
      committing c₁ = true ∧ Run (sourceHost "node-a") (fun _ _ => True) c₁ tr₂ c₂ ∧
      c₂.world.phase ⟨"default", "mig"⟩ = some .failed := by
  obtain ⟨tr₁, c₁, before, hcommit, hlost⟩ := exists_free_run (H := sourceHost "node-a")
    (P := fun _ c => committing c = true ∧ ((sourceHost "node-a").play (fun _ _ => true) c
      lostCutover).any (fun r => r.2.world.phase ⟨"default", "mig"⟩ = some .failed) = true)
    (Conf.idle transferring) commitTick ⟨rfl, sampleAgent, rfl, rfl⟩ (by decide +kernel)
  obtain ⟨tr₂, c₂, after, hphase⟩ := exists_free_run
    (P := fun _ c => c.world.phase ⟨"default", "mig"⟩ = some .failed) c₁ lostCutover trivial hlost
  exact ⟨tr₁, c₁, tr₂, c₂, before, hcommit, after, hphase⟩

def undisturbed (_ : ClusterConf) : ClusterLabel → Bool
  | .crash _ => false
  | .call _ ev => !failed ev.op ev.ans
  | _ => true

theorem undisturbed_sound {c : ClusterConf} {l : ClusterLabel} (h : undisturbed c l = true) :
    CutoverRecorded node c l := by
  intro past k _ _
  cases l with
  | crash t => cases h
  | call t ev =>
    intro _
    simpa [undisturbed] using h
  | _ => trivial

def answersCommit : ClusterLabel → Bool
  | .call (.agent "node-a") ⟨.peer _ _ (.commit _), .ok ()⟩ => true
  | _ => false

theorem committed_never_closed_in_tick : ∃ tr₁ c₁ item url id c₂ tr₂ c₃,
      Run (sourceHost "node-a") (fun _ _ => True) (Conf.idle transferring) tr₁ c₁ ∧
      Step (sourceHost "node-a") c₁
        (.call (.agent "node-a") ⟨.peer item url (.commit id), .ok ()⟩) c₂ ∧
      Run (sourceHost "node-a") (CutoverRecorded "node-a") c₂ tr₂ c₃ ∧
      ∃ p, c₃.world.phase item.key = some p ∧ ¬GivenUp p := by
  have hmay : (sourceHost "node-a").Allows
      (commitTick ++ [.call (.agent "node-a") works 0, .stop (.agent "node-a")]) :=
    ⟨rfl, sampleAgent, rfl, rfl⟩
  obtain ⟨tr, c, hrun, ht⟩ := exists_run_of_play
    (P := fun tr _ => tr.any answersCommit = true) undisturbed (fun _ _ h => undisturbed_sound h)
    (Conf.idle transferring) _ hmay (by decide +kernel)
  obtain ⟨l, hmem, hl⟩ := List.any_eq_true.mp ht
  obtain ⟨tr₁, tr₂, rfl⟩ := append_of_mem hmem
  obtain ⟨c₁, c₂, hbefore, -, hstep, hafter⟩ := hrun.split
  have hbefore : Run (sourceHost "node-a") (fun _ _ => True) (Conf.idle transferring) tr₁ c₁ :=
    hbefore.mono fun _ _ _ => trivial
  unfold answersCommit at hl
  split at hl
  next item url id =>
    exact ⟨tr₁, c₁, item, url, id, c₂, tr₂, c, hbefore, hstep, hafter,
      committed_never_closed "node-a" transferring hbefore hstep hafter⟩
  · cases hl

end Kairon
