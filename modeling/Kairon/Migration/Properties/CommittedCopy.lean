import Kairon.Migration.Network
import Kairon.Migration.Properties.TerminalPhase

/-!
# The committed copy

Once the inner driver has committed a session, the destination VM is the live copy. If resuming the
network or storing the phase fails then, the session still reads Prepared and the next abort or
reaper pass tears the live copy down.

* `carried_run`: what a run keeps that carries every commit through
* `committed_copy_survives`: in such a run no committed copy is torn down
-/

namespace Kairon.Migration

open Infra List Host Conf Pasts

variable {X : Type}

abbrev NetConf (X : Type) := Conf (ServerOp.Ans NetworkOp.Ans) Outcome Nat (ServerWorld X)

abbrev NetLabel (X : Type) := Label (ServerOp.Ans NetworkOp.Ans) Outcome Nat (ServerWorld X)

def CommittedIn (tr : List (NetLabel X)) (id : String) : Prop :=
  ∃ t s, .call t ⟨.driver (.commit s), .ok ()⟩ ∈ tr ∧ s.id = id

def Unclaimed (w : ServerWorld X) (id : String) : Prop :=
  w.locks id = none ∧ w.store.phase id ≠ some .committed

/--
The condition on a step.

Between a successful inner Commit and the stored phase, neither resuming the network nor the `Put`
fails. A `Put` made without the lock finds an unfinished session. `prepare` gives up on a
destination, which it does without the lock, only while nobody has claimed the session.
-/
def CommitCarried (c : NetConf X) (l : NetLabel X) : Prop :=
  NoLateWrite c l ∧ match l with
    | .call t ⟨.driver (.networkMigrationResume _), .error _⟩ =>
      ∀ past, c.past t = some past → pendingCommit past = false
    | .call t ⟨.put _, .error _⟩ => ∀ past, c.past t = some past → pendingCommit past = false
    | .call t ⟨.driver (.abort s), _⟩ =>
      ∀ past, c.past t = some past → Free past → Unclaimed c.world s.id
    | _ => True

structure Carried (tr : List (NetLabel X)) (c : NetConf X) : Prop where
  /-- A pending commit is inside a section, and nothing has failed since. -/
  window : ∀ t past, c.past t = some past → pendingCommit past = true →
    (∃ id, held past = some id) ∧ justFailed past = false
  /-- A committed session is stored so, or its section is still on the way to it. -/
  live : ∀ id, CommittedIn tr id → c.world.store.phase id = some .committed ∨
    ∃ t past, c.past t = some past ∧ held past = some id ∧ pendingCommit past = true

section Step

variable {S : Server NetworkOp.Ans} {services : X → (d : NetworkOp) → NetworkOp.Ans d → List X}
  {tr : List (NetLabel X)} {c : NetConf X} {t : Nat} {past : List NetEvent}

theorem committedIn_append {l : NetLabel X} {id : String} (h : CommittedIn (tr ++ [l]) id) :
    CommittedIn tr id ∨ ∃ t s, l = .call t ⟨.driver (.commit s), .ok ()⟩ ∧ s.id = id := by
  obtain ⟨t, s, hmem, hid⟩ := h
  rcases mem_append.mp hmem with hmem | hmem
  · exact .inl ⟨t, s, hmem, hid⟩
  · exact .inr ⟨t, s, (mem_singleton.mp hmem).symm, hid⟩

theorem window_cons {e : ServerOp NetworkOp} {a : ServerOp.Ans NetworkOp.Ans e}
    (hpast : c.past t = some past) (hG : CommitCarried c (.call t ⟨e, a⟩)) (hrule : copyRule past e)
    (hwin : pendingCommit past = true → (∃ id, held past = some id) ∧ justFailed past = false) :
    pendingCommit (⟨e, a⟩ :: past) = true →
      (∃ id, held (⟨e, a⟩ :: past) = some id) ∧ justFailed (⟨e, a⟩ :: past) = false := by
  intro hp
  cases e with
  | get id => exact ⟨(hwin hp).1, rfl⟩
  | list => exact ⟨(hwin hp).1, rfl⟩
  | now => exact ⟨(hwin hp).1, rfl⟩
  | lock id => cases hp
  | unlock id => cases hp
  | put s =>
    rcases a with err | u
    · have hnone := hG.2 past hpast
      exact absurd (show pendingCommit past = true from hp) (by simp [hnone])
    · cases hp
  | driver d =>
    cases d with
    | prepare s => exact ⟨(hwin hp).1, rfl⟩
    | abort s => exact ⟨(hwin hp).1, rfl⟩
    | networkMigrationRestore r s => exact ⟨(hwin hp).1, rfl⟩
    | restoreConntrack r s => exact ⟨(hwin hp).1, rfl⟩
    | lookupByName n => exact ⟨(hwin hp).1, rfl⟩
    | clock => exact ⟨(hwin hp).1, rfl⟩
    | commit s =>
      obtain ⟨-, id, hheld, -⟩ := hrule
      exact ⟨⟨id, hheld⟩, rfl⟩
    | networkMigrationResume r =>
      rcases a with err | u
      · have hnone := hG.2 past hpast
        exact absurd (show pendingCommit past = true from hp) (by simp [hnone])
      · exact ⟨(hwin hp).1, rfl⟩

theorem holder_step {w w' : ServerWorld X}
    {e : ServerOp NetworkOp} {a : ServerOp.Ans NetworkOp.Ans e} {id : String}
    (hi : Informed w t past) (hheld : held past = some id) (hp : pendingCommit past = true)
    (hok : justFailed past = false) (hrule : sectionRule past e) (hcopy : copyRule past e)
    (hout : w' ∈ serverOutcomes services t w e a) : w'.store.phase id = some .committed ∨
      (held (⟨e, a⟩ :: past) = some id ∧ pendingCommit (⟨e, a⟩ :: past) = true) := by
  cases e with
  | get id => exact .inr ⟨hheld, hp⟩
  | list => exact .inr ⟨hheld, hp⟩
  | now => exact .inr ⟨hheld, hp⟩
  | lock id =>
    have hfree : held past = none := hrule
    simp [hfree] at hheld
  | unlock id =>
    have hfailed : justFailed past = true := hcopy hp
    simp [hok] at hfailed
  | put s =>
    rcases a with err | u
    · exact .inr ⟨hheld, hp⟩
    · obtain ⟨-, rfl⟩ := mem_outcomes_put_ok.mp hout
      simp only [sectionRule, hheld] at hrule
      obtain ⟨s₀, hr, hs, -⟩ := hrule
      have hid : s.id = id := hs.trans (hi.keyed id s₀ hr)
      refine .inl ?_
      rw [SessionStore.phase_insert, if_pos hid]
      exact congrArg some (hcopy hp)
  | driver d =>
    cases d with
    | commit s =>
      obtain ⟨hnone, -⟩ := hcopy
      simp [hnone] at hp
    | prepare s => exact .inr ⟨hheld, hp⟩
    | abort s => exact .inr ⟨hheld, hp⟩
    | networkMigrationRestore r s => exact .inr ⟨hheld, hp⟩
    | restoreConntrack r s => exact .inr ⟨hheld, hp⟩
    | networkMigrationResume r => exact .inr ⟨hheld, hp⟩
    | lookupByName n => exact .inr ⟨hheld, hp⟩
    | clock => exact .inr ⟨hheld, hp⟩

theorem past_put_of_ne {w : ServerWorld X} {u : Nat}
    {th : Option (Thread (ServerOp.Ans NetworkOp.Ans) Outcome)}
    (hut : u ≠ t) (h : c.past u = some past) : (c.put w t th).past u = some past := by
  rwa [past_put, Function.update_of_ne hut]

theorem Carried.put {l : NetLabel X} {th : Option (Thread (ServerOp.Ans NetworkOp.Ans) Outcome)}
    (h : Carried tr c) (hl : ∀ t' s, l ≠ .call t' ⟨.driver (.commit s), .ok ()⟩)
    (hfree : ∀ past, c.past t = some past → held past = none)
    (hth : ∀ past, th.map Thread.past = some past → pendingCommit past = false) :
    Carried (tr ++ [l]) (c.put c.world t th) := by
  constructor
  · rw [past_put]
    refine forall_update (fun past hn hp => ?_) fun u past _ hu => h.window u past hu
    simp [hth past hn] at hp
  · intro id hid
    rcases committedIn_append hid with hid | ⟨t', s, hl', -⟩
    · refine (h.live id hid).imp_right fun ⟨u, past, hu, hheld, hp⟩ => ?_
      have hut : u ≠ t := by
        rintro rfl
        simp [hfree past hu] at hheld
      exact ⟨u, past, past_put_of_ne hut hu, hheld, hp⟩
    · exact absurd hl' (hl t' s)

theorem Carried.step {l : NetLabel X} {c' : NetConf X} (h : Carried tr c)
    (hs : Step (serverHost S services) c l c')
    (hf : c.Follows (fun _ => sectionRule) fun _ past _ => Free past)
    (hcopy : c.Follows (fun _ => copyRule) fun _ _ _ => True) (hi : AllInformed c.world c.past)
    (hG : CommitCarried c l) : Carried (tr ++ [l]) c' := by
  have hphase : ∀ id, c.world.store.phase id = some .committed →
      c'.world.store.phase id = some .committed :=
    fun id hp => finished_phase_step hf hi hs hG.1 hp rfl
  cases hs with
  | env may => exact may.elim
  | crash may live => exact may.elim
  | @start t p free may =>
    refine h.put (by simp) (fun past hu => ?_) fun past hn => by cases hn; rfl
    simp [Conf.past, free] at hu
  | @stop t r past at_ret =>
    refine h.put (by simp) (fun pastU hu => ?_) (by rintro _ ⟨⟩)
    -- a thread that returns holds no lock
    obtain rfl : past = pastU := by simpa [Conf.past, at_ret] using hu
    exact hf _ _ at_ret
  | @call t e k past a w at_call out =>
    have hpast : c.past t = some past := by simp [Conf.past, at_call]
    have hrule : sectionRule past e := (hf _ _ at_call).1
    have hcp : copyRule past e := (hcopy _ _ at_call).1
    constructor
    · rw [past_put]
      refine forall_update ?_ fun u pastU _ hu => h.window u pastU hu
      rintro past' ⟨⟩
      exact window_cons hpast hG hcp (h.window t past hpast)
    · intro id hid
      have hnew : (c.put w t (some ⟨k a, ⟨e, a⟩ :: past⟩)).past t = some (⟨e, a⟩ :: past) := by
        rw [past_put, Function.update_self]
        rfl
      rcases committedIn_append hid with hid | ⟨t', s, hl, hsid⟩
      · rcases h.live id hid with hp | ⟨u, pastU, hu, hheld, hp⟩
        · exact .inl (hphase id hp)
        · by_cases hut : u = t
          · subst hut
            obtain rfl : past = pastU := Option.some.inj (hpast.symm.trans hu)
            rcases holder_step (hi _ _ hpast) hheld hp (h.window _ _ hpast hp).2 hrule hcp out with
              hd | ⟨hheld', hp'⟩
            · exact .inl hd
            · exact .inr ⟨u, _, hnew, hheld', hp'⟩
          · exact .inr ⟨u, pastU, past_put_of_ne hut hu, hheld, hp⟩
      · cases hl
        obtain ⟨-, id', hheld, hread⟩ := hcp
        have hid' : id' = id := ((hi _ _ hpast).keyed id' s hread).symm.trans hsid
        subst hid'
        exact .inr ⟨t, _, hnew, hheld, rfl⟩

theorem abort_not_committed {s : Session} {k : GoErr → Prog (ServerOp.Ans NetworkOp.Ans) Outcome}
    {a : GoErr} (h : Carried tr c) (hat : c.thread t = some ⟨.call (.driver (.abort s)) k, past⟩)
    (hcopy : c.Follows (fun _ => copyRule) fun _ _ _ => True) (hi : AllInformed c.world c.past)
    (hG : CommitCarried c (.call t ⟨.driver (.abort s), a⟩)) : ¬ CommittedIn tr s.id := by
  intro hcommitted
  have hpast : c.past t = some past := by simp [Conf.past, hat]
  have hrule : copyRule past (.driver (.abort s)) := (hcopy _ _ hat).1
  rcases h.live s.id hcommitted with hp | ⟨u, pastU, hu, hheldU, hpU⟩
  · cases hheld : held past with
    | none => exact (hG.2 past hpast hheld).2 hp
    | some id =>
      obtain ⟨-, hread, hopen⟩ := hrule id hheld
      have hid : s.id = id := (hi t past hpast).keyed id s hread
      have := (hi t past hpast).unfinished id s hheld hread hopen .committed (hid ▸ hp)
      cases this
  · have hlockU := (hi u pastU hu).locked _ hheldU
    cases hheld : held past with
    | none =>
      simp [(hG.2 past hpast hheld).1] at hlockU
    | some id =>
      obtain ⟨hnone, hread, -⟩ := hrule id hheld
      have hid : s.id = id := (hi t past hpast).keyed id s hread
      rw [hid, (hi t past hpast).locked id hheld] at hlockU
      cases hlockU
      obtain rfl : past = pastU := Option.some.inj (hpast.symm.trans hu)
      rw [hnone] at hpU
      cases hpU

end Step

/-- In the trace no inner Abort of a session follows a successful inner Commit of it. -/
def NeverTornDown (tr : List (NetLabel X)) : Prop :=
  ∀ tr₁ t s a tr₂, tr = tr₁ ++ .call t ⟨.driver (.abort s), a⟩ :: tr₂ → ¬ CommittedIn tr₁ s.id

theorem carried_run {S : Server NetworkOp.Ans} {N : NetworkAwareDestination}
    (hS : S.driver = some N.driver) {services : X → (d : NetworkOp) → NetworkOp.Ans d → List X}
    {st : SessionStore} {x : X} {tr : List (NetLabel X)} {c : NetConf X}
    (h : Run (serverHost S services) CommitCarried (serverIdle st x) tr c) :
    Carried tr c ∧ c.Follows (fun _ => copyRule) fun _ _ _ => True := by
  induction h with
  | nil =>
    refine ⟨⟨fun t past hp => ?_, fun id hid => ?_⟩, follows_idle _ _ _⟩
    · cases hp
    · obtain ⟨t, s, hmem, -⟩ := hid
      cases hmem
  | snoc run meets step ih =>
    refine ⟨ih.1.step step (server_run_follows run) ih.2 (allInformed_run run) meets, ?_⟩
    exact step.follows (fun _ _ hp => entry_keeps_copyRule hS hp) ih.2

/-- In every run that meets the condition, the inner driver is never asked to abort a session whose
inner Commit has succeeded. -/
theorem committed_copy_survives (S : Server NetworkOp.Ans) (N : NetworkAwareDestination)
    (hS : S.driver = some N.driver) (services : X → (d : NetworkOp) → NetworkOp.Ans d → List X)
    (st : SessionStore) (x : X) {tr : List (NetLabel X)} {c : NetConf X}
    (h : Run (serverHost S services) CommitCarried (serverIdle st x) tr c) : NeverTornDown tr := by
  rintro tr₁ t s a tr₂ rfl
  obtain ⟨c₁, c₂, hrun, hG, hstep, -⟩ := h.split
  obtain ⟨hcarried, hcopy⟩ := carried_run hS hrun
  cases hstep with
  | call at_call out => exact abort_not_committed hcarried at_call hcopy (allInformed_run hrun) hG

/-! ## A resume that fails -/

def sampleDestination : NetworkAwareDestination where
  flux := true
  checkConntrack _ := .ok ()

def networkServer : Server NetworkOp.Ans where
  store := true
  driver := some sampleDestination.driver
  nodeName := "node-b"
  heartbeatTTL := 0
  formatDuration _ := "0s"

abbrev networkHost := serverHost networkServer fun _ : Unit => fun (_ : NetworkOp) _ => [()]

def networkAnswers (resumes : Bool) : (d : NetworkOp) → NetworkOp.Ans d
  | .prepare _ => .ok ⟨true, "tcp:10.0.0.2:4444", "qemu", "", false⟩
  | .commit _ => .ok ()
  | .abort _ => .ok ()
  | .networkMigrationRestore _ _ => .ok ()
  | .restoreConntrack _ _ => .ok ()
  | .networkMigrationResume _ => if resumes then .ok () else .error "timeout"
  | .lookupByName _ => .ok none
  | .clock => (1 : Int)

def networkCall (resumes : Bool) (t : Nat) :
    Move (ServerOp.Ans NetworkOp.Ans) Outcome Nat (ServerWorld Unit) :=
  .call t (faultless (networkAnswers resumes) 1) 0

def commitThenAbort : List (Move (ServerOp.Ans NetworkOp.Ans) Outcome Nat (ServerWorld Unit)) :=
  .start 0 (networkServer.commit "kmm-1") :: List.replicate 5 (networkCall false 0) ++
    .stop 0 :: .start 1 (networkServer.abort "kmm-1") :: List.replicate 2 (networkCall false 1)

/-- A failed network resume leaves the session Prepared after the inner Commit, and the next abort
asks the inner driver to abort it. -/
theorem failed_resume_aborts_committed :
    ∃ tr c, Run networkHost (fun _ _ => True) (serverIdle ⟨[sampleSession .prepared]⟩ ()) tr c ∧
      ¬ NeverTornDown tr := by
  have may : networkHost.Allows commitThenAbort := ⟨.commit _, .abort _⟩
  have run := run_of_play (c := serverIdle ⟨[sampleSession .prepared]⟩ ()) may rfl
  have torn := run.snoc trivial (step_of_move 1 (faultless (networkAnswers false) 1) 0 rfl)
  exact ⟨_, _, torn, fun hnever => hnever _ 1 (sampleSession .prepared) _ [] rfl
    ⟨0, sampleSession .prepared, mem_of_getElem? (i := 3) rfl, rfl⟩⟩

def commitCarried (c : NetConf X) (l : NetLabel X) : Bool :=
  noLateWrite c l &&
    match l with
    | .call t ⟨.driver (.networkMigrationResume _), .error _⟩ =>
      (c.past t).all fun past => !pendingCommit past
    | .call t ⟨.put _, .error _⟩ => (c.past t).all fun past => !pendingCommit past
    | .call t ⟨.driver (.abort s), _⟩ =>
      (c.past t).all fun past => (held past).isSome ||
        ((c.world.locks s.id).isNone && c.world.store.phase s.id != some .committed)
    | _ => true

theorem commitCarried_sound (c : NetConf X) (l : NetLabel X) (h : commitCarried c l = true) :
    CommitCarried c l := by
  unfold commitCarried at h
  rw [Bool.and_eq_true] at h
  refine ⟨noLateWrite_sound c l h.1, ?_⟩
  have h₂ := h.2
  split
  · intro past hpast
    simpa [hpast] using h₂
  · intro past hpast
    simpa [hpast] using h₂
  · intro past hpast hfree
    simpa [hpast, show held past = none from hfree, Unclaimed] using h₂
  · trivial

def commitThenRefused : List (Move (ServerOp.Ans NetworkOp.Ans) Outcome Nat (ServerWorld Unit)) :=
  .start 0 (networkServer.commit "kmm-1") :: List.replicate 7 (networkCall true 0) ++
    .stop 0 :: .start 1 (networkServer.abort "kmm-1") :: List.replicate 3 (networkCall true 1) ++
    [.stop 1]

theorem committed_copy_survives_commit :
    ∃ tr c, Run networkHost CommitCarried (serverIdle ⟨[sampleSession .prepared]⟩ ()) tr c ∧
      CommittedIn tr "kmm-1" ∧ NeverTornDown tr := by
  have may : networkHost.Allows commitThenRefused := ⟨.commit _, .abort _⟩
  have run := play_sound commitCarried_sound (c := serverIdle ⟨[sampleSession .prepared]⟩ ())
    may rfl
  exact ⟨_, _, run, ⟨0, sampleSession .prepared, mem_of_getElem? (i := 3) rfl, rfl⟩,
    committed_copy_survives networkServer sampleDestination rfl _ _ _ run⟩

end Kairon.Migration
