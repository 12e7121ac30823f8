import Kairon.Snapshot.System

/-!
# The quiesce request of a snapshot that is no longer in progress

The request is taken back where the snapshot pass expects to be done with the guest. The exits that
it does not expect leave the request on the Machine.

* `settled_inductive`, `request_taken_back`: requests of snapshots that are over
* `told_inductive`, `frozen_guest_annotated`: what tells of a frozen guest
-/

namespace Kairon.Snapshot

open Infra Model Cluster List Option Host Pasts

/-- When the status of a snapshot is written after trouble, its request is not out. -/
def Unhindered (cfg : Config) : Guard SnapshotOp.Ans GoErr Party World :=
  fun c l =>
    match l with
    | .call .controller ev =>
      ∀ k st, ev.op = .patchMachineSnapshotStatus k st → ∀ past, c.past .controller = some past →
        ∀ s ∈ snapshotsSeen past, s.key = k → trouble cfg (machinesSeen past) s past = true →
          c.world.requested cfg s.target ≠ some s.metadata.name
    | _ => True

variable {cfg : Config} {A : Assignment} {w w' : World} {h : History} {e : SnapshotOp} {a : e.Ans}

/-! ## What changes the requests -/

theorem requested_effect (w : World) (e : SnapshotOp) (a : e.Ans) (k : ObjectKey) :
    (effect w e a).requested cfg k = w.requested cfg k ∨
      ∃ o v, e = .patchQuiesceRequest o k v ∧ ((effect w e a).requested cfg k = none ∨
        (effect w e a).requested cfg k =
          v.bind fun x => (parseQuiesceRef cfg.layout x).map Prod.fst) := by
  unfold World.requested
  rcases annotation_effect w e a k annotationQuiesceRequest with hsame | ⟨v, hx, hnew⟩
  · exact .inl (by rw [hsame])
  · cases e with
    | patchQuiesceRequest o k' v' =>
      cases hx
      refine .inr ⟨o, v, rfl, ?_⟩
      rw [hnew]
      cases w.machines.find k with
      | none => exact .inl rfl
      | some m => exact .inr rfl
    | patchQuiesceStatus k' v' =>
      simp [annotates, annotationQuiesceStatus, annotationQuiesceRequest] at hx
    | _ => cases hx

theorem requested_of_call {k : ObjectKey} {n : String} (hw : w' ∈ outcomes w e a)
    (hn : w'.requested cfg k = some n) : w.requested cfg k = some n ∨
      ∃ o v t, e = .patchQuiesceRequest o k (some v) ∧
        parseQuiesceRef cfg.layout v = some (n, t) := by
  rcases (mem_outcomes_iff.mp hw).2 with rfl | ⟨-, rfl⟩
  · rcases requested_effect w e a k with hsame | ⟨o, v, rfl, hnone | hnew⟩
    · exact .inl (hsame ▸ hn)
    · simp [hnone] at hn
    · rw [hnew] at hn
      obtain ⟨x, rfl, hparse⟩ := bind_eq_some_iff.mp hn
      obtain ⟨⟨n', t⟩, href, rfl⟩ := map_eq_some_iff.mp hparse
      exact .inr ⟨o, x, t, rfl, href⟩
  · exact .inl hn

theorem snapshot_of_call {s' : MachineSnapshot} (hw : w' ∈ outcomes w e a)
    (hs : s' ∈ w'.snapshots.rows) : ∃ s ∈ w.snapshots.rows, s.key = s'.key ∧ s.spec = s'.spec ∧
      (s'.status.phase = s.status.phase ∨
        ∃ st, e = .patchMachineSnapshotStatus s.key st ∧ s'.status.phase = st.phase) := by
  rcases (mem_outcomes_iff.mp hw).2 with rfl | ⟨-, rfl⟩
  · exact snapshot_effect hs
  · exact ⟨s', hs, rfl, rfl, .inl rfl⟩

theorem name_eq_of_key {s s' : MachineSnapshot} (hk : s.key = s'.key) :
    s.metadata.name = s'.metadata.name :=
  congrArg ObjectKey.name hk

theorem key_eq_of_target {s s' : MachineSnapshot} (ht : s.target = s'.target)
    (hn : s.metadata.name = s'.metadata.name) : s.key = s'.key := by
  have hns : s.target.namespace = s'.target.namespace := by rw [ht]
  have hkey : ∀ s : MachineSnapshot, s.key = ⟨s.key.namespace, s.metadata.name⟩ := fun _ => rfl
  rw [hkey s, hkey s', hn]
  exact congrArg (ObjectKey.mk · s'.metadata.name) hns

/-! ## The invariant -/

/-- No snapshot past its freeze has a request out. -/
structure Settled (cfg : Config) (A : Assignment) (w : World) : Prop where
  target : ∀ s ∈ w.snapshots.rows, s.target = A.target s.key
  unasked : ∀ s ∈ w.snapshots.rows, pastFreeze s.status.phase = true →
    w.requested cfg s.target ≠ some s.metadata.name

structure Knows (cfg : Config) (A : Assignment) (w : World) (h : History) : Prop where
  distinct : ((snapshotsSeen h).map MachineSnapshot.key).Nodup
  target : ∀ s ∈ snapshotsSeen h, s.target = A.target s.key
  back : ∀ k, takenBack k h = true → w.requested cfg k = none
  unasked : ∀ s ∈ snapshotsSeen h, pastFreeze s.status.phase = true →
    w.requested cfg s.target ≠ some s.metadata.name
  /-- A freeze that the pass has not reported on is one that the API server still shows. -/
  freezing : ∀ s ∈ snapshotsSeen h, pastFreeze s.status.phase = false →
    (∀ ev ∈ h, recorded s.key ev = false) →
    ∀ s' ∈ w.snapshots.rows, s'.key = s.key → pastFreeze s'.status.phase = false

theorem Knows.nil : Knows cfg A w [] where
  distinct := nodup_nil
  target _ hs := by cases hs
  back _ hb := by cases hb
  unasked _ hs := by cases hs
  freezing _ hs := by cases hs

structure Calm (cfg : Config) (A : Assignment) (w w' : World) : Prop where
  target : ∀ s ∈ w'.snapshots.rows, s.target = A.target s.key
  asked : ∀ k n, w'.requested cfg k = some n → w.requested cfg k = some n
  phases : ∀ s' ∈ w'.snapshots.rows, pastFreeze s'.status.phase = true →
    ∃ s ∈ w.snapshots.rows, s.key = s'.key ∧ pastFreeze s.status.phase = true

theorem Settled.calm (hs : Settled cfg A w) (hc : Calm cfg A w w') : Settled cfg A w' where
  target := hc.target
  unasked s' hs' hphase hn := by
    obtain ⟨s, hrow, hkey, hp⟩ := hc.phases s' hs' hphase
    have htarget : s.target = s'.target := by rw [hs.target s hrow, hc.target s' hs', hkey]
    refine hs.unasked s hrow hp ?_
    rw [htarget, name_eq_of_key hkey]
    exact hc.asked _ _ hn

theorem Knows.calm (hk : Knows cfg A w h) (hc : Calm cfg A w w') : Knows cfg A w' h where
  distinct := hk.distinct
  target := hk.target
  back k hb := by
    cases hn : w'.requested cfg k with
    | none => rfl
    | some n =>
      have hnone := hk.back k hb
      simp [hc.asked k n hn] at hnone
  unasked s hs hphase hn := hk.unasked s hs hphase (hc.asked _ _ hn)
  freezing s hs hphase hno s' hs' hkey := by
    by_contra hpast
    rw [Bool.not_eq_false] at hpast
    obtain ⟨s₀, hrow, hkey₀, hp⟩ := hc.phases s' hs' hpast
    simp [hk.freezing s hs hphase hno s₀ hrow (hkey₀.trans hkey)] at hp

theorem Elsewhere.calm (he : Elsewhere A w w') : Calm cfg A w w' where
  target := he.assigned.target
  asked k n hn := by
    obtain ⟨v, hv, hparse⟩ := bind_eq_some_iff.mp hn
    unfold World.requested
    rwa [he.written k _ v (.inl rfl) hv]
  phases := he.phases

theorem QuiesceRule.calm {node : String} (he : QuiesceRule node h e) (hs : Settled cfg A w)
    (hw : w' ∈ outcomes w e a) : Calm cfg A w w' := by
  have hrow : ∀ s' ∈ w'.snapshots.rows, ∃ s ∈ w.snapshots.rows, s.key = s'.key ∧
      s.spec = s'.spec ∧ s'.status.phase = s.status.phase := by
    intro s' hs'
    obtain ⟨s, hs, hkey, hspec, hphase | ⟨st, rfl, -⟩⟩ := snapshot_of_call hw hs'
    · exact ⟨s, hs, hkey, hspec, hphase⟩
    · exact he.elim
  refine ⟨fun s' hs' => ?_, fun k n hn => ?_, fun s' hs' hphase => ?_⟩
  · obtain ⟨s, hrow, hkey, hspec, -⟩ := hrow s' hs'
    rw [← hkey, ← hs.target s hrow, MachineSnapshot.target, MachineSnapshot.target, hkey, hspec]
  · rcases requested_of_call hw hn with hold | ⟨o, v, t, rfl, -⟩
    · exact hold
    · exact he.elim
  · obtain ⟨s, hrow, hkey, -, hp⟩ := hrow s' hs'
    exact ⟨s, hrow, hkey, hp ▸ hphase⟩

/-! ## The steps of the controller -/

theorem SnapshotRule.item (he : SnapshotRule cfg h e) (hk : Knows cfg A w h)
    (hown : e.owner.isSome = true) :
    ∃ s ∈ snapshotsSeen h, ItemRule cfg (machinesSeen h) s h e := by
  rcases he with rfl | rfl | he
  · cases hown
  · cases hown
  · exact he.2 hk.distinct

theorem SnapshotRule.asked {k : ObjectKey} {n : String} (he : SnapshotRule cfg h e)
    (hk : Knows cfg A w h) (hw : w' ∈ outcomes w e a) (hn : w'.requested cfg k = some n) :
    w.requested cfg k = some n ∨ ∃ s ∈ snapshotsSeen h, s.target = k ∧ s.metadata.name = n ∧
        pastFreeze s.status.phase = false ∧ ∀ ev ∈ h, recorded s.key ev = false := by
  rcases requested_of_call hw hn with hold | ⟨o, v, t, rfl, hparse⟩
  · exact .inl hold
  · obtain ⟨s, hs, -, rfl, hphase, ⟨t', rfl⟩, hno⟩ := he.item hk rfl
    exact .inr ⟨s, hs, rfl, (name_of_parseQuiesceRef hparse).symm, hphase, hno⟩

theorem Settled.call (hset : Settled cfg A w) (hk : Knows cfg A w h) (he : SnapshotRule cfg h e)
    (hG : ∀ k st, e = .patchMachineSnapshotStatus k st → ∀ s ∈ snapshotsSeen h, s.key = k →
      trouble cfg (machinesSeen h) s h = true → w.requested cfg s.target ≠ some s.metadata.name)
    (hw : w' ∈ outcomes w e a) : Settled cfg A w' := by
  have htarget : ∀ s' ∈ w'.snapshots.rows, ∀ s ∈ w.snapshots.rows, s.key = s'.key →
      s.spec = s'.spec → s.target = s'.target := by
    intro s' _ s _ hkey hspec
    rw [MachineSnapshot.target, MachineSnapshot.target, hkey, hspec]
  refine ⟨fun s' hs' => ?_, fun s' hs' hphase hn => ?_⟩
  · obtain ⟨s, hrow, hkey, hspec, -⟩ := snapshot_of_call hw hs'
    rw [← htarget s' hs' s hrow hkey hspec, hset.target s hrow, hkey]
  · obtain ⟨s, hrow, hkey, hspec, hsame⟩ := snapshot_of_call hw hs'
    rw [← htarget s' hs' s hrow hkey hspec, ← name_eq_of_key hkey] at hn
    rcases hsame with hsame | ⟨st, rfl, hst⟩
    · rw [hsame] at hphase
      rcases he.asked hk hw hn with hold | ⟨s₀, hs₀, ht₀, hn₀, hp₀, hno⟩
      · exact hset.unasked s hrow hphase hold
      · -- the request is put there for a snapshot that is still to be frozen
        simp [hk.freezing s₀ hs₀ hp₀ hno s hrow (key_eq_of_target ht₀ hn₀).symm] at hphase
    · -- a phase after the freeze is written: the pass has had a reason
      have hold : w.requested cfg s.target = some s.metadata.name := by
        rcases requested_of_call hw hn with hold | ⟨o, v, t, hx, -⟩
        · exact hold
        · cases hx
      obtain ⟨s₀, hs₀, hkey₀, hreason⟩ := he.item hk rfl
      have ht₀ : s₀.target = s.target := by rw [hk.target s₀ hs₀, hset.target s hrow, ← hkey₀]
      rw [← ht₀, name_eq_of_key hkey₀] at hold
      rcases hreason (hst ▸ hphase) with hpast | hback | htrouble
      · exact hk.unasked s₀ hs₀ hpast hold
      · simp [hk.back _ hback] at hold
      · exact hG _ st rfl s₀ hs₀ hkey₀.symm htrouble hold

theorem Knows.back_of_call {k : ObjectKey} (hk : Knows cfg A w h) (hw : w' ∈ outcomes w e a)
    (hb : takenBack k (⟨e, a⟩ :: h) = true) : w'.requested cfg k = none := by
  have hkeep : takenBack k h = true → (∀ o v, e ≠ .patchQuiesceRequest o k (some v)) →
      w'.requested cfg k = none := by
    intro hback hno
    by_contra hsome
    obtain ⟨n, hn⟩ := ne_none_iff_exists'.mp hsome
    rcases requested_of_call hw hn with hold | ⟨o, v, t, rfl, -⟩
    · simp [hk.back k hback] at hold
    · exact hno o v rfl
  cases e with
  | patchQuiesceRequest o k' v =>
    by_cases hkk : k' = k
    · subst hkk
      obtain ⟨rfl, rfl⟩ := of_takenBack hb
      -- the removal was answered without an error, so it was carried out
      have heff : w' = w.annotate k' annotationQuiesceRequest none := by
        simpa [failed, effect] using (mem_outcomes_iff.mp hw).2
      rw [heff]
      cases hfind : w.machines.find k' <;>
        simp [World.requested, World.annotation_annotate, hfind]
    · rw [takenBack_of_ne hkk] at hb
      exact hkeep hb fun _ _ hx => by cases hx; exact hkk rfl
  | _ => exact hkeep hb (by simp)

theorem Knows.call (hk : Knows cfg A w h) (he : SnapshotRule cfg h e) (hw : w' ∈ outcomes w e a)
    (hseen : snapshotsSeen (⟨e, a⟩ :: h) = snapshotsSeen h) : Knows cfg A w' (⟨e, a⟩ :: h) where
  distinct := hseen ▸ hk.distinct
  target := hseen ▸ hk.target
  back _ hb := hk.back_of_call hw hb
  unasked s hs hphase hn := by
    rw [hseen] at hs
    rcases he.asked hk hw hn with hold | ⟨s₀, hs₀, ht₀, hn₀, hp₀, -⟩
    · exact hk.unasked s hs hphase hold
    · have hsame := inj_on_of_nodup_map hk.distinct hs₀ hs (key_eq_of_target ht₀ hn₀)
      simp [hsame, hphase] at hp₀
  freezing s hs hphase hno s' hs' hkey := by
    rw [hseen] at hs
    obtain ⟨hev, hno⟩ := forall_mem_cons.mp hno
    obtain ⟨s₀, hrow, hkey₀, -, hsame | ⟨st, rfl, -⟩⟩ := snapshot_of_call hw hs'
    · rw [hsame]
      exact hk.freezing s hs hphase hno s₀ hrow (hkey₀.trans hkey)
    · simp [recorded, hkey₀.trans hkey] at hev

theorem Knows.listed {ss : List MachineSnapshot} (hk : Knows cfg A w h) (hset : Settled cfg A w)
    (hperm : ss.Perm w.snapshots.rows) : Knows cfg A w (⟨.listMachineSnapshots, .ok ss⟩ :: h) where
  distinct := (hperm.map MachineSnapshot.key).nodup_iff.mpr w.snapshots.distinct
  target s hs := hset.target s (hperm.subset hs)
  back k hb := hk.back k hb
  unasked s hs := hset.unasked s (hperm.subset hs)
  freezing s hs hphase _ s' hs' hkey := by
    rw [inj_on_of_nodup_map w.snapshots.distinct hs' (hperm.subset hs) hkey, hphase]

theorem Knows.step (hk : Knows cfg A w h) (hset : Settled cfg A w) (he : SnapshotRule cfg h e)
    (hw : w' ∈ outcomes w e a) : Knows cfg A w' (⟨e, a⟩ :: h) := by
  cases e with
  | listMachineSnapshots =>
    cases a with
    | error err => exact hk.call he hw rfl
    | ok ss =>
      obtain ⟨hperm, hsame⟩ := mem_outcomes_iff.mp hw
      obtain rfl : w' = w := by simpa [effect, failed] using hsame
      exact hk.listed hset (isPerm_iff.mp hperm)
  | _ => exact hk.call he hw rfl

/-! ## Every run -/

theorem settled_inductive (cfg : Config) (A : Assignment) :
    Inductive (quiesceHost cfg A) (PartyRule cfg) (fun _ => Anyhow) (Unhindered cfg)
      fun w ps => Settled cfg A w ∧ ∀ t h, ps t = some h → t = .controller → Knows cfg A w h where
  start := by
    rintro w ps t ⟨hset, hk⟩ _
    refine ⟨hset, forall_update (fun h hh _ => ?_) fun u h _ hu => hk u h hu⟩
    cases hh
    exact Knows.nil
  call := by
    rintro c t e a w past ⟨hset, hk⟩ hpast he hG hw
    cases t with
    | controller =>
      have hknow := hk .controller past hpast rfl
      refine ⟨hset.call hknow he (fun k st hx => hG k st hx past hpast) hw,
        forall_update (fun h hh _ => ?_) fun u h hu _ hc => absurd hc hu⟩
      cases hh
      exact hknow.step hset he hw
    | agent node =>
      have hcalm : Calm cfg A c.world w := QuiesceRule.calm he hset hw
      exact ⟨hset.calm hcalm, forall_update nofun
        fun u h _ hh hc => (hk u h hh hc).calm hcalm⟩
  stop := by
    rintro w ps t past r ⟨hset, hk⟩ _ _
    exact ⟨hset, forall_update nofun fun u h _ hu => hk u h hu⟩
  crash := by
    rintro c t past ⟨hset, hk⟩ _ _ _
    exact ⟨hset, forall_update nofun fun u h _ hu => hk u h hu⟩
  env := by
    rintro c w ⟨hset, hk⟩ hw _
    exact ⟨hset.calm hw.calm, fun t h hh hc => (hk t h hh hc).calm hw.calm⟩

def AtRest (phase : String) : Prop :=
  phase = "Succeeded" ∨ phase = "Failed" ∨ phase = "Pending"

/-- A snapshot that is Succeeded, Failed or Pending is not named by the quiesce request of its
Machine: in every state of every run of the controller and the agents, with calls that fail, passes
that break off and any VolumeSnapshots there to begin with, in which the status of a snapshot is
never written after trouble with its request still out. -/
theorem request_taken_back (cfg : Config) (A : Assignment) (w : World) (settled : Settled cfg A w)
    {tr : List QuiesceLabel} {c : QuiesceConf}
    (run : Run (quiesceHost cfg A) (Unhindered cfg) (Conf.idle w) tr c) (s : MachineSnapshot)
    (stored : s ∈ c.world.snapshots.rows) (rest : AtRest s.status.phase) :
    c.world.requested cfg s.target ≠ some s.metadata.name := by
  have hI := (settled_inductive cfg A).run follows_of_start run (Conf.follows_idle _ _ w)
    ⟨settled, nofun⟩
  refine hI.1.unasked s stored ?_
  rcases rest with hp | hp | hp <;> rw [hp] <;> rfl

/-! ## Runs -/

def unhindered (cfg : Config) (c : QuiesceConf) : QuiesceLabel → Bool
  | .call .controller ev =>
    match ev.op with
    | .patchMachineSnapshotStatus k _ =>
      (c.past .controller).all fun past => (snapshotsSeen past).all fun s =>
        !(s.key = k && trouble cfg (machinesSeen past) s past) ||
          c.world.requested cfg s.target ≠ some s.metadata.name
    | _ => true
  | _ => true

theorem unhindered_sound (cfg : Config) (c : QuiesceConf) (l : QuiesceLabel)
    (h : unhindered cfg c l = true) : Unhindered cfg c l := by
  match l with
  | .call .controller ev =>
    intro k st hop past hpast s hs hk htrouble
    simp only [unhindered, hop, hpast, all_some, List.all_eq_true] at h
    simpa [hk, htrouble] using h s hs
  | .call (.agent node) ev => trivial
  | .start t p => trivial
  | .stop t r => trivial
  | .crash t => trivial
  | .env w => trivial

theorem settled_sample (vs : Table VolumeSnapshot.key) :
    Settled sampleConfig sampleAssignment (sampleWorld vs) where
  target s hs := by
    obtain rfl : s = sampleSnapshot := by simpa [sampleWorld, Table.add] using hs
    rfl
  unasked s hs hphase := by
    obtain rfl : s = sampleSnapshot := by simpa [sampleWorld, Table.add] using hs
    cases hphase

theorem request_taken_back_pending :
    ∃ tr c s, Run sampleHost (Unhindered sampleConfig) (Conf.idle (sampleWorld noVolumeSnapshots))
        tr c ∧ s ∈ c.world.snapshots.rows ∧ s.status.phase = "Pending" ∧
        c.world.requested sampleConfig s.target ≠ some s.metadata.name := by
  have may : sampleHost.Allows (snapshotPass ++ quiescePass ++ snapshotPass ++ quiescePass ++
      controllerPass (List.replicate 4 (works 0))) := ⟨rfl, rfl, rfl, rfl, rfl⟩
  have run := play_sound (unhindered_sound sampleConfig)
    (c := .idle (sampleWorld noVolumeSnapshots)) may rfl
  exact ⟨_, _, _, run, .head _, rfl, request_taken_back _ _ _ (settled_sample _) run _ (.head _)
    (.inr (.inr rfl))⟩

/-- A VolumeSnapshot that cannot be created leaves a Failed snapshot, and one that is there already
a Succeeded one, with the request on the Machine. -/
theorem request_left_behind : (∃ w tr c s, Settled sampleConfig sampleAssignment w ∧
      Run sampleHost (fun _ _ => True) (Conf.idle w) tr c ∧ s ∈ c.world.snapshots.rows ∧
      s.status.phase = "Failed" ∧ c.world.requested sampleConfig s.target = some s.metadata.name) ∧
    ∃ w tr c s, Settled sampleConfig sampleAssignment w ∧
      Run sampleHost (fun _ _ => True) (Conf.idle w) tr c ∧ s ∈ c.world.snapshots.rows ∧
      s.status.phase = "Succeeded" ∧
      c.world.requested sampleConfig s.target = some s.metadata.name := by
  have may₁ : sampleHost.Allows (snapshotPass ++ quiescePass ++
      controllerPass [works 0, works 0, works 0, refuses, works 0]) := ⟨rfl, rfl, rfl⟩
  have may₂ : sampleHost.Allows (snapshotPass ++ quiescePass ++
      controllerPass (List.replicate 4 (works 0))) := ⟨rfl, rfl, rfl⟩
  exact ⟨⟨sampleWorld noVolumeSnapshots, _, _, _, settled_sample _, run_of_play may₁ rfl, .head _,
    rfl, rfl⟩, sampleWorld (Table.add noVolumeSnapshots readyVolumeSnapshot), _, _, _,
    settled_sample _, run_of_play may₂ rfl, .head _, rfl, rfl⟩

/-!
## A frozen guest can be thawed

An agent thaws a guest when it finds a quiesce status without a request on the Machine. Between the
freeze and the write of the status the request is all there is, and the controller may take it back.
-/

def World.tells (w : World) (k : ObjectKey) : Prop :=
  (w.annotationValue k annotationQuiesceRequest).isSome = true ∨
    (w.annotationValue k annotationQuiesceStatus).isSome = true

/-- A request is taken back from a frozen guest only when the freeze is confirmed on the Machine,
and a freeze succeeds only while the Machine still has a request or a confirmation. -/
def InStep : Guard SnapshotOp.Ans GoErr Party World :=
  fun c l =>
    match l with
    | .call .controller ev =>
      ∀ o k, ev.op = .patchQuiesceRequest o k none → c.world.frozen k = true →
        (c.world.annotationValue k annotationQuiesceStatus).isSome = true
    | .call (.agent _) ev =>
      ∀ k id, ev = ⟨.qgaFsfreezeFreeze k id, .ok ()⟩ → c.world.tells k
    | _ => True

variable {cfg : Config} {A : Assignment} {w w' : World} {h : History} {e : SnapshotOp} {a : e.Ans}
  {k : ObjectKey} {node : String}

/-! ## What changes the annotations and the guests -/

theorem annotation_of_call (hw : w' ∈ outcomes w e a) (k : ObjectKey) (name : String) :
    w'.annotationValue k name = w.annotationValue k name ∨ ∃ v, annotates e = some (k, name, v) ∧
        w'.annotationValue k name = (w.machines.find k).bind fun _ => v := by
  rcases (mem_outcomes_iff.mp hw).2 with rfl | ⟨-, rfl⟩
  · exact annotation_effect w e a k name
  · exact .inl rfl

theorem isSome_machines_of_call (hw : w' ∈ outcomes w e a) (k : ObjectKey) :
    (w'.machines.find k).isSome = (w.machines.find k).isSome := by
  rcases (mem_outcomes_iff.mp hw).2 with rfl | ⟨-, rfl⟩
  · exact isSome_machines_effect w e a k
  · rfl

/-! ## The invariant -/

structure Told (A : Assignment) (w : World) : Prop where
  home : ∀ m ∈ w.machines.rows, m.nodeName = A.home m.key
  tells : ∀ k, (w.machines.find k).isSome = true → w.frozen k = true → w.tells k

structure Attends (A : Assignment) (w : World) (node : String) (h : History) : Prop where
  listed : ∀ m ∈ machinesListed h, m.nodeName = A.home m.key
  thawed : ∀ k, A.home k = node → thawedLast k h = true → w.frozen k = false

theorem Attends.nil : Attends A w node [] where
  listed _ hm := by cases hm
  thawed _ _ ht := by cases ht

theorem Attends.home (hk : Attends A w node h) (hmine : Mine node h k) : A.home k = node := by
  obtain ⟨m, hm, rfl, hnode⟩ := hmine
  rw [← hk.listed m hm, hnode]

theorem QuiesceRule.mine (he : QuiesceRule node h e) {frozen : Bool}
    (hx : guestCall ⟨e, a⟩ = some (k, frozen)) : Mine node h k := by
  cases e with
  | qgaFsfreezeFreeze k' id | qgaFsfreezeThaw k' id =>
    cases a with
    | error err => cases hx
    | ok u =>
      cases hx
      exact he
  | _ => cases hx

theorem SnapshotRule.remote (he : SnapshotRule cfg h e) :
    guestCall ⟨e, a⟩ = none ∧ ∀ k v, e ≠ .patchQuiesceStatus k v := by
  have hown : ∀ e : SnapshotOp, e = .listMachines ∨ e = .listMachineSnapshots ∨ (∃ k, Own k e) →
      ∀ a, guestCall ⟨e, a⟩ = none ∧ ∀ k v, e ≠ .patchQuiesceStatus k v := by
    rintro e (rfl | rfl | ⟨k, hk | rfl⟩) a
    · exact ⟨rfl, nofun⟩
    · exact ⟨rfl, nofun⟩
    · cases e with
      | qgaFsfreezeFreeze | qgaFsfreezeThaw | patchQuiesceStatus => cases hk
      | _ => exact ⟨rfl, nofun⟩
    · exact ⟨rfl, nofun⟩
  exact hown e (he.imp_right fun h => h.imp_right fun h => h.1) a

theorem home_of_call (hw : w' ∈ outcomes w e a)
    (hhome : ∀ m ∈ w.machines.rows, m.nodeName = A.home m.key) :
    ∀ m ∈ w'.machines.rows, m.nodeName = A.home m.key := by
  have hannotate : ∀ k name v, ∀ m ∈ (w.annotate k name v).machines.rows,
      m.nodeName = A.home m.key := by
    intro k name v m hm
    have hedit : m ∈ (w.machines.edit k (·.annotate name v) fun m => m.key_annotate name v).rows :=
      hm
    obtain ⟨m₀, hm₀, rfl | ⟨-, rfl⟩⟩ := Table.mem_edit hedit
    · exact hhome m hm₀
    · exact hhome m₀ hm₀
  rcases (mem_outcomes_iff.mp hw).2 with rfl | ⟨-, rfl⟩
  · cases e with
    | patchQuiesceRequest o k v | patchQuiesceStatus k v => exact hannotate k _ v
    | qgaFsfreezeFreeze | qgaFsfreezeThaw => cases a <;> exact hhome
    | _ => exact hhome
  · exact hhome

theorem annotation_kept (hw : w' ∈ outcomes w e a) {name : String}
    (ha : (w.annotationValue k name).isSome = true) :
    (w'.annotationValue k name).isSome = true ∨ annotates e = some (k, name, none) := by
  rcases annotation_of_call hw k name with hsame | ⟨v, hx, hnew⟩
  · exact .inl (hsame ▸ ha)
  · cases v with
    | none => exact .inr hx
    | some v =>
      obtain ⟨m, hm⟩ : ∃ m, w.machines.find k = some m := by
        cases hm : w.machines.find k with
        | none => simp [World.annotationValue, hm] at ha
        | some m => exact ⟨m, rfl⟩
      exact .inl (by rw [hnew, hm]; rfl)

theorem tells_of_call (hw : w' ∈ outcomes w e a) (ht : w.tells k)
    (hrequest : ∀ o, e = .patchQuiesceRequest o k none →
      (w.annotationValue k annotationQuiesceStatus).isSome = true)
    (hstatus : e ≠ .patchQuiesceStatus k none) : w'.tells k := by
  have hkept : (w.annotationValue k annotationQuiesceStatus).isSome = true → w'.tells k := by
    intro ha
    rcases annotation_kept hw ha with hkept | hx
    · exact .inr hkept
    · cases e with
      | patchQuiesceStatus k' v =>
        cases hx
        exact absurd rfl hstatus
      | patchQuiesceRequest o k' v =>
        simp [annotates, annotationQuiesceStatus, annotationQuiesceRequest] at hx
      | _ => cases hx
  rcases ht with ha | ha
  · rcases annotation_kept hw ha with hkept' | hx
    · exact .inl hkept'
    · cases e with
      | patchQuiesceRequest o k' v =>
        cases hx
        exact hkept (hrequest o rfl)
      | patchQuiesceStatus k' v =>
        simp [annotates, annotationQuiesceStatus, annotationQuiesceRequest] at hx
      | _ => cases hx
  · exact hkept ha

theorem Told.controller (ht : Told A w) (he : SnapshotRule cfg h e)
    (hG : ∀ o k, e = .patchQuiesceRequest o k none → w.frozen k = true →
      (w.annotationValue k annotationQuiesceStatus).isSome = true)
    (hw : w' ∈ outcomes w e a) : Told A w' where
  home := home_of_call hw ht.home
  tells k hm hf := by
    rw [isSome_machines_of_call hw] at hm
    rw [frozen_of_call hw, (he.remote).1] at hf
    exact tells_of_call hw (ht.tells k hm hf) (fun o hx => hG o k hx hf)
      ((he.remote (a := a)).2 k none)

theorem Told.agent (ht : Told A w) (hk : Attends A w node h) (he : QuiesceRule node h e)
    (hG : ∀ k id, (⟨e, a⟩ : Event SnapshotOp.Ans) = ⟨.qgaFsfreezeFreeze k id, .ok ()⟩ → w.tells k)
    (hw : w' ∈ outcomes w e a) : Told A w' where
  home := home_of_call hw ht.home
  tells k hm hf := by
    rw [isSome_machines_of_call hw] at hm
    by_cases hx : guestCall ⟨e, a⟩ = some (k, true)
    · -- the guest is frozen by this call, which writes nothing to the Machine
      cases e with
      | qgaFsfreezeFreeze k' id =>
        cases a with
        | error err => cases hx
        | ok u =>
          cases hx
          exact tells_of_call hw (hG k id rfl) nofun nofun
      | qgaFsfreezeThaw => cases a <;> cases hx
      | _ => cases hx
    · have hold : w.frozen k = true := by
        rw [frozen_of_call hw] at hf
        cases hy : guestCall ⟨e, a⟩ with
        | none => simpa [hy] using hf
        | some x =>
          obtain ⟨k', b⟩ := x
          rw [hy] at hf hx
          by_cases hkk : k = k'
          · subst hkk
            simp_all
          · simpa [hkk] using hf
      refine tells_of_call hw (ht.tells k hm hold) (fun o hx => ?_) fun hx => ?_
      · subst hx
        exact he.elim
      · -- the confirmation is removed after a thaw
        subst hx
        simp [hk.thawed k (hk.home he.1) he.2] at hold

theorem Attends.call (hk : Attends A w node h) (ht : Told A w) (hw : w' ∈ outcomes w e a) :
    Attends A w' node (⟨e, a⟩ :: h) where
  listed := by
    cases e with
    | listMachinesWithSelector n =>
      cases a with
      | error err => exact hk.listed
      | ok ms =>
        intro m hm
        have hperm := List.isPerm_iff.mp (mem_outcomes_iff.mp hw).1
        exact ht.home m (List.mem_filter.mp (hperm.subset hm)).1
    | _ => exact hk.listed
  thawed k hhome hlast := by
    rw [frozen_of_call hw]
    unfold thawedLast at hlast
    cases hx : guestCall ⟨e, a⟩ with
    | none =>
      rw [hx] at hlast
      exact hk.thawed k hhome hlast
    | some x =>
      obtain ⟨k', b⟩ := x
      rw [hx] at hlast
      by_cases hkk : k' = k
      · subst hkk
        simpa using hlast
      · have hother : Function.update w.frozen k' b k = w.frozen k :=
          Function.update_of_ne (Ne.symm hkk) ..
        simp only [hkk, if_false] at hlast
        exact hother.trans (hk.thawed k hhome hlast)

theorem Attends.other {u : String} (hk : Attends A w u h)
    (hother : ∀ k b, guestCall ⟨e, a⟩ = some (k, b) → A.home k ≠ u) (hw : w' ∈ outcomes w e a) :
    Attends A w' u h where
  listed := hk.listed
  thawed k hhome hlast := by
    rw [frozen_of_call hw]
    cases hx : guestCall ⟨e, a⟩ with
    | none => exact hk.thawed k hhome hlast
    | some x =>
      obtain ⟨k', b⟩ := x
      have hkk : k ≠ k' := fun heq => hother k' b hx (heq ▸ hhome)
      exact (Function.update_of_ne hkk ..).trans (hk.thawed k hhome hlast)

theorem Told.elsewhere (ht : Told A w) (he : Elsewhere A w w') : Told A w' where
  home := he.assigned.home
  tells k hm hf := by
    obtain ⟨hm', hsame⟩ := he.kept k hf hm
    have htold := ht.tells k hm' (he.frozen k hf)
    rwa [World.tells, hsame _ (.inl rfl), hsame _ (.inr rfl)]

/-! ## Every run -/

theorem told_inductive (cfg : Config) (A : Assignment) :
    Inductive (quiesceHost cfg A) (PartyRule cfg) (fun _ => Anyhow) InStep
      fun w ps => Told A w ∧
        ∀ t h, ps t = some h → ∀ node, t = .agent node → Attends A w node h where
  start := by
    rintro w ps t ⟨ht, hk⟩ _
    refine ⟨ht, forall_update (fun h hh node _ => ?_) fun u h _ hu => hk u h hu⟩
    cases hh
    exact Attends.nil
  call := by
    rintro c t e a w past ⟨ht, hk⟩ hpast he hG hw
    cases t with
    | controller =>
      have hremote := SnapshotRule.remote (a := a) he
      refine ⟨ht.controller he hG hw, forall_update nofun
        fun u h _ hh node hu => (hk u h hh node hu).other (fun k b hx => ?_) hw⟩
      simp [hremote.1] at hx
    | agent node =>
      have hattends := hk _ past hpast node rfl
      refine ⟨ht.agent hattends he hG hw, forall_update (fun h hh node' hn => ?_)
        fun u h hu hh node' hn => (hk u h hh node' hn).other (fun k b hx hhome => ?_) hw⟩
      · cases hh
        cases hn
        exact hattends.call ht hw
      · rw [hattends.home (QuiesceRule.mine he hx)] at hhome
        exact hu (hn.trans (congrArg Party.agent hhome.symm))
  stop := by
    rintro w ps t past r ⟨ht, hk⟩ _ _
    exact ⟨ht, forall_update nofun fun u h _ hu => hk u h hu⟩
  crash := by
    rintro c t past ⟨ht, hk⟩ _ _ _
    exact ⟨ht, forall_update nofun fun u h _ hu => hk u h hu⟩
  env := by
    rintro c w ⟨ht, hk⟩ hw _
    refine ⟨ht.elsewhere hw, fun t h hh node hn => ?_⟩
    have hattends := hk t h hh node hn
    refine ⟨hattends.listed, fun k hhome hlast => ?_⟩
    by_contra hf
    have hfrozen := hw.frozen k (by simpa using hf)
    simp [hattends.thawed k hhome hlast] at hfrozen

def inStep (c : QuiesceConf) : QuiesceLabel → Bool
  | .call .controller ev =>
    match ev.op with
    | .patchQuiesceRequest _ k none =>
      !c.world.frozen k || (c.world.annotationValue k annotationQuiesceStatus).isSome
    | _ => true
  | .call (.agent _) ev =>
    match ev.op with
    | .qgaFsfreezeFreeze k _ => (c.world.annotationValue k annotationQuiesceRequest).isSome
    | _ => true
  | _ => true

theorem inStep_sound (c : QuiesceConf) (l : QuiesceLabel) (h : inStep c l = true) : InStep c l := by
  match l with
  | .call .controller ev =>
    intro o k hop hf
    simpa [inStep, hop, hf] using h
  | .call (.agent node) ev =>
    rintro k id rfl
    exact .inl h
  | .start t p => trivial
  | .stop t r => trivial
  | .crash t => trivial
  | .env w => trivial

theorem told_sample (vs : Table VolumeSnapshot.key) : Told sampleAssignment (sampleWorld vs) where
  home m hm := by
    obtain rfl : m = sampleMachine := by simpa [sampleWorld, Table.add] using hm
    rfl
  tells _ _ hf := by cases hf

end Kairon.Snapshot
