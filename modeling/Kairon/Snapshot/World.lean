import Kairon.Infra.Conf
import Kairon.Infra.Table
import Kairon.Snapshot.Reconcile

/-!
# The API server and the guests

The objects that the snapshot passes read and write, and which guests have been frozen.
-/

namespace Kairon.Snapshot

open Infra Model Cluster Table Function

/-- The objects that the controller and the agents share, and the guests. -/
structure World where
  machines : Table GuestMachine.key
  snapshots : Table MachineSnapshot.key
  volumeSnapshots : Table VolumeSnapshot.key
  /-- Whether the last call for a Machine that froze or thawed its guest was a freeze. -/
  frozen : ObjectKey → Bool

variable (w : World) (c : Config) (machines : List GuestMachine)

namespace World

def annotationValue (k : ObjectKey) (name : String) : Option String :=
  (w.machines.find k).bind fun m => m.metadata.annotations.lookup name

def requested (w : World) (k : ObjectKey) : Option String :=
  (w.annotationValue k annotationQuiesceRequest).bind fun v =>
    (parseQuiesceRef c.layout v).map Prod.fst

def annotate (k : ObjectKey) (name : String) (v : Option String) : World :=
  { w with machines := w.machines.edit k (·.annotate name v) fun m => m.key_annotate name v }

theorem annotation_annotate (k k' : ObjectKey) (name name' : String) (v : Option String) :
    (w.annotate k name v).annotationValue k' name' =
      if k' = k ∧ name' = name then (w.machines.find k).bind fun _ => v
      else w.annotationValue k' name' := by
  unfold annotationValue annotate
  rw [find_edit]
  by_cases hk : k' = k
  · subst hk
    cases hfind : w.machines.find k' with
    | none => simp
    | some m =>
      simp only [if_true, Option.map_some, Option.bind_some, GuestMachine.annotate,
        StringMap.lookup_patchKey, true_and]
  · simp [hk]

end World

/-- What a call does when it is carried out. A snapshot that is being deleted goes with its last
finalizer. -/
def effect : (e : SnapshotOp) → e.Ans → World
  | .patchQuiesceRequest _ k v, _ => w.annotate k annotationQuiesceRequest v
  | .patchQuiesceStatus k v, _ => w.annotate k annotationQuiesceStatus v
  | .patchMachineSnapshot k fs, _ =>
    { w with
      snapshots := w.snapshots.settle k (·.patchFinalizers fs) (·.key_patchFinalizers fs) fun s =>
        s.metadata.deleting && s.metadata.finalizers = [] }
  | .patchMachineSnapshotStatus k st, _ =>
    { w with snapshots := w.snapshots.edit k (·.patchStatus st) (·.key_patchStatus st) }
  | .createVolumeSnapshot _ vs, _ => { w with volumeSnapshots := w.volumeSnapshots.add vs }
  | .qgaFsfreezeFreeze k _, .ok () => { w with frozen := update w.frozen k true }
  | .qgaFsfreezeThaw k _, .ok () => { w with frozen := update w.frozen k false }
  | _, _ => w

def bare (m : GuestMachine) : GuestMachine := { m with atlasVolumes := [] }

/-- The answers that may be given. What is not stored may be answered in any way. -/
def Answers : (e : SnapshotOp) → e.Ans → Bool
  | .listMachines, .ok ms => (ms.map bare).isPerm (w.machines.rows.map bare)
  | .listMachinesWithSelector node, .ok ms =>
    ms.isPerm (w.machines.rows.filter fun m => m.metadata.labels.get assignedNodeLabel = node)
  | .listMachineSnapshots, .ok ss => ss.isPerm w.snapshots.rows
  | .patchQuiesceRequest _ k _, .ok () => (w.machines.find k).isSome
  | .patchQuiesceStatus k _, .ok () => (w.machines.find k).isSome
  | .patchMachineSnapshot k _, .ok () => (w.snapshots.find k).isSome
  | .patchMachineSnapshotStatus k _, .ok () => (w.snapshots.find k).isSome
  | .getVolumeSnapshot _ k, .ok vs => w.volumeSnapshots.find k = some vs
  | .getVolumeSnapshot _ k, .error e => !e.notFound || (w.volumeSnapshots.find k).isNone
  | .createVolumeSnapshot _ vs, .ok _ => (w.volumeSnapshots.find vs.key).isNone
  | _, _ => true

def failed : (e : SnapshotOp) → e.Ans → Bool
  | .patchQuiesceRequest _ _ _, .error _ | .patchQuiesceStatus _ _, .error _
  | .patchMachineSnapshot _ _, .error _ | .patchMachineSnapshotStatus _ _, .error _
  | .createVolumeSnapshot _ _, .error _ => true
  | _, _ => false

/-- A call that failed may have been carried out. -/
def outcomes (e : SnapshotOp) (a : e.Ans) : List World :=
  if Answers w e a then
    if failed e a then [w, effect w e a] else [effect w e a]
  else []

theorem mem_outcomes_iff {w w' : World} {e : SnapshotOp} {a : e.Ans} : w' ∈ outcomes w e a ↔
      Answers w e a = true ∧ (w' = effect w e a ∨ failed e a = true ∧ w' = w) := by
  unfold outcomes
  by_cases ha : Answers w e a = true <;> by_cases hf : failed e a = true <;> simp [ha, hf, or_comm]

/-! ## What the calls do -/

variable {w} {w' : World} {e : SnapshotOp} {a : e.Ans}

def annotates : SnapshotOp → Option (ObjectKey × String × Option String)
  | .patchQuiesceRequest _ k v => some (k, annotationQuiesceRequest, v)
  | .patchQuiesceStatus k v => some (k, annotationQuiesceStatus, v)
  | _ => none

theorem annotation_effect (w : World) (e : SnapshotOp) (a : e.Ans) (k : ObjectKey) (name : String) :
    (effect w e a).annotationValue k name = w.annotationValue k name ∨
      ∃ v, annotates e = some (k, name, v) ∧
        (effect w e a).annotationValue k name = (w.machines.find k).bind fun _ => v := by
  cases e with
  | patchQuiesceRequest o k' v | patchQuiesceStatus k' v =>
    simp only [effect, World.annotation_annotate, annotates]
    split
    · next here =>
      obtain ⟨rfl, rfl⟩ := here
      exact .inr ⟨v, rfl, rfl⟩
    · exact .inl rfl
  | qgaFsfreezeFreeze | qgaFsfreezeThaw => cases a <;> exact .inl rfl
  | _ => exact .inl rfl

theorem isSome_machines_effect (w : World) (e : SnapshotOp) (a : e.Ans) (k : ObjectKey) :
    ((effect w e a).machines.find k).isSome = (w.machines.find k).isSome := by
  cases e with
  | patchQuiesceRequest | patchQuiesceStatus =>
    simp only [effect, World.annotate, find_edit]
    split <;> simp
  | qgaFsfreezeFreeze | qgaFsfreezeThaw => cases a <;> rfl
  | _ => rfl

theorem snapshot_effect {s' : MachineSnapshot} (hs : s' ∈ (effect w e a).snapshots.rows) :
    ∃ s ∈ w.snapshots.rows, s.key = s'.key ∧ s.spec = s'.spec ∧ (s'.status.phase = s.status.phase ∨
        ∃ st, e = .patchMachineSnapshotStatus s.key st ∧ s'.status.phase = st.phase) := by
  cases e with
  | patchMachineSnapshot k fs =>
    obtain ⟨s, hrow, rfl | ⟨-, rfl⟩⟩ := mem_settle hs
    · exact ⟨s', hrow, rfl, rfl, .inl rfl⟩
    · exact ⟨s, hrow, rfl, rfl, .inl rfl⟩
  | patchMachineSnapshotStatus k st =>
    have hedit : s' ∈ (w.snapshots.edit k (·.patchStatus st) (·.key_patchStatus st)).rows := hs
    obtain ⟨s, hrow, rfl | ⟨rfl, rfl⟩⟩ := mem_edit hedit
    · exact ⟨s', hrow, rfl, rfl, .inl rfl⟩
    · refine ⟨s, hrow, rfl, rfl, ?_⟩
      -- an empty phase is left out of the patch
      simp only [MachineSnapshot.patchStatus, GoJson.patchOmit]
      split
      · exact .inl rfl
      · exact .inr ⟨st, rfl, GoJson.patch_eq_self _ _⟩
  | qgaFsfreezeFreeze | qgaFsfreezeThaw => cases a <;> exact ⟨s', hs, rfl, rfl, .inl rfl⟩
  | _ => exact ⟨s', hs, rfl, rfl, .inl rfl⟩

def guestCall : Event SnapshotOp.Ans → Option (ObjectKey × Bool)
  | ⟨.qgaFsfreezeFreeze k _, .ok ()⟩ => some (k, true)
  | ⟨.qgaFsfreezeThaw k _, .ok ()⟩ => some (k, false)
  | _ => none

/-- Only a freeze or a thaw that succeeded changes which guests are frozen. -/
theorem frozen_of_call (hw : w' ∈ outcomes w e a) :
    w'.frozen = (guestCall ⟨e, a⟩).elim w.frozen fun x => update w.frozen x.1 x.2 := by
  have heffect : (effect w e a).frozen =
      (guestCall ⟨e, a⟩).elim w.frozen fun x => update w.frozen x.1 x.2 := by
    cases e with
    | qgaFsfreezeFreeze | qgaFsfreezeThaw => cases a <;> rfl
    | _ => rfl
  rcases (mem_outcomes_iff.mp hw).2 with rfl | ⟨hfailed, rfl⟩
  · exact heffect
  · cases e with
    | qgaFsfreezeFreeze | qgaFsfreezeThaw => cases a <;> cases hfailed
    | _ => rfl

/-!
## What the snapshot pass does

Which calls the snapshot pass makes, seen from the calls it has made before. The point is what it
does to the quiesce request of a Machine before it writes a phase that is not one of a freeze.
-/

open GoText List

/-! ## What has happened -/

def machinesSeen : History → List GuestMachine
  | [] => []
  | ⟨.listMachines, .ok ms⟩ :: _ => ms
  | _ :: h => machinesSeen h

def snapshotsSeen : History → List MachineSnapshot
  | [] => []
  | ⟨.listMachineSnapshots, .ok ss⟩ :: _ => ss
  | _ :: h => snapshotsSeen h

def pastFreeze (phase : String) : Bool := phase ≠ "" && phase ≠ "Freezing"

/-- The last patch of the request of `k` took it back. -/
def takenBack (k : ObjectKey) : History → Bool
  | [] => false
  | ⟨.patchQuiesceRequest _ k' none, .ok ()⟩ :: h => k' = k || takenBack k h
  | ⟨.patchQuiesceRequest _ k' _, _⟩ :: h => k' ≠ k && takenBack k h
  | _ :: h => takenBack k h

def SnapshotOp.owner : SnapshotOp → Option ObjectKey
  | patchQuiesceRequest o _ _ | getVolumeSnapshot o _ | createVolumeSnapshot o _
  | createSnapshot o _ _ | getJob o _ | deleteSnapshot o _ => some o
  | patchMachineSnapshot k _ | patchMachineSnapshotStatus k _ => some k
  | _ => none

def setback (k : ObjectKey) : Event SnapshotOp.Ans → Bool
  | ⟨.patchQuiesceRequest o _ _, .error _⟩ | ⟨.patchMachineSnapshot o _, .error _⟩
  | ⟨.patchMachineSnapshotStatus o _, .error _⟩ | ⟨.createVolumeSnapshot o _, .error _⟩ => o = k
  | ⟨.getVolumeSnapshot o _, .error e⟩ => o = k && !e.notFound
  | ⟨.getVolumeSnapshot o _, .ok vs⟩ | ⟨.createVolumeSnapshot o _, .ok vs⟩ =>
    o = k && vs.errorMessage.any (· ≠ "")
  | ⟨.getJob o _, .error e⟩ => o = k && !e.notFound
  | ⟨.deleteSnapshot o _, .error e⟩ => o = k && !(e.notFound || e.conflict)
  | _ => false

def issued (k : ObjectKey) : Event SnapshotOp.Ans → Bool
  | ⟨.createVolumeSnapshot o _, .ok _⟩ => o = k
  | ⟨.createSnapshot o _ _, .ok _⟩ => o = k
  | _ => false

def recorded (k : ObjectKey) (ev : Event SnapshotOp.Ans) : Bool :=
  match ev.op with
  | .patchMachineSnapshotStatus k' _ => k' = k
  | _ => false

/-! ## What stands in the way of a snapshot -/

def unusable (v : MachineVolume) : Bool :=
  !(v.atlas && c.atlas) && (trimSpace v.name = "" || trimSpace v.claimName = "")

def confirmed (s : MachineSnapshot) (m : GuestMachine) : Bool :=
  (quiesceRef c m annotationQuiesceRequest).any (·.1 = s.metadata.name) &&
    ((quiesceRef c m annotationQuiesceStatus).map Prod.fst).getD "" = s.metadata.name

/-- The snapshot cannot be taken with the guest frozen, as the objects are: its spec does not fit
the Machine, or the Machine has no guest agent. -/
def unfit (s : MachineSnapshot) : Bool :=
  if s.metadata.deleting then
    s.metadata.finalizers.contains finalizerAtlasSnapshots && !c.atlas
  else
    match checkSnapshot s machines with
    | .error _ => true
    | .ok m => !m.guestAgentEnabled || (confirmed c s m && m.volumes.any (unusable c))

/-- The guest is frozen and every snapshot of a volume is there already. -/
def idle (s : MachineSnapshot) (h : History) : Bool :=
  !s.metadata.deleting && !h.any (issued s.key) &&
    match checkSnapshot s machines with
    | .error _ => false
    | .ok m => confirmed c s m

/-- Why the status of a snapshot may be written with its request still out. -/
def trouble (s : MachineSnapshot) (h : History) : Bool :=
  unfit c machines s || h.any (setback s.key) || idle c machines s h

/-! ## The rule -/

/-- What the turn of one snapshot may do. -/
def ItemRule (c : Config) (machines : List GuestMachine) (s : MachineSnapshot) (h : History) :
    SnapshotOp → Prop
  | .patchQuiesceRequest o k (some v) =>
    o = s.key ∧ k = s.target ∧ pastFreeze s.status.phase = false ∧
      (∃ t, v = formatQuiesceRef c.layout s.metadata.name t) ∧ ∀ ev ∈ h, recorded s.key ev = false
  | .patchMachineSnapshotStatus k st =>
    k = s.key ∧ (pastFreeze st.phase = true → pastFreeze s.status.phase = true ∨
      takenBack s.target h = true ∨ trouble c machines s h = true)
  | .now => True
  | e => e.owner = some s.key

def Own (k : ObjectKey) (e : SnapshotOp) : Prop := e.owner = some k ∨ e = .now

/-- What a pass may do, by the calls it has made. -/
def SnapshotRule (h : History) (e : SnapshotOp) : Prop :=
  e = .listMachines ∨ e = .listMachineSnapshots ∨
    (∃ k, Own k e) ∧ (((snapshotsSeen h).map MachineSnapshot.key).Nodup →
      ∃ s ∈ snapshotsSeen h, ItemRule c (machinesSeen h) s h e)

variable {c} {ms : List GuestMachine} {s : MachineSnapshot} {m : GuestMachine}
  {h : History} {k : ObjectKey} {e : SnapshotOp} {refs : List VolumeSnapshotReference} {made : Bool}

def Sure (c : Config) (ms : List GuestMachine) (s : MachineSnapshot) (h : History) : Prop :=
  pastFreeze s.status.phase = true ∨ takenBack s.target h = true ∨ unfit c ms s = true ∨
    h.any (setback s.key) = true

abbrev Explained (c : Config) (ms : List GuestMachine) (s : MachineSnapshot) {α : Type}
    (h : History) (r : Except String α) : Prop :=
  ∀ e, r = .error e → Sure c ms s h

abbrev Orderly (c : Config) (ms : List GuestMachine) (s : MachineSnapshot) {α : Type}
    (p : SnapM (Except String α)) (h : History) : Prop :=
  p.Follows (ItemRule c ms s) (Explained c ms s) h

theorem Sure.excused (hs : Sure c ms s h) :
    pastFreeze s.status.phase = true ∨ takenBack s.target h = true ∨ trouble c ms s h = true := by
  rcases hs with hs | hs | hs | hs
  · exact .inl hs
  · exact .inr (.inl hs)
  · exact .inr (.inr (by simp [trouble, hs]))
  · exact .inr (.inr (by simp [trouble, hs]))

def Unrelated : SnapshotOp → Prop
  | .patchQuiesceRequest _ _ _ => False
  | _ => True

theorem takenBack_cons (he : Unrelated e) (a : e.Ans) :
    takenBack k (⟨e, a⟩ :: h) = takenBack k h := by
  cases e with
  | patchQuiesceRequest => exact he.elim
  | _ => rfl

theorem takenBack_of_ne {o k' : ObjectKey} {v : Option String} (hne : k' ≠ k)
    (a : (SnapshotOp.patchQuiesceRequest o k' v).Ans) :
    takenBack k (⟨.patchQuiesceRequest o k' v, a⟩ :: h) = takenBack k h := by
  match v, a with
  | none, .ok () => simp [takenBack, hne]
  | none, .error _ | some _, _ => simp [takenBack, hne]

theorem of_takenBack {o : ObjectKey} {v : Option String}
    {a : (SnapshotOp.patchQuiesceRequest o k v).Ans}
    (hb : takenBack k (⟨.patchQuiesceRequest o k v, a⟩ :: h) = true) : v = none ∧ a = .ok () := by
  match v, a with
  | none, .ok () => exact ⟨rfl, rfl⟩
  | none, .error _ | some _, _ => simp [takenBack] at hb

theorem Sure.cons (hs : Sure c ms s h) (he : Unrelated e) (a : e.Ans) :
    Sure c ms s (⟨e, a⟩ :: h) := by
  rcases hs with hs | hs | hs | hs
  · exact .inl hs
  · exact .inr (.inl (by rw [takenBack_cons he a, hs]))
  · exact .inr (.inr (.inl hs))
  · exact .inr (.inr (.inr (by rw [any_cons, hs, Bool.or_true])))

theorem Sure.of_setback {ev : Event SnapshotOp.Ans} (hev : setback s.key ev = true) :
    Sure c ms s (ev :: h) :=
  .inr (.inr (.inr (by rw [any_cons, hev, Bool.true_or])))

/-! ## Writes -/

theorem record_follows {st : MachineSnapshotStatus}
    (hst : pastFreeze st.phase = true → pastFreeze s.status.phase = true ∨
      takenBack s.target h = true ∨ trouble c ms s h = true) :
    Orderly c ms s (orText (call (.patchMachineSnapshotStatus s.key st))) h := by
  refine ⟨⟨rfl, hst⟩, fun r e he => ?_⟩
  cases r with
  | ok => cases he
  | error => exact .of_setback (by simp [setback])

theorem clearRequest_follows {what : String} {f : Unit → SnapM GoErr} (hm : m.key = s.target)
    (hf : ∀ h', takenBack s.target h' = true → Orderly c ms s (f ()) h') :
    Orderly c ms s ((clearRequest what s m).andThen f) h := by
  exact ⟨rfl, fun
    | .error _ => fun _ _ => .of_setback (by simp [setback])
    | .ok () => hf _ (by simp [takenBack, hm])⟩

theorem failSnapshot_follows {cause : String}
    (hm : m.key = s.target) (hs : Sure c ms s h ∨ s.status.phase = "Freezing") :
    Orderly c ms s (failSnapshot s m refs cause) h := by
  unfold failSnapshot
  dsimp only
  split
  · exact clearRequest_follows hm fun h' hback => record_follows fun _ => .inr (.inl hback)
  · next hphase =>
    exact record_follows fun _ => (hs.resolve_right hphase).excused

theorem requestGuestThaw_follows (hm : m.key = s.target) :
    Orderly c ms s (requestGuestThaw s m refs) h :=
  clearRequest_follows hm fun _ hback => record_follows fun _ => .inr (.inl hback)

theorem addQuiesceFinalizer_follows {f : Unit → SnapM GoErr}
    (hfresh : ∀ ev ∈ h, recorded s.key ev = false)
    (hf : ∀ h', (∀ ev ∈ h', recorded s.key ev = false) → Orderly c ms s (f ()) h') :
    Orderly c ms s ((addQuiesceFinalizer s).andThen f) h := by
  unfold addQuiesceFinalizer
  split
  · exact hf h hfresh
  · exact ⟨rfl, fun
      | .error _ => fun _ _ => .of_setback (by simp [setback])
      | .ok () => hf _ (forall_mem_cons.mpr ⟨rfl, hfresh⟩)⟩

theorem requestGuestFreeze_follows (hm : m.key = s.target)
    (hphase : pastFreeze s.status.phase = false) (hfresh : ∀ ev ∈ h, recorded s.key ev = false) :
    Orderly c ms s (requestGuestFreeze c s m) h := by
  refine addQuiesceFinalizer_follows hfresh fun h' hfresh' => ⟨trivial, fun now => ?_⟩
  exact ⟨⟨rfl, hm, hphase, ⟨now, rfl⟩, forall_mem_cons.mpr ⟨rfl, hfresh'⟩⟩, fun
    | .error _ => fun _ _ => .of_setback (by simp [setback])
    | .ok () => record_follows nofun⟩

/-! ## The volumes -/

def Reason (c : Config) (ms : List GuestMachine) (s : MachineSnapshot) (m : GuestMachine)
    (created : Bool) (h : History) : Prop :=
  Sure c ms s h ∨
    confirmed c s m = true ∧ m.guestAgentEnabled = true ∧ s.status.phase = "Freezing" ∧
      (created = false → h.any (issued s.key) = false)

/-- What is sure after `h` is so after `h'`, and without `made` nothing was issued between them. -/
structure Grown (c : Config) (ms : List GuestMachine) (s : MachineSnapshot) (h h' : History)
    (made : Bool) : Prop where
  sure : Sure c ms s h → Sure c ms s h'
  unissued : made = false → h.any (issued s.key) = false → h'.any (issued s.key) = false

theorem Grown.refl : Grown c ms s h h made := ⟨id, fun _ h => h⟩

theorem Grown.cons (he : Unrelated e) (a : e.Ans)
    (hmade : made = false → issued s.key ⟨e, a⟩ = false) : Grown c ms s h (⟨e, a⟩ :: h) made :=
  ⟨fun hs => hs.cons he a, fun hm hno => by rw [any_cons, hmade hm, hno, Bool.or_false]⟩

theorem Grown.trans {h' h'' : History} {made' : Bool} (h₁ : Grown c ms s h h' made)
    (h₂ : Grown c ms s h' h'' made') (hmade : made' = false → made = false) :
    Grown c ms s h h'' made' :=
  ⟨fun hs => h₂.sure (h₁.sure hs), fun hm hno => h₂.unissued hm (h₁.unissued (hmade hm) hno)⟩

theorem Grown.reason {h' : History} {created : Bool} (hg : Grown c ms s h h' made)
    (hr : Reason c ms s m created h) : Reason c ms s m (created || made) h' := by
  refine hr.imp hg.sure fun ⟨hconf, hagent, hphase, hno⟩ => ⟨hconf, hagent, hphase, fun hmade => ?_⟩
  rw [Bool.or_eq_false_iff] at hmade
  exact hg.unissued hmade.2 (hno hmade.1)

theorem stepAtlasSnapshot_follows {volume : MachineVolume} :
    (stepAtlasSnapshot c s m volume).Follows (ItemRule c ms s)
      (fun h' step => Grown c ms s h h' step.created) h := by
  unfold stepAtlasSnapshot
  dsimp only
  split
  · exact Grown.refl
  · split
    · split
      · exact Grown.refl
      · exact ⟨rfl, fun
          | .error _ => Grown.cons (by trivial) _ fun _ => rfl
          | .ok _ => Grown.cons (by trivial) _ nofun⟩
    · refine ⟨rfl, fun
        | .error _ => Grown.cons (by trivial) _ fun _ => rfl
        | .ok ⟨id, .succeeded, err, sid⟩ => ?_
        | .ok ⟨_, .failed, _, _⟩ => Grown.cons (by trivial) _ fun _ => rfl
        | .ok ⟨_, .other _, _, _⟩ => Grown.cons (by trivial) _ fun _ => rfl⟩
      have hg : Grown c ms s h
          (⟨.getJob s.key (previousRef c s volume.name).atlasJobID,
            .ok ⟨id, .succeeded, err, sid⟩⟩ :: h) false := Grown.cons (by trivial) _ fun _ => rfl
      exact .ite (fun _ => hg) fun _ => hg

/-- What is known of a VolumeSnapshot that was obtained, or of the failure to. -/
def Obtained (c : Config) (ms : List GuestMachine) (s : MachineSnapshot) (h h' : History) :
    Except String (VolumeSnapshot × Bool) → Prop
  | .error _ => Sure c ms s h'
  | .ok (vs, made) =>
    Grown c ms s h h' made ∧ (vs.errorMessage.any (· ≠ "") = true → Sure c ms s h')

theorem obtainVolumeSnapshot_follows {volume : MachineVolume} {name : String} :
    (obtainVolumeSnapshot s m volume name).Follows (ItemRule c ms s)
      (fun h' r => Obtained c ms s h h' r) h := by
  refine ⟨rfl, fun r => ?_⟩
  match r with
  | .ok vs =>
    exact ⟨Grown.cons (by trivial) _ fun _ => rfl,
      fun hbad => .of_setback (by simpa [setback] using hbad)⟩
  | .error e =>
    refine .ite (fun hno => ?_) fun _ => ?_
    · exact .of_setback (by simp only [setback, decide_true, Bool.true_and, hno])
    · have hget : Grown c ms s h (⟨.getVolumeSnapshot s.key ⟨s.key.namespace, name⟩, .error e⟩ :: h)
          false := Grown.cons (by trivial) _ fun _ => rfl
      refine ⟨rfl, fun | .error _ => .of_setback (by simp [setback]) | .ok vs => ?_⟩
      exact ⟨hget.trans (Grown.cons (by trivial) _ nofun) nofun,
        fun hbad => .of_setback (by simpa [setback] using hbad)⟩

def Untouched (k : ObjectKey) (h : History) : Prop := ∀ ev ∈ h, ev.op.owner ≠ some k

theorem Untouched.unissued (hu : Untouched s.key h) : h.any (issued s.key) = false := by
  rw [any_eq_false]
  intro ev hev hissued
  have howner := hu ev hev
  obtain ⟨e, a⟩ := ev
  cases e with
  | createVolumeSnapshot o vs => cases a <;> simp_all [issued, SnapshotOp.owner]
  | createSnapshot o id name => cases a <;> simp_all [issued, SnapshotOp.owner]
  | _ => simp [issued] at hissued

theorem Untouched.unrecorded (hu : Untouched s.key h) : ∀ ev ∈ h, recorded s.key ev = false := by
  intro ev hev
  have howner := hu ev hev
  obtain ⟨e, a⟩ := ev
  cases e <;> simp_all [recorded, SnapshotOp.owner]

section Steps

theorem findMachine_key (hfind : findMachine ms k = some m) : m.key = k := by
  simpa using List.find?_some hfind

theorem checkSnapshot_key (hcheck : checkSnapshot s ms = .ok m) : m.key = s.target := by
  obtain ⟨-, ⟨⟩⟩ | ⟨_, hcheck⟩ := ite_eq_iff.mp hcheck
  split at hcheck
  · cases hcheck
  · next m' hfind =>
    split at hcheck
    · cases hcheck
    · cases hvolumes : snapshotVolumes s m' with
      | error e => simp [hvolumes, Except.map] at hcheck
      | ok volumes =>
        rw [hvolumes] at hcheck
        cases hcheck
        exact show m'.key = s.target from findMachine_key hfind

/-- The snapshot has passed its checks, with the Machine `m`. -/
structure Checked (ms : List GuestMachine) (s : MachineSnapshot) (m : GuestMachine) : Prop where
  check : checkSnapshot s ms = .ok m
  live : s.metadata.deleting = false

variable (hc : Checked ms s m)
include hc

theorem Checked.key : m.key = s.target := checkSnapshot_key hc.check

theorem recordVolumeSnapshots_follows {p : Progress} (hr : Reason c ms s m p.created h) :
    Orderly c ms s (recordVolumeSnapshots s m p) h := by
  unfold recordVolumeSnapshots
  split
  · exact requestGuestThaw_follows hc.key
  · next hno =>
    have excused : pastFreeze s.status.phase = true ∨ takenBack s.target h = true ∨
        trouble c ms s h = true := by
      rcases hr with hs | ⟨hconf, hagent, hphase, hunissued⟩
      · exact hs.excused
      · -- the guest is frozen, so nothing was created
        have hcreated : p.created = false := by simpa [hagent, hphase] using hno
        exact .inr (.inr (by simp [trouble, idle, hc.live, hunissued hcreated, hc.check, hconf]))
    split <;> exact record_follows fun _ => excused

theorem eachVolume_follows {volumes : List MachineVolume} {p : Progress}
    (hvolumes : volumes ⊆ m.volumes) (hr : Reason c ms s m p.created h) :
    Orderly c ms s (eachVolume c s m (recordVolumeSnapshots s m) volumes p) h := by
  induction volumes generalizing h p with
  | nil => exact recordVolumeSnapshots_follows hc hr
  | cons v volumes ih =>
    obtain ⟨hv, hvolumes⟩ := cons_subset.mp hvolumes
    unfold eachVolume
    split
    · refine stepAtlasSnapshot_follows.bind fun h' step hg => ?_
      have hr' := hg.reason hr
      split
      · exact failSnapshot_follows hc.key (hr'.imp_right fun hc => hc.2.2.1)
      · exact ih hvolumes hr'
    · next hcsi =>
      split
      · next hbad =>
        intro _ _
        rcases hr with hs | ⟨hconf, -⟩
        · exact hs
        · have hunusable : unusable c v = true := by
            simp only [unusable, Bool.and_eq_true, Bool.not_eq_true', Bool.or_eq_true,
              decide_eq_true_eq]
            exact ⟨by simpa using hcsi, hbad⟩
          have hany : m.volumes.any (unusable c) = true := any_eq_true.mpr ⟨v, hv, hunusable⟩
          exact .inr (.inr (.inl (by simp [unfit, hc.live, hc.check, hconf, hany])))
      · refine obtainVolumeSnapshot_follows.andThen (fun h' e hs _ _ => hs) fun h' r hr' => ?_
        obtain ⟨vs, made⟩ := r
        obtain ⟨hg, hfailed⟩ := hr'
        refine .ite (fun hbad => ?_) fun _ => ?_
        · exact fun _ _ => hfailed hbad
        · exact ih hvolumes (hg.reason hr)

theorem reconcileVolumeSnapshots_follows (hr : Reason c ms s m false h) :
    Orderly c ms s (reconcileVolumeSnapshots c s m) h := by
  unfold reconcileVolumeSnapshots ensureAtlasSnapshotFinalizer
  split
  · exact eachVolume_follows hc (List.Subset.refl _) hr
  · refine ⟨rfl, fun | .error _ => fun _ _ => .of_setback (by simp [setback]) | .ok () => ?_⟩
    have hg : Grown c ms s h (⟨.patchMachineSnapshot s.key
        (s.metadata.finalizers ++ [finalizerAtlasSnapshots]), .ok ()⟩ :: h) false :=
      Grown.cons (by trivial) _ fun _ => rfl
    exact eachVolume_follows hc (List.Subset.refl _) (hg.reason hr)

/-! ## The phases -/

theorem giveUpFreeze_follows : Orderly c ms s (giveUpFreeze c s m) h := by
  refine clearRequest_follows hc.key fun h' hback => ?_
  have hs : Sure c ms s h' := .inr (.inl hback)
  refine ⟨⟨rfl, fun _ => hs.excused⟩, fun
    | .error _ => fun _ _ => hs.cons (by trivial) _
    | .ok () => ?_⟩
  exact reconcileVolumeSnapshots_follows hc (.inl (hs.cons (by trivial) _))

theorem awaitGuestFreeze_follows (hagent : m.guestAgentEnabled = true)
    (hphase : s.status.phase = "Freezing") (hu : Untouched s.key h) :
    Orderly c ms s (awaitGuestFreeze c s m) h := by
  have hask : Orderly c ms s (requestGuestFreeze c s m) h :=
    requestGuestFreeze_follows hc.key (by rw [hphase]; rfl) hu.unrecorded
  unfold awaitGuestFreeze
  dsimp only
  split
  · exact hask
  · next requested requestedAt hreq =>
    split
    · exact hask
    · next hmine =>
      rw [ne_eq, not_not] at hmine
      split
      · next hconf =>
        refine reconcileVolumeSnapshots_follows hc
          (.inr ⟨?_, hagent, hphase, fun _ => hu.unissued⟩)
        simp only [confirmed, hreq, Option.any_some, hmine, decide_true, hconf, Bool.and_self]
      · refine ⟨trivial, fun now => ?_⟩
        exact .ite (fun _ => nofun) fun _ => giveUpFreeze_follows hc

theorem stepSnapshot_follows (hu : Untouched s.key h) : Orderly c ms s (stepSnapshot c s m) h := by
  unfold stepSnapshot
  split
  · next hagent =>
    split
    · next hphase => exact requestGuestFreeze_follows hc.key (by rw [hphase]; rfl) hu.unrecorded
    · next hne =>
      split
      · next hphase => exact awaitGuestFreeze_follows hc hagent hphase hu
      · next hne' =>
        have hvolumes : Orderly c ms s (reconcileVolumeSnapshots c s m) h :=
          reconcileVolumeSnapshots_follows hc
            (.inl (.inl (by simp [pastFreeze, hne, hne'])))
        split
        · unfold awaitGuestThaw
          split
          · exact nofun
          · exact hvolumes
        · exact hvolumes
  · next hagent =>
    refine reconcileVolumeSnapshots_follows hc (.inl (.inr (.inr (.inl ?_))))
    simp [unfit, hc.live, hc.check, hagent]

end Steps

/-! ## Deletion -/

theorem releaseRefs_follows : Orderly c ms s (releaseRefs s refs) h := by
  induction refs generalizing h with
  | nil => exact nofun
  | cons ref refs ih =>
    unfold releaseRefs
    extract_lets delete
    have hdelete (id : String) (h : History) : Orderly c ms s (delete id) h := by
      refine .ite (fun _ => ih) fun _ => ⟨rfl, fun | .ok () => ih | .error e => ?_⟩
      refine .ite (fun _ => ih) fun hbad => ?_
      exact fun _ _ => .of_setback (by simpa [setback] using hbad)
    split
    · refine ⟨rfl, fun r => ?_⟩
      match r with
      | .error e =>
        refine .ite (fun _ => hdelete "" _) fun hbad => ?_
        exact fun _ _ => .of_setback (by simpa [setback] using hbad)
      | .ok job =>
        exact .ite (fun _ => nofun) fun _ => hdelete job.snapshotID _
    · exact hdelete ref.atlasSnapshotID _

theorem releaseAtlasSnapshots_follows (hdel : s.metadata.deleting = true)
    (hfinal : s.metadata.finalizers.contains finalizerAtlasSnapshots = true) :
    Orderly c ms s (releaseAtlasSnapshots c s) h := by
  unfold releaseAtlasSnapshots
  split
  · next hatlas =>
    exact fun _ _ => .inr (.inr (.inl (by simp only [unfit, hdel, hfinal, hatlas]; rfl)))
  · refine releaseRefs_follows.andThen (fun h' e hs _ _ => hs e rfl) fun h' finished _ => ?_
    split
    · exact nofun
    · exact ⟨rfl, fun | .error _ => fun _ _ => .of_setback (by simp [setback]) | .ok () => nofun⟩

theorem reconcileSnapshotDeletion_follows (hdel : s.metadata.deleting = true) :
    Orderly c ms s (reconcileSnapshotDeletion c s ms) h := by
  have hfinish : ∀ (fs : List String) (h : History),
      Orderly c ms s (orText (call (.patchMachineSnapshot s.key fs))) h := by
    refine fun fs h => ⟨rfl, fun r e he => ?_⟩
    cases r with
    | ok => cases he
    | error => exact .of_setback (by simp [setback])
  have hreleased : Orderly c ms s (if s.metadata.finalizers.contains finalizerAtlasSnapshots then
      releaseAtlasSnapshots c s else .ret (.ok s.metadata.finalizers)) h := by
    split
    · next hfinal => exact releaseAtlasSnapshots_follows hdel hfinal
    · exact nofun
  refine hreleased.andThen (fun h' e hs _ _ => hs e rfl) fun h' finalizers _ => ?_
  split
  · exact nofun
  · split
    · exact hfinish _ _
    · split
      · refine ⟨rfl, fun r e he => ?_⟩
        cases r with
        | ok => cases he
        | error => exact .of_setback (by simp [setback])
      · split
        · exact nofun
        · exact hfinish _ _

/-! ## The pass -/

theorem reconcileSnapshot_follows (hu : Untouched s.key h) :
    Orderly c ms s (reconcileSnapshot c s ms) h := by
  unfold reconcileSnapshot
  split
  · next hdel => exact reconcileSnapshotDeletion_follows hdel
  · next hdel =>
    rw [Bool.not_eq_true] at hdel
    split
    · exact nofun
    · split
      · next hcheck =>
        exact fun _ _ => .inr (.inr (.inl (by simp [unfit, hdel, hcheck])))
      · next hcheck => exact stepSnapshot_follows ⟨hcheck, hdel⟩ hu

abbrev Anyhow {α : Type} : History → α → Prop := fun _ _ => True

/-- The turn of one snapshot keeps to its rule. -/
theorem snapshotTick_follows (hu : Untouched s.key h) :
    (snapshotTick c ms s).Follows (ItemRule c ms s) Anyhow h := by
  refine (reconcileSnapshot_follows hu).bind fun h' r hr => ?_
  match r with
  | .ok () => trivial
  | .error e => exact ⟨⟨rfl, fun _ => (hr e rfl).excused⟩, fun _ => trivial⟩

theorem ItemRule.own (he : ItemRule c ms s h e) : Own s.key e := by
  cases e with
  | patchQuiesceRequest o k v =>
    cases v with
    | none => exact .inl he
    | some v => exact .inl (congrArg some he.1)
  | patchMachineSnapshotStatus k st => exact .inl (congrArg some he.1)
  | now => exact .inr rfl
  | _ => exact .inl he

structure Seen (ms : List GuestMachine) (ss : List MachineSnapshot) (h : History) : Prop where
  machines : machinesSeen h = ms
  snapshots : snapshotsSeen h = ss

variable {ss : List MachineSnapshot}

theorem Seen.cons (hs : Seen ms ss h) (he : Own k e) (a : e.Ans) : Seen ms ss (⟨e, a⟩ :: h) := by
  cases e with
  | listMachines | listMachineSnapshots => rcases he with he | he <;> cases he
  | _ => exact ⟨hs.machines, hs.snapshots⟩

theorem Untouched.cons {k' : ObjectKey} (hu : Untouched k h) (he : Own k' e)
    (hne : k ≠ k') (a : e.Ans) : Untouched k (⟨e, a⟩ :: h) := by
  refine forall_mem_cons.mpr ⟨fun howner => ?_, hu⟩
  rcases he with he | he
  · exact hne (Option.some.inj (howner.symm.trans he))
  · subst he
    cases howner

theorem snapshots_follow (hs : Seen ms ss h) {rest : List MachineSnapshot} (hrest : rest <:+ ss)
    (hu : (ss.map MachineSnapshot.key).Nodup → ∀ s ∈ rest, Untouched s.key h) :
    (Prog.forEach (snapshotTick c ms) rest).Follows (SnapshotRule c) Anyhow h := by
  refine (Prog.Follows.forEach (fun h rest => Seen ms ss h ∧ rest <:+ ss ∧
    ((ss.map MachineSnapshot.key).Nodup → ∀ s ∈ rest, Untouched s.key h))
    (fun h s rest => ?_) ⟨hs, hrest, hu⟩).weaken fun _ _ _ => trivial
  rintro ⟨hs, hrest, hu⟩
  have hrest' : rest <:+ ss := (suffix_cons s rest).trans hrest
  by_cases hnodup : (ss.map MachineSnapshot.key).Nodup
  · have hothers : ∀ s' ∈ rest, s'.key ≠ s.key := by
      intro s' hs' heq
      have hnodup' := (hrest.map MachineSnapshot.key).sublist.nodup hnodup
      rw [map_cons, nodup_cons] at hnodup'
      exact hnodup'.1 (mem_map.mpr ⟨s', hs', heq⟩)
    refine ((snapshotTick_follows (hu hnodup s (mem_cons_self ..))).keep
      (P := fun h => Seen ms ss h ∧ ∀ s' ∈ rest, Untouched s'.key h)
      ⟨hs, fun s' hs' => hu hnodup s' (mem_cons_of_mem _ hs')⟩ ?_).mono ?_ ?_
    · exact fun h' e a hP he => ⟨hP.1.cons he.own a, fun s' hs' =>
        (hP.2 s' hs').cons he.own (hothers s' hs') a⟩
    · rintro h' e ⟨hP, he⟩
      refine .inr (.inr ⟨⟨s.key, he.own⟩, fun _ => ⟨s, ?_, ?_⟩⟩)
      · rw [hP.1.snapshots]
        exact hrest.subset (mem_cons_self ..)
      · rwa [hP.1.machines]
    · exact fun h' _ hP => ⟨hP.1.1, hrest', fun _ => hP.1.2⟩
  · -- an impossible listing; the pass still lists nothing else
    have hown := (snapshotTick_follows (c := c) (s := s) (h := []) fun _ hev => by cases hev).forget
      (Q := Own s.key) (fun _ _ (he : ItemRule c ms s _ _) => he.own) h
    refine (hown.keep (P := Seen ms ss) hs fun h' e a hP he => hP.cons he a).mono ?_ ?_
    · rintro h' e ⟨hP, he⟩
      refine .inr (.inr ⟨⟨s.key, he⟩, fun hno => absurd ?_ hnodup⟩)
      rwa [hP.snapshots] at hno
    · exact fun h' _ hP => ⟨hP.1, hrest', fun hno => absurd hno hnodup⟩

/-- The whole pass keeps to the rule. -/
theorem reconcileSnapshots_follows : (reconcileSnapshots c).Follows (SnapshotRule c) Anyhow [] := by
  refine ⟨.inl rfl, fun | .error _ => trivial | .ok ms => ?_⟩
  refine ⟨.inr (.inl rfl), fun r => ?_⟩
  match r with
  | .error e =>
    show Prog.Follows _ _ _ (if _ then _ else _)
    split <;> trivial
  | .ok ss =>
    have hs : Seen ms ss [⟨.listMachineSnapshots, .ok ss⟩, ⟨.listMachines, .ok ms⟩] := ⟨rfl, rfl⟩
    refine (snapshots_follow hs (suffix_refl ss) fun _ s _ ev hev => ?_).bind
      fun _ _ _ => trivial
    rcases mem_pair.mp hev with rfl | rfl
    · exact nofun
    · exact nofun

end Kairon.Snapshot
