import Kairon.Cluster.World
import Kairon.Snapshot.World

/-!
# The controller and the agents

The snapshot passes of the controller and the quiesce steps of the agents, one agent per node, run
side by side. A Machine stays on its node and a snapshot is always of the same Machine.
-/

namespace Kairon.Snapshot

open Infra Model Cluster

/-! ## What an agent does -/

def machinesListed : History → List GuestMachine
  | [] => []
  | ⟨.listMachinesWithSelector _, .ok ms⟩ :: _ => ms
  | _ :: h => machinesListed h

def thawedLast (k : ObjectKey) : History → Bool
  | [] => false
  | ev :: h =>
    match guestCall ev with
    | some (k', frozen) => if k' = k then !frozen else thawedLast k h
    | none => thawedLast k h

def Mine (node : String) (h : History) (k : ObjectKey) : Prop :=
  ∃ m ∈ machinesListed h, m.key = k ∧ m.nodeName = node

def QuiesceRule (node : String) (h : History) : SnapshotOp → Prop
  | .listMachinesWithSelector _ | .reachRuntime _ => True
  | .qgaFsfreezeFreeze k _ | .qgaFsfreezeThaw k _ | .patchQuiesceStatus k (some _) => Mine node h k
  | .patchQuiesceStatus k none => Mine node h k ∧ thawedLast k h = true
  | _ => False

variable {c : Config} {node : String} {h : History}

theorem reconcileGuestQuiesce_follows {m : GuestMachine} {id : String} (hmine : Mine node h m.key) :
    (reconcileGuestQuiesce c m id).Follows (QuiesceRule node)
      (fun h' _ => machinesListed h' = machinesListed h) h := by
  unfold reconcileGuestQuiesce
  split
  · exact ⟨hmine, fun | .error _ => rfl | .ok () => ⟨hmine, fun _ => rfl⟩⟩
  · exact ⟨hmine, fun
      | .error _ => rfl
      | .ok () => ⟨⟨hmine, by simp [thawedLast, guestCall]⟩, fun _ => rfl⟩⟩
  · rfl

theorem quiesceTick_follows {m : GuestMachine} (hm : m ∈ machinesListed h) :
    (quiesceTick c node m).Follows (QuiesceRule node)
      (fun h' _ => machinesListed h' = machinesListed h) h := by
  unfold quiesceTick
  split
  · rfl
  · next hnode =>
    rw [ne_eq, not_not] at hnode
    refine ⟨trivial, fun | none => rfl | some id => ?_⟩
    exact reconcileGuestQuiesce_follows (h := ⟨.reachRuntime m.key, some id⟩ :: h)
      ⟨m, hm, rfl, hnode⟩

theorem reconcileQuiesce_follows :
    (reconcileQuiesce c node).Follows (QuiesceRule node) Anyhow [] := by
  refine ⟨trivial, fun | .error _ => trivial | .ok ms => ?_⟩
  have hloop : (Prog.forEach (quiesceTick c node) ms).Follows (QuiesceRule node)
      (fun h' _ => machinesListed h' = ms ∧ [] ⊆ ms)
      [⟨.listMachinesWithSelector node, .ok ms⟩] := by
    refine Prog.Follows.forEach (fun h' rest => machinesListed h' = ms ∧ rest ⊆ ms)
      (fun h' m rest hleft => ?_) ⟨rfl, List.Subset.refl ms⟩
    obtain ⟨hms, hrest⟩ := hleft
    obtain ⟨hm, hrest⟩ := List.cons_subset.mp hrest
    exact (quiesceTick_follows (hms ▸ hm)).weaken fun _ _ hsame =>
      ⟨hsame.trans hms, hrest⟩
  exact hloop.bind fun _ _ _ => trivial

/-! ## The system -/

inductive Party where
  | controller
  | agent (node : String)
  deriving DecidableEq

/-- Which Machine a snapshot is of, and on which node a Machine is. -/
structure Assignment where
  target : ObjectKey → ObjectKey
  home : ObjectKey → String

structure World.Assigned (A : Assignment) (w : World) : Prop where
  target : ∀ s ∈ w.snapshots.rows, s.target = A.target s.key
  home : ∀ m ∈ w.machines.rows, m.nodeName = A.home m.key

def Quiesce (name : String) : Prop :=
  name = annotationQuiesceRequest ∨ name = annotationQuiesceStatus

/-- What others do to the objects: anything but to write the quiesce annotations or a phase after
the freeze, and to take the annotations from a Machine whose guest is frozen. -/
structure Elsewhere (A : Assignment) (w w' : World) : Prop where
  assigned : w'.Assigned A
  phases : ∀ s' ∈ w'.snapshots.rows, pastFreeze s'.status.phase = true →
    ∃ s ∈ w.snapshots.rows, s.key = s'.key ∧ pastFreeze s.status.phase = true
  written : ∀ k name v, Quiesce name → w'.annotationValue k name = some v →
    w.annotationValue k name = some v
  frozen : ∀ k, w'.frozen k = true → w.frozen k = true
  kept : ∀ k, w'.frozen k = true → (w'.machines.find k).isSome = true →
    (w.machines.find k).isSome = true ∧
      ∀ name, Quiesce name → w'.annotationValue k name = w.annotationValue k name

def quiesceHost (c : Config) (A : Assignment) : Host SnapshotOp.Ans GoErr Party World where
  outcomes _ := outcomes
  start
    | .controller, p => p = reconcileSnapshots c
    | .agent node, p => p = reconcileQuiesce c node
  env := Elsewhere A
  crash := True

abbrev QuiesceConf := Conf SnapshotOp.Ans GoErr Party World

abbrev QuiesceLabel := Label SnapshotOp.Ans GoErr Party World

def PartyRule (c : Config) : Party → History → SnapshotOp → Prop
  | .controller => SnapshotRule c
  | .agent node => QuiesceRule node

theorem follows_of_start {A : Assignment} (t : Party) (p : SnapM GoErr)
    (hp : (quiesceHost c A).start t p) : p.Follows (PartyRule c t) Anyhow [] := by
  cases t with
  | controller =>
    cases hp
    exact reconcileSnapshots_follows
  | agent node =>
    cases hp
    exact reconcileQuiesce_follows

/-!
## One Machine and its snapshot

The objects and the scripts from which the concrete runs of the snapshot passes are put together: a
Machine with one volume and a guest agent, a snapshot of it, and services that work.
-/

def stoppedClock : TimeLayout where
  format _ := "T"
  parse text := if text = "T" then some ⟨0⟩ else none
  parse_eq_none text hat := by
    refine if_neg fun ht => ?_
    subst ht
    simp at hat

def sampleConfig : Config := ⟨stoppedClock, false, fun _ => ""⟩

def sampleMachine : GuestMachine where
  metadata := plainMeta "vm" [(assignedNodeLabel, "node-a")]
  nodeName := "node-a"
  guestAgentEnabled := true
  volumes := [⟨"root", "claim", false⟩]
  atlasVolumes := []

def sampleSnapshot : MachineSnapshot where
  metadata := { plainMeta "snap" [] with finalizers := [] }
  spec := ⟨"vm", "", []⟩
  status := ⟨"", "", false, []⟩

def readyVolumeSnapshot : VolumeSnapshot :=
  { newVolumeSnapshot sampleSnapshot sampleMachine ⟨"root", "claim", false⟩ "snap-root" with
    readyToUse := some true }

def sampleWorld (volumeSnapshots : Table VolumeSnapshot.key) : World where
  machines := Table.add ⟨[], List.nodup_nil⟩ sampleMachine
  snapshots := Table.add ⟨[], List.nodup_nil⟩ sampleSnapshot
  volumeSnapshots := volumeSnapshots
  frozen _ := false

def noVolumeSnapshots : Table VolumeSnapshot.key := ⟨[], List.nodup_nil⟩

def sampleAssignment : Assignment := ⟨fun _ => sampleMachine.key, fun _ => "node-a"⟩

def works (now : Int) (w : World) : (e : SnapshotOp) → e.Ans
  | .listMachines => .ok w.machines.rows
  | .listMachinesWithSelector node =>
    .ok (w.machines.rows.filter fun m => m.metadata.labels.get assignedNodeLabel = node)
  | .listMachineSnapshots => .ok w.snapshots.rows
  | .patchQuiesceRequest _ _ _ | .patchQuiesceStatus _ _ | .patchMachineSnapshot _ _
  | .patchMachineSnapshotStatus _ _ => .ok ()
  | .getVolumeSnapshot _ k =>
    match w.volumeSnapshots.find k with
    | some vs => .ok vs
    | none => .error ⟨true, "not found"⟩
  | .createVolumeSnapshot _ vs => .ok vs
  | .createSnapshot _ _ _ => .ok ⟨"job", "id", true⟩
  | .getJob _ id => .ok ⟨id, .succeeded, none, "id"⟩
  | .deleteSnapshot _ _ => .ok ()
  | .qgaFsfreezeFreeze _ _ | .qgaFsfreezeThaw _ _ => .ok ()
  | .reachRuntime _ => some "r-1"
  | .now => (⟨now⟩ : Time)

def refuses (w : World) : (e : SnapshotOp) → e.Ans
  | .patchQuiesceRequest _ _ _ | .patchQuiesceStatus _ _ | .patchMachineSnapshot _ _
  | .patchMachineSnapshotStatus _ _ => .error ⟨false, "unavailable"⟩
  | .createVolumeSnapshot _ _ => .error ⟨false, "unavailable"⟩
  | e => works 0 w e

abbrev QuiesceMove := Move SnapshotOp.Ans GoErr Party World

variable (answers : List (World → (e : SnapshotOp) → e.Ans))

def controllerPass : List QuiesceMove :=
  .start .controller (reconcileSnapshots sampleConfig) ::
    answers.map fun answer => .call .controller answer 0

def agentTick : List QuiesceMove :=
  .start (.agent "node-a") (reconcileQuiesce sampleConfig "node-a") ::
    answers.map fun answer => .call (.agent "node-a") answer 0

/-- The first such pass asks for a freeze, the second one takes the snapshots. -/
def snapshotPass : List QuiesceMove :=
  controllerPass (List.replicate 6 (works 0)) ++ [.stop .controller]

def quiescePass : List QuiesceMove :=
  agentTick (List.replicate 4 (works 0)) ++ [.stop (.agent "node-a")]

abbrev sampleHost : Host SnapshotOp.Ans GoErr Party World :=
  quiesceHost sampleConfig sampleAssignment

end Kairon.Snapshot
