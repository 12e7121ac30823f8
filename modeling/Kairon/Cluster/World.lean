import Kairon.Cluster.Op
import Kairon.Infra.Play
import Kairon.Infra.Table

/-!
# The API server

What is stored, what a call may be answered and what it writes. A failed patch may have been
applied all the same: the answer can get lost on the way back.
-/

namespace Kairon.Cluster

open Infra GoJson Model

structure Store where
  machines : Table Machine.key
  migrations : Table MachineMigration.key

inductive Write where
  | machine (key : ObjectKey) (p : MachinePatch)
  | machineStatus (key : ObjectKey) (s : MachineStatus)
  | migration (key : ObjectKey) (p : MigrationPatch)
  | migrationStatus (key : ObjectKey) (s : MachineMigrationStatus)

variable (status : String) (w : Store)

namespace Store

/-- The stored objects after a write; one to a missing object changes nothing. -/
def write : Write → Store
  | .machine k p => { w with machines := w.machines.edit k (·.patch p) (·.key_patch p) }
  | .machineStatus k s =>
    { w with machines := w.machines.edit k (·.patchStatus s) (·.key_patchStatus s) }
  | .migration k p => { w with migrations := w.migrations.edit k (·.patch p) (·.key_patch p) }
  | .migrationStatus k s =>
    { w with migrations := w.migrations.edit k (·.patchStatus s) (·.key_patchStatus s) }

def phase (k : ObjectKey) : Option MigrationPhase :=
  (w.migrations.find k).map fun g => g.status.phase

def nodeName (k : ObjectKey) : Option String := (w.machines.find k).map fun m => m.spec.nodeName

end Store

def ClusterOp.write : ClusterOp → Option Write
  | patchMachine _ k p => some (.machine k p)
  | patchMachineStatus k s => some (.machineStatus k s)
  | patchMachineMigration item p => some (.migration item.key p)
  | patchMachineMigrationStatus _ item s => some (.migrationStatus item.key s)
  | _ => none

/-- The answers the API server may give. What it does not store it may answer in any way. -/
def Answers : (e : ClusterOp) → e.Ans → Bool
  | .listMachines, .ok ms => ms.isPerm w.machines.rows
  | .listMachinesWithSelector n, .ok ms =>
    ms.isPerm (w.machines.rows.filter fun m => m.metadata.labels.get assignedNodeLabel = n)
  | .getMachine k, .ok m => w.machines.find k = some m
  | .listMachineMigrations, .ok gs => gs.isPerm w.migrations.rows
  | .listMachineMigrationsWithSelector n, .ok gs =>
    gs.isPerm
      (w.migrations.rows.filter fun g => g.metadata.labels.get migrationSourceNodeLabel = n)
  | .listMachineMigrationsNamespace ns, .ok gs =>
    gs.isPerm (w.migrations.rows.filter fun g => g.key.namespace = ns)
  | .patchMachine _ k _, .ok () => (w.machines.find k).isSome
  | .patchMachineStatus k _, .ok () => (w.machines.find k).isSome
  | .patchMachineMigration item _, .ok () => (w.migrations.find item.key).isSome
  | .patchMachineMigrationStatus _ item _, .ok () => (w.migrations.find item.key).isSome
  | _, _ => true

def failed : (e : ClusterOp) → e.Ans → Bool
  | .patchMachine _ _ _, .error _ | .patchMachineStatus _ _, .error _
  | .patchMachineMigration _ _, .error _ | .patchMachineMigrationStatus _ _ _, .error _ => true
  | _, _ => false

def outcomes (e : ClusterOp) (a : e.Ans) : List Store :=
  if Answers w e a then
    match e.write with
    | none => [w]
    | some x => if failed e a then [w, w.write x] else [w.write x]
  else []

theorem mem_outcomes_iff {w w' : Store} {e : ClusterOp} {a : e.Ans} : w' ∈ outcomes w e a ↔
      Answers w e a = true ∧ ((w' = w ∧ (e.write = none ∨ failed e a = true)) ∨
          ∃ x, e.write = some x ∧ w' = w.write x) := by
  unfold outcomes
  by_cases ha : Answers w e a = true
  · cases hx : e.write with
    | none => simp [ha]
    | some x => by_cases hf : failed e a = true <;> simp [ha, hf]
  · simp [ha]

theorem mem_of_listed {w : Store} {gs : List MachineMigration} {g : MachineMigration}
    {p : MachineMigration → Bool} (h : gs.isPerm (w.migrations.rows.filter p) = true)
    (hg : g ∈ gs) : w.migrations.find g.key = some g := by
  have hmem := (List.isPerm_iff.mp h).mem_iff.mp hg
  exact Table.find_eq_some_iff.mpr ⟨(List.mem_filter.mp hmem).1, rfl⟩

theorem nodup_of_listed {w : Store} {gs : List MachineMigration} {p : MachineMigration → Bool}
    (h : gs.isPerm (w.migrations.rows.filter p) = true) : (gs.map MachineMigration.key).Nodup := by
  have hperm := (List.isPerm_iff.mp h).map MachineMigration.key
  exact hperm.nodup_iff.mpr (w.migrations.distinct.sublist (List.filter_sublist.map _))

/-!
## What a tick has done so far

A tick is seen through the calls it has made. It works on one listing of migrations and takes the
listed objects one after the other; while it works, the stored ones may move on.
-/

open List

abbrev History := List (Event ClusterOp.Ans)

abbrev Anyhow {α : Type} : History → α → Prop := fun _ _ => True

def lists (ev : Event ClusterOp.Ans) : Bool :=
  match ev.op with
  | .listMachineMigrations | .listMachineMigrationsWithSelector _ => true
  | _ => false

/-- The migrations that a tick works on: its last successful listing. -/
def listed : History → List MachineMigration
  | [] => []
  | ⟨.listMachineMigrations, .ok gs⟩ :: _ => gs
  | ⟨.listMachineMigrationsWithSelector _, .ok gs⟩ :: _ => gs
  | _ :: h => listed h

def writesStatus (ev : Event ClusterOp.Ans) : Bool :=
  match ev.op with
  | .patchMachineMigrationStatus _ _ _ => true
  | _ => false

def commits : Event ClusterOp.Ans → Bool
  | ⟨.peer _ _ (.commit _), .ok ()⟩ => true
  | _ => false

def touches (k : ObjectKey) (ev : Event ClusterOp.Ans) : Bool :=
  match ev.op with
  | .patchMachineMigrationStatus _ x _ => x.key = k
  | .peer x _ (.commit _) => x.key = k
  | _ => false

def writesStatusOf (k : ObjectKey) (ev : Event ClusterOp.Ans) : Bool :=
  match ev.op with
  | .patchMachineMigrationStatus _ x _ => x.key = k
  | _ => false

def commitsOf (k : ObjectKey) : Event ClusterOp.Ans → Bool
  | ⟨.peer x _ (.commit _), .ok ()⟩ => x.key = k
  | _ => false

def pending (k : ObjectKey) : History → Bool
  | [] => false
  | ev :: h => !writesStatusOf k ev && (commitsOf k ev || pending k h)

def reassigns (k : ObjectKey) (ev : Event ClusterOp.Ans) : Bool :=
  match ev.op with
  | .patchMachine _ k' p =>
    k' = k && (p.nodeName.isSome || p.resources.isSome || p.allocatedCpuSet.isSome)
  | _ => false

def Aside (ev : Event ClusterOp.Ans) : Prop :=
  lists ev = false ∧ ∀ k, touches k ev = false

def About (item : MachineMigration) (ev : Event ClusterOp.Ans) : Prop :=
  lists ev = false ∧ ∀ k, touches k ev = true → k = item.key

/-- It is the turn of `item` after the calls `h`: it was listed, and if nothing was listed twice
it has not been touched yet. -/
structure Turn (item : MachineMigration) (h : History) : Prop where
  listed : item ∈ Cluster.listed h
  untouched : ((Cluster.listed h).map MachineMigration.key).Nodup →
    ∀ ev ∈ h, touches item.key ev = false

variable {h new : History} {ev : Event ClusterOp.Ans} {k : ObjectKey}

theorem listed_cons (hev : lists ev = false) : listed (ev :: h) = listed h := by
  obtain ⟨op, ans⟩ := ev
  cases op <;> first | rfl | cases hev

theorem listed_append (hnew : ∀ ev ∈ new, lists ev = false) : listed (new ++ h) = listed h := by
  induction new with
  | nil => rfl
  | cons ev new ih =>
    rw [cons_append, listed_cons (hnew ev mem_cons_self)]
    exact ih fun ev' hev' => hnew ev' (mem_cons_of_mem _ hev')

theorem touches_of_writesStatusOf (hev : writesStatusOf k ev = true) : touches k ev = true := by
  obtain ⟨op, ans⟩ := ev
  cases op <;> first | exact hev | cases hev

theorem writesStatus_of_writesStatusOf
    (hev : writesStatusOf k ev = true) : writesStatus ev = true := by
  obtain ⟨op, ans⟩ := ev
  cases op <;> first | rfl | cases hev

theorem touches_of_commitsOf (hev : commitsOf k ev = true) : touches k ev = true := by
  obtain ⟨op, ans⟩ := ev
  cases op with
  | peer x url call =>
    cases call with
    | commit id =>
      cases ans with
      | ok u => exact hev
      | error e => cases hev
    | _ => cases hev
  | _ => cases hev

theorem pending_cons_of_untouched
    (hev : touches k ev = false) : pending k (ev :: h) = pending k h := by
  have hw : writesStatusOf k ev = false := by
    rw [Bool.eq_false_iff]
    exact fun hw => by simp [touches_of_writesStatusOf hw] at hev
  have hc : commitsOf k ev = false := by
    rw [Bool.eq_false_iff]
    exact fun hc => by simp [touches_of_commitsOf hc] at hev
  simp [pending, hw, hc]

theorem pending_append_of_untouched (hnew : ∀ ev ∈ new, touches k ev = false) :
    pending k (new ++ h) = pending k h := by
  induction new with
  | nil => rfl
  | cons ev new ih =>
    rw [forall_mem_cons] at hnew
    rw [cons_append, pending_cons_of_untouched hnew.1]
    exact ih hnew.2

theorem Turn.unwritten {base : History} {item : MachineMigration} (ht : Turn item base)
    (hd : ((Cluster.listed (new ++ base)).map MachineMigration.key).Nodup)
    (habout : ∀ ev ∈ new, About item ev) (hu : ∀ ev ∈ new, writesStatus ev = false) :
    item ∈ Cluster.listed (new ++ base) ∧
      ∀ ev ∈ new ++ base, writesStatusOf item.key ev = false := by
  have hl : Cluster.listed (new ++ base) = Cluster.listed base :=
    listed_append fun ev hev => (habout ev hev).1
  refine ⟨hl ▸ ht.listed, fun ev hev => Bool.eq_false_iff.mpr fun hw => ?_⟩
  rcases mem_append.mp hev with hev | hev
  · have := hu ev hev
    simp [writesStatus_of_writesStatusOf hw] at this
  · have := ht.untouched (hl ▸ hd) ev hev
    simp [touches_of_writesStatusOf hw] at this

structure ToCome (items : List MachineMigration) (h : History) : Prop where
  listed : ∀ item ∈ items, item ∈ Cluster.listed h
  distinct : ((Cluster.listed h).map MachineMigration.key).Nodup →
    (items.map MachineMigration.key).Nodup
  untouched : ((Cluster.listed h).map MachineMigration.key).Nodup →
    ∀ item ∈ items, ∀ ev ∈ h, touches item.key ev = false

namespace ToCome

variable {item : MachineMigration} {items : List MachineMigration}

theorem nil : ToCome [] h :=
  ⟨forall_mem_nil _, fun _ => nodup_nil, fun _ => forall_mem_nil _⟩

theorem start (hlisted : Cluster.listed (ev :: h) = items)
    (hev : ∀ k, touches k ev = false) (hh : ∀ ev ∈ h, Aside ev) : ToCome items (ev :: h) where
  listed x hx := by rwa [hlisted]
  distinct hd := by rwa [hlisted] at hd
  untouched _ x _ ev' hev' := by
    rcases mem_cons.mp hev' with rfl | hev'
    · exact hev _
    · exact (hh ev' hev').2 _

theorem aside (ht : ToCome items h) (hev : Aside ev) : ToCome items (ev :: h) := by
  refine ⟨fun x hx => ?_, fun hd => ?_, fun hd x hx => ?_⟩
  · rw [listed_cons hev.1]
    exact ht.listed x hx
  · rw [listed_cons hev.1] at hd
    exact ht.distinct hd
  · rw [listed_cons hev.1] at hd
    exact forall_mem_cons.mpr ⟨hev.2 _, ht.untouched hd x hx⟩

theorem turn (ht : ToCome (item :: items) h) : Turn item h :=
  ⟨ht.listed item mem_cons_self, fun hd => ht.untouched hd item mem_cons_self⟩

theorem next (ht : ToCome (item :: items) h) (hnew : ∀ ev ∈ new, About item ev) :
    ToCome items (new ++ h) := by
  have same : Cluster.listed (new ++ h) = Cluster.listed h :=
    listed_append fun ev hev => (hnew ev hev).1
  refine ⟨fun x hx => ?_, fun hd => ?_, fun hd x hx ev hev => ?_⟩
  · rw [same]
    exact ht.listed x (mem_cons_of_mem _ hx)
  · rw [same] at hd
    exact (nodup_cons.mp (ht.distinct hd)).2
  · rw [same] at hd
    rcases mem_append.mp hev with hev | hev
    · -- an event about the first, whose key is not that of a later one
      rw [Bool.eq_false_iff]
      intro htouch
      have hkey : x.key = item.key := (hnew ev hev).2 _ htouch
      have hnot := (nodup_cons.mp (ht.distinct hd)).1
      exact hnot (hkey ▸ mem_map_of_mem hx)
    · exact ht.untouched hd x (mem_cons_of_mem _ hx) ev hev

end ToCome

theorem pending_append (hh : pending k h = false) : pending k (new ++ h) = pending k new := by
  induction new with
  | nil => exact hh
  | cons ev new ih => simp [pending, ih]

theorem pending_append_about {item : MachineMigration} (hk : k ≠ item.key)
    (hnew : ∀ ev ∈ new, About item ev) : pending k (new ++ h) = pending k h :=
  pending_append_of_untouched fun ev hev =>
    Bool.eq_false_iff.mpr fun ht => hk ((hnew ev hev).2 k ht)

theorem pending_of_aside (hh : ∀ ev ∈ h, Aside ev) : pending k h = false := by
  have := pending_append_of_untouched (h := []) fun ev hev => (hh ev hev).2 k
  rwa [append_nil] at this

/-!
## A small cluster

Objects of a cluster of two nodes and the answers of services that work, from which the concrete
runs of this development are put together.
-/

open Migration

def blankStatus : MachineStatus where
  phase := ""
  nodeName := ""
  runtimeID := ""
  guestIP := ""
  guestIPs := []
  network := none
  observedGeneration := 0
  message := ""
  conditions := []
  appliedVCPUs := 0
  appliedMemoryMiB := 0
  appliedResourceLimits := none
  resourceUsage := none
  volumeStagingPath := ""
  volumePublishPath := ""
  volumeHandle := ""
  volumeDriver := ""
  appliedServiceFabricMemberships := []
  attachedDisks := []
  diskVolumes := []
  attachedInterfaces := []

def plainMeta (name : String) (labels : StringMap) : ObjectMeta where
  name := name
  «namespace» := "default"
  uid := ""
  generation := 1
  labels := labels
  annotations := []
  finalizers := [runtimeFinalizer]
  deleting := false

def plainMachine (name node : String) (resources : ResourceSpec) : Machine where
  metadata := plainMeta name (if node = "" then [] else [(assignedNodeLabel, node)])
  spec :=
    { nodeName := node
      powerState := "Running"
      instanceTypeName := ""
      resources := resources
      backend := "qemu"
      sandbox := none
      volumes := []
      disks := []
      deviceClaims := []
      priority := 0
      tenant := "" }
  status := blankStatus

def twoCores : ResourceSpec := ⟨"2", "2Gi", "", "", false, [], false⟩

def plainMigration (name machine : String) (phase : MigrationPhase) : MachineMigration where
  metadata := plainMeta name [(migrationSourceNodeLabel, "node-a")]
  spec :=
    { machineName := machine
      strategy := "live"
      targetNode := "node-b"
      mode := ""
      bandwidthMbps := 1000
      maxDowntimeMs := 0
      multifdChannels := 0
      migrationNetwork := ""
      recovery := none
      cancel := false }
  status :=
    { phase := phase
      message := ""
      sourceNode := "node-a"
      targetNode := "node-b"
      effectiveStrategy := "live"
      runtimeID := "r-1"
      sessionID := "kmm-1"
      transferID := "t-1"
      transferPhase := ""
      backend := "qemu"
      ramTransferred := 0
      ramRemaining := 0
      ramTotal := 0
      totalTimeMs := 0
      downtimeMs := 0
      dataPlaneEncrypted := true
      recovery := none }

def storeOf (machines : List Machine) (migrations : List MachineMigration) : Store where
  machines := machines.foldr (fun m t => t.add m) ⟨[], List.nodup_nil⟩
  migrations := migrations.foldr (fun g t => t.add g) ⟨[], List.nodup_nil⟩

def plainRecord : RuntimeRecord where
  idValue := "r-1"
  uuid := ""
  name := "kairon-default-vm"
  status := status
  guestIP := "10.0.0.5"
  disk := "/disk"
  mac := "52:54:00:00:00:01"
  vcpus := 2
  memoryMiB := 2048

def plainTransfer (phase : String) : TransferStatus := ⟨"t-1", phase, "", 0, 0, 0, 0, 0⟩

def fluxAnswer : (call : FluxCall) → call.Ans
  | .get _ | .createWithVfio | .createSandbox | .fork _ | .resume _ | .start _ | .pause _
  | .stop _ => .ok (plainRecord status)
  | .lookupByName _ => .ok (some (plainRecord status))
  | .delete _ | .networkMigrationQuiesce _ | .networkMigrationResume _ => .ok ()
  | .getStats _ => .error "no statistics"
  | .networkMigrationExport _ => .ok ""

def peerAnswer : (call : PeerCall) → call.Ans
  | .prepare _ => .ok ⟨"kmm-1", .prepared, true, "tcp:10.0.0.2:4444", "qemu", "", true⟩
  | .commit _ | .abort _ | .heartbeat _ => .ok ()
  | .diagnose _ => .ok ⟨.prepared, true, "running", "r-2", "", 1⟩

def sourceAnswer : (call : SourceCall) → call.Ans
  | .start _ => .ok (plainTransfer "running")
  | .status _ _ => .ok (plainTransfer "completed")
  | .abort _ _ => .ok ()

def stepAnswer : (step : MachineStep) → step.Ans
  | .resolveDisks => .ok ⟨"", "", "", ""⟩
  | .ejectRemovedCdroms r => .ok r
  | .reconcileHotplug _ _ _ => (2, 2048, none)
  | .reconcileDevices _ => ([], [], [], none)
  | .reconcileResourceLimits _ => (none, none)
  | .projectNetworkStatus r => .ok ⟨r.guestIP, [r.guestIP], none⟩
  | .reconcileGuestQuiesce _ => ()
  | .reconcileServiceFabric _ => .ok []
  | .exportConntrackSnapshot _ => ""
  | .prepareCreate | .pruneStaleCSIVolume _ | .deregisterServiceFabric | .teardownCSIVolume
  | .teardownDiskVolumes => .ok ()

def decisionAnswer : (d : Decision) → d.Ans
  | .choose _ candidates =>
    match candidates with
    | node :: _ => .ok node.name
    | [] => .error "no node"
  | .admitQuota _ | .admitMigrationPolicy _ | .preflight _ _ _ _ => ""
  | .bandwidthMbpsFromPolicies _ => (0 : UInt64)
  | .imagesNotReady | .volumesNotReady => ([] : List ObjectKey)

def answerWith : (e : ClusterOp) → e.Ans
  | .listMachines => .ok w.machines.rows
  | .listMachinesWithSelector n =>
    .ok (w.machines.rows.filter fun m => m.metadata.labels.get assignedNodeLabel = n)
  | .getMachine k =>
    match w.machines.find k with
    | some m => .ok m
    | none => .error ⟨true, "not found"⟩
  | .listMachineMigrations => .ok w.migrations.rows
  | .listMachineMigrationsWithSelector n =>
    .ok (w.migrations.rows.filter fun g => g.metadata.labels.get migrationSourceNodeLabel = n)
  | .listMachineMigrationsNamespace ns =>
    .ok (w.migrations.rows.filter fun g => g.key.namespace = ns)
  | .patchMachine _ _ _ | .patchMachineStatus _ _ | .patchMachineMigration _ _
  | .patchMachineMigrationStatus _ _ _ | .recordEvent _ _ _ => .ok ()
  | .listNodes =>
    .ok [⟨"node-a", [("kairon.zyvor.dev/pinnable-cpus", "0-3")], []⟩,
      ⟨"node-b", [("kairon.zyvor.dev/pinnable-cpus", "0-3")], []⟩]
  | .listMachineInstanceTypes => .ok []
  | .flux _ call => fluxAnswer status call
  | .peer _ _ call => peerAnswer call
  | .source _ call => sourceAnswer call
  | .targetControlURL _ => .ok "https://node-b"
  | .machineStep _ step => stepAnswer step
  | .agentPass _ | .controllerPass _ => .ok ()
  | .decision d => decisionAnswer d
  | .now => ⟨1⟩

abbrev works : Store → (e : ClusterOp) → e.Ans := answerWith "running"

def unreachable : (e : ClusterOp) → e.Ans
  | .patchMachine _ _ _ | .patchMachineStatus _ _ | .patchMachineMigration _ _
  | .patchMachineMigrationStatus _ _ _ => .error ⟨false, "timeout"⟩
  | .targetControlURL _ => .error "timeout"
  | e => works w e

end Kairon.Cluster
