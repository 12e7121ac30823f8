import Kairon.Backup.Reconcile

/-!
# The backup pass and the copies in the background

The API server's backups and restores, FluxVM's backups, and the process: its table of running
copies and the goroutines that make them, which move between the calls of the tick.
-/

namespace Kairon.Backup

open Infra Model Cluster List

def Job.Copied : Job → Type
  | backup _ _ _ _ => FluxBackup
  | restore _ _ _ => List String

def Job.report : (job : Job) → Except String job.Copied → DiskBackupStatus
  | backup _ disk _ _, .ok out => fillDiskBackup disk out
  | restore _ disk _, .ok restored =>
    { disk with phase := .succeeded, message := "", disks := restored }
  | backup _ disk _ _, .error e | restore _ disk _, .error e =>
    { disk with phase := .failed, message := e }

inductive Stage where
  | copying
  /-- FluxVM has answered; the status is to be stored. -/
  | copied (disk : DiskBackupStatus)
  /-- What is left is `done`. -/
  | recorded
  deriving DecidableEq

structure Goroutine where
  job : Job
  stage : Stage
  deriving DecidableEq

structure World where
  store : Store
  backups : Table MachineBackup.key
  restores : Table MachineBackupRestore.key
  /-- FluxVM's backups. -/
  saved : Table FluxBackup.name
  /-- `backupJobs.running`. -/
  running : List JobKey
  goroutines : List Goroutine

namespace World

def half (w : World) : JobKey → Option (Option DiskBackupStatus)
  | .backup k => (w.backups.find k).map fun b => b.status.disk
  | .restore k => (w.restores.find k).map fun r => r.status.disk

def patchDisk (w : World) : JobKey → DiskBackupStatus → World
  | .backup k, d =>
    { w with
      backups := w.backups.edit k (·.patchStatus { disk := some d })
        (·.key_patchStatus { disk := some d }) }
  | .restore k, d =>
    { w with restores := w.restores.edit k (·.patchDiskStatus d) (·.key_patchDiskStatus d) }

theorem half_patchDisk (w : World) (k k' : JobKey) (d : DiskBackupStatus) :
    (w.patchDisk k d).half k' =
      if k' = k then (w.half k').map fun old => Model.patchDisk old (some d) else w.half k' := by
  cases k <;> cases k' <;>
    simp only [patchDisk, half, Table.find_edit, JobKey.backup.injEq, JobKey.restore.injEq,
      reduceCtorEq, if_false]
  all_goals
    split
    · simp only [Option.map_map]
      rfl
    · rfl

@[simp] theorem running_patchDisk (w : World) (k : JobKey) (d : DiskBackupStatus) :
    (w.patchDisk k d).running = w.running := by
  cases k <;> rfl

@[simp] theorem goroutines_patchDisk (w : World) (k : JobKey) (d : DiskBackupStatus) :
    (w.patchDisk k d).goroutines = w.goroutines := by
  cases k <;> rfl

@[simp] theorem saved_patchDisk (w : World) (k : JobKey) (d : DiskBackupStatus) :
    (w.patchDisk k d).saved = w.saved := by
  cases k <;> rfl

end World

variable (saved : Table FluxBackup.name)

/-- FluxVM has a finished backup of this name. The sidecar with `created_at` is written last. -/
def Complete (name : String) : Prop := ∃ fb, saved.find name = some fb ∧ fb.createdAt ≠ ""

def Retains (saved' : Table FluxBackup.name) : Prop :=
  ∀ name, Complete saved name → Complete saved' name

def Job.Delivered : Job → Prop
  | .backup _ disk _ _ => Complete saved disk.name
  | .restore _ _ _ => True

theorem Job.Delivered.mono {saved saved' : Table FluxBackup.name} (hr : Retains saved saved')
    {job : Job} (hd : job.Delivered saved) : job.Delivered saved' := by
  cases job with
  | backup b disk id quiesce => exact hr _ hd
  | restore r disk id => trivial

/-- The moves of a goroutine. What FluxVM does with a copy that fails is left open, except that it
does not harm what it has. -/
inductive JobStep (w : World) : World → Prop
  | returns {job : Job} {saved : Table FluxBackup.name} (out : Except String job.Copied)
      (live : ⟨job, .copying⟩ ∈ w.goroutines) (retains : Retains w.saved saved)
      (delivered : ∀ c, out = .ok c → job.Delivered saved) : JobStep w
        { w with
          saved := saved
          goroutines := ⟨job, .copied (job.report out)⟩ :: w.goroutines.erase ⟨job, .copying⟩ }
  | records {job : Job} {disk : DiskBackupStatus} {w' : World}
      (live : ⟨job, .copied disk⟩ ∈ w.goroutines)
      -- a patch that fails may have been applied
      (out : w' = w ∨ w' = w.patchDisk job.key disk) : JobStep w
        { w' with goroutines := ⟨job, .recorded⟩ :: w.goroutines.erase ⟨job, .copied disk⟩ }
  | done {job : Job} (live : ⟨job, .recorded⟩ ∈ w.goroutines) : JobStep w
        { w with
          running := w.running.filter (· ≠ job.key)
          goroutines := w.goroutines.erase ⟨job, .recorded⟩ }

def patched (w w' : World) (found : Bool) : Except ApiError Unit → List World
  | .ok () => if found then [w'] else []
  | .error _ => [w, w']

def outcomes (w : World) : (e : BackupOp) → e.Ans → List World
  | .cluster e, a => (Cluster.outcomes w.store e a).map fun store => { w with store := store }
  | .listMachineBackups, .ok bs => if bs.isPerm w.backups.rows then [w] else []
  | .listMachineBackups, .error _ => [w]
  | .listMachineBackupRestores, .ok rs => if rs.isPerm w.restores.rows then [w] else []
  | .listMachineBackupRestores, .error _ => [w]
  | .patchMachineBackup b fs, a =>
    -- the API server removes an object that is being deleted with its last finalizer
    patched w
      { w with
        backups := w.backups.settle b.key (·.patchFinalizers fs) (·.key_patchFinalizers fs)
          fun b => b.metadata.deleting && b.metadata.finalizers.isEmpty }
      (w.backups.find b.key).isSome a
  | .patchMachineBackupStatus b p, a =>
    patched w
      { w with backups := w.backups.edit b.key (·.patchStatus p) (·.key_patchStatus p) }
      (w.backups.find b.key).isSome a
  | .patchMachineBackupRestoreStatus r d, a =>
    patched w (w.patchDisk (.restore r.key) d) (w.restores.find r.key).isSome a
  | .busy k, true => if k ∈ w.running then [w] else []
  | .busy k, false => if k ∈ w.running then [] else [w]
  | .start k, true => if k ∈ w.running then [] else [{ w with running := k :: w.running }]
  | .start k, false => if k ∈ w.running then [w] else []
  | .go job, () => [{ w with goroutines := ⟨job, .copying⟩ :: w.goroutines }]
  | .listBackups, .ok items => if items.isPerm w.saved.rows then [w] else []
  | .listBackups, .error _ => [w]
  | .deleteBackup _ _ name, .ok () => [{ w with saved := w.saved.erase name }]
  | .deleteBackup _ _ name, .error _ => [w, { w with saved := w.saved.erase name }]
  | .panic, _ => []

inductive Effect (w : World) : BackupOp → World → Prop
  | same {e : BackupOp} : Effect w e w
  | store {e : ClusterOp} (store : Store) : Effect w (.cluster e) { w with store := store }
  | finalizers (b : MachineBackup) (fs : List String) (ended : MachineBackup → Bool) :
      Effect w (.patchMachineBackup b fs)
        { w with
          backups := w.backups.settle b.key (·.patchFinalizers fs) (·.key_patchFinalizers fs)
            ended }
  | backupStatus (b : MachineBackup) (p : BackupStatusPatch) :
      Effect w (.patchMachineBackupStatus b p)
        { w with backups := w.backups.edit b.key (·.patchStatus p) (·.key_patchStatus p) }
  | restoreStatus (r : MachineBackupRestore) (d : DiskBackupStatus) :
      Effect w (.patchMachineBackupRestoreStatus r d) (w.patchDisk (.restore r.key) d)
  | start (k : JobKey) : Effect w (.start k) { w with running := k :: w.running }
  | go (job : Job) : Effect w (.go job) { w with goroutines := ⟨job, .copying⟩ :: w.goroutines }
  | delete (why : Cleanup) (b : MachineBackup) (name : String) :
      Effect w (.deleteBackup why b name) { w with saved := w.saved.erase name }

variable {w w' : World} {e : BackupOp}

theorem patched_effect {w₁ : World} {found : Bool} {a : Except ApiError Unit} (he : Effect w e w₁)
    (h : w' ∈ patched w w₁ found a) : Effect w e w' := by
  unfold patched at h
  split at h
  · split at h
    · rwa [mem_singleton.mp h]
    · cases h
  · rcases mem_cons.mp h with rfl | h
    · exact .same
    · rwa [mem_singleton.mp h]

theorem read_effect {p : Prop} [Decidable p] (h : w' ∈ if p then [w] else []) : Effect w e w' := by
  split at h
  · rw [mem_singleton.mp h]
    exact .same
  · cases h

theorem effect_of_mem_outcomes {a : e.Ans} (h : w' ∈ outcomes w e a) : Effect w e w' := by
  cases e with
  | cluster e =>
    obtain ⟨store, -, rfl⟩ := mem_map.mp h
    exact .store store
  | listMachineBackups | listMachineBackupRestores | listBackups =>
    match a with
    | .ok _ => exact read_effect h
    | .error _ =>
      rw [mem_singleton.mp h]
      exact .same
  | patchMachineBackup b fs => exact patched_effect (.finalizers b fs _) h
  | patchMachineBackupStatus b p => exact patched_effect (.backupStatus b p) h
  | patchMachineBackupRestoreStatus r d => exact patched_effect (.restoreStatus r d) h
  | busy k =>
    match a with
    | true => exact read_effect h
    | false =>
      obtain ⟨_, h⟩ := mem_ite_nil_left.mp h
      rw [mem_singleton.mp h]
      exact .same
  | start k =>
    match a with
    | false => exact read_effect h
    | true =>
      obtain ⟨_, h⟩ := mem_ite_nil_left.mp h
      rw [mem_singleton.mp h]
      exact .start k
  | go job =>
    rw [mem_singleton.mp h]
    exact .go job
  | deleteBackup why b name =>
    match a with
    | .ok () =>
      rw [mem_singleton.mp h]
      exact .delete why b name
    | .error _ =>
      rcases mem_cons.mp h with rfl | h
      · exact .same
      · rw [mem_singleton.mp h]
        exact .delete why b name
  | panic => cases h

theorem eq_of_mem_patched_ok {w₁ : World} {found : Bool}
    (h : w' ∈ patched w w₁ found (.ok ())) : w' = w₁ := by
  obtain ⟨_, h⟩ := mem_ite_nil_right.mp h
  exact mem_singleton.mp h

theorem mem_running_of_start {k : JobKey} {a : Bool}
    (h : w' ∈ outcomes w (.start k) a) : k ∈ w'.running := by
  cases a with
  | true =>
    obtain ⟨_, h⟩ := mem_ite_nil_left.mp h
    rw [mem_singleton.mp h]
    exact mem_cons_self
  | false =>
    obtain ⟨hk, h⟩ := mem_ite_nil_right.mp h
    rwa [mem_singleton.mp h]

theorem not_mem_running_of_busy {k : JobKey}
    (h : w' ∈ outcomes w (.busy k) false) : k ∉ w.running := by
  obtain ⟨hk, h⟩ := mem_ite_nil_left.mp h
  exact hk

theorem half_settle (w : World) (b : MachineBackup) (fs : List String)
    (ended : MachineBackup → Bool) (k : JobKey) : let w' := { w with
      backups := w.backups.settle b.key (·.patchFinalizers fs) (·.key_patchFinalizers fs) ended }
    w'.half k = w.half k ∨ k = .backup b.key ∧ w'.half k = none := by
  intro w'
  cases k with
  | restore k => exact .inl rfl
  | backup k =>
    simp only [w', World.half, Table.find_settle]
    split
    · next hk =>
      subst hk
      cases hv : w.backups.find b.key with
      | none => exact .inl rfl
      | some v =>
        by_cases he : ended (v.patchFinalizers fs) = true
        · exact .inr ⟨rfl, by simp [Option.filter, he]⟩
        · refine .inl ?_
          simp only [Option.map_some, Option.filter, he]
          rfl
    · exact .inl rfl

theorem Effect.goroutines (h : Effect w e w') : w'.goroutines = w.goroutines ∨
      ∃ job, e = .go job ∧ w'.goroutines = ⟨job, .copying⟩ :: w.goroutines := by
  cases h with
  | go job => exact .inr ⟨job, rfl, rfl⟩
  | _ => exact .inl rfl

theorem JobStep.copying (h : JobStep w w') {job : Job}
    (hj : ⟨job, .copying⟩ ∈ w'.goroutines) : ⟨job, .copying⟩ ∈ w.goroutines := by
  cases h with
  | returns out live =>
    rcases mem_cons.mp hj with heq | hmem
    · cases heq
    · exact List.mem_of_mem_erase hmem
  | records live out =>
    rcases mem_cons.mp hj with heq | hmem
    · cases heq
    · exact List.mem_of_mem_erase hmem
  | done live => exact List.mem_of_mem_erase hj

def backupHost (start : BackupM GoErr → Prop) (others : World → World → Prop) :
    Host BackupOp.Ans GoErr Unit World where
  outcomes := fun _ => outcomes
  start := fun _ => start
  env := fun w w' => w' = w ∨ JobStep w w' ∨ others w w'
  crash := False

abbrev BackupConf := Conf BackupOp.Ans GoErr Unit World
abbrev BackupLabel := Label BackupOp.Ans GoErr Unit World
abbrev BackupMove := Move BackupOp.Ans GoErr Unit World

/-!
## A small node with backups

A Machine of node-a, a backup and a restore of it, and the answers of services that work.
-/

def imageMachine (powerState : String) : Machine :=
  let m := plainMachine "vm" "node-a" twoCores
  { m with spec := { m.spec with powerState := powerState } }

def newBackup : MachineBackup where
  metadata := { plainMeta "nightly" [] with finalizers := [], uid := "0b1c2d3e-0000" }
  spec := ⟨"vm", "", none⟩
  status := ⟨.unset, "", "", none, []⟩

def plainRestore (phase : BackupPhase) : MachineBackupRestore where
  metadata := plainMeta "undo" []
  status :=
    { nodeName := "node-a"
      machineName := "vm"
      disk := some ⟨phase, "", "kairon-default-nightly-0b1c2d3e", 0, false, []⟩ }

def worldOf (machines : List Machine) (backups : List MachineBackup)
    (restores : List MachineBackupRestore) : World where
  store := storeOf machines []
  backups := backups.foldr (fun b t => t.add b) ⟨[], List.nodup_nil⟩
  restores := restores.foldr (fun r t => t.add r) ⟨[], List.nodup_nil⟩
  saved := ⟨[], List.nodup_nil⟩
  running := []
  goroutines := []

def serve (status : String) (w : World) : (e : BackupOp) → e.Ans
  | .cluster e => answerWith status w.store e
  | .listMachineBackups => .ok w.backups.rows
  | .listMachineBackupRestores => .ok w.restores.rows
  | .patchMachineBackup _ _ | .patchMachineBackupStatus _ _
  | .patchMachineBackupRestoreStatus _ _ => .ok ()
  | .busy k => (decide (k ∈ w.running) : Bool)
  | .start k => (decide (k ∉ w.running) : Bool)
  | .go _ => ()
  | .listBackups => .ok w.saved.rows
  | .deleteBackup _ _ _ => .ok ()
  | .panic => ()

def finishCopy (job : Job) (out : Except String job.Copied) (w : World) : World :=
  if ⟨job, .copying⟩ ∈ w.goroutines then
    { w with
      goroutines := ⟨job, .copied (job.report out)⟩ :: w.goroutines.erase ⟨job, .copying⟩ }
  else w

def storeReport (job : Job) (disk : DiskBackupStatus) (w : World) : World :=
  if ⟨job, .copied disk⟩ ∈ w.goroutines then
    { w.patchDisk job.key disk with
      goroutines := ⟨job, .recorded⟩ :: w.goroutines.erase ⟨job, .copied disk⟩ }
  else w

def leave (job : Job) (w : World) : World :=
  if ⟨job, .recorded⟩ ∈ w.goroutines then
    { w with
      running := w.running.filter (· ≠ job.key)
      goroutines := w.goroutines.erase ⟨job, .recorded⟩ }
  else w

variable {w : World} {job : Job}

theorem finishCopy_step {out : Except String job.Copied}
    (delivered : ∀ c, out = .ok c → job.Delivered w.saved) :
    finishCopy job out w = w ∨ JobStep w (finishCopy job out w) := by
  unfold finishCopy
  split
  · next live => exact .inr (.returns out live (fun _ hc => hc) delivered)
  · exact .inl rfl

theorem storeReport_step {disk : DiskBackupStatus} :
    storeReport job disk w = w ∨ JobStep w (storeReport job disk w) := by
  unfold storeReport
  split
  · next live => exact .inr (.records live (.inr rfl))
  · exact .inl rfl

theorem leave_step : leave job w = w ∨ JobStep w (leave job w) := by
  unfold leave
  split
  · next live => exact .inr (.done live)
  · exact .inl rfl

end Kairon.Backup
