import Kairon.Backup.Snapshot

/-!
# A backup that was handed over

The controller hands the disk half of a backup over as `Pending`, whatever the power state is. The
agent looks the runtime up, stores `Running` and starts the copy; whether a runtime was found it
does not ask.

* `takeDiskBackup_taken_iff`: when the agent takes a backup on
* `handed_over_taken_iff`: what one reconcile makes of it
-/

namespace Kairon.Backup

open Infra Model Cluster List Host

variable {b : MachineBackup} {disk : DiskBackupStatus} {machines : List Machine} {m : Machine}
  {answer : (e : BackupOp) → e.Ans} {api : Except ApiError Unit} {h : History}

def Stored (b : MachineBackup) (d : DiskBackupStatus) (h : History) : Prop :=
  ⟨.patchMachineBackupStatus b { disk := some d }, (.ok () : Except ApiError Unit)⟩ ∈ h

def Reported (id : String) (h : History) : Prop :=
  id ≠ "" ∧ ∃ m rec, rec.id = id ∧ (⟨.cluster (.flux (.machine m) (.get m.status.runtimeID)),
        (.ok rec : Except String RuntimeRecord)⟩ ∈ h ∨
      ⟨.cluster (.flux (.machine m) (.lookupByName m.key.runtimeName)),
        (.ok (some rec) : Except String (Option RuntimeRecord))⟩ ∈ h)

/-- A reconcile that ended with `r` after the calls `h` has taken the backup: to `Failed` with a
message, or to `Running` with a copy of a VM that exists. -/
def Taken (b : MachineBackup) (r : Except Halt Unit) (h : History) : Prop :=
  r ≠ .error .panic ∧ ((∃ d, Stored b d h ∧ d.phase = .failed ∧ d.message ≠ "") ∨
      ∃ d id quiesce, Stored b d h ∧ d.phase = .running ∧
        ⟨.go (.backup b d id quiesce), ()⟩ ∈ h ∧ Reported id h)

def lookedUp (answer : (e : BackupOp) → e.Ans) (m : Machine) :
    Except String (Option RuntimeRecord) :=
  ((Agent.current m).answered (fun e => answer (.cluster e)) []).1

/-- The table of the copies is not changed by others between two calls. -/
def TableAnswers (answer : (e : BackupOp) → e.Ans) (b : MachineBackup) : Prop :=
  (answer (.start (.backup b.key)) : Bool) = !(answer (.busy (.backup b.key)) : Bool)

def ApiAnswers (answer : (e : BackupOp) → e.Ans) (b : MachineBackup)
    (api : Except ApiError Unit) : Prop :=
  ∀ d, (answer (.patchMachineBackupStatus b { disk := some d }) : Except ApiError Unit) = api

def takes : BackupOp → Bool
  | .patchMachineBackupStatus _ _ | .go _ => true
  | _ => false

def Untaken (h : History) : Prop := ∀ ev ∈ h, takes ev.op = false

theorem Untaken.cons {ev : Event BackupOp.Ans} (hu : Untaken h) (hev : takes ev.op = false) :
    Untaken (ev :: h) :=
  forall_mem_cons.mpr ⟨hev, hu⟩

theorem Untaken.not_stored (hu : Untaken h) (d : DiskBackupStatus) : ¬Stored b d h := by
  intro hs
  have := hu _ hs
  cases this

theorem Untaken.not_taken (hu : Untaken h) (r : Except Halt Unit) : ¬Taken b r h := by
  rintro ⟨-, ⟨d, hd, -⟩ | ⟨d, id, q, hd, -⟩⟩
  · exact hu.not_stored d hd
  · exact hu.not_stored d hd

theorem answered_last (hapi : ApiAnswers answer b api) (d : DiskBackupStatus) :
    (last (patchDiskBackup b d)).answered answer h = (api.mapError fun e => .error e.text,
        ⟨.patchMachineBackupStatus b { disk := some d }, api⟩ :: h) := by
  rw [← hapi d]
  rfl

theorem taken_of_failed (hapi : ApiAnswers answer b api) (hu : Untaken h) {text : String}
    (ht : text ≠ "") :
    Taken b ((last (patchDiskBackup b { disk with phase := .failed, message := text })).answered
        answer h).1
      ((last (patchDiskBackup b { disk with phase := .failed, message := text })).answered
        answer h).2 ↔ api = .ok () := by
  rw [answered_last hapi]
  constructor
  · rintro ⟨-, ⟨d', hd', -⟩ | ⟨d', id, q, hd', -⟩⟩
    all_goals
      rcases mem_cons.mp hd' with heq | hmem
      · cases heq
        rfl
      · exact absurd hmem (hu.not_stored d')
  · rintro rfl
    exact ⟨nofun, .inl ⟨_, mem_cons_self, rfl, ht⟩⟩

theorem Untaken.lookup (hu : Untaken h) {h' : Cluster.History} :
    Untaken (h'.map tickEvent ++ h) := by
  intro ev hev
  rcases mem_append.mp hev with hev | hev
  · obtain ⟨ev', -, rfl⟩ := mem_map.mp hev
    rfl
  · exact hu ev hev

theorem answered_startBackup (hapi : ApiAnswers answer b (.ok ()))
    (hstart : (answer (.start (.backup b.key)) : Bool) = true) (rec : Option RuntimeRecord) :
    (startBackup b disk rec).answered answer h = match rec with
      | none => (.error .panic, ⟨.start (.backup b.key), true⟩ ::
          ⟨.patchMachineBackupStatus b { disk := some (copyingDisks b disk) },
            (.ok () : Except ApiError Unit)⟩ :: h)
      | some rec => (.ok (), ⟨.go (.backup b (copyingDisks b disk) rec.id (quiesceMode b)), ()⟩ ::
          ⟨.start (.backup b.key), true⟩ ::
          ⟨.patchMachineBackupStatus b { disk := some (copyingDisks b disk) },
            (.ok () : Except ApiError Unit)⟩ :: h) := by
  have hpatch := hapi (copyingDisks b disk)
  show Prog.answered answer h (.call _ fun r => _) = _
  rw [Prog.answered, hpatch]
  show Prog.answered answer _ (.call _ fun r => _) = _
  rw [Prog.answered, hstart]
  cases rec with
  | none => rfl
  | some rec => rfl

theorem answered_startBackup_error {e : ApiError} (hapi : ApiAnswers answer b (.error e))
    (rec : Option RuntimeRecord) : (startBackup b disk rec).answered answer h =
      (.error (.error e.text), ⟨.patchMachineBackupStatus b { disk := some (copyingDisks b disk) },
        (.error e : Except ApiError Unit)⟩ :: h) := by
  have hpatch := hapi (copyingDisks b disk)
  show Prog.answered answer h (.call _ fun r => _) = _
  rw [Prog.answered, hpatch]
  rfl

theorem startBackup_taken_iff (hapi : ApiAnswers answer b api) (hu : Untaken h)
    (hstart : (answer (.start (.backup b.key)) : Bool) = true) (rec : Option RuntimeRecord)
    (hrec : ∀ r, rec = some r → r.id ≠ "" → Reported r.id h) :
    Taken b ((startBackup b disk rec).answered answer h).1
      ((startBackup b disk rec).answered answer h).2 ↔
        api = .ok () ∧ ∃ r, rec = some r ∧ r.id ≠ "" := by
  cases api with
  | error e =>
    rw [answered_startBackup_error hapi]
    refine ⟨fun ht => ?_, fun hr => by cases hr.1⟩
    rcases ht.2 with ⟨d, hd, -⟩ | ⟨d, id, q, hd, -⟩
    all_goals
      rcases mem_cons.mp hd with heq | hmem
      · cases heq
      · exact absurd hmem (hu.not_stored d)
  | ok u =>
    rw [answered_startBackup hapi hstart]
    cases rec with
    | none =>
      refine ⟨fun ht => absurd rfl ht.1, ?_⟩
      rintro ⟨-, r, hr, -⟩
      cases hr
    | some rec =>
      refine ⟨fun ht => ⟨rfl, rec, rfl, ?_⟩, ?_⟩
      · rcases ht.2 with ⟨d, hd, hphase, -⟩ | ⟨d, id, q, -, -, hgo, hid, -⟩
        · -- the only status that is stored says `Running`
          rcases mem_cons.mp hd with heq | hd
          · cases heq
          rcases mem_cons.mp hd with heq | hd
          · cases heq
          rcases mem_cons.mp hd with heq | hd
          · cases heq
            cases hphase
          · exact absurd hd (hu.not_stored d)
        · rcases mem_cons.mp hgo with heq | hgo
          · cases heq
            exact hid
          rcases mem_cons.mp hgo with heq | hgo
          · cases heq
          rcases mem_cons.mp hgo with heq | hgo
          · cases heq
          · have := hu _ hgo
            cases this
      · rintro ⟨-, r, hr, hid⟩
        cases hr
        obtain ⟨-, m, rec', hrec', hmem⟩ := hrec rec rfl hid
        have older : ∀ {ev : Event BackupOp.Ans} {x y z : Event BackupOp.Ans}, ev ∈ h →
            ev ∈ x :: y :: z :: h := fun hev => by simp [hev]
        exact ⟨nofun, .inr ⟨_, rec.id, _, by simp [Stored], rfl, mem_cons_self, hid, m, rec',
          hrec', hmem.imp older older⟩⟩

theorem reported_of_lookedUp {rec : RuntimeRecord} (hl : lookedUp answer m = .ok (some rec))
    (hid : rec.id ≠ "") : Reported rec.id
      (((Agent.current m).answered (fun e => answer (.cluster e)) []).2.map tickEvent ++ h) := by
  have hfollows : (Agent.current m).Follows (fun _ _ => True) _ [] :=
    Agent.current_follows m (fun _ _ => trivial) fun _ _ => trivial
  have hfound := hfollows.answered (fun e => answer (.cluster e)) _ hl
  refine ⟨hid, m, rec, rfl, ?_⟩
  rcases hfound with ⟨-, hmem⟩ | hmem
  · exact .inl (mem_append_left _ (mem_map_of_mem hmem))
  · exact .inr (mem_append_left _ (mem_map_of_mem hmem))

/-- FluxVM has a VM for the Machine, or says that it cannot tell. -/
def Found (answer : (e : BackupOp) → e.Ans) (m : Machine) : Prop :=
  ∀ rec, lookedUp answer m = .ok rec → ∃ r, rec = some r ∧ r.id ≠ ""

theorem takeDiskBackup_taken_iff (hapi : ApiAnswers answer b api) (hu : Untaken h)
    (hstart : (answer (.start (.backup b.key)) : Bool) = true) :
    Taken b ((takeDiskBackup b disk machines).answered answer h).1
      ((takeDiskBackup b disk machines).answered answer h).2 ↔
        api = .ok () ∧ ∀ m, machines.find? (fun m => m.key = b.machineKey) = some m →
          Found answer m := by
  unfold takeDiskBackup
  cases hm : machines.find? fun m => m.key = b.machineKey with
  | none =>
    rw [taken_of_failed hapi hu (by decide)]
    simp
  | some m =>
    show Taken b (Prog.answered answer h (Prog.bind _ _)).1
      (Prog.answered answer h (Prog.bind _ _)).2 ↔ _
    rw [Prog.answered_bind, answered_inTick]
    have reported : ∀ rec, lookedUp answer m = .ok (some rec) → rec.id ≠ "" → Reported rec.id
        (((Agent.current m).answered (fun e => answer (.cluster e)) []).2.map tickEvent ++ h) :=
      fun _ => reported_of_lookedUp
    have hfound : (∀ x, some m = some x → Found answer x) ↔ Found answer m := by simp
    rw [hfound, Found]
    unfold lookedUp at *
    generalize (Agent.current m).answered (fun e => answer (.cluster e)) [] = r at *
    obtain ⟨r, h'⟩ := r
    cases r with
    | error e =>
      refine (taken_of_failed hapi hu.lookup fun ht => ?_).trans (by simp)
      simpa using congrArg String.length ht
    | ok rec =>
      refine (startBackup_taken_iff hapi hu.lookup hstart rec ?_).trans (by simp)
      rintro r rfl hid
      exact reported r rfl hid

theorem releaseDiskBackup_untaken (hu : Untaken h) :
    Untaken ((releaseDiskBackup b disk).answered answer h).2 := by
  have follows : (releaseDiskBackup b disk).Follows (fun _ _ => True) (fun h' _ => Untaken h')
      h := by
    unfold releaseDiskBackup
    dsimp only
    split
    · exact hu
    split
    · exact ⟨trivial, fun r => hu.cons rfl⟩
    · exact ⟨trivial, fun
        | .error _ => hu.cons rfl
        | .ok () => ⟨trivial, fun r => Untaken.cons (hu.cons rfl) rfl⟩⟩
  exact follows.answered answer

/--
One reconcile of a backup that is handed over takes it to `Failed` with a message or to `Running`
with a copy of an existing VM, and does not panic, exactly if the API server stores the status, the
backup is not being deleted and has no copy yet, and the Machine is no longer on the node, or the
lookup of its runtime fails, or FluxVM has a VM for it.
-/
theorem handed_over_taken_iff (b : MachineBackup) (disk : DiskBackupStatus)
    (machines : List Machine) (answer : (e : BackupOp) → e.Ans) (api : Except ApiError Unit)
    (pending : disk.phase = .pending) (table : TableAnswers answer b)
    (server : ApiAnswers answer b api) :
    Taken b ((reconcileDiskBackup b disk machines).answered answer []).1
      ((reconcileDiskBackup b disk machines).answered answer []).2 ↔
        api = .ok () ∧ b.metadata.deleting = false ∧
          (answer (.busy (.backup b.key)) : Bool) = false ∧
          ∀ m, machines.find? (fun m => m.key = b.machineKey) = some m → Found answer m := by
  have hu : Untaken [⟨.busy (.backup b.key), answer _⟩] :=
    Untaken.cons (forall_mem_nil _) rfl
  show Taken b (Prog.answered answer [] (.call _ fun r => _)).1
    (Prog.answered answer [] (.call _ fun r => _)).2 ↔ _
  rw [Prog.answered]
  cases hbusy : (answer (.busy (.backup b.key)) : Bool) with
  | true =>
    rw [hbusy] at hu
    exact iff_of_false (hu.not_taken _) fun h => by cases h.2.2.1
  | false =>
    rw [hbusy] at hu
    have hstart : (answer (.start (.backup b.key)) : Bool) = true := by
      rw [table, hbusy]
      rfl
    unfold visitDiskBackup
    split
    · next hdel =>
      refine iff_of_false ((releaseDiskBackup_untaken hu).not_taken _) fun h => ?_
      rw [hdel] at h
      cases h.2.1
    · next hdel =>
      rw [pending]
      have hlive : b.metadata.deleting = false := by simpa using hdel
      exact (takeDiskBackup_taken_iff server hu hstart).trans
        ⟨fun h => ⟨h.1, hlive, rfl, h.2⟩, fun h => ⟨h.1, h.2.2.2⟩⟩

/-! ## A Machine with a VM, and one without -/

def noAtlas : AtlasSettings := ⟨false, "", fun _ _ => false⟩

def fluxHas (vm : Option RuntimeRecord) : (e : BackupOp) → e.Ans
  | .cluster (.flux _ (.lookupByName _)) => .ok vm
  | .cluster e => works (storeOf [] []) e
  | .listMachineBackups => .ok []
  | .listMachineBackupRestores => .ok []
  | .patchMachineBackup _ _ | .patchMachineBackupStatus _ _
  | .patchMachineBackupRestoreStatus _ _ => .ok ()
  | .busy _ => false
  | .start _ => true
  | .go _ => ()
  | .listBackups => .ok []
  | .deleteBackup _ _ _ => .ok ()
  | .panic => ()

def handedOver (m : Machine) : Option MachineBackup :=
  ((startMachineBackup noAtlas newBackup [m]).answered (fluxHas none) []).2.findSome? fun
    | ⟨.patchMachineBackupStatus b p, _⟩ => some (b.patchStatus p)
    | _ => none

def waiting : DiskBackupStatus := .handedOver "" "waiting for kairon-node on node-a"

def waitingBackup : MachineBackup :=
  newBackup.patchStatus
    { phase := some .running, message := some "backing up disks on node-a"
      nodeName := some "node-a", disk := some waiting }

theorem running_machine_taken : handedOver (imageMachine "Running") = some waitingBackup ∧
      Taken waitingBackup
        ((reconcileDiskBackup waitingBackup waiting [imageMachine "Running"]).answered
          (fluxHas (some (plainRecord "Running"))) []).1
        ((reconcileDiskBackup waitingBackup waiting [imageMachine "Running"]).answered
          (fluxHas (some (plainRecord "Running"))) []).2 := by
  refine ⟨by decide +kernel, ?_⟩
  have table : TableAnswers (fluxHas (some (plainRecord "Running"))) waitingBackup := rfl
  refine (handed_over_taken_iff _ waiting _ _ (.ok ()) rfl table fun _ => rfl).mpr ?_
  refine ⟨rfl, rfl, rfl, fun m hm rec hrec => ?_⟩
  cases hm
  cases hrec
  exact ⟨_, rfl, by decide⟩

/-- The controller hands over the backup of a Machine with power state `Stopped`, for which FluxVM
has no VM. The agent stores `Running` and then dereferences the missing record. -/
theorem stopped_machine_panics : handedOver (imageMachine "Stopped") = some waitingBackup ∧
      waitingBackup.status.disk = some waiting ∧ waiting.phase = .pending ∧
      ((reconcileDiskBackup waitingBackup waiting [imageMachine "Stopped"]).answered
        (fluxHas none) []).1 = .error .panic := by
  decide +kernel

end Kairon.Backup
