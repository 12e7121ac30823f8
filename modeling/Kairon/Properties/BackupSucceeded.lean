import Kairon.Backup.Snapshot

/-!
# A copy that has succeeded

A copy that ends between the listing of a pass and the question whether it is in flight is taken for
one that a restart has cut off. For a backup the pass then finds the copy in FluxVM; for a restore
it does not look.

* `holds_solo`: the invariant of the one pass of an agent
* `succeeded_kept`: a success stays if none falls between listing and check
-/

namespace Kairon.Backup

open Infra Model Cluster List Host

abbrev passHost (node : String) : Host BackupOp.Ans GoErr Unit World :=
  backupHost (fun p => ∃ machines, p = reconcileBackups node machines) Edits

/-- No restore is stored as succeeded when a pass that has listed it as running finds no copy of it
in flight. -/
def NoLateSuccess : Guard BackupOp.Ans GoErr Unit World :=
  fun c l =>
    match l with
    | .call _ ⟨.busy (.restore k), answer⟩ => (answer : Bool) = false →
        ∀ past item, c.past () = some past → Seen past item (.restore k) →
          item.disk.phase = .running → ¬Succeeded c.world (.restore k)
    | _ => True

variable {owner : String → ObjectKey} {w w' : World} {k : JobKey} {item : Item} {new : History}

/-! ## The pass -/

def Holds (owner : String → ObjectKey) (w : World) (past : Option History) : Prop :=
  Sane owner w ∧ ∀ p, past = some p → Snap owner w p

theorem holds_solo (owner : String → ObjectKey) (node : String) :
    Solo (passHost node) () PassRule (fun _ _ => True) NoLateSuccess (Holds owner) where
  start := by
    rintro w ⟨hs, -⟩
    refine ⟨hs, ?_⟩
    rintro p ⟨⟩
    refine ⟨⟨nodup_nil, nodup_nil⟩, ?_, ?_, ?_⟩
    · rintro item k ⟨b, hb, -⟩
      cases hb
    · rintro item k hseen -
      obtain ⟨ev, hev, -⟩ := exists_listsCopies_of_seen hseen
      cases hev
    · intro k item new base ht
      have := ht.eq
      simp at this
  call := by
    rintro c e a w past ⟨hs, hsnap⟩ hpast hrule hG hw
    have hsnap := hsnap past rfl
    have heff := effect_of_mem_outcomes hw
    rcases hrule.cases with ⟨rfl, rfl⟩ | rfl | ⟨k, rfl, -⟩ | ⟨k, item, new, base, ht, hvisit⟩
    · cases heff
      refine ⟨hs, ?_⟩
      rintro p ⟨⟩
      match a with
      | .error _ => exact ⟨hsnap.distinct, hsnap.named, fun item k hseen _ =>
          hsnap.waiting item k hseen (forall_mem_nil _), fun k item new base ht =>
          absurd ht (not_turn_cons rfl nofun)⟩
      | .ok bs => exact snap_listMachineBackups hs (mem_ite_nil_right.mp hw).1
    · cases heff
      refine ⟨hs, ?_⟩
      rintro p ⟨⟩
      match a with
      | .error _ => exact ⟨hsnap.distinct, hsnap.named, fun item k hseen hasked =>
          hsnap.waiting item k hseen (forall_mem_cons.mp hasked).2, fun k item new base ht =>
          absurd ht (not_turn_cons rfl nofun)⟩
      | .ok rs => exact snap_listMachineBackupRestores hs hsnap (mem_ite_nil_right.mp hw).1
    · cases heff
      refine ⟨hs, ?_⟩
      rintro p ⟨⟩
      refine snap_busy hsnap ?_
      rintro rfl item hseen hasked
      refine visiting_nil hs (hsnap.waiting item k hseen hasked) (not_mem_running_of_busy hw) ?_
      rintro r rfl hp
      exact hG rfl past item hpast hseen hp
    · refine ⟨hvisit.sane heff hs (hsnap.visiting _ _ _ _ ht) (hsnap.seen_named ht.seen_now), ?_⟩
      rintro p ⟨⟩
      exact snap_visit hsnap ht hvisit hw
  stop := by
    rintro w past r ⟨hs, -⟩ -
    exact ⟨hs, nofun⟩
  crash := by
    rintro c past ⟨hs, -⟩ - -
    exact ⟨hs, nofun⟩
  env := by
    rintro c w ⟨hs, hsnap⟩ hw -
    rcases hw with rfl | hstep | hedit
    · exact ⟨hs, hsnap⟩
    · exact ⟨hstep.sane hs, fun p hp => (hsnap p hp).frame fun k => hstep.frame hs k⟩
    · exact ⟨hedit.sane hs, fun p hp => (hsnap p hp).frame fun k => hedit.frame k⟩

/-! ## A stored success -/

def Stays (w w' : World) : Prop :=
  ∀ k, Succeeded w k → w'.half k = none ∨ Succeeded w' k

theorem stays_of_half (h : ∀ k, w'.half k = none ∨ w'.half k = w.half k) : Stays w w' := by
  rintro k ⟨d, hd, hphase⟩
  rcases h k with h | h
  · exact .inl h
  · exact .inr ⟨d, h.trans hd, hphase⟩

theorem Stays.refl : Stays w w := stays_of_half fun _ => .inr rfl

theorem stays_patchDisk {d : DiskBackupStatus} (h : Succeeded w k → d.phase = .succeeded) :
    Stays w (w.patchDisk k d) := by
  rintro j ⟨d₀, hd₀, hphase⟩
  by_cases hj : j = k
  · subst hj
    refine .inr ⟨d₀.patch d, ?_, h ⟨d₀, hd₀, hphase⟩⟩
    rw [World.half_patchDisk, if_pos rfl, hd₀]
    rfl
  · refine .inr ⟨d₀, ?_, hphase⟩
    rw [World.half_patchDisk, if_neg hj, hd₀]

theorem Visiting.verdict {d : DiskBackupStatus} (hv : Visiting w k item new) (hu : Untouched new)
    (hd : Verdict k item new d) (hs : Succeeded w k) : d.phase = .succeeded := by
  cases hd with
  | waits hp _ _ => exact absurd hs (hv.fresh hu hp)
  | succeeds _ hphase _ => exact hphase
  | fails hp _ _ hg => exact absurd hs (hv.not_gaveUp hu hp hg)

theorem VisitRule.stays {e : BackupOp} (hrule : VisitRule k item new e) (heff : Effect w e w')
    (hv : Visiting w k item new) : Stays w w' := by
  cases heff with
  | finalizers b fs ended =>
    refine stays_of_half fun j => ?_
    rcases half_settle w b fs ended j with h | ⟨-, h⟩
    · exact .inr h
    · exact .inl h
  | backupStatus b p =>
    obtain ⟨rfl, hu, d, rfl, hd⟩ := hrule
    exact stays_patchDisk (hv.verdict hu hd)
  | restoreStatus r d =>
    obtain ⟨rfl, hu, hd⟩ := hrule
    exact stays_patchDisk (hv.verdict hu hd)
  | _ => exact stays_of_half fun _ => .inr rfl

theorem JobStep.stays (hstep : JobStep w w') (hs : Sane owner w) : Stays w w' := by
  cases hstep with
  | @records job disk w₁ live out =>
    rcases out with rfl | rfl
    · exact .refl
    · refine stays_patchDisk fun ⟨d, hd, hphase⟩ => ?_
      obtain ⟨d', hd', -, hrun, -⟩ := (hs.copies _ live).half _ hd
      cases hd'
      simp [hrun nofun] at hphase
  | _ => exact stays_of_half fun _ => .inr rfl

theorem Edits.stays (hedit : Edits w w') : Stays w w' := by
  rintro k ⟨d, hd, hphase⟩
  rcases hedit.half k with h | h | ⟨d', h, -⟩
  · exact .inl h
  · exact .inr ⟨d, h.trans hd, hphase⟩
  · simp [h] at hd

theorem VisitRule.not_produced {b : MachineBackup} {name : String}
    (hrule : VisitRule k item new (.deleteBackup .recovery b name)) (hs : Sane owner w)
    (hv : Visiting w k item new) (hn : ∀ b, k = .backup b → NamedItem owner b item)
    {j : ObjectKey} {d : DiskBackupStatus} (hd : w.half (.backup j) = some (some d))
    (hphase : d.phase = .succeeded) : d.name ≠ name := by
  rintro rfl
  obtain ⟨hk, hname, howner⟩ := hrule.owner_deleted hn
  have hne : d.name ≠ "" := hname ▸ (hn _ hk).running hrule.2.2.2.1
  have hj : b.key = j := howner.symm.trans (hs.owned.named j d hd hne)
  subst hk hj
  exact hv.not_succeeded_of_delete hrule ⟨d, hd, hphase⟩

/-- The name of the backup that `recoverDiskBackup` deletes. -/
def recovers : BackupLabel → Option String
  | .call _ ⟨.deleteBackup .recovery _ name, _⟩ => some name
  | _ => none

/-- A process that has just been started, over objects whose copies have names of their own. -/
structure Fresh (owner : String → ObjectKey) (w : World) : Prop where
  owned : Owned owner w
  running : w.running = []
  goroutines : w.goroutines = []

theorem passRule_of_start {node : String} {t : Unit} {p : BackupM GoErr}
    (hp : (passHost node).start t p) :
    p.Follows (fun past e => t = () ∧ PassRule past e) (fun _ _ => True) [] := by
  obtain ⟨machines, rfl⟩ := hp
  exact (reconcileBackups_follows node machines).mono (fun _ _ he => ⟨rfl, he⟩) fun _ _ _ => trivial

/-- In every interleaving of passes and goroutines, with others at work, a disk half that is stored
as succeeded stays so as long as the object exists, and no backup in FluxVM that belongs to one is
deleted by the recovery, as long as no restore succeeds between the listing and the check of a
pass. -/
theorem succeeded_kept (owner : String → ObjectKey) (node : String) {w₀ : World}
    (fresh : Fresh owner w₀) {tr : List BackupLabel} {c c' : BackupConf} {l : BackupLabel}
    (run : Run (passHost node) NoLateSuccess (Conf.idle w₀) tr c)
    (step : Step (passHost node) c l c') :
    (∀ k, Succeeded c.world k → c'.world.half k = none ∨ Succeeded c'.world k) ∧
      ∀ name, recovers l = some name → ∀ k d, c.world.half (.backup k) = some (some d) →
        d.phase = .succeeded → d.name ≠ name := by
  have hidle : (Conf.idle w₀ : BackupConf).Follows (fun t past e => t = () ∧ PassRule past e)
      fun _ _ _ => True := Conf.follows_idle _ _ _
  have hf := run.follows (fun _ _ => passRule_of_start) hidle
  have hsane : Sane owner w₀ := by
    refine ⟨fresh.owned, ?_, ?_, ?_⟩
    all_goals simp [fresh.goroutines]
  obtain ⟨hs, hsnap⟩ := (holds_solo owner node).inductive.run (fun _ _ => passRule_of_start) run
    hidle ⟨hsane, by rintro _ ⟨⟩⟩
  cases step with
  | @call _ e _ past a w at_call out =>
    have hsnap := hsnap past (by simp [Conf.past, at_call])
    have heff := effect_of_mem_outcomes out
    rcases (hf _ _ at_call).1.2.cases with ⟨rfl, -⟩ | rfl | ⟨k, rfl, -⟩ |
      ⟨k, item, new, base, ht, hvisit⟩
    iterate 3
      · cases heff
        exact ⟨Stays.refl, by rintro _ ⟨⟩⟩
    · have hv := hsnap.visiting _ _ _ _ ht
      refine ⟨hvisit.stays heff hv, fun name hl j d hd hphase => ?_⟩
      cases e with
      | deleteBackup why b name' =>
        cases why with
        | finalizer => cases hl
        | recovery =>
          cases hl
          exact hvisit.not_produced hs hv (hsnap.seen_named ht.seen_now) hd hphase
      | _ => cases hl
  | env may =>
    refine ⟨?_, by rintro _ ⟨⟩⟩
    rcases may with rfl | hstep | hedit
    · exact Stays.refl
    · exact hstep.stays hs
    · exact hedit.stays
  | crash may _ => exact may.elim
  | start | stop => exact ⟨Stays.refl, by rintro _ ⟨⟩⟩

/-! ## A restore that ends between the listing and the check -/

def undo : JobKey := .restore ⟨"default", "undo"⟩

def beforeRestore : World := worldOf [] [] [plainRestore .pending]

theorem fresh_beforeRestore : Fresh (fun _ => ⟨"", ""⟩) beforeRestore where
  owned := by
    refine ⟨fun b hb => ?_, fun k d hd => ?_, fun k d hd => ?_⟩
    · cases hb
    · cases hd
    · cases hd
  running := rfl
  goroutines := rfl

def restoreJob : Job :=
  .restore (plainRestore .pending)
    ⟨.running, "copying disks", "kairon-default-nightly-0b1c2d3e", 0, false, []⟩ "r-1"

def copyReturns (w : World) : World := finishCopy restoreJob (.ok ["vda"]) w

def successStored (w : World) : World :=
  storeReport restoreJob (restoreJob.report (.ok ["vda"])) w

def goroutineEnds (w : World) : World := leave restoreJob w

def listDuringCopy : List BackupMove :=
  .start () (reconcileBackups "node-a" [imageMachine "Halted"]) ::
    List.replicate 7 (.call () (serve "stopped") 0) ++
    .stop () :: .start () (reconcileBackups "node-a" [imageMachine "Halted"]) ::
    List.replicate 2 (.call () (serve "stopped") 0)

def copyEnds : List BackupMove := [.env copyReturns, .env successStored, .env goroutineEnds]

theorem env_of_copyEnds (node : String) (w : World) :
    (passHost node).env w (copyReturns w) ∧ (passHost node).env w (successStored w) ∧
      (passHost node).env w (goroutineEnds w) := by
  have weaken : ∀ {w'}, w' = w ∨ JobStep w w' → (passHost node).env w w' :=
    fun h => h.imp_right .inl
  exact ⟨weaken (finishCopy_step fun _ _ => trivial), weaken storeReport_step, weaken leave_step⟩

def lateSuccess : List BackupMove :=
  listDuringCopy ++ copyEnds ++ [.call () (serve "stopped") 0]

theorem permits_lateSuccess : (passHost "node-a").Allows lateSuccess :=
  ⟨⟨_, rfl⟩, ⟨_, rfl⟩, fun w => (env_of_copyEnds _ w).1,
    fun w => (env_of_copyEnds _ w).2.1, fun w => (env_of_copyEnds _ w).2.2⟩

/-- A pass lists the restore as running. The copy returns, the goroutine stores its success and
ends. The pass finds no copy in flight and stores the restore as failed. -/
theorem restore_fails_after_success : Fresh (fun _ => ⟨"", ""⟩) beforeRestore ∧
    ∃ tr c ev c', Run (passHost "node-a") (fun _ _ => True) (Conf.idle beforeRestore) tr c ∧
      Step (passHost "node-a") c (.call () ev) c' ∧ Succeeded c.world undo ∧
      ∃ d, c'.world.half undo = some (some d) ∧ d.phase = .failed := by
  exact ⟨fresh_beforeRestore, _, _, _, _, run_of_play permits_lateSuccess rfl,
    step_of_move () (serve "stopped") 0 rfl, ⟨_, rfl, rfl⟩, _, rfl, rfl⟩

def noneSucceeded (c : BackupConf) : BackupLabel → Bool
  | .call _ ⟨.busy (.restore _), _⟩ =>
    c.world.restores.rows.all fun r => r.diskPhase ≠ some .succeeded
  | _ => true

theorem noneSucceeded_sound (c : BackupConf) (l : BackupLabel) (h : noneSucceeded c l = true) :
    NoLateSuccess c l := by
  unfold NoLateSuccess
  split
  · next t k answer =>
    rintro - past item - - - ⟨d, hd, hphase⟩
    obtain ⟨r, hfind, hr⟩ := Option.map_eq_some_iff.mp hd
    have hne := of_decide_eq_true (all_eq_true.mp h r (Table.find_eq_some_iff.mp hfind).1)
    exact hne (by simp [MachineBackupRestore.diskPhase, hr, hphase])
  · trivial

def successInPass : List BackupMove :=
  listDuringCopy ++ [.env copyReturns, .env successStored]

theorem permits_successInPass : (passHost "node-a").Allows successInPass :=
  ⟨⟨_, rfl⟩, ⟨_, rfl⟩, fun w => (env_of_copyEnds _ w).1, fun w => (env_of_copyEnds _ w).2.1⟩

theorem succeeded_kept_in_pass :
    ∃ tr c ev c', Run (passHost "node-a") NoLateSuccess (Conf.idle beforeRestore) tr c ∧
      Step (passHost "node-a") c (.call () ev) c' ∧ Succeeded c.world undo ∧
      (c'.world.half undo = none ∨ Succeeded c'.world undo) := by
  have run := play_sound noneSucceeded_sound (c := .idle beforeRestore) permits_successInPass rfl
  exact ⟨_, _, _, _, run, step_of_move () (serve "stopped") 0 rfl, ⟨_, rfl, rfl⟩,
    (succeeded_kept _ "node-a" fresh_beforeRestore run (step_of_move () (serve "stopped") 0 rfl)).1
      undo ⟨_, rfl, rfl⟩⟩

end Kairon.Backup
