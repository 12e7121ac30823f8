import Kairon.Backup.Invariant

/-!
# What a pass knows of the world

For every object that a pass has listed and not yet visited, and for the one it visits, `Snap` says
what the stored object, the goroutines and FluxVM have to do with that listing.
-/

namespace Kairon.Backup

open Infra Model Cluster List Option Table

variable {owner : String → ObjectKey} {w w' : World} {k : JobKey} {item : Item}
  {new base past : History} {d : DiskBackupStatus}

/-! ## What the pass relies on -/

def Kept (saved : Table FluxBackup.name) (item : Item) : JobKey → Prop
  | .backup _ => Complete saved item.disk.name
  | .restore _ => True

def Job.Continues (item : Item) : Job → Prop
  | .backup _ disk _ _ => disk.name = item.disk.name
  | .restore _ _ _ => True

theorem kept_of_delivered {saved : Table FluxBackup.name} {job : Job} (hk : job.key = k)
    (hc : job.Continues item) (hd : job.Delivered saved) : Kept saved item k := by
  subst hk
  cases job with
  | backup b disk id quiesce =>
    show Complete saved item.disk.name
    rwa [← hc]
  | restore r disk id => trivial

def Alone (w : World) (k : JobKey) : Prop := ∀ g ∈ w.goroutines, g.job.key ≠ k

structure Waiting (w : World) (k : JobKey) (item : Item) : Prop where
  alone : item.disk.phase = .pending → Alone w k
  fresh : item.disk.phase = .pending → ¬Succeeded w k
  copying : item.disk.phase = .running → ∀ g ∈ w.goroutines, g.job.key = k → g.job.Continues item
  kept : item.disk.phase = .running → Succeeded w k → Kept w.saved item k

def InSight (item : Item) (new : History) : JobKey → Prop
  | .backup _ => ∀ items, ⟨.listBackups, .ok items⟩ ∈ new → (∃ x ∈ items, x.name = item.disk.name) ∧
        ∀ x ∈ items, x.name = item.disk.name → x.createdAt ≠ ""
  | .restore _ => False

def Launched (w : World) (k : JobKey) (d : DiskBackupStatus) : Prop :=
  ∀ o, w.half k = some o → ∃ d', o = some d' ∧ d'.phase = .running ∧
    ∀ b, k = .backup b → d'.name = d.name

structure Visiting (w : World) (k : JobKey) (item : Item) (new : History) : Prop where
  alone : Untouched new → Alone w k
  fresh : Untouched new → item.disk.phase = .pending → ¬Succeeded w k
  kept : Untouched new → item.disk.phase = .running → Succeeded w k →
    Kept w.saved item k ∧ InSight item new k
  launched : ∀ ev older d, new = ev :: older → Untouched older → Launch k item d ev →
    Alone w k ∧ Launched w k d
  started : ∀ a ev older d, new = ⟨.start k, a⟩ :: ev :: older → Untouched older →
    Launch k item d ev → Alone w k ∧ Launched w k d ∧ k ∈ w.running

structure NamedItem (owner : String → ObjectKey) (k : ObjectKey) (item : Item) : Prop where
  copy : owner item.name = k
  copy_ne : item.name ≠ ""
  disk : item.disk.name ≠ "" → owner item.disk.name = k
  running : item.disk.phase = .running → item.disk.name ≠ ""

def Named (owner : String → ObjectKey) (k : JobKey) (item : Item) : Prop :=
  ∀ b, k = .backup b → NamedItem owner b item

structure Snap (owner : String → ObjectKey) (w : World) (past : History) : Prop where
  distinct : Distinct past
  named : ∀ item k, Seen past item (.backup k) → NamedItem owner k item
  waiting : ∀ item k, Seen past item k → (∀ ev ∈ past, asks k ev = false) → Waiting w k item
  visiting : ∀ k item new base, Turn k item new base past → Visiting w k item new

/-! ## An object that is left alone -/

section Frames

theorem Frame.alone (hf : Frame owner k w w') (ha : Alone w k) : Alone w' k := by
  intro g' hg' hk
  obtain ⟨g, hg, hjob⟩ := hf.jobs g' hg' hk
  exact ha g hg (hjob ▸ hk)

theorem Frame.succeeded (hf : Frame owner k w w') (hs : Succeeded w' k) :
    Succeeded w k ∨ ∃ g ∈ w.goroutines, g.job.key = k ∧ g.job.Delivered w'.saved := by
  obtain ⟨d, hd, hphase⟩ := hs
  rcases hf.half with h | h | ⟨d', -, h, hover⟩ | ⟨g, hg, hk, hdel⟩
  · simp [h] at hd
  · exact .inl ⟨d, h ▸ hd, hphase⟩
  · rw [h] at hd
    cases hd
    rw [phase_of_handedOver hover] at hphase
    cases hphase
  · exact .inr ⟨g, hg, hk, hdel ⟨d, hd, hphase⟩⟩

theorem Frame.succeeded_of_alone (hf : Frame owner k w w') (ha : Alone w k)
    (hs : Succeeded w' k) : Succeeded w k :=
  (hf.succeeded hs).resolve_right fun ⟨g, hg, hk, _⟩ => ha g hg hk

theorem Frame.kept (hf : Frame owner k w w') (hn : ∀ b, k = .backup b → owner item.disk.name = b)
    (hk : Kept w.saved item k) : Kept w'.saved item k := by
  cases k with
  | backup b => exact hf.saved b rfl _ (hn b rfl) hk
  | restore r => trivial

theorem Frame.launched (hf : Frame owner k w w') (ha : Alone w k) (hl : Launched w k d) :
    Launched w' k d := by
  intro o ho
  rcases hf.half with h | h | ⟨d', h, -⟩ | ⟨g, hg, hk, -⟩
  · simp [h] at ho
  · exact hl o (h ▸ ho)
  · obtain ⟨d, hd, -⟩ := hl none h
    cases hd
  · exact absurd hk (ha g hg)

theorem NamedItem.owner_disk (hn : Named owner k item)
    (hp : item.disk.phase = .running) : ∀ b, k = .backup b → owner item.disk.name = b :=
  fun b hb => (hn b hb).disk ((hn b hb).running hp)

theorem Waiting.frame (hf : Frame owner k w w')
    (hn : Named owner k item) (hw : Waiting w k item) : Waiting w' k item where
  alone hp := hf.alone (hw.alone hp)
  fresh hp hs := hw.fresh hp (hf.succeeded_of_alone (hw.alone hp) hs)
  copying hp g' hg' hk := by
    obtain ⟨g, hg, hjob⟩ := hf.jobs g' hg' hk
    rw [← hjob]
    exact hw.copying hp g hg (hjob ▸ hk)
  kept hp hs := by
    rcases hf.succeeded hs with hs | ⟨g, hg, hk, hdel⟩
    · exact hf.kept (NamedItem.owner_disk hn hp) (hw.kept hp hs)
    · exact kept_of_delivered hk (hw.copying hp g hg hk) hdel

theorem Visiting.frame (hf : Frame owner k w w')
    (hn : Named owner k item) (hv : Visiting w k item new) : Visiting w' k item new where
  alone hu := hf.alone (hv.alone hu)
  fresh hu hp hs := hv.fresh hu hp (hf.succeeded_of_alone (hv.alone hu) hs)
  kept hu hp hs := by
    obtain ⟨hkept, hsight⟩ := hv.kept hu hp (hf.succeeded_of_alone (hv.alone hu) hs)
    exact ⟨hf.kept (NamedItem.owner_disk hn hp) hkept, hsight⟩
  launched ev older d hnew hu hl := by
    obtain ⟨ha, hlaunch⟩ := hv.launched ev older d hnew hu hl
    exact ⟨hf.alone ha, hf.launched ha hlaunch⟩
  started a ev older d hnew hu hl := by
    obtain ⟨ha, hlaunch, hrun⟩ := hv.started a ev older d hnew hu hl
    exact ⟨hf.alone ha, hf.launched ha hlaunch, hf.running hrun ha⟩

theorem Snap.seen_named (hs : Snap owner w past) (hseen : Seen past item k) :
    Named owner k item := by
  rintro b rfl
  exact hs.named item b hseen

theorem Turn.seen_now (ht : Turn k item new base past) : Seen past item k := by
  obtain ⟨hb, hr⟩ := seen_append (⟨.busy k, false⟩ :: base) ht.inside
  rw [ht.eq]
  cases k with
  | backup k =>
    rw [Seen, hb]
    exact ht.seen
  | restore k =>
    rw [Seen, hr]
    exact ht.seen

theorem Snap.frame (hf : ∀ k, Frame owner k w w') (hs : Snap owner w past) :
    Snap owner w' past where
  distinct := hs.distinct
  named := hs.named
  waiting item k hseen hasked :=
    (hs.waiting item k hseen hasked).frame (hf k) (hs.seen_named hseen)
  visiting k item new base ht :=
    (hs.visiting k item new base ht).frame (hf k) (hs.seen_named ht.seen_now)

end Frames

/-! ## The calls of a visit -/

section Calls

theorem Frame.refl (w : World) (k : JobKey) : Frame owner k w w :=
  ⟨fun g hg _ => ⟨g, hg, rfl⟩, fun hk _ => hk, .inr (.inl rfl), fun _ _ _ _ hc => hc⟩

theorem Frame.store (store : Store) : Frame owner k w { w with store := store } :=
  ⟨fun g hg _ => ⟨g, hg, rfl⟩, fun hk _ => hk, .inr (.inl rfl), fun _ _ _ _ hc => hc⟩

theorem Frame.settle (b : MachineBackup) (fs : List String) (ended : MachineBackup → Bool) :
    Frame owner k w { w with
      backups :=
        w.backups.settle b.key (·.patchFinalizers fs) (·.key_patchFinalizers fs) ended } := by
  refine ⟨fun g hg _ => ⟨g, hg, rfl⟩, fun hk _ => hk, ?_, fun _ _ _ _ hc => hc⟩
  rcases half_settle w b fs ended k with h | ⟨-, h⟩
  · exact .inr (.inl h)
  · exact .inl h

variable {name : String} {b : MachineBackup} {e : BackupOp} {ev : Event BackupOp.Ans}

theorem Complete.erase {saved : Table FluxBackup.name} {name' : String} (hne : name' ≠ name)
    (hc : Complete saved name') : Complete (saved.erase name) name' := by
  obtain ⟨fb, hfind, hcreated⟩ := hc
  exact ⟨fb, by rw [find_erase, if_neg hne, hfind], hcreated⟩

theorem Frame.patchDisk {j : JobKey} (hj : j ≠ k) (d : DiskBackupStatus) :
    Frame owner j w (w.patchDisk k d) where
  jobs g hg _ := ⟨g, by simpa using hg, rfl⟩
  running hk _ := by simpa using hk
  half := .inr (.inl (by rw [World.half_patchDisk, if_neg hj]))
  saved _ _ _ _ hc := by simpa using hc

theorem VisitRule.owner_deleted {why : Cleanup}
    (hrule : VisitRule k item new (.deleteBackup why b name))
    (hn : Named owner k item) : k = .backup b.key ∧ name = item.disk.name ∧ owner name = b.key := by
  cases why with
  | finalizer =>
    obtain ⟨rfl, -, rfl, hne⟩ := hrule
    exact ⟨rfl, rfl, (hn _ rfl).disk hne⟩
  | recovery =>
    obtain ⟨rfl, -, rfl, hp, -⟩ := hrule
    exact ⟨rfl, rfl, (hn _ rfl).disk ((hn _ rfl).running hp)⟩

theorem VisitRule.frame {j : JobKey} (hrule : VisitRule k item new e) (heff : Effect w e w')
    (hn : Named owner k item) (hj : j ≠ k) : Frame owner j w w' := by
  have refl : Frame owner j w w := .refl w j
  cases heff with
  | same => exact refl
  | store store => exact .store store
  | finalizers b fs ended => exact .settle b fs ended
  | backupStatus b p =>
    obtain ⟨rfl, -, d, rfl, -⟩ := hrule
    exact .patchDisk hj d
  | restoreStatus r d =>
    obtain ⟨rfl, -, -⟩ := hrule
    exact .patchDisk hj d
  | start k' =>
    exact ⟨refl.jobs, fun hk _ => mem_cons_of_mem _ hk, .inr (.inl rfl), refl.saved⟩
  | go job =>
    refine ⟨fun g hg hk => ?_, refl.running, .inr (.inl rfl), refl.saved⟩
    rcases mem_cons.mp hg with rfl | hg
    · exact absurd (hk.symm.trans hrule.1) hj
    · exact ⟨g, hg, rfl⟩
  | delete why b name =>
    obtain ⟨rfl, -, howner⟩ := hrule.owner_deleted hn
    refine ⟨refl.jobs, refl.running, .inr (.inl rfl), ?_⟩
    rintro b' rfl name' hname' hc
    refine hc.erase fun heq => hj ?_
    rw [← hname', heq, howner]

theorem touches_of_launch (hl : Launch k item d ev) : touches ev.op = true := by
  have hstored := hl.stored
  obtain ⟨e, a⟩ := ev
  cases e with
  | patchMachineBackupStatus b p => rfl
  | patchMachineBackupRestoreStatus r d => rfl
  | _ => cases hstored

theorem Visiting.look (hv : Visiting w k item new) (hev : touches ev.op = false)
    (hsight : item.disk.phase = .running → Succeeded w k → Kept w.saved item k →
      InSight item new k → InSight item (ev :: new) k) :
    Visiting w k item (ev :: new) where
  alone hu := hv.alone (forall_mem_cons.mp hu).2
  fresh hu := hv.fresh (forall_mem_cons.mp hu).2
  kept hu hp hs := by
    obtain ⟨hkept, hold⟩ := hv.kept (forall_mem_cons.mp hu).2 hp hs
    exact ⟨hkept, hsight hp hs hkept hold⟩
  launched ev' older d hnew hu hl := by
    obtain ⟨rfl, rfl⟩ := List.cons.inj hnew
    simp [touches_of_launch hl] at hev
  started a ev' older d hnew hu hl := by
    obtain ⟨rfl, -⟩ := List.cons.inj hnew
    cases hev

theorem InSight.cons (hs : InSight item new k)
    (hev : ∀ items, ev ≠ ⟨.listBackups, .ok items⟩) : InSight item (ev :: new) k := by
  cases k with
  | backup k =>
    intro items hmem
    rcases mem_cons.mp hmem with heq | hmem
    · exact absurd heq.symm (hev items)
    · exact hs items hmem
  | restore k => exact hs

theorem InSight.list {items : List FluxBackup} (hs : InSight item new k)
    (hkept : Kept w.saved item k) (hperm : items.isPerm w.saved.rows = true) :
    InSight item (⟨.listBackups, .ok items⟩ :: new) k := by
  cases k with
  | restore k => exact hs
  | backup k =>
    intro items' hmem
    rcases mem_cons.mp hmem with heq | hmem
    · cases heq
      have hrows : ∀ x, x ∈ items ↔ x ∈ w.saved.rows := fun x =>
        (isPerm_iff.mp hperm).mem_iff
      obtain ⟨fb, hfind, hcreated⟩ := hkept
      obtain ⟨hfb, hname⟩ := Table.find_eq_some_iff.mp hfind
      refine ⟨⟨fb, (hrows fb).mpr hfb, hname⟩, fun x hx hxname => ?_⟩
      rwa [eq_of_key_eq ((hrows x).mp hx) hfb (hxname.trans hname.symm)]
    · exact hs items' hmem

/-- After a call that decides, all that counts is what it stored or started. -/
theorem Visiting.touch (hev : touches ev.op = true)
    (hlaunched : ∀ d, Launch k item d ev → Alone w k ∧ Launched w k d)
    (hstarted : ∀ a ev' older d, ev = ⟨.start k, a⟩ → new = ev' :: older →
      Launch k item d ev' → Alone w k ∧ Launched w k d ∧ k ∈ w.running) :
    Visiting w k item (ev :: new) := by
  have touched : ¬Untouched (ev :: new) := fun hu => by
    simp [(forall_mem_cons.mp hu).1] at hev
  refine ⟨fun hu => absurd hu touched, fun hu => absurd hu touched, fun hu => absurd hu touched,
    fun ev' older d hnew _ => ?_, fun a ev' older d hnew _ => ?_⟩
  · obtain ⟨rfl, -⟩ := List.cons.inj hnew
    exact hlaunched d
  · obtain ⟨rfl, rfl⟩ := List.cons.inj hnew
    exact hstarted a ev' older d rfl rfl

theorem Visiting.settle (hev : touches ev.op = true) (hstores : stores ev = none)
    (hstart : ∀ k' a, ev ≠ ⟨.start k', a⟩) : Visiting w k item (ev :: new) :=
  .touch hev (fun _ hl => by simp [hl.stored] at hstores)
    fun a _ _ _ heq => absurd heq (hstart k a)

theorem eq_patchDisk_of_stores {a : e.Ans} (hrule : VisitRule k item new e)
    (hstored : stores ⟨e, a⟩ = some (k, d)) (hw : w' ∈ outcomes w e a) : w' = w.patchDisk k d := by
  cases e with
  | patchMachineBackupStatus b p =>
    obtain ⟨-, -, d', rfl, -⟩ := hrule
    match a with
    | .ok () =>
      cases hstored
      exact eq_of_mem_patched_ok (w := w) hw
    | .error _ => cases hstored
  | patchMachineBackupRestoreStatus r d' =>
    match a with
    | .ok () =>
      cases hstored
      exact eq_of_mem_patched_ok (w := w) hw
    | .error _ => cases hstored
  | _ => cases hstored

theorem Visiting.write {a : e.Ans} (hv : Visiting w k item new) (hu : Untouched new)
    (hrule : VisitRule k item new e) (htouch : touches e = true) (hstart : ∀ k', e ≠ .start k')
    (hw : w' ∈ outcomes w e a) (hn : Named owner k item) : Visiting w' k item (⟨e, a⟩ :: new) := by
  refine .touch htouch (fun d hl => ?_) fun a' _ _ _ heq => ?_
  · obtain rfl := eq_patchDisk_of_stores hrule hl.stored hw
    refine ⟨fun g hg => hv.alone hu g (by simpa using hg), fun o ho => ?_⟩
    rw [World.half_patchDisk, if_pos rfl] at ho
    obtain ⟨old, -, rfl⟩ := map_eq_some_iff.mp ho
    -- the name of a copy is never empty, so the patch carries it
    have hname : ∀ b, k = .backup b → d.name ≠ "" := fun b hb => by
      rw [hl.name]
      exact (hn b hb).copy_ne
    cases old with
    | none => exact ⟨d, rfl, hl.phase, fun _ _ => rfl⟩
    | some d₀ => exact ⟨d₀.patch d, rfl, hl.phase, fun b hb => if_neg (hname b hb)⟩
  · cases heq
    exact absurd rfl (hstart k)

theorem Visiting.start {older : History} {a : Bool}
    (hv : Visiting w k item (ev :: older)) (hu : Untouched older)
    (hw : w' ∈ outcomes w (.start k) a) : Visiting w' k item (⟨.start k, a⟩ :: ev :: older) := by
  have hsame : w'.goroutines = w.goroutines ∧ w'.half k = w.half k := by
    cases effect_of_mem_outcomes hw with
    | same => exact ⟨rfl, rfl⟩
    | start => exact ⟨rfl, rfl⟩
  refine .touch rfl (fun d' hl' => ?_) fun a' ev' older' d' _ htail hl' => ?_
  · cases hl'.stored
  · obtain ⟨rfl, rfl⟩ := List.cons.inj htail
    obtain ⟨ha, hlaunch⟩ := hv.launched ev older d' rfl hu hl'
    refine ⟨fun g hg => ha g (hsame.1 ▸ hg), fun o ho => hlaunch o (hsame.2 ▸ ho), ?_⟩
    exact mem_running_of_start hw

/-- What a visit learns of FluxVM: a backup that is stored as succeeded is not given up. -/
theorem Visiting.not_gaveUp (hv : Visiting w k item new) (hu : Untouched new)
    (hp : item.disk.phase = .running) (hg : GaveUp item new k) : ¬Succeeded w k := by
  intro hs
  obtain ⟨-, hsight⟩ := hv.kept hu hp hs
  cases k with
  | backup k =>
    obtain ⟨items, hmem, hnone⟩ := hg
    obtain ⟨⟨x, hx, hname⟩, hcreated⟩ := hsight items hmem
    exact hcreated x hx hname (hnone x hx hname)
  | restore k => exact hsight

theorem Visiting.not_succeeded_of_delete (hv : Visiting w k item new)
    (hrule : VisitRule k item new (.deleteBackup .recovery b name)) : ¬Succeeded w k := by
  obtain ⟨rfl, hu, rfl, hp, items, hmem, x, hx, hname, hcreated⟩ := hrule
  intro hs
  obtain ⟨-, hsight⟩ := hv.kept hu hp hs
  exact (hsight items hmem).2 x hx hname hcreated

theorem VisitRule.visiting {a : e.Ans} (hrule : VisitRule k item new e) (hv : Visiting w k item new)
    (hw : w' ∈ outcomes w e a) (hn : Named owner k item) : Visiting w' k item (⟨e, a⟩ :: new) := by
  have heff := effect_of_mem_outcomes hw
  -- calls that decide nothing: the object is as before
  have look : Frame owner k w w' → touches e = false →
      (∀ items, (⟨e, a⟩ : Event BackupOp.Ans) ≠ ⟨.listBackups, .ok items⟩) →
      Visiting w' k item (⟨e, a⟩ :: new) := by
    intro hf htouch hlist
    exact (hv.frame hf hn).look htouch fun _ _ _ hsight => hsight.cons hlist
  cases e with
  | cluster e =>
    refine look ?_ rfl nofun
    cases heff with
    | same => exact .refl w k
    | store store => exact .store store
  | patchMachineBackup b fs =>
    refine look ?_ rfl nofun
    cases heff with
    | same => exact .refl w k
    | finalizers _ _ ended => exact .settle b fs ended
  | patchMachineBackupStatus b p => exact hv.write hrule.2.1 hrule rfl nofun hw hn
  | patchMachineBackupRestoreStatus r d => exact hv.write hrule.2.1 hrule rfl nofun hw hn
  | start k' =>
    obtain ⟨rfl, ev, older, -, rfl, hu, -⟩ := hrule
    exact hv.start hu hw
  | go job => exact .settle rfl rfl nofun
  | listBackups =>
    match a with
    | .error _ =>
      rw [mem_singleton.mp hw]
      exact hv.look rfl fun _ _ _ hsight => hsight.cons nofun
    | .ok items =>
      obtain ⟨hperm, hw⟩ := mem_ite_nil_right.mp hw
      rw [mem_singleton.mp hw]
      exact hv.look rfl fun _ _ hkept hsight => hsight.list hkept hperm
  | deleteBackup why b name =>
    cases why with
    | finalizer => exact .settle rfl rfl nofun
    | recovery =>
      have hnot := hv.not_succeeded_of_delete hrule
      have hsame : w'.goroutines = w.goroutines ∧ w'.half k = w.half k := by
        cases heff <;> exact ⟨rfl, rfl⟩
      obtain ⟨rfl, hu, -⟩ := hrule
      have hnot' : ¬Succeeded w' (.backup b.key) := by
        rintro ⟨d, hd, hphase⟩
        exact hnot ⟨d, hsame.2 ▸ hd, hphase⟩
      refine ⟨fun _ g hg => hv.alone hu g (hsame.1 ▸ hg), fun _ _ => hnot',
        fun _ _ hs => absurd hs hnot', fun ev older d hnew _ hl => ?_, fun a' ev older d hnew => ?_⟩
      · obtain ⟨rfl, -⟩ := List.cons.inj hnew
        cases hl.stored
      · obtain ⟨heq, -⟩ := List.cons.inj hnew
        cases heq
  | panic => cases hw
  | listMachineBackups | listMachineBackupRestores | busy => exact hrule.elim

/-! ## The process under a visit -/

theorem Sane.patchDisk (hs : Sane owner w) (ha : Alone w k)
    (hname : ∀ b, k = .backup b → d.name ≠ "" → owner d.name = b)
    (hrun : ∀ b, k = .backup b → d.phase = .running → d.name ≠ "") :
    Sane owner (w.patchDisk k d) where
  owned := hs.owned.patchDisk hname hrun
  busy g hg := by
    rw [World.running_patchDisk]
    exact hs.busy g (by simpa using hg)
  once := by
    rw [World.goroutines_patchDisk]
    exact hs.once
  copies g hg := by
    have hg : g ∈ w.goroutines := by simpa using hg
    refine (hs.copies g hg).keep (.inl ?_) (by simp)
    rw [World.half_patchDisk, if_neg (ha g hg)]

theorem Verdict.named (hd : Verdict k item new d)
    (hn : Named owner k item) : (∀ b, k = .backup b → d.name ≠ "" → owner d.name = b) ∧
      ∀ b, k = .backup b → d.phase = .running → d.name ≠ "" := by
  have listed : d.name = item.disk.name → ∀ b, k = .backup b → d.name ≠ "" → owner d.name = b :=
    fun hname b hb hne => hname ▸ (hn b hb).disk (hname ▸ hne)
  cases hd with
  | waits hp hphase hname =>
    split at hname
    · exact ⟨fun b hb _ => hname ▸ (hn b hb).copy, fun b hb _ => hname ▸ (hn b hb).copy_ne⟩
    · next hnot => exact ⟨listed hname, fun _ _ hrun => absurd hrun hnot⟩
  | succeeds hp hphase hname =>
    refine ⟨listed hname, fun _ _ hrun => ?_⟩
    simp [hphase] at hrun
  | fails hp hphase hname =>
    refine ⟨listed hname, fun _ _ hrun => ?_⟩
    simp [hphase] at hrun

theorem Sane.go {job : Job} (hs : Sane owner w) (hk : job.key = k)
    (ha : Alone w k) (hl : Launched w k d) (hd : job.disk = d) (hrun : k ∈ w.running)
    (hname : ∀ b, k = .backup b → owner d.name = b ∧ d.name ≠ "") :
    Sane owner { w with goroutines := ⟨job, .copying⟩ :: w.goroutines } := by
  subst hk hd
  refine ⟨hs.owned.keep rfl, forall_mem_cons.mpr ⟨hrun, hs.busy⟩, ?_,
    forall_mem_cons.mpr ⟨?_, fun g hg => (hs.copies g hg).keep (.inl rfl) id⟩⟩
  · refine nodup_cons.mpr ⟨fun hmem => ?_, hs.once⟩
    obtain ⟨g, hg, hkey⟩ := List.mem_map.mp hmem
    exact ha g hg hkey
  · refine ⟨fun o ho => ?_, hname, nofun⟩
    obtain ⟨d', rfl, hphase, hn⟩ := hl o ho
    refine ⟨d', rfl, fun hp => ?_, fun _ => hphase, fun b hb => hn b hb⟩
    simp [hphase] at hp

theorem VisitRule.sane (hrule : VisitRule k item new e) (heff : Effect w e w') (hs : Sane owner w)
    (hv : Visiting w k item new) (hn : Named owner k item) : Sane owner w' := by
  cases heff with
  | same => exact hs
  | store store =>
    exact ⟨hs.owned.keep rfl, hs.busy, hs.once, fun g hg => (hs.copies g hg).keep (.inl rfl) id⟩
  | finalizers b fs ended =>
    have half_backup : ∀ {k d}, World.half { w with
        backups := w.backups.settle b.key (·.patchFinalizers fs) (·.key_patchFinalizers fs)
          ended } (.backup k) = some (some d) → w.half (.backup k) = some (some d) := by
      intro k d hd
      rcases half_settle w b fs ended (.backup k) with h | ⟨-, h⟩
      · exact h ▸ hd
      · simp [h] at hd
    refine ⟨⟨fun b' hb' => ?_, fun k d hd => hs.owned.named k d (half_backup hd),
      fun k d hd => hs.owned.running k d (half_backup hd)⟩, hs.busy, hs.once, fun g hg => ?_⟩
    · obtain ⟨b₀, hb₀, rfl | ⟨-, rfl⟩⟩ := mem_settle hb'
      · exact hs.owned.names b' hb₀
      · exact hs.owned.names b₀ hb₀
    · refine (hs.copies g hg).keep ?_ id
      rcases half_settle w b fs ended g.job.key with h | ⟨-, h⟩
      · exact .inl h
      · exact .inr h
  | backupStatus b p =>
    obtain ⟨rfl, hu, d, rfl, hd⟩ := hrule
    exact hs.patchDisk (hv.alone hu) (hd.named hn).1 (hd.named hn).2
  | restoreStatus r d =>
    obtain ⟨rfl, hu, hd⟩ := hrule
    exact hs.patchDisk (hv.alone hu) (hd.named hn).1 (hd.named hn).2
  | start k' =>
    exact ⟨hs.owned.keep rfl, fun g hg => mem_cons_of_mem _ (hs.busy g hg), hs.once,
      fun g hg => (hs.copies g hg).keep (.inl rfl) id⟩
  | go job =>
    obtain ⟨hk, ev, older, rfl, hu, hl⟩ := hrule
    obtain ⟨ha, hlaunch, hrun⟩ := hv.started true ev older job.disk rfl hu hl
    refine hs.go hk ha hlaunch rfl hrun fun b hb => ?_
    rw [hl.name]
    exact ⟨(hn b hb).copy, (hn b hb).copy_ne⟩
  | delete why b name =>
    obtain ⟨rfl, rfl, howner⟩ := hrule.owner_deleted hn
    have hu : Untouched new := by
      cases why with
      | finalizer => exact hrule.2.1
      | recovery => exact hrule.2.1
    refine ⟨hs.owned.keep rfl, hs.busy, hs.once, fun g hg => (hs.copies g hg).keep (.inl rfl) ?_⟩
    have hne := hv.alone hu g hg
    have hcopy := (hs.copies g hg).name
    cases hjob : g.job with
    | restore r disk id => exact fun hc => hc
    | backup b' disk id quiesce =>
      rw [hjob] at hne hcopy
      intro hc
      refine Complete.erase (fun heq => hne ?_) hc
      have hb' : owner disk.name = b'.key := (hcopy b'.key rfl).1
      rw [heq, howner] at hb'
      exact congrArg JobKey.backup hb'.symm

/-! ## The pass -/

theorem not_succeeded_of_half {phase : BackupPhase} (hhalf : w.half k = some (some d))
    (hp : d.phase = phase) (hne : phase ≠ .succeeded) : ¬Succeeded w k := by
  rintro ⟨d', hd, hphase⟩
  cases hhalf.symm.trans hd
  exact hne (hp.symm.trans hphase)

theorem half_backup_of_mem (hb : b ∈ w.backups.rows) :
    w.half (.backup b.key) = some b.status.disk := by
  simp only [World.half, Table.find_eq_some_iff.mpr ⟨hb, rfl⟩, map_some]

theorem waiting_of_listed (hs : Sane owner w)
    (hhalf : w.half k = some (some item.disk)) : Waiting w k item where
  alone hp g hg hk := by
    obtain ⟨d, hd, hpending, -⟩ := (hs.copies g hg).half _ (hk ▸ hhalf)
    cases hd
    exact hpending hp
  fresh hp := not_succeeded_of_half hhalf hp nofun
  copying hp g hg hk := by
    obtain ⟨d, hd, -, -, hname⟩ := (hs.copies g hg).half _ (hk ▸ hhalf)
    cases hd
    cases hjob : g.job with
    | restore r disk id => trivial
    | backup b disk id quiesce =>
      have := hname b.key (by rw [hjob]; rfl)
      rw [hjob] at this
      exact this.symm
  kept hp hs := absurd hs (not_succeeded_of_half hhalf hp nofun)

theorem namedItem_of_listed (hs : Sane owner w) {disk : DiskBackupStatus}
    (hb : b ∈ w.backups.rows) (hdisk : b.status.disk = some disk) :
    NamedItem owner b.key (backupItem b disk) where
  copy := hs.owned.names b hb
  copy_ne := by
    show fluxVMBackupName b ≠ ""
    unfold fluxVMBackupName
    dsimp only
    split <;> simp
  disk := hs.owned.named b.key disk (hdisk ▸ half_backup_of_mem hb)
  running := hs.owned.running b.key disk (hdisk ▸ half_backup_of_mem hb)

theorem not_turn_cons (hev : inside ev = false)
    (hbusy : ∀ k, ev ≠ ⟨.busy k, false⟩) : ¬Turn k item new base (ev :: past) := by
  intro ht
  obtain ⟨heq, hinside, -, -⟩ := ht
  cases new with
  | nil => exact hbusy k (List.cons.inj heq).1
  | cons ev' new =>
    obtain ⟨rfl, -⟩ := List.cons.inj heq
    simp [hinside ev mem_cons_self] at hev

theorem snap_listMachineBackups (hs : Sane owner w) {bs : List MachineBackup}
    (hperm : bs.isPerm w.backups.rows = true) : Snap owner w [⟨.listMachineBackups, .ok bs⟩] := by
  have hrows : ∀ b, b ∈ bs ↔ b ∈ w.backups.rows := fun b => (isPerm_iff.mp hperm).mem_iff
  refine ⟨⟨?_, nodup_nil⟩, ?_, ?_, fun k item new base ht =>
    absurd ht (not_turn_cons rfl nofun)⟩
  · exact ((isPerm_iff.mp hperm).map _).nodup_iff.mpr w.backups.distinct
  · rintro item k ⟨b, hb, rfl, disk, hdisk, rfl⟩
    exact namedItem_of_listed hs ((hrows b).mp hb) hdisk
  · rintro item k hseen -
    cases k with
    | restore k =>
      obtain ⟨r, hr, -⟩ := hseen
      cases hr
    | backup k =>
      obtain ⟨b, hb, rfl, disk, hdisk, rfl⟩ := hseen
      exact waiting_of_listed hs (hdisk ▸ half_backup_of_mem ((hrows b).mp hb))

theorem snap_listMachineBackupRestores (hs : Sane owner w) (hsnap : Snap owner w past)
    {rs : List MachineBackupRestore} (hperm : rs.isPerm w.restores.rows = true) :
    Snap owner w (⟨.listMachineBackupRestores, .ok rs⟩ :: past) := by
  have hrows : ∀ r, r ∈ rs ↔ r ∈ w.restores.rows := fun r => (isPerm_iff.mp hperm).mem_iff
  refine ⟨⟨hsnap.distinct.1, ?_⟩, fun item k hseen => hsnap.named item k hseen, ?_,
    fun k item new base ht => absurd ht (not_turn_cons rfl nofun)⟩
  · exact ((isPerm_iff.mp hperm).map _).nodup_iff.mpr w.restores.distinct
  · rintro item k hseen hasked
    cases k with
    | backup k =>
      exact hsnap.waiting item (.backup k) hseen (forall_mem_cons.mp hasked).2
    | restore k =>
      obtain ⟨r, hr, rfl, disk, hdisk, rfl⟩ := hseen
      refine waiting_of_listed hs ?_
      have hfind := Table.find_eq_some_iff.mpr ⟨(hrows r).mp hr, rfl⟩
      simp only [World.half, hfind, map_some, hdisk, restoreItem]

theorem snap_busy (hsnap : Snap owner w past) {a : Bool}
    (hvisit : a = false → ∀ item, Seen past item k → (∀ ev ∈ past, asks k ev = false) →
      Visiting w k item []) :
    Snap owner w (⟨.busy k, a⟩ :: past) := by
  refine ⟨(distinct_cons rfl).mpr hsnap.distinct,
    fun item k' hseen => hsnap.named item k' ((seen_cons rfl).mp hseen),
    fun item k' hseen hasked => hsnap.waiting item k' ((seen_cons rfl).mp hseen)
      (forall_mem_cons.mp hasked).2, fun k' item new base ht => ?_⟩
  cases a with
  | true =>
    refine absurd ht (not_turn_cons rfl fun k'' heq => ?_)
    cases heq
  | false =>
    obtain ⟨heq, hinside, hseen, honce⟩ := ht
    cases new with
    | nil =>
      obtain ⟨hev, rfl⟩ := List.cons.inj heq
      cases hev
      exact hvisit rfl item hseen (honce hsnap.distinct)
    | cons ev' new =>
      obtain ⟨rfl, -⟩ := List.cons.inj heq
      cases hinside _ mem_cons_self

theorem visiting_nil (hs : Sane owner w) (hw : Waiting w k item) (hfree : k ∉ w.running)
    (hlate : ∀ r, k = .restore r → item.disk.phase = .running → ¬Succeeded w k) :
    Visiting w k item [] where
  alone _ g hg hk := hfree (hk ▸ hs.busy g hg)
  fresh _ := hw.fresh
  kept _ hp hsucc := by
    refine ⟨hw.kept hp hsucc, ?_⟩
    cases k with
    | backup k => exact nofun
    | restore r => exact hlate r rfl hp hsucc
  launched _ _ _ hnew := by cases hnew
  started _ _ _ _ hnew := by cases hnew

theorem snap_visit {a : e.Ans} (hsnap : Snap owner w past)
    (ht : Turn k item new base past) (hrule : VisitRule k item new e)
    (hw : w' ∈ outcomes w e a) : Snap owner w' (⟨e, a⟩ :: past) := by
  have hinside := hrule.inside a
  have hlist := not_listsCopies_of_inside hinside
  have hn := hsnap.seen_named ht.seen_now
  have heff := effect_of_mem_outcomes hw
  refine ⟨(distinct_cons hlist).mpr hsnap.distinct,
    fun item' k' hseen => hsnap.named item' k' ((seen_cons hlist).mp hseen),
    fun item' k' hseen hasked => ?_, fun k' item' new' base' ht' => ?_⟩
  · have hseen := (seen_cons hlist).mp hseen
    have hasked := (forall_mem_cons.mp hasked).2
    have hne : k' ≠ k := by
      rintro rfl
      have := hasked ⟨.busy k', false⟩ (by rw [ht.eq]; simp)
      simp [asks] at this
    exact (hsnap.waiting item' k' hseen hasked).frame (hrule.frame heff hn hne)
      (hsnap.seen_named hseen)
  · obtain ⟨older, rfl, hold⟩ := ht'.tail hinside
    obtain ⟨rfl, rfl, rfl⟩ := ht.unique hold
    obtain rfl := ht.seen_now.unique hsnap.distinct hold.seen_now
    exact hrule.visiting (hsnap.visiting _ _ _ _ ht) hw hn

end Calls

end Kairon.Backup
