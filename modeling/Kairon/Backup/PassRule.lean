import Kairon.Backup.Reconcile

/-!
# What a backup pass does

The pass lists the backups and the restores once each and takes one object after the other, as it
was listed. After the check that no copy of the object is in flight come the calls of its visit.
-/

namespace Kairon.Backup

open Infra Model Cluster List

structure Item where
  disk : DiskBackupStatus
  name : String

def backupItem (b : MachineBackup) (disk : DiskBackupStatus) : Item := ⟨disk, fluxVMBackupName b⟩

def restoreItem (disk : DiskBackupStatus) : Item := ⟨disk, disk.name⟩

def writes : BackupOp → Option (JobKey × DiskBackupStatus)
  | .patchMachineBackupStatus b p => p.disk.map fun d => (.backup b.key, d)
  | .patchMachineBackupRestoreStatus r d => some (.restore r.key, d)
  | _ => none

def stores : Event BackupOp.Ans → Option (JobKey × DiskBackupStatus)
  | ⟨.patchMachineBackupStatus b p, .ok ()⟩ => writes (.patchMachineBackupStatus b p)
  | ⟨.patchMachineBackupRestoreStatus r d, .ok ()⟩ =>
    writes (.patchMachineBackupRestoreStatus r d)
  | _ => none

def looksUp : ClusterOp → Bool
  | .flux _ (.get _) | .flux _ (.lookupByName _) => true
  | _ => false

def GaveUp (item : Item) (new : History) : JobKey → Prop
  | .backup _ => ∃ items, ⟨.listBackups, .ok items⟩ ∈ new ∧
      ∀ x ∈ items, x.name = item.disk.name → x.createdAt = ""
  | .restore _ => True

inductive Verdict (k : JobKey) (item : Item) (new : History) (d : DiskBackupStatus) : Prop where
  /-- An object that waits is taken, goes on waiting or fails. -/
  | waits (listed : item.disk.phase = .pending) (phase : d.phase ≠ .succeeded)
      (name : d.name = if d.phase = .running then item.name else item.disk.name)
  | succeeds (listed : item.disk.phase = .running) (phase : d.phase = .succeeded)
      (name : d.name = item.disk.name)
  | fails (listed : item.disk.phase = .running) (phase : d.phase = .failed)
      (name : d.name = item.disk.name) (gaveUp : GaveUp item new k)

structure Launch (k : JobKey) (item : Item) (d : DiskBackupStatus) (ev : Event BackupOp.Ans) :
    Prop where
  stored : stores ev = some (k, d)
  listed : item.disk.phase = .pending
  phase : d.phase = .running
  name : d.name = item.name

def Job.disk : Job → DiskBackupStatus
  | backup _ disk _ _ | restore _ disk _ => disk

def touches : BackupOp → Bool
  | .patchMachineBackupStatus _ _ | .patchMachineBackupRestoreStatus _ _ | .start _ | .go _
  | .deleteBackup .finalizer _ _ => true
  | _ => false

def Untouched (new : History) : Prop := ∀ ev ∈ new, touches ev.op = false

def VisitRule (k : JobKey) (item : Item) (new : History) : BackupOp → Prop
  | .cluster e => looksUp e = true
  | .patchMachineBackup b _ => k = .backup b.key
  | .patchMachineBackupStatus b p =>
    k = .backup b.key ∧ Untouched new ∧ ∃ d, p = { disk := some d } ∧ Verdict k item new d
  | .patchMachineBackupRestoreStatus r d =>
    k = .restore r.key ∧ Untouched new ∧ Verdict k item new d
  | .start k' =>
    k' = k ∧ ∃ ev older d, new = ev :: older ∧ Untouched older ∧ Launch k item d ev
  | .go job =>
    job.key = k ∧ ∃ ev older, new = ⟨.start k, true⟩ :: ev :: older ∧ Untouched older ∧
      Launch k item job.disk ev
  | .listBackups | .panic => True
  | .deleteBackup .finalizer b name =>
    k = .backup b.key ∧ Untouched new ∧ name = item.disk.name ∧ name ≠ ""
  | .deleteBackup .recovery b name =>
    k = .backup b.key ∧ Untouched new ∧ name = item.disk.name ∧ item.disk.phase = .running ∧
      ∃ items, ⟨.listBackups, .ok items⟩ ∈ new ∧ ∃ x ∈ items, x.name = name ∧ x.createdAt = ""
  | .listMachineBackups | .listMachineBackupRestores | .busy _ => False

abbrev Anyhow {α : Type} (_ : History) (_ : α) : Prop := True

variable {k : JobKey} {item : Item} {h new base : History} {ev : Event BackupOp.Ans} {α : Type}
  {e : BackupOp}

theorem Untouched.cons (hu : Untouched new) (hev : touches ev.op = false) : Untouched (ev :: new) :=
  forall_mem_cons.mpr ⟨hev, hu⟩

theorem last_follows {ok : History → BackupOp → Prop} {p : BackupM (Except ApiError Unit)}
    (hp : p.Follows ok Anyhow h) : (last p).Follows ok Anyhow h :=
  hp.bind fun _ _ _ => trivial

theorem current_visit (hu : Untouched new) (m : Machine) :
    (inTick (Agent.current m)).Follows (VisitRule k item) (fun new' _ => Untouched new') new := by
  have found : (Agent.current m).Follows (fun _ e => looksUp e = true) _ [] :=
    Agent.current_follows m (fun _ _ => rfl) fun _ _ => rfl
  refine (Prog.Follows.expand (fun _ new => Untouched new) (fun past new' e hu he => ?_) found
    hu).weaken fun _ _ ⟨_, hu, _⟩ => hu
  exact ⟨he, fun _ => hu.cons rfl⟩

/-! ## Backups -/

section Backups

variable {b : MachineBackup} {disk : DiskBackupStatus}

theorem patchDiskBackup_visit {d : DiskBackupStatus} (hu : Untouched new)
    (hd : Verdict (.backup b.key) item new d) :
    (last (patchDiskBackup b d)).Follows (VisitRule (.backup b.key) item) Anyhow new :=
  last_follows ⟨⟨rfl, hu, d, rfl, hd⟩, fun _ => trivial⟩

theorem releaseDiskBackup_visit (hu : Untouched new) :
    (releaseDiskBackup b disk).Follows (VisitRule (.backup b.key) (backupItem b disk)) Anyhow
      new := by
  unfold releaseDiskBackup
  dsimp only
  split
  · trivial
  split
  · exact ⟨rfl, fun _ => trivial⟩
  · next hname =>
    exact ⟨⟨rfl, hu, rfl, hname⟩, fun | .error _ => trivial | .ok () => ⟨rfl, fun _ => trivial⟩⟩

theorem startBackup_visit (hu : Untouched new) (hp : disk.phase = .pending)
    (rec : Option RuntimeRecord) :
    (startBackup b disk rec).Follows (VisitRule (.backup b.key) (backupItem b disk)) Anyhow
      new := by
  have launch : ∀ ev : Event BackupOp.Ans, stores ev = some (.backup b.key, copyingDisks b disk) →
      Launch (.backup b.key) (backupItem b disk) (copyingDisks b disk) ev :=
    fun ev hev => ⟨hev, hp, rfl, rfl⟩
  refine ⟨⟨rfl, hu, _, rfl, .waits hp nofun rfl⟩, fun | .error _ => trivial | .ok () => ?_⟩
  refine ⟨⟨rfl, _, _, _, rfl, hu, launch _ rfl⟩, fun started => ?_⟩
  match started, rec with
  | false, _ => trivial
  | true, none => trivial
  | true, some rec => exact ⟨⟨rfl, _, _, rfl, hu, launch _ rfl⟩, fun _ => trivial⟩

theorem takeDiskBackup_visit (machines : List Machine) (hu : Untouched new)
    (hp : disk.phase = .pending) :
    (takeDiskBackup b disk machines).Follows (VisitRule (.backup b.key) (backupItem b disk)) Anyhow
      new := by
  unfold takeDiskBackup
  split
  · exact patchDiskBackup_visit hu (.waits hp nofun rfl)
  · refine (current_visit hu _).bind fun new r hu => ?_
    match r with
    | .error e => exact patchDiskBackup_visit hu (.waits hp nofun rfl)
    | .ok rec => exact startBackup_visit hu hp rec

theorem recoverFrom_visit {items all : List FluxBackup} (hu : Untouched new)
    (hp : disk.phase = .running) (hsub : items ⊆ all) (hall : ⟨.listBackups, .ok all⟩ ∈ new) :
    (recoverFrom b disk items).Follows (VisitRule (.backup b.key) (backupItem b disk))
      (fun new' r => r = none → Untouched new' ∧ ⟨.listBackups, .ok all⟩ ∈ new' ∧
        ∀ x ∈ items, x.name = disk.name → x.createdAt = "") new := by
  induction items generalizing new with
  | nil => exact fun _ => ⟨hu, hall, forall_mem_nil _⟩
  | cons x items ih =>
    have hrest := (cons_subset.mp hsub).2
    unfold recoverFrom
    split
    · next hname =>
      refine (ih hu hrest hall).weaken fun _ _ hpost hr => ?_
      obtain ⟨hu, hmem, hnone⟩ := hpost hr
      exact ⟨hu, hmem, forall_mem_cons.mpr ⟨fun hx => absurd hx hname, hnone⟩⟩
    split
    · have done : Verdict (.backup b.key) (backupItem b disk) new (fillDiskBackup disk x) :=
        .succeeds hp rfl rfl
      exact (patchDiskBackup_visit hu done).bind nofun
    · next hname hcreated =>
      have hx : x.name = disk.name := not_not.mp hname
      have hc : x.createdAt = "" := not_not.mp hcreated
      refine ⟨⟨rfl, hu, rfl, hp, all, hall, x, hsub mem_cons_self, hx, hc⟩, fun
        | .error _ => nofun
        | .ok () => ?_⟩
      refine (ih (hu.cons rfl) hrest (mem_cons_of_mem _ hall)).weaken
        fun _ _ hpost hr => ?_
      obtain ⟨hu, hmem, hnone⟩ := hpost hr
      exact ⟨hu, hmem, forall_mem_cons.mpr ⟨fun _ => hc, hnone⟩⟩

theorem recoverDiskBackup_visit (hu : Untouched new) (hp : disk.phase = .running) :
    (recoverDiskBackup b disk).Follows (VisitRule (.backup b.key) (backupItem b disk)) Anyhow
      new := by
  refine ⟨trivial, fun | .error _ => trivial | .ok items => ?_⟩
  refine (recoverFrom_visit (hu.cons rfl) hp (List.Subset.refl items) mem_cons_self).bind
    fun new' r hr => ?_
  match r with
  | some r => trivial
  | none =>
    obtain ⟨hu, hmem, hnone⟩ := hr rfl
    exact patchDiskBackup_visit hu (.fails hp rfl rfl ⟨items, hmem, hnone⟩)

theorem visitDiskBackup_visit (machines : List Machine) (hu : Untouched new) :
    (visitDiskBackup b disk machines).Follows (VisitRule (.backup b.key) (backupItem b disk)) Anyhow
      new := by
  unfold visitDiskBackup
  split
  · exact releaseDiskBackup_visit hu
  split
  · next hp => exact takeDiskBackup_visit machines hu hp
  · next hp => exact recoverDiskBackup_visit hu hp
  · trivial

end Backups

/-! ## Restores -/

section Restores

variable {r : MachineBackupRestore} {disk : DiskBackupStatus}

theorem patchDiskRestore_visit {d : DiskBackupStatus} (hu : Untouched new)
    (hd : Verdict (.restore r.key) item new d) :
    (last (patchDiskRestore r d)).Follows (VisitRule (.restore r.key) item) Anyhow new :=
  last_follows ⟨⟨rfl, hu, hd⟩, fun _ => trivial⟩

theorem waits_of_pending {d : DiskBackupStatus} (hp : disk.phase = .pending)
    (hd : d.phase ≠ .succeeded) (hname : d.name = disk.name) :
    Verdict k (restoreItem disk) new d := by
  refine .waits hp hd (hname.trans ?_)
  split <;> rfl

theorem startRestore_visit (hu : Untouched new) (hp : disk.phase = .pending) (rec : RuntimeRecord) :
    (startRestore r disk rec).Follows (VisitRule (.restore r.key) (restoreItem disk)) Anyhow
      new := by
  refine ⟨⟨rfl, hu, waits_of_pending hp nofun rfl⟩, fun | .error _ => trivial | .ok () => ?_⟩
  exact ⟨⟨rfl, _, _, _, rfl, hu, rfl, hp, rfl, rfl⟩, fun
    | false => trivial
    | true => ⟨⟨rfl, _, _, rfl, hu, rfl, hp, rfl, rfl⟩, fun _ => trivial⟩⟩

theorem takeDiskRestore_visit (machines : List Machine) (hu : Untouched new)
    (hp : disk.phase = .pending) :
    (takeDiskRestore r disk machines).Follows (VisitRule (.restore r.key) (restoreItem disk))
      Anyhow new := by
  have fail : ∀ {new : History} (message : String), Untouched new →
      (failRestore r disk message).Follows (VisitRule (.restore r.key) (restoreItem disk)) Anyhow
        new :=
    fun _ hu => patchDiskRestore_visit hu (waits_of_pending hp nofun rfl)
  unfold takeDiskRestore
  split
  · exact fail _ hu
  · refine (current_visit hu _).bind fun new a hu => ?_
    match a with
    | .error e => exact fail _ hu
    | .ok rec =>
      dsimp only
      split
      · exact fail _ hu
      split
      · split
        · trivial
        · refine patchDiskRestore_visit hu (waits_of_pending hp ?_ rfl)
          rw [hp]
          nofun
      · exact startRestore_visit hu hp _

theorem visitDiskRestore_visit (machines : List Machine) (hu : Untouched new) :
    (visitDiskRestore r disk machines).Follows (VisitRule (.restore r.key) (restoreItem disk))
      Anyhow new := by
  unfold visitDiskRestore
  split
  · next hp => exact takeDiskRestore_visit machines hu hp
  · next hp => exact patchDiskRestore_visit hu (.fails hp rfl rfl trivial)
  · trivial

end Restores

/-! ## The pass -/

def backupsSeen : History → List MachineBackup
  | [] => []
  | ⟨.listMachineBackups, .ok bs⟩ :: _ => bs
  | _ :: h => backupsSeen h

def restoresSeen : History → List MachineBackupRestore
  | [] => []
  | ⟨.listMachineBackupRestores, .ok rs⟩ :: _ => rs
  | _ :: h => restoresSeen h

def Seen (h : History) (item : Item) : JobKey → Prop
  | .backup k => ∃ b ∈ backupsSeen h, b.key = k ∧
      ∃ disk, b.status.disk = some disk ∧ item = backupItem b disk
  | .restore k => ∃ r ∈ restoresSeen h, r.key = k ∧
      ∃ disk, r.status.disk = some disk ∧ item = restoreItem disk

def Distinct (h : History) : Prop :=
  ((backupsSeen h).map MachineBackup.key).Nodup ∧
    ((restoresSeen h).map MachineBackupRestore.key).Nodup

def asks (k : JobKey) : Event BackupOp.Ans → Bool
  | ⟨.busy k', _⟩ => k' = k
  | _ => false

def listsCopies : Event BackupOp.Ans → Bool
  | ⟨.listMachineBackups, _⟩ | ⟨.listMachineBackupRestores, _⟩ => true
  | _ => false

def inside : Event BackupOp.Ans → Bool
  | ⟨.busy _, _⟩ | ⟨.listMachineBackups, _⟩ | ⟨.listMachineBackupRestores, _⟩ => false
  | _ => true

def early : Event BackupOp.Ans → Bool
  | ⟨.busy (.restore _), _⟩ | ⟨.listMachineBackupRestores, _⟩ => false
  | _ => true

structure Turn (k : JobKey) (item : Item) (new base h : History) : Prop where
  eq : h = new ++ ⟨.busy k, false⟩ :: base
  inside : ∀ ev ∈ new, inside ev = true
  seen : Seen base item k
  once : Distinct base → ∀ ev ∈ base, asks k ev = false

def PassRule (h : History) : BackupOp → Prop
  | .listMachineBackups => h = []
  | .listMachineBackupRestores => True
  | .busy k => (∃ item, Seen h item k) ∧ (Distinct h → ∀ ev ∈ h, asks k ev = false)
  | e => ∃ k item new base, Turn k item new base h ∧ VisitRule k item new e

theorem split_unique {p : α → Bool} {x y : α} {l₁ l₂ r₁ r₂ : List α}
    (h₁ : ∀ z ∈ l₁, p z = true) (h₂ : ∀ z ∈ l₂, p z = true) (hx : p x = false) (hy : p y = false)
    (h : l₁ ++ x :: r₁ = l₂ ++ y :: r₂) : l₁ = l₂ ∧ x = y ∧ r₁ = r₂ := by
  obtain rfl : l₁ = l₂ := by
    simpa [takeWhile_append_of_pos h₁, takeWhile_append_of_pos h₂, hx, hy] using
      congrArg (List.takeWhile p) h
  exact ⟨rfl, List.cons.inj (append_cancel_left h)⟩

theorem Turn.unique {k' : JobKey} {item' : Item} {new' base' : History}
    (ht : Turn k item new base h) (ht' : Turn k' item' new' base' h) :
    k = k' ∧ new = new' ∧ base = base' := by
  obtain ⟨hnew, hev, hbase⟩ := split_unique (x := (⟨.busy k, false⟩ : Event BackupOp.Ans))
    (y := ⟨.busy k', false⟩) ht.inside ht'.inside rfl rfl (ht.eq.symm.trans ht'.eq)
  cases hev
  exact ⟨rfl, hnew, hbase⟩

theorem Turn.tail (hev : Backup.inside ev = true) (ht : Turn k item new base (ev :: h)) :
    ∃ older, new = ev :: older ∧ Turn k item older base h := by
  obtain ⟨heq, hinside, hseen, honce⟩ := ht
  cases new with
  | nil =>
    obtain ⟨rfl, -⟩ := List.cons.inj heq
    cases hev
  | cons ev' older =>
    obtain ⟨rfl, htail⟩ := List.cons.inj heq
    exact ⟨older, rfl, htail, (forall_mem_cons.mp hinside).2, hseen, honce⟩

theorem Seen.unique {item' : Item} (hd : Distinct h) (hs : Seen h item k) (hs' : Seen h item' k) :
    item = item' := by
  cases k with
  | backup k =>
    obtain ⟨b, hb, rfl, disk, hdisk, rfl⟩ := hs
    obtain ⟨b', hb', hk, disk', hdisk', rfl⟩ := hs'
    obtain rfl := inj_on_of_nodup_map hd.1 hb' hb hk
    rw [hdisk] at hdisk'
    cases hdisk'
    rfl
  | restore k =>
    obtain ⟨r, hr, rfl, disk, hdisk, rfl⟩ := hs
    obtain ⟨r', hr', hk, disk', hdisk', rfl⟩ := hs'
    obtain rfl := inj_on_of_nodup_map hd.2 hr' hr hk
    rw [hdisk] at hdisk'
    cases hdisk'
    rfl

theorem VisitRule.inside (he : VisitRule k item new e) (a : e.Ans) : inside ⟨e, a⟩ = true := by
  cases e with
  | listMachineBackups | listMachineBackupRestores | busy => exact he.elim
  | _ => rfl

theorem Turn.visit (ht : Turn k item new base h) (he : VisitRule k item new e) : PassRule h e := by
  cases e with
  | listMachineBackups | listMachineBackupRestores | busy => exact he.elim
  | _ => exact ⟨k, item, new, base, ht, he⟩

theorem not_listsCopies_of_inside (hev : Backup.inside ev = true) : listsCopies ev = false := by
  obtain ⟨e, a⟩ := ev
  cases e with
  | listMachineBackups | listMachineBackupRestores => cases hev
  | _ => rfl

theorem jobsSeen_cons (hev : listsCopies ev = false) :
    backupsSeen (ev :: h) = backupsSeen h ∧ restoresSeen (ev :: h) = restoresSeen h := by
  obtain ⟨e, a⟩ := ev
  cases e with
  | listMachineBackups | listMachineBackupRestores => cases hev
  | _ => exact ⟨rfl, rfl⟩

theorem seen_cons (hev : listsCopies ev = false) : Seen (ev :: h) item k ↔ Seen h item k := by
  cases k with
  | backup k => rw [Seen, Seen, (jobsSeen_cons hev).1]
  | restore k => rw [Seen, Seen, (jobsSeen_cons hev).2]

theorem distinct_cons (hev : listsCopies ev = false) : Distinct (ev :: h) ↔ Distinct h := by
  rw [Distinct, Distinct, (jobsSeen_cons hev).1, (jobsSeen_cons hev).2]

theorem exists_listsCopies_of_seen (hs : Seen h item k) : ∃ ev ∈ h, listsCopies ev = true := by
  induction h with
  | nil => cases k <;> obtain ⟨x, hx, -⟩ := hs <;> cases hx
  | cons ev h ih =>
    by_cases hev : listsCopies ev = true
    · exact ⟨ev, mem_cons_self, hev⟩
    · obtain ⟨ev', hmem, hl⟩ := ih ((seen_cons (by simpa using hev)).mp hs)
      exact ⟨ev', mem_cons_of_mem _ hmem, hl⟩

theorem seen_append (base : History) (hnew : ∀ ev ∈ new, inside ev = true) :
    backupsSeen (new ++ base) = backupsSeen base ∧
      restoresSeen (new ++ base) = restoresSeen base := by
  induction new with
  | nil => exact ⟨rfl, rfl⟩
  | cons ev new ih =>
    obtain ⟨hev, hnew⟩ := forall_mem_cons.mp hnew
    have hlist := not_listsCopies_of_inside hev
    rw [cons_append, (jobsSeen_cons hlist).1, (jobsSeen_cons hlist).2]
    exact ih hnew

structure Visited (k : JobKey) (base h : History) : Prop where
  backups : backupsSeen h = backupsSeen base
  restores : restoresSeen h = restoresSeen base
  asked : ∀ k', (∃ ev ∈ h, asks k' ev = true) → k' = k ∨ ∃ ev ∈ base, asks k' ev = true
  early : (∃ b, k = .backup b) → (∀ ev ∈ base, early ev = true) → ∀ ev ∈ h, Backup.early ev = true

theorem visited (k : JobKey) (base : History) (busy : Bool) (hnew : ∀ ev ∈ new, inside ev = true) :
    Visited k base (new ++ ⟨.busy k, busy⟩ :: base) := by
  obtain ⟨hb, hr⟩ := seen_append (⟨.busy k, busy⟩ :: base) hnew
  refine ⟨hb, hr, fun k' hasked => ?_, ?_⟩
  · obtain ⟨ev, hev, hk⟩ := hasked
    rcases mem_append.mp hev with hev | hev
    · -- a visit asks nothing
      have hin := hnew ev hev
      obtain ⟨e, a⟩ := ev
      cases e with
      | busy => cases hin
      | _ => cases hk
    rcases mem_cons.mp hev with rfl | hev
    · exact .inl (of_decide_eq_true hk).symm
    · exact .inr ⟨ev, hev, hk⟩
  · rintro ⟨b, rfl⟩ hbase ev hev
    rcases mem_append.mp hev with hev | hev
    · have hin := hnew ev hev
      obtain ⟨e, a⟩ := ev
      cases e with
      | busy | listMachineBackupRestores => cases hin
      | _ => rfl
    rcases mem_cons.mp hev with rfl | hev
    · rfl
    · exact hbase ev hev

theorem handled_follows {ok : History → BackupOp → Prop} {p : BackupM (Except Halt Unit)}
    (hp : p.Follows ok Anyhow h) (panics : ∀ h, ok h .panic) : (handled p).Follows ok Anyhow h := by
  refine hp.bind fun h r _ => ?_
  match r with
  | .error .panic => exact ⟨panics h, fun _ => trivial⟩
  | .error (.error e) => trivial
  | .ok () => trivial

theorem handled_part {p : BackupM (Except Halt Unit)} (hp : p.Follows (VisitRule k item) Anyhow [])
    (hseen : Seen base item k) (honce : Distinct base → ∀ ev ∈ base, asks k ev = false) :
    (handled do if ← busy k then return .ok () else p).Follows PassRule
      (fun h _ => Visited k base h) base := by
  refine ⟨⟨⟨item, hseen⟩, honce⟩, fun
    | true => visited k base true (forall_mem_nil _)
    | false => ?_⟩
  have hvisit := (handled_follows hp fun _ => trivial).keep
    (P := fun new => ∀ ev ∈ new, inside ev = true) (forall_mem_nil _)
    fun _ e a hnew he => forall_mem_cons.mpr ⟨he.inside a, hnew⟩
  refine (hvisit.after (⟨.busy k, false⟩ :: base)).mono ?_ ?_
  · rintro _ e ⟨new, rfl, hnew, he⟩
    exact Turn.visit ⟨rfl, hnew, hseen, honce⟩ he
  · rintro _ _ ⟨new, rfl, hnew, -⟩
    exact visited k base false hnew

structure Left {α : Type} (key : α → JobKey) (all : List α) (h : History) (left : List α) :
    Prop where
  split : ∃ past, all = past ++ left ∧ ∀ x, (∃ ev ∈ h, asks (key x) ev = true) → x ∈ left →
    key x ∈ past.map key

theorem Left.mem {key : α → JobKey} {all left : List α} {x : α}
    (hl : Left key all h (x :: left)) : x ∈ all := by
  obtain ⟨past, rfl, -⟩ := hl.split
  exact mem_append_right _ mem_cons_self

theorem Left.unasked {key : α → JobKey} {all left : List α} {x : α}
    (hl : Left key all h (x :: left)) (hd : (all.map key).Nodup) :
    ∀ ev ∈ h, asks (key x) ev = false := by
  obtain ⟨past, rfl, hasked⟩ := hl.split
  intro ev hev
  by_contra hno
  have hx := hasked x ⟨ev, hev, by simpa using hno⟩ mem_cons_self
  rw [map_append, map_cons] at hd
  exact (nodup_append.mp hd).2.2 _ hx _ mem_cons_self rfl

theorem Left.next {key : α → JobKey} {all left : List α} {x : α}
    (hl : Left key all base (x :: left))
    (hasked : ∀ k', (∃ ev ∈ h, asks k' ev = true) → k' = key x ∨ ∃ ev ∈ base, asks k' ev = true) :
    Left key all h left := by
  obtain ⟨past, rfl, hpast⟩ := hl.split
  refine ⟨past ++ [x], by simp, fun y hy hleft => ?_⟩
  rw [map_append, mem_append]
  rcases hasked _ hy with heq | hbase
  · exact .inr (by simp [heq])
  · exact .inl (hpast y hbase (mem_cons_of_mem _ hleft))

theorem PassRule.cases (he : PassRule h e) : (e = .listMachineBackups ∧ h = []) ∨
    e = .listMachineBackupRestores ∨
    (∃ k, e = .busy k ∧ (∃ item, Seen h item k) ∧ (Distinct h → ∀ ev ∈ h, asks k ev = false)) ∨
    ∃ k item new base, Turn k item new base h ∧ VisitRule k item new e := by
  cases e with
  | listMachineBackups => exact .inl ⟨rfl, he⟩
  | listMachineBackupRestores => exact .inr (.inl rfl)
  | busy k => exact .inr (.inr (.inl ⟨k, rfl, he⟩))
  | _ => exact .inr (.inr (.inr he))

variable (node : String) (machines : List Machine)

theorem backupTick_part {b : MachineBackup} {left : List MachineBackup}
    (hl : Left (fun b => .backup b.key) (backupsSeen base) base (b :: left))
    (he : ∀ ev ∈ base, early ev = true) : (backupTick node machines b).Follows PassRule (fun h _ =>
      Left (fun b => .backup b.key) (backupsSeen h) h left ∧ ∀ ev ∈ h, early ev = true) base := by
  have skip : Left (fun b => .backup b.key) (backupsSeen base) base left :=
    hl.next fun _ hasked => .inr hasked
  unfold backupTick
  split
  · next disk hdisk =>
    split
    · exact ⟨skip, he⟩
    · refine (handled_part (visitDiskBackup_visit machines (forall_mem_nil _))
        ⟨b, hl.mem, rfl, disk, hdisk, rfl⟩
        fun hd => hl.unasked ?_).weaken fun h _ hv => ?_
      · have hkeys := hd.1.map (f := JobKey.backup) fun _ _ h => JobKey.backup.inj h
        rwa [map_map] at hkeys
      · rw [hv.backups]
        exact ⟨hl.next hv.asked, hv.early ⟨_, rfl⟩ he⟩
  · exact ⟨skip, he⟩

theorem restoreTick_part {r : MachineBackupRestore} {left : List MachineBackupRestore}
    (hl : Left (fun r => .restore r.key) (restoresSeen base) base (r :: left)) :
    (restoreTick node machines r).Follows PassRule (fun h _ =>
      Left (fun r => .restore r.key) (restoresSeen h) h left) base := by
  have skip : Left (fun r => .restore r.key) (restoresSeen base) base left :=
    hl.next fun _ hasked => .inr hasked
  unfold restoreTick
  split
  · next disk hdisk =>
    split
    · exact skip
    · refine (handled_part (visitDiskRestore_visit machines (forall_mem_nil _))
        ⟨r, hl.mem, rfl, disk, hdisk, rfl⟩
        fun hd => hl.unasked ?_).weaken fun h _ hv => ?_
      · have hkeys := hd.2.map (f := JobKey.restore) fun _ _ h => JobKey.restore.inj h
        rwa [map_map] at hkeys
      · rw [hv.restores]
        exact hl.next hv.asked
  · exact skip

theorem reconcileBackups_follows : (reconcileBackups node machines).Follows PassRule Anyhow [] := by
  refine ⟨rfl, fun | .error _ => trivial | .ok backups => ?_⟩
  refine (Prog.Follows.forEach
    (fun h left =>
      Left (fun b => .backup b.key) (backupsSeen h) h left ∧ ∀ ev ∈ h, early ev = true)
    (fun base b left hl => backupTick_part node machines hl.1 hl.2)
    ⟨⟨[], rfl, ?_⟩, ?_⟩).bind fun h _ hh => ?_
  · rintro x ⟨ev, hev, hask⟩ _
    rw [mem_singleton.mp hev] at hask
    cases hask
  · intro ev hev
    rw [mem_singleton.mp hev]
    rfl
  refine ⟨trivial, fun | .error _ => trivial | .ok restores => ?_⟩
  refine (Prog.Follows.forEach
    (fun h left => Left (fun r => .restore r.key) (restoresSeen h) h left)
    (fun base r left hl => restoreTick_part node machines hl) ⟨[], rfl, ?_⟩).bind
      fun _ _ _ => trivial
  -- nothing has been asked of a restore before
  rintro x ⟨ev, hev, hask⟩ _
  rcases mem_cons.mp hev with rfl | hev
  · cases hask
  · have hearly := hh.2 ev hev
    obtain ⟨e, a⟩ := ev
    cases e with
    | busy k =>
      rw [of_decide_eq_true hask] at hearly
      cases hearly
    | _ => cases hask

end Kairon.Backup
