import Kairon.Backup.PassRule
import Kairon.Backup.World

/-!
# The copies and what is stored of them

Between the calls of a pass two others move: the goroutines of the process, and everybody who works
with the stored objects. What both keep is said here once, for one object at a time.
-/

namespace Kairon.Backup

open Infra Model Cluster List

def Succeeded (w : World) (k : JobKey) : Prop :=
  ∃ d, w.half k = some (some d) ∧ d.phase = .succeeded

def HandedOver (d : DiskBackupStatus) : JobKey → Prop
  | .backup _ => d.phase = .pending ∧ d.name = ""
  | .restore _ => d.phase = .pending

/--
What others do. They change everything of an object but its disk half, which they only hand over,
and the name of its copy; they remove objects, and FluxVM loses no finished backup.

An object that is created later is there from the start, without a disk half.
-/
structure Edits (w w' : World) : Prop where
  running : w'.running = w.running
  goroutines : w'.goroutines = w.goroutines
  saved : Retains w.saved w'.saved
  half : ∀ k, w'.half k = none ∨ w'.half k = w.half k ∨
    ∃ d, w.half k = some none ∧ w'.half k = some (some d) ∧ HandedOver d k
  names : ∀ b' ∈ w'.backups.rows, ∃ b ∈ w.backups.rows, b'.key = b.key ∧
    fluxVMBackupName b' = fluxVMBackupName b

/-! ## The world -/

section

variable (owner : String → ObjectKey)

structure Copies (w : World) (g : Goroutine) : Prop where
  half : ∀ o, w.half g.job.key = some o → ∃ d, o = some d ∧ d.phase ≠ .pending ∧
    (g.stage ≠ .recorded → d.phase = .running) ∧
    ∀ k, g.job.key = .backup k → d.name = g.job.disk.name
  name : ∀ k, g.job.key = .backup k → owner g.job.disk.name = k ∧ g.job.disk.name ≠ ""
  report : ∀ d, g.stage = .copied d → d.phase ≠ .pending ∧ d.name = g.job.disk.name ∧
    (d.phase = .succeeded → g.job.Delivered w.saved)

structure Owned (w : World) : Prop where
  names : ∀ b ∈ w.backups.rows, owner (fluxVMBackupName b) = b.key
  named : ∀ k d, w.half (.backup k) = some (some d) → d.name ≠ "" → owner d.name = k
  running : ∀ k d, w.half (.backup k) = some (some d) → d.phase = .running → d.name ≠ ""

structure Sane (w : World) : Prop where
  owned : Owned owner w
  busy : ∀ g ∈ w.goroutines, g.job.key ∈ w.running
  once : (w.goroutines.map fun g => g.job.key).Nodup
  copies : ∀ g ∈ w.goroutines, Copies owner w g

/-- Nothing is done to the object `k`, except that it is removed or handed over, or that its own
goroutine moves on. -/
structure Frame (k : JobKey) (w w' : World) : Prop where
  jobs : ∀ g' ∈ w'.goroutines, g'.job.key = k → ∃ g ∈ w.goroutines, g.job = g'.job
  running : k ∈ w.running → (∀ g ∈ w.goroutines, g.job.key ≠ k) → k ∈ w'.running
  half : w'.half k = none ∨ w'.half k = w.half k ∨
    (∃ d, w.half k = some none ∧ w'.half k = some (some d) ∧ HandedOver d k) ∨
    ∃ g ∈ w.goroutines, g.job.key = k ∧ (Succeeded w' k → g.job.Delivered w'.saved)
  saved : ∀ b, k = .backup b → ∀ name, owner name = b → Complete w.saved name →
    Complete w'.saved name

end

variable {owner : String → ObjectKey} {w w' : World} {k : JobKey} {item : Item}
  {new base past : History}

theorem phase_of_handedOver {d : DiskBackupStatus} (h : HandedOver d k) : d.phase = .pending := by
  cases k with
  | backup k => exact h.1
  | restore k => exact h

theorem Edits.frame (he : Edits w w') (k : JobKey) : Frame owner k w w' where
  jobs g' hg' _ := ⟨g', he.goroutines ▸ hg', rfl⟩
  running hk _ := he.running ▸ hk
  half := by
    rcases he.half k with h | h | h
    · exact .inl h
    · exact .inr (.inl h)
    · exact .inr (.inr (.inl h))
  saved _ _ name _ hc := he.saved name hc

theorem Edits.half_backup (he : Edits w w') {k : ObjectKey} {d : DiskBackupStatus}
    (hd : w'.half (.backup k) = some (some d)) :
    w.half (.backup k) = some (some d) ∨ d.phase = .pending ∧ d.name = "" := by
  rcases he.half (.backup k) with h | h | ⟨d', -, h, hover⟩
  · simp [h] at hd
  · exact .inl (h ▸ hd)
  · rw [h] at hd
    cases hd
    exact .inr hover

theorem Edits.sane (he : Edits w w') (hs : Sane owner w) : Sane owner w' where
  owned := by
    refine ⟨fun b' hb' => ?_, fun k d hd hne => ?_, fun k d hd hrun => ?_⟩
    · obtain ⟨b, hb, hkey, hn⟩ := he.names b' hb'
      rw [hn, hkey]
      exact hs.owned.names b hb
    · rcases he.half_backup hd with hold | ⟨-, hempty⟩
      · exact hs.owned.named k d hold hne
      · exact absurd hempty hne
    · rcases he.half_backup hd with hold | ⟨hphase, -⟩
      · exact hs.owned.running k d hold hrun
      · simp [hphase] at hrun
  busy g hg := by
    rw [he.running]
    exact hs.busy g (he.goroutines ▸ hg)
  once := he.goroutines ▸ hs.once
  copies g hg := by
    have hg := hs.copies g (he.goroutines ▸ hg)
    refine ⟨fun o ho => ?_, hg.name, fun d hd => ?_⟩
    · rcases he.half g.job.key with h | h | ⟨d', h, -⟩
      · simp [h] at ho
      · exact hg.half o (h ▸ ho)
      · obtain ⟨d, hd, -⟩ := hg.half none h
        cases hd
    · obtain ⟨hphase, hname, hdel⟩ := hg.report d hd
      exact ⟨hphase, hname, fun hsucc => (hdel hsucc).mono he.saved⟩

/-! ## The goroutines -/

theorem report_cases (job : Job) (out : Except String job.Copied) :
    (job.report out).phase ≠ .pending ∧ (job.report out).name = job.disk.name ∧
      ((job.report out).phase = .succeeded → ∃ c, out = .ok c) := by
  cases job <;> cases out <;> exact ⟨nofun, rfl, by simp [Job.report, fillDiskBackup]⟩

section Goroutines

variable {g : Goroutine} {stage : Stage}

theorem key_ne_of_mem_erase (hs : Sane owner w) (live : g ∈ w.goroutines) :
    ∀ g' ∈ w.goroutines.erase g, g'.job.key ≠ g.job.key := by
  intro g' hg' heq
  have hperm := (perm_cons_erase live).map fun g => g.job.key
  have hnodup := hperm.nodup_iff.mp hs.once
  rw [map_cons, nodup_cons] at hnodup
  exact hnodup.1 (heq ▸ mem_map_of_mem hg')

theorem once_moved (hs : Sane owner w) (live : g ∈ w.goroutines) :
    ((⟨g.job, stage⟩ :: w.goroutines.erase g).map fun g => g.job.key).Nodup :=
  ((perm_cons_erase live).map fun g => g.job.key).nodup_iff.mp hs.once

theorem jobs_moved (live : g ∈ w.goroutines) {g' : Goroutine}
    (hg' : g' ∈ (⟨g.job, stage⟩ :: w.goroutines.erase g : List Goroutine)) :
    ∃ g₀ ∈ w.goroutines, g₀.job = g'.job := by
  rcases mem_cons.mp hg' with rfl | hg'
  · exact ⟨g, live, rfl⟩
  · exact ⟨g', List.mem_of_mem_erase hg', rfl⟩

end Goroutines

theorem JobStep.frame (hstep : JobStep w w') (hs : Sane owner w) (k : JobKey) :
    Frame owner k w w' := by
  cases hstep with
  | returns out live retains delivered =>
    exact ⟨fun g' hg' _ => jobs_moved live hg', fun hk _ => hk, .inr (.inl rfl),
      fun _ _ name _ hc => retains name hc⟩
  | @records job disk w₁ live out =>
    rcases out with rfl | rfl
    · exact ⟨fun g' hg' _ => jobs_moved live hg', fun hk _ => hk, .inr (.inl rfl),
        fun _ _ _ _ hc => hc⟩
    · refine ⟨fun g' hg' _ => jobs_moved live hg', fun hk _ => by simpa using hk, ?_,
        fun _ _ _ _ hc => by simpa using hc⟩
      by_cases hk : k = job.key
      · -- the goroutine of `k` itself
        refine .inr (.inr (.inr ⟨_, live, hk.symm, ?_⟩))
        rintro ⟨d, hd, hsucc⟩
        have hhalf : (w.patchDisk job.key disk).half k = some (some d) := hd
        rw [World.half_patchDisk, if_pos hk] at hhalf
        obtain ⟨o, -, ho⟩ := Option.map_eq_some_iff.mp hhalf
        have hphase : some disk.phase = some d.phase := by
          rw [← phase_patchDisk o disk, ho]
          rfl
        have := ((hs.copies _ live).report disk rfl).2.2 ((Option.some.inj hphase).trans hsucc)
        simpa using this
      · refine .inr (.inl ?_)
        show (w.patchDisk job.key disk).half k = _
        rw [World.half_patchDisk, if_neg hk]
  | @done job live =>
    refine ⟨fun g' hg' _ => ⟨g', List.mem_of_mem_erase hg', rfl⟩, fun hk halone => ?_,
      .inr (.inl rfl), fun _ _ _ _ hc => hc⟩
    exact mem_filter.mpr ⟨hk, by simpa using (halone _ live).symm⟩

theorem Copies.keep {g : Goroutine} (hc : Copies owner w g)
    (hhalf : w'.half g.job.key = w.half g.job.key ∨ w'.half g.job.key = none)
    (hsaved : g.job.Delivered w.saved → g.job.Delivered w'.saved) : Copies owner w' g where
  half o ho := by
    rcases hhalf with h | h
    · exact hc.half o (h ▸ ho)
    · simp [h] at ho
  name := hc.name
  report d hd := by
    obtain ⟨hphase, hname, hdel⟩ := hc.report d hd
    exact ⟨hphase, hname, fun hsucc => hsaved (hdel hsucc)⟩

theorem Owned.keep (ho : Owned owner w) (hb : w'.backups = w.backups) : Owned owner w' where
  names := hb ▸ ho.names
  named k d hd := ho.named k d (by
    rw [← hd]
    simp only [World.half, hb])
  running k d hd := ho.running k d (by
    rw [← hd]
    simp only [World.half, hb])

theorem Owned.patchDisk (ho : Owned owner w) {d : DiskBackupStatus}
    (hname : ∀ b, k = .backup b → d.name ≠ "" → owner d.name = b)
    (hrun : ∀ b, k = .backup b → d.phase = .running → d.name ≠ "") :
    Owned owner (w.patchDisk k d) := by
  -- the stored half is another object's, or the new one over the old
  have cases_half : ∀ {b d'}, (w.patchDisk k d).half (.backup b) = some (some d') →
      w.half (.backup b) = some (some d') ∨ k = .backup b ∧ d'.phase = d.phase ∧
        (d'.name = d.name ∨ d.name = "" ∧ ∃ d₀, w.half (.backup b) = some (some d₀) ∧
          d'.name = d₀.name) := by
    intro b d' hd'
    rw [World.half_patchDisk] at hd'
    split at hd'
    · next hk =>
      obtain ⟨old, hold, hnew⟩ := Option.map_eq_some_iff.mp hd'
      cases old with
      | none =>
        obtain rfl : d = d' := Option.some.inj hnew
        exact .inr ⟨hk.symm, rfl, .inl rfl⟩
      | some d₀ =>
        obtain rfl : d₀.patch d = d' := Option.some.inj hnew
        refine .inr ⟨hk.symm, rfl, ?_⟩
        by_cases hempty : d.name = ""
        · exact .inr ⟨hempty, d₀, hold, if_pos hempty⟩
        · exact .inl (if_neg hempty)
    · exact .inl hd'
  refine ⟨fun b hb => ?_, fun b d' hd' hne => ?_, fun b d' hd' hphase => ?_⟩
  · cases k with
    | restore k => exact ho.names b hb
    | backup k =>
      have hb : b ∈ (w.backups.edit k (·.patchStatus { disk := some d })
          (·.key_patchStatus { disk := some d })).rows := hb
      obtain ⟨b₀, hb₀, rfl | ⟨-, rfl⟩⟩ := Table.mem_edit hb
      · exact ho.names b hb₀
      · exact ho.names b₀ hb₀
  · rcases cases_half hd' with hold | ⟨rfl, -, hn | ⟨-, d₀, hold, hn⟩⟩
    · exact ho.named b d' hold hne
    · rw [hn] at hne ⊢
      exact hname b rfl hne
    · rw [hn] at hne ⊢
      exact ho.named b d₀ hold hne
  · rcases cases_half hd' with hold | ⟨rfl, hp, hn | ⟨hempty, -⟩⟩
    · exact ho.running b d' hold hphase
    · rw [hn]
      exact hrun b rfl (hp.symm.trans hphase)
    · exact absurd hempty (hrun b rfl (hp.symm.trans hphase))

theorem copies_recorded {job : Job} {disk : DiskBackupStatus}
    (hc : Copies owner w ⟨job, .copied disk⟩) (hw : w' = w ∨ w' = w.patchDisk job.key disk) :
    Copies owner w' ⟨job, .recorded⟩ where
  half o ho := by
    obtain ⟨hphase, hname, -⟩ := hc.report disk rfl
    rcases hw with rfl | rfl
    · obtain ⟨d, rfl, hp, -, hn⟩ := hc.half o ho
      exact ⟨d, rfl, hp, fun hne => absurd rfl hne, hn⟩
    · have ho : (w.patchDisk job.key disk).half job.key = some o := ho
      rw [World.half_patchDisk, if_pos rfl] at ho
      obtain ⟨old, hold, rfl⟩ := Option.map_eq_some_iff.mp ho
      obtain ⟨d, rfl, -, -, hn⟩ := hc.half old hold
      refine ⟨d.patch disk, rfl, hphase, fun hne => absurd rfl hne, fun k hk => ?_⟩
      simp only [DiskBackupStatus.patch, hname, hn k hk, ite_self]
  name := hc.name
  report d hd := by cases hd

theorem JobStep.sane (hstep : JobStep w w') (hs : Sane owner w) : Sane owner w' := by
  cases hstep with
  | @returns job saved out live retains delivered =>
    refine ⟨hs.owned.keep rfl, fun g hg => ?_, once_moved hs live, fun g hg => ?_⟩
    · obtain ⟨g₀, hg₀, hjob⟩ := jobs_moved live hg
      exact hjob ▸ hs.busy g₀ hg₀
    rcases mem_cons.mp hg with rfl | hg
    · have hc := hs.copies _ live
      obtain ⟨hphase, hname, hok⟩ := report_cases job out
      refine ⟨fun o ho => ?_, hc.name, fun d hd => ?_⟩
      · obtain ⟨d, rfl, hp, hrun, hn⟩ := hc.half o ho
        exact ⟨d, rfl, hp, fun _ => hrun nofun, hn⟩
      · cases hd
        refine ⟨hphase, hname, fun hsucc => ?_⟩
        obtain ⟨c, hc⟩ := hok hsucc
        exact delivered c hc
    · exact (hs.copies g (List.mem_of_mem_erase hg)).keep (.inl rfl) (.mono retains)
  | @records job disk w₁ live out =>
    have hc := hs.copies _ live
    have howned : Owned owner w₁ := by
      rcases out with rfl | rfl
      · exact hs.owned
      · refine hs.owned.patchDisk (fun b hb _ => ?_) fun b hb _ => ?_
        · rw [(hc.report disk rfl).2.1]
          exact (hc.name b hb).1
        · rw [(hc.report disk rfl).2.1]
          exact (hc.name b hb).2
    refine ⟨howned.keep rfl, fun g hg => ?_, once_moved hs live, fun g hg => ?_⟩
    · obtain ⟨g₀, hg₀, hjob⟩ := jobs_moved live hg
      have hrun : w₁.running = w.running := by
        rcases out with rfl | rfl
        · rfl
        · exact World.running_patchDisk _ _ _
      rw [hrun, ← hjob]
      exact hs.busy g₀ hg₀
    rcases mem_cons.mp hg with rfl | hg
    · have hrec := copies_recorded hc out
      exact ⟨hrec.half, hrec.name, hrec.report⟩
    · have hne := key_ne_of_mem_erase hs live g hg
      refine (hs.copies g (List.mem_of_mem_erase hg)).keep (.inl ?_) ?_
      · show w₁.half g.job.key = _
        rcases out with rfl | rfl
        · rfl
        · rw [World.half_patchDisk, if_neg hne]
      · rcases out with rfl | rfl
        · exact id
        · rw [World.saved_patchDisk]
          exact id
  | @done job live =>
    refine ⟨hs.owned.keep rfl, fun g hg => ?_, ?_, fun g hg => ?_⟩
    · have hne := key_ne_of_mem_erase hs live g hg
      exact mem_filter.mpr ⟨hs.busy g (List.mem_of_mem_erase hg), by simpa using hne⟩
    · exact hs.once.sublist ((erase_sublist).map _)
    · exact (hs.copies g (List.mem_of_mem_erase hg)).keep (.inl rfl) id

end Kairon.Backup
