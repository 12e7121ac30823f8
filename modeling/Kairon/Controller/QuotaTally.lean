import Kairon.Controller.Quota
import Kairon.Controller.Reconcile
import Kairon.Infra.Session
import Kairon.Infra.Table

/-!
# What the quota trackers know

The exact sums next to the machine integers of the trackers. As long as nothing wraps around, the
trackers hold the exact sums, and what they let through stays within the limits.
-/

namespace Kairon.Controller

open Model List

/-- What a quota may limit. -/
inductive Dim where
  | machines
  | cpu
  | memory

/-- The integer of the source can hold the sum. -/
def Dim.fits : Dim → Int → Prop
  | .machines, _ => True
  | .cpu, n => n < 2 ^ 32
  | .memory, n => n < 2 ^ 64

variable (F : GoFloat) {quotas : List MachineQuota} {q : MachineQuota} {L : Int}
  {old new : UInt32 × UInt64} {trackers : List QuotaTracker}

variable (d : Dim) (ns : String)

def amount (m : Machine) : ℕ :=
  match d with
  | .machines => 1
  | .cpu => (machineFootprint F m).1.toNat
  | .memory => (machineFootprint F m).2.toNat

def share (m : Machine) : ℕ := if m.key.namespace = ns then amount F d m else 0

/-- What a Machine takes from the quotas of a namespace. -/
def charge (m : Machine) : ℕ := if machineCountsTowardQuota m then share F d ns m else 0

/-- The exact sum, which no integer of the source bounds. -/
def usage (machines : List Machine) : ℕ := (machines.map (charge F d ns)).sum

/-- A limit of a quota, if it is set and can be read. -/
def MachineQuota.limit (q : MachineQuota) : Option Int :=
  match d with
  | .machines => q.spec.maxMachines
  | .cpu =>
    if q.spec.maxTotalCPU = "" then none
    else (parseVCPUs F q.spec.maxTotalCPU).toOption.map fun n => (n.toNat : Int)
  | .memory =>
    if q.spec.maxTotalMemory = "" then none
    else (parseMemoryMiB F q.spec.maxTotalMemory).toOption.map fun n => (n.toNat : Int)

def QuotaTracker.tally (t : QuotaTracker) : Dim → Int
  | .machines => t.used.usedMachines
  | .cpu => t.used.usedTotalCPUCores.toNat
  | .memory => t.used.usedTotalMemoryMiB.toNat

variable {F d ns} {m : Machine} {t : QuotaTracker}

theorem Dim.fits.mono {a b : Int} (h : d.fits b) (hab : a ≤ b) : d.fits a := by
  cases d with
  | machines => trivial
  | cpu | memory => exact Int.lt_of_le_of_lt hab h

/-- What the integer of the source holds of a sum: it wraps around. -/
def Dim.hold : Dim → Int → Int
  | .machines, n => n
  | .cpu, n => n % 2 ^ 32
  | .memory, n => n % 2 ^ 64

theorem Dim.hold_add (d : Dim) (a b : Int) : d.hold (d.hold a + b) = d.hold (a + b) := by
  cases d with
  | machines => rfl
  | cpu | memory => exact Int.emod_add_emod ..

theorem Dim.fits.hold_eq {n : ℕ} (h : d.fits n) : d.hold n = n := by
  cases d with
  | machines => rfl
  | cpu | memory => exact Int.emod_eq_of_lt (by omega) h

theorem hold_tally_add {n : ℕ} (h : d.fits (t.tally d + n)) :
    d.hold (t.tally d + n) = t.tally d + n := by
  cases d with
  | machines => rfl
  | cpu | memory => exact Int.emod_eq_of_lt (by simp only [QuotaTracker.tally]; omega) h

theorem hold_tally : d.hold (t.tally d) = t.tally d := by
  cases d with
  | machines => rfl
  | cpu =>
    have := t.used.usedTotalCPUCores.toNat_lt
    simp only [QuotaTracker.tally, Dim.hold]
    omega
  | memory =>
    have := t.used.usedTotalMemoryMiB.toNat_lt
    simp only [QuotaTracker.tally, Dim.hold]
    omega

theorem tally_spend :
    (t.spend (machineFootprint F m)).tally d = d.hold (t.tally d + amount F d m) := by
  cases d with
  | machines => rfl
  | cpu =>
    simp only [QuotaTracker.tally, QuotaTracker.spend, amount, Dim.hold, UInt32.toNat_add]
    omega
  | memory =>
    simp only [QuotaTracker.tally, QuotaTracker.spend, amount, Dim.hold, UInt64.toNat_add]
    omega

/-! ## Tallying many Machines -/

variable (F) in
def spendOn (t : QuotaTracker) (m : Machine) : QuotaTracker :=
  if t.quota.namespace = m.key.namespace then t.spend (machineFootprint F m) else t

theorem quota_spendOn : (spendOn F t m).quota = t.quota := by
  unfold spendOn
  split <;> rfl

theorem tally_spendOn :
    (spendOn F t m).tally d = d.hold (t.tally d + share F d t.quota.namespace m) := by
  unfold spendOn share
  by_cases hns : t.quota.namespace = m.key.namespace
  · rw [if_pos hns, if_pos hns.symm, tally_spend]
  · rw [if_neg hns, if_neg (Ne.symm hns), Int.natCast_zero, add_zero, hold_tally]

theorem quota_foldl (ms : List Machine) : (ms.foldl (spendOn F) t).quota = t.quota := by
  induction ms generalizing t with
  | nil => rfl
  | cons m ms ih => rw [foldl_cons, ih, quota_spendOn]

/-- The tally after any Machines is their sum, as the integer holds it. -/
theorem tally_foldl (ms : List Machine) : (ms.foldl (spendOn F) t).tally d =
      d.hold (t.tally d + (ms.map (share F d t.quota.namespace)).sum) := by
  induction ms generalizing t with
  | nil => simp [hold_tally]
  | cons m ms ih =>
    rw [foldl_cons, ih, quota_spendOn, tally_spendOn, Dim.hold_add, map_cons,
      sum_cons, Int.natCast_add, add_assoc]

variable (F) in
/-- The tracker of a quota once the Machines have been tallied. -/
def seedTracker (machines : List Machine) (q : MachineQuota) : QuotaTracker :=
  (machines.filter machineCountsTowardQuota).foldl (spendOn F) ⟨q, ⟨0, 0, 0⟩⟩

theorem seedTrackers_eq (quotas : List MachineQuota) (machines : List Machine) :
    seedTrackers F quotas machines = quotas.map (seedTracker F machines) := by
  unfold seedTrackers seedTracker
  generalize machines.filter machineCountsTowardQuota = ms
  suffices h : ∀ ts : List QuotaTracker,
      ms.foldl (fun ts m => spend F m ts) ts = ts.map fun t => ms.foldl (spendOn F) t by
    rw [h, map_map]
    rfl
  induction ms with
  | nil => simp
  | cons m ms ih =>
    intro ts
    rw [foldl_cons, ih, spend, map_map]
    rfl

theorem sum_filter (p : Machine → Bool) (f : Machine → ℕ) (ms : List Machine) :
    ((ms.filter p).map f).sum = (ms.map fun m => if p m then f m else 0).sum := by
  rw [sum_map_ite (fun m => p m = true)]
  simp

theorem usage_eq_sum_filter (machines : List Machine) : usage F d ns machines =
      ((machines.filter machineCountsTowardQuota).map (share F d ns)).sum :=
  (sum_filter _ _ _).symm

@[simp] theorem quota_seedTracker (machines : List Machine) :
    (seedTracker F machines q).quota = q := quota_foldl _

theorem tally_seedTracker (machines : List Machine) :
    (seedTracker F machines q).tally d = d.hold (usage F d q.namespace machines) := by
  have zero : (⟨q, ⟨0, 0, 0⟩⟩ : QuotaTracker).tally d = 0 := by cases d <;> rfl
  rw [seedTracker, tally_foldl, zero, zero_add, usage_eq_sum_filter]

theorem tally_seedTrackers {machines : List Machine} (ht : t ∈ seedTrackers F quotas machines) :
    t.quota ∈ quotas ∧ t.tally d = d.hold (usage F d t.quota.namespace machines) := by
  rw [seedTrackers_eq] at ht
  obtain ⟨q, hq, rfl⟩ := mem_map.mp ht
  rw [quota_seedTracker]
  exact ⟨hq, tally_seedTracker machines⟩

theorem exists_seedTracker (hq : q ∈ quotas)
    (machines : List Machine) : ∃ t ∈ seedTrackers F quotas machines, t.quota = q := by
  rw [seedTrackers_eq]
  exact ⟨_, mem_map_of_mem hq, quota_seedTracker _⟩

/-! ## What is let through -/

theorem limit_cpu (h : q.limit F .cpu = some L) :
    q.spec.maxTotalCPU ≠ "" ∧ L = (q.spec.cpuLimit F).toNat := by
  obtain ⟨hne, h⟩ := Option.ite_none_left_eq_some.mp h
  obtain ⟨n, hn, rfl⟩ := Option.map_eq_some_iff.mp h
  exact ⟨hne, by simp [MachineQuotaSpec.cpuLimit, hn]⟩

theorem limit_memory (h : q.limit F .memory = some L) :
    q.spec.maxTotalMemory ≠ "" ∧ L = (q.spec.memoryLimit F).toNat := by
  obtain ⟨hne, h⟩ := Option.ite_none_left_eq_some.mp h
  obtain ⟨n, hn, rfl⟩ := Option.map_eq_some_iff.mp h
  exact ⟨hne, by simp [MachineQuotaSpec.memoryLimit, hn]⟩

variable (F) in
/-- What is tallied is above the limit, as the source compares. -/
def QuotaTracker.Exceeds (t : QuotaTracker) : Dim → Prop
  | .machines => (t.quota.spec.maxMachines.any fun max => t.used.usedMachines > max) = true
  | .cpu =>
    t.quota.spec.maxTotalCPU ≠ "" ∧ t.used.usedTotalCPUCores > t.quota.spec.cpuLimit F
  | .memory =>
    t.quota.spec.maxTotalMemory ≠ "" ∧ t.used.usedTotalMemoryMiB > t.quota.spec.memoryLimit F

theorem le_limit (h : ¬ t.Exceeds F d) (hL : t.quota.limit F d = some L) : t.tally d ≤ L := by
  cases d with
  | machines =>
    have hmax : t.quota.spec.maxMachines = some L := hL
    simpa [QuotaTracker.Exceeds, QuotaTracker.tally, hmax] using h
  | cpu =>
    obtain ⟨hset, rfl⟩ := limit_cpu hL
    have hle := UInt32.not_lt.mp fun hlt => h ⟨hset, hlt⟩
    exact Int.ofNat_le.mpr (UInt32.le_iff_toNat_le.mp hle)
  | memory =>
    obtain ⟨hset, rfl⟩ := limit_memory hL
    have hle := UInt64.not_lt.mp fun hlt => h ⟨hset, hlt⟩
    exact Int.ofNat_le.mpr (UInt64.le_iff_toNat_le.mp hle)

/-- A Machine is let in just if no limit is exceeded with it. -/
theorem blocker_eq_none_iff {footprint : UInt32 × UInt64} :
    t.blocker F footprint = none ↔ ∀ d, ¬ (t.spend footprint).Exceeds F d := by
  constructor
  · intro h d
    simp only [QuotaTracker.blocker] at h
    split at h
    · cases h
    next hmachines =>
    split at h
    · cases h
    next hcpu =>
    split at h
    · cases h
    next hmemory =>
    cases d with
    | machines => exact hmachines
    | cpu => exact hcpu
    | memory => exact hmemory
  · intro h
    exact (if_neg (h .machines)).trans ((if_neg (h .cpu)).trans (if_neg (h .memory)))

/-- The Machine with the footprint `old` tallied with the footprint `new`. -/
def QuotaTracker.resize (t : QuotaTracker) (old new : UInt32 × UInt64) : QuotaTracker :=
  { t with used :=
    { t.used with
      usedTotalCPUCores := t.used.usedTotalCPUCores - old.1 + new.1
      usedTotalMemoryMiB := t.used.usedTotalMemoryMiB - old.2 + new.2 } }

theorem resizeBlocker_eq_none_iff : t.resizeBlocker F old new = none ↔
      ∀ d, d ≠ .machines → ¬ (t.resize old new).Exceeds F d := by
  constructor
  · intro h d hd
    simp only [QuotaTracker.resizeBlocker] at h
    split at h
    · cases h
    next hcpu =>
    split at h
    · cases h
    next hmemory =>
    cases d with
    | machines => exact absurd rfl hd
    | cpu => exact hcpu
    | memory => exact hmemory
  · intro h
    exact (if_neg (h .cpu nofun)).trans (if_neg (h .memory nofun))

def Dim.part : Dim → UInt32 × UInt64 → ℕ
  | .machines, _ => 1
  | .cpu, footprint => footprint.1.toNat
  | .memory, footprint => footprint.2.toNat

theorem amount_eq_part : amount F d m = d.part (machineFootprint F m) := by
  cases d <;> rfl

theorem tally_resize :
    (t.resize old new).tally d = d.hold (t.tally d - d.part old + d.part new) := by
  cases d with
  | machines => simp [QuotaTracker.resize, QuotaTracker.tally, Dim.part, Dim.hold]
  | cpu =>
    simp only [QuotaTracker.tally, QuotaTracker.resize, Dim.part, Dim.hold, UInt32.toNat_add,
      UInt32.toNat_sub]
    have := old.1.toNat_lt
    omega
  | memory =>
    simp only [QuotaTracker.tally, QuotaTracker.resize, Dim.part, Dim.hold, UInt64.toNat_add,
      UInt64.toNat_sub]
    have := old.2.toNat_lt
    omega

/-- Who is let in is within the limits, if the sums do not wrap around. -/
theorem le_limit_of_blocker (h : t.blocker F (machineFootprint F m) = none)
    (hL : t.quota.limit F d = some L) (hfits : d.fits (t.tally d + amount F d m)) :
    t.tally d + amount F d m ≤ L := by
  rw [← hold_tally_add hfits, ← tally_spend]
  exact le_limit (blocker_eq_none_iff.mp h d) hL

theorem le_limit_of_resizeBlocker {old new : Machine} (hd : d ≠ .machines)
    (h : t.resizeBlocker F (machineFootprint F old) (machineFootprint F new) = none)
    (hL : t.quota.limit F d = some L) (hold : (amount F d old : Int) ≤ t.tally d)
    (hfits : d.fits (t.tally d - amount F d old + amount F d new)) :
    t.tally d - amount F d old + amount F d new ≤ L := by
  have hle := le_limit (resizeBlocker_eq_none_iff.mp h d hd) hL
  rw [tally_resize, ← amount_eq_part, ← amount_eq_part] at hle
  obtain ⟨n, hn⟩ := Int.eq_ofNat_of_zero_le
    (show (0 : Int) ≤ t.tally d - amount F d old + amount F d new by omega)
  rw [hn] at hle hfits ⊢
  rwa [hfits.hold_eq] at hle

theorem mem_trackersIn : t ∈ trackersIn ns trackers ↔ t ∈ trackers ∧ t.quota.namespace = ns := by
  simp [trackersIn]

theorem admitQuota_ok {trackers' : List QuotaTracker}
    (h : admitQuota F trackers m = .ok trackers') : trackers' = trackers.map (spendOn F · m) ∧
      ∀ t ∈ trackers, t.quota.namespace = m.key.namespace →
        t.blocker F (machineFootprint F m) = none := by
  unfold admitQuota at h
  split at h
  · cases h
  · next hnone =>
    cases h
    exact ⟨rfl, fun t ht hns =>
      List.findSome?_eq_none_iff.mp hnone t (mem_trackersIn.mpr ⟨ht, hns⟩)⟩

theorem admitQuotaResize_none (h : admitQuotaResize F trackers ns old new = none) :
    ∀ t ∈ trackers, t.quota.namespace = ns → t.resizeBlocker F old new = none :=
  fun t ht hns => List.findSome?_eq_none_iff.mp h t (mem_trackersIn.mpr ⟨ht, hns⟩)

theorem buildQuotaTrackers_ok {machines : List Machine}
    (h : buildQuotaTrackers F quotas machines = .ok trackers) :
    trackers = seedTrackers F quotas machines := by
  simp only [buildQuotaTrackers] at h
  split at h
  · cases h
  · cases h
    rfl

/-!
## Requests and ticks under quotas

The stored Machines under a fixed set of quotas: requests that pass the webhook, changes of the
power state and the scheduling loop of the controller, one at a time. Lists may fail, and come in
any order.
-/

open Infra Cluster

abbrev Machines := Table Machine.key

structure Board where
  machines : Machines
  trackers : List QuotaTracker

def quotaService (F : GoFloat) : Service ClusterOp.Ans Board := fun s e a s' =>
  match e, a with
  | .decision (.admitQuota m), a =>
    match admitQuota F s.trackers m with
    | .error blocker => a = blocker ∧ s' = s
    | .ok trackers => a = "" ∧ s' = { s with trackers }
  | .patchMachine _ k p, a =>
    s' = { s with machines := s.machines.edit k (·.patch p) (·.key_patch p) } ∨
      (∃ err, a = .error err) ∧ s' = s
  | .patchMachineStatus k st, a =>
    s' = { s with machines := s.machines.edit k (·.patchStatus st) (·.key_patchStatus st) } ∨
      (∃ err, a = .error err) ∧ s' = s
  | _, _ => s' = s

inductive Action where
  | create (m : Machine)
  | update (new : Machine)
  | power (k : ObjectKey) (state : String)
  /-- A tick that knows these instance types. -/
  | tick (types : List MachineInstanceType)

def Lists {α : Type} (all : List α) (r : Except String (List α)) : Prop :=
  ∀ l, r = .ok l → l.Perm all

def withPower (m : Machine) (state : String) : Machine :=
  { m with spec := { m.spec with powerState := state } }

/-- One request, change or tick. An update does not change whether the Machine is being deleted. -/
inductive QuotaStep (F : GoFloat) (checks : OtherChecks) (quotas : List MachineQuota)
    (w : Machines) : Action → Machines → Prop
  | create {m : Machine} {qs : Except String (List MachineQuota)}
      {ms : Except String (List Machine)} (new : w.find m.key = none)
      (quotasListed : Lists (quotas.filter fun q => q.namespace = m.key.namespace) qs)
      (machinesListed : Lists (w.rows.filter fun x => x.key.namespace = m.key.namespace) ms)
      (allowed : validateMachineCreate F checks qs ms m = .allow) :
      QuotaStep F checks quotas w (.create m) (w.add m)
  | update {old new : Machine} {qs : Except String (List MachineQuota)}
      {ms : Except String (List Machine)} (stored : w.find new.key = some old)
      (deleting : new.metadata.deleting = old.metadata.deleting)
      (quotasListed : Lists (quotas.filter fun q => q.namespace = new.key.namespace) qs)
      (machinesListed : Lists (w.rows.filter fun x => x.key.namespace = new.key.namespace) ms)
      (allowed : validateMachineResize F checks qs ms old new = .allow) :
      QuotaStep F checks quotas w (.update new) (w.replace new)
  | power {k : ObjectKey} {state : String} : QuotaStep F checks quotas w (.power k state)
        (w.edit k (fun m => withPower m state) fun _ => rfl)
  | tick {types : List MachineInstanceType} {listed : List Machine} {c : Config}
      {nodes : List Node} {volumesNotReady imagesNotReady : List ObjectKey}
      {trackers : List QuotaTracker} {s : Board} {rest : M GoErr}
      (listed_perm : listed.Perm w.rows)
      (built : buildQuotaTrackers F quotas (listed.map (resolveInstanceType types)) = .ok trackers)
      (run : Prog.Reaches (quotaService F) ⟨w, trackers⟩
        (placeMachines c (listed.map (resolveInstanceType types)) nodes
          (pendingMachines (listed.map (resolveInstanceType types)) volumesNotReady
            imagesNotReady)) s rest) :
      QuotaStep F checks quotas w (.tick types) s.machines

inductive QuotaRun (F : GoFloat) (checks : OtherChecks) (quotas : List MachineQuota)
    (G : Machines → Action → Prop) (w : Machines) : Machines → Prop
  | refl : QuotaRun F checks quotas G w w
  | snoc {w₁ w₂ : Machines} {act : Action} (run : QuotaRun F checks quotas G w w₁)
      (meets : G w₁ act) (step : QuotaStep F checks quotas w₁ act w₂) :
      QuotaRun F checks quotas G w w₂

variable (F : GoFloat) (quotas : List MachineQuota)

/-- The exact usage is within every limit. -/
def WithinLimits (w : Machines) : Prop :=
  ∀ q ∈ quotas, ∀ d L, q.limit F d = some L → (usage F d q.namespace w.rows : Int) ≤ L

/-- Where a quota limits it, the tally of the source can hold `n`. -/
def Representable (ns : String) (d : Dim) (n : Int) : Prop :=
  ∀ q ∈ quotas, q.namespace = ns → (q.limit F d).isSome = true → d.fits n

/-- The Machine would be admitted, by sums that do not wrap around. -/
structure Enters (w : Machines) (m : Machine) : Prop where
  representable : ∀ d, Representable F quotas m.key.namespace d
    (usage F d m.key.namespace w.rows + amount F d m)
  admitted : ∃ trackers, admitQuota F (seedTrackers F quotas w.rows) m = .ok trackers

def machineIsLive (m : Machine) : Bool :=
  !m.metadata.deleting && m.desiredPowerState != "Stopped" && m.desiredPowerState != "Halted"

def demand (d : Dim) (ns : String) (machines : List Machine) : ℕ :=
  ((machines.filter machineIsLive).map (share F d ns)).sum

/-- The condition on a step: the tallies do not wrap around, and a Machine that comes to count by
an update or a change of its power state would be admitted. -/
def Orderly (w : Machines) : Action → Prop
  | .create m =>
    machineCountsTowardQuota m = true → ∀ d, Representable F quotas m.key.namespace d
      (usage F d m.key.namespace w.rows + amount F d m)
  | .update new => ∀ old, w.find new.key = some old → machineCountsTowardQuota new = true →
    if machineCountsTowardQuota old then
      ∀ d, Representable F quotas new.key.namespace d
        (usage F d new.key.namespace w.rows - amount F d old + amount F d new)
    else Enters F quotas w new
  | .power k state => ∀ old, w.find k = some old →
    machineCountsTowardQuota (withPower old state) = true →
      machineCountsTowardQuota old = false → Enters F quotas w (withPower old state)
  | .tick types => ∀ ns d, Representable F quotas ns d
      (demand F d ns (w.rows.map (resolveInstanceType types)))

end Kairon.Controller
