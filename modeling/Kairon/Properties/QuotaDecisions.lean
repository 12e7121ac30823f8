import Kairon.Properties.QuotaLimits

/-!
# What a quota decides

The decisions of `admitQuota` and `AdmitQuotaResize` next to the exact sums, after any calls of
`admitQuota` on the same trackers.

* `decision_exact_iff`: when admission decides by the exact sums
* `shrinking_admitted_iff`: when a resize is not refused for what it gives back
* `quotaBlocksResize_eq`: agent and webhook decide alike
-/

namespace Kairon.Controller

open Infra Model Cluster List

variable {F : GoFloat} {quotas : List MachineQuota} {machines done : List Machine}
  {trackers : List QuotaTracker} {t : QuotaTracker} {d : Dim} {ns : String} {m : Machine}

/-! ## Limits that can be read -/

theorem exists_of_quantityError {α : Type} {text intro : String} {parsed : Except String α}
    (h : quantityError text parsed intro = none) (hset : text ≠ "") :
    ∃ n, parsed.toOption = some n := by
  cases parsed with
  | ok n => exact ⟨n, rfl⟩
  | error e => simp [quantityError, hset] at h

theorem exceeds_iff (hread : t.limitError F = none) :
    t.Exceeds F d ↔ ∃ L, t.quota.limit F d = some L ∧ L < t.tally d := by
  constructor
  · intro h
    simp only [QuotaTracker.limitError, Option.orElse_eq_orElse, Option.orElse_eq_or,
      Option.or_eq_none_iff] at hread
    obtain ⟨hcpu, hmemory⟩ := hread
    cases d with
    | machines =>
      obtain ⟨L, hL, hlt⟩ := (Option.any_eq_true _ _).mp h
      exact ⟨L, hL, of_decide_eq_true hlt⟩
    | cpu =>
      obtain ⟨n, hn⟩ := exists_of_quantityError hcpu h.1
      have hlimit : t.quota.spec.cpuLimit F = n := by simp [MachineQuotaSpec.cpuLimit, hn]
      refine ⟨n.toNat, by simp [MachineQuota.limit, h.1, hn], ?_⟩
      exact Int.ofNat_lt.mpr (UInt32.lt_iff_toNat_lt.mp (hlimit ▸ h.2))
    | memory =>
      obtain ⟨n, hn⟩ := exists_of_quantityError hmemory h.1
      have hlimit : t.quota.spec.memoryLimit F = n := by simp [MachineQuotaSpec.memoryLimit, hn]
      refine ⟨n.toNat, by simp [MachineQuota.limit, h.1, hn], ?_⟩
      exact Int.ofNat_lt.mpr (UInt64.lt_iff_toNat_lt.mp (hlimit ▸ h.2))
  · rintro ⟨L, hL, hlt⟩
    by_contra h
    exact absurd (le_limit h hL) (not_le.mpr hlt)

/-! ## The calls in order -/

variable (F) in
def admitEach (trackers : List QuotaTracker) : List Machine → List QuotaTracker × List Machine
  | [] => (trackers, [])
  | m :: ms =>
    match admitQuota F trackers m with
    | .error _ => admitEach trackers ms
    | .ok trackers' => ((admitEach trackers' ms).1, m :: (admitEach trackers' ms).2)

variable (F machines) in
/-- The exact sum over the Machines of a namespace that are counted and those admitted since. -/
def total (done : List Machine) (d : Dim) (ns : String) : ℕ :=
  usage F d ns machines + (done.map (share F d ns)).sum

variable (F quotas machines) in
structure Tracks (done : List Machine) (trackers : List QuotaTracker) : Prop where
  tracked : trackers.map QuotaTracker.quota = quotas
  readable : ∀ t ∈ trackers, t.limitError F = none
  tally : ∀ t ∈ trackers, ∀ d, t.tally d = d.hold (total F machines done d t.quota.namespace)

namespace Tracks

theorem start (h : buildQuotaTrackers F quotas machines = .ok trackers) :
    Tracks F quotas machines [] trackers := by
  have hread : (seedTrackers F quotas machines).findSome? (·.limitError F) = none := by
    simp only [buildQuotaTrackers] at h
    split at h
    · cases h
    · assumption
  obtain rfl := buildQuotaTrackers_ok h
  refine ⟨?_, List.findSome?_eq_none_iff.mp hread, fun t ht d => ?_⟩
  · rw [seedTrackers_eq, map_map]
    exact (map_congr_left fun q _ => quota_seedTracker _).trans (map_id _)
  · simp [total, (tally_seedTrackers ht).2]

theorem spendOn_all (h : Tracks F quotas machines done trackers) (m : Machine) :
    Tracks F quotas machines (done ++ [m]) (trackers.map (spendOn F · m)) where
  tracked := by
    rw [map_map, ← h.tracked]
    exact map_congr_left fun t _ => quota_spendOn
  readable := by
    refine forall_mem_map.mpr fun t ht => ?_
    have hread := h.readable t ht
    simpa only [QuotaTracker.limitError, QuotaTracker.label, quota_spendOn] using hread
  tally := by
    refine forall_mem_map.mpr fun t ht d => ?_
    rw [tally_spendOn, h.tally t ht d, Dim.hold_add, quota_spendOn]
    simp [total, add_assoc]

theorem run (h : Tracks F quotas machines done trackers) (ms : List Machine) :
    Tracks F quotas machines (done ++ (admitEach F trackers ms).2) (admitEach F trackers ms).1 := by
  induction ms generalizing done trackers with
  | nil => simpa [admitEach] using h
  | cons m ms ih =>
    cases ha : admitQuota F trackers m with
    | error e =>
      simp only [admitEach, ha]
      exact ih h
    | ok trackers' =>
      obtain ⟨rfl, -⟩ := admitQuota_ok ha
      simp only [admitEach, ha]
      rw [append_cons]
      exact ih (h.spendOn_all m)

end Tracks

/-! ## The decisions -/

variable (F quotas) in
/-- What holds of the limits of all quotas of a namespace. -/
def EachLimit (ns : String) (P : Dim → Int → Prop) : Prop :=
  ∀ q ∈ quotas, q.namespace = ns → ∀ d L, q.limit F d = some L → P d L

theorem Tracks.none_exceeds_iff (h : Tracks F quotas machines done trackers) {n : Dim → Int}
    {f : QuotaTracker → QuotaTracker} (p : Dim → Prop) (hquota : ∀ t, (f t).quota = t.quota)
    (htally : ∀ t ∈ trackersIn ns trackers, ∀ d, (f t).tally d = n d) :
    (∀ t ∈ trackersIn ns trackers, ∀ d, p d → ¬ (f t).Exceeds F d) ↔
      EachLimit F quotas ns fun d L => p d → n d ≤ L := by
  have each : ∀ t ∈ trackersIn ns trackers, ∀ d,
      ¬ (f t).Exceeds F d ↔ ∀ L, t.quota.limit F d = some L → n d ≤ L := by
    intro t ht d
    have hread : (f t).limitError F = none := by
      have := h.readable t (mem_trackersIn.mp ht).1
      simpa only [QuotaTracker.limitError, QuotaTracker.label, hquota] using this
    rw [exceeds_iff hread, hquota, htally t ht d]
    simp
  constructor
  · intro hnone q hq hns d L hL hp
    rw [← h.tracked] at hq
    obtain ⟨t, ht, rfl⟩ := mem_map.mp hq
    have hin := mem_trackersIn.mpr ⟨ht, hns⟩
    exact (each t hin d).mp (hnone t hin d hp) L hL
  · intro hlimits t ht d hp
    obtain ⟨hmem, hns⟩ := mem_trackersIn.mp ht
    refine (each t ht d).mpr fun L hL => hlimits t.quota ?_ hns d L hL hp
    rw [← h.tracked]
    exact mem_map_of_mem hmem

theorem admits_iff {trackers : List QuotaTracker} : (∃ after, admitQuota F trackers m = .ok after) ↔
      ∀ t ∈ trackersIn m.key.namespace trackers, ∀ d,
        ¬ (t.spend (machineFootprint F m)).Exceeds F d := by
  simp only [← blocker_eq_none_iff]
  unfold admitQuota
  rw [← List.findSome?_eq_none_iff]
  split <;> simp_all

/-- After any calls, `admitQuota` decides by the exact sums and spends on the trackers of the
namespace alone, exactly when sums that are all within the limits as the source holds them do not
wrap around. -/
theorem decision_exact_iff (hbuilt : buildQuotaTrackers F quotas machines = .ok trackers)
    (calls : List Machine) (m : Machine) : let run := admitEach F trackers calls
    let sum := fun d => total F machines run.2 d m.key.namespace + amount F d m
    (((∃ after, admitQuota F run.1 m = .ok after) ↔
        EachLimit F quotas m.key.namespace fun d L => (sum d : Int) ≤ L) ∧
      ∀ after, admitQuota F run.1 m = .ok after → after = run.1.map (spendOn F · m)) ↔
    ((EachLimit F quotas m.key.namespace fun d L => d.hold (sum d) ≤ L) →
      EachLimit F quotas m.key.namespace fun d _ => d.fits (sum d)) := by
  intro run sum
  have htracks : Tracks F quotas machines run.2 run.1 := (Tracks.start hbuilt).run calls
  have hadmits : (∃ after, admitQuota F run.1 m = .ok after) ↔
      EachLimit F quotas m.key.namespace fun d L => d.hold (sum d) ≤ L := by
    have htally : ∀ t ∈ trackersIn m.key.namespace run.1, ∀ d,
        (t.spend (machineFootprint F m)).tally d = d.hold (sum d) := by
      intro t ht d
      obtain ⟨hmem, hns⟩ := mem_trackersIn.mp ht
      rw [tally_spend, htracks.tally t hmem d, Dim.hold_add, hns]
      simp [sum]
    rw [admits_iff]
    simpa using htracks.none_exceeds_iff (f := fun t => t.spend (machineFootprint F m))
      (fun _ => True) (fun _ => rfl) htally
  have hspends : ∀ after, admitQuota F run.1 m = .ok after → after = run.1.map (spendOn F · m) :=
    fun after h => (admitQuota_ok h).1
  rw [hadmits, and_iff_left hspends]
  constructor
  · intro hexact hheld q hq hns d L hL
    exact (fits_limit hL).mono (hexact.mp hheld q hq hns d L hL)
  · intro hfits
    constructor
    · intro hheld q hq hns d L hL
      have hle : d.hold (sum d) ≤ L := hheld q hq hns d L hL
      rwa [(hfits hheld q hq hns d L hL).hold_eq] at hle
    · intro hexact q hq hns d L hL
      have hle : (sum d : Int) ≤ L := hexact q hq hns d L hL
      rwa [((fits_limit hL).mono hle).hold_eq]

theorem small_decided :
    ∃ trackers, buildQuotaTrackers wholeNumbers fourCores [runningVM] = .ok trackers ∧
      ((∃ after, admitQuota wholeNumbers trackers newVM = .ok after) ↔
        EachLimit wholeNumbers fourCores "default" fun d L =>
          ((total wholeNumbers [runningVM] [] d "default" + amount wholeNumbers d newVM : ℕ) : Int)
            ≤ L) := by
  refine ⟨_, rfl, ((decision_exact_iff rfl [] newVM).mpr fun _ q _ _ d L _ => ?_).1⟩
  cases d with
  | machines => trivial
  | cpu | memory =>
    change (_ : Int) < _
    decide +kernel

def halfVM (name node : String) : Machine :=
  plainMachine name node { twoCores with cpu := "2147483648" }

def halfOfAll : List MachineQuota := [⟨"default", "cores", ⟨none, "2147483648", ""⟩⟩]

/-- Two requests of half of all cores there can be add up to none. -/
theorem wrapped_sum_admitted : ∃ trackers after,
      buildQuotaTrackers wholeNumbers halfOfAll [halfVM "a" "node-a"] = .ok trackers ∧
        admitQuota wholeNumbers trackers (halfVM "b" "") = .ok after ∧
        ¬ EachLimit wholeNumbers halfOfAll "default" fun d L =>
          ((total wholeNumbers [halfVM "a" "node-a"] [] d "default" +
            amount wholeNumbers d (halfVM "b" "") : ℕ) : Int) ≤ L := by
  refine ⟨_, _, rfl, rfl, fun h => ?_⟩
  have := h _ mem_cons_self rfl .cpu 2147483648 (by decide +kernel)
  revert this
  decide +kernel

/-- A dimension that does not grow is no ground to refuse a resize exactly when the sums in such
dimensions are within the limits, whatever the Machine gives back. -/
theorem shrinking_admitted_iff (hbuilt : buildQuotaTrackers F quotas machines = .ok trackers)
    (ns : String) (old new : UInt32 × UInt64) :
    ((new.1 ≤ old.1 ∧ new.2 ≤ old.2 → admitQuotaResize F trackers ns old new = none) ∧
      ∀ t ∈ trackersIn ns trackers, ∀ d, d ≠ .machines ∧ d.part new ≤ d.part old →
        ¬ (t.resize old new).Exceeds F d) ↔
    EachLimit F quotas ns fun d L => d ≠ .machines ∧ d.part new ≤ d.part old →
      d.hold (usage F d ns machines - d.part old + d.part new) ≤ L := by
  have htracks := Tracks.start hbuilt
  rw [← htracks.none_exceeds_iff (f := fun t => t.resize old new) _ (fun _ => rfl)]
  · refine and_iff_right_of_imp fun hnone hsmall => ?_
    refine List.findSome?_eq_none_iff.mpr fun t ht => resizeBlocker_eq_none_iff.mpr fun d hd => ?_
    refine hnone t ht d ⟨hd, ?_⟩
    cases d with
    | machines => exact absurd rfl hd
    | cpu => exact UInt32.le_iff_toNat_le.mp hsmall.1
    | memory => exact UInt64.le_iff_toNat_le.mp hsmall.2
  · intro t ht d
    obtain ⟨hmem, hns⟩ := mem_trackersIn.mp ht
    have htally : t.tally d = d.hold (usage F d ns machines) := by
      simpa [total, hns] using htracks.tally t hmem d
    rw [tally_resize, htally, sub_add_eq_add_sub, add_sub_assoc, Dim.hold_add]
    congr 1
    omega

theorem core_given_back :
    ∃ trackers, buildQuotaTrackers wholeNumbers fourCores [runningVM] = .ok trackers ∧
      admitQuotaResize wholeNumbers trackers "default" (2, 2048) (1, 2048) = none := by
  have hbuilt : buildQuotaTrackers wholeNumbers fourCores [runningVM] =
      .ok (seedTrackers wholeNumbers fourCores [runningVM]) := rfl
  refine ⟨_, hbuilt, ((shrinking_admitted_iff hbuilt _ _ _).mpr ?_).1 (by decide)⟩
  rintro q hq - d L hL -
  obtain rfl := mem_singleton.mp hq
  cases d with
  | machines => cases hL
  | memory => cases hL
  | cpu =>
    obtain ⟨-, rfl⟩ := limit_cpu hL
    decide +kernel

/-- The namespace is above its quota, and the Machine may not give back one of its six cores. -/
theorem shrinking_refused : ∃ trackers, buildQuotaTrackers wholeNumbers fourCores
        [plainMachine "vm" "node-a" { twoCores with cpu := "6" }] = .ok trackers ∧
      (admitQuotaResize wholeNumbers trackers "default" (6, 2048) (5, 2048)).isSome = true :=
  ⟨_, rfl, by decide +kernel⟩

/-! ## The check of the agent -/

theorem ext_tally {t' : QuotaTracker} (hquota : t.quota = t'.quota)
    (htally : ∀ d, t.tally d = t'.tally d) : t = t' := by
  obtain ⟨q, n, cpu, memory⟩ := t
  obtain ⟨q', n', cpu', memory'⟩ := t'
  obtain rfl : q = q' := hquota
  obtain rfl : n = n' := htally .machines
  obtain rfl : cpu = cpu' := UInt32.toNat_inj.mp (Int.ofNat_inj.mp (htally .cpu))
  obtain rfl : memory = memory' := UInt64.toNat_inj.mp (Int.ofNat_inj.mp (htally .memory))
  rfl

theorem resizeBlocker_congr {t' : QuotaTracker} {old new old' new' : UInt32 × UInt64}
    (h : t.resize old new = t'.resize old' new') :
    t.resizeBlocker F old new = t'.resizeBlocker F old' new' := by
  obtain ⟨hquota, hused⟩ := QuotaTracker.mk.inj h
  obtain ⟨-, hcpu, hmemory⟩ := MachineQuotaStatus.mk.inj hused
  unfold QuotaTracker.resizeBlocker QuotaTracker.label
  rw [hquota, hcpu, hmemory]

/-- The agent finds the Machine tallied as it has become, so that what it passes as the old and as
the new footprint does not matter. -/
theorem resize_seedTracker {old new : Machine} {others before after : List Machine}
    {q : MachineQuota} (hns : q.namespace = old.key.namespace) (hkey : new.key = old.key)
    (hold : machineCountsTowardQuota old = true) (hnew : machineCountsTowardQuota new = true)
    (hbefore : before.Perm (old :: others)) (hafter : after.Perm (new :: others))
    (target : UInt32 × UInt64) : (seedTracker F after q).resize target target =
      (seedTracker F before q).resize (machineFootprint F old) (machineFootprint F new) := by
  refine ext_tally ((quota_seedTracker _).trans (quota_seedTracker _).symm) fun d => ?_
  have hsum : ∀ (m : Machine) (ms : List Machine), ms.Perm (m :: others) → m.key = old.key →
      machineCountsTowardQuota m = true → (seedTracker F ms q).tally d =
        d.hold (amount F d m + usage F d q.namespace others) := by
    intro m ms hperm hkey hcounts
    rw [tally_seedTracker, usage_perm hperm, usage, map_cons, sum_cons, charge_of_counts hcounts,
      share_of_eq (hns.trans (hkey ▸ rfl)), usage, Int.natCast_add]
  rw [tally_resize, sub_add_cancel, hold_tally, hsum new after hafter hkey hnew, tally_resize,
    hsum old before hbefore rfl hold, ← amount_eq_part, ← amount_eq_part, sub_add_eq_add_sub,
    add_sub_assoc, Dim.hold_add]
  congr 1
  omega

theorem admitQuotaResize_seed (old new : UInt32 × UInt64) :
    admitQuotaResize F (seedTrackers F quotas machines) ns old new =
      ((quotas.filter (·.namespace = ns)).map fun q =>
        (seedTracker F machines q).resizeBlocker F old new).findSome? id := by
  simp only [admitQuotaResize, trackersIn, seedTrackers_eq, filter_map, findSome?_map,
    Function.comp_def, quota_seedTracker]
  rfl

theorem limitError_seedTrackers : (seedTrackers F quotas machines).findSome? (·.limitError F) =
    quotas.findSome? fun q => (⟨q, ⟨0, 0, 0⟩⟩ : QuotaTracker).limitError F := by
  simp only [seedTrackers_eq, findSome?_map, Function.comp_def, QuotaTracker.limitError,
    QuotaTracker.label, quota_seedTracker]

/-- The agent blocks a resize, with the reason that the webhook gives to deny it, whatever it takes
for the footprint. -/
theorem quotaBlocksResize_eq {old : Machine} {resources : ResourceSpec}
    {others before after : List Machine} (hold : machineCountsTowardQuota old = true)
    (hbefore : before.Perm (old :: others)) :
    let new := { old with spec := { old.spec with resources } }
    after.Perm (new :: others) → ∀ target, quotaBlocksResize F (.ok quotas) (.ok after) new target =
        match quotaTrackersForNamespace F (.ok quotas) (.ok before) with
        | .ok (some trackers) => admitQuotaResize F trackers new.key.namespace
            (machineFootprint F old) (machineFootprint F new)
        | _ => none := by
  intro new hafter target
  have hnew : machineCountsTowardQuota new = true := hold
  have hkey : new.key = old.key := rfl
  clear_value new
  cases quotas with
  | nil => simp only [quotaBlocksResize, quotaTrackersForNamespace, ite_self]
  | cons q qs =>
    simp only [quotaBlocksResize, hnew, quotaTrackersForNamespace, buildQuotaTrackers,
      limitError_seedTrackers]
    cases (q :: qs).findSome? fun q => (⟨q, ⟨0, 0, 0⟩⟩ : QuotaTracker).limitError F with
    | some e => rfl
    | none =>
      simp only [Except.map, Bool.not_true, Bool.false_eq_true, if_false, admitQuotaResize_seed]
      refine congrArg _ (map_congr_left fun q hq => resizeBlocker_congr ?_)
      rw [hkey] at hq
      exact resize_seedTracker (of_decide_eq_true (mem_filter.mp hq).2) hkey hold hnew hbefore
        hafter _

def grownVM : Machine := plainMachine "vm" "node-a" { twoCores with cpu := "6" }

theorem growth_blocked : quotaBlocksResize wholeNumbers (.ok fourCores) (.ok [grownVM]) grownVM
    (6, 2048) = some "MachineQuota default/cores: maxTotalCpu \"4\" reached" := by
  have hbefore : [runningVM].Perm [runningVM] := .refl _
  exact (quotaBlocksResize_eq rfl hbefore (.refl _) _).trans (by decide +kernel)

end Kairon.Controller
