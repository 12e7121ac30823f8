import Kairon.Properties.NodeCapacity

/-!
# Machines that are resumed after a preemption

A Machine that preemption has halted is resumed on its node without the scheduler, and its
preemptor counts as gone if it has no node and a phase other than `Pending`.

* `resumeEach_fit_iff`: the Machines of a plan, one after another
* `resumed_safely_iff`: when all of them are resumed safely
-/

namespace Kairon.Scheduler

open Infra GoText Model Cluster Controller List Preempt

variable {F : GoFloat} {nodes : List Node}

def runs (m : Machine) : Bool := !m.metadata.deleting && m.desiredPowerState == "Running"

variable (F) in
def Resource.at (r : Resource) (nodeName : String) (m : Machine) : Int :=
  if m.spec.nodeName = nodeName then r.request F m else 0

variable (F) in
/-- What the Machines request that run on a node. -/
def running (w : Table Machine.key) (r : Resource) (nodeName : String) : Int :=
  (w.rows.map fun m => if runs m then r.at F nodeName m else 0).sum

variable (F nodes) in
/-- The node of the Machine has room for it beside what is used. -/
def FitsBeside (used : Resource → String → Int) (v : Machine) : Prop :=
  ∀ n ∈ nodes, n.name = v.spec.nodeName → ∀ alloc, nodeAllocatable F n = some alloc →
    ∀ r : Resource, used r n.name + r.request F v ≤ r.of alloc

variable (F nodes) in
/-- There is room for one Machine after the other. -/
def FitEach (used : Resource → String → Int) : List Machine → Prop
  | [] => True
  | v :: vs => FitsBeside F nodes used v ∧ FitEach (fun r name => used r name + r.at F name v) vs

/-- The patches of the resumes that work: each Machine with the store that it is resumed in. -/
def resumeEach (works : Machine → Bool) (w : Table Machine.key) :
    List Machine → List (Table Machine.key × Machine)
  | [] => []
  | v :: vs =>
    if works v then
      (w, v) :: resumeEach works (w.edit v.key (·.patch resumePatch) (·.key_patch _)) vs
    else resumeEach works w vs

/-- The preemptor of the Machine is still to be placed, before the Machine. -/
def awaited (machines : List Machine) (v : Machine) : Bool :=
  (preemptorOf machines v).any fun p => waits p && !equalFold p.desiredPowerState "Halted" &&
    !equalFold p.desiredPowerState "Stopped" && decide (v.spec.priority < p.spec.priority)

variable {w : Table Machine.key} {works : Machine → Bool} {v : Machine} {vs : List Machine}

theorem not_runs_of_marked (h : marked v = true) : runs v = false := by
  have hhalted : equalFold v.spec.powerState "Halted" = true := by
    simp only [marked, Bool.and_eq_true] at h
    exact h.1.2
  rw [runs, Machine.desiredPowerState, Bool.and_eq_false_iff]
  refine .inr (beq_eq_false_iff_ne.mpr fun hrunning => ?_)
  split at hrunning
  · next hempty =>
    rw [hempty] at hhalted
    exact absurd hhalted (by decide)
  · rw [hrunning] at hhalted
    exact absurd hhalted (by decide)

theorem runs_resumed (h : marked v = true) : runs (v.patch resumePatch) = true := by
  simp only [marked, Bool.and_eq_true] at h
  simpa [runs, Machine.desiredPowerState, Machine.patch, resumePatch] using h.1.1.2

theorem running_resumed (hv : w.find v.key = some v) (h : marked v = true) :
    running F (w.edit v.key (·.patch resumePatch) (·.key_patch _)) =
      fun r name => running F w r name + r.at F name v := by
  funext r name
  have hsum : running F (w.edit v.key (·.patch resumePatch) (·.key_patch _)) r name + _ =
      running F w r name + _ := Table.sum_edit hv _
  simp only [not_runs_of_marked h, runs_resumed h, Bool.false_eq_true, if_false, if_true,
    add_zero] at hsum
  exact hsum

theorem map_resumeEach : (resumeEach works w vs).map Prod.snd = vs.filter works := by
  induction vs generalizing w with
  | nil => rfl
  | cons v vs ih =>
    rw [resumeEach, filter_cons]
    split
    · rw [map_cons, ih]
    · exact ih

theorem resumeEach_fit_iff (hfind : ∀ v ∈ vs, w.find v.key = some v)
    (hmarked : ∀ v ∈ vs, marked v = true) (hdistinct : (vs.map Machine.key).Nodup) :
    (∀ e ∈ resumeEach works w vs, FitsBeside F nodes (running F e.1) e.2) ↔
      FitEach F nodes (running F w) (vs.filter works) := by
  induction vs generalizing w with
  | nil => simp [resumeEach, FitEach]
  | cons v vs ih =>
    obtain ⟨hv, hfind⟩ := forall_mem_cons.mp hfind
    obtain ⟨hm, hmarked⟩ := forall_mem_cons.mp hmarked
    obtain ⟨hnew, hdistinct⟩ := nodup_cons.mp hdistinct
    rw [resumeEach, filter_cons]
    split
    · rw [forall_mem_cons, FitEach, ← running_resumed hv hm]
      refine and_congr_right fun _ => ih (fun u hu => ?_) hmarked hdistinct
      have hkey : u.key ≠ v.key := fun hkey => hnew (hkey ▸ mem_map_of_mem hu)
      rw [Table.find_edit, if_neg hkey]
      exact hfind u hu
    · exact ih hfind hmarked hdistinct

theorem mem_resumePlan : v ∈ resumePlan machines ↔
    v ∈ machines ∧ marked v = true ∧ (preemptorOf machines v).all preemptorReleased = true := by
  rw [resumePlan, mem_mergeSort, mem_filter, Bool.and_eq_true]

theorem released_of_awaited (h : awaited machines v = true) :
    (preemptorOf machines v).all preemptorReleased =
      !(preemptorOf machines v).any fun p => equalFold p.status.phase "Pending" := by
  unfold awaited at h
  cases hp : preemptorOf machines v with
  | none => simp [hp] at h
  | some p =>
    simp only [hp, Option.any_some, Bool.and_eq_true, waits] at h
    simp only [Option.all_some, Option.any_some, preemptorReleased]
    simp_all

/-- Every resumed Machine fits on its node beside those that run there then, and does not take the
place of its preemptor, exactly when there is room for all of them at the start and the preemptors
that are still to be placed have the phase `Pending`. -/
theorem resumed_safely_iff {listed : Table Machine.key}
    (hkept : ∀ v ∈ resumePlan listed.rows, w.find v.key = some v) :
    (∀ e ∈ resumeEach works w (resumePlan listed.rows),
        FitsBeside F nodes (running F e.1) e.2 ∧ awaited listed.rows e.2 = false) ↔
      FitEach F nodes (running F w) ((resumePlan listed.rows).filter works) ∧
        ∀ v ∈ listed.rows, marked v = true → works v = true → awaited listed.rows v = true →
          (preemptorOf listed.rows v).any fun p => equalFold p.status.phase "Pending" := by
  have hdistinct : ((resumePlan listed.rows).map Machine.key).Nodup :=
    ((mergeSort_perm _ _).map _).nodup_iff.mpr
      (listed.distinct.sublist (filter_sublist.map _))
  rw [← resumeEach_fit_iff hkept (fun v hv => (mem_resumePlan.mp hv).2.1) hdistinct]
  have hawaited : (∀ e ∈ resumeEach works w (resumePlan listed.rows),
      awaited listed.rows e.2 = false) ↔
      ∀ v ∈ (resumePlan listed.rows).filter works, awaited listed.rows v = false := by
    rw [← map_resumeEach (w := w), forall_mem_map]
  rw [forall₂_and, hawaited]
  refine and_congr_right fun _ => ⟨fun h v hv hm hw ha => ?_, fun h v hv => ?_⟩
  · by_contra hphase
    rw [Bool.not_eq_true] at hphase
    have hplan : v ∈ resumePlan listed.rows := by
      refine mem_resumePlan.mpr ⟨hv, hm, ?_⟩
      rw [released_of_awaited ha, hphase]
      rfl
    simp [h v (mem_filter.mpr ⟨hplan, hw⟩)] at ha
  · obtain ⟨hplan, hw⟩ := mem_filter.mp hv
    obtain ⟨hmem, hm, hreleased⟩ := mem_resumePlan.mp hplan
    by_contra ha
    rw [Bool.not_eq_false] at ha
    simp [released_of_awaited ha, h v hmem hm hw ha] at hreleased

/-! ## A victim whose place is taken -/

def halted : Machine :=
  let m := plainMachine "halted" "node-a" twoCores
  { m with
    metadata := { m.metadata with annotations := [(annPreemptedBy, "default/urgent")] }
    spec := { m.spec with powerState := "Halted" } }

def alone : Table Machine.key := ⟨[halted], by decide⟩

def withWeb : Table Machine.key := ⟨[halted, plainMachine "web" "node-a" twoCores], by decide⟩

def withUrgent : Table Machine.key := ⟨[halted, urgent], by decide⟩

def twoGiB : Node := ⟨"node-a", [], [("cpu", "2"), ("memory", "2Gi")]⟩

def always (_ : Machine) : Bool := true

theorem resumeEach_of_plan (h : resumePlan w.rows = [halted]) :
    resumeEach always w (resumePlan w.rows) = [(w, halted)] := by
  rw [h]
  rfl

theorem resumed_alone : resumeEach always alone (resumePlan alone.rows) = [(alone, halted)] ∧
      FitsBeside wholeNumbers [twoGiB] (running wholeNumbers alone) halted := by
  have hplan : resumePlan alone.rows = [halted] := by decide +kernel
  have hknown : nodeAllocatable wholeNumbers twoGiB = some (2000, 2048) := by decide +kernel
  have hroom : FitEach wholeNumbers [twoGiB] (running wholeNumbers alone)
      ((resumePlan alone.rows).filter always) := by
    rw [hplan]
    refine ⟨fun n hn _ alloc halloc r => ?_, trivial⟩
    obtain rfl := mem_singleton.mp hn
    obtain rfl := Option.some.inj (hknown.symm.trans halloc)
    cases r <;> decide +kernel
  have hkept : ∀ v ∈ resumePlan alone.rows, alone.find v.key = some v := by decide +kernel
  have hsafe := (resumed_safely_iff hkept).mpr ⟨hroom, by decide +kernel⟩
  rw [resumeEach_of_plan hplan] at hsafe ⊢
  exact ⟨rfl, (hsafe _ mem_cons_self).1⟩

/-- A Machine is resumed on a node that another one has filled up since, and one whose preemptor
waits without a phase. -/
theorem resumed_regardless :
    (withWeb, halted) ∈ resumeEach always withWeb (resumePlan withWeb.rows) ∧
      ¬ FitsBeside wholeNumbers [twoGiB] (running wholeNumbers withWeb) halted ∧
      (withUrgent, halted) ∈ resumeEach always withUrgent (resumePlan withUrgent.rows) ∧
      awaited withUrgent.rows halted = true := by
  rw [resumeEach_of_plan (by decide +kernel), resumeEach_of_plan (by decide +kernel)]
  refine ⟨mem_cons_self, fun h => ?_, mem_cons_self, by decide +kernel⟩
  have hknown : nodeAllocatable wholeNumbers twoGiB = some (2000, 2048) := by decide +kernel
  exact absurd (h twoGiB mem_cons_self rfl _ hknown .cpu) (by decide +kernel)

end Kairon.Scheduler
