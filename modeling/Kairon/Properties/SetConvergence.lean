import Kairon.Properties.Rollouts

/-!
# Convergence of MachineSets

From whatever replicas it starts, a set whose calls succeed gets those it should have and rests,
unless so many replicas may be unavailable that the number to delete is no `int` any more.

* `reconcile_cases`: what one tick does.
* `Ticked.step`: what is left to do becomes less with each tick.
* `rollout_converges_iff`: the run of ticks.
-/

namespace Kairon.Controller

open Model List

def creations : Except String SetAction → Nat
  | .ok (.create n) => n
  | _ => 0

/-- What of a replica's record stays: its key and the template it was made from. -/
def mark (m : Machine) : ObjectKey × String :=
  (m.key, m.metadata.labels.get labelMachineSetTemplateHash)

variable (ceil : (pct total : Int) → Int) (hash : MachineTemplate → String) (s : MachineSet)
  (ms : List Machine)

/-- One tick whose calls all succeed, up to the next one: what it deleted is gone, what it created
is there, and the replicas of the current template run. -/
def Ticked (ms' : List Machine) : Prop :=
  let action := reconcileMachineSet ceil hash s ms
  ∃ names : List String, names.length = creations action ∧ ((ownedMachines s ms').map mark).Perm
      ((left (ownedMachines s ms) (victims action) ++ names.map (s.replica hash)).map mark) ∧
    ∀ m ∈ upToDate hash s ms', running m = true

/-- What is left to do, with three for each outdated replica: after the last one was deleted there
may be too many or too few. -/
def remaining : Nat :=
  3 * (outdated hash s ms).length +
    if (ownedMachines s ms).length < s.replicas.toNat then 1
    else if (outdated hash s ms).length = 0 ∧ s.replicas.toNat < (upToDate hash s ms).length then 2
    else 0

variable (maxUnavailable : Int)

/-- What a rolling update may delete, as a number without bound. -/
def canDelete : Int :=
  (upToDate hash s ms).countP running + (outdated hash s ms).length -
    (s.replicas.toNat - maxUnavailable)

/-- The tick does not ask for the number to delete, or this is an `int`. -/
def Fits : Prop :=
  s.strategy = "Recreate" ∨ (ownedMachines s ms).length < s.replicas.toNat ∨
    outdated hash s ms = [] ∨ canDelete hash s ms maxUnavailable < 2 ^ 63

variable {ceil hash s ms maxUnavailable} {p : Machine → Bool} {ms' deleted : List Machine}

theorem length_left_take (n : Nat) :
    ((left ms ((ms.filter p).take n)).filter p).length ≤ (ms.filter p).length - n := by
  rw [left, filter_comm, ← length_drop]
  generalize ms.filter p = l
  have hgone : (l.take n).filter (· ∉ l.take n) = [] := by simp
  have hsplit := filter_append (p := (· ∉ l.take n)) (l.take n) (l.drop n)
  rw [take_append_drop, hgone, nil_append] at hsplit
  rw [hsplit]
  exact length_filter_le ..

theorem filter_left_of_not (h : ∀ m ∈ deleted, p m = false) :
    (left ms deleted).filter p = ms.filter p := by
  rw [left, filter_filter]
  refine filter_congr fun m _ => ?_
  by_cases hmem : m ∈ deleted <;> simp [hmem, h]

theorem Ticked.counts (h : Ticked ceil hash s ms ms') :
    let action := reconcileMachineSet ceil hash s ms
    let kept := left (ownedMachines s ms) (victims action)
    (upToDate hash s ms').length = (kept.filter (s.current hash)).length + creations action ∧
    (outdated hash s ms').length = (kept.filter fun m => !s.current hash m).length := by
  obtain ⟨names, hlen, hperm, -⟩ := h
  have hnew (name : String) : (mark (s.replica hash name)).2 = hash s.template :=
    of_decide_eq_true (current_replica s name)
  -- whether a replica is of the current template can be told from its mark
  have hcount (q : ObjectKey × String → Bool) := hperm.countP_eq q
  simp only [countP_map, countP_append] at hcount
  have hcurrent := hcount fun k => k.2 = hash s.template
  have houtdated := hcount fun k => !(k.2 = hash s.template : Bool)
  simp only [upToDate, outdated, ← countP_eq_length_filter]
  constructor
  · refine hcurrent.trans (congrArg _ ?_)
    rw [← hlen, countP_eq_length]
    simp [hnew]
  · refine houtdated.trans (Nat.add_eq_left.mpr (countP_eq_zero.mpr fun name _ => ?_))
    simp [hnew]

variable (hmax : resolveMaxUnavailable ceil s.maxUnavailable s.replicas.toNat = .ok maxUnavailable)
include hmax

/-- What a tick does: it makes up the number, deletes outdated replicas, at least one of them if the
others run, or deletes the surplus. -/
theorem reconcile_cases (hlen : (ownedMachines s ms).length < 2 ^ 63)
    (hfits : Fits hash s ms maxUnavailable) : let action := reconcileMachineSet ceil hash s ms
    let c := (upToDate hash s ms).length
    let o := (outdated hash s ms).length
    c + o < s.replicas.toNat ∧ action = .ok (.create (s.replicas.toNat - (c + o))) ∨
    s.replicas.toNat ≤ c + o ∧ creations action = 0 ∧ (
      outdated hash s ms ≠ [] ∧ (∃ n, victims action = (outdated hash s ms).take n ∧
        ((∀ m ∈ upToDate hash s ms, running m = true) → 0 < n) ∧
        (s.strategy ≠ "Recreate" → canDelete hash s ms maxUnavailable ≤ n)) ∨
      outdated hash s ms = [] ∧ victims action = (upToDate hash s ms).take (c - s.replicas.toNat) ∧
        (c = s.replicas.toNat → action = .ok .rest)) := by
  have hone := one_le_maxUnavailable hmax
  have hready := countP_le_length (p := running) (l := upToDate hash s ms)
  have hstep : reconcileMachineSet ceil hash s ms = stepMachineSetToward ceil s
    (if s.strategy = "" then "RollingUpdate" else s.strategy) s.replicas.toNat (upToDate hash s ms)
      (outdated hash s ms) ((upToDate hash s ms).countP running) := rfl
  rw [length_owned hash] at hlen
  simp only [Fits, canDelete, length_owned hash] at hfits ⊢
  rw [← countP_eq_length, hstep]
  generalize upToDate hash s ms = current, outdated hash s ms = outdated at *
  simp only [stepMachineSetToward, hmax, effective_recreate_iff]
  by_cases htotal : current.length + outdated.length < s.replicas.toNat
  · simp [htotal]
  refine .inr ⟨not_lt.mp htotal, ?_⟩
  rw [if_neg htotal]
  by_cases hout : outdated = []
  · simp only [hout, ne_eq, not_true_eq_false, if_false, ite_self, false_and, true_and, false_or]
    by_cases hmore : current.length > s.replicas.toNat
    · simp [hmore, hmore.ne', creations, victims]
    · simp [hmore, Nat.sub_eq_zero_of_le (not_lt.mp hmore), creations, victims]
  · simp only [hout, ne_eq, not_false_eq_true, if_true, true_and, false_and, or_false]
    split
    · next hre =>
      exact ⟨rfl, _, (take_length ..).symm, fun _ => length_pos_iff.mpr hout, absurd hre⟩
    · next hre =>
      simp only [hre, htotal, hout, false_or] at hfits
      rw [Int.bmod_eq_of_le (by omega) (by omega)]
      split
      · exact ⟨rfl, 0, rfl, by omega, by omega⟩
      · exact ⟨rfl, _, rfl, by omega, by omega⟩

theorem Ticked.step (hlen : (ownedMachines s ms).length < 2 ^ 63)
    (hfits : Fits hash s ms maxUnavailable) (h : Ticked ceil hash s ms ms') :
    let bound := max (ownedMachines s ms).length s.replicas.toNat
    (ownedMachines s ms).length + creations (reconcileMachineSet ceil hash s ms) ≤ bound ∧
    (ownedMachines s ms').length ≤ bound ∧ ((∀ m ∈ upToDate hash s ms, running m = true) →
      remaining hash s ms' ≤ remaining hash s ms - 1) ∧
    (maxUnavailable < 2 ^ 63 → Fits hash s ms' maxUnavailable) := by
  obtain ⟨hc, ho⟩ := h.counts
  have hrunning := countP_eq_length.mpr h.choose_spec.2.2
  simp only [remaining, length_owned hash, Fits, ← length_eq_zero_iff, canDelete, hrunning]
  rw [← countP_eq_length]
  rcases reconcile_cases hmax hlen hfits with
    ⟨htotal, haction⟩ | ⟨htotal, hcreated, ⟨hout, n, hdel, hn, hmany⟩ | ⟨hout, hdel, -⟩⟩
  · simp only [haction, victims, creations, left_nil] at hc ho ⊢
    change _ = (upToDate hash s ms).length + _ at hc
    change _ = (outdated hash s ms).length at ho
    split_ifs <;> omega
  · rw [hcreated, hdel, filter_left_of_not fun m hm => by
      simpa using (mem_filter.mp (mem_of_mem_take hm)).2] at hc
    rw [hdel] at ho
    have hfewer : _ ≤ (outdated hash s ms).length - n := ho.trans_le (length_left_take n)
    change _ = (upToDate hash s ms).length + _ at hc
    have hpos := length_pos_iff.mpr hout
    rw [← countP_eq_length] at hn
    rw [length_owned hash] at hlen
    refine ⟨by omega, by omega, by split_ifs <;> omega,
      fun _ => or_iff_not_imp_left.mpr fun hre => ?_⟩
    -- the running current replicas are no more than all of them
    have hmany := hmany hre
    rw [canDelete] at hmany
    omega
  · rw [hdel, filter_left_of_not fun m hm => by
      simpa using (mem_filter.mp (mem_of_mem_take hm)).2] at ho
    rw [hdel, hcreated] at hc
    have hfewer : _ ≤ (upToDate hash s ms).length - _ := hc.trans_le (length_left_take _)
    have hsame (h : (upToDate hash s ms).length = s.replicas.toNat) :
        (upToDate hash s ms').length = s.replicas.toNat := by
      rw [hc, h, Nat.sub_self, take_zero, left_nil]
      exact h
    change _ = (outdated hash s ms).length at ho
    rw [hout, length_nil] at htotal ho
    simp only [hout, length_nil, true_and]
    split_ifs <;> omega

/-- A set that cannot tell how many to delete stays as it is. -/
theorem Ticked.stuck (hlen : (ownedMachines s ms).length < 2 ^ 63) (hint : maxUnavailable < 2 ^ 63)
    (hfits : ¬ Fits hash s ms maxUnavailable) (h : Ticked ceil hash s ms ms') :
    (ownedMachines s ms').length < 2 ^ 63 ∧ ¬ Fits hash s ms' maxUnavailable := by
  obtain ⟨hc, ho⟩ := h.counts
  have hrunning := countP_eq_length.mpr h.choose_spec.2.2
  have hready := countP_le_length (p := running) (l := upToDate hash s ms)
  simp only [Fits, canDelete, not_or, not_lt, length_owned hash] at hfits hlen ⊢
  obtain ⟨hrolling, htotal, hout, hmany⟩ := hfits
  have hrest : reconcileMachineSet ceil hash s ms = .ok .rest := by
    change stepMachineSetToward ceil s _ _ (upToDate hash s ms) (outdated hash s ms)
      ((upToDate hash s ms).countP running) = _
    simp only [stepMachineSetToward, hmax, effective_recreate_iff, hrolling, hout, htotal.not_gt,
      if_false, if_true, ne_eq, not_false_eq_true]
    rw [if_pos]
    rw [Int.bmod_def]
    split <;> omega
  simp only [hrest, victims, creations, left_nil] at hc ho
  change _ = (upToDate hash s ms).length at hc
  change _ = (outdated hash s ms).length at ho
  rw [← length_eq_zero_iff] at hout ⊢
  exact ⟨by omega, hrolling, by omega, by omega, by omega⟩

/-- Whatever the replicas at first, in a run of ticks whose calls succeed the set comes to have
exactly the replicas it should have, all of the current template, and then rests, and there are
never more than at first or than there should be, also while a tick creates some: exactly if the
number of replicas that the first tick may delete is an `int`. -/
theorem rollout_converges_iff (hreplicas : s.replicas < 2 ^ 63) (hint : maxUnavailable < 2 ^ 63)
    (r : ℕ → List Machine) (hlen : (ownedMachines s (r 0)).length < 2 ^ 63)
    (hrun : ∀ k, Ticked ceil hash s (r k) (r (k + 1))) :
    ((∃ n, ∀ k ≥ n, reconcileMachineSet ceil hash s (r k) = .ok .rest ∧
        (upToDate hash s (r k)).length = s.replicas.toNat ∧ outdated hash s (r k) = []) ∧
      ∀ k, (ownedMachines s (r k)).length + creations (reconcileMachineSet ceil hash s (r k)) ≤
        max (ownedMachines s (r 0)).length s.replicas.toNat) ↔
    Fits hash s (r 0) maxUnavailable := by
  constructor
  · rintro ⟨⟨n, hn⟩, -⟩
    by_contra hfits
    have hstuck (k : ℕ) : (ownedMachines s (r k)).length < 2 ^ 63 ∧
        ¬ Fits hash s (r k) maxUnavailable := by
      induction k with
      | zero => exact ⟨hlen, hfits⟩
      | succ k ih => exact (hrun k).stuck hmax ih.1 hint ih.2
    exact (hstuck n).2 (.inr (.inr (.inl (hn n le_rfl).2.2)))
  intro hfits
  have hall (k : ℕ) : (ownedMachines s (r k)).length ≤
      max (ownedMachines s (r 0)).length s.replicas.toNat ∧ Fits hash s (r k) maxUnavailable := by
    induction k with
    | zero => exact ⟨le_max_left .., hfits⟩
    | succ k ih =>
      obtain ⟨-, hle, -, hnext⟩ := (hrun k).step hmax (by omega) ih.2
      exact ⟨hle.trans (max_le ih.1 (le_max_right ..)), hnext hint⟩
  have hsmall (k : ℕ) : (ownedMachines s (r k)).length < 2 ^ 63 := by
    have := (hall k).1
    omega
  have hstep k := (hrun k).step hmax (hsmall k) (hall k).2
  refine ⟨?_, fun k => (hstep k).1.trans (max_le (hall k).1 (le_max_right ..))⟩
  -- from the second tick on the current replicas run
  have hdone (k : ℕ) : remaining hash s (r (k + 1)) ≤ remaining hash s (r 1) - k := by
    induction k with
    | zero => exact le_rfl
    | succ k ih =>
      obtain ⟨-, -, -, hrunning⟩ := hrun k
      have := (hstep (k + 1)).2.2.1 hrunning
      omega
  refine ⟨remaining hash s (r 1) + 1, fun k hk => ?_⟩
  have hzero := hdone (k - 1)
  rw [Nat.sub_add_cancel (by omega), Nat.sub_eq_zero_of_le (by omega), remaining,
    length_owned hash] at hzero
  rcases reconcile_cases hmax (hsmall k) (hall k).2 with
    ⟨htotal, -⟩ | ⟨htotal, -, ⟨hout, -⟩ | ⟨hout, -, hrest⟩⟩
  · simp [htotal] at hzero
  · have := length_pos_iff.mpr hout
    omega
  · rw [hout, length_nil] at htotal hzero
    have hcount : (upToDate hash s (r k)).length = s.replicas.toNat := by
      split_ifs at hzero <;> omega
    exact ⟨hrest hcount, hcount, hout⟩

omit hmax

def rolled : ℕ → List Machine
  | 0 => [webReplica "a" "1" "Running"]
  | 1 => []
  | _ => [webReplica "b" "2" "Running"]

theorem rolled_rests : ∃ n, ∀ k ≥ n,
    reconcileMachineSet (fun _ _ => 0) version (webSet "" 1) (rolled k) = .ok .rest := by
  have hmax : resolveMaxUnavailable (fun _ _ => 0) (webSet "" 1).maxUnavailable
    (webSet "" 1).replicas.toNat = .ok 1 := by decide +kernel
  refine ((rollout_converges_iff hmax (by decide) (by decide) rolled (by decide) fun k => ?_).mpr
    ?_).1.imp fun n h k hk => (h k hk).1
  · match k with
    | 0 => exact ⟨[], by decide +kernel⟩
    | 1 => exact ⟨["b"], by decide +kernel⟩
    | _ + 2 =>
      refine ⟨[], ?_⟩
      simp only [rolled]
      decide +kernel
  · unfold Fits
    decide +kernel

def endlessSet : MachineSet := { webSet "" 3 with maxUnavailable := "9223372036854775807" }

def fourOutdated : List Machine :=
  ["a", "b", "c", "d"].map fun name => webReplica name "1" "Running"

/-- Nothing is ever deleted: the number to delete is the least `int`. -/
theorem never_rolled : ∃ r : ℕ → List Machine,
    (∀ k, Ticked (fun _ _ => 0) version endlessSet (r k) (r (k + 1))) ∧
      ∀ k, (outdated version endlessSet (r k)).length = 4 := by
  refine ⟨fun _ => fourOutdated, fun _ => ⟨[], ?_⟩, fun _ => ?_⟩ <;> beta_reduce <;> decide +kernel

end Kairon.Controller
