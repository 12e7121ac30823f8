import Kairon.Cluster.World
import Kairon.Controller.Disruption

/-!
# Rollouts of MachineSets

A rolling update counts every outdated replica as one that runs, and takes its victims in the order
of the list. With `Recreate` the number of replicas is made up before the outdated ones are looked
at, and one that is being deleted is not counted any more.

* `rollout_spares_iff`: how many running replicas a rolling update leaves.
* `created_after_older_iff`: when `Recreate` creates no replica beside an older one.
-/

namespace Kairon.Controller

open Model Cluster List

variable {ceil : (pct total : Int) → Int} {templateHash : MachineTemplate → String}
  {s : MachineSet} {machines : List Machine}

/-! ## Running replicas -/

def victims : Except String SetAction → List Machine
  | .ok (.delete ms) => ms
  | _ => []

/-- The replicas that are left once some have been deleted. -/
def left (owned deleted : List Machine) : List Machine := owned.filter (· ∉ deleted)

theorem left_nil (owned : List Machine) : left owned [] = owned := by simp [left]

theorem running_left {owned deleted : List Machine} (hdistinct : owned.Nodup)
    (hsub : deleted.Sublist owned) :
    (left owned deleted).countP running + deleted.countP running = owned.countP running := by
  have hperm : (owned.filter (· ∈ deleted)).Perm deleted :=
    (perm_ext_iff_of_nodup (hdistinct.filter _) (hdistinct.sublist hsub)).mpr fun m => by
      simpa using fun h => hsub.subset h
  have hsplit := countP_eq_countP_filter_add owned running (· ∈ deleted)
  rw [hperm.countP_eq] at hsplit
  simpa [left, Nat.add_comm] using hsplit.symm

variable (ms : List Machine)

theorem running_split (n : Nat) :
    ms.countP running = (ms.take n).countP running + (ms.drop n).countP running := by
  rw [← countP_append, take_append_drop]

/-- What a rolling update has to find: the running current replicas are enough, or of the outdated
ones those that it takes first do not run, or all others do. Without outdated replicas, enough of
the last `desired` ones run. -/
def SparesRunning (desired : Nat) (maxUnavailable : Int) (current outdated : List Machine) : Prop :=
  let needed := desired - maxUnavailable
  let first := (current.countP running + outdated.length - needed).toNat
  current.length + outdated.length < desired ∨ if outdated = [] then
      min (current.countP running : Int) needed ≤
        (current.drop (current.length - desired)).countP running
    else needed ≤ current.countP running ∨ (∀ m ∈ outdated.take first, running m = false) ∨
      ∀ m ∈ outdated.drop first, running m = true

theorem effective_recreate_iff (strategy : String) :
    (if strategy = "" then "RollingUpdate" else strategy) = "Recreate" ↔ strategy = "Recreate" := by
  split
  · next h => simp [h]
  · rfl

theorem one_le_maxUnavailable {spec : String} {desired maxUnavailable : Int}
    (hmax : resolveMaxUnavailable ceil spec desired = .ok maxUnavailable) : 1 ≤ maxUnavailable := by
  rw [resolveMaxUnavailable, Except.map.eq_def] at hmax
  split at hmax
  · cases hmax
  · cases hmax
    exact le_max_left ..

theorem step_spares_iff {strategy : String} {desired : Nat} {maxUnavailable : Int}
    {current outdated : List Machine} (hlen : current.length + outdated.length < 2 ^ 63)
    (hrolling : strategy ≠ "Recreate")
    (hmax : resolveMaxUnavailable ceil s.maxUnavailable desired = .ok maxUnavailable) :
    min (current.countP running + outdated.countP running : Int) (desired - maxUnavailable) ≤
        current.countP running + outdated.countP running - (victims (stepMachineSetToward
          ceil s strategy desired current outdated (current.countP running))).countP running ↔
      SparesRunning desired maxUnavailable current outdated := by
  have hone := one_le_maxUnavailable hmax
  simp only [stepMachineSetToward, SparesRunning, hmax, if_neg hrolling]
  split
  · next h => simp [victims, h]
  next htotal =>
  have hcurrent := running_split current (current.length - desired)
  by_cases hout : outdated = []
  · simp only [hout, ne_eq, not_true_eq_false, if_false, if_true, countP_nil]
    split
    · simp only [victims]
      omega
    · next hle =>
      have : current.length - desired = 0 := by omega
      simp [victims, this]
  simp only [hout, ne_eq, not_false_eq_true, if_true, if_false]
  generalize hneeded : (desired : Int) - maxUnavailable = needed
  have hready := countP_le_length (p := running) (l := current)
  by_cases hwrap : (current.countP running + outdated.length - needed : Int) < 2 ^ 63
  · rw [Int.bmod_eq_of_le (by omega) (by omega)]
    generalize hfirst : (current.countP running + outdated.length - needed).toNat = first
    have hvictims : victims (.ok (if (current.countP running + outdated.length - needed : Int) ≤ 0
        then .rest else .delete (outdated.take first))) = outdated.take first := by
      split
      · have : first = 0 := by omega
        simp [victims, this]
      · rfl
    have houtdated := running_split outdated first
    have htake : (outdated.take first).countP running ≤ first :=
      countP_le_length.trans (length_take_le ..)
    have hlength := countP_le_length (p := running) (l := outdated.drop first)
    have hnone : (∀ m ∈ outdated.take first, running m = false) ↔
        (outdated.take first).countP running = 0 := by simp [countP_eq_zero]
    rw [hnone, ← countP_eq_length, length_drop, hvictims]
    rw [length_drop] at hlength
    omega
  · -- so much may be unavailable that no replica is needed
    generalize Int.bmod _ _ = canDelete
    have : (victims (.ok (if canDelete ≤ 0 then .rest
        else .delete (outdated.take canDelete.toNat)))).countP running ≤
          outdated.countP running := by
      split
      · exact Nat.zero_le _
      · exact (take_sublist ..).countP_le
    exact ⟨fun _ => .inr (.inl (by omega)), fun _ => by omega⟩

/-- What one call does: it makes up the number, or deletes some of the current or of the outdated
replicas. -/
theorem step_cases (ceil s) (strategy : String) (desired ready : Nat)
    (current outdated : List Machine) :
    let action := stepMachineSetToward ceil s strategy desired current outdated ready
    let total := current.length + outdated.length
    total < desired ∧ action = .ok (.create (desired - total)) ∨
      desired ≤ total ∧ (∀ n, action ≠ .ok (.create n)) ∧
        ((victims action).Sublist current ∨ (victims action).Sublist outdated) := by
  simp only [stepMachineSetToward]
  by_cases htotal : current.length + outdated.length < desired
  · simp [htotal]
  refine .inr ⟨not_lt.mp htotal, ?_⟩
  rw [if_neg htotal]
  cases resolveMaxUnavailable ceil s.maxUnavailable desired <;> dsimp only <;> split_ifs <;>
    simp [victims, take_sublist]

variable (ceil templateHash s machines) in
theorem victims_sublist :
    (victims (reconcileMachineSet ceil templateHash s machines)).Sublist
      (ownedMachines s machines) := by
  rcases step_cases ceil s _ _ _ _ _ with ⟨-, h⟩ | ⟨-, -, h | h⟩
  · rw [reconcileMachineSet, h]
    exact nil_sublist _
  · exact h.trans filter_sublist
  · exact h.trans filter_sublist

/-- Whatever part of its deletes is carried out, a rolling update leaves as many running replicas as
it found or as are needed, exactly if it spares them. -/
theorem rollout_spares_iff {maxUnavailable : Int} (hkeys : (machines.map Machine.key).Nodup)
    (hlen : machines.length < 2 ^ 63) (hrolling : s.strategy ≠ "Recreate")
    (hmax : resolveMaxUnavailable ceil s.maxUnavailable s.replicas.toNat = .ok maxUnavailable) :
    (∀ deleted, deleted <+: victims (reconcileMachineSet ceil templateHash s machines) →
        min ((ownedMachines s machines).countP running : Int) (s.replicas.toNat - maxUnavailable) ≤
          (left (ownedMachines s machines) deleted).countP running) ↔
      SparesRunning s.replicas.toNat maxUnavailable
        ((ownedMachines s machines).filter (s.current templateHash))
        ((ownedMachines s machines).filter fun m => !s.current templateHash m) := by
  have hdistinct : (ownedMachines s machines).Nodup := (hkeys.of_map _).filter _
  have hsplit := countP_eq_countP_filter_add (ownedMachines s machines) running
    (s.current templateHash)
  have hall := victims_sublist ceil templateHash s machines
  have howned : (ownedMachines s machines).length < 2 ^ 63 := (length_filter_le ..).trans_lt hlen
  rw [length_eq_length_filter_add (s.current templateHash)] at howned
  rw [← step_spares_iff howned (mt (effective_recreate_iff _).mp hrolling) hmax]
  change _ ↔ min _ _ ≤ _ -
    ((victims (reconcileMachineSet ceil templateHash s machines)).countP running : Int)
  constructor
  · intro h
    have hfull := h _ (prefix_refl _)
    have := running_left hdistinct hall
    omega
  · intro h deleted hdel
    have hpart := running_left hdistinct (hdel.sublist.trans hall)
    have hfewer := hdel.sublist.countP_le (p := running)
    omega

def version (t : MachineTemplate) : String := t.labels.get "version"

def webTemplate (version : String) : MachineTemplate :=
  ⟨[("version", version)], (plainMachine "" "" twoCores).spec⟩

def webSet (strategy : String) (replicas : Int) : MachineSet :=
  ⟨plainMeta "web" [], replicas, strategy, "", webTemplate "2"⟩

def webReplica (name version phase : String) : Machine where
  metadata := plainMeta name [(labelMachineSet, "web"), (labelMachineSetTemplateHash, version)]
  spec := (webTemplate version).spec
  status := { blankStatus with phase := phase }

/-- A rolling update of the set of two replicas, one of which may be unavailable, leaves those that
run or one of them. -/
def LeavesRunning : Prop :=
  let owned := ownedMachines (webSet "" 2) ms
  min (owned.countP running : Int) ((2 : Nat) - 1) ≤ (left owned (victims (reconcileMachineSet
    (fun _ _ => 0) version (webSet "" 2) ms))).countP running

instance : DecidablePred LeavesRunning := fun _ => inferInstanceAs (Decidable (_ ≤ _))

theorem running_spared :
    LeavesRunning [webReplica "a" "1" "Pending", webReplica "b" "1" "Running"] := by
  refine (rollout_spares_iff ?_ ?_ ?_ ?_).mpr ?_ _ (prefix_refl _)
  · decide +kernel
  · decide
  · decide
  · decide +kernel
  · unfold SparesRunning
    decide +kernel

/-- The only replica that runs is deleted: it is the first outdated one, or the first of too many
replicas. -/
theorem running_deleted :
    ¬ LeavesRunning [webReplica "a" "1" "Running", webReplica "b" "1" "Pending"] ∧
      ¬ LeavesRunning [webReplica "a" "2" "Running", webReplica "b" "2" "Pending",
        webReplica "c" "2" "Pending"] := by
  decide +kernel

/-! ## Recreate -/

def upToDate (hash : MachineTemplate → String) (s : MachineSet) (ms : List Machine) :
    List Machine :=
  (ownedMachines s ms).filter (s.current hash)

def outdated (hash : MachineTemplate → String) (s : MachineSet) (ms : List Machine) :
    List Machine :=
  (ownedMachines s ms).filter fun m => !s.current hash m

theorem length_owned (hash : MachineTemplate → String) (s : MachineSet) (ms : List Machine) :
    (ownedMachines s ms).length = (upToDate hash s ms).length + (outdated hash s ms).length :=
  length_eq_length_filter_add _

structure SetWorld where
  set : MachineSet
  machines : List Machine

/-- The set is edited, something else happens to Machines, those that are being deleted are gone, or
a tick makes the first of its calls: `name` gives the names of what it creates. -/
inductive SetEvent where
  | edit (template : MachineTemplate) (replicas : Int)
  | elsewhere (machines : List Machine)
  | terminated
  | tick (calls : Nat) (name : Nat → String)

section History

variable (ceil templateHash)

def MachineSet.replica (s : MachineSet) (name : String) : Machine where
  metadata := ⟨name, s.metadata.key.namespace, "", 0, s.template.labels.patchAll
    [(labelMachineSet, some s.metadata.name),
      (labelMachineSetTemplateHash, some (templateHash s.template))], [], [], false⟩
  spec := s.template.spec
  status := blankStatus

def terminating (m : Machine) : Machine :=
  { m with metadata := { m.metadata with deleting := true } }

namespace SetWorld

variable (w : SetWorld)

def created (calls : Nat) (name : Nat → String) : List Machine :=
  match reconcileMachineSet ceil templateHash w.set w.machines with
  | .ok (.create n) => (range (min n calls)).map fun i => w.set.replica templateHash (name i)
  | _ => []

def deleted (calls : Nat) : List Machine :=
  (victims (reconcileMachineSet ceil templateHash w.set w.machines)).take calls

def step : SetEvent → SetWorld
  | .edit template replicas => { w with set := { w.set with template, replicas } }
  | .elsewhere machines => { w with machines }
  | .terminated => { w with machines := w.machines.filter fun m => !m.metadata.deleting }
  | .tick calls name =>
    let marked := w.machines.map fun m =>
      if m ∈ w.deleted ceil templateHash calls then terminating m else m
    { w with machines := marked ++ w.created ceil templateHash calls name }

/-- All replicas there are, also those that are being deleted, are of the current template. -/
def Renewed : Prop := ∀ m ∈ w.machines, w.set.owns m = true → w.set.current templateHash m = true

instance (w : SetWorld) : Decidable (w.Renewed templateHash) :=
  inferInstanceAs (Decidable (∀ m ∈ w.machines, _))

/-- What a tick creates it does not create beside an older replica. -/
def AfterOlder : SetEvent → Prop
  | .tick calls name => w.created ceil templateHash calls name ≠ [] → w.Renewed templateHash
  | _ => True

/-- What is asked of an event, by what is there before it: an edit does not ask for more replicas
than live while some of them are not of its template; a tick does not come while outdated replicas
terminate and others are missing, and does not fail between its deletes. -/
def Guard : SetEvent → Prop
  | .edit template replicas =>
    (∀ m ∈ ownedMachines w.set w.machines,
        m.metadata.labels.get labelMachineSetTemplateHash = templateHash template) ∨
      replicas.toNat ≤ (ownedMachines w.set w.machines).length
  | .elsewhere machines => outdated templateHash w.set machines = [] ∨
      w.set.replicas.toNat ≤ (ownedMachines w.set machines).length
  | .terminated => True
  | .tick calls _ =>
    let deleted := (outdated templateHash w.set w.machines).take calls
    (calls = 0 ∨ w.set.replicas.toNat ≤ (ownedMachines w.set w.machines).length ∨
      ∀ m ∈ w.machines, w.set.owns m = true → m.metadata.deleting = true →
        w.set.current templateHash m = true) ∧
    (left (outdated templateHash w.set w.machines) deleted = [] ∨
      w.set.replicas.toNat ≤ (left (ownedMachines w.set w.machines) deleted).length)

def after (events : List SetEvent) : SetWorld := events.foldl (step ceil templateHash) w

/-- Each event of a history meets `P` in the state before it. -/
def Along (P : SetWorld → SetEvent → Prop) : SetWorld → List SetEvent → Prop
  | _, [] => True
  | w, e :: events => P w e ∧ Along P (w.step ceil templateHash e) events

/-- While one of the replicas that are not being deleted is outdated, they are enough. -/
def Staffed : Prop := outdated templateHash w.set w.machines = [] ∨
  w.set.replicas.toNat ≤ (ownedMachines w.set w.machines).length

end SetWorld

end History

variable {w : SetWorld} {calls : Nat} {name : Nat → String}

theorem current_replica (s : MachineSet) (name : String) :
    s.current templateHash (s.replica templateHash name) = true := by
  simp [MachineSet.current, MachineSet.replica, StringMap.get, StringMap.patchAll,
    StringMap.lookup_patchKey]

/-- The replicas that are not being deleted after some have been deleted. -/
theorem owned_marked (s : MachineSet) (ms deleted : List Machine) :
    ownedMachines s (ms.map fun m => if m ∈ deleted then terminating m else m) =
      left (ownedMachines s ms) deleted := by
  rw [ownedMachines, filter_map, left, ownedMachines, filter_filter,
    filter_congr fun m _ => show _ = (decide (m ∉ deleted) && (s.owns m && !m.metadata.deleting)) by
      by_cases hm : m ∈ deleted <;> simp [hm, terminating]]
  refine (map_congr_left fun m hm => if_neg ?_).trans (map_id _)
  rw [mem_filter, Bool.and_eq_true] at hm
  exact of_decide_eq_true hm.2.1

theorem outdated_marked (s : MachineSet) (ms deleted : List Machine) : outdated templateHash s
    (ms.map fun m => if m ∈ deleted then terminating m else m) =
      left (outdated templateHash s ms) deleted := by
  rw [outdated, owned_marked, left, left, filter_comm, outdated]

theorem owned_terminated (s : MachineSet) (ms : List Machine) :
    ownedMachines s (ms.filter fun m => !m.metadata.deleting) = ownedMachines s ms := by
  rw [ownedMachines, ownedMachines, filter_filter]
  exact filter_congr fun m _ => by simp

theorem outdated_eq_nil_iff {s : MachineSet} {ms : List Machine} :
    outdated templateHash s ms = [] ↔ ∀ m ∈ ms, s.owns m = true → m.metadata.deleting = false →
      s.current templateHash m = true := by
  rw [outdated, filter_eq_nil_iff]
  simp [ownedMachines, and_imp]

theorem created_ne_nil_iff : w.created ceil templateHash calls name ≠ [] ↔
    calls ≠ 0 ∧ (ownedMachines w.set w.machines).length < w.set.replicas.toNat := by
  have hlive := length_owned templateHash w.set w.machines
  rw [upToDate, outdated] at hlive
  rw [SetWorld.created]
  rcases step_cases ceil w.set _ _ _ _ _ with ⟨hshort, h⟩ | ⟨hle, hcreate, -⟩
  · rw [reconcileMachineSet, h]
    simp only [ne_eq, map_eq_nil_iff, range_eq_nil]
    omega
  · split
    · next h => exact (hcreate _ h).elim
    · simp only [ne_eq, not_true_eq_false, false_iff]
      omega

/-- A tick that finds enough replicas beside the outdated ones creates no other beside an older one
and leaves enough, exactly if it is guarded. -/
theorem tick_staffed_iff (hrecreate : w.set.strategy = "Recreate")
    (hstaffed : w.Staffed templateHash) :
    w.AfterOlder ceil templateHash (.tick calls name) ∧
        (w.step ceil templateHash (.tick calls name)).Staffed templateHash ↔
      w.Guard templateHash (.tick calls name) := by
  have haction : reconcileMachineSet ceil templateHash w.set w.machines =
      stepMachineSetToward ceil w.set "Recreate" w.set.replicas.toNat
        (upToDate templateHash w.set w.machines) (outdated templateHash w.set w.machines)
        ((upToDate templateHash w.set w.machines).countP running) := by
    rw [reconcileMachineSet, hrecreate]
    rfl
  have hlive := length_owned templateHash w.set w.machines
  simp only [SetWorld.AfterOlder, SetWorld.Guard, SetWorld.Staffed, SetWorld.step]
  by_cases hshort : (ownedMachines w.set w.machines).length < w.set.replicas.toNat
  · -- the number is made up; there is nothing outdated but what is being deleted
    have hout : outdated templateHash w.set w.machines = [] :=
      hstaffed.resolve_right hshort.not_ge
    rw [stepMachineSetToward, ← hlive, if_pos hshort] at haction
    have hnone : w.deleted ceil templateHash calls = [] := by
      simp [SetWorld.deleted, haction, victims]
    have hafter : outdated templateHash w.set
        (w.machines ++ w.created ceil templateHash calls name) = [] := by
      rw [outdated_eq_nil_iff] at hout ⊢
      intro m hm
      rcases mem_append.mp hm with hold | hnew
      · exact hout m hold
      · simp only [SetWorld.created, haction, mem_map] at hnew
        obtain ⟨i, -, rfl⟩ := hnew
        exact fun _ _ => current_replica ..
    simp only [hnone, not_mem_nil, if_false, map_id', hafter, true_or, and_true, created_ne_nil_iff,
      hshort, hout, take_nil, left, filter_nil, hshort.not_ge, false_or]
    rw [outdated_eq_nil_iff] at hout
    rw [← or_iff_not_imp_left]
    refine or_congr_right ⟨fun h m hm hown _ => h m hm hown, fun h m hm hown => ?_⟩
    cases hdel : m.metadata.deleting with
    | true => exact h m hm hown hdel
    | false => exact hout m hm hown hdel
  · have hcreated : w.created ceil templateHash calls name = [] := by
      by_contra h
      exact hshort (created_ne_nil_iff.mp h).2
    simp only [hcreated, ne_eq, not_true_eq_false, false_imp_iff, not_lt.mp hshort, append_nil,
      outdated_marked, owned_marked, true_or, or_true, true_and]
    by_cases hout : outdated templateHash w.set w.machines = []
    · simp [hout, left]
    · rw [SetWorld.deleted, haction, stepMachineSetToward, ← hlive, if_neg hshort]
      simp [hout, victims]

theorem event_staffed_iff (hrecreate : w.set.strategy = "Recreate")
    (hstaffed : w.Staffed templateHash) (e : SetEvent) :
    w.AfterOlder ceil templateHash e ∧ (w.step ceil templateHash e).Staffed templateHash ↔
      w.Guard templateHash e := by
  cases e with
  | edit template replicas =>
    refine (iff_of_eq (true_and _)).trans (or_congr_left ?_)
    rw [outdated, filter_eq_nil_iff]
    refine forall₂_congr fun m _ => ?_
    simp only [SetWorld.step, MachineSet.current, Bool.not_eq_true', Bool.not_eq_false]
    exact decide_eq_true_iff
  | elsewhere machines => exact iff_of_eq (true_and _)
  | terminated =>
    refine iff_of_true ⟨trivial, ?_⟩ trivial
    rwa [SetWorld.Staffed, SetWorld.step, outdated, owned_terminated]
  | tick calls name => exact tick_staffed_iff hrecreate hstaffed

theorem waited_iff : w.Along ceil templateHash (SetWorld.AfterOlder ceil templateHash)
    [.terminated, .tick 1 name] ↔ w.Staffed templateHash := by
  simp only [SetWorld.Along, SetWorld.AfterOlder, created_ne_nil_iff, SetWorld.Staffed,
    outdated_eq_nil_iff, SetWorld.step, owned_terminated, SetWorld.Renewed, mem_filter]
  rw [← not_lt, or_iff_not_imp_right, not_not]
  simp only [true_and, and_true, ne_eq, one_ne_zero, not_false_eq_true, Bool.not_eq_true', and_imp]
  exact imp_congr_right fun _ => forall₂_congr fun m _ => forall_comm

theorem strategy_step (w : SetWorld) (e : SetEvent) :
    (w.step ceil templateHash e).set.strategy = w.set.strategy := by
  cases e <;> rfl

/-- With Recreate, replicas are created only where no older one exists, in a history and in what
becomes of each part of it when the next tick waits for the Machines that are being deleted, exactly
if there are enough replicas at first and every edit and tick is guarded. -/
theorem created_after_older_iff (hrecreate : w.set.strategy = "Recreate") (events : List SetEvent) :
    w.Along ceil templateHash (SetWorld.AfterOlder ceil templateHash) events ∧
        (∀ k name, w.Along ceil templateHash (SetWorld.AfterOlder ceil templateHash)
          (events.take k ++ [.terminated, .tick 1 name])) ↔
      w.Staffed templateHash ∧ w.Along ceil templateHash (SetWorld.Guard templateHash) events := by
  induction events generalizing w with
  | nil =>
    simp only [take_nil, nil_append, waited_iff]
    simp [SetWorld.Along]
  | cons e events ih =>
    have hnext := ih (w := w.step ceil templateHash e) (by rw [strategy_step, hrecreate])
    constructor
    · rintro ⟨⟨hafter, hrest⟩, hwait⟩
      have hstaffed := waited_iff.mp (hwait 0 fun _ => "")
      obtain ⟨hstep, hguard⟩ := hnext.mp ⟨hrest, fun k name => (hwait (k + 1) name).2⟩
      exact ⟨hstaffed, (event_staffed_iff hrecreate hstaffed e).mp ⟨hafter, hstep⟩, hguard⟩
    · rintro ⟨hstaffed, hguard, hrest⟩
      obtain ⟨hafter, hstep⟩ := (event_staffed_iff hrecreate hstaffed e).mpr hguard
      obtain ⟨hall, hwait⟩ := hnext.mpr ⟨hstep, hrest⟩
      refine ⟨⟨hafter, hall⟩, fun k name => ?_⟩
      cases k with
      | zero => exact waited_iff.mpr hstaffed
      | succ k => exact ⟨hafter, hwait k name⟩

def oldReplica (replicas : List Machine) : SetWorld :=
  ⟨{ webSet "Recreate" replicas.length with template := webTemplate "1" }, replicas⟩

/-- Once the outdated replica is gone, the next tick creates one of the new template. -/
theorem renewed_in_turn : (oldReplica [webReplica "a" "1" "Running"]).Along (fun _ _ => 0) version
    (SetWorld.AfterOlder (fun _ _ => 0) version)
    [.edit (webTemplate "2") 1, .tick 1 fun _ => "b", .terminated, .tick 1 fun _ => "b"] := by
  refine ((created_after_older_iff rfl _).mpr ?_).1
  simp only [SetWorld.Along, SetWorld.Guard, SetWorld.Staffed]
  decide +kernel

/-- The tick after template and number have been edited makes up the number first; the one after the
outdated replica was deleted does not count it, although it is still there; and one of two outdated
replicas is left when a delete has failed. -/
theorem created_beside_older :
    let creates (w : SetWorld) : Prop :=
      w.created (fun _ _ => 0) version 1 (fun _ => "c") ≠ [] ∧ ¬ w.Renewed version
    let old := oldReplica [webReplica "a" "1" "Running"]
    let both := oldReplica [webReplica "a" "1" "Running", webReplica "b" "1" "Running"]
    creates (old.after (fun _ _ => 0) version [.edit (webTemplate "2") 2]) ∧
      creates (old.after (fun _ _ => 0) version [.edit (webTemplate "2") 1, .tick 1 fun _ => ""]) ∧
      creates (both.after (fun _ _ => 0) version
        [.edit (webTemplate "2") 2, .tick 1 fun _ => "", .terminated]) := by
  decide +kernel

end Kairon.Controller
