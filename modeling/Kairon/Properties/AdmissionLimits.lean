import Kairon.Controller.MigrationPolicy
import Kairon.Properties.OneActive

/-!
# The limits on concurrent migrations

The migration loop counts the active migrations of the cluster, of each node and of each policy once
and adds what it admits, so the stored migrations never exceed its counts, and these exceed a limit
only if they did before.

* `migrationTicks_keeps`: the counts of the loop are those of what is stored
* `admission_within_limits`: after the loop no limit is newly exceeded
-/

namespace Kairon.Controller

open Infra Model Cluster List Table

inductive Counter where
  | cluster
  | node (name : String)
  | policy (p : MigrationPolicy)

namespace Counter

/-- The migrations it counts, the Machines as `machineAt` has them. -/
def counts (machineAt : ObjectKey → Option Machine) : Counter → MachineMigration → Bool
  | cluster, g => g.status.phase.isActive
  | node name, g => g.status.phase.isActive &&
      (g.status.sourceNode = name || g.status.targetNode = name)
  | policy p, g => p.covers machineAt g

def count (machineAt : ObjectKey → Option Machine) (C : Counter) (w : Store) : Nat :=
  w.migrations.rows.countP (C.counts machineAt)

def limit (c : Config) : Counter → Int
  | cluster => c.maxConcurrentCluster
  | node _ => c.maxConcurrentPerNode
  | policy p => p.spec.maxConcurrent

def Tallied (load : MigrationLoad) (states : List MigrationPolicyState) : Counter → Nat → Prop
  | cluster, n => n = load.total
  | node name, n => name ≠ "" ∧ n = load.byNode name
  | policy p, n => ⟨p, n⟩ ∈ states

end Counter

variable {machineAt : ObjectKey → Option Machine} {C : Counter} {item : MachineMigration}
  {g : MachineMigration} {load : MigrationLoad} {s s' : MigrationBoard} {n : Nat}

theorem active_of_counts (h : C.counts machineAt g = true) : g.status.phase.isActive = true := by
  cases C <;> simp_all [Counter.counts, MigrationPolicy.covers]

theorem countP_eq_sum {α : Type} (p : α → Bool) (l : List α) :
    l.countP p = (l.map fun a => (p a).toNat).sum := by
  induction l with
  | nil => rfl
  | cons a l ih =>
    rw [countP_cons, map_cons, sum_cons, ih]
    cases p a <;> simp [Nat.add_comm]

theorem count_write_status {w : Store} {k : ObjectKey} {st : MachineMigrationStatus}
    (hn : C.count machineAt w ≤ n)
    (hnew : ∀ g, w.migrations.find k = some g → C.counts machineAt (g.patchStatus st) = true →
      C.counts machineAt g = true ∨ C.count machineAt w + 1 ≤ n) :
    C.count machineAt (w.write (.migrationStatus k st)) ≤ n := by
  cases hg : w.migrations.find k with
  | none =>
    change (w.migrations.edit k (·.patchStatus st) (·.key_patchStatus st)).rows.countP _ ≤ n
    rwa [rows_edit_of_find_eq_none hg]
  | some g =>
    have hsum := sum_edit (f := (·.patchStatus st)) (h := (·.key_patchStatus st)) hg
      fun g => (C.counts machineAt g).toNat
    rw [← countP_eq_sum, ← countP_eq_sum] at hsum
    cases hnow : C.counts machineAt (g.patchStatus st) with
    | false =>
      rw [hnow] at hsum
      exact (Nat.le_of_add_right_le hsum.le).trans hn
    | true =>
      rw [hnow] at hsum
      rcases hnew g hg hnow with hold | hroom
      · rw [hold] at hsum
        exact (Nat.add_right_cancel hsum).le.trans hn
      · exact (Nat.le_of_add_right_le hsum.le).trans hroom

def Stored (item : MachineMigration) (w : Store) : Prop :=
  (w.migrations.find item.key).map (fun g => (g.machineKey, g.status)) =
    some (item.machineKey, item.status)

structure Same (machineAt : ObjectKey → Option Machine) (s s' : MigrationBoard) : Prop where
  policies : s'.policies = s.policies
  count : ∀ C : Counter, C.count machineAt s'.store = C.count machineAt s.store
  stored : ∀ item, Stored item s.store → Stored item s'.store

theorem Same.refl : Same machineAt s s := ⟨rfl, fun _ => rfl, fun _ h => h⟩

theorem Same.trans {s₂ : MigrationBoard} (h : Same machineAt s s') (h' : Same machineAt s' s₂) :
    Same machineAt s s₂ :=
  ⟨h'.policies.trans h.policies, fun C => (h'.count C).trans (h.count C),
    fun item hi => h'.stored item (h.stored item hi)⟩

theorem same_of_write {x : Write} (hx : ∀ k st, x ≠ .migrationStatus k st) :
    Same machineAt s { s with store := s.store.write x } := by
  cases x with
  | machine | machineStatus => exact ⟨rfl, fun _ => rfl, fun _ h => h⟩
  | migration k p =>
    refine ⟨rfl, fun C => ?_, fun item hi => ?_⟩
    · change (s.store.migrations.rows.map fun g => if g.key = k then g.patch p else g).countP _ = _
      rw [countP_map]
      refine countP_congr fun g _ => ?_
      rw [Function.comp_apply]
      split
      · cases C <;> rfl
      · rfl
    · rw [Stored, Store.write, find_edit]
      split
      · rwa [Option.map_map]
      · exact hi
  | migrationStatus k st => exact absurd rfl (hx k st)

def calm : ClusterOp → Bool
  | .decision (.admitMigrationPolicy _) | .patchMachineMigrationStatus _ _ _ => false
  | _ => true

theorem same_of_call (machineAt : ObjectKey → Option Machine) {e : ClusterOp} {a : e.Ans}
    (he : calm e = true) (hs : s' ∈ boardOutcomes s e a) : Same machineAt s s' := by
  have hx : ∀ k st, e.write ≠ some (.migrationStatus k st) := by
    intro k st hx
    cases e with
    | patchMachineMigrationStatus => cases he
    | _ => cases hx
  unfold boardOutcomes at hs
  split at hs
  · cases he
  · split at hs
    · rw [mem_singleton.mp hs]
      exact .refl
    · cases hs
  · obtain ⟨w', hw, rfl⟩ := mem_map.mp hs
    rcases (mem_outcomes_iff.mp hw).2 with ⟨rfl, -⟩ | ⟨x, hwrite, rfl⟩
    · exact .refl
    · exact same_of_write fun k st heq => hx k st (heq ▸ hwrite)

/-- What the turn of `item` leaves of the other migrations and of the policies. -/
structure Onward (item : MachineMigration) (s s' : MigrationBoard) : Prop where
  others : ∀ other, other.key ≠ item.key → Stored other s.store → Stored other s'.store
  policies : s'.policies.map (·.policy) = s.policies.map (·.policy)

theorem Onward.refl : Onward item s s := ⟨fun _ _ h => h, rfl⟩

theorem Onward.trans {s₂ : MigrationBoard} (h : Onward item s s') (h' : Onward item s' s₂) :
    Onward item s s₂ :=
  ⟨fun other hne ho => h'.others other hne (h.others other hne ho), h'.policies.trans h.policies⟩

theorem Same.onward (h : Same machineAt s s') : Onward item s s' :=
  ⟨fun other _ => h.stored other, by rw [h.policies]⟩

/-! ## One turn -/

section Pass

variable (c : Config) (machineAt : ObjectKey → Option Machine) (w₀ : Store)

def Counter.Capped (C : Counter) (n : Nat) : Prop :=
  0 < C.limit c → (n : Int) ≤ max (C.count machineAt w₀ : Int) (C.limit c)

def Within (load : MigrationLoad) (s : MigrationBoard) : Prop :=
  ∀ (C : Counter) n, C.Tallied load s.policies n →
    C.count machineAt s.store ≤ n ∧ C.Capped c machineAt w₀ n

def Ready (load : MigrationLoad) (item : MachineMigration) (st : MachineMigrationStatus)
    (s : MigrationBoard) : Prop :=
  Within c machineAt w₀ load s ∧ ∀ (C : Counter) n, C.Tallied load s.policies n →
    ∀ g, s.store.migrations.find item.key = some g → C.counts machineAt (g.patchStatus st) = true →
      C.counts machineAt g = true ∨ C.count machineAt s.store + 1 ≤ n

/-- What is left in `s` of the turn of `item`, which began in `s₀`, leaves what is stored within the
counts `load`. -/
abbrev Turns {α : Type} (item : MachineMigration) (load : α → MigrationLoad)
    (s₀ s : MigrationBoard) (p : M α) : Prop :=
  p.Keeps (served boardOutcomes) (fun _ => True)
    (fun s' r => Within c machineAt w₀ (load r) s' ∧ Onward item s₀ s') s

variable {c machineAt w₀} {st : MachineMigrationStatus} {machine : Machine}

theorem Within.same (h : Within c machineAt w₀ load s) (hs : Same machineAt s s') :
    Within c machineAt w₀ load s' := by
  intro C n hn
  rw [hs.count C]
  exact h C n (hs.policies ▸ hn)

theorem Ready.call {site : Site} {a : (ClusterOp.patchMachineMigrationStatus site item st).Ans}
    (h : Ready c machineAt w₀ load item st s)
    (hs : s' ∈ boardOutcomes s (.patchMachineMigrationStatus site item st) a) :
    Within c machineAt w₀ load s' ∧ Onward item s s' := by
  obtain ⟨w', hw, rfl⟩ := mem_map.mp hs
  rcases (mem_outcomes_iff.mp hw).2 with ⟨rfl, -⟩ | ⟨x, hx, rfl⟩
  · exact ⟨h.1, .refl⟩
  · cases hx
    refine ⟨fun C n hn => ⟨count_write_status (h.1 C n hn).1 (h.2 C n hn), (h.1 C n hn).2⟩,
      fun other hne ho => ?_, rfl⟩
    rwa [Stored, find_write_status, if_neg hne]

theorem finish_turns {s₀ : MigrationBoard} (ho : Onward item s₀ s)
    (h : Ready c machineAt w₀ load item st s) :
    Turns c machineAt w₀ item (fun _ => load) s₀ s (finish item st) :=
  ⟨trivial, fun _ _ hs => ⟨trivial, (h.call hs).1, ho.trans (h.call hs).2⟩⟩

theorem ready_inactive (h : Within c machineAt w₀ load s) (hst : st.phase.isActive = false)
    (htext : st.phase.text ≠ "") : Ready c machineAt w₀ load item st s := by
  refine ⟨h, fun C n _ g _ hnew => ?_⟩
  have hact := active_of_counts hnew
  simp [MachineMigration.patchStatus, MachineMigrationStatus.patch, MigrationPhase.patch,
    if_neg htext, hst] at hact

theorem exists_of_stored (h : Stored item s.store)
    (hg : s.store.migrations.find item.key = some g) :
    g.key = item.key ∧ g.machineKey = item.machineKey ∧ g.status = item.status := by
  rw [Stored, hg] at h
  cases h' : (g.machineKey, g.status)
  simp_all [(Table.find_eq_some_iff.mp hg).2]

theorem ready_advance (h : Within c machineAt w₀ load s) (hstored : Stored item s.store)
    (hact : item.status.phase.isActive = true) (hsource : st.sourceNode = item.status.sourceNode)
    (htarget : st.targetNode = item.status.targetNode) : Ready c machineAt w₀ load item st s := by
  refine ⟨h, fun C n _ g hg hnew => .inl ?_⟩
  obtain ⟨-, -, hstatus⟩ := exists_of_stored hstored hg
  have hself : ∀ x : String, GoJson.patchOmit x x = x := fun x => by
    rw [GoJson.patchOmit_eq_iff]
    exact fun h => h
  cases C with
  | cluster => rwa [Counter.counts, hstatus]
  | node name =>
    simp only [Counter.counts, MachineMigration.patchStatus, MachineMigrationStatus.patch, hstatus,
      hsource, htarget, hself, Bool.and_eq_true] at hnew ⊢
    exact ⟨hact, hnew.2⟩
  | policy p =>
    simp only [Counter.counts, MigrationPolicy.covers, Bool.and_eq_true] at hnew ⊢
    exact ⟨⟨hnew.1.1, hstatus ▸ hact⟩, hnew.2⟩

def Spent (machineAt : ObjectKey → Option Machine) (machine : Machine) (s : MigrationBoard) :
    Prop :=
  ∀ p n, ⟨p, n⟩ ∈ s.policies → p.selects machine = true →
    (Counter.policy p).count machineAt s.store + 1 ≤ n

theorem Spent.same (h : Spent machineAt machine s) (hs : Same machineAt s s') :
    Spent machineAt machine s' := by
  intro p n hn hsel
  rw [hs.count]
  exact h p n (hs.policies ▸ hn) hsel

theorem Within.spend (item : MachineMigration) {ps : List MigrationPolicyState}
    (h : Within c machineAt w₀ load s) (hps : admitMigrationPolicy s.policies machine = .ok ps) :
    Within c machineAt w₀ load { s with policies := ps } ∧
      Spent machineAt machine { s with policies := ps } ∧
      Onward item s { s with policies := ps } := by
  simp only [admitMigrationPolicy] at hps
  split at hps
  · cases hps
  · next hnone =>
    cases hps
    have hcases : ∀ p n, ⟨p, n⟩ ∈ s.policies.map (fun st : MigrationPolicyState =>
        if st.policy.selects machine then { st with active := st.active + 1 } else st) →
        ∃ m, ⟨p, m⟩ ∈ s.policies ∧ if p.selects machine
          then n = m + 1 ∧ (0 < p.spec.maxConcurrent → (m : Int) < p.spec.maxConcurrent)
          else n = m := by
      intro p n hn
      obtain ⟨st, hst, heq⟩ := mem_map.mp hn
      have hroom := List.find?_eq_none.mp hnone st hst
      split at heq
      · next hsel =>
        cases heq
        refine ⟨st.active, hst, ?_⟩
        rw [if_pos hsel]
        refine ⟨rfl, fun hpos => ?_⟩
        simpa [hsel, hpos] using hroom
      · next hsel =>
        cases heq
        exact ⟨n, hst, by rw [if_neg hsel]⟩
    refine ⟨fun C n hn => ?_, fun p n hn hsel => ?_, fun _ _ ho => ho, ?_⟩
    · cases C with
      | cluster | node => exact h _ n hn
      | policy p =>
        obtain ⟨m, hm, hcase⟩ := hcases p n hn
        obtain ⟨hle, hcap⟩ := h (.policy p) m hm
        split at hcase
        · obtain ⟨rfl, hroom⟩ := hcase
          refine ⟨hle.trans (Nat.le_succ m), fun hpos => Int.le_trans ?_ (Int.le_max_right ..)⟩
          have := hroom hpos
          rw [Counter.limit]
          omega
        · cases hcase
          exact ⟨hle, hcap⟩
    · obtain ⟨m, hm, hcase⟩ := hcases p n hn
      rw [if_pos hsel] at hcase
      rw [hcase.1]
      exact Nat.succ_le_succ (h (.policy p) m hm).1
    · rw [map_map]
      refine map_congr_left fun st _ => ?_
      simp only [Function.comp_apply]
      split <;> rfl

theorem policy_cases {blocker : String} (hs : s' ∈ policyOutcomes s machine blocker) :
    (blocker ≠ "" ∧ s' = s) ∨ (blocker = "" ∧
      ∃ ps, admitMigrationPolicy s.policies machine = .ok ps ∧ s' = { s with policies := ps }) := by
  unfold policyOutcomes at hs
  split at hs
  · next b hb =>
    have hne : b ≠ "" := by
      simp only [admitMigrationPolicy] at hb
      split at hb
      · cases hb
        simp
      · cases hb
    split at hs
    · next heq => exact .inl ⟨heq ▸ hne, mem_singleton.mp hs⟩
    · cases hs
  · next ps hps =>
    split at hs
    · next heq => exact .inr ⟨heq, ps, hps, mem_singleton.mp hs⟩
    · cases hs

theorem byNode_admitted {name : String} (hname : name ≠ "") (source target : String) :
    (load.admitted source target).byNode name =
      load.byNode name + if name = source ∨ name = target then 1 else 0 := by
  simp only [MigrationLoad.admitted]
  by_cases hs : name = source <;> by_cases ht : name = target <;> by_cases hs' : source = "" <;>
    by_cases ht' : target = "" <;> by_cases he : target = source <;> simp_all

theorem ready_admitted {source target : String} (h : Within c machineAt w₀ load s)
    (hstored : Stored item s.store) (hmachine : machineAt item.machineKey = some machine)
    (hkey : machine.key = item.machineKey) (hspent : Spent machineAt machine s)
    (hcluster : ¬(c.maxConcurrentCluster > 0 ∧ (load.total : Int) ≥ c.maxConcurrentCluster))
    (hnodes : ∀ name, name = source ∨ name = target → name ≠ "" ∧
      ¬(c.maxConcurrentPerNode > 0 ∧ (load.byNode name : Int) ≥ c.maxConcurrentPerNode))
    (hsource : st.sourceNode = source) (htarget : st.targetNode = target) :
    Ready c machineAt w₀ (load.admitted source target) item st s := by
  have hset : ∀ old new : String, new ≠ "" → GoJson.patchOmit old new = new := fun old new hne => by
    rw [GoJson.patchOmit_eq_iff]
    exact fun he => absurd (eq_of_beq he) hne
  refine ⟨fun C n hn => ?_, fun C n hn g hg hnew => .inr ?_⟩
  · cases C with
    | cluster =>
      obtain ⟨hle, -⟩ := h .cluster load.total rfl
      cases hn
      refine ⟨hle.trans (Nat.le_succ _), fun hpos => Int.le_trans ?_ (Int.le_max_right ..)⟩
      rw [Counter.limit] at hpos ⊢
      change ((load.total + 1 : Nat) : Int) ≤ _
      omega
    | node name =>
      obtain ⟨hle, hcap⟩ := h (.node name) _ ⟨hn.1, rfl⟩
      rw [hn.2, byNode_admitted hn.1]
      split
      · next hname =>
        refine ⟨hle.trans (Nat.le_succ _), fun hpos => Int.le_trans ?_ (Int.le_max_right ..)⟩
        have := (hnodes name hname).2
        rw [Counter.limit] at hpos ⊢
        omega
      · exact ⟨hle, hcap⟩
    | policy p => exact h (.policy p) n hn
  · obtain ⟨hgkey, hgmachine, -⟩ := exists_of_stored hstored hg
    cases C with
    | cluster =>
      cases hn
      exact Nat.succ_le_succ (h .cluster load.total rfl).1
    | node name =>
      have hname : name = source ∨ name = target := by
        simp only [Counter.counts, MachineMigration.patchStatus, MachineMigrationStatus.patch,
          hsource, htarget, hset _ _ (hnodes source (.inl rfl)).1,
          hset _ _ (hnodes target (.inr rfl)).1, Bool.and_eq_true, Bool.or_eq_true,
          decide_eq_true_eq] at hnew
        exact hnew.2.imp Eq.symm Eq.symm
      rw [hn.2, byNode_admitted hn.1, if_pos hname]
      exact Nat.succ_le_succ (h (.node name) _ ⟨hn.1, rfl⟩).1
    | policy p =>
      refine hspent p n hn ?_
      simp only [Counter.counts, MigrationPolicy.covers, MachineMigration.machineKey_patchStatus,
        hgmachine, hmachine, MachineMigration.key_patchStatus, hgkey, Option.any_some,
        Bool.and_eq_true, decide_eq_true_eq] at hnew
      simp only [MigrationPolicy.selects, hkey, Bool.and_eq_true, decide_eq_true_eq]
      exact ⟨hnew.1.1, hnew.2⟩

theorem migrationTarget_keeps (machineAt : ObjectKey → Option Machine) {nodes : List Node}
    (requested strategy : String) :
    (migrationTarget machine requested strategy nodes).Keeps (served boardOutcomes) (fun _ => True)
      (fun s' r => Same machineAt s s' ∧ ∀ target, r = .ok target →
        target ≠ machine.spec.nodeName ∧ ∃ n ∈ nodes, n.name = target) s := by
  simp only [migrationTarget]
  split
  · exact ⟨trivial, .refl, nofun⟩
  · refine ⟨trivial, fun r s₁ hs => ?_⟩
    have hsame := same_of_call machineAt rfl hs
    match r with
    | .error e => exact ⟨trivial, hsame, nofun⟩
    | .ok target =>
      have hchosen : target ≠ machine.spec.nodeName ∧ ∃ n ∈ nodes, n.name = target := by
        obtain ⟨hany, hs⟩ := mem_ite_nil_right.mp hs
        obtain ⟨n, hn, hname⟩ := any_eq_true.mp hany
        obtain ⟨hmem, hkeep⟩ := mem_filter.mp hn
        obtain rfl := of_decide_eq_true hname
        exact ⟨(of_decide_eq_true hkeep).1, n, hmem, rfl⟩
      dsimp only [Prog.bind]
      split
      · refine ⟨trivial, fun (blocker : String) s₂ hs₂ => ⟨trivial, ?_, fun t ht => ?_⟩⟩
        · exact hsame.trans (same_of_call machineAt rfl hs₂)
        · split at ht
          · cases ht
            exact hchosen
          · cases ht
      · exact ⟨trivial, hsame, fun t ht => by cases ht; exact hchosen⟩

theorem defaultBandwidth_keeps : (defaultBandwidth item machine).Keeps (served boardOutcomes)
    (fun _ => True) (fun s' _ => Same machineAt s s') s := by
  unfold defaultBandwidth
  split
  · exact ⟨trivial, .refl⟩
  · refine ⟨trivial, fun (bw : UInt64) s₁ hs => ?_⟩
    have hsame := same_of_call machineAt rfl hs
    change Prog.Keeps _ _ _ _ (if _ then _ else _)
    split
    · exact ⟨trivial, fun _ s₂ hs₂ => ⟨trivial, hsame.trans (same_of_call machineAt rfl hs₂)⟩⟩
    · exact ⟨trivial, hsame⟩

theorem label_turns {s₀ : MigrationBoard} (ho : Onward item s₀ s)
    (h : Within c machineAt w₀ load s) (node : String) :
    Turns c machineAt w₀ item (fun _ => load) s₀ s
      ((ensureMigrationSourceLabel item node).bind fun _ =>
        (.ret (.ok ()) : M GoErr)) := by
  unfold ensureMigrationSourceLabel
  split
  · exact ⟨trivial, h, ho⟩
  · refine ⟨trivial, fun _ s' hs => ⟨trivial, ?_⟩⟩
    have hsame := same_of_call machineAt rfl hs
    exact ⟨h.same hsame, ho.trans hsame.onward⟩

theorem beginMigration_turns (load : MigrationLoad) {s₀ : MigrationBoard}
    {status : MachineMigrationStatus} (ho : Onward item s₀ s) (strategy : String)
    (hready : ∀ s' st, Same machineAt s s' → st.sourceNode = status.sourceNode →
      st.targetNode = status.targetNode → Ready c machineAt w₀ load item st s') :
    Turns c machineAt w₀ item (fun _ => load) s₀ s
      (beginMigration item machine status strategy) := by
  have begun : ∀ {s' : MigrationBoard} {st : MachineMigrationStatus}, Onward item s₀ s' →
      Ready c machineAt w₀ load item st s' → Turns c machineAt w₀ item (fun _ => load) s₀ s'
        ((finish item st).andThen fun _ => (ensureMigrationSourceLabel item status.sourceNode).bind
          fun _ => .ret (.ok ())) := fun ho h =>
    (finish_turns ho h).andThen (fun _ _ _ h => h) fun _ _ _ h => label_turns h.2 h.1 _
  unfold beginMigration
  split
  · exact begun ho (hready s _ .refl rfl rfl)
  · refine ⟨trivial, fun r s₁ hs => ?_⟩
    have hsame := same_of_call machineAt rfl hs
    match r with
    | .error e => exact ⟨trivial, (hready s₁ status hsame rfl rfl).1, ho.trans hsame.onward⟩
    | .ok () => exact begun (ho.trans hsame.onward) (hready s₁ _ hsame rfl rfl)

theorem admitMigration_turns {nodes : List Node} (hnodes : ∀ n ∈ nodes, n.name ≠ "")
    (h : Within c machineAt w₀ load s) (hstored : Stored item s.store)
    (hmachine : machineAt item.machineKey = some machine) (hkey : machine.key = item.machineKey) :
    Turns c machineAt w₀ item Prod.fst s s (admitMigration c item machine nodes load) := by
  have block : ∀ {s' : MigrationBoard} (message : String), Onward item s s' →
      Within c machineAt w₀ load s' → Turns c machineAt w₀ item Prod.fst s s'
        ((blockMigration item message).bind fun r => .ret (load, r)) := fun message ho h =>
    (finish_turns ho (ready_inactive h rfl (by simp [MigrationPhase.text]))).bind
      fun _ _ _ hr => ⟨trivial, hr⟩
  show Prog.Keeps _ _ _ _ (if _ then _ else _)
  split
  · exact block _ .refl h
  next hsource =>
  split
  · exact block _ .refl h
  next hcluster =>
  split
  · exact block _ .refl h
  next hfull =>
  refine ⟨trivial, fun (blocker : String) s₁ hs => ?_⟩
  rcases policy_cases hs with ⟨hblocker, hs₁⟩ | ⟨hempty, ps, hps, hs₁⟩
  · show Prog.Keeps _ _ _ _ (if _ then _ else _)
    rw [if_pos hblocker, hs₁]
    exact block _ .refl h
  show Prog.Keeps _ _ _ _ (if _ then _ else _)
  rw [if_neg (not_not.mpr hempty), hs₁]
  have hspend := h.spend item hps
  have h := hspend.1
  have hspent := hspend.2.1
  have ho := hspend.2.2
  split
  · exact block _ ho h
  next strategy _ =>
  refine (migrationTarget_keeps machineAt item.spec.targetNode strategy).bind ?_
  rintro s₂ r - ⟨hsame, htarget⟩
  have ho := ho.trans hsame.onward
  match r with
  | .error e => exact block _ ho (h.same hsame)
  | .ok target =>
    obtain ⟨hne, n, hn, hname⟩ := htarget target rfl
    show Prog.Keeps _ _ _ _ (if _ then _ else _)
    split
    · exact block _ ho (h.same hsame)
    next hroom =>
    refine defaultBandwidth_keeps.bind fun s₃ _ _ (hsame₃ : Same machineAt s₂ s₃) => ?_
    have ho := ho.trans hsame₃.onward
    refine (beginMigration_turns (load.admitted machine.spec.nodeName target) ho strategy
      fun s' st hsame' hs ht => ?_).bind fun _ _ _ hr => ⟨trivial, hr⟩
    have hall := (hsame.trans hsame₃).trans hsame'
    refine ready_admitted (h.same hall) (hall.stored item hstored) hmachine hkey
      (hspent.same hall) hcluster ?_ hs ht
    rintro name (rfl | rfl)
    · exact ⟨hsource, hfull⟩
    · exact ⟨hname ▸ hnodes n hn, hroom⟩

theorem advanceMigration_turns (h : Within c machineAt w₀ load s) (hstored : Stored item s.store) :
    Turns c machineAt w₀ item (fun _ => load) s s (advanceMigration item machine) := by
  have moved : ∀ {k : ObjectKey} {patch : MachinePatch} {st : MachineMigrationStatus},
      item.status.phase.isActive = true → st.sourceNode = item.status.sourceNode →
      st.targetNode = item.status.targetNode → Turns c machineAt w₀ item (fun _ => load) s s
        ((orText (Kube.patchMachine .reconcile k patch)).andThen fun _ => finish item st) := by
    intro k patch st hact hsource htarget
    refine ⟨trivial, fun r s₁ hs => ?_⟩
    have hsame := same_of_call machineAt rfl hs
    match r with
    | .error e => exact ⟨trivial, h.same hsame, hsame.onward⟩
    | .ok () =>
      exact finish_turns hsame.onward
        (ready_advance (h.same hsame) (hsame.stored item hstored) hact hsource htarget)
  unfold advanceMigration
  dsimp only
  split
  · exact ⟨trivial, h, .refl⟩
  · exact ⟨trivial, h, .refl⟩
  iterate 3
    · next hphase =>
      split
      · exact ⟨trivial, h, .refl⟩
      · exact moved (by rw [hphase]; rfl) rfl rfl
  · next hphase =>
    split
    · exact finish_turns .refl (ready_advance h hstored (by rw [hphase]; rfl) rfl rfl)
    · exact ⟨trivial, h, .refl⟩
  · exact ⟨trivial, h, .refl⟩

variable {machines : List Machine} {nodes : List Node}

theorem migrationTick_turns (hnodes : ∀ n ∈ nodes, n.name ≠ "")
    (h : Within c (indexMachines machines) w₀ load s) (hstored : Stored item s.store) :
    Turns c (indexMachines machines) w₀ item id s s
      (migrationTick c machines nodes load item) := by
  have hret : ∀ r, Turns c (indexMachines machines) w₀ item Prod.fst s s
      (.ret (load, r) : M (MigrationLoad × GoErr)) := fun r =>
    ⟨trivial, h, .refl⟩
  have hreconcile : Turns c (indexMachines machines) w₀ item Prod.fst s s
      (reconcileMigration c item machines nodes load) := by
    unfold reconcileMigration
    dsimp only
    split
    iterate 5
      · exact hret _
    split
    · exact hret _
    split
    · exact hret _
    next machine hmachine =>
    split
    · exact hret _
    split
    · exact admitMigration_turns hnodes h hstored hmachine
        (by simpa using List.find?_some hmachine)
    · exact (advanceMigration_turns h hstored).bind fun _ _ _ hr => ⟨trivial, hr⟩
  refine hreconcile.bind fun s₁ r _ hr => ?_
  obtain ⟨load', r⟩ := r
  match r with
  | .ok () => exact ⟨trivial, hr⟩
  | .error e =>
    refine ⟨trivial, fun _ s₂ hs => ⟨trivial, ?_⟩⟩
    have hwritten := (ready_inactive hr.1 rfl (by simp [MigrationPhase.text])).call hs
    exact ⟨hwritten.1, hr.2.trans hwritten.2⟩

theorem migrationTicks_keeps (hnodes : ∀ n ∈ nodes, n.name ≠ "") {items : List MachineMigration}
    (hdistinct : (items.map MachineMigration.key).Nodup)
    (hstored : ∀ item ∈ items, Stored item s.store)
    (h : Within c (indexMachines machines) w₀ load s) :
    (migrationTicks c machines nodes load items).Keeps (served boardOutcomes) (fun _ => True)
      (fun s' _ => (∃ load', Within c (indexMachines machines) w₀ load' s') ∧
        s'.policies.map (·.policy) = s.policies.map (·.policy)) s := by
  induction items generalizing load s with
  | nil => exact ⟨trivial, ⟨load, h⟩, rfl⟩
  | cons item items ih =>
    obtain ⟨hitem, hrest⟩ := forall_mem_cons.mp hstored
    rw [map_cons, nodup_cons] at hdistinct
    refine (migrationTick_turns hnodes h hitem).bind fun s₁ load₁ _ h₁ => ?_
    have hother : ∀ other ∈ items, Stored other s₁.store := fun other ho =>
      h₁.2.others other (fun he => hdistinct.1 (he ▸ mem_map_of_mem ho)) (hrest other ho)
    exact (ih hdistinct.2 hother h₁.1).mono fun s' _ _ h' => ⟨h'.1, h'.2.trans h₁.2.policies⟩

end Pass

/-! ## The whole pass -/

theorem count_new {f : MigrationLoad → Nat} {p : MachineMigration → Bool}
    (hf : ∀ l g, f (l.admitted g.status.sourceNode g.status.targetNode) =
      f l + if p g then 1 else 0) (migrations : List MachineMigration) :
    f (.new migrations) = f ⟨fun _ => 0, 0⟩ +
      migrations.countP fun g => p g && g.status.phase.isActive := by
  have hfold : ∀ (gs : List MachineMigration) l, f (gs.foldl (fun l g =>
      l.admitted g.status.sourceNode g.status.targetNode) l) = f l + gs.countP p := by
    intro gs
    induction gs with
    | nil => exact fun _ => rfl
    | cons g gs ih =>
      intro l
      rw [foldl_cons, ih, hf, countP_cons, Nat.add_right_comm, Nat.add_assoc]
  rw [MigrationLoad.new, hfold, countP_filter]

theorem total_new (migrations : List MachineMigration) :
    (MigrationLoad.new migrations).total = migrations.countP fun g => g.status.phase.isActive :=
  (count_new (p := fun _ => true) (fun _ _ => rfl) migrations).trans (Nat.zero_add _)

theorem byNode_new {name : String} (hname : name ≠ "") (migrations : List MachineMigration)
    (machineAt : ObjectKey → Option Machine) : (MigrationLoad.new migrations).byNode name =
      migrations.countP ((Counter.node name).counts machineAt) := by
  rw [count_new (f := fun l => l.byNode name)
    (p := fun g => name = g.status.sourceNode ∨ name = g.status.targetNode) fun l g => by
      simpa using byNode_admitted hname _ _, Nat.zero_add]
  exact countP_congr fun g _ => by simp [Counter.counts, and_comm, eq_comm (a := name)]

/-- What a limit applies to. -/
def Counter.Limited (policies : List MigrationPolicy) : Counter → Prop
  | cluster => True
  | node name => name ≠ ""
  | policy p => p ∈ policies

theorem within_listed {w : Store} {machines : List Machine} {migrations : List MachineMigration}
    {policies : List MigrationPolicy} (c : Config) (hlisted : migrations.Perm w.migrations.rows) :
    Within c (indexMachines machines) w (.new migrations)
      ⟨w, loadMigrationPolicyStates policies machines migrations⟩ := by
  have hexact : ∀ (C : Counter) n, C.Tallied (.new migrations)
      (loadMigrationPolicyStates policies machines migrations) n →
      n = C.count (indexMachines machines) w := by
    intro C n hn
    rw [Counter.count, ← hlisted.countP_eq]
    cases C with
    | cluster => exact hn.trans (total_new migrations)
    | node name => exact hn.2.trans (byNode_new hn.1 migrations _)
    | policy p =>
      obtain ⟨q, -, heq⟩ := mem_map.mp hn
      cases heq
      rfl
  intro C n hn
  rw [hexact C n hn]
  exact ⟨le_refl _, fun _ => Int.le_max_left ..⟩

/-- After the migration loop of a tick no more migrations are active in the cluster, at a node or
under a policy than the limit allows or than there were before, the Machines under a policy being
those whose labels it matched when they were listed. A limit that is not positive is none. -/
theorem admission_within_limits (c : Config) {w : Store} {machines : List Machine}
    {nodes : List Node} {migrations : List MachineMigration} (policies : List MigrationPolicy)
    {s' : MigrationBoard} {C : Counter} (hlisted : migrations.Perm w.migrations.rows)
    (hnodes : ∀ n ∈ nodes, n.name ≠ "")
    (run : (migrationTicks c machines nodes (.new migrations) migrations).Reaches
      (served boardOutcomes) ⟨w, loadMigrationPolicyStates policies machines migrations⟩ s'
      (.ret ()))
    (hC : C.Limited policies) (hlimit : 0 < C.limit c) :
    (C.count (indexMachines machines) s'.store : Int) ≤
      max (C.count (indexMachines machines) w : Int) (C.limit c) := by
  have hdistinct : (migrations.map MachineMigration.key).Nodup :=
    (hlisted.map _).nodup_iff.mpr w.migrations.distinct
  have hstored : ∀ item ∈ migrations, Stored item w := by
    intro item hi
    rw [Stored, Table.find_eq_some_iff.mpr ⟨hlisted.mem_iff.mp hi, rfl⟩]
    rfl
  obtain ⟨⟨load, hwithin⟩, hpolicies⟩ :=
    (run.keeps (migrationTicks_keeps hnodes hdistinct hstored (within_listed c hlisted))).2
  obtain ⟨n, hn⟩ : ∃ n, C.Tallied load s'.policies n := by
    cases C with
    | cluster => exact ⟨_, rfl⟩
    | node name => exact ⟨_, hC, rfl⟩
    | policy p =>
      have hp : p ∈ s'.policies.map (·.policy) := by
        rw [hpolicies, loadMigrationPolicyStates, map_map]
        exact mem_map.mpr ⟨p, hC, rfl⟩
      obtain ⟨st, hst, rfl⟩ := mem_map.mp hp
      exact ⟨st.active, hst⟩
  obtain ⟨hle, hcap⟩ := hwithin C n hn
  exact (Int.ofNat_le.mpr hle).trans (hcap hlimit)

def oneAtATime : Config := { sampleController with maxConcurrentCluster := 1 }

def twoNodes : List Node := [⟨"node-a", [], []⟩, ⟨"node-b", [], []⟩]

theorem burst_within_limit : let w := evacuating
    ∃ s', (migrationTicks oneAtATime w.machines.rows twoNodes (.new w.migrations.rows)
        w.migrations.rows).Reaches (served boardOutcomes) ⟨w, []⟩ s' (.ret ()) ∧
      s'.store.phase ⟨"default", "mig-1"⟩ = some .starting ∧
      (Counter.cluster.count (indexMachines w.machines.rows) s'.store : Int) ≤
        max (Counter.cluster.count (indexMachines w.machines.rows) w : Int) 1 := by
  intro w
  have run : (migrationTicks oneAtATime w.machines.rows twoNodes (.new w.migrations.rows)
      w.migrations.rows).Reaches (served boardOutcomes) ⟨w, []⟩ _ (.ret ()) :=
    Prog.reaches_of_play (fun s e => (works s.store e, 0)) rfl
  exact ⟨_, run, rfl, admission_within_limits oneAtATime [] (.refl _) (by decide) run trivial
    (by decide)⟩

/-! ## A policy for the Machines of a node -/

def nodePolicy : MigrationPolicy := ⟨"default", "node-b", [(assignedNodeLabel, "node-b")], 1⟩

def arriving : Store :=
  let m := plainMachine "vm-2" "node-a" twoCores
  storeOf [plainMachine "vm-1" "node-b" twoCores,
      { m with status := { m.status with phase := "Stopped" } }]
    [plainMigration "mig-1" "vm-1" .running, plainMigration "mig-2" "vm-2" .stopping]

/-- The pass gives the second Machine the label of its new node. Its migration is still active, so
that the policy has two, by the labels that are stored. -/
theorem relabelled_into_policy : (Counter.policy nodePolicy).limit sampleController = 1 ∧
      (Counter.policy nodePolicy).count arriving.machines.find arriving = 1 ∧
      ∃ s', (migrationTicks sampleController arriving.machines.rows twoNodes
          (.new arriving.migrations.rows) arriving.migrations.rows).Reaches (served boardOutcomes)
          ⟨arriving, loadMigrationPolicyStates [nodePolicy] arriving.machines.rows
            arriving.migrations.rows⟩ s' (.ret ()) ∧
        (Counter.policy nodePolicy).count s'.store.machines.find s'.store = 2 :=
  ⟨rfl, rfl, _, Prog.reaches_of_play (fun s e => (works s.store e, 0)) rfl, rfl⟩

end Kairon.Controller
