import Mathlib.Algebra.Order.BigOperators.Group.List
import Mathlib.Algebra.Order.Ring.Nat
import Kairon.Cluster.World
import Kairon.Controller.QuotaTally

/-!
# Namespaces stay within their quotas

The three places that check a quota, and what each of them lets through. What they do not look at is
a Machine that already has a node and comes to count again.

* `create_within`, `update_within`, `power_within`, `tick_within`: one event of each kind
* `within_limits_of_orderly`: any of them
-/

namespace Kairon.Controller

open Infra Model Cluster List Table

variable {F : GoFloat} {checks : OtherChecks} {quotas : List MachineQuota} {w w' : Machines}
  {d : Dim} {ns : String} {m old new : Machine} {q : MachineQuota} {L : Int}
  {trackers : List QuotaTracker} {k : ObjectKey} {f : Machine → Machine} {c : Config}
  {machines : List Machine} {nodes : List Node}

/-! ## Sums -/

theorem usage_perm {ms ms' : List Machine} (h : ms.Perm ms') : usage F d ns ms = usage F d ns ms' :=
  (h.map _).sum_eq

theorem share_of_eq (h : ns = m.key.namespace) : share F d ns m = amount F d m := if_pos h.symm

theorem share_of_ne (h : ns ≠ m.key.namespace) : share F d ns m = 0 := if_neg h.symm

theorem charge_of_counts (h : machineCountsTowardQuota m = true) :
    charge F d ns m = share F d ns m :=
  if_pos h

theorem charge_of_idle (h : machineCountsTowardQuota m = false) : charge F d ns m = 0 := by
  simp [charge, h]

theorem charge_of_ne (h : ns ≠ m.key.namespace) : charge F d ns m = 0 := by
  simp [charge, share_of_ne h]

variable (types : List MachineInstanceType) (ms : List Machine)

theorem usage_filter :
    usage F d ns (ms.filter fun x => x.key.namespace = ns) = usage F d ns ms := by
  induction ms with
  | nil => rfl
  | cons m ms ih =>
    unfold usage at ih ⊢
    rw [filter_cons]
    split
    · rw [map_cons, sum_cons, ih, map_cons, sum_cons]
    · next hns =>
      rw [ih, map_cons, sum_cons, charge_of_ne fun h => hns (by simp [h]), Nat.zero_add]

theorem fits_limit (h : q.limit F d = some L) : d.fits L := by
  cases d with
  | machines => trivial
  | cpu =>
    obtain ⟨-, rfl⟩ := limit_cpu h
    have := (MachineQuotaSpec.cpuLimit F q.spec).toNat_lt
    simp only [Dim.fits]
    omega
  | memory =>
    obtain ⟨-, rfl⟩ := limit_memory h
    have := (MachineQuotaSpec.memoryLimit F q.spec).toNat_lt
    simp only [Dim.fits]
    omega

/-! ## A Machine that is admitted -/

theorem room_of_admitted {qs : List MachineQuota} {ms : List Machine}
    (h : admitQuota F (seedTrackers F qs ms) m = .ok trackers) (hq : q ∈ qs)
    (hns : q.namespace = m.key.namespace) (hL : q.limit F d = some L)
    (hfits : d.fits (usage F d q.namespace ms + amount F d m)) :
    (usage F d q.namespace ms : Int) + amount F d m ≤ L := by
  obtain ⟨t, ht, rfl⟩ := exists_seedTracker (F := F) hq ms
  have htally := (tally_seedTrackers (d := d) ht).2.trans (hfits.mono (by omega)).hold_eq
  rw [← htally] at hfits ⊢
  exact le_limit_of_blocker ((admitQuota_ok h).2 t ht hns) hL hfits

theorem asked_of_allow {qs : Except String (List MachineQuota)} {ms : Except String (List Machine)}
    {check : List QuotaTracker → Option String}
    (hqs : Lists (quotas.filter fun q => q.namespace = ns) qs)
    (hms : Lists (w.rows.filter fun x => x.key.namespace = ns) ms) (hq : q ∈ quotas)
    (hns : q.namespace = ns)
    (h : decideByQuota (quotaTrackersForNamespace F qs ms) check = .allow) :
    ∃ qs' ms', q ∈ qs' ∧ (∀ d, usage F d q.namespace ms' = usage F d q.namespace w.rows) ∧
      check (seedTrackers F qs' ms') = none := by
  subst hns
  have hmem : q ∈ quotas.filter fun q' => q'.namespace = q.namespace := by simp [hq]
  cases qs with
  | error e => cases h
  | ok qs =>
    have hmem := (hqs qs rfl).symm.subset hmem
    cases qs with
    | nil => cases hmem
    | cons q' qs =>
      cases ms with
      | error e => cases h
      | ok ms =>
        refine ⟨_, ms, hmem, fun d => by rw [usage_perm (hms ms rfl), usage_filter], ?_⟩
        simp only [quotaTrackersForNamespace] at h
        cases hb : buildQuotaTrackers F (q' :: qs) ms with
        | error e =>
          rw [hb] at h
          cases h
        | ok trackers =>
          rw [hb] at h
          rw [← buildQuotaTrackers_ok hb]
          simp only [Except.map, decideByQuota] at h
          cases hc : check trackers with
          | none => rfl
          | some blocker =>
            simp [hc] at h

/-! ## Requests -/

theorem within_of_change (gone : Dim → String → ℕ) (hw : WithinLimits F quotas w) (hsum : ∀ d ns,
      usage F d ns w'.rows + gone d ns = usage F d ns w.rows + charge F d ns new)
    (hother : ∀ d ns, ns ≠ new.key.namespace → gone d ns = 0)
    (hroom : machineCountsTowardQuota new = true → ∀ q ∈ quotas, q.namespace = new.key.namespace →
      ∀ d L, q.limit F d = some L →
        (usage F d q.namespace w.rows : Int) - gone d q.namespace + amount F d new ≤ L) :
    WithinLimits F quotas w' := by
  intro q hq d L hL
  have hbefore := hw q hq d L hL
  have hsum := hsum d q.namespace
  by_cases hns : q.namespace = new.key.namespace
  · cases hc : machineCountsTowardQuota new with
    | false =>
      rw [charge_of_idle hc] at hsum
      omega
    | true =>
      have := hroom hc q hq hns d L hL
      rw [charge_of_counts hc, share_of_eq hns] at hsum
      omega
  · rw [charge_of_ne hns, hother d _ hns] at hsum
    omega

theorem Enters.room (h : Enters F quotas w m) (hq : q ∈ quotas)
    (hns : q.namespace = m.key.namespace) (hL : q.limit F d = some L) :
    (usage F d q.namespace w.rows : Int) + amount F d m ≤ L := by
  obtain ⟨trackers, hadmitted⟩ := h.admitted
  refine room_of_admitted hadmitted hq hns hL ?_
  rw [hns]
  exact h.representable d q hq hns (by rw [hL]; rfl)

theorem create_within (hw : WithinLimits F quotas w) (hG : Orderly F quotas w (.create m))
    (hs : QuotaStep F checks quotas w (.create m) w') : WithinLimits F quotas w' := by
  cases hs with
  | @create _ qs ms fresh hqs hms allowed =>
  refine within_of_change (fun _ _ => 0) hw (fun _ _ => sum_add fresh _) (fun _ _ _ => rfl) ?_
  intro hc q hq hns d L hL
  unfold validateMachineCreate at allowed
  split at allowed
  · cases allowed
  obtain ⟨qs', ms', hq', husage, hcheck⟩ := asked_of_allow hqs hms hq hns allowed
  cases ha : admitQuota F (seedTrackers F qs' ms') m with
  | error e => simp [ha] at hcheck
  | ok trackers =>
    rw [← husage, Int.natCast_zero, Int.sub_zero]
    refine room_of_admitted ha hq' hns hL ?_
    rw [husage, hns]
    exact hG hc d q hq hns (by rw [hL]; rfl)

theorem charge_le_usage (h : old ∈ w.rows) : charge F d ns old ≤ usage F d ns w.rows :=
  le_sum_of_mem (mem_map_of_mem h)

theorem room_of_resize {qs : Except String (List MachineQuota)} {ms : Except String (List Machine)}
    (hw : WithinLimits F quotas w) (stored : w.find new.key = some old)
    (hqs : Lists (quotas.filter fun q => q.namespace = new.key.namespace) qs)
    (hms : Lists (w.rows.filter fun x => x.key.namespace = new.key.namespace) ms)
    (allowed : validateMachineResize F checks qs ms old new = .allow)
    (hold : machineCountsTowardQuota old = true)
    (hexact : ∀ d, Representable F quotas new.key.namespace d
      (usage F d new.key.namespace w.rows - amount F d old + amount F d new))
    (hq : q ∈ quotas) (hns : q.namespace = new.key.namespace) (hL : q.limit F d = some L) :
    (usage F d q.namespace w.rows : Int) - amount F d old + amount F d new ≤ L := by
  have hbefore := hw q hq d L hL
  obtain ⟨hmem, hkey⟩ := Table.find_eq_some_iff.mp stored
  have hpart : amount F d old ≤ usage F d q.namespace w.rows := by
    rw [← share_of_eq (hkey ▸ hns), ← charge_of_counts hold]
    exact charge_le_usage hmem
  by_cases hgrows : amount F d new ≤ amount F d old
  · omega
  · have hd : d ≠ .machines := by
      rintro rfl
      exact hgrows (le_refl _)
    unfold validateMachineResize at allowed
    split at allowed
    · cases allowed
    simp only [hold, Bool.not_true, Bool.false_eq_true, if_false] at allowed
    split at allowed
    · next hle =>
      -- it does not grow
      refine absurd ?_ hgrows
      cases d with
      | machines => exact absurd rfl hd
      | cpu => exact UInt32.le_iff_toNat_le.mp hle.1
      | memory => exact UInt64.le_iff_toNat_le.mp hle.2
    · obtain ⟨qs', ms', hq', husage, hcheck⟩ := asked_of_allow hqs hms hq hns allowed
      obtain ⟨t, ht, rfl⟩ := exists_seedTracker (F := F) hq' ms'
      have htally : t.tally d = usage F d t.quota.namespace w.rows := by
        rw [← husage]
        refine (tally_seedTrackers (d := d) ht).2.trans ((fits_limit hL).mono ?_).hold_eq
        rwa [husage]
      have hfits := hexact d t.quota hq hns (by rw [hL]; rfl)
      rw [← hns, ← htally] at hfits
      rw [← htally]
      exact le_limit_of_resizeBlocker hd (admitQuotaResize_none hcheck t ht hns) hL (by omega) hfits

theorem update_within (hw : WithinLimits F quotas w) (hG : Orderly F quotas w (.update new))
    (hs : QuotaStep F checks quotas w (.update new) w') : WithinLimits F quotas w' := by
  cases hs with
  | @update old _ qs ms stored _ hqs hms allowed =>
  have hkey := (Table.find_eq_some_iff.mp stored).2
  refine within_of_change _ hw (fun d ns => sum_replace stored _)
    (fun d ns hns => charge_of_ne (hkey ▸ hns)) ?_
  intro hc q hq hns d L hL
  have hcond := hG old stored hc
  cases hold : machineCountsTowardQuota old with
  | true =>
    rw [if_pos hold] at hcond
    rw [charge_of_counts hold, share_of_eq (hkey ▸ hns)]
    exact room_of_resize hw stored hqs hms allowed hold hcond hq hns hL
  | false =>
    rw [if_neg (by simp [hold])] at hcond
    rw [charge_of_idle hold]
    simpa using hcond.room hq hns hL

theorem amount_withPower (m : Machine) (state : String) :
    amount F d (withPower m state) = amount F d m := by
  cases d <;> rfl

theorem power_within {state : String} (hw : WithinLimits F quotas w)
    (hG : Orderly F quotas w (.power k state))
    (hs : QuotaStep F checks quotas w (.power k state) w') : WithinLimits F quotas w' := by
  cases hs with
  | power =>
  cases hk : w.find k with
  | none =>
    have same : (w.edit k (fun m => withPower m state) fun _ => rfl).rows = w.rows :=
      rows_edit_of_find_eq_none hk
    intro q hq d L hL
    rw [same]
    exact hw q hq d L hL
  | some old =>
    refine within_of_change _ hw (fun d ns => sum_edit hk _) (fun d ns hns => charge_of_ne hns) ?_
    intro hc q hq hns d L hL
    cases hold : machineCountsTowardQuota old with
    | true =>
      rw [charge_of_counts hold, share_of_eq (m := old) hns, amount_withPower, Int.sub_add_cancel]
      exact hw q hq d L hL
    | false =>
      rw [charge_of_idle hold]
      simpa using (hG old hk hc hold).room hq hns hL

/-! ## The scheduling loop -/

variable (F quotas) in
/-- What the scheduling loop knows with the Machines `left` still to place: the trackers cover what
is used, and can hold what is to come. -/
structure Ledger (s : Board) (left : List Machine) : Prop where
  within : WithinLimits F quotas s.machines
  tracked : s.trackers.map QuotaTracker.quota = quotas
  covered : ∀ t ∈ s.trackers, ∀ d L, t.quota.limit F d = some L →
    (usage F d t.quota.namespace s.machines.rows : Int) ≤ t.tally d ∧
      d.fits (t.tally d + (left.map (share F d t.quota.namespace)).sum)
  stored : ∀ m ∈ left, ∀ r, s.machines.find m.key = some r → ∀ d, amount F d r ≤ amount F d m

variable (F quotas) in
structure Granted (s : Board) (m : Machine) (left : List Machine) : Prop extends
    Ledger F quotas s left where
  stored_self : ∀ r, s.machines.find m.key = some r → ∀ d, amount F d r ≤ amount F d m
  room : ∀ t ∈ s.trackers, t.quota.namespace = m.key.namespace → ∀ d L, t.quota.limit F d = some L →
      (usage F d t.quota.namespace s.machines.rows : Int) + amount F d m ≤ t.tally d ∧ t.tally d ≤ L

variable {s : Board} {left : List Machine}

theorem Ledger.skip (h : Ledger F quotas s (m :: left)) : Ledger F quotas s left where
  within := h.within
  tracked := h.tracked
  covered t ht d L hL := by
    obtain ⟨hcov, hfits⟩ := h.covered t ht d L hL
    refine ⟨hcov, hfits.mono ?_⟩
    rw [map_cons, sum_cons]
    push_cast
    omega
  stored x hx := h.stored x (mem_cons_of_mem _ hx)

theorem Ledger.admit (h : Ledger F quotas s (m :: left))
    (ha : admitQuota F s.trackers m = .ok trackers) :
    Granted F quotas { s with trackers } m left := by
  obtain ⟨rfl, hblock⟩ := admitQuota_ok ha
  have spent : ∀ t ∈ s.trackers, ∀ d L, t.quota.limit F d = some L →
      (spendOn F t m).tally d = t.tally d + share F d t.quota.namespace m ∧
        d.fits (t.tally d + share F d t.quota.namespace m +
          (left.map (share F d t.quota.namespace)).sum) := by
    intro t ht d L hL
    have hfits := (h.covered t ht d L hL).2
    rw [map_cons, sum_cons, Int.natCast_add, ← add_assoc] at hfits
    exact ⟨tally_spendOn.trans (hold_tally_add (hfits.mono (by omega))), hfits⟩
  refine ⟨⟨h.within, ?_, ?_, h.skip.stored⟩, h.stored m mem_cons_self, ?_⟩
  · rw [map_map, ← h.tracked]
    exact map_congr_left fun t _ => quota_spendOn
  · intro t' ht' d L hL
    obtain ⟨t, ht, rfl⟩ := mem_map.mp ht'
    rw [quota_spendOn] at hL ⊢
    obtain ⟨htally, hfits⟩ := spent t ht d L hL
    have hcov := (h.covered t ht d L hL).1
    rw [htally]
    exact ⟨hcov.trans (by omega), hfits⟩
  · intro t' ht' hns d L hL
    obtain ⟨t, ht, rfl⟩ := mem_map.mp ht'
    rw [quota_spendOn] at hns hL ⊢
    obtain ⟨htally, hfits⟩ := spent t ht d L hL
    have hcov := (h.covered t ht d L hL).1
    rw [share_of_eq hns] at htally hfits
    rw [htally]
    refine ⟨Int.add_le_add_right hcov _, ?_⟩
    exact le_limit_of_blocker (hblock t ht hns) hL (hfits.mono (by omega))

theorem usage_edit_le {hf : ∀ v, (f v).key = v.key} {more : ℕ}
    (h : ∀ r, w.find k = some r → charge F d ns (f r) ≤ charge F d ns r + more) :
    usage F d ns (w.edit k f hf).rows ≤ usage F d ns w.rows + more := by
  cases hk : w.find k with
  | none =>
    rw [rows_edit_of_find_eq_none hk]
    omega
  | some r =>
    have hsum : usage F d ns (w.edit k f hf).rows + charge F d ns r =
        usage F d ns w.rows + charge F d ns (f r) := sum_edit hk _
    have := h r hk
    omega

theorem stored_edit (hf : ∀ v, (f v).key = v.key) (hamount : ∀ d r, amount F d (f r) = amount F d r)
    (h : ∀ r, w.find m.key = some r → ∀ d, amount F d r ≤ amount F d m) :
    ∀ r, (w.edit k f hf).find m.key = some r → ∀ d, amount F d r ≤ amount F d m := by
  intro r hr d
  rw [find_edit] at hr
  split at hr
  · obtain ⟨r', hr', rfl⟩ := Option.map_eq_some_iff.mp hr
    rw [hamount]
    exact h r' hr' d
  · exact h r hr d

theorem Ledger.edit (h : Ledger F quotas s left)
    {hf : ∀ v, (f v).key = v.key} (hamount : ∀ d r, amount F d (f r) = amount F d r)
    (hcharge : ∀ d ns r, charge F d ns (f r) = charge F d ns r) :
    Ledger F quotas { s with machines := s.machines.edit k f hf } left := by
  have husage : ∀ d ns, (usage F d ns (s.machines.edit k f hf).rows : Int) ≤
      usage F d ns s.machines.rows := by
    intro d ns
    exact Int.ofNat_le.mpr
      (@usage_edit_le F s.machines d ns k f hf 0 fun r _ => (hcharge d ns r).le)
  refine ⟨?_, h.tracked, ?_, fun m hm => stored_edit hf hamount (h.stored m hm)⟩
  · intro q hq d L hL
    exact (husage d q.namespace).trans (h.within q hq d L hL)
  · intro t ht d L hL
    obtain ⟨hcov, hfits⟩ := h.covered t ht d L hL
    exact ⟨(husage d t.quota.namespace).trans hcov, hfits⟩

theorem Granted.place (h : Granted F quotas s m left) {p : MachinePatch} (hp : p.resources = none) :
    Ledger F quotas
      { s with machines := s.machines.edit m.key (·.patch p) (·.key_patch p) } left := by
  have hamount : ∀ d r, amount F d (Model.Machine.patch r p) = amount F d r := by
    intro d r
    cases d <;> simp [amount, machineFootprint, Machine.patch, hp]
  have husage : ∀ d ns,
      (usage F d ns (s.machines.edit m.key (·.patch p) (·.key_patch p)).rows : Int) ≤
        usage F d ns s.machines.rows + share F d ns m := by
    intro d ns
    refine Int.ofNat_le.mpr (usage_edit_le fun r hr => ?_)
    have hkey := (Table.find_eq_some_iff.mp hr).2
    have hle := h.stored_self r hr d
    have hbound : charge F d ns (r.patch p) ≤ share F d ns m := by
      unfold charge share
      rw [Machine.key_patch, hkey, hamount]
      split
      · split <;> omega
      · omega
    omega
  -- the tracker of a quota that applies has room for the Machine
  have cover : ∀ t ∈ s.trackers, ∀ d L, t.quota.limit F d = some L →
      (usage F d t.quota.namespace s.machines.rows : Int) + share F d t.quota.namespace m ≤
        t.tally d := by
    intro t ht d L hL
    by_cases hns : t.quota.namespace = m.key.namespace
    · rw [share_of_eq hns]
      exact (h.room t ht hns d L hL).1
    · rw [share_of_ne hns]
      simpa using (h.covered t ht d L hL).1
  refine ⟨?_, h.tracked, ?_, fun x hx => stored_edit (·.key_patch p) hamount (h.stored x hx)⟩
  · intro q hq d L hL
    rw [← h.tracked] at hq
    obtain ⟨t, ht, rfl⟩ := mem_map.mp hq
    have hu := husage d t.quota.namespace
    have hq : t.quota ∈ quotas := h.tracked ▸ mem_map_of_mem ht
    by_cases hns : t.quota.namespace = m.key.namespace
    · have := (h.room t ht hns d L hL).2
      have := cover t ht d L hL
      exact hu.trans (by omega)
    · rw [share_of_ne hns] at hu
      have := h.within t.quota hq d L hL
      exact hu.trans (by omega)
  · intro t ht d L hL
    have hu := husage d t.quota.namespace
    have := cover t ht d L hL
    exact ⟨hu.trans (by omega), (h.covered t ht d L hL).2⟩

theorem blocker_ne_empty {t : QuotaTracker} {fp : UInt32 × UInt64} {b : String}
    (h : t.blocker F fp = some b) : b ≠ "" := by
  have hreached (s : String) : s ++ " reached" ≠ "" := by simp
  simp only [QuotaTracker.blocker] at h
  split at h
  · cases h
    exact hreached _
  split at h
  · cases h
    exact hreached _
  split at h
  · cases h
    exact hreached _
  · cases h

theorem admitQuota_error {b : String} (h : admitQuota F trackers m = .error b) : b ≠ "" := by
  unfold admitQuota at h
  split at h
  · next hb =>
    cases h
    obtain ⟨t, -, ht⟩ := exists_of_findSome?_eq_some hb
    exact blocker_ne_empty ht
  · cases h

theorem resources_placementPatch {node : String} {p : MachinePatch}
    (h : placementPatch c machines nodes m node = .ok p) : p.resources = none := by
  obtain ⟨cpus, rfl⟩ := placementPatch_ok h
  rfl

abbrev KeepsWithin (F : GoFloat) (quotas : List MachineQuota) {α : Type} (post : Board → α → Prop)
    (s : Board) (p : M α) : Prop :=
  p.Keeps (quotaService F) (fun s => WithinLimits F quotas s.machines) post s

theorem reportUnplaced_keeps (h : Ledger F quotas s left) (reason message : String) :
    KeepsWithin F quotas (fun s _ => Ledger F quotas s left) s
      (reportUnplaced m reason message) := by
  refine ⟨h.within, fun now s₁ hs => ?_⟩
  obtain rfl : s₁ = s := hs
  refine ⟨h.within, fun r s₂ hs => ?_⟩
  have h₂ : Ledger F quotas s₂ left := by
    rcases hs with rfl | ⟨-, rfl⟩
    · exact h.edit (fun d r => by cases d <;> rfl) fun _ _ _ => rfl
    · exact h
  exact ⟨h₂.within, h₂⟩

theorem placeMachine_keeps (h : Ledger F quotas s (m :: left)) :
    KeepsWithin F quotas (fun s _ => Ledger F quotas s left) s
      (placeMachine c machines nodes m) := by
  refine ⟨h.within, fun r s₁ hs => ?_⟩
  obtain rfl : s₁ = s := hs
  cases r with
  | error e =>
    exact (reportUnplaced_keeps h.skip _ _).bind fun _ _ _ h' => ⟨h'.within, h'⟩
  | ok node =>
    refine ⟨h.within, fun (blocker : String) s₂ hs => ?_⟩
    change quotaService F s₁ (.decision (.admitQuota m)) blocker s₂ at hs
    simp only [quotaService] at hs
    show Prog.Keeps _ _ _ _ (if blocker ≠ "" then _ else _)
    split at hs
    · next b ha =>
      obtain ⟨rfl, rfl⟩ := hs
      rw [if_pos (admitQuota_error ha)]
      refine (reportUnplaced_keeps h.skip _ _).bind fun s₃ _ _ h₃ => ⟨h₃.within, fun _ s₄ hs => ?_⟩
      obtain rfl : s₄ = s₃ := hs
      exact ⟨h₃.within, h₃⟩
    · next trackers ha =>
      obtain ⟨rfl, rfl⟩ := hs
      have hg := h.admit ha
      rw [if_neg (not_not.mpr rfl)]
      cases hp : placementPatch c machines nodes m node with
      | error e =>
        exact (reportUnplaced_keeps hg.toLedger _ _).bind fun _ _ _ h' => ⟨h'.within, h'⟩
      | ok p =>
        refine ⟨hg.within, fun r s₃ hs => ?_⟩
        have h₃ : Ledger F quotas s₃ left := by
          rcases hs with rfl | ⟨-, rfl⟩
          · exact hg.place (resources_placementPatch hp)
          · exact hg.toLedger
        cases r <;> exact ⟨h₃.within, h₃⟩

theorem placeMachines_keeps (h : Ledger F quotas s left) :
    KeepsWithin F quotas (fun _ _ => True) s (placeMachines c machines nodes left) := by
  induction left generalizing s with
  | nil => exact ⟨h.within, trivial⟩
  | cons m left ih =>
    exact (placeMachine_keeps h).andThen (fun _ _ _ _ => trivial) fun _ _ _ h' => ih h'

/-! ## A tick -/

theorem resolve_cases (m : Machine) : resolveInstanceType types m = m ∨
    (m.spec.resources.cpu = "" ∧ m.spec.resources.memory = "") ∧ ∃ resources,
      resolveInstanceType types m = { m with spec := { m.spec with resources } } := by
  unfold resolveInstanceType
  split
  · exact .inl rfl
  · next t ht =>
    refine .inr ⟨?_, _, rfl⟩
    obtain ⟨hneeds, ht⟩ := Option.ite_none_right_eq_some.mp ht
    simp only [machineNeedsInstanceType, Bool.and_eq_true, beq_iff_eq] at hneeds
    exact ⟨hneeds.1.2, hneeds.2⟩

theorem amount_resolve (m : Machine) : amount F d m ≤ amount F d (resolveInstanceType types m) := by
  rcases resolve_cases types m with heq | ⟨⟨hcpu, hmemory⟩, -⟩
  · rw [heq]
  · cases d with
    | machines => exact le_refl _
    | cpu => simp [amount, machineFootprint, hcpu, parseVCPUs_empty]
    | memory => simp [amount, machineFootprint, hmemory, parseMemoryMiB_empty]

theorem key_resolve (m : Machine) : (resolveInstanceType types m).key = m.key := by
  rcases resolve_cases types m with heq | ⟨-, _, heq⟩ <;> rw [heq]
  rfl

theorem charge_resolve (m : Machine) :
    charge F d ns m ≤ charge F d ns (resolveInstanceType types m) := by
  have hcounts : machineCountsTowardQuota (resolveInstanceType types m) =
      machineCountsTowardQuota m := by
    rcases resolve_cases types m with heq | ⟨-, _, heq⟩ <;> rw [heq]
    rfl
  have := amount_resolve (F := F) (d := d) types m
  unfold charge share
  rw [hcounts, key_resolve]
  split
  · split <;> omega
  · omega

theorem usage_resolve : usage F d ns ms ≤ usage F d ns (ms.map (resolveInstanceType types)) := by
  unfold usage
  rw [map_map]
  exact sum_le_sum fun m _ => charge_resolve types m

theorem usage_add_pending_le (volumesNotReady imagesNotReady : List ObjectKey) :
    usage F d ns ms + ((pendingMachines ms volumesNotReady imagesNotReady).map (share F d ns)).sum ≤
      demand F d ns ms := by
  unfold pendingMachines
  rw [((perm_insertionSort _ _).map _).sum_eq, sum_filter, usage, demand, sum_filter, ← sum_map_add]
  refine sum_le_sum fun m _ => ?_
  unfold charge
  split
  · next hc =>
    -- it has a node, so it is not to be placed
    simp only [machineCountsTowardQuota, Bool.and_eq_true, bne_iff_ne] at hc
    simp [machineIsLive, hc]
  · split
    · next hp =>
      simp only [decide_eq_true_eq] at hp
      simp [machineIsLive, hp]
    · simp

theorem Ledger.start {types : List MachineInstanceType} {listed : List Machine}
    (volumesNotReady imagesNotReady : List ObjectKey) (hw : WithinLimits F quotas w)
    (hG : Orderly F quotas w (.tick types)) (hperm : listed.Perm w.rows)
    (hbuilt : buildQuotaTrackers F quotas (listed.map (resolveInstanceType types)) = .ok trackers) :
    Ledger F quotas ⟨w, trackers⟩
      (pendingMachines (listed.map (resolveInstanceType types)) volumesNotReady
        imagesNotReady) := by
  obtain rfl := buildQuotaTrackers_ok hbuilt
  refine ⟨hw, ?_, ?_, ?_⟩
  · rw [seedTrackers_eq, map_map]
    exact (map_congr_left fun q _ => quota_foldl _).trans (map_id _)
  · intro t ht d L hL
    obtain ⟨hq, htally⟩ := tally_seedTrackers (d := d) ht
    have hdemand : demand F d t.quota.namespace (listed.map (resolveInstanceType types)) =
        demand F d t.quota.namespace (w.rows.map (resolveInstanceType types)) :=
      (((hperm.map _).filter _).map _).sum_eq
    have hfits := hG t.quota.namespace d t.quota hq rfl (by rw [hL]; rfl)
    rw [← hdemand] at hfits
    have hsum := @usage_add_pending_le F d t.quota.namespace
      (listed.map (resolveInstanceType types)) volumesNotReady imagesNotReady
    have husage := @usage_resolve F d t.quota.namespace types listed
    rw [usage_perm hperm] at husage
    rw [htally, Dim.fits.hold_eq (hfits.mono (by omega))]
    exact ⟨by exact_mod_cast husage, hfits.mono (by omega)⟩
  · intro m hm r hr d
    have hm : m ∈ listed.map (resolveInstanceType types) := by
      have := (perm_insertionSort _ _).subset hm
      exact mem_of_mem_filter this
    obtain ⟨r', hr', rfl⟩ := mem_map.mp hm
    rw [key_resolve, Table.find_eq_some_iff.mpr ⟨hperm.subset hr', rfl⟩] at hr
    rw [← Option.some.inj hr]
    exact amount_resolve types r'

theorem tick_within {types : List MachineInstanceType} (hw : WithinLimits F quotas w)
    (hG : Orderly F quotas w (.tick types))
    (hs : QuotaStep F checks quotas w (.tick types) w') : WithinLimits F quotas w' := by
  cases hs with
  | tick hperm hbuilt hrun =>
    exact (hrun.keeps (placeMachines_keeps (Ledger.start _ _ hw hG hperm hbuilt))).now

/-- In every run of requests, changes of the power state and ticks that meet the condition, the
exact usage stays within the limits of all quotas. -/
theorem within_limits_of_orderly (hrun : QuotaRun F checks quotas (Orderly F quotas) w w')
    (hw : WithinLimits F quotas w) : WithinLimits F quotas w' := by
  induction hrun with
  | refl => exact hw
  | @snoc w₁ w₂ act _ meets step ih =>
    cases act with
    | create m => exact create_within ih meets step
    | update new => exact update_within ih meets step
    | power k state => exact power_within ih meets step
    | tick types => exact tick_within ih meets step

/-! ## A quota that is exceeded -/

def noOtherChecks : OtherChecks := ⟨fun _ => none, fun _ => none, fun _ _ => none⟩

def oneMachine : List MachineQuota := [⟨"default", "one", ⟨some 1, "", ""⟩⟩]

def fourCores : List MachineQuota := [⟨"default", "cores", ⟨none, "4", ""⟩⟩]

def runningVM : Machine := plainMachine "vm" "node-a" twoCores

def newVM : Machine := plainMachine "web" "" twoCores

def hugeVM : Machine := plainMachine "huge" "node-a" { twoCores with cpu := "4294967295" }

def oneRunning : Machines := Table.add ⟨[], nodup_nil⟩ runningVM

def oneHalted : Machines :=
  oneRunning.edit runningVM.key (fun m => withPower m "Halted") fun _ => rfl

def oneHaltedOneNew : Machines := oneHalted.add newVM

def oneHaltedOneRunning : Machines :=
  oneHaltedOneNew.edit newVM.key (·.patch (assignPatch "node-a")) (·.key_patch _)

def bothRunning : Machines :=
  oneHaltedOneRunning.edit runningVM.key (fun m => withPower m "Running") fun _ => rfl

theorem lists_all {α : Type} (all : List α) : Lists all (.ok all) := by
  intro l h
  cases h
  exact .refl _

theorem halt_running (quotas : List MachineQuota) :
    QuotaStep wholeNumbers noOtherChecks quotas oneRunning (.power runningVM.key "Halted")
      oneHalted :=
  .power

theorem create_new :
    QuotaStep wholeNumbers noOtherChecks oneMachine oneHalted (.create newVM) oneHaltedOneNew :=
  .create (by decide) (lists_all _) (lists_all _) (by decide +kernel)

theorem quotaService_admit (h : admitQuota F s.trackers m = .ok trackers) :
    quotaService F s (.decision (.admitQuota m)) "" { s with trackers } := by
  simp only [quotaService]
  rw [h]
  exact ⟨rfl, rfl⟩

def sampleSettings : Config := ⟨0, 0, fun _ => .ok 0⟩

def noneCounted : List QuotaTracker := [⟨⟨"default", "one", ⟨some 1, "", ""⟩⟩, ⟨0, 0, 0⟩⟩]

def oneCounted : List QuotaTracker := [⟨⟨"default", "one", ⟨some 1, "", ""⟩⟩, ⟨1, 2, 2048⟩⟩]

theorem place_new : QuotaStep wholeNumbers noOtherChecks oneMachine oneHaltedOneNew (.tick [])
      oneHaltedOneRunning := by
  have hpending : pendingMachines (oneHaltedOneNew.rows.map (resolveInstanceType [])) [] [] =
      [newVM] := by decide
  have hadmit : admitQuota wholeNumbers noneCounted newVM = .ok oneCounted := by decide +kernel
  have run : Prog.Reaches (quotaService wholeNumbers) ⟨oneHaltedOneNew, noneCounted⟩
      (placeMachines sampleSettings (oneHaltedOneNew.rows.map (resolveInstanceType []))
        [⟨"node-a", [], []⟩] [newVM]) ⟨oneHaltedOneRunning, oneCounted⟩ (.ret (.ok ())) := by
    have served := quotaService_admit (s := ⟨oneHaltedOneNew, noneCounted⟩) hadmit
    refine .call (a := .ok "node-a") rfl (.call served ?_)
    -- the empty blocker
    simp only [Prog.bind, ne_eq, not_true_eq_false, if_false]
    exact .call (a := Except.ok ()) (Or.inl rfl) .refl
  have hbuilt : buildQuotaTrackers wholeNumbers oneMachine
      (oneHaltedOneNew.rows.map (resolveInstanceType [])) = .ok noneCounted := by decide +kernel
  rw [← hpending] at run
  exact .tick (.refl _) hbuilt run

theorem oneRunning_within : WithinLimits wholeNumbers oneMachine oneRunning := by
  intro q hq d L hL
  cases mem_singleton.mp hq
  cases d <;> cases hL
  decide

/-- A quota of one Machine and a quota of cores are both exceeded: the first by a Machine that is
powered on after another has taken its place, the second by a request for so many cores that the sum
wraps around. -/
theorem quotas_exceeded : (∃ w w', WithinLimits wholeNumbers oneMachine w ∧
      QuotaRun wholeNumbers noOtherChecks oneMachine (fun _ _ => True) w w' ∧
      ¬WithinLimits wholeNumbers oneMachine w') ∧
    ∃ w w', WithinLimits wholeNumbers fourCores w ∧
      QuotaRun wholeNumbers noOtherChecks fourCores (fun _ _ => True) w w' ∧
      ¬WithinLimits wholeNumbers fourCores w' := by
  refine ⟨⟨oneRunning, bothRunning, oneRunning_within, ?_, fun h => ?_⟩,
    ⟨oneRunning, oneRunning.add hugeVM, ?_, ?_, fun h => ?_⟩⟩
  · exact .snoc (.snoc (.snoc (.snoc .refl trivial (halt_running _)) trivial create_new)
      trivial place_new) trivial .power
  · exact absurd (h _ (mem_singleton_self _) .machines 1 rfl) (by decide)
  · intro q hq d L hL
    cases mem_singleton.mp hq
    cases d with
    | machines | memory => cases hL
    | cpu =>
      have hfour : (⟨"default", "cores", ⟨none, "4", ""⟩⟩ : MachineQuota).limit wholeNumbers .cpu =
          some 4 := by decide +kernel
      cases hfour.symm.trans hL
      decide +kernel
  · exact .snoc .refl trivial
      (.create (by decide) (lists_all _) (lists_all _) (by decide +kernel))
  · exact absurd (h _ (mem_singleton_self _) .cpu 4 (by decide +kernel)) (by decide +kernel)

theorem within_limits_of_orderly_tick : WithinLimits wholeNumbers oneMachine oneRunning ∧
      QuotaRun wholeNumbers noOtherChecks oneMachine (Orderly wholeNumbers oneMachine) oneRunning
        oneHaltedOneRunning ∧
      WithinLimits wholeNumbers oneMachine oneHaltedOneRunning := by
  have halting : Orderly wholeNumbers oneMachine oneRunning (.power runningVM.key "Halted") := by
    intro old _ hc
    simp [machineCountsTowardQuota, withPower, Machine.desiredPowerState] at hc
  have creating : Orderly wholeNumbers oneMachine oneHalted (.create newVM) :=
    fun hc => absurd hc (by decide)
  have placing : Orderly wholeNumbers oneMachine oneHaltedOneNew (.tick []) := by
    intro ns d q hq _ hlimited
    cases mem_singleton.mp hq
    cases d with
    | machines => trivial
    | cpu | memory => cases hlimited
  have hrun : QuotaRun wholeNumbers noOtherChecks oneMachine (Orderly wholeNumbers oneMachine)
      oneRunning oneHaltedOneRunning :=
    .snoc (.snoc (.snoc .refl halting (halt_running _)) creating create_new) placing place_new
  exact ⟨oneRunning_within, hrun, within_limits_of_orderly hrun oneRunning_within⟩

end Kairon.Controller
