import Kairon.Fleet.Approval
import Kairon.Infra.Ledger
import Kairon.Infra.Play

/-!
# An approval is spent once

A caller of `ConsumeApproval` writes with the version it read, so what it writes to is what it
checked. The status patch takes away the empty phase, and the webhook lets nobody give it back.

* `holdsCopies_inductive`: what a caller has read is what was stored
* `spend_ledger`: spending takes a right away that nobody gives back
* `approval_spent_once`: of any number of callers at most one spends an approval
-/

namespace Kairon.Fleet

open Infra Model List Pasts

/-! ## What a caller does -/

/-- The approval is one for what the caller expects, at the caller's time. -/
structure Binds (actual expected : ApprovalSpec) (now : Time) : Prop where
  action : actual.action = expected.action
  argumentsHash : actual.argumentsHash = expected.argumentsHash
  principal : actual.principal = expected.principal
  targetResource : actual.targetResource = expected.targetResource
  targetName : actual.targetName = expected.targetName
  targetUID : actual.targetUID = expected.targetUID
  targetGeneration : actual.targetGeneration = expected.targetGeneration
  approver : actual.approver ≠ actual.principal
  unexpired : now.instant < actual.expiresAt.instant
  bounded : actual.expiresAt.instant ≤ now.instant + maxTTL

def HasRead (o : FleetResource) (h : History) : Prop :=
  ∃ ns name, h = [⟨.getFleet ns name, .ok o⟩]

def SpendRule (h : History) : ApprovalOp → Prop
  | .getFleet _ _ => h = []
  | .patchFleetStatus o status =>
    HasRead o h ∧ o.status.phase = "" ∧ status.phase = "Consumed"

def SpendPost (J : SpecJson) (t : Caller) (h : History) (r : Except String String) : Prop :=
  ∀ approver, r = .ok approver → ∃ o status actual h',
    h = ⟨.patchFleetStatus o status, .ok ()⟩ :: h' ∧ HasRead o h' ∧
      J.decode o.spec = .ok actual ∧ actual.approver = approver ∧ Binds actual t.expected t.now

variable {J : SpecJson} {hexSum : String → String}

theorem consumeApproval_follows (t : Caller) :
    (consumeApproval J hexSum t.ns t.expected t.now).Follows SpendRule (SpendPost J t) [] := by
  have fails : ∀ {h : History} {e : String}, SpendPost J t h (.error e) := nofun
  refine ⟨rfl, fun | .error _ => fails | .ok o => ?_⟩
  dsimp only
  split
  · exact fails
  · split
    · exact fails
    · next actual hactual =>
      split
      · exact fails
      · next hmatch =>
        split
        · exact fails
        · next happrover =>
          split
          · exact fails
          · next htime =>
            split
            · exact fails
            · next hphase =>
              simp only [not_or, not_not] at hmatch htime hphase
              obtain ⟨h₁, h₂, h₃, h₄, h₅, h₆, h₇⟩ := hmatch
              refine ⟨⟨⟨_, _, rfl⟩, hphase, rfl⟩, fun | .error _ => fails | .ok () => ?_⟩
              rintro approver ⟨⟩
              exact ⟨o, _, actual, _, rfl, ⟨_, _, rfl⟩, hactual, rfl,
                ⟨h₁, h₂, h₃, h₄, h₅, h₆, h₇, happrover, htime.1, by omega⟩⟩

theorem caller_follows (t : Caller) (p : Prog ApprovalOp.Ans Result)
    (h : (approvalHost J hexSum).start t p) :
    p.Follows SpendRule (fun past r => r.2 = past ∧ SpendPost J t past r.1) [] := by
  have hp : p = (consumeApproval J hexSum t.ns t.expected t.now).record [] := h
  rw [hp]
  exact (consumeApproval_follows t).record

/-! ## The copies that callers hold -/

def HoldsCopies (w : Store) (ps : Pasts ApprovalOp.Ans Caller) : Prop :=
  ∀ t past, ps t = some past → ∀ o, HasRead o past → w.Copy o

theorem holdsCopies_inductive : Inductive (approvalHost J hexSum) (fun _ => SpendRule)
      (fun t past r => r.2 = past ∧ SpendPost J t past r.1) (fun _ _ => True) HoldsCopies where
  start := by
    intro w ps t h _
    refine forall_update ?_ fun u past _ => h u past
    rintro past ⟨⟩ o ⟨ns, name, hread⟩
    cases hread
  call := by
    intro c t e a w past h hpast hok _ hw
    refine forall_update ?_ fun u past' _ hu o ho => copy_of_outcomes hw (h u past' hu o ho)
    rintro past' ⟨⟩ o ⟨ns, name, hread⟩
    obtain ⟨hev, -⟩ := List.cons.inj hread
    cases hev
    obtain ⟨hfind, hw⟩ := mem_ite_nil_right.mp hw
    rw [mem_singleton.mp hw]
    exact .of_mem (Table.find_eq_some_iff.mp hfind).1
  stop := by
    intro w ps t past r h _ _
    exact forall_update nofun fun u past' _ => h u past'
  crash := by
    intro c t past h _ _ _
    exact forall_update nofun fun u past' _ => h u past'
  env := fun h hw _ t past hp o ho => copy_of_upkeep hw (h t past hp o ho)

/-! ## The right to spend -/

def openFor (uid : String) (w : Store) : Bool :=
  !w.uids.contains uid || w.table.rows.any fun o => o.uid == uid && o.status.phase == ""

theorem openFor_iff {uid : String} {w : Store} : openFor uid w = true ↔
      (uid ∈ w.uids → ∃ o ∈ w.table.rows, o.uid = uid ∧ o.status.phase = "") := by
  simp [openFor, imp_iff_not_or]

variable {uid : String} {w w' : Store} {o : FleetResource}

theorem openFor_of_update {k : ObjectKey} {f : FleetResource → FleetResource}
    {hf : ∀ o, (f o).key = o.key ∧ (f o).uid = o.uid}
    (hphase : ∀ o ∈ w.table.rows, o.key = k → (f o).status.phase = "" → o.status.phase = "")
    (h : openFor uid (w.update k f hf) = true) : openFor uid w = true := by
  rw [openFor_iff] at h ⊢
  intro hu
  obtain ⟨o', ho', hid, hempty⟩ := h hu
  rcases Registry.mem_update.mp ho' with ⟨ho, -⟩ | ⟨o, ho, hk, rfl⟩
  · exact ⟨o', ho, hid, hempty⟩
  · exact ⟨o, ho, (hf o).2.symm.trans hid, hphase o ho hk hempty⟩

theorem openFor_of_upkeep (h : Upkeep J w w') (hopen : openFor uid w' = true) :
    openFor uid w = true := by
  cases h with
  | create free fresh admitted =>
    rw [openFor_iff] at hopen ⊢
    intro hu
    obtain ⟨o', ho', hid, hempty⟩ := hopen (mem_cons_of_mem _ hu)
    rcases Registry.mem_create.mp ho' with rfl | ho
    · exact absurd (hid ▸ hu) fresh
    · exact ⟨o', ho, hid, hempty⟩
  | update found same admitted =>
    refine openFor_of_update (fun o' ho' hk hempty => ?_) hopen
    rw [Table.eq_of_key_eq ho' found hk] at hempty ⊢
    exact phase_eq_of_validateFleet admitted hempty
  | delete =>
    rw [openFor_iff] at hopen ⊢
    intro hu
    obtain ⟨o', ho', hid⟩ := hopen hu
    exact ⟨o', Registry.mem_of_mem_erase ho', hid⟩

theorem openFor_of_patch {k : ObjectKey} {status : FleetStatus} (hs : status.phase = "Consumed")
    (h : openFor uid (w.patchStatus k status) = true) : openFor uid w = true := by
  refine openFor_of_update (fun o _ _ hempty => ?_) h
  have hempty : status.phase = "" := hempty
  rw [hs] at hempty
  exact absurd hempty (by decide)

theorem openFor_patched {status : FleetStatus} (ho : o ∈ w.table.rows)
    (hphase : o.status.phase = "") (hs : status.phase = "Consumed") :
    openFor o.uid w = true ∧ openFor o.uid (w.patchStatus o.key status) = false := by
  refine ⟨openFor_iff.mpr fun _ => ⟨o, ho, rfl, hphase⟩, ?_⟩
  rw [Bool.eq_false_iff, ne_eq, openFor_iff]
  intro h
  obtain ⟨o', ho', hid, hempty⟩ := h (w.known o ho).2
  rcases Registry.mem_update.mp ho' with ⟨hold, hk⟩ | ⟨x, hx, hk, rfl⟩
  · exact hk (congrArg _ (w.apart o' hold o ho (.inl hid)))
  · have hempty : status.phase = "" := hempty
    rw [hs] at hempty
    exact absurd hempty (by decide)

def rights (uid : String) (w : Store) : ℕ := (openFor uid w).toNat

theorem rights_le (h : openFor uid w' = true → openFor uid w = true) :
    rights uid w' ≤ rights uid w :=
  Bool.toNat_le_toNat (Bool.le_iff_imp.mpr h)

def patched (uid : String) : Event ApprovalOp.Ans → Bool
  | ⟨.patchFleetStatus o _, .ok ()⟩ => o.uid == uid
  | _ => false

def succeeds (uid : String) : Label ApprovalOp.Ans Result Caller Store → Bool
  | .stop _ (.ok _, h) => h.any (patched uid)
  | _ => false

/-- The right to spend the approval `uid` is there once: with the approval, and after the patch
with the caller that made it. Nobody issues it again. -/
theorem spend_ledger (uid : String) : Ledger (approvalHost J hexSum) (fun _ => SpendRule)
      (fun t past r => r.2 = past ∧ SpendPost J t past r.1) HoldsCopies
      (rights uid) (fun _ past => (past.any (patched uid)).toNat)
      (fun _ => false) (succeeds uid) where
  nothing _ := rfl
  start _ _ := rfl
  call := by
    intro w ps t e a w' past hi hpast hok hw
    simp only [succeeds, Bool.toNat_false, Nat.add_zero, any_cons]
    match e, a, hok, hw with
    | .getFleet ns name, a, hok, hw =>
      rcases outcomes_cases hw with rfl | ⟨o, status, he, -⟩
      · simp [patched]
      · cases he
    | .patchFleetStatus o status, .error e, ⟨⟨ns, name, hread⟩, hphase, hs⟩, hw =>
      have : rights uid w' ≤ rights uid w := by
        rcases mem_cons.mp hw with rfl | hw
        · exact le_refl _
        · obtain ⟨x, -, -, -, rfl⟩ := mem_patchIfCurrent hw
          exact rights_le (openFor_of_patch hs)
      simpa [patched] using this
    | .patchFleetStatus o status, .ok (), ⟨hread, hphase, hs⟩, hw =>
      obtain ⟨ho, rfl⟩ := mem_rows_of_patched hw (hi t past hpast o hread)
      obtain ⟨ns, name, rfl⟩ := hread
      by_cases hu : o.uid = uid
      · subst hu
        obtain ⟨hbefore, hafter⟩ := openFor_patched ho hphase hs
        simp [rights, hbefore, hafter, patched]
      · have : rights uid (w.patchStatus o.key status) ≤ rights uid w :=
          rights_le (openFor_of_patch hs)
        have hother : patched uid ⟨.patchFleetStatus o status, .ok ()⟩ = false := by
          simpa [patched] using hu
        simpa [hother] using this
  stop := by
    rintro t past ⟨r, h⟩ ⟨rfl, -⟩
    cases r with
    | error e => exact Nat.zero_le _
    | ok approver => exact le_refl _
  crash _ := rfl
  env := by
    intro w ps w' _ hw
    exact rights_le (openFor_of_upkeep hw)

/-! ## The result -/

/--
However many callers there are and however their reads and patches fall, an approval is spent at
most once. A caller that spent one wrote to the very object it had checked, and that one binds
what the caller expected.
-/
theorem approval_spent_once {w : Store} {tr : List (Label ApprovalOp.Ans Result Caller Store)}
    {c : Conf ApprovalOp.Ans Result Caller Store}
    (hrun : Run (approvalHost J hexSum) (fun _ _ => True) (.idle w) tr c) :
    (∀ uid, tr.countP (succeeds uid) ≤ 1) ∧
      ∀ t approver past, .stop t (.ok approver, past) ∈ tr → ∃ o status actual tr₁ tr₂ c₁,
        past.head? = some ⟨.patchFleetStatus o status, .ok ()⟩ ∧
          tr = tr₁ ++ .call t ⟨.patchFleetStatus o status, .ok ()⟩ :: tr₂ ∧
          Run (approvalHost J hexSum) (fun _ _ => True) (.idle w) tr₁ c₁ ∧
          c₁.world.table.find o.key = some o ∧ J.decode o.spec = .ok actual ∧
          actual.approver = approver ∧ Binds actual t.expected t.now := by
  have nobody : HoldsCopies w fun _ => none := nofun
  refine ⟨fun uid => ?_, fun t approver past hstop => ?_⟩
  · have hle := (spend_ledger uid).spent_le_issued holdsCopies_inductive caller_follows nobody hrun
    have hone : rights uid w ≤ 1 := Bool.toNat_le _
    rw [countP_false, Function.const_apply] at hle
    omega
  · obtain ⟨tr', tr'', c', h, rfl, hrun', hpast, rfl, hpost⟩ :=
      hrun.returned caller_follows (Conf.follows_idle _ _ w) hstop
    obtain ⟨o, status, actual, h', rfl, hread, hdecode, happrover, hbinds⟩ := hpost approver rfl
    -- the patch is the last call it made
    have hlast : c'.past t = some ([] ++ ⟨.patchFleetStatus o status, .ok ()⟩ :: h') := hpast
    obtain ⟨tr₁, tr₂, c₁, c₂, rfl, hrun₁, hpast₁, hstep, -⟩ := hrun'.exists_call hlast
    refine ⟨o, status, actual, tr₁, _, c₁, rfl, append_assoc _ _ _, hrun₁, ?_, hdecode,
      happrover, hbinds⟩
    have hcopy : c₁.world.Copy o :=
      holdsCopies_inductive.run caller_follows hrun₁ (Conf.follows_idle _ _ w) nobody t h' hpast₁ o
        hread
    cases hstep with
    | call _ out => exact Table.find_eq_some_iff.mpr ⟨(mem_rows_of_patched out hcopy).1, rfl⟩

def sampleSpec : ApprovalSpec :=
  { action := "delete_machine"
    argumentsHash := String.ofList (List.replicate 64 'a')
    principal := "agent"
    targetResource := "machines"
    targetName := "web-1"
    targetUID := "machine-1"
    targetGeneration := 3
    approver := "human"
    expiresAt := ⟨100⟩ }

def sampleJson : SpecJson := ⟨fun _ => .ok sampleSpec, fun _ => sampleSpec, fun _ _ => true⟩

def sampleStore : Store where
  table := ⟨[⟨⟨"prod", "approval-0"⟩, "approval-uid", 1, 1, "", {}⟩], by decide⟩
  revision := 1
  uids := ["approval-uid"]
  known := by decide
  apart := by decide

def sampleCaller (id : Nat) : Caller := ⟨id, "prod", sampleSpec, ⟨50⟩⟩

def answers (written : GoErr) (w : Store) : (e : ApprovalOp) → e.Ans
  | .getFleet ns name => (w.table.find ⟨ns, name⟩).elim (.error "not found") .ok
  | .patchFleetStatus _ _ => written

def raceScript : List (Move ApprovalOp.Ans Result Caller Store) :=
  let begin id := Move.start (sampleCaller id)
    ((consumeApproval sampleJson (fun _ => "0") "prod" sampleSpec ⟨50⟩).record [])
  [begin 1, begin 2, .call (sampleCaller 1) (answers (.ok ())) 0,
    .call (sampleCaller 2) (answers (.ok ())) 0, .call (sampleCaller 1) (answers (.ok ())) 0,
    .call (sampleCaller 2) (answers (.error "conflict")) 0, .stop (sampleCaller 1),
    .stop (sampleCaller 2)]

theorem approval_spent_once_race :
    ∃ tr c, Run (approvalHost sampleJson fun _ => "0") (fun _ _ => True) (.idle sampleStore) tr c ∧
      tr.countP (succeeds "approval-uid") = 1 ∧ ∀ uid, tr.countP (succeeds uid) ≤ 1 := by
  have may : (approvalHost sampleJson fun _ => "0").Allows raceScript := ⟨rfl, rfl⟩
  have run := Host.run_of_play (c := .idle sampleStore) may rfl
  exact ⟨_, _, run, rfl, (approval_spent_once run).1⟩

end Kairon.Fleet
