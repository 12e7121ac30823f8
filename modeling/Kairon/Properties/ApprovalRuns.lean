import Kairon.Infra.Ledger
import Kairon.Infra.Play
import Kairon.Mcp.Server

/-!
# No run without an approval

A server takes the annotation away before it runs a body, in one patch that tests and removes. So
every run has used up an annotation of its own, and there are no more of these than were written.

* `approval_ledger`: a run takes an annotation away that a write has put there
* `runs_within_writes`: no more bodies run than approvals were written
-/

namespace Kairon.Mcp

open Infra Model List

variable {G : GoLib} {c : ToolCall G}

abbrev History (G : GoLib) := List (Event (McpOp.Ans (G := G)))

/-! ## The hook and the body read the same arguments -/

theorem targetFields_distinct : targetFields.Distinct := by decide +kernel

theorem targetFields_compatible (tool : Tool) : targetFields.Compatible tool.arguments := by
  cases tool <;> decide +kernel

theorem skim_of_decodeArgs {tool : Tool} {args : JsonText G.N.Literal} {a : Field → Slot}
    (h : decodeArgs G.N tool args = some a) :
    ∃ a', targetFields.skim G.N args = some a' ∧ textOf a' "namespace" = textOf a "namespace" ∧
      textOf a' "name" = textOf a "name" ∧ textOf a' "action" = textOf a "action" ∧
      textOf a' "backup" = textOf a "backup" := by
  obtain ⟨a', hskim, hsame⟩ :=
    Layout.skim_of_read targetFields_distinct (targetFields_compatible tool) h
  have text : ∀ name, ⟨name, .string⟩ ∈ targetFields → textOf a' name = textOf a name :=
    fun name hname => by rw [textOf, textOf, hsame _ hname]
  exact ⟨a', hskim, text _ (by decide), text _ (by decide), text _ (by decide), text _ (by decide)⟩

theorem approvalTarget_of_destructive (h : c.destructive = true) : c.approvalTarget ≠ .ok none := by
  intro hnone
  unfold ToolCall.destructive at h
  unfold ToolCall.approvalTarget mcpApprovalTarget at hnone
  cases ht : c.tool with
  | deleteMachine | forkMachine =>
    rw [ht] at hnone
    split at hnone
    · cases hnone
    · dsimp only at hnone
      split at hnone <;> cases hnone
  | machineBackup =>
    rw [ht] at h hnone
    dsimp only at h hnone
    split at h
    · cases h
    · next a ha =>
      obtain ⟨a', hskim, -, -, haction, -⟩ := skim_of_decodeArgs ha
      rw [hskim] at hnone
      dsimp only at hnone
      rw [haction] at hnone
      simp only [Bool.or_eq_true, beq_iff_eq] at h
      split at hnone
      · next hneither => exact h.elim hneither.1 hneither.2
      · split at hnone <;> cases hnone

theorem approvalTarget_of_bodyTarget {target x : ApprovalTarget}
    (htarget : c.approvalTarget = .ok (some target)) (h : c.bodyTarget = some x) : x = target := by
  unfold ToolCall.bodyTarget at h
  split at h
  · cases h
  · next a ha =>
    obtain ⟨a', hskim, hns, hname, haction, hbackup⟩ := skim_of_decodeArgs ha
    unfold ToolCall.approvalTarget mcpApprovalTarget at htarget
    rw [hskim] at htarget
    dsimp only at h htarget
    rw [hns, hname, haction, hbackup] at htarget
    cases ht : c.tool with
    | deleteMachine =>
      rw [ht] at h htarget
      dsimp only at h htarget
      split at htarget
      · cases htarget
      · cases h
        cases htarget
        rfl
    | forkMachine =>
      rw [ht] at h htarget
      dsimp only at h htarget
      split at htarget
      · cases htarget
      · next hne =>
        rw [if_neg hne] at h
        cases h
        cases htarget
        rfl
    | machineBackup =>
      rw [ht] at h htarget
      dsimp only at h htarget
      split at htarget
      · cases htarget
      · obtain ⟨-, ⟨⟩⟩ | ⟨_, ⟨⟩⟩ := ite_eq_iff.mp htarget
        split at h
        · cases h
        · split at h
          · cases h
            rfl
          · cases h

/-! ## What a server does -/

/-- The annotation `value` of `target` was read, it is an approval of `id`, and at a look at the
clock after that it had not expired. -/
def Checked (clock : Nat) (target : ApprovalTarget) (value id : String) (h : History G) : Prop :=
  ∃ now : Time, ∃ expires approver,
    h = [⟨.now clock, now⟩, ⟨.getAnnotations target, .ok (some value)⟩] ∧
      parseApproval G value = some (id, expires, approver) ∧ now.instant ≤ expires.instant

def Approved (c : ToolCall G) (h : History G) : Prop :=
  ∃ target value id h', h = ⟨.consumeAnnotationValue target value, .ok ()⟩ :: h' ∧
    c.approvalTarget = .ok (some target) ∧ c.approvalID = some id ∧
    Checked c.server.clock target value id h'

def isAudit (ev : Event (McpOp.Ans (G := G))) : Bool :=
  match ev.op with
  | .audit _ _ => true
  | _ => false

/-- A body that destroys something runs on an approval, with nothing but audit records since. -/
def Ready (c : ToolCall G) (h : History G) : Prop :=
  c.destructive = true → ∃ audits h', h = audits ++ h' ∧ (∀ ev ∈ audits, isAudit ev = true) ∧
    Approved c h'

def ServeRule (h : History G) : McpOp G → Prop
  | .consumeAnnotationValue target value => ∃ clock id, Checked clock target value id h
  | .body c => Ready c h
  | _ => True

theorem Ready.audit {h : History G} (hr : Ready c h) (c' : ToolCall G) (outcome : String)
    (a : GoErr) : Ready c (⟨.audit c' outcome, a⟩ :: h) := by
  intro hd
  obtain ⟨audits, h', rfl, haudits, happ⟩ := hr hd
  refine ⟨⟨.audit c' outcome, a⟩ :: audits, h', rfl, fun ev hev => ?_, happ⟩
  rcases mem_cons.mp hev with rfl | hev
  · rfl
  · exact haudits ev hev

theorem mcpApproveHook_follows : (mcpApproveHook c).Follows ServeRule
      (fun h r => ∀ approver, r = .ok approver → Ready c h) [] := by
  unfold mcpApproveHook
  split
  · exact nofun
  · next hnone =>
    exact fun _ _ hd => absurd hnone (approvalTarget_of_destructive hd)
  · next target htarget =>
    split
    · exact nofun
    · next id hid =>
      split
      · exact nofun
      · refine ⟨trivial, fun | .error _ => nofun | .ok ann => ?_⟩
        dsimp only
        split
        · exact nofun
        · next gotID expires approver hparse =>
          split
          · exact nofun
          · next hgot =>
            rw [ne_eq, not_not] at hgot
            subst hgot
            refine ⟨trivial, fun now => ?_⟩
            dsimp only
            split
            · exact nofun
            · next hnow =>
              -- an annotation that is not there is read as the empty text, which is no approval
              cases ann with
              | none => cases hparse
              | some value =>
                have hchecked : Checked c.server.clock target value gotID
                    [⟨.now c.server.clock, now⟩, ⟨.getAnnotations target, .ok (some value)⟩] :=
                  ⟨now, expires, approver, rfl, hparse, Int.not_lt.mp hnow⟩
                refine ⟨⟨_, _, hchecked⟩, fun
                  | .error .changed | .error (.other _) => nofun
                  | .ok () => ?_⟩
                exact fun _ _ _ =>
                  ⟨[], _, rfl, nofun, target, value, gotID, _, rfl, htarget, hid, hchecked⟩

theorem runTool_follows {h : History G} (hr : Ready c h) :
    (runTool c).Follows ServeRule (fun _ _ => True) h := by
  refine ⟨trivial, fun | .error _ => trivial | .ok () => ?_⟩
  exact ⟨hr.audit c "intent" (.ok ()), fun
    | .error _ => ⟨trivial, fun _ => trivial⟩
    | .ok _ => ⟨trivial, fun _ => trivial⟩⟩

theorem handle_follows (s : Server) (tool : Tool) (args : Option (JsonText G.N.Literal)) :
    (handle s tool args).Follows ServeRule (fun _ _ => True) [] := by
  unfold handle
  split
  · trivial
  · refine mcpApproveHook_follows.bind fun h r hready => ?_
    match r with
    | .error e => exact ⟨trivial, fun _ => trivial⟩
    | .ok approver =>
      have hready := hready approver rfl
      dsimp only
      split
      · exact ⟨trivial, fun | .error _ => trivial | .ok () => runTool_follows (hready.audit _ _ _)⟩
      · exact runTool_follows hready

theorem approve_follows (s : Server) (ns arg id approver : String) (ttl : Int) :
    (approve (G := G) s ns arg id approver ttl).Follows ServeRule (fun _ _ => True) [] := by
  unfold approve
  dsimp only
  split
  · trivial
  · split
    · trivial
    · split
      · trivial
      · split
        · trivial
        · split
          · trivial
          · refine ⟨trivial, fun now => ⟨trivial, fun r => ?_⟩⟩
            cases r <;> trivial

theorem starts_follows (t : Nat) (p : Prog (McpOp.Ans (G := G)) ToolResult)
    (h : (mcpHost G).start t p) : p.Follows ServeRule (fun _ _ => True) [] := by
  cases h with
  | handle s tool args => exact handle_follows s tool args
  | approve s ns arg id approver ttl => exact approve_follows s ns arg id approver ttl
  | put target value => exact ⟨trivial, fun _ => trivial⟩

/-! ## Approvals as books -/

def carries (G : GoLib) (id value : String) : Bool :=
  (parseApproval G value).any fun a => a.1 == id

/-- An approval of `id` lies on `target`. -/
def pending (G : GoLib) (target : ApprovalTarget) (id : String) (w : Annotated) : ℕ :=
  ((w.annotations target).any (carries G id)).toNat

variable (target : ApprovalTarget) (id : String)

def consumes : Event (McpOp.Ans (G := G)) → Bool
  | ⟨.consumeAnnotationValue t value, .ok ()⟩ => t == target && carries G id value
  | _ => false

def isBody (ev : Event (McpOp.Ans (G := G))) : Bool :=
  match ev.op with
  | .body _ => true
  | _ => false

def unused (h : History G) : ℕ := (h.any (consumes target id) && !h.any isBody).toNat

abbrev McpLabel (G : GoLib) := Label (McpOp.Ans (G := G)) ToolResult Nat Annotated

def runs : McpLabel G → Bool
  | .call _ ⟨.body c, _⟩ =>
    c.destructive && (c.approvalTarget.toOption.join == some target) && c.approvalID == some id
  | _ => false

def writes : McpLabel G → Bool
  | .call _ ⟨.setAnnotationValue t value, .written⟩ => t == target && carries G id value
  | .call _ ⟨.setAnnotationValue t value, .unanswered _⟩ => t == target && carries G id value
  | .call _ ⟨.put t (some value), _⟩ => t == target && carries G id value
  | _ => false

variable {target id} {w w' : Annotated}

theorem pending_set (w : Annotated) (t : ApprovalTarget) (value : Option String) :
    pending G target id (w.set t value) =
      if t = target then (value.any (carries G id)).toNat else pending G target id w := by
  by_cases ht : t = target
  · subst ht
    simp [pending, Annotated.set]
  · simp [pending, Annotated.set, ht, Ne.symm ht]

theorem pending_set_le (w : Annotated) (t : ApprovalTarget) (value : Option String) :
    pending G target id (w.set t value) ≤
      pending G target id w + (t == target && value.any (carries G id)).toNat := by
  rw [pending_set]
  by_cases ht : t = target <;> simp [ht]

theorem pending_remove_le {t : ApprovalTarget} {value : String} (h : w' ∈ w.remove t value) :
    pending G target id w' + (t == target && carries G id value).toNat ≤ pending G target id w := by
  obtain ⟨hv, rfl⟩ := mem_remove h
  rw [pending_set]
  by_cases ht : t = target
  · subst ht
    simp [pending, hv]
  · simp [ht]

theorem pending_le_of_passes (h : Passes w w') :
    pending G target id w' ≤ pending G target id w := by
  rcases h.annotations target with he | he <;> simp [pending, he]

theorem unused_cons {ev : Event (McpOp.Ans (G := G))} {h : History G}
    (hc : consumes target id ev = false) (hb : isBody ev = false) :
    unused target id (ev :: h) = unused target id h := by
  simp [unused, hc, hb]

theorem unused_consume {clock : Nat} {t : ApprovalTarget} {value id' : String} {h : History G}
    (hch : Checked clock t value id' h) :
    unused target id (⟨.consumeAnnotationValue t value, .ok ()⟩ :: h) =
      (t == target && carries G id value).toNat := by
  obtain ⟨now, expires, approver, rfl, -, -⟩ := hch
  simp [unused, consumes, isBody]

theorem unused_of_ready {h : History G} (hr : Ready c h) (hd : c.destructive = true)
    (htarget : c.approvalTarget = .ok (some target)) (hid : c.approvalID = some id) :
    unused target id h = 1 := by
  obtain ⟨audits, h', rfl, haudits, t, value, id', past, rfl, ht, hi, hch⟩ := hr hd
  rw [htarget] at ht
  rw [hid] at hi
  cases ht
  cases hi
  obtain ⟨now, expires, approver, rfl, hparse, -⟩ := hch
  have nobody : audits.any isBody = false := by
    rw [any_eq_false]
    intro ev hev hb
    have haudit := haudits ev hev
    obtain ⟨op, ans⟩ := ev
    cases op with
    | audit => cases hb
    | _ => cases haudit
  simp [unused, consumes, carries, hparse, nobody, isBody]

theorem runs_iff {t : Nat} {a : Except String String} :
    runs target id (.call t ⟨.body c, a⟩) = true ↔
      c.destructive = true ∧ c.approvalTarget = .ok (some target) ∧ c.approvalID = some id := by
  have join : c.approvalTarget.toOption.join = some target ↔
      c.approvalTarget = .ok (some target) := by
    cases c.approvalTarget <;> simp [Except.toOption]
  simp [runs, and_assoc, join]

theorem no_invariant : Inductive (mcpHost G) (fun _ => ServeRule) (fun _ _ _ => True)
    (fun _ _ => True) fun _ _ => True :=
  ⟨fun _ _ => trivial, fun _ _ _ _ _ => trivial, fun _ _ _ => trivial, fun _ _ _ _ => trivial,
    fun _ _ _ => trivial⟩

/-- An approval is on the object or with the server that took it, and it is used by a run. -/
theorem approval_ledger (target : ApprovalTarget) (id : String) :
    Ledger (mcpHost G) (fun _ => ServeRule) (fun _ _ _ => True) (fun _ _ => True)
      (pending G target id) (fun _ => unused target id) (writes target id) (runs target id) where
  nothing _ := rfl
  start _ _ := rfl
  call := by
    intro w ps t e a w' past _ _ hok hw
    have hw : w' ∈ outcomes w e a := hw
    match e, a, hok, hw with
    | .getAnnotations t, .ok value, _, hw =>
      rw [(mem_outcomes_getAnnotations hw).2, unused_cons rfl rfl]
      exact le_refl _
    | .now n, now, _, hw =>
      rw [(mem_outcomes_now hw).2, unused_cons rfl rfl]
      exact le_refl _
    | .getAnnotations t, .error e, _, hw | .audit _ _, a, _, hw
    | .consumeAnnotationValue t value, .error .changed, _, hw
    | .setAnnotationValue t value, .failed e, _, hw =>
      rw [mem_singleton.mp hw, unused_cons rfl rfl]
      exact le_refl _
    | .consumeAnnotationValue t value, .error (.other e), _, hw =>
      rcases mem_cons.mp hw with rfl | hw
      · exact le_refl _
      · have hle : pending G target id w' + _ ≤ pending G target id w := pending_remove_le hw
        exact Nat.add_le_add_right (le_of_add_le_left hle) _
    | .consumeAnnotationValue t value, .ok (), ⟨clock, id', hch⟩, hw =>
      rw [unused_consume hch]
      exact (pending_remove_le hw).trans (Nat.le_add_right _ _)
    | .setAnnotationValue t value, .written, _, hw
    | .setAnnotationValue t value, .unanswered e, _, hw
    | .put t (some value), (), _, hw =>
      rw [mem_singleton.mp hw, unused_cons rfl rfl]
      have hle : pending G target id (w.set t (some value)) ≤ _ := pending_set_le w t (some value)
      exact (Nat.add_le_add_right hle _).trans (Nat.add_right_comm _ _ _).le
    | .put t none, (), _, hw =>
      rw [mem_singleton.mp hw, unused_cons rfl rfl]
      have hle : pending G target id (w.set t none) ≤ pending G target id w := by
        simpa using pending_set_le w t none
      exact Nat.add_le_add_right hle _
    | .body c, a, hr, hw =>
      rw [mem_singleton.mp hw]
      have used : unused target id (⟨.body c, a⟩ :: past) = 0 := by simp [unused, isBody]
      cases hruns : runs target id (.call t ⟨.body c, a⟩) with
      | false =>
        rw [used]
        exact Nat.add_le_add_left (Nat.zero_le _) _
      | true =>
        obtain ⟨hd, htarget, hid⟩ := runs_iff.mp hruns
        rw [used, unused_of_ready hr hd htarget hid]
        exact Nat.le_add_right _ _
  stop _ := Nat.zero_le _
  crash _ := rfl
  env := fun _ hw => pending_le_of_passes hw

/-! ## The result -/

/--
However many servers there are and however their calls, the approvals and other writes fall: for
an object and an approval id no more bodies run than approvals were written. Every run read an
approval of its own call that had not expired then, used it up, and works on the object it was on.
-/
theorem runs_within_writes {clock : Nat → Time} {tr : List (McpLabel G)}
    {c : Conf (McpOp.Ans (G := G)) ToolResult Nat Annotated}
    (hrun : Run (mcpHost G) (fun _ _ => True) (.idle ⟨fun _ => none, clock⟩) tr c) :
    (∀ target id, tr.countP (runs target id) ≤ tr.countP (writes target id)) ∧
      ∀ t call a, .call t ⟨.body call, a⟩ ∈ tr → call.destructive = true →
        ∃ target id value expires approver, call.approvalTarget = .ok (some target) ∧
          call.approvalID = some id ∧ (∀ x, call.bodyTarget = some x → x = target) ∧
          parseApproval G value = some (id, expires, approver) ∧ ∃ tr₁ tr₂ tr₃ tr₄ c₁,
            tr = tr₁ ++ .call t ⟨.getAnnotations target, .ok (some value)⟩ ::
              (tr₂ ++ .call t ⟨.consumeAnnotationValue target value, .ok ()⟩ ::
                (tr₃ ++ .call t ⟨.body call, a⟩ :: tr₄)) ∧
            Run (mcpHost G) (fun _ _ => True) (.idle ⟨fun _ => none, clock⟩) tr₁ c₁ ∧
            c₁.world.annotations target = some value ∧
            (c₁.world.clock call.server.clock).instant ≤ expires.instant := by
  refine ⟨fun target id => ?_, fun t call a hmem hd => ?_⟩
  · exact (approval_ledger target id).spent_le_issued no_invariant starts_follows trivial hrun
  · -- from the body back to the patch, from there to the clock and to the read
    obtain ⟨trB, tr₄, cB, past, rfl, hrunB, hpastB, hready⟩ :=
      hrun.allowed starts_follows (Conf.follows_idle _ _ _) hmem
    obtain ⟨audits, h', rfl, -, target, value, id, h'', rfl, htarget, hid, hch⟩ := hready hd
    obtain ⟨now, expires, approver, rfl, hparse, hnow⟩ := hch
    obtain ⟨trC, tr₃, cC, -, rfl, hrunC, hpastC, -, -⟩ := hrunB.exists_call hpastB
    have hpastC : cC.past t = some ([] ++ ⟨.now call.server.clock, now⟩ ::
      [⟨.getAnnotations target, .ok (some value)⟩]) := hpastC
    obtain ⟨trN, trN', cN, cN', rfl, hrunN, hpastN, hstepN, -⟩ := hrunC.exists_call hpastC
    have hpastN : cN.past t =
        some ([] ++ ⟨.getAnnotations target, .ok (some value)⟩ :: []) := hpastN
    obtain ⟨tr₁, tr₂, c₁, c₁', rfl, hrun₁, -, hstep₁, hrun₂⟩ := hrunN.exists_call hpastN
    obtain ⟨hread, hsame⟩ := mem_outcomes_getAnnotations (G := G) hstep₁.outcome
    obtain ⟨hclock, -⟩ := mem_outcomes_now (G := G) hstepN.outcome
    refine ⟨target, id, value, expires, approver, htarget, hid,
      fun x hx => approvalTarget_of_bodyTarget htarget hx, hparse, tr₁,
      tr₂ ++ .call t ⟨.now call.server.clock, now⟩ :: trN', tr₃, tr₄, c₁, by simp, hrun₁, hread, ?_⟩
    have before := clock_le_of_run hrun₂ call.server.clock
    rw [hsame, hclock] at before
    exact before.trans hnow

def sampleLib : GoLib where
  N := default
  D := default
  hex _ := "0123456789ab"
  format _ := "2026-01-01T00:00:00Z"
  parse _ := some ⟨100⟩

def sampleServer : Server := ⟨true, "prod", "agent", none, 0⟩

def works (w : Annotated) : (e : McpOp sampleLib) → e.Ans
  | .getAnnotations target => .ok (w.annotations target)
  | .now n => w.clock n
  | .consumeAnnotationValue _ _ => .ok ()
  | .setAnnotationValue _ _ => .written
  | .put _ _ => ()
  | .audit _ _ => .ok ()
  | .body _ => .ok "machine prod/web-1 deleted"

def deletionScript : List (Move (McpOp.Ans (G := sampleLib)) ToolResult Nat Annotated) :=
  [.start 0 (approve sampleServer "prod" "machine/web-1" "0123456789ab" "human" 10),
    .call 0 works 0, .call 0 works 0, .stop 0,
    .start 1 (handle sampleServer .deleteMachine (some (.obj [("name", .str "web-1")]))),
    .call 1 works 0, .call 1 works 0, .call 1 works 0, .call 1 works 0, .call 1 works 0,
    .call 1 works 0, .call 1 works 0, .stop 1]

theorem runs_within_writes_once :
    ∃ tr c, Run (mcpHost sampleLib) (fun _ _ => True) (.idle ⟨fun _ => none, fun _ => ⟨50⟩⟩) tr c ∧
      tr.countP (runs ⟨"machine", ⟨"prod", "web-1"⟩⟩ "0123456789ab") = 1 ∧
      ∀ target id, tr.countP (runs target id) ≤ tr.countP (writes target id) := by
  have may : (mcpHost sampleLib).Allows deletionScript := ⟨.approve _ _ _ _ _ _, .handle _ _ _⟩
  have run := Host.run_of_play (c := .idle ⟨fun _ => none, fun _ => ⟨50⟩⟩) may rfl
  exact ⟨_, _, run, rfl, (runs_within_writes run).1⟩

end Kairon.Mcp
