import Kairon.Infra.Conf
import Kairon.Infra.GoDecode
import Kairon.Model.Machine

/-!
# Tool calls with approval annotations

The tools of `internal/kaironctl/mcp.go` that a human has to approve call by call, and what
identifies a call; `handle` of `internal/mcp/server.go` for these tools, with the hook of
`internal/kaironctl/mcpapproval.go` that looks for the approval in an annotation, and `kaironctl
approve`, which writes the annotation.
-/

namespace Kairon.Mcp

open Infra GoText Model

inductive Tool where
  | deleteMachine
  | forkMachine
  | machineBackup

namespace Tool

def name : Tool → String
  | deleteMachine => "delete_machine"
  | forkMachine => "fork_machine"
  | machineBackup => "machine_backup"

def arguments : Tool → Layout
  | deleteMachine => [⟨"namespace", .string⟩, ⟨"name", .string⟩]
  | forkMachine =>
    [⟨"namespace", .string⟩, ⟨"name", .string⟩, ⟨"count", .int⟩, ⟨"prefix", .string⟩,
      ⟨"waitSeconds", .intPtr⟩]
  | machineBackup =>
    [⟨"namespace", .string⟩, ⟨"name", .string⟩, ⟨"action", .string⟩, ⟨"backup", .string⟩,
      ⟨"quiesce", .string⟩, ⟨"atlas", .bool⟩, ⟨"storageClass", .string⟩]

end Tool

def textOf (s : Field → Slot) (name : String) : String :=
  match s ⟨name, .string⟩ with
  | .string text => text
  | _ => ""

structure ApprovalTarget where
  kind : String
  key : ObjectKey
  deriving DecidableEq

def refNamespace (ns nsDefault : String) : String :=
  if ns ≠ "" then ns else if nsDefault ≠ "" then nsDefault else "default"

variable (N : Numerals)

def decodeArgs (tool : Tool) (args : JsonText N.Literal) : Option (Field → Slot) :=
  tool.arguments.read N args

def targetFields : Layout :=
  [⟨"namespace", .string⟩, ⟨"name", .string⟩, ⟨"action", .string⟩, ⟨"backup", .string⟩]

def mcpApprovalTarget (tool : Tool) (args : JsonText N.Literal) (nsDefault : String) :
    Except String (Option ApprovalTarget) :=
  match targetFields.skim N args with
  | none => .error "invalid arguments"
  | some a =>
    let ns := refNamespace (textOf a "namespace") nsDefault
    match tool with
    | .deleteMachine | .forkMachine =>
      if textOf a "name" = "" then .error "name is required"
      else .ok (some ⟨"machine", ⟨ns, textOf a "name"⟩⟩)
    | .machineBackup =>
      if textOf a "action" ≠ "restore" ∧ textOf a "action" ≠ "delete" then .ok none
      else if textOf a "backup" = "" then
        .error ("backup is required for " ++ textOf a "action")
      else .ok (some ⟨"machinebackup", ⟨ns, textOf a "backup"⟩⟩)

/-- The sum over a tool, the arguments written out again with sorted keys, and a principal: SHA-256,
whole or its first digits, of a JSON text. Both are taken to be injective. -/
structure Digest where
  Id : Type
  sum : (tool : String) → (arguments : Json) → (principal : String) → Id
  injective : ∀ {tool principal arguments arguments'},
    sum tool arguments principal = sum tool arguments' principal → arguments = arguments'

instance : Inhabited Digest where
  default :=
    { Id := String × Json × String
      sum := fun tool arguments principal => (tool, arguments, principal)
      injective := fun h => (Prod.mk.inj (Prod.mk.inj h).2).1 }

def mcpApprovalID (D : Digest) (tool : Tool) (args : JsonText N.Literal) (principal : String) :
    Option D.Id :=
  (args.generic N).map fun v => D.sum tool.name v principal

def argumentsHash (D : Digest) (action : Tool) (args : JsonText N.Literal) (principal : String) :
    Option D.Id :=
  (args.generic N).map fun parsed => D.sum action.name parsed principal

/-- What the code takes from Go's standard library: number literals, digests in hex, and the
layout `time.RFC3339`. -/
structure GoLib where
  N : Numerals
  D : Digest
  hex : D.Id → String
  format : Time → String
  parse : String → Option Time

def formatApproval (G : GoLib) (id : String) (expires : Time) (approver : String) : String :=
  id ++ ";" ++ G.format expires ++ ";" ++ approver

def parseApproval (G : GoLib) (v : String) : Option (String × Time × String) :=
  match cut v ';' with
  | none => none
  | some (id, rest) =>
    match cut rest ';' with
    | none => none
    | some (expires, approver) =>
      match G.parse expires with
      | none => none
      | some exp => some (id, exp, approver)

def ApprovalTarget.toString (t : ApprovalTarget) : String :=
  t.kind ++ "/" ++ t.key.namespace ++ "/" ++ t.key.name

/-- A process that serves MCP with approvals in annotations. `kubeError` says why it cannot make
a client for the API server, `clock` whose time `time.Now` tells. -/
structure Server where
  allowWrite : Bool
  nsDefault : String
  principal : String
  kubeError : Option String
  clock : Nat

structure ToolCall (G : GoLib) where
  server : Server
  tool : Tool
  args : JsonText G.N.Literal

structure ToolResult where
  text : String
  isError : Bool

inductive ConsumeError where
  /-- `ErrAnnotationChanged`. -/
  | changed
  | other (message : String)

/-- How a write went. The writer sees no difference between the two failures. -/
inductive Delivery where
  | written
  | unanswered (message : String)
  | failed (message : String)

/-- The calls of a server, of `kaironctl approve` and of others that write the annotation. -/
inductive McpOp (G : GoLib) where
  /-- `GetAnnotations`, as far as the approval annotation goes. -/
  | getAnnotations (target : ApprovalTarget)
  | now (clock : Nat)
  /-- `ConsumeAnnotation`. -/
  | consumeAnnotationValue (target : ApprovalTarget) (value : String)
  /-- `SetAnnotation`. -/
  | setAnnotationValue (target : ApprovalTarget) (value : String)
  /-- Any other write after which the object is there with the annotation, or without. -/
  | put (target : ApprovalTarget) (value : Option String)
  | audit (call : ToolCall G) (outcome : String)
  /-- `Tool.Call`: the body of the tool. -/
  | body (call : ToolCall G)

def McpOp.Ans {G : GoLib} : McpOp G → Type
  | .getAnnotations _ => Except String (Option String)
  | .now _ => Time
  | .consumeAnnotationValue _ _ => Except ConsumeError Unit
  | .setAnnotationValue _ _ => Delivery
  | .put _ _ => Unit
  | .audit _ _ => GoErr
  | .body _ => Except String String

variable {G : GoLib}

variable (c : ToolCall G)

namespace ToolCall

def approvalTarget : Except String (Option ApprovalTarget) :=
  mcpApprovalTarget G.N c.tool c.args c.server.nsDefault

def approvalID : Option String := (mcpApprovalID G.N G.D c.tool c.args c.server.principal).map G.hex

def bodyTarget : Option ApprovalTarget :=
  match decodeArgs G.N c.tool c.args with
  | none => none
  | some a =>
    let ns := refNamespace (textOf a "namespace") c.server.nsDefault
    match c.tool with
    | .deleteMachine => some ⟨"machine", ⟨ns, textOf a "name"⟩⟩
    | .forkMachine => if textOf a "name" = "" then none else some ⟨"machine", ⟨ns, textOf a "name"⟩⟩
    | .machineBackup =>
      if textOf a "action" ≠ "create" ∧ textOf a "backup" = "" then none
      else if textOf a "action" = "restore" ∨ textOf a "action" = "delete" then
        some ⟨"machinebackup", ⟨ns, textOf a "backup"⟩⟩
      else none

def destructive : Bool :=
  match c.tool with
  | .deleteMachine | .forkMachine => true
  | .machineBackup =>
    match decodeArgs G.N c.tool c.args with
    | none => false
    | some a => textOf a "action" == "restore" || textOf a "action" == "delete"

end ToolCall

/-! ## The hook -/

/-- The error of a refused call; `outcome` is that of an `ApprovalError`. -/
structure HookError where
  outcome : String := "approval-error"
  message : String

def approvalRequired (tool id : String) (target : ApprovalTarget) : HookError where
  outcome := "approval-required"
  message := tool ++ " needs a human's approval (id " ++ id ++ "). Ask them to run:\n" ++
    "  kaironctl approve " ++ target.toString ++ " " ++ id ++ "\nthen call " ++ tool ++
    " again with exactly the same arguments."

def approvalExpired (G : GoLib) (tool id : String) (target : ApprovalTarget) (expires : Time) :
    HookError where
  outcome := "approval-expired"
  message := "the approval for " ++ tool ++ " (id " ++ id ++ ") expired at " ++ G.format expires ++
    "; ask for a new one:\n  kaironctl approve " ++ target.toString ++ " " ++ id

def mcpApproveHook : Prog (McpOp.Ans (G := G)) (Except HookError String) :=
  match c.approvalTarget with
  | .error e => .ret (.error { message := e })
  | .ok none => .ret (.ok "")
  | .ok (some target) =>
    match c.approvalID with
    | none => .ret (.error { message := "invalid arguments" })
    | some id =>
      match c.server.kubeError with
      | some e => .ret (.error { message := e })
      | none =>
        .call (.getAnnotations target) fun
        | .error e => .ret (.error { message := e })
        | .ok ann =>
          let value := ann.getD ""
          match parseApproval G value with
          | none => .ret (.error (approvalRequired c.tool.name id target))
          | some (gotID, expires, approver) =>
            if gotID ≠ id then .ret (.error (approvalRequired c.tool.name id target))
            else
              .call (.now c.server.clock) fun now =>
                if now.instant > expires.instant then
                  .ret (.error (approvalExpired G c.tool.name id target expires))
                else
                  .call (.consumeAnnotationValue target value) fun
                  | .error .changed => .ret (.error (approvalRequired c.tool.name id target))
                  | .error (.other e) => .ret (.error { message := e })
                  | .ok () => .ret (.ok approver)

/-! ## The server -/

def runTool : Prog (McpOp.Ans (G := G)) ToolResult :=
  .call (.audit c "intent") fun
  | .error e => .ret ⟨"audit log unavailable; write refused: " ++ e, true⟩
  | .ok () =>
    .call (.body c) fun
    | .error e => .call (.audit c e) fun _ => .ret ⟨e, true⟩
    | .ok out => .call (.audit c "ok") fun _ => .ret ⟨out, false⟩

def handle (s : Server) (tool : Tool) (arguments : Option (JsonText G.N.Literal)) :
    Prog (McpOp.Ans (G := G)) ToolResult :=
  if s.allowWrite = false then
    .ret ⟨tool.name ++ " changes state; start the server with --allow-write to use it", true⟩
  else
    let args := match arguments with
      | none | some .null => .obj []
      | some args => args
    let c : ToolCall G := ⟨s, tool, args⟩
    mcpApproveHook c >>= fun
    | .error e => .call (.audit c e.outcome) fun _ => .ret ⟨e.message, true⟩
    | .ok approver =>
      if approver ≠ "" then
        .call (.audit c ("approved:" ++ approver)) fun
        | .error e => .ret ⟨"audit log unavailable; write refused: " ++ e, true⟩
        | .ok () => runTool c
      else runTool c

/-! ## Approving -/

def isApprovalKind (kind : String) : Bool := kind == "machine" || kind == "machinebackup"

def approve (s : Server) (ns arg id approver : String) (ttl : Int) :
    Prog (McpOp.Ans (G := G)) ToolResult :=
  let target : Option ApprovalTarget := match split arg '/' with
    | [kind, name] => some ⟨kind, ⟨ns, name⟩⟩
    | [kind, ns, name] => some ⟨kind, ⟨ns, name⟩⟩
    | _ => none
  match target with
  | none => .ret ⟨"want KIND/NAMESPACE/NAME or KIND/NAME, got " ++ quote arg, true⟩
  | some target =>
    if isApprovalKind target.kind = false ∨ target.key.name = "" ∨ target.key.namespace = "" then
      .ret ⟨"KIND must be machine or machinebackup, with a name: " ++ quote arg, true⟩
    else if id.utf8ByteSize ≠ 12 ∨
        ¬id.toList.all (fun c => "0123456789abcdef".toList.contains c) then
      .ret ⟨"ID " ++ quote id ++ " is not an approval id (12 hex characters)", true⟩
    else if ttl ≤ 0 then .ret ⟨"--ttl must be positive", true⟩
    else
      match s.kubeError with
      | some e => .ret ⟨e, true⟩
      | none =>
        .call (.now s.clock) fun now =>
          let expires : Time := ⟨now.instant + ttl⟩
          .call (.setAnnotationValue target (formatApproval G id expires approver)) fun
          | .failed e | .unanswered e => .ret ⟨e, true⟩
          | .written => .ret ⟨"approved " ++ id ++ " on " ++ target.toString ++ " until " ++
              G.format expires, false⟩

/-!
## Servers around the annotated objects

Any number of servers handle tool calls, approvers write annotations and others write the objects,
all at the same time. Clocks go forward, each on its own.
-/

variable {G : GoLib}

structure Annotated where
  annotations : ApprovalTarget → Option String
  clock : Nat → Time

variable (w : Annotated) (target : ApprovalTarget)

def Annotated.set (value : Option String) : Annotated :=
  { w with annotations := Function.update w.annotations target value }

def Annotated.remove (value : String) : List Annotated :=
  if w.annotations target = some value then [w.set target none] else []

def outcomes : (e : McpOp G) → e.Ans → List Annotated
  | .getAnnotations target, .ok value => if w.annotations target = value then [w] else []
  | .getAnnotations _, .error _ => [w]
  | .now n, (now : Time) => if w.clock n = now then [w] else []
  | .consumeAnnotationValue target value, .ok () => w.remove target value
  | .consumeAnnotationValue _ _, .error .changed => [w]
  | .consumeAnnotationValue target value, .error (.other _) => w :: w.remove target value
  | .setAnnotationValue target value, .written => [w.set target (some value)]
  | .setAnnotationValue target value, .unanswered _ => [w.set target (some value)]
  | .setAnnotationValue _ _, .failed _ => [w]
  | .put target value, () => [w.set target value]
  | .audit _ _, _ => [w]
  | .body _, _ => [w]

/-- What happens in between: time passes, and objects go away. -/
structure Passes (w w' : Annotated) : Prop where
  clock : ∀ n, (w.clock n).instant ≤ (w'.clock n).instant
  annotations : ∀ target,
    w'.annotations target = w.annotations target ∨ w'.annotations target = none

def putObject (value : Option String) : Prog (McpOp.Ans (G := G)) ToolResult :=
  .call (.put target value) fun _ => .ret ⟨"", false⟩

inductive Starts : Prog (McpOp.Ans (G := G)) ToolResult → Prop
  | handle (s : Server) (tool : Tool) (args : Option (JsonText G.N.Literal)) :
      Starts (handle s tool args)
  | approve (s : Server) (ns arg id approver : String) (ttl : Int) :
      Starts (approve s ns arg id approver ttl)
  | put (target : ApprovalTarget) (value : Option String) : Starts (putObject target value)

def mcpHost (G : GoLib) : Host (McpOp.Ans (G := G)) ToolResult Nat Annotated where
  outcomes _ := outcomes
  start _ := Starts
  env := Passes
  crash := True

variable {w} {w' : Annotated}

theorem mem_remove {target : ApprovalTarget} {value : String} (h : w' ∈ w.remove target value) :
    w.annotations target = some value ∧ w' = w.set target none := by
  obtain ⟨hv, h⟩ := List.mem_ite_nil_right.mp h
  exact ⟨hv, List.mem_singleton.mp h⟩

theorem mem_outcomes_getAnnotations {target : ApprovalTarget} {value : Option String}
    (h : w' ∈ outcomes (G := G) w (.getAnnotations target) (.ok value)) :
    w.annotations target = value ∧ w' = w := by
  simpa [outcomes] using h

theorem mem_outcomes_now {n : Nat} {now : Time} (h : w' ∈ outcomes (G := G) w (.now n) now) :
    w.clock n = now ∧ w' = w := by
  simpa [outcomes] using h

theorem clock_of_outcomes {e : McpOp G} {a : e.Ans} (h : w' ∈ outcomes w e a) :
    w'.clock = w.clock := by
  match e, a, h with
  | .getAnnotations target, .ok value, h => rw [(mem_outcomes_getAnnotations h).2]
  | .now n, now, h => rw [(mem_outcomes_now h).2]
  | .consumeAnnotationValue target value, .ok (), h => rw [(mem_remove h).2]; rfl
  | .consumeAnnotationValue target value, .error (.other e), h =>
    rcases List.mem_cons.mp h with rfl | h
    · rfl
    · rw [(mem_remove h).2]; rfl
  | .setAnnotationValue _ _, .written, h | .setAnnotationValue _ _, .unanswered _, h
  | .put _ _, (), h =>
    rw [List.mem_singleton.mp h]; rfl
  | .getAnnotations _, .error _, h | .consumeAnnotationValue _ _, .error .changed, h
  | .setAnnotationValue _ _, .failed _, h | .audit _ _, _, h | .body _, _, h =>
    rw [List.mem_singleton.mp h]

theorem clock_le_of_run {P : Guard (McpOp.Ans (G := G)) ToolResult Nat Annotated}
    {c c' : Conf (McpOp.Ans (G := G)) ToolResult Nat Annotated}
    {tr : List (Label (McpOp.Ans (G := G)) ToolResult Nat Annotated)}
    (h : Run (mcpHost G) P c tr c') (n : Nat) :
    (c.world.clock n).instant ≤ (c'.world.clock n).instant := by
  refine h.invariant (I := fun c' => (c.world.clock n).instant ≤ (c'.world.clock n).instant)
    (Int.le_refl _) ?_
  intro c₁ l c₂ hle _ hs
  cases hs with
  | start _ _ => exact hle
  | @call t e k past a w at_call out =>
    have hclock : w.clock = c₁.world.clock := clock_of_outcomes out
    rwa [Conf.world_put, hclock]
  | stop _ => exact hle
  | crash _ _ => exact hle
  | env may => exact Int.le_trans hle (Passes.clock may n)

end Kairon.Mcp
