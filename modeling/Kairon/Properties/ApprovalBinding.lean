import Kairon.Mcp.Server

/-!
# What an approval is bound to

An approval is looked up by a sum over the arguments as a map, but the tool runs with the arguments
as a struct. The sum determines the struct only where the map settles it.

* `binds_iff_of_generic`: calls of one digest, by the map they were decoded from
* `binds_iff_settled`: when an approval binds its call
-/

namespace Kairon.Mcp

open Infra Model List Option

variable {N : Numerals}

/-- All calls that are identified like `a` and decode run with the same arguments. -/
def Binds {Id : Type} (idOf : JsonText N.Literal → Option Id) (tool : Tool)
    (a : JsonText N.Literal) : Prop :=
  ∀ id, idOf a = some id → ∀ b c s s', idOf b = some id → idOf c = some id →
    decodeArgs N tool b = some s → decodeArgs N tool c = some s' → s = s'

/-- The tool refuses the arguments however they are written, or they settle its struct: no key says
`null` (`waitSeconds` apart), keys that differ only in case have values that are read alike, and no
number is read as two integers. -/
def SettlesArguments (tool : Tool) (a : JsonText N.Literal) : Prop :=
  ∀ m, a.generic N = some (.obj m) → tool.arguments.Refused N m ∨ tool.arguments.Settled N m

theorem decodeArgs_of_not_obj {tool : Tool} {b : JsonText N.Literal} {v : Json}
    {s : Field → Slot} (hb : b.generic N = some v) (hv : ∀ m, v ≠ .obj m)
    (hs : decodeArgs N tool b = some s) : s = fun f => f.type.zero := by
  cases b with
  | null =>
    cases hs
    rfl
  | obj ms =>
    obtain ⟨m, -, rfl⟩ := map_eq_some_iff.mp hb
    exact absurd rfl (hv m)
  | _ => cases hs

/-- Where the id of a call determines its arguments as a map and the other way round, it binds the
call exactly if these settle the struct. -/
theorem binds_iff_of_generic {Id : Type} {idOf : JsonText N.Literal → Option Id} {sum : Json → Id}
    (hid : ∀ b, idOf b = (b.generic N).map sum) (hinj : ∀ v w, sum v = sum w → v = w) (tool : Tool)
    (a : JsonText N.Literal) : Binds idOf tool a ↔ SettlesArguments tool a := by
  have same : ∀ {v b}, a.generic N = some v → idOf b = some (sum v) → b.generic N = some v := by
    intro v b ha hb
    rw [hid] at hb
    obtain ⟨w, hw, heq⟩ := map_eq_some_iff.mp hb
    rw [hw, hinj w v heq]
  constructor
  · intro h m ha
    by_contra hno
    rw [not_or] at hno
    obtain ⟨b, c, s, s', hb, hc, hs, hs', hne⟩ := Layout.exists_read_apart ha hno.1 hno.2
    have hida : ∀ {d}, d.generic N = some (.obj m) → idOf d = some (sum (.obj m)) := by
      intro d hd
      rw [hid, hd]
      rfl
    exact hne (h _ (hida ha) b c s s' (hida hb) (hida hc) hs hs')
  · intro h id hida b c s s' hidb hidc hs hs'
    rw [hid] at hida
    obtain ⟨v, ha, rfl⟩ := map_eq_some_iff.mp hida
    have hb := same ha hidb
    have hc := same ha hidc
    by_cases hv : ∃ m, v = .obj m
    · obtain ⟨m, rfl⟩ := hv
      rcases h m ha with hrefused | hsettled
      · obtain ⟨ms, rfl, hms⟩ := JsonText.eq_obj_of_generic hb
        exact absurd hrefused (Layout.not_refused_of_readMembers hms hs)
      · exact Layout.read_eq_of_settled hsettled hb hc hs hs'
    · have hno : ∀ m, v ≠ .obj m := fun m hm => hv ⟨m, hm⟩
      rw [decodeArgs_of_not_obj hb hno hs, decodeArgs_of_not_obj hc hno hs']

/-- An approval binds the call it was given for, whether it is found by the first digits of the sum
or by the whole of it, exactly if the arguments settle the struct of the tool. -/
theorem binds_iff_settled (short full : Digest) (tool : Tool) (principal : String)
    (a : JsonText N.Literal) :
    (Binds (fun b => mcpApprovalID N short tool b principal) tool a ↔ SettlesArguments tool a) ∧
      (Binds (fun b => argumentsHash N full tool b principal) tool a ↔ SettlesArguments tool a) :=
  ⟨binds_iff_of_generic (fun _ => rfl) (fun _ _ h => short.injective h) tool a,
    binds_iff_of_generic (fun _ => rfl) (fun _ _ h => full.injective h) tool a⟩

/-! ## Two calls with one approval -/

def restoreNightly (last : List (String × JsonText N.Literal)) : JsonText N.Literal :=
  .obj ([("action", .str "restore"), ("backup", .str "nightly")] ++ last)

theorem mcpApprovalTarget_restore {args : JsonText N.Literal}
    (h : (targetFields.skim N args).map (fun s =>
      (textOf s "namespace", textOf s "action", textOf s "backup")) =
        some ("", "restore", "nightly")) :
    mcpApprovalTarget N .machineBackup args "" =
      .ok (some ⟨"machinebackup", ⟨"default", "nightly"⟩⟩) := by
  obtain ⟨s, hs, heq⟩ := map_eq_some_iff.mp h
  simp only [Prod.mk.injEq] at heq
  obtain ⟨hns, haction, hbackup⟩ := heq
  simp [mcpApprovalTarget, hs, hns, haction, hbackup, refNamespace]

def Confused (N : Numerals) (short full : Digest) : Prop :=
  ∃ tool principal, ∃ a b : JsonText N.Literal, (mcpApprovalID N short tool a principal).isSome ∧
    mcpApprovalID N short tool a principal = mcpApprovalID N short tool b principal ∧
    argumentsHash N full tool a principal = argumentsHash N full tool b principal ∧
    mcpApprovalTarget N tool a "" = mcpApprovalTarget N tool b "" ∧
    (decodeArgs N tool a).map (textOf · "name") = some "scratch" ∧
    (decodeArgs N tool b).map (textOf · "name") = some "prod-db"

theorem confused (N : Numerals) (short full : Digest) : Confused N short full := by
  let a : JsonText N.Literal := restoreNightly [("name", .str "prod-db"), ("Name", .str "scratch")]
  let b : JsonText N.Literal := restoreNightly [("Name", .str "scratch"), ("name", .str "prod-db")]
  have hsame : a.generic N = b.generic N := by
    simp only [a, b, restoreNightly, cons_append, nil_append, JsonText.generic,
      JsonText.genericMembers]
    rw [Function.update_comm (by decide)]
  refine ⟨.machineBackup, "agent", a, b, rfl, ?_, ?_, ?_, rfl, rfl⟩
  · rw [mcpApprovalID, mcpApprovalID, hsame]
  · rw [argumentsHash, argumentsHash, hsame]
  · rw [mcpApprovalTarget_restore, mcpApprovalTarget_restore]
    all_goals
      simp only [a, b, restoreNightly]
      rw [Layout.skim_eq_read
        (by simp only [cons_append, nil_append, all_cons]; rfl)]
      rfl

/-- Two spellings of a name, in either order: one approval restores `scratch` or `prod-db`. -/
theorem other_call_approved : Confused default default default :=
  confused _ _ _

end Kairon.Mcp
