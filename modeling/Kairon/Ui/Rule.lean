import Kairon.Ui.Replica

/-!
# What the requests on accounts do

When each kind of request takes which step, and what it has done when it replies. This is all that
the properties know of the programs.
-/

namespace Kairon.Ui

open Infra

variable {a : AccountSettings} {X : Crypto}

def UiCall.changes : UiCall → Option String
  | setOwnPassword username _ => some username
  | resetPassword _ _ target _ => some target
  | _ => none

def UiCall.loginName : UiCall → Option String
  | login (.ok req) => some req.username
  | _ => none

def UiCall.Resets (username : String) (call : UiCall) : Prop :=
  ∃ caller groups body, call = .resetPassword caller groups username body

def Issue.token (X : Crypto) (a : AccountSettings) (i : Issue) : String :=
  (signSession X a.sessionSecret i.time i.user.username [] sessionTTL).1

variable (past : List (Event UiOp.Ans)) (r : UiRequest)

/-- The user whose hash a request has found to be that of the password. -/
def comparedUser : Option User :=
  past.findSome? fun
    | ⟨.compareHash _ user _, true⟩ => user
    | _ => none

def previousHash : Option String :=
  past.findSome? fun
    | ⟨.replaceHash _ _, some (_, hash)⟩ => some hash
    | _ => none

inductive Phase where
  | out
  /-- Let in by the check. -/
  | letIn
  /-- The password is compared, and the result not yet recorded. -/
  | waiting

def phase : List (Event UiOp.Ans) → Phase
  | [] => .out
  | ⟨.loginLockedFor _, remaining⟩ :: _ => if (remaining : Int) > 0 then .out else .letIn
  | ⟨.compareHash _ _ _, _⟩ :: past =>
    match phase past with
    | .out => .out
    | _ => .waiting
  | ⟨.recordLoginResult _ _, _⟩ :: _ => .out
  | _ :: past => phase past

structure Replacement where
  hash : String
  idx : Nat
  previous : String

/-- How far `setPasswordHash` is since it has put the new hash into the list. -/
inductive Change where
  | idle
  | replaced (x : Replacement)
  | read (x : Replacement) (users : List User)
  | written (x : Replacement) (patched : Patched)
  | restored (x : Replacement) (patched : Patched) (inside : Bool)

def change : List (Event UiOp.Ans) → Change
  | [] => .idle
  | ⟨.replaceHash _ hash, some (idx, previous)⟩ :: _ => .replaced ⟨hash, idx, previous⟩
  | ⟨.readUsers, users⟩ :: past =>
    match change past with
    | .replaced x => .read x users
    | other => other
  | ⟨.patchSecret _, patched⟩ :: past =>
    match change past with
    | .read x _ => .written x patched
    | other => other
  | ⟨.restoreHash _ _, inside⟩ :: past =>
    match change past with
    | .written x patched => .restored x patched inside
    | other => other
  | _ :: past => change past

def UiRule (past : List (Event UiOp.Ans)) : UiOp → Prop
  | .loginLockedFor name => r.2.loginName = some name ∧ phase past = .out
  | .compareHash name _ _ => phase past = .out ∨ r.2.loginName = some name ∧ phase past = .letIn
  | .recordLoginResult name _ => r.2.loginName = some name ∧ phase past = .waiting
  | .signingTime user => comparedUser past = some user
  | .replaceHash name _ => r.2.changes = some name ∧ change past = .idle
  | .readUsers => ∃ x, change past = .replaced x
  | .patchSecret users => ∃ x, change past = .read x users
  | .restoreHash idx previous =>
    ∃ hash anyway message, change past = .written ⟨hash, idx, previous⟩ (.failed anyway message)
  | .resetTime name => r.2.Resets name
  | .storePasswordChangedAt name t =>
    r.2 = .sync ∨ r.2.Resets name ∧ ∃ older, past = ⟨.resetTime name, t⟩ :: older
  | .replaceUsers _ => r.2 = .sync
  | _ => True

def Replied (X : Crypto) (a : AccountSettings) (r : UiRequest) (past : List (Event UiOp.Ans))
    (reply : UiReply) : Prop :=
  phase past = .out ∧ match reply with
    | .noContent => (∃ x, change past = .written x .ok) ∧
        ∀ name, r.2.Resets name → (previousHash past).isSome ∧
          ∃ entry done t older, past = ⟨.writeSharedState entry, done⟩ ::
            ⟨.storePasswordChangedAt name t, ()⟩ :: ⟨.resetTime name, t⟩ :: older
    | .token token _ _ => ∃ user t older, comparedUser past = some user ∧
        past = ⟨.signingTime user, t⟩ :: older ∧ token = Issue.token X a ⟨user, t⟩
    | _ => True

/-! ## Logins -/

theorem shareLoginResult_follows {r : UiRequest} (username : String) (success : Bool)
    (lockedUntil : Option Int) (past : List (Event UiOp.Ans)) :
    (shareLoginResult username success lockedUntil).Follows (UiRule r)
      (fun past' _ => phase past' = phase past ∧ comparedUser past' = comparedUser past) past := by
  unfold shareLoginResult
  split
  · exact ⟨trivial, fun _ => ⟨rfl, rfl⟩⟩
  cases lockedUntil with
  | none => exact ⟨rfl, rfl⟩
  | some t => exact ⟨trivial, fun _ => ⟨rfl, rfl⟩⟩

theorem login_follows (k : Nat) (body : Except String LoginRequest) :
    (login X a body).Follows (UiRule (k, .login body)) (Replied X a (k, .login body)) [] := by
  refine ⟨trivial, fun n => ?_⟩
  dsimp only
  split
  · exact ⟨rfl, trivial⟩
  cases body with
  | error e => exact ⟨rfl, trivial⟩
  | ok req =>
    refine ⟨⟨rfl, rfl⟩, fun remaining => ?_⟩
    dsimp only
    split
    · next hlocked => exact ⟨if_pos hlocked, trivial⟩
    next hfree =>
    have hin : phase [⟨.loginLockedFor req.username, remaining⟩, ⟨.userCount, n⟩] = .letIn :=
      if_neg hfree
    refine ⟨trivial, fun found => ⟨.inr ⟨rfl, hin⟩, fun matched =>
      ⟨⟨rfl, ?_⟩, fun lockedUntil => ?_⟩⟩⟩
    · simp [phase, not_lt.mp hfree]
    refine (shareLoginResult_follows _ _ _ _).bind fun past' _ hshared => ?_
    obtain ⟨hout, hcompared⟩ := hshared
    cases found with
    | none => exact ⟨hout, trivial⟩
    | some user =>
      cases matched with
      | false => exact ⟨hout, trivial⟩
      | true =>
        exact ⟨hcompared, fun now => ⟨hout, user, now, past', hcompared, rfl, rfl⟩⟩

/-! ## Password changes -/

theorem setPasswordHash_follows {r : UiRequest} {username : String}
    (hr : r.2.changes = some username) (hname : a.usersSecretName ≠ "") (newPassword : String)
    {past : List (Event UiOp.Ans)} (hpast : phase past = .out) (hidle : change past = .idle) :
    (setPasswordHash a username newPassword).Follows (UiRule r) (fun past' result =>
      phase past' = .out ∧ (result = .ok () → (previousHash past').isSome ∧
        ∃ x, change past' = .written x .ok)) past := by
  refine ⟨trivial, fun | .error _ => ⟨hpast, nofun⟩ | .ok hash => ?_⟩
  refine ⟨⟨hr, hidle⟩, fun | none => ⟨hpast, nofun⟩ | some found => ?_⟩
  dsimp only
  rw [persistUsers, if_neg hname]
  refine ⟨⟨_, rfl⟩, fun users => ⟨⟨_, rfl⟩, fun patched => ?_⟩⟩
  cases patched with
  | ok => exact ⟨hpast, fun _ => ⟨rfl, _, rfl⟩⟩
  | failed anyway message => exact ⟨⟨hash, anyway, message, rfl⟩, fun _ => ⟨hpast, nofun⟩⟩

theorem setOwnPassword_follows (k : Nat) (username : String)
    (body : Except String SetPasswordRequest) :
    (setOwnPassword a username body).Follows (UiRule (k, .setOwnPassword username body))
      (Replied X a (k, .setOwnPassword username body)) [] := by
  have hown : ∀ name, ¬UiCall.Resets name (.setOwnPassword username body) := by
    rintro name ⟨_, _, _, h⟩
    cases h
  unfold setOwnPassword
  split
  · exact ⟨rfl, trivial⟩
  split
  · exact ⟨rfl, trivial⟩
  next hsecret =>
  cases body with
  | error e => exact ⟨rfl, trivial⟩
  | ok req =>
    dsimp only
    split
    · exact ⟨rfl, trivial⟩
    refine ⟨trivial, fun | none => ⟨rfl, trivial⟩ | some user => ?_⟩
    refine ⟨.inl rfl, fun matched => ?_⟩
    dsimp only
    split
    · exact ⟨rfl, trivial⟩
    refine (setPasswordHash_follows rfl hsecret _ rfl rfl).bind fun past' result h => ?_
    cases result with
    | error e => cases e <;> exact ⟨h.1, trivial⟩
    | ok u => exact ⟨h.1, (h.2 rfl).2, fun name hname => (hown name hname).elim⟩

theorem resetTarget_follows {target : String} (body : Except String String) (hr : r.2.Resets target)
    {past : List (Event UiOp.Ans)} (hpast : phase past = .out) (hidle : change past = .idle) :
    (resetTarget a target body).Follows (UiRule r) (Replied X a r) past := by
  have hchanges : r.2.changes = some target := by
    obtain ⟨_, _, _, h⟩ := hr
    rw [h]
    rfl
  have honly : ∀ name, r.2.Resets name → name = target := by
    rintro name ⟨_, _, _, h⟩
    rw [h] at hchanges
    exact Option.some.inj hchanges
  unfold resetTarget
  split
  · exact ⟨hpast, trivial⟩
  next hsecret =>
  refine ⟨trivial, fun found => ?_⟩
  dsimp only
  split
  · exact ⟨hpast, trivial⟩
  cases body with
  | error e => exact ⟨hpast, trivial⟩
  | ok newPassword =>
    dsimp only
    split
    · exact ⟨hpast, trivial⟩
    have hset := setPasswordHash_follows hchanges hsecret newPassword
      (show phase (⟨.findUser target, found⟩ :: past) = .out from hpast) hidle
    refine hset.bind fun past' result h => ?_
    obtain ⟨hout, hreplaced⟩ := h
    cases result with
    | error e => cases e <;> exact ⟨hout, trivial⟩
    | ok u =>
      refine ⟨hr, fun changedAt => ⟨.inr ⟨hr, past', rfl⟩, fun _ =>
        ⟨trivial, fun done => ⟨?_, (hreplaced rfl).2, fun name hname => ?_⟩⟩⟩⟩
      · exact hout
      · obtain rfl := honly name hname
        exact ⟨(hreplaced rfl).1, _, done, changedAt, past', rfl⟩

/-! ## The loop, and all of them -/

theorem sync_follows (k : Nat) :
    (syncSharedStateOnce a).Follows (UiRule (k, .sync)) (Replied X a (k, .sync)) [] := by
  have hentry : ∀ (now : Int) (entry : SharedEntry) past, phase past = .out →
      (mergeSharedEntry now entry).Follows (UiRule (k, .sync)) (fun past' _ => phase past' = .out)
        past := by
    intro now entry past hpast
    cases entry with
    | lockout username t =>
      simp only [mergeSharedEntry]
      split
      · exact hpast
      · exact ⟨trivial, fun _ => hpast⟩
    | passwordChange username t =>
      refine ⟨trivial, fun existing => ?_⟩
      dsimp only
      split
      · exact hpast
      · exact ⟨.inl rfl, fun _ => hpast⟩
  have hshared : syncSharedConfigMap.Follows (UiRule (k, .sync)) (fun past' _ => phase past' = .out)
      [] := by
    refine ⟨trivial, fun | .error _ => rfl | .ok found => ?_⟩
    exact Prog.Follows.forEach (fun past' _ => phase past' = .out)
      (fun past' entry _ hpast => hentry found.2 entry past' hpast) rfl
  refine hshared.bind fun past _ hpast => ?_
  have husers : Prog.Follows (UiRule (k, .sync)) (fun past' _ => phase past' = .out) past
      (if a.usersSecretName = "" then .ret () else syncUsersFromSecret) := by
    split
    · exact hpast
    refine ⟨trivial, fun got => ?_⟩
    rcases got with e | _ | users
    · exact hpast
    · exact hpast
    · exact ⟨rfl, fun _ => hpast⟩
  exact husers.bind fun past' _ hpast' => ⟨hpast', trivial⟩

theorem code_follows : (r.2.code X a).Follows (UiRule r) (Replied X a r) [] := by
  obtain ⟨k, call⟩ := r
  cases call with
  | login body => exact login_follows k body
  | setOwnPassword username body => exact setOwnPassword_follows k username body
  | resetPassword caller groups target body =>
    have hr : UiCall.Resets target (.resetPassword caller groups target body) :=
      ⟨caller, groups, body, rfl⟩
    show Prog.Follows _ _ _ (resetPassword a caller groups target body)
    unfold resetPassword
    split
    · exact resetTarget_follows _ body hr rfl rfl
    · refine ⟨trivial, fun found => ?_⟩
      exact .ite (fun _ => resetTarget_follows _ body hr rfl rfl) fun _ => ⟨rfl, trivial⟩
  | sync => exact sync_follows k

theorem start_follows {L : Libraries} {r : UiRequest} {p : UiProg}
    (h : (replicaHost L a).start r p) : p.Follows (UiRule r) (Replied L.crypto a r) [] := by
  obtain rfl : p = r.2.code L.crypto a := h
  exact code_follows r

end Kairon.Ui
