import Kairon.Infra.Play
import Kairon.Ui.Accounts

/-!
# One replica of the UI server

The memory of a replica, the Secret its users are kept in, and the clock, which does not go back.
The world also has a history, which no request reads: who is between the check of the lock-out and
the record of the result, the comparisons, resets and sessions there were.
-/

namespace Kairon.Ui

open Infra List

abbrev UiRequest := Nat × UiCall

instance lawfulRequest : LawfulBEq UiRequest := inferInstance

structure LoginAttemptState where
  count : Nat
  lockedUntil : Option Int

structure Comparison where
  username : String
  time : Int
  matched : Bool

structure Reset where
  request : UiRequest
  username : String
  hash : String
  time : Int

structure Issue where
  user : User
  time : Int

structure History where
  /-- The logins that have passed the check and not yet recorded their result. -/
  checked : List UiRequest
  /-- Those of them that have compared the password. -/
  inCompare : List UiRequest
  compared : List Comparison
  /-- By whom and when a result was recorded that clears the failures. -/
  cleared : List (String × Int)
  replaced : List (UiRequest × String)
  resets : List Reset
  /-- The resets that are also recorded in `passwordChangedAt`. -/
  ended : List Reset
  issued : List Issue

def History.empty : History := ⟨[], [], [], [], [], [], [], []⟩

structure Replica where
  server : Server
  /-- A request panicked while it had `usersMu`: nobody gets it again. -/
  stuck : Bool
  secret : List User
  loginAttempts : List (String × LoginAttemptState)
  now : Int
  history : History

def put {α : Type} (key : String) (value : α) (m : List (String × α)) : List (String × α) :=
  (key, value) :: m.filter fun entry => entry.1 ≠ key

theorem lookup_put_self {α : Type} (key : String) (value : α) (m : List (String × α)) :
    (put key value m).lookup key = some value := by
  simp [put]

theorem lookup_put_of_ne {α : Type} {key key' : String} (h : key' ≠ key) (value : α)
    (m : List (String × α)) : (put key value m).lookup key' = m.lookup key' := by
  have hfilter : (m.filter fun entry => entry.1 ≠ key).lookup key' = m.lookup key' := by
    induction m with
    | nil => rfl
    | cons entry m ih =>
      by_cases hentry : entry.1 = key
      · rw [filter_cons_of_neg (by simpa using hentry), ih, lookup_cons, hentry, beq_false_of_ne h]
      · rw [filter_cons_of_pos (by simpa using hentry), lookup_cons, lookup_cons, ih]
  rw [put, lookup_cons, beq_false_of_ne h, hfilter]

variable (matches_ : (hash password : String) → Bool) (dummyHash : String) (w : Replica)
  (users : List User) (r : UiRequest) (username : String)

def setHashAt (idx : Nat) (hash : String) : List User :=
  users.modify idx fun u => { u with passwordHash := hash }

namespace Replica

def attempts : LoginAttemptState := (w.loginAttempts.lookup username).getD ⟨0, none⟩

def setAttempts (st : LoginAttemptState) : Replica :=
  { w with loginAttempts := put username st w.loginAttempts }

def lockedFor : Int :=
  match (w.attempts username).lockedUntil with
  | none => 0
  | some t => max 0 (t - w.now)

def withUsers : Replica := { w with server := { w.server with users := users } }

def recorded (success : Bool) : LoginAttemptState × Option Int :=
  let st := w.attempts username
  if success then (⟨0, none⟩, none)
  else if maxLoginAttempts ≤ st.count + 1 then
    (⟨0, some (w.now + loginLockoutFor)⟩, some (w.now + loginLockoutFor))
  else (⟨st.count + 1, st.lockedUntil⟩, none)

def mergedLockout (lockedUntil : Int) : LoginAttemptState :=
  let st := w.attempts username
  if st.lockedUntil.all (· < lockedUntil) then { st with lockedUntil := some lockedUntil } else st

def place : Option (Nat × String) :=
  (w.server.users.findIdx? fun u => u.username = username).bind fun idx =>
    w.server.users[idx]?.map fun u => (idx, u.passwordHash)

def noteCompared (user : Option User) (matched : Bool) : Replica :=
  let h := w.history
  { w with history := { h with
      inCompare := if r ∈ h.checked then r :: h.inCompare else h.inCompare
      compared := if r ∈ h.checked ∧ user.isSome then ⟨username, w.now, matched⟩ :: h.compared
        else h.compared } }

def noteReset (target : String) : Replica :=
  let h := w.history
  { w with history := { h with
      resets := ((h.replaced.lookup r).map fun hash => ⟨r, target, hash, w.now⟩).toList ++
        h.resets } }

def mayRead : Except String (Option (List User)) → Bool
  | .ok (some users) => users = w.secret
  | _ => true

def answers : (e : UiOp) → e.Ans → Bool
  | .userCount, n => ¬w.stuck ∧ n = w.server.users.length
  | .findUser username, found => ¬w.stuck ∧ found = w.server.findUser username
  | .loginLockedFor username, remaining => remaining = w.lockedFor username
  | .compareHash _ user password, matched =>
    matched = matches_ ((user.map User.passwordHash).getD dummyHash) password
  | .recordLoginResult username success, lockedUntil =>
    lockedUntil = (w.recorded username success).2
  | .signingTime _, now | .resetTime _, now => now = w.now
  | .replaceHash username _, replaced => ¬w.stuck ∧ replaced = w.place username
  | .readUsers, users => ¬w.stuck ∧ users = w.server.users
  | .restoreHash idx _, inside => ¬w.stuck ∧ inside = decide (idx < w.server.users.length)
  | .loadPasswordChangedAt username, t => t = w.server.passwordChangedAt.lookup username
  | .getSecret, got => w.mayRead got
  | .replaceUsers _, _ => ¬w.stuck
  | _, _ => true

def after : (e : UiOp) → e.Ans → Replica
  | .loginLockedFor _, remaining =>
    if (remaining : Int) > 0 then w
    else { w with history := { w.history with checked := r :: w.history.checked } }
  | .compareHash username user _, matched => w.noteCompared r username user matched
  | .recordLoginResult username success, _ =>
    { w.setAttempts username (w.recorded username success).1 with
      history := { w.history with
        checked := w.history.checked.erase r
        inCompare := w.history.inCompare.erase r
        cleared := if success then (username, w.now) :: w.history.cleared
          else w.history.cleared } }
  | .signingTime user, now =>
    { w with history := { w.history with issued := ⟨user, now⟩ :: w.history.issued } }
  | .replaceHash _ hash, some (idx, previous) =>
    { w.withUsers (setHashAt w.server.users idx hash) with
      history := { w.history with replaced := (r, previous) :: w.history.replaced } }
  | .patchSecret users, patched =>
    if Patched.carriedOut patched then { w with secret := users } else w
  | .restoreHash idx previous, inside =>
    if inside then w.withUsers (setHashAt w.server.users idx previous) else { w with stuck := true }
  | .resetTime target, _ => w.noteReset r target
  | .storePasswordChangedAt username t, _ =>
    { w with
      server := { w.server with passwordChangedAt := put username t w.server.passwordChangedAt }
      history := { w.history with
        ended := w.history.resets.filter (fun x => x.request = r) ++ w.history.ended } }
  | .replaceUsers users, _ => w.withUsers users
  | .mergeLockout username t, _ => w.setAttempts username (w.mergedLockout username t)
  | _, _ => w

def outcomes (w : Replica) (e : UiOp) (ans : e.Ans) : List Replica :=
  if w.answers matches_ dummyHash e ans then [w.after r e ans] else []

theorem eq_after {matches_ : (hash password : String) → Bool} {dummyHash : String} {r : UiRequest}
    {w w' : Replica} {e : UiOp} {ans : e.Ans} (h : w' ∈ outcomes matches_ dummyHash r w e ans) :
    w.answers matches_ dummyHash e ans = true ∧ w' = w.after r e ans := by
  obtain ⟨hans, h⟩ := mem_ite_nil_right.mp h
  exact ⟨hans, mem_singleton.mp h⟩

def writesLists : UiOp → Bool
  | .replaceHash _ _ | .patchSecret _ | .restoreHash _ _ | .replaceUsers _ => true
  | _ => false

theorem lists_after {e : UiOp} (he : writesLists e = false) (ans : e.Ans) :
    (w.after r e ans).server.users = w.server.users ∧ (w.after r e ans).secret = w.secret ∧
    (w.after r e ans).stuck = w.stuck := by
  cases e with
  | replaceHash | patchSecret | restoreHash | replaceUsers => cases he
  | loginLockedFor username =>
    simp only [after]
    split <;> exact ⟨rfl, rfl, rfl⟩
  | _ => exact ⟨rfl, rfl, rfl⟩

inductive Elsewhere (w : Replica) : Replica → Prop
  | time {now : Int} (later : w.now ≤ now) : Elsewhere w { w with now := now }
  | secret (users : List User) : Elsewhere w { w with secret := users }

end Replica

structure Libraries where
  crypto : Crypto
  passwordMatches : (hash password : String) → Bool
  dummyHash : String

variable (L : Libraries) (a : AccountSettings)

abbrev UiConf := Conf UiOp.Ans UiReply UiRequest Replica

abbrev UiLabel := Label UiOp.Ans UiReply UiRequest Replica

abbrev UiMove := Move UiOp.Ans UiReply UiRequest Replica

def replicaHost : Host UiOp.Ans UiReply UiRequest Replica where
  outcomes := Replica.outcomes L.passwordMatches L.dummyHash
  start r p := p = r.2.code L.crypto a
  env := Replica.Elsewhere
  crash := False

abbrev ReplicaRun (w : Replica) (tr : List UiLabel) (c : UiConf) : Prop :=
  Run (replicaHost L a) (fun _ _ => True) (.idle w) tr c

/-- The answers that the replica gives when nothing fails but perhaps the write of the Secret, and
nothing is shared. A hash tells its password. -/
def Replica.answer (patched : Patched) (w : Replica) : (e : UiOp) → e.Ans
  | .userCount => w.server.users.length
  | .findUser username => w.server.findUser username
  | .loginLockedFor username => w.lockedFor username
  | .compareHash _ user password =>
    L.passwordMatches ((user.map User.passwordHash).getD L.dummyHash) password
  | .recordLoginResult username success => (w.recorded username success).2
  | .signingTime _ | .resetTime _ => w.now
  | .generateHash password => .ok ("hash of " ++ password)
  | .replaceHash username _ => w.place username
  | .readUsers => w.server.users
  | .patchSecret _ => patched
  | .restoreHash idx _ => decide (idx < w.server.users.length)
  | .loadPasswordChangedAt username => w.server.passwordChangedAt.lookup username
  | .getSecret => .ok (some w.secret)
  | .getSharedState => .error "not configured"
  | .writeSharedState _ | .deleteSharedLockout _ | .storePasswordChangedAt _ _ | .replaceUsers _
    | .mergeLockout _ _ => ()

noncomputable def plainLibraries : Libraries where
  crypto := strokes
  passwordMatches hash password := hash = "hash of " ++ password
  dummyHash := ""

def plainAccounts : AccountSettings := ⟨"secret", "kairon-ui-users", none⟩

def replicaOf : Replica := ⟨⟨"", users, "secret", none, false, [], []⟩, false, users, [], 0, .empty⟩

def alice : User := ⟨"alice", "hash of wonderland", true, []⟩

def bob : User := ⟨"bob", "hash of builder", false, []⟩

def resetBob : UiRequest := (0, .resetPassword "" [] "bob" (.ok "new-password"))

noncomputable def steps (n : Nat) (patched : Patched) : List UiMove :=
  List.replicate n (.call r (fun w => w.answer plainLibraries patched) 0)

noncomputable def begin : UiMove :=
  .start r (r.2.code strokes plainAccounts)

end Kairon.Ui
