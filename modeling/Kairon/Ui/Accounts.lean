import Kairon.Infra.Prog
import Kairon.Ui.Auth

/-!
# Accounts, as requests that run side by side

Signing in with a password, the two ways to change one, and the loop that takes over what other
replicas have written: `internal/uiapi/auth.go` and `internal/uiapi/sharedstate.go`. A section under
a lock, a reading of the clock, a bcrypt comparison and an API call are one step each.
-/

namespace Kairon.Ui

open Infra GoText

inductive SharedEntry where
  | lockout (username : String) (lockedUntil : Int)
  | passwordChange (username : String) (changedAt : Int)

/-- What became of a write to the Secret. One that failed may have been carried out, which the
caller does not learn. -/
inductive Patched where
  | ok
  | failed (anyway : Bool) (message : String)

def Patched.carriedOut : Patched → Bool
  | ok => true
  | failed anyway _ => anyway

inductive UiOp where
  | userCount
  | findUser (username : String)
  | loginLockedFor (username : String)
  /-- `bcrypt.CompareHashAndPassword`, with the hash of the user if there is one. -/
  | compareHash (username : String) (user : Option User) (password : String)
  /-- The section of `recordLoginResult`. -/
  | recordLoginResult (username : String) (success : Bool)
  | writeSharedState (entry : SharedEntry)
  | deleteSharedLockout (username : String)
  /-- `time.Now` in `signSession`. -/
  | signingTime (user : User)
  /-- `bcrypt.GenerateFromPassword`. -/
  | generateHash (password : String)
  /-- The first section of `setPasswordHash`: where the user is and the hash it had. -/
  | replaceHash (username hash : String)
  /-- The section of `persistUsers`. -/
  | readUsers
  | patchSecret (users : List User)
  /-- The way back of `setPasswordHash`. -/
  | restoreHash (idx : Nat) (previous : String)
  /-- `time.Now` in `handleResetPassword`. -/
  | resetTime (target : String)
  | loadPasswordChangedAt (username : String)
  | storePasswordChangedAt (username : String) (changedAt : Int)
  | getSecret
  /-- The section of `syncUsersFromSecret`. -/
  | replaceUsers (users : List User)
  | getSharedState
  | mergeLockout (username : String) (lockedUntil : Int)

@[reducible] def UiOp.Ans : UiOp → Type
  | userCount => Nat
  | findUser _ => Option User
  | loginLockedFor _ | signingTime _ | resetTime _ => Int
  | compareHash _ _ _ => Bool
  | recordLoginResult _ _ => Option Int
  | generateHash _ => Except String String
  | replaceHash _ _ => Option (Nat × String)
  | readUsers => List User
  | patchSecret _ => Patched
  | restoreHash _ _ => Bool
  | loadPasswordChangedAt _ => Option Int
  -- the list in the Secret, if it is there and decodes
  | getSecret => Except String (Option (List User))
  -- the entries that decode, and the time
  | getSharedState => Except String (List SharedEntry × Int)
  | writeSharedState _ | deleteSharedLockout _ | storePasswordChangedAt _ _ | replaceUsers _
    | mergeLockout _ _ => Unit

inductive UiReply where
  | error (code : Nat) (message : String)
  | token (token username : String) (isAdmin : Bool)
  | noContent
  /-- The handler panicked. -/
  | panicked
  /-- A round of the loop is over. -/
  | synced
  deriving DecidableEq

abbrev UiProg := Prog UiOp.Ans UiReply

structure AccountSettings where
  sessionSecret : String
  usersSecretName : String
  oidc : Option OIDCAuth

def maxLoginAttempts : Nat := 5

def loginLockoutFor : Int := 5 * 60 * second

def minPasswordLength : Nat := 8

def errPersistenceNotConfigured : String :=
  "runtime password changes are not persisted on this deployment (ui.auth.users is set via an " ++
    "externally-managed existingSecret)"

/-! ## Signing in -/

structure LoginRequest where
  username : String
  password : String
  deriving DecidableEq

variable (X : Crypto) (a : AccountSettings) (username : String)

def shareLoginResult (success : Bool) (lockedUntil : Option Int) : Prog UiOp.Ans Unit :=
  if success then Prog.perform UiOp.Ans (.deleteSharedLockout username)
  else
    match lockedUntil with
    | some t => Prog.perform UiOp.Ans (.writeSharedState (.lockout username t))
    | none => .ret ()

def finishLogin : Option User → Bool → UiProg
  | some user, true =>
    .call (.signingTime user) fun (now : Int) =>
      .ret (.token (signSession X a.sessionSecret now user.username [] sessionTTL).1 user.username
        user.isAdmin)
  | _, _ => .ret (.error 401 "invalid username or password")

def login (X : Crypto) (a : AccountSettings) (body : Except String LoginRequest) : UiProg :=
  .call .userCount fun (n : Nat) =>
    if n = 0 then .ret (.error 501 "username/password login is not configured on this server")
    else
      match body with
      | .error e => .ret (.error 400 ("invalid request body: " ++ e))
      | .ok req =>
        .call (.loginLockedFor req.username) fun (remaining : Int) =>
          if remaining > 0 then .ret (.error 429 "too many failed attempts; try again later")
          else
            .call (.findUser req.username) fun (found : Option User) =>
              .call (.compareHash req.username found req.password) fun (matched : Bool) =>
                .call (.recordLoginResult req.username (found.isSome && matched))
                  fun (lockedUntil : Option Int) =>
                    (shareLoginResult req.username (found.isSome && matched) lockedUntil).bind
                      fun _ => finishLogin X a found matched

/-! ## Changing a password -/

inductive Failure where
  | error (message : String)
  | panic

def persistUsers : Prog UiOp.Ans GoErr :=
  if a.usersSecretName = "" then .ret (.error errPersistenceNotConfigured)
  else
    .call .readUsers fun (users : List User) =>
      .call (.patchSecret users) fun (patched : Patched) =>
        match patched with
        | .ok => .ret (.ok ())
        | .failed _ message => .ret (.error message)

/-- `setPasswordHash`. The way back indexes the list of that moment, and panics outside it. -/
def setPasswordHash (newPassword : String) : Prog UiOp.Ans (Except Failure Unit) :=
  .call (.generateHash newPassword) fun (generated : Except String String) =>
    match generated with
    | .error e => .ret (.error (.error e))
    | .ok hash =>
      .call (.replaceHash username hash) fun (replaced : Option (Nat × String)) =>
        match replaced with
        | none => .ret (.error (.error ("user " ++ quote username ++ " not found")))
        | some (idx, previous) =>
          (persistUsers a).bind fun
            | .ok () => .ret (.ok ())
            | .error e =>
              .call (.restoreHash idx previous) fun (inside : Bool) =>
                .ret (.error (if inside then .error e else .panic))

def failed (what : String) : Failure → UiReply
  | .error e => .error 500 (what ++ e)
  | .panic => .panicked

structure SetPasswordRequest where
  currentPassword : String
  newPassword : String
  deriving DecidableEq

def tooShort : String :=
  "new password must be at least " ++ toString minPasswordLength ++ " characters"

def setOwnPassword (body : Except String SetPasswordRequest) : UiProg :=
  if username = "" then
    .ret (.error 400
      "changing a password requires a per-operator session login, not the shared token")
  else if a.usersSecretName = "" then .ret (.error 501 errPersistenceNotConfigured)
  else
    match body with
    | .error e => .ret (.error 400 ("invalid request body: " ++ e))
    | .ok req =>
      if req.newPassword.utf8ByteSize < minPasswordLength then .ret (.error 400 tooShort)
      else
        .call (.findUser username) fun (found : Option User) =>
          match found with
          | none => .ret (.error 401 "current password is incorrect")
          | some user =>
            .call (.compareHash username (some user) req.currentPassword) fun (matched : Bool) =>
              if matched = false then .ret (.error 401 "current password is incorrect")
              else
                (setPasswordHash a username req.newPassword).bind fun
                  | .error e => .ret (failed "failed to change password: " e)
                  | .ok () => .ret .noContent

def adminIdentity (groups : List String) : Prog UiOp.Ans Bool :=
  .call (.findUser username) fun (found : Option User) =>
    .ret (found.any User.isAdmin || a.oidc.any fun o => groupsContainAdmin groups o.adminGroups)

def resetTarget (target : String) (body : Except String String) : UiProg :=
  if a.usersSecretName = "" then .ret (.error 501 errPersistenceNotConfigured)
  else
    .call (.findUser target) fun (found : Option User) =>
      if found = none then .ret (.error 404 "no such user")
      else
        match body with
        | .error e => .ret (.error 400 ("invalid request body: " ++ e))
        | .ok newPassword =>
          if newPassword.utf8ByteSize < minPasswordLength then .ret (.error 400 tooShort)
          else
            (setPasswordHash a target newPassword).bind fun
              | .error e => .ret (failed "failed to reset password: " e)
              | .ok () =>
                .call (.resetTime target) fun (changedAt : Int) =>
                  .call (.storePasswordChangedAt target changedAt) fun _ =>
                    .call (.writeSharedState (.passwordChange target changedAt)) fun _ =>
                      .ret .noContent

def resetPassword (caller : String) (groups : List String) (target : String)
    (body : Except String String) : UiProg :=
  if caller = "" then resetTarget a target body
  else
    (adminIdentity a caller groups).bind fun admin =>
      if admin then resetTarget a target body
      else .ret (.error 403 "only an admin account may reset another operator's password")

/-! ## The loop -/

def syncUsersFromSecret : Prog UiOp.Ans Unit :=
  .call .getSecret fun (got : Except String (Option (List User))) =>
    match got with
    | .ok (some users) => Prog.perform UiOp.Ans (.replaceUsers users)
    | _ => .ret ()

def mergeSharedEntry (now : Int) : SharedEntry → Prog UiOp.Ans Unit
  | .lockout username lockedUntil =>
    if lockedUntil < now then .ret ()
    else Prog.perform UiOp.Ans (.mergeLockout username lockedUntil)
  | .passwordChange username changedAt =>
    -- `mergePasswordChangedAt` loads and stores in two steps
    .call (.loadPasswordChangedAt username) fun (existing : Option Int) =>
      if existing.any fun t => changedAt ≤ t then .ret ()
      else Prog.perform UiOp.Ans (.storePasswordChangedAt username changedAt)

def syncSharedConfigMap : Prog UiOp.Ans Unit :=
  .call .getSharedState fun (got : Except String (List SharedEntry × Int)) =>
    match got with
    | .error _ => .ret ()
    | .ok (entries, now) => Prog.forEach (mergeSharedEntry now) entries

def syncSharedStateOnce : UiProg :=
  syncSharedConfigMap.bind fun _ =>
    (if a.usersSecretName = "" then .ret () else syncUsersFromSecret).bind fun _ => .ret .synced

inductive UiCall where
  | login (body : Except String LoginRequest)
  | setOwnPassword (username : String) (body : Except String SetPasswordRequest)
  | resetPassword (caller : String) (groups : List String) (target : String)
      (body : Except String String)
  | sync
  deriving DecidableEq

def UiCall.code : UiCall → UiProg
  | login body => Ui.login X a body
  | setOwnPassword username body => Ui.setOwnPassword a username body
  | resetPassword caller groups target body => Ui.resetPassword a caller groups target body
  | sync => syncSharedStateOnce a

end Kairon.Ui
