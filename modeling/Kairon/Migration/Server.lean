import Kairon.Infra.Conf
import Kairon.Migration.Session

/-!
# The peer migration server

`internal/migration/server.go`. A handler is a program over the store, the clock, the per-session
lock and the destination driver; a driver is a program over whatever services it uses.
-/

namespace Kairon.Migration

open Infra GoText

inductive StoreError where
  | notFound
  | other (text : String)
  deriving DecidableEq

def StoreError.text : StoreError → String
  | notFound => "migration session not found"
  | other s => s

/-- The calls a handler makes. `D` are the calls of the destination driver. -/
inductive ServerOp (D : Type) where
  | get (id : String)
  | put (s : Session)
  | list
  | now
  | lock (id : String)
  | unlock (id : String)
  | driver (d : D)

def ServerOp.Ans {D : Type} (DAns : D → Type) : ServerOp D → Type
  | get _ => Except StoreError Session
  | put _ => GoErr
  | list => Except String (List Session)
  | now => Int
  | lock _ => Unit
  | unlock _ => Unit
  | driver d => DAns d

structure DestinationDriver {D : Type} (DAns : D → Type) where
  prepare : Session → Prog DAns (Except String PrepareResult)
  commit : Session → Prog DAns GoErr
  abort : Session → Prog DAns GoErr
  diagnose : Option (Session → Prog DAns (Except String DiagnosisResult))

/-- `Server`. An unset store or driver is `false` or `none`; `formatDuration` is
`time.Duration.String`. -/
structure Server {D : Type} (DAns : D → Type) where
  store : Bool
  driver : Option (DestinationDriver DAns)
  nodeName : String
  heartbeatTTL : Int
  formatDuration : Int → String

inductive Body where
  | error (text : String)
  | session (r : PrepareResponse)
  | diagnosis (r : DiagnosisResult)

inductive Outcome where
  | http (status : Nat) (body : Body)
  | reaped (r : GoErr)

inductive PrepareBody where
  | undecodable (err : String)
  /-- A second value follows the first, or (`some err`) something that is no JSON. -/
  | trailing (err : Option String)
  | request (s : Session)

namespace Server

variable {D : Type} {DAns : D → Type}

abbrev M (DAns : D → Type) := Prog (ServerOp.Ans DAns)

variable (S : Server DAns) (d : DestinationDriver DAns) (id : String)

def get : M DAns (Except StoreError Session) := Prog.perform (ServerOp.Ans DAns) (.get id)

def put (s : Session) : M DAns GoErr :=
  Prog.perform (ServerOp.Ans DAns) (.put s)

def list : M DAns (Except String (List Session)) :=
  Prog.perform (ServerOp.Ans DAns) .list

def now : M DAns Int :=
  Prog.perform (ServerOp.Ans DAns) .now

def lock : M DAns Unit := Prog.perform (ServerOp.Ans DAns) (.lock id)

def unlock : M DAns Unit := Prog.perform (ServerOp.Ans DAns) (.unlock id)

def ofDriver {α : Type} : Prog DAns α → M DAns α
  | .ret a => .ret a
  | .call d k => .call (.driver d) fun a => ofDriver (k a)

def writeError (status : Nat) (text : String) : M DAns Outcome :=
  pure (.http status (.error text))

def writeSession (status : Nat) (s : Session) : M DAns Outcome :=
  pure (.http status (.session (response s)))

def dependencies : Except String (DestinationDriver DAns) :=
  if !S.store then
    .error "migration store is not configured"
  else
    match S.driver with
    | none => .error "migration destination driver is not configured"
    | some d => .ok d

def preparedSession (req : Session) (result : PrepareResult) (now : Int) : Session :=
  { req with
    createdAt := now
    updatedAt := now
    transferSupported := result.transferSupported
    endpoint := result.endpoint
    backend := result.backend
    reason := result.reason
    dataPlaneEncrypted := result.dataPlaneEncrypted
    phase := if result.transferSupported then .prepared else .unsupported }

def prepareNew (req : Session) : M DAns Outcome := do
  match ← ofDriver (d.prepare req) with
  | .error err => writeError 502 ("prepare destination: " ++ err)
  | .ok result =>
    if result.transferSupported && trimSpace result.endpoint == "" then
      writeError 502 "destination driver claimed support but returned an empty endpoint"
    else
      let session := preparedSession req result (← now)
      match ← put session with
      | .error err =>
        let _ ← ofDriver (d.abort session)
        writeError 500 err
      | .ok () => writeSession 201 session

/-- `prepare`. It takes no lock. -/
def prepare (S : Server DAns) (body : PrepareBody) : M DAns Outcome :=
  match S.dependencies with
  | .error err => writeError 503 err
  | .ok d =>
    match body with
    | .undecodable err => writeError 400 ("decode prepare request: " ++ err)
    | .trailing none => writeError 400 "request must contain exactly one JSON object"
    | .trailing (some err) => writeError 400 ("invalid trailing JSON: " ++ err)
    | .request req =>
      match req.validate with
      | .error err => writeError 400 err
      | .ok () =>
        if S.nodeName != "" && req.targetNode != S.nodeName then
          writeError 403 ("session targets node " ++ quote req.targetNode ++
            " but this peer is " ++ quote S.nodeName)
        else do
          match ← get req.id with
          | .ok existing =>
            if !existing.sameIdentity req then
              writeError 409 "session id already exists with different immutable identity"
            else
              writeSession 200 existing
          | .error (.other err) => writeError 500 err
          | .error .notFound => prepareNew d req

def writeStoreError (err : StoreError) : M DAns Outcome :=
  writeError (if err = .notFound then 404 else 500) err.text

def getSession : M DAns Outcome :=
  if !S.store then
    writeError 503 "migration store is not configured"
  else do
    match ← get id with
    | .error err => writeStoreError err
    | .ok session => writeSession 200 session

def transitionLocked (desired : SessionPhase) (fn : Session → Prog DAns GoErr) :
    M DAns Outcome := do
  match ← get id with
  | .error err => writeStoreError err
  | .ok session =>
    if session.phase = desired then
      writeSession 200 session
    else if desired = .committed ∧ session.phase ≠ .prepared then
      writeError 409 ("cannot commit session in phase " ++ session.phase.text)
    else if desired = .aborted ∧ session.phase = .committed then
      writeError 409 "cannot abort a committed session"
    else
      match ← ofDriver (fn session) with
      | .error err => writeError 502 err
      | .ok () =>
        let session := { session with phase := desired, updatedAt := ← now }
        match ← put session with
        | .error err => writeError 500 err
        | .ok () => writeSession 200 session

def transition (desired : SessionPhase) (fn : DestinationDriver DAns → Session → Prog DAns GoErr) :
    M DAns Outcome :=
  match S.dependencies with
  | .error err => writeError 503 err
  | .ok d => do
    lock id
    let out ← transitionLocked id desired (fn d)
    unlock id
    pure out

def commit : M DAns Outcome := S.transition id .committed fun d s => d.commit s

def abort : M DAns Outcome := S.transition id .aborted fun d s => d.abort s

def heartbeat : M DAns Outcome :=
  if !S.store then
    writeError 503 "migration store is not configured"
  else do
    match ← get id with
    | .error err => writeStoreError err
    | .ok session =>
      if session.phase = .prepared then
        let session := { session with updatedAt := ← now }
        match ← put session with
        | .error err => writeError 500 err
        | .ok () => writeSession 200 session
      else
        writeSession 200 session

def isStale (now : Int) (s : Session) : Bool :=
  s.phase == .prepared && !(now - s.updatedAt < S.heartbeatTTL)

def reapOneLocked (seen : Int) : M DAns Unit := do
  match ← get id with
  | .error _ => pure ()
  | .ok session =>
    if !S.isStale seen session then
      pure ()
    else
      match ← ofDriver (d.abort session) with
      | .error _ => pure ()
      | .ok () =>
        let reason := "heartbeat timeout: no renewal for over " ++
          S.formatDuration S.heartbeatTTL ++ ", presumed source failure"
        let _ ← put { session with phase := .aborted, reason := reason, updatedAt := ← now }
        pure ()

def reapOne (seen : Int) : M DAns Unit := do
  lock id
  reapOneLocked S d id seen
  unlock id

def reapEach (S : Server DAns) (d : DestinationDriver DAns) (seen : Int) :
    List Session → M DAns Unit
  | [] => pure ()
  | s :: rest => do
    if S.isStale seen s then
      reapOne S d s.id seen
    reapEach S d seen rest

def reapStaleSessions : M DAns Outcome :=
  match S.dependencies with
  | .error _ => pure (.reaped (.ok ()))
  | .ok d =>
    if S.heartbeatTTL ≤ 0 then
      pure (.reaped (.ok ()))
    else do
      match ← list with
      | .error err => pure (.reaped (.error ("list sessions: " ++ err)))
      | .ok sessions =>
        let seen ← now
        reapEach S d seen sessions
        pure (.reaped (.ok ()))

def diagnosis : M DAns Outcome :=
  if !S.store then
    writeError 503 "migration store is not configured"
  else do
    match ← get id with
    | .error err => writeStoreError err
    | .ok session =>
      match S.driver.bind DestinationDriver.diagnose with
      | none => do
        let observed ← now
        pure (.http 200 (.diagnosis ⟨session.phase, false, "", "", "", observed⟩))
      | some diagnose =>
        match ← ofDriver (diagnose session) with
        | .error err => writeError 502 ("diagnose destination: " ++ err)
        | .ok result => pure (.http 200 (.diagnosis result))

inductive Entry (S : Server DAns) : M DAns Outcome → Prop
  | prepare (body : PrepareBody) : Entry S (S.prepare body)
  | get (id : String) : Entry S (S.getSession id)
  | commit (id : String) : Entry S (S.commit id)
  | abort (id : String) : Entry S (S.abort id)
  | heartbeat (id : String) : Entry S (S.heartbeat id)
  | diagnosis (id : String) : Entry S (S.diagnosis id)
  | reap : Entry S S.reapStaleSessions

end Server

end Kairon.Migration
