import Kairon.Cluster.Op
import Kairon.Infra.GoNet
import Kairon.Infra.Play

/-!
# The migration adapter for FluxVM

`cmd/kairon-migration-adapter-fluxvm/main.go`: the service that turns the migration contract into
requests to the FluxVM on its host. It keeps two maps, from a session to the receiver made for it
and to the VM that is sent away. A section under `mu` is one call, a request another, and requests
run side by side. FluxVM changes what it has by itself, too; it says that there is no such VM or
migration only if that is so.
-/

namespace Kairon.Adapter

open Infra GoText GoNet Migration Cluster

/-! ## The client of FluxVM -/

structure MigrationTLS where
  caPath : String
  certPath : String
  keyPath : String
  tlsHostname : String
  deriving DecidableEq

structure NetworkSpec where
  mode : String
  bridge : String
  mac : String

structure CreateVMSpec where
  name : String
  backend : String
  image : String
  vcpus : UInt32
  memoryMiB : UInt64
  network : NetworkSpec

structure ReceiverRequest where
  spec : CreateVMSpec
  diskPath : String
  receiverTTLSeconds : UInt64
  migrationBindAddress : String
  tls : Option MigrationTLS

structure ReceiverInfo where
  id : String
  port : UInt16
  deriving DecidableEq, Inhabited

structure MigrationStartRequest where
  destination : String
  mode : String
  bandwidthMbps : UInt64
  maxDowntimeMs : UInt64
  multifdChannels : UInt8
  tls : Option MigrationTLS
  deriving DecidableEq

structure MigrationStatus where
  phase : String
  ramTransferred : UInt64
  ramRemaining : UInt64
  ramTotal : UInt64
  totalTimeMs : UInt64
  downtimeMs : UInt64
  error : String
  deriving DecidableEq, Inhabited

inductive FluxRequest where
  | createReceiver (body : ReceiverRequest)
  | activate (receiverID : String)
  | deleteReceiver (receiverID : String)
  | start (runtimeID : String) (body : MigrationStartRequest)
  | status (runtimeID : String)
  | cancel (runtimeID : String)

namespace FluxRequest

def method : FluxRequest → String
  | createReceiver _ | activate _ | start _ _ | cancel _ => "POST"
  | deleteReceiver _ => "DELETE"
  | status _ => "GET"

def path : FluxRequest → String
  | createReceiver _ => "/v1/migration/receivers"
  | activate id => "/v1/migration/receivers/" ++ id ++ "/activate"
  | deleteReceiver id => "/v1/migration/receivers/" ++ id
  | start id _ => "/v1/vms/" ++ id ++ "/migration/start"
  | status id => "/v1/vms/" ++ id ++ "/migration/status"
  | cancel id => "/v1/vms/" ++ id ++ "/migration/cancel"

end FluxRequest

inductive Fate where
  | accepted
  /-- There is no such VM or migration. -/
  | absent
  | refused
  deriving DecidableEq

inductive Response where
  /-- `http.Do` fails. What FluxVM did, if the request got there, the adapter does not learn. -/
  | noAnswer (fate : Fate) (message : String)
  | answered (status : Nat) (data : String)

def Response.fate : Response → Fate
  | noAnswer fate _ => fate
  | answered status _ =>
    if 200 ≤ status ∧ status < 300 then .accepted
    else if status = 404 then .absent
    else .refused

def FluxRequest.result {α : Type} [Inhabited α] (req : FluxRequest)
    (out : String → Except String α) : Response → Except String α
  | .noAnswer _ message => .error message
  | .answered code data =>
    if code < 200 ∨ 300 ≤ code then
      .error ("fluxvm " ++ req.method ++ " " ++ req.path ++ ": HTTP " ++ toString code ++ ": " ++
        trimSpace data)
    else if data = "" then .ok default
    else (out data).mapError ("decode fluxvm response: " ++ ·)

structure Decoders where
  receiverInfo : String → Except String ReceiverInfo
  migrationStatus : String → Except String MigrationStatus

def fluxPhaseToKairon (phase : String) : String :=
  match toLower phase with
  | "completed" => "completed"
  | "failed" => "failed"
  | "cancelled" | "canceled" => "cancelled"
  | _ => "running"

def toTransferStatus (transferID : String) (s : MigrationStatus) : TransferStatus :=
  ⟨transferID, fluxPhaseToKairon s.phase, s.error, s.ramTransferred, s.ramRemaining, s.ramTotal,
    s.totalTimeMs, s.downtimeMs⟩

/-! ## The settings -/

structure Settings where
  advertiseHost : String
  bridge : String
  receiverTTLSec : UInt64
  migrationNetworks : List (String × String)
  tlsCA : String
  tlsCert : String
  tlsKey : String
  deriving DecidableEq

def setMigrationNetwork (m : List (String × String)) (value : String) :
    Except String (List (String × String)) :=
  match cut value '=' with
  | none => .error ("expected name=ip, got " ++ quote value)
  | some (name, ip) =>
    if name = "" ∨ ip = "" then .error ("expected name=ip, got " ++ quote value)
    else if parseIP ip = none then
      .error ("invalid IP " ++ quote ip ++ " for migration network " ++ quote name)
    else .ok ((name, ip) :: m)

structure Flags where
  advertiseHost : String := "127.0.0.1"
  bridge : String := "virbr0"
  receiverTTL : UInt64 := 300
  migrationNetworks : List String := []
  dataTLS : Bool := false
  tlsCA : String := ""
  tlsCert : String := ""
  tlsKey : String := ""

def Flags.settings (f : Flags) : Except String Settings := do
  let networks ← f.migrationNetworks.foldlM setMigrationNetwork []
  if f.dataTLS ∧ (f.tlsCA = "" ∨ f.tlsCert = "" ∨ f.tlsKey = "") then
    throw ("-migration-data-tls is fail-closed: -migration-ca, -migration-cert and " ++
      "-migration-key must all be set")
  let tls (path : String) : String := if f.dataTLS then path else ""
  return ⟨f.advertiseHost, f.bridge, f.receiverTTL, networks, tls f.tlsCA, tls f.tlsCert,
    tls f.tlsKey⟩

def Settings.migrationTLSSpec (a : Settings) (hostname : String) : Option MigrationTLS :=
  if a.tlsCA = "" then none else some ⟨a.tlsCA, a.tlsCert, a.tlsKey, hostname⟩

def endpointHost (endpoint : String) : String :=
  match cutPrefix endpoint "tcp:" with
  | none => ""
  | some rest =>
    match splitHostPort rest with
    | .error _ => ""
    | .ok (host, _) => host

/-! ## The handlers -/

inductive AdapterOp where
  | setDest (id receiverID : String)
  | getDest (id : String)
  /-- Look up and forget, in one section. -/
  | takeDest (id : String)
  | setSource (transferID runtimeID : String)
  | getSource (transferID : String)
  | flux (req : FluxRequest)

@[reducible] def AdapterOp.Ans : AdapterOp → Type
  | setDest _ _ | setSource _ _ => Unit
  | getDest _ | takeDest _ | getSource _ => Option String
  | flux _ => Response

inductive Reply where
  | prepared (result : PrepareResult)
  | transfer (status : TransferStatus)
  | done
  | error (code : Nat) (message : String)
  deriving DecidableEq

def Reply.code : Reply → Nat
  | prepared _ | transfer _ | done => 200
  | error code _ => code

abbrev AdapterProg := Prog AdapterOp.Ans Reply

variable (a : Settings) (D : Decoders)

/-- The address in the endpoint of a session, and the one the receiver binds; none for a migration
network that is not configured. -/
def Settings.addresses (session : Session) : Option (String × String) :=
  if session.migrationNetwork = "" then some (a.advertiseHost, "")
  else (a.migrationNetworks.lookup session.migrationNetwork).map fun ip => (ip, ip)

def Settings.receiverRequest (session : Session) (backend bindAddress : String) :
    ReceiverRequest where
  spec := ⟨session.machine, backend, session.diskPath, session.vcpus, session.memoryMiB,
    ⟨"tap", a.bridge, session.mac⟩⟩
  diskPath := session.diskPath
  receiverTTLSeconds := a.receiverTTLSec
  migrationBindAddress := bindAddress
  tls := a.migrationTLSSpec ""

def endpoint (host : String) (port : UInt16) : String :=
  "tcp:" ++ (host ++ ":" ++ toString port.toNat)

def notSupported (reason : String) : Reply := .prepared ⟨false, "", "", reason, false⟩

def prepare : Except String Session → AdapterProg
  | .error e => .ret (.error 400 e)
  | .ok session =>
    if session.diskPath = "" ∨ session.mac = "" then
      .ret (.error 422 ("session missing diskPath/mac -- kairon-node's Session extension is " ++
        "required for this adapter"))
    else
      let backend := if session.backend = "" then "qemu" else session.backend
      match a.addresses session with
      | none =>
        .ret (notSupported ("unknown migrationNetwork " ++ quote session.migrationNetwork ++
          " (not configured via -migration-network on this adapter)"))
      | some (host, bindAddress) =>
        let req := FluxRequest.createReceiver (a.receiverRequest session backend bindAddress)
        .call (.flux req) fun (response : Response) =>
          match req.result D.receiverInfo response with
          | .error e => .ret (notSupported e)
          | .ok info =>
            .call (.setDest session.id info.id) fun _ =>
              .ret (.prepared ⟨true, endpoint host info.port, backend, "", decide (a.tlsCA ≠ "")⟩)

def destCommit (id : String) : AdapterProg :=
  .call (.getDest id) fun (found : Option String) =>
    match found with
    | none => .ret (.error 404 ("unknown destination session " ++ quote id))
    | some receiverID =>
      let req := FluxRequest.activate receiverID
      .call (.flux req) fun (response : Response) =>
        match req.result (fun _ => .ok ()) response with
        | .error e => .ret (.error 502 e)
        | .ok () => .ret .done

def destAbort (id : String) : AdapterProg :=
  .call (.takeDest id) fun (found : Option String) =>
    match found with
    | none => .ret .done
    | some receiverID => .call (.flux (.deleteReceiver receiverID)) fun _ => .ret .done

def Settings.startRequest (req : SourceRequest) : MigrationStartRequest where
  destination := req.endpoint
  mode := if req.options.mode = "" then "pre-copy" else req.options.mode
  bandwidthMbps := req.options.bandwidthMbps
  maxDowntimeMs := req.options.maxDowntimeMs
  multifdChannels := req.options.multifdChannels
  tls := a.migrationTLSSpec (endpointHost req.endpoint)

def sourceStart : Except String SourceRequest → AdapterProg
  | .error e => .ret (.error 400 e)
  | .ok req =>
    if req.runtimeID = "" then .ret (.error 422 "source request missing runtimeID")
    else
      let start := FluxRequest.start req.runtimeID (a.startRequest req)
      .call (.flux start) fun (response : Response) =>
        match start.result D.migrationStatus response with
        | .error e => .ret (.error 502 e)
        | .ok status =>
          .call (.setSource req.session.id req.runtimeID) fun _ =>
            .ret (.transfer (toTransferStatus req.session.id status))

def sourceStatus (transferID : String) : AdapterProg :=
  .call (.getSource transferID) fun (found : Option String) =>
    match found with
    | none => .ret (.error 404 ("unknown transfer " ++ quote transferID))
    | some runtimeID =>
      let req := FluxRequest.status runtimeID
      .call (.flux req) fun (response : Response) =>
        match req.result D.migrationStatus response with
        | .error e => .ret (.error 502 e)
        | .ok status => .ret (.transfer (toTransferStatus transferID status))

def sourceAbort (transferID : String) : AdapterProg :=
  .call (.getSource transferID) fun (found : Option String) =>
    match found with
    | none => .ret .done
    | some runtimeID => .call (.flux (.cancel runtimeID)) fun _ => .ret .done

inductive AdapterCall where
  | prepare (body : Except String Session)
  | destCommit (id : String)
  | destAbort (id : String)
  | sourceStart (body : Except String SourceRequest)
  | sourceStatus (sessionID transferID : String)
  | sourceAbort (sessionID transferID : String)
  deriving DecidableEq

def AdapterCall.code : AdapterCall → AdapterProg
  | prepare body => Adapter.prepare a D body
  | destCommit id => Adapter.destCommit id
  | destAbort id => Adapter.destAbort id
  | sourceStart body => Adapter.sourceStart a D body
  | sourceStatus _ transferID => Adapter.sourceStatus D transferID
  | sourceAbort _ transferID => Adapter.sourceAbort transferID

/-- The maps of the adapter, and what FluxVM has. With a receiver and with a migration goes the
session it was made for, which FluxVM does not know. -/
structure World where
  destByID : List (String × String)
  sourceRTID : List (String × String)
  receivers : List (String × String)
  migrations : List (String × String)
  deriving DecidableEq

abbrev Request := Nat × AdapterCall

def AdapterCall.session : AdapterCall → String
  | prepare (.ok session) => session.id
  | sourceStart (.ok req) => req.session.id
  | destCommit id | destAbort id => id
  | sourceStatus _ transferID | sourceAbort _ transferID => transferID
  | prepare (.error _) | sourceStart (.error _) => ""

def forget (key : String) (m : List (String × String)) : List (String × String) :=
  m.filter fun entry => entry.1 ≠ key

namespace World

def has (w : World) : FluxRequest → Bool
  | .activate id | .deleteReceiver id => w.receivers.any fun r => r.2 = id
  | .status id | .cancel id => w.migrations.any fun m => m.2 = id
  | .createReceiver _ | .start _ _ => true

def accept (D : Decoders) (w : World) (session : String) (response : Response) : FluxRequest → World
  | .createReceiver body =>
    match (FluxRequest.createReceiver body).result D.receiverInfo response with
    | .ok info => { w with receivers := (session, info.id) :: w.receivers }
    | .error _ => w
  | .deleteReceiver id => { w with receivers := w.receivers.filter fun r => r.2 ≠ id }
  | .start id _ => { w with migrations := (session, id) :: w.migrations }
  | .cancel id => { w with migrations := w.migrations.filter fun m => m.2 ≠ id }
  | .activate _ | .status _ => w

def outcomes (D : Decoders) (r : Request) (w : World) : (e : AdapterOp) → e.Ans → List World
  | .setDest id receiverID, _ => [{ w with destByID := (id, receiverID) :: forget id w.destByID }]
  | .getDest id, found => if found = w.destByID.lookup id then [w] else []
  | .takeDest id, found =>
    if found = w.destByID.lookup id then [{ w with destByID := forget id w.destByID }] else []
  | .setSource id runtimeID, _ =>
    [{ w with sourceRTID := (id, runtimeID) :: forget id w.sourceRTID }]
  | .getSource id, found => if found = w.sourceRTID.lookup id then [w] else []
  | .flux req, response =>
    match response.fate with
    | .accepted => [w.accept D r.2.session response req]
    | .absent => if w.has req then [] else [w]
    | .refused => [w]

end World

def host (a : Settings) (D : Decoders) : Host AdapterOp.Ans Reply Request World where
  outcomes := World.outcomes D
  start r p := p = r.2.code a D
  env w w' := w'.destByID = w.destByID ∧ w'.sourceRTID = w.sourceRTID
  crash := False

abbrev AdapterRun (a : Settings) (D : Decoders) (w : World)
    (tr : List (Label AdapterOp.Ans Reply Request World))
    (c : Conf AdapterOp.Ans Reply Request World) : Prop :=
  Run (host a D) (fun _ _ => True) (.idle w) tr c

end Kairon.Adapter
