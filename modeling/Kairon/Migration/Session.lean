import Kairon.Infra.GoText

/-!
# Migration sessions

The data of `internal/migration/types.go`: the session a source node opens on its peer, its
validation, and what the destination answers.
-/

namespace Kairon.Migration

open Infra GoText

/-- `Session.Phase`. The store may hold any text; only four values are ever written. -/
inductive SessionPhase where
  | prepared
  | unsupported
  | committed
  | aborted
  | other (text : String)
  deriving DecidableEq

namespace SessionPhase

def text : SessionPhase → String
  | prepared => "Prepared"
  | unsupported => "Unsupported"
  | committed => "Committed"
  | aborted => "Aborted"
  | other s => s

def isTerminal : SessionPhase → Bool
  | committed | aborted => true
  | _ => false

end SessionPhase

/-- A migration session. `json.RawMessage` fields are their text, times are nanoseconds. -/
structure Session where
  id : String
  «namespace» : String
  machine : String
  sourceNode : String
  targetNode : String
  runtimeID : String
  phase : SessionPhase
  backend : String
  endpoint : String
  transferSupported : Bool
  reason : String
  dataPlaneEncrypted : Bool
  networkSnapshot : String
  conntrackSnapshot : String
  diskPath : String
  mac : String
  vcpus : UInt32
  memoryMiB : UInt64
  migrationNetwork : String
  createdAt : Int
  updatedAt : Int
  deriving DecidableEq

def isSafeHead (c : Char) : Bool :=
  c.isAlphanum

def isSafeTail (c : Char) : Bool :=
  c.isAlphanum || c == '.' || c == '_' || c == '-'

def matchesSafe (n : Nat) (s : String) : Bool :=
  match s.toList with
  | [] => false
  | c :: cs => isSafeHead c && cs.all isSafeTail && cs.length ≤ n

def safeID (s : String) : Bool := matchesSafe 127 s

def safeName (s : String) : Bool := matchesSafe 252 s

namespace Session

def checkName (field value : String) : GoErr :=
  if safeName value then .ok () else .error ("invalid " ++ field ++ " " ++ quote value)

/-- `Session.Validate`. The source ranges over a map, so which of several bad names is reported
is left open there; here they are taken in the order they are written. -/
def validate (s : Session) : GoErr := do
  if !safeID s.id then
    throw ("invalid id " ++ quote s.id)
  checkName "namespace" s.namespace
  checkName "machine" s.machine
  checkName "sourceNode" s.sourceNode
  checkName "targetNode" s.targetNode
  if s.sourceNode == s.targetNode then
    throw "sourceNode and targetNode must differ"
  if s.migrationNetwork != "" then
    checkName "migrationNetwork" s.migrationNetwork

def sameIdentity (s other : Session) : Bool :=
  s.id == other.id && s.namespace == other.namespace && s.machine == other.machine &&
    s.sourceNode == other.sourceNode && s.targetNode == other.targetNode &&
    s.runtimeID == other.runtimeID

end Session

structure PrepareResult where
  transferSupported : Bool
  endpoint : String
  backend : String
  reason : String
  dataPlaneEncrypted : Bool
  deriving DecidableEq

structure PrepareResponse where
  sessionID : String
  phase : SessionPhase
  transferSupported : Bool
  endpoint : String
  backend : String
  reason : String
  dataPlaneEncrypted : Bool

structure DiagnosisResult where
  sessionPhase : SessionPhase
  destinationRuntimeFound : Bool
  destinationRuntimeStatus : String
  destinationRuntimeID : String
  destinationGuestIP : String
  observedAt : Int

def response (s : Session) : PrepareResponse where
  sessionID := s.id
  phase := s.phase
  transferSupported := s.transferSupported
  endpoint := s.endpoint
  backend := s.backend
  reason := s.reason
  dataPlaneEncrypted := s.dataPlaneEncrypted

end Kairon.Migration
