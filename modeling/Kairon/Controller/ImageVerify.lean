import Kairon.Controller.Quota
import Kairon.Infra.Prog
import Kairon.Infra.Table

/-!
# Image signatures at admission

The part of the admission webhook that has the image of an agent-pool Machine verified:
`verifyAgentImage` of `internal/controller/imageverify.go`, where `validateMachine` calls it and
where it does not.
-/

namespace Kairon.Images

open Infra GoText Model
open Controller (Admission)

def annAgentPool : String := "kairon.zyvor.dev/agent-pool"

structure AgentImage where
  source : Option String
  digest : String
  deriving DecidableEq

structure AgentMachine where
  metadata : ObjectMeta
  image : AgentImage
  deriving DecidableEq

namespace AgentMachine

def key (m : AgentMachine) : ObjectKey := m.metadata.key

@[irreducible] def agentPool (m : AgentMachine) : Bool :=
  let v := toLower (trimSpace (m.metadata.annotations.get annAgentPool))
  v = "true" || v = "1" || v = "yes"

end AgentMachine

inductive VerifyOp where
  | verify (ref digest : String)

def VerifyOp.Ans : VerifyOp → Type
  | verify _ _ => GoErr

variable (cosign : Bool)

def verifyAgentImage (m : AgentMachine) : Prog VerifyOp.Ans GoErr :=
  if cosign = false then .ret (.ok ())
  else if m.agentPool = false then .ret (.ok ())
  else
    match m.image.source with
    | none => .ret (.error unsourced)
    | some oci =>
      if oci = "" then .ret (.error unsourced)
      else
        (Prog.perform VerifyOp.Ans (.verify oci m.image.digest)).bind fun r =>
        .ret (r.mapError fun e => "agent pool image signature: " ++ e)
where
  unsourced :=
    "agent pool image must be spec.image.source.oci so its cosign signature can be verified"

structure Verdicts where
  earlier : Option String
  later : Option String

inductive MachineRequest where
  | create (m : AgentMachine)
  | update (new : AgentMachine)
  | delete (k : ObjectKey)

def validateMachineCreate (v : Verdicts) (m : AgentMachine) : Prog VerifyOp.Ans Admission :=
  match v.earlier with
  | some e => .ret (.deny e)
  | none =>
    (verifyAgentImage cosign m).bind fun
      | .error e => .ret (.deny e)
      | .ok () => .ret (v.later.elim .allow .deny)

def validateMachineResize (v : Verdicts) : Prog VerifyOp.Ans Admission :=
  .ret ((v.earlier <|> v.later).elim .allow .deny)

def validateMachine (v : Verdicts) : MachineRequest → Prog VerifyOp.Ans Admission
  | .create m => validateMachineCreate cosign v m
  | .update _ => validateMachineResize v
  | .delete _ => .ret .allow

/-- A request, with what the verifier and the other checks say at that time. -/
structure Submission where
  request : MachineRequest
  verifier : String → String → GoErr
  verdicts : Verdicts

structure ImageWorld where
  machines : Table AgentMachine.key
  accepted : List (String × String)

/-- The API server stores what was admitted. A Machine is created under a free name. -/
def store (machines : Table AgentMachine.key) : MachineRequest → Table AgentMachine.key
  | .create m => machines.add m
  | .update new => machines.replace new
  | .delete k => machines.erase k

def VerifyOp.answer (verifier : String → String → GoErr) : (e : VerifyOp) → e.Ans
  | .verify ref digest => verifier ref digest

def VerifyOp.accepted : Event VerifyOp.Ans → Option (String × String)
  | ⟨.verify ref digest, .ok ()⟩ => some (ref, digest)
  | ⟨.verify _ _, .error _⟩ => none

def ImageWorld.serve (w : ImageWorld) (s : Submission) : ImageWorld :=
  let (decision, calls) :=
    (validateMachine cosign s.verdicts s.request).answered (VerifyOp.answer s.verifier) []
  { machines := if decision = .allow then store w.machines s.request else w.machines
    accepted := calls.filterMap VerifyOp.accepted ++ w.accepted }

def ImageWorld.serveAll (w : ImageWorld) (ss : List Submission) : ImageWorld :=
  ss.foldl (ImageWorld.serve cosign) w

end Kairon.Images
