import Kairon.Cluster.Op
import Kairon.Infra.Conf
import Kairon.Infra.Table

/-!
# Attestation rounds

`reconcileAttestation` of `internal/controller/attestation.go`: a Machine gets a nonce, its report
is verified against its UID and the nonce, and then it is marked as verified. The webhook keeps
others from writing the mark and the nonce.
-/

namespace Kairon.Attestation

open Infra GoText Model Cluster

def annConfidential : String := "kairon.zyvor.dev/confidential"

def annAttestationVerified : String := "kairon.zyvor.dev/attestation-verified"

def annAttestationNonce : String := "kairon.zyvor.dev/attestation-nonce"

def annAttestationReport : String := "kairon.zyvor.dev/attestation-report"

def annAttestationError : String := "kairon.zyvor.dev/attestation-error"

def labelConfidentialCapable : String := "kairon.zyvor.dev/confidential-capable"

def kindSNP : String := "sev-snp"

def kindTDX : String := "tdx"

/-- What the pass takes from elsewhere: SHA-512, and base64 as bytes. -/
structure Primitives where
  sum512 : String → String
  decodeBase64 : String → Option (List UInt8)

/-! ## Admission -/

def guardedAttestationKeys : List String := [annAttestationVerified, annAttestationNonce]

variable (P : Primitives) (writers : List String) (nodes : List Node)

def attestationWriter (username : String) : Bool :=
  if writers = [] then
    "system:serviceaccount:".toList <+: username.toList ∧
      ":kairon-controller".toList <:+ username.toList
  else writers.contains username

def checkAttestationWrite (username : String) (oldAnn newAnn : StringMap) : GoErr :=
  if attestationWriter writers username then .ok ()
  else
    match guardedAttestationKeys.find? fun k =>
        oldAnn.get k ≠ newAnn.get k ∧ newAnn.get k ≠ "" with
    | some k => .error ("annotation " ++ k ++ " is set by kairon-controller only")
    | none => .ok ()

theorem get_of_checkAttestationWrite {writers : List String} {username : String}
    {oldAnn newAnn : StringMap} (h : checkAttestationWrite writers username oldAnn newAnn = .ok ())
    (hu : attestationWriter writers username = false) {k : String}
    (hk : k ∈ guardedAttestationKeys) : newAnn.get k = "" ∨ newAnn.get k = oldAnn.get k := by
  unfold checkAttestationWrite at h
  rw [if_neg (by rw [hu]; decide)] at h
  split at h
  · cases h
  · next hnone =>
    have := List.find?_eq_none.mp hnone k hk
    simp only [decide_eq_true_eq, not_and, not_not] at this
    by_cases he : newAnn.get k = oldAnn.get k
    · exact .inr he
    · exact .inl (this fun h => he h.symm)

/-! ## The pass -/

def Primitives.reportData (uid nonce : String) : String :=
  P.sum512 ("kairon-attestation\x00" ++ uid ++ "\x00" ++ nonce)

abbrev Patch := List (String × Option String)

/-- The calls of a pass. `patchMachine` has the Machine as it was listed; the API server sees its
namespace and its name. -/
inductive AttestOp where
  | listMachines
  | listNodes
  | newNonce
  | verify (kind : String) (raw : List UInt8) (want : String)
  | patchMachine (listed : Machine) (annotations : Patch)

def AttestOp.Ans : AttestOp → Type
  | listMachines => Except ApiError (List Machine)
  | listNodes => Except ApiError (List Node)
  | newNonce => String
  | verify _ _ _ => GoErr
  | patchMachine _ _ => Except ApiError Unit

def call (e : AttestOp) : Prog AttestOp.Ans e.Ans := Prog.perform AttestOp.Ans e

def capable (name : String) : String :=
  (nodes.reverse.find? fun n => n.name = name).elim "" fun n =>
    n.labels.get labelConfidentialCapable

def fail (msg : String) : Prog AttestOp.Ans (Option Patch) :=
  (call .newNonce).bind fun nonce =>
  .ret (some [(annAttestationError, some msg), (annAttestationNonce, some nonce),
    (annAttestationReport, none)])

def attestationStep (m : Machine) (nodeKind : String) : Prog AttestOp.Ans (Option Patch) :=
  let ann := m.metadata.annotations
  let kind := toLower (trimSpace (ann.get annConfidential))
  if m.metadata.deleting = true ∨ (kind ≠ kindSNP ∧ kind ≠ kindTDX) ∨ m.spec.nodeName = "" then
    .ret none
  else
    let verified := ann.get annAttestationVerified
    if nodeKind ≠ kind then
      if verified ≠ "" then
        .ret (some [(annAttestationVerified, none), (annAttestationError,
          some ("node " ++ m.spec.nodeName ++ " is not " ++ kind ++ " capable"))])
      else .ret none
    else if verified = kind then .ret none
    else
      let nonce := ann.get annAttestationNonce
      if nonce = "" then
        (call .newNonce).bind fun nonce =>
        .ret (some [(annAttestationNonce, some nonce), (annAttestationReport, none)])
      else
        let report := ann.get annAttestationReport
        if report = "" then .ret none
        else
          match P.decodeBase64 report with
          | none => fail "report is not base64"
          | some raw =>
            (call (.verify kind raw (P.reportData m.metadata.uid nonce))).bind fun
              | .error e => fail e
              | .ok () =>
                .ret (some [(annAttestationVerified, some kind), (annAttestationNonce, none),
                  (annAttestationReport, none), (annAttestationError, none)])

def attestMachine (m : Machine) : Prog AttestOp.Ans Unit :=
  (attestationStep P m (capable nodes m.spec.nodeName)).bind fun
    | none => .ret ()
    | some patch => (call (.patchMachine m patch)).bind fun _ => .ret ()

def reconcileAttestation (machines : List Machine) (nodes : List Node) : Prog AttestOp.Ans Unit :=
  Prog.forEach (attestMachine P nodes) machines

def attestationTick : Prog AttestOp.Ans Unit :=
  (call .listMachines).bind fun
    | .error _ => .ret ()
    | .ok machines =>
      (call .listNodes).bind fun
        | .error _ => .ret ()
        | .ok nodes => reconcileAttestation P machines nodes

/-! ## The system -/

abbrev Machines := Table Machine.key

/-- A report that was verified: by which pass, as what, after which nonces had been generated, and
what was stored then. -/
structure Acceptance where
  tick : Nat
  kind : String
  raw : List UInt8
  want : String
  issued : List String
  stored : List Machine

/-- The stored Machines and the UIDs given to Machines. What follows is history: the nonces that
the controller generated, and the reports it verified, the newest first. -/
structure World where
  machines : Machines
  uids : List String
  issued : List String := []
  accepted : List Acceptance := []

def annotate (patch : Patch) (m : Machine) : Machine :=
  m.patch { annotations := patch }

def World.patchMachine (w : World) (k : ObjectKey) (patch : Patch) : List World :=
  if (w.machines.find k).isSome then
    [{ w with machines := w.machines.edit k (annotate patch) fun _ => rfl }]
  else []

def outcomes (tick : Nat) (w : World) : (e : AttestOp) → e.Ans → List World
  | .listMachines, .ok l => if l.Perm w.machines.rows then [w] else []
  | .listMachines, .error _ => [w]
  | .listNodes, .ok l => if l = nodes then [w] else []
  | .listNodes, .error _ => [w]
  | .newNonce, nonce => [{ w with issued := nonce :: w.issued }]
  | .verify _ _ _, .error _ => [w]
  | .verify kind raw want, .ok () =>
    [{ w with
      accepted := ⟨tick, kind, raw, want, w.issued, w.machines.rows⟩ :: w.accepted }]
  | .patchMachine listed patch, .ok () => w.patchMachine listed.key patch
  | .patchMachine listed patch, .error _ => w :: w.patchMachine listed.key patch

/-- What others do to the Machines: users who are no attestation writers create and update them as
far as the webhook lets them, they are deleted, and they are assigned to nodes. -/
inductive Upkeep (writers : List String) (w : World) : World → Prop
  | create (m : Machine) (username : String) (free : w.machines.find m.key = none)
      (fresh : m.metadata.uid ∉ w.uids) (user : attestationWriter writers username = false)
      (admitted : checkAttestationWrite writers username [] m.metadata.annotations = .ok ()) :
      Upkeep writers w { w with machines := w.machines.add m, uids := m.metadata.uid :: w.uids }
  | update {old : Machine} (new : Machine) (username : String)
      (stored : w.machines.find new.key = some old)
      (same : new.metadata.uid = old.metadata.uid)
      (user : attestationWriter writers username = false)
      (admitted : checkAttestationWrite writers username old.metadata.annotations
        new.metadata.annotations = .ok ()) :
      Upkeep writers w { w with machines := w.machines.replace new }
  | assign (k : ObjectKey) (node : String) : Upkeep writers w
        { w with
          machines := w.machines.edit k (·.patch { nodeName := some node }) fun _ => rfl }
  | delete (k : ObjectKey) : Upkeep writers w { w with machines := w.machines.erase k }

def attestationHost : Host AttestOp.Ans Unit Nat World where
  outcomes := outcomes nodes
  start _ p := p = attestationTick P
  env := Upkeep writers
  crash := True

end Kairon.Attestation
