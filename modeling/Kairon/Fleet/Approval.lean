import Kairon.Infra.Conf
import Kairon.Infra.Table
import Kairon.Model.Machine

/-!
# Approvals as resources

`internal/fleet/approval.go`, the part of `internal/fleet/spec.go` and `internal/kube/fleet.go` that
it uses, and what the admission webhook of `internal/controller/fleet.go` lets happen to a
MachineActionApproval. Any number of callers run `ConsumeApproval` against one API server, each at
its own time. How Go reads the JSON of a spec is a parameter.
-/

namespace Kairon.Fleet

open Infra Model

structure ApprovalSpec where
  action : String
  argumentsHash : String
  principal : String
  targetResource : String
  targetName : String
  targetUID : String
  targetGeneration : Int
  approver : String
  expiresAt : Time
  deriving DecidableEq

/-- `FleetStatus`; `rest` stands for the fields that approvals leave alone. -/
structure FleetStatus where
  observedGeneration : Int := 0
  phase : String := ""
  message : String := ""
  lastActionTime : Option Time := none
  rest : String := ""
  deriving DecidableEq

structure FleetResource where
  key : ObjectKey
  uid : String
  generation : Int
  resourceVersion : Nat
  spec : String
  status : FleetStatus
  deriving DecidableEq

def FleetStatus.merge (s p : FleetStatus) : FleetStatus :=
  { observedGeneration := p.observedGeneration
    phase := p.phase
    message := p.message
    lastActionTime := p.lastActionTime.or s.lastActionTime
    rest := s.rest }

structure SpecJson where
  /-- `decode[ApprovalSpec]`, which refuses unknown fields. -/
  decode : String → Except String ApprovalSpec
  /-- `json.Unmarshal` into an ApprovalSpec, errors ignored. -/
  unmarshal : String → ApprovalSpec
  /-- `reflect.DeepEqual` of the two texts, each read into a `map[string]any`. -/
  sameMembers : String → String → Bool

def maxTTL : Int := 600000000000

def isLabelChar (c : Char) : Bool :=
  ('a' ≤ c ∧ c ≤ 'z') ∨ ('0' ≤ c ∧ c ≤ '9')

def validName (s : String) : Bool :=
  0 < s.utf8ByteSize && s.utf8ByteSize ≤ 63 && s.toList.head?.any isLabelChar &&
    s.toList.all (fun c => isLabelChar c || c == '-') && s.toList.getLast?.any isLabelChar

variable (J : SpecJson)

def validate (o : FleetResource) : GoErr :=
  if !validName o.key.name || !validName o.key.namespace then
    .error "name and namespace must be DNS labels, at most 63 characters"
  else
    match J.decode o.spec with
    | .error e => .error e
    | .ok s =>
      if s.action = "" ∨ s.argumentsHash.utf8ByteSize ≠ 64 ∨ s.principal = "" ∨
          validName s.targetName = false ∨ s.targetUID = "" ∨ s.approver = "" ∨
          s.expiresAt.instant = 0 then
        .error "approval must bind action, hash, principal, target identity, approver and expiry"
      else if s.targetResource ≠ "machines" ∧ s.targetResource ≠ "machinebackups" then
        .error "unsupported approval target"
      else .ok ()

/-! ## Spending an approval -/

inductive ApprovalOp where
  | getFleet (ns name : String)
  /-- `PatchFleetStatus`: a merge patch that names the version of `o`. -/
  | patchFleetStatus (o : FleetResource) (status : FleetStatus)

def ApprovalOp.Ans : ApprovalOp → Type
  | .getFleet _ _ => Except String FleetResource
  | .patchFleetStatus _ _ => GoErr

def approvalName (hexSum : String → String) (spec : ApprovalSpec) : String :=
  let hash := hexSum
    (spec.argumentsHash ++ "/" ++ spec.targetUID ++ "/" ++ toString spec.targetGeneration)
  "approval-" ++ String.ofList (hash.toList.take 32)

def consumedStatus (o : FleetResource) (expected : ApprovalSpec) (now : Time) : FleetStatus :=
  { phase := "Consumed"
    message := "consumed by " ++ expected.principal
    lastActionTime := some now
    observedGeneration := o.generation }

def consumeApproval (hexSum : String → String) (ns : String) (expected : ApprovalSpec)
    (now : Time) : Prog ApprovalOp.Ans (Except String String) :=
  .call (.getFleet ns (approvalName hexSum expected)) fun
  | .error e => .ret (.error e)
  | .ok o =>
    match validate J o with
    | .error e => .ret (.error e)
    | .ok () =>
      match J.decode o.spec with
      | .error e => .ret (.error e)
      | .ok actual =>
        if actual.action ≠ expected.action ∨ actual.argumentsHash ≠ expected.argumentsHash ∨
            actual.principal ≠ expected.principal ∨
            actual.targetResource ≠ expected.targetResource ∨
            actual.targetName ≠ expected.targetName ∨ actual.targetUID ≠ expected.targetUID ∨
            actual.targetGeneration ≠ expected.targetGeneration then
          .ret (.error "approval no longer matches the action or target")
        else if actual.approver = actual.principal then
          .ret (.error "an agent cannot approve its own action")
        else if ¬now.instant < actual.expiresAt.instant ∨
            actual.expiresAt.instant > now.instant + maxTTL then
          .ret (.error "approval expired or exceeds maximum TTL")
        else if o.status.phase ≠ "" then
          .ret (.error "approval has already been consumed")
        else
          .call (.patchFleetStatus o (consumedStatus o expected now)) fun
          | .error e => .ret (.error e)
          | .ok () => .ret (.ok actual.approver)

/-! ## Admission -/

/-- `validateFleet` for a MachineActionApproval: the creation of `obj`, or its update from `old`,
by `username` at `now`. -/
def validateFleet (username : String) (now : Time) (old : Option FleetResource)
    (obj : FleetResource) : GoErr :=
  match validate J obj with
  | .error e => .error e
  | .ok () =>
    let spec := J.unmarshal obj.spec
    match old with
    | none =>
      if spec.approver ≠ username ∨ spec.approver = spec.principal then
        .error "approver must match authenticated Kubernetes identity and differ from the agent"
      else if ¬now.instant < spec.expiresAt.instant ∨
          spec.expiresAt.instant > now.instant + maxTTL then
        .error "approval expiry must be within ten minutes"
      else if obj.status.phase ≠ "" then .error "new approval cannot contain status"
      else .ok ()
    | some old =>
      if J.sameMembers old.spec obj.spec = false then
        .error "this fleet spec is immutable; create a new named resource"
      else if old.status ≠ obj.status ∧ (old.status.phase ≠ "" ∨ obj.status.phase ≠ "Consumed" ∨
          username ≠ spec.principal ∨ obj.status.lastActionTime = none ∨
          ¬now.instant < spec.expiresAt.instant) then
        .error ("approval status can only transition once to Consumed by its bound principal " ++
          "before expiry")
      else .ok ()

variable {J}

theorem phase_eq_of_validateFleet {username : String} {now : Time} {old obj : FleetResource}
    (h : validateFleet J username now (some old) obj = .ok ()) (hphase : obj.status.phase = "") :
    old.status.phase = "" := by
  unfold validateFleet at h
  split at h
  · cases h
  · dsimp only at h
    split at h
    · cases h
    · split at h
      · cases h
      · next hstatus =>
        by_cases hsame : old.status = obj.status
        · rw [hsame, hphase]
        · exact absurd ⟨hsame, .inr (.inl (by rw [hphase]; decide))⟩ hstatus

def fleetIdentity : Identity ObjectKey String FleetResource where
  key := FleetResource.key
  uid := FleetResource.uid
  version := FleetResource.resourceVersion
  stamp n o := { o with resourceVersion := n }
  key_stamp _ _ := rfl
  uid_stamp _ _ := rfl
  version_stamp _ _ := rfl

abbrev Store := Registry fleetIdentity

def Store.patchStatus (w : Store) (k : ObjectKey) (status : FleetStatus) : Store :=
  w.update k (fun o => { o with status := o.status.merge status }) fun _ => ⟨rfl, rfl⟩

def Store.patchIfCurrent (w : Store) (o : FleetResource) (status : FleetStatus) : List Store :=
  match w.table.find o.key with
  | some x => if x.resourceVersion = o.resourceVersion then [w.patchStatus o.key status] else []
  | none => []

def outcomes (w : Store) : (e : ApprovalOp) → e.Ans → List Store
  | .getFleet ns name, .ok o => if w.table.find ⟨ns, name⟩ = some o then [w] else []
  | .getFleet _ _, .error _ => [w]
  | .patchFleetStatus o status, .ok () => w.patchIfCurrent o status
  | .patchFleetStatus o status, .error _ => w :: w.patchIfCurrent o status

inductive Upkeep (J : SpecJson) : Store → Store → Prop
  | create {w : Store} {o : FleetResource} {username : String} {now : Time}
      (free : w.table.find o.key = none) (fresh : o.uid ∉ w.uids)
      (admitted : validateFleet J username now none o = .ok ()) : Upkeep J w (w.create o free fresh)
  | update {w : Store} {o : FleetResource} {username : String} {now : Time}
      {f : FleetResource → FleetResource} (found : o ∈ w.table.rows)
      (same : ∀ o, (f o).key = o.key ∧ (f o).uid = o.uid)
      (admitted : validateFleet J username now (some o) (f o) = .ok ()) :
      Upkeep J w (w.update o.key f same)
  | delete {w : Store} {k : ObjectKey} : Upkeep J w (w.erase k)

structure Caller where
  id : Nat
  ns : String
  expected : ApprovalSpec
  now : Time
  deriving DecidableEq

abbrev History := List (Event ApprovalOp.Ans)

abbrev Result := Except String String × History

def approvalHost (J : SpecJson) (hexSum : String → String) :
    Host ApprovalOp.Ans Result Caller Store where
  outcomes _ := outcomes
  start t p := p = (consumeApproval J hexSum t.ns t.expected t.now).record []
  env := Upkeep J
  crash := True

variable {w w' : Store} {o : FleetResource} {status : FleetStatus}

theorem mem_patchIfCurrent (h : w' ∈ w.patchIfCurrent o status) :
    ∃ x ∈ w.table.rows, x.key = o.key ∧ x.resourceVersion = o.resourceVersion ∧
      w' = w.patchStatus o.key status := by
  unfold Store.patchIfCurrent at h
  split at h
  · next x hx =>
    obtain ⟨hmem, hkey⟩ := Table.find_eq_some_iff.mp hx
    split at h
    · next hv => exact ⟨x, hmem, hkey, hv, List.mem_singleton.mp h⟩
    · cases h
  · cases h

theorem outcomes_cases {e : ApprovalOp} {a : e.Ans} (h : w' ∈ outcomes w e a) :
    w' = w ∨ ∃ o status, e = .patchFleetStatus o status ∧ w' ∈ w.patchIfCurrent o status := by
  match e, a, h with
  | .getFleet ns name, .ok o, h =>
    obtain ⟨_, h⟩ := List.mem_ite_nil_right.mp h
    exact .inl (List.mem_singleton.mp h)
  | .getFleet ns name, .error e, h => exact .inl (List.mem_singleton.mp h)
  | .patchFleetStatus o status, .ok (), h => exact .inr ⟨o, status, rfl, h⟩
  | .patchFleetStatus o status, .error e, h =>
    rcases List.mem_cons.mp h with h | h
    · exact .inl h
    · exact .inr ⟨o, status, rfl, h⟩

theorem copy_of_outcomes {e : ApprovalOp} {a : e.Ans} (h : w' ∈ outcomes w e a)
    (ho : w.Copy o) : w'.Copy o := by
  rcases outcomes_cases h with rfl | ⟨o', status, -, h⟩
  · exact ho
  · obtain ⟨x, -, -, -, rfl⟩ := mem_patchIfCurrent h
    exact ho.update _ _ _

theorem copy_of_upkeep (h : Upkeep J w w') (ho : w.Copy o) : w'.Copy o := by
  cases h with
  | create free fresh => exact ho.create free fresh
  | update found same => exact ho.update _ _ same
  | delete => exact ho.erase _

theorem mem_rows_of_patched (h : w' ∈ w.patchIfCurrent o status) (ho : w.Copy o) :
    o ∈ w.table.rows ∧ w' = w.patchStatus o.key status := by
  obtain ⟨x, hmem, -, hversion, hw⟩ := mem_patchIfCurrent h
  exact ⟨ho.eq_of_version_eq x hmem hversion ▸ hmem, hw⟩

end Kairon.Fleet
