import Kairon.Cluster.Op

/-!
# The migration reconcile of the controller

`reconcileMigration` of `internal/controller/controller.go`: admission of new migrations, and the
phases the controller drives. The phases in between belong to the source agent.
-/

namespace Kairon.Controller

open Infra GoText Model Cluster

/-- The configuration of the controller; `parseVCPUs` is `model.ParseVCPUs`. -/
structure Config where
  maxConcurrentPerNode : Int
  maxConcurrentCluster : Int
  parseVCPUs : String → Except String UInt32

structure MigrationLoad where
  byNode : String → Nat
  total : Nat

namespace MigrationLoad

def admitted (l : MigrationLoad) (sourceNode targetNode : String) : MigrationLoad :=
  let count := fun (byNode : String → Nat) (node : String) =>
    Function.update byNode node (byNode node + 1)
  let byNode := if sourceNode = "" then l.byNode else count l.byNode sourceNode
  { total := l.total + 1
    byNode := if targetNode = "" ∨ targetNode = sourceNode then byNode
      else count byNode targetNode }

def new (migrations : List MachineMigration) : MigrationLoad :=
  (migrations.filter fun g => g.status.phase.isActive).foldl
    (fun l g => l.admitted g.status.sourceNode g.status.targetNode) ⟨fun _ => 0, 0⟩

end MigrationLoad

/-- `indexMachines`: a later Machine of the same key replaces an earlier one. -/
def indexMachines (machines : List Machine) (k : ObjectKey) : Option Machine :=
  machines.reverse.find? fun m => m.key = k

def liveBackendEligible (backend : String) : Bool :=
  backend == "" || backend == "auto" || backend == "qemu"

variable (c : Config) (machine : Machine) (item : MachineMigration)

def effectiveStrategy : Except String String :=
  match toLower (trimSpace item.spec.strategy) with
  | "cold" | "" | "auto" => .ok "cold"
  | "live" =>
    if liveBackendEligible machine.spec.backend then .ok "live"
    else .error ("live migration requires qemu backend; Machine requests " ++
      quote machine.spec.backend)
  | _ => .error ("unsupported migration strategy " ++ quote item.spec.strategy)

def nodeByName (nodes : List Node) (name : String) : Option Node :=
  nodes.find? fun n => n.name = name

def migrationTarget (requested strategy : String) (nodes : List Node) :
    M (Except String String) := do
  let candidates := nodes.filter fun n =>
    n.name ≠ machine.spec.nodeName ∧ (requested = "" ∨ n.name = requested)
  if requested ≠ "" ∧ candidates = [] then
    return .error ("target node " ++ quote requested ++
      " does not exist or is the current source node")
  match ← decideBy (.choose machine candidates) with
  | .error e =>
    return .error (if requested ≠ "" then
      "target node " ++ quote requested ++ " is not eligible: " ++ e
    else "no migration target available: " ++ e)
  | .ok target =>
    match nodeByName nodes machine.spec.nodeName, nodeByName nodes target with
    | some source, some node =>
      let (blocker : String) ← decideBy (.preflight machine source node strategy)
      return if blocker = "" then .ok target
        else .error ("migration preflight failed: " ++ blocker)
    | _, _ => return .ok target

def finish (status : MachineMigrationStatus) : M GoErr :=
  orText (Kube.patchMachineMigrationStatus .reconcile item status)

def blockMigration (message : String) : M GoErr :=
  finish item { item.status with phase := .blocked, message := message }

def sourceLabelPatch (node : String) : MigrationPatch where
  labels := [(migrationSourceNodeLabel, if node = "" then none else some node)]

def ensureMigrationSourceLabel (sourceNode : String) : M (Except ApiError Unit) :=
  if item.metadata.labels.get migrationSourceNodeLabel = sourceNode then .ret (.ok ())
  else Kube.patchMachineMigration item (sourceLabelPatch sourceNode)

def beginMigration (machine : Machine) (status : MachineMigrationStatus) (strategy : String) : M
    GoErr :=
  if strategy = "live" then
    (finish item
      { status with
        phase := .starting
        message := "source node agent will securely prepare the target before touching the " ++
          "source runtime" }).andThen fun _ =>
    (ensureMigrationSourceLabel item status.sourceNode).bind fun _ => .ret (.ok ())
  else
    (orText (Kube.patchMachine .reconcile machine.key
      { powerState := some "Stopped" })).andThen fun _ =>
    (finish item
      { status with
        phase := .stopping
        message := "stopping source runtime for controlled cold evacuation" }).andThen fun _ =>
    (ensureMigrationSourceLabel item status.sourceNode).bind fun _ => .ret (.ok ())

def defaultBandwidth (machine : Machine) : M Unit :=
  if item.spec.bandwidthMbps ≠ 0 then .ret ()
  else do
    let (bw : UInt64) ← decideBy (.bandwidthMbpsFromPolicies machine)
    if bw > 0 then
      let _ ← Kube.patchMachineMigration item { bandwidthMbps := some bw }

def admitMigration (machine : Machine) (nodes : List Node) (load : MigrationLoad) :
    M (MigrationLoad × GoErr) :=
  let block := fun message => (blockMigration item message).bind fun r => .ret (load, r)
  let full := fun (n : Nat) (limit : Int) => limit > 0 ∧ (n : Int) ≥ limit
  let count := fun (n : Nat) (limit : Int) =>
    " (" ++ toString n ++ " active, max " ++ toString limit ++ ")"
  let source := machine.spec.nodeName
  if source = "" then block "Machine has not been scheduled yet"
  else if full load.total c.maxConcurrentCluster then
    block ("cluster migration concurrency limit reached" ++ count load.total c.maxConcurrentCluster)
  else if full (load.byNode source) c.maxConcurrentPerNode then
    block ("source node " ++ source ++ " has reached its concurrent migration limit" ++
      count (load.byNode source) c.maxConcurrentPerNode)
  else do
    let (blocker : String) ← decideBy (.admitMigrationPolicy machine)
    if blocker ≠ "" then block blocker
    else
      match effectiveStrategy machine item with
      | .error e => block e
      | .ok strategy =>
        match ← migrationTarget machine item.spec.targetNode strategy nodes with
        | .error e => block e
        | .ok target =>
          if full (load.byNode target) c.maxConcurrentPerNode then
            block ("target node " ++ target ++ " has reached its concurrent migration limit" ++
              count (load.byNode target) c.maxConcurrentPerNode)
          else do
            defaultBandwidth item machine
            let status := { item.status with
              sourceNode := source
              targetNode := target
              effectiveStrategy := strategy
              message := "" }
            let r ← beginMigration item machine status strategy
            return (load.admitted source target, r)

def assignPatch (node : String) : MachinePatch where
  nodeName := some node
  labels := [(assignedNodeLabel, some node)]

def advanceMigration (machine : Machine) : M GoErr :=
  let status := item.status
  let arrived := machine.spec.nodeName = status.targetNode ∧
    machine.status.nodeName = status.targetNode ∧ machine.status.phase = "Running"
  match status.phase with
  | .starting | .running => .ret (.ok ())
  | .cutover =>
    if status.effectiveStrategy ≠ "live" then
      .ret (.error "cutover phase is only valid for live migration")
    else
      (orText (Kube.patchMachine .reconcile machine.key
        { assignPatch status.targetNode with
          annotations := [(annotationAdoptOnly, some "true"),
            (annotationMigrationRef, some item.metadata.name)] })).andThen fun _ =>
      finish item
        { status with
          phase := .adopting
          message := "source migration completed; target is in adopt-only mode" }
  | .adopting =>
    if ¬arrived then .ret (.ok ())
    else
      (orText (Kube.patchMachine .reconcile machine.key
        { annotations := [(annotationAdoptOnly, none),
            (annotationMigrationRef, none)] })).andThen fun _ =>
      finish item
        { status with
          phase := .succeeded
          message := "live migration completed and target runtime adopted" }
  | .stopping =>
    if machine.status.phase ≠ "Stopped" then .ret (.ok ())
    else
      (orText (Kube.patchMachine .reconcile machine.key
        { assignPatch status.targetNode with powerState := some "Running" })).andThen fun _ =>
      finish item
        { status with
          phase := .restarting
          message := "source stopped; Machine reassigned to target" }
  | .restarting =>
    if arrived then
      finish item { status with phase := .succeeded, message := "cold migration completed" }
    else .ret (.ok ())
  | phase => .ret (.error ("unknown migration status phase " ++ quote phase.text))

def reconcileMigration (machines : List Machine) (nodes : List Node) (load : MigrationLoad) : M
    (MigrationLoad × GoErr) :=
  let fail := fun text => .ret (load, .error text)
  match item.status.phase with
  | .succeeded | .failed | .blocked | .needsRecovery | .cancelled => .ret (load, .ok ())
  | phase =>
    if trimSpace item.spec.machineName = "" then fail "spec.machineName is required"
    else
      match indexMachines machines item.machineKey with
      | none =>
        fail ("machine " ++ item.key.namespace ++ "/" ++ item.spec.machineName ++ " not found")
      | some machine =>
        if machine.metadata.deleting then fail "machine is being deleted"
        else if phase.isPending then admitMigration c item machine nodes load
        else (advanceMigration item machine).bind fun r => .ret (load, r)

end Kairon.Controller
