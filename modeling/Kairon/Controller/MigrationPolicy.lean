import Kairon.Cluster.World
import Kairon.Controller.Reconcile
import Kairon.Infra.Session
import Kairon.Model.Network

/-!
# Migration policies

`internal/controller/migrationpolicy.go`, and the migration loop of a tick. A policy's active
migrations are counted once; every admission spends one slot of each policy that selects the
Machine, and gives none back.
-/

namespace Kairon.Controller

open Infra Model Cluster

structure MigrationPolicySpec where
  selector : StringMap
  maxConcurrent : Int

structure MigrationPolicy where
  «namespace» : String
  name : String
  spec : MigrationPolicySpec

namespace MigrationPolicy

def selects (p : MigrationPolicy) (m : Machine) : Bool :=
  m.key.namespace = p.namespace && labelsMatch m.metadata.labels p.spec.selector

/-- An active migration of a Machine that the policy selects, the Machine as `machineAt` has it. -/
def covers (p : MigrationPolicy) (machineAt : ObjectKey → Option Machine) (g : MachineMigration) :
    Bool :=
  g.key.namespace = p.namespace && g.status.phase.isActive &&
    (machineAt g.machineKey).any fun m => labelsMatch m.metadata.labels p.spec.selector

end MigrationPolicy

structure MigrationPolicyState where
  policy : MigrationPolicy
  active : Nat

def loadMigrationPolicyStates (policies : List MigrationPolicy) (machines : List Machine)
    (migrations : List MachineMigration) : List MigrationPolicyState :=
  policies.map fun p => ⟨p, migrations.countP (p.covers (indexMachines machines))⟩

def admitMigrationPolicy (states : List MigrationPolicyState) (machine : Machine) :
    Except String (List MigrationPolicyState) :=
  let reached := fun (st : MigrationPolicyState) => st.policy.selects machine &&
    (0 < st.policy.spec.maxConcurrent && st.policy.spec.maxConcurrent ≤ st.active)
  match states.find? reached with
  | some st =>
    .error ("MigrationPolicy " ++ st.policy.namespace ++ "/" ++ st.policy.name ++
      ": maxConcurrent reached")
  | none =>
    .ok (states.map fun st =>
      if st.policy.selects machine then { st with active := st.active + 1 } else st)

structure MigrationBoard where
  store : Store
  policies : List MigrationPolicyState

def policyOutcomes (s : MigrationBoard) (m : Machine) (a : String) : List MigrationBoard :=
  match admitMigrationPolicy s.policies m with
  | .error blocker => if a = blocker then [s] else []
  | .ok policies => if a = "" then [{ s with policies }] else []

/-- What a call of the loop leads to: the policies are asked, and the scheduler chooses one of the
candidates; everything else is up to the API server, which may have made a write that failed. -/
def boardOutcomes (s : MigrationBoard) (e : ClusterOp) (a : e.Ans) : List MigrationBoard :=
  match e, a with
  | .decision (.admitMigrationPolicy m), a => policyOutcomes s m a
  | .decision (.choose _ candidates), .ok target =>
    if candidates.any fun n => n.name = target then [s] else []
  | e, a => (outcomes s.store e a).map fun store => { s with store }

end Kairon.Controller
