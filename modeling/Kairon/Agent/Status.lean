import Kairon.Infra.GoText
import Kairon.Model.MachineStatus

/-!
# Statuses computed from old ones

`normalizePhase`, and the statuses that `ensureStopped`, `ensureHalted` and `Fence` compute from the
one they read.
-/

namespace Kairon.Agent

open Infra GoText Model

def normalizePhase (status : String) : String :=
  match toLower status with
  | "running" | "started" | "ready" => "Running"
  | "paused" => "Paused"
  | "stopped" | "exited" => "Stopped"
  | "creating" | "starting" | "pending" => "Starting"
  | "" => "Running"
  | _ => "Unknown"

def readyStatus (phase : String) : String :=
  if phase = "Running" then "True" else "False"

def readyCondition (status reason message : String) : Condition :=
  ⟨"Ready", status, reason, message, ⟨0⟩⟩

def stoppedStatus (nodeName : String) (now : Time) (old : MachineStatus) : MachineStatus :=
  { old with
    phase := "Stopped"
    nodeName := nodeName
    runtimeID := ""
    guestIP := ""
    network := none
    message := ""
    appliedServiceFabricMemberships := []
    conditions := setCondition old.conditions now (readyCondition "False" "PoweredOff" "") }

def haltedStatus (nodeName runtimeID : String) (now : Time) (old : MachineStatus) : MachineStatus :=
  { old with
    phase := "Halted"
    nodeName := nodeName
    runtimeID := runtimeID
    guestIP := ""
    network := none
    message := ""
    appliedServiceFabricMemberships := []
    conditions := setCondition old.conditions now (readyCondition "False" "Halted" "") }

def statusToPatch (generation : Int) (old new : MachineStatus) : Option MachineStatus :=
  let new := { new with observedGeneration := generation }
  if old.equalIgnoringVolatile new then none else some new

end Kairon.Agent

namespace Kairon.Fencing

open Infra Model

def conditionFenced : String := "Fenced"

/-- The status `Fence` writes: no node, no runtime, and why. -/
def fencedStatus (condReason message : String) (now : Time) (old : MachineStatus) : MachineStatus :=
  { old with
    phase := ""
    nodeName := ""
    runtimeID := ""
    guestIP := ""
    guestIPs := []
    network := none
    appliedVCPUs := 0
    appliedMemoryMiB := 0
    conditions :=
      setCondition old.conditions now ⟨conditionFenced, "True", condReason, message, ⟨0⟩⟩ }

end Kairon.Fencing
