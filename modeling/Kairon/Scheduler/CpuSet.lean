import Mathlib.Data.List.Basic
import Kairon.Model.Machine

/-!
# Exclusive CPUs

`ParseCPUList` of `internal/model/cpupinning.go`, and the allocator of
`internal/scheduler/scheduler.go` that picks the host CPUs of a pinned Machine.
-/

namespace Kairon.Scheduler

open Infra.GoText Model List

def pinnableCPUsLabel : String := "kairon.zyvor.dev/pinnable-cpus"

/-! ## CPU lists -/

def fieldsFunc (sep : Char → Bool) : List Char → List (List Char)
  | [] => []
  | c :: cs =>
    if sep c then fieldsFunc sep cs
    else
      match cs, fieldsFunc sep cs with
      | d :: _, field :: fields => if sep d then [c] :: field :: fields else (c :: field) :: fields
      | _, fields => [c] :: fields

def parseError (s : List Char) (what : String) : String :=
  "strconv.ParseUint: parsing " ++ quote (String.ofList s) ++ ": " ++ what

def parseDigits (s : List Char) (n : Nat) : List Char → Except String Nat
  | [] => .ok n
  | c :: cs =>
    if !c.isDigit then .error (parseError s "invalid syntax")
    else if n * 10 + (c.toNat - 48) ≥ 2 ^ 32 then .error (parseError s "value out of range")
    else parseDigits s (n * 10 + (c.toNat - 48)) cs

def parseUint32 (s : List Char) : Except String Nat :=
  if s = [] then .error (parseError s "invalid syntax") else parseDigits s 0 s

def cutDash (s : List Char) : Option (List Char × List Char) :=
  if s.contains '-' then
    some (s.takeWhile (· ≠ '-'), (s.dropWhile (· ≠ '-')).drop 1)
  else none

def parseEntry (part : List Char) : Except String (List Nat) :=
  let quoted := quote (String.ofList part)
  match cutDash part with
  | some (lo, hi) => do
    let start ← (parseUint32 lo).mapError fun e => "invalid CPU range " ++ quoted ++ ": " ++ e
    let stop ← (parseUint32 hi).mapError fun e => "invalid CPU range " ++ quoted ++ ": " ++ e
    if stop < start then throw ("invalid CPU range " ++ quoted ++ ": end before start")
    return List.range' start (stop + 1 - start)
  | none => do
    let v ← (parseUint32 part).mapError fun e => "invalid CPU number " ++ quoted ++ ": " ++ e
    return [v]

def insertAsc (v : Nat) : List Nat → List Nat
  | [] => [v]
  | u :: us => if v < u then v :: u :: us else if v = u then u :: us else u :: insertAsc v us

def parseEntries (seen : List Nat) : List (List Char) → Except String (List Nat)
  | [] => .ok seen
  | part :: parts =>
    let part := (trimSpace (String.ofList part)).toList
    if part = [] then parseEntries seen parts
    else
      match parseEntry part with
      | .error e => .error e
      | .ok vs => parseEntries (vs.foldl (fun seen v => insertAsc v seen) seen) parts

def parseCPUList (raw : String) : Except String (List UInt32) :=
  let raw := (trimSpace raw).toList
  (parseEntries [] (fieldsFunc (fun c => c == ',' || c == '_') raw)).map fun vs =>
    vs.map UInt32.ofNat

/-! ## Allocation -/

def usedCPUs (node : String) (machines : List Machine) : List UInt32 :=
  (machines.filter fun m => m.spec.nodeName = node ∧ ¬m.metadata.deleting).flatMap fun m =>
    m.spec.resources.allocatedCpuSet

def freePinnableCPUs (n : Node) (machines : List Machine) : List UInt32 :=
  match parseCPUList (n.labels.get pinnableCPUsLabel) with
  | .error _ => []
  | .ok pinnable => pinnable.filter fun cpu => cpu ∉ usedCPUs n.name machines

def allocateCPUSet (parseVCPUs : String → Except String UInt32) (m : Machine) (node : Node)
    (machines : List Machine) : Except String (List UInt32) :=
  match parseVCPUs m.spec.resources.cpu with
  | .error e => .error ("spec.resources.cpu: " ++ e)
  | .ok requested =>
    let free := freePinnableCPUs node machines
    if UInt32.ofNat free.length < requested then
      .error ("node " ++ quote node.name ++ " has only " ++ toString free.length ++
        " free pinnable CPU(s), " ++ m.metadata.name ++ " requests " ++ toString requested)
    else .ok (free.take requested.toNat)

theorem mem_freePinnableCPUs {n : Node} {machines : List Machine} {cpu : UInt32}
    (h : cpu ∈ freePinnableCPUs n machines) : cpu ∉ usedCPUs n.name machines := by
  unfold freePinnableCPUs at h
  split at h
  · cases h
  · simpa using (mem_filter.mp h).2

theorem allocateCPUSet_disjoint {parseVCPUs : String → Except String UInt32} {m other : Machine}
    {node : Node} {machines : List Machine} {cpus : List UInt32}
    (h : allocateCPUSet parseVCPUs m node machines = .ok cpus) (hother : other ∈ machines)
    (hnode : other.spec.nodeName = node.name) (hlive : other.metadata.deleting = false) :
    cpus.Disjoint other.spec.resources.allocatedCpuSet := by
  intro cpu hcpu hused
  unfold allocateCPUSet at h
  split at h
  · cases h
  · simp only at h
    split at h
    · cases h
    · cases h
      have hfree : cpu ∈ freePinnableCPUs node machines := mem_of_mem_take hcpu
      have hshown : cpu ∈ usedCPUs node.name machines := mem_flatMap.mpr
        ⟨other, mem_filter.mpr ⟨hother, by simp [hnode, hlive]⟩, hused⟩
      exact mem_freePinnableCPUs hfree hshown

theorem allocateCPUSet_unlabelled {parseVCPUs : String → Except String UInt32} {m : Machine}
    {name : String} {machines : List Machine} {cpus : List UInt32}
    (h : allocateCPUSet parseVCPUs m ⟨name, [], []⟩ machines = .ok cpus) : cpus = [] := by
  unfold allocateCPUSet at h
  split at h
  · cases h
  · simp only at h
    split at h
    · cases h
    · cases h
      exact take_nil

end Kairon.Scheduler
