import Kairon.Infra.GoText
import Kairon.Model.MachineStatus

/-!
# Machines

`model.Machine` with the part of its metadata and spec that the reconcile loops read, and the
merge patches they write.
-/

namespace Kairon.Model

open Infra GoJson List

structure ObjectKey where
  «namespace» : String
  name : String
  deriving DecidableEq

def defaultNamespace : String := "default"

namespace ObjectKey

def effectiveNamespace (k : ObjectKey) : String :=
  if k.namespace = "" then defaultNamespace else k.namespace

def runtimeName (k : ObjectKey) : String :=
  "kairon-" ++ k.effectiveNamespace ++ "-" ++ k.name

end ObjectKey

structure RuntimeRecord where
  idValue : String
  uuid : String
  name : String
  status : String
  guestIP : String
  disk : String
  mac : String
  vcpus : UInt32
  memoryMiB : UInt64

def RuntimeRecord.id (r : RuntimeRecord) : String :=
  if r.idValue ≠ "" then r.idValue else r.uuid

abbrev StringMap := List (String × String)

namespace StringMap

def get (m : StringMap) (key : String) : String :=
  (m.lookup key).getD ""

def patchKey (m : StringMap) (key : String) : Option String → StringMap
  | some value => (key, value) :: m.filter fun e => e.1 ≠ key
  | none => m.filter fun e => e.1 ≠ key

def patchAll (m : StringMap) (members : List (String × Option String)) : StringMap :=
  members.foldl (fun m e => patchKey m e.1 e.2) m

theorem lookup_patchKey (m : StringMap) (key key' : String) (v : Option String) :
    (m.patchKey key v).lookup key' = if key' = key then v else m.lookup key' := by
  have hfilter : (m.filter fun e => e.1 ≠ key).lookup key' =
      if key' = key then none else m.lookup key' := by
    induction m with
    | nil => simp
    | cons e m ih =>
      obtain ⟨k, x⟩ := e
      by_cases hk : k = key
      · subst hk
        simp only [ne_eq, not_true_eq_false, decide_false, Bool.false_eq_true, not_false_eq_true,
          filter_cons_of_neg]
        rw [ih]
        by_cases hk' : key' = k
        · simp [hk']
        · simp [hk', lookup_cons, beq_eq_false_iff_ne.mpr hk']
      · rw [filter_cons_of_pos (by simpa using hk), lookup_cons, lookup_cons, ih]
        by_cases hk' : key' = k
        · simp [hk', hk]
        · simp [beq_eq_false_iff_ne.mpr hk']
  cases v with
  | none => exact hfilter
  | some x =>
    rw [patchKey, lookup_cons, hfilter]
    by_cases hk' : key' = key
    · simp [hk']
    · simp [hk', beq_eq_false_iff_ne.mpr hk']

theorem mem_or_lookup_of_patchAll {m : StringMap} {members : List (String × Option String)}
    {key v : String} (h : (m.patchAll members).lookup key = some v) :
    (key, some v) ∈ members ∨ m.lookup key = some v := by
  induction members generalizing m with
  | nil => exact .inr h
  | cons e members ih =>
    rcases ih h with hmem | hold
    · exact .inl (mem_cons_of_mem _ hmem)
    · rw [lookup_patchKey] at hold
      split at hold
      · next hk =>
        refine .inl (mem_cons.mpr (.inl ?_))
        rw [hk, ← hold]
      · exact .inr hold

theorem mem_or_get_of_patchAll {m : StringMap} {members : List (String × Option String)}
    {key : String} (h : (m.patchAll members).get key ≠ "") :
    (key, some ((m.patchAll members).get key)) ∈ members ∨
      (m.patchAll members).get key = m.get key := by
  unfold get at h ⊢
  cases hv : (m.patchAll members).lookup key with
  | none =>
    rw [hv] at h
    exact absurd rfl h
  | some v =>
    rcases mem_or_lookup_of_patchAll hv with hmem | hold
    · exact .inl hmem
    · exact .inr (by rw [hold])

end StringMap

/-- `ObjectMeta`; only whether the deletion timestamp is set matters. -/
structure ObjectMeta where
  name : String
  «namespace» : String
  uid : String
  generation : Int
  labels : StringMap
  annotations : StringMap
  finalizers : List String
  deleting : Bool
  deriving DecidableEq

namespace ObjectMeta

/-- The object's identity, with the default namespace filled in. -/
def key (m : ObjectMeta) : ObjectKey :=
  ⟨ObjectKey.effectiveNamespace ⟨m.namespace, m.name⟩, m.name⟩

def annotationTrue (m : ObjectMeta) (key : String) : Bool :=
  m.annotations.get key == "true"

end ObjectMeta

def runtimeFinalizer : String := "kairon.zyvor.dev/runtime-cleanup"

def removeFinalizer (finalizers : List String) (name : String) : List String :=
  finalizers.filter fun f => f ≠ name

def assignedNodeLabel : String := "kairon.zyvor.dev/assigned-node"

def migrationSourceNodeLabel : String := "kairon.zyvor.dev/migration-source-node"

def annotationAdoptOnly : String := "kairon.zyvor.dev/adopt-only"

def annotationMigrationRef : String := "kairon.zyvor.dev/migration"

def annotationForkFrom : String := "kairon.zyvor.dev/fork-from"

structure ResourceSpec where
  cpu : String
  memory : String
  maxCPU : String
  maxMemory : String
  cpuPinning : Bool
  allocatedCpuSet : List UInt32
  hugepages : Bool
  deriving DecidableEq

/-- A merge patch with the encoding of `new`: the quantities are always written, the other
fields are tagged `omitempty`. -/
def ResourceSpec.patch (old new : ResourceSpec) : ResourceSpec where
  cpu := new.cpu
  memory := new.memory
  maxCPU := patchOmit old.maxCPU new.maxCPU
  maxMemory := patchOmit old.maxMemory new.maxMemory
  cpuPinning := patchOmit old.cpuPinning new.cpuPinning
  allocatedCpuSet := patchOmit old.allocatedCpuSet new.allocatedCpuSet
  hugepages := patchOmit old.hugepages new.hugepages

/-- `MachineSpec`. Of a sandbox only the template name is kept, of volumes, disks and device
claims only the names. -/
structure MachineSpec where
  nodeName : String
  powerState : String
  instanceTypeName : String
  resources : ResourceSpec
  backend : String
  sandbox : Option String
  volumes : List String
  disks : List String
  deviceClaims : List String
  priority : Int
  tenant : String
  deriving DecidableEq

structure Machine where
  metadata : ObjectMeta
  spec : MachineSpec
  status : MachineStatus
  deriving DecidableEq

variable (m : Machine)

namespace Machine

def key : ObjectKey := m.metadata.key

def desiredPowerState : String := if m.spec.powerState = "" then "Running" else m.spec.powerState

def hasFinalizer : Bool := m.metadata.finalizers.contains runtimeFinalizer

end Machine

structure MachinePatch where
  finalizers : Option (List String) := none
  labels : List (String × Option String) := []
  annotations : List (String × Option String) := []
  nodeName : Option String := none
  powerState : Option String := none
  allocatedCpuSet : Option (List UInt32) := none
  resources : Option ResourceSpec := none

variable (p : MachinePatch) (s : MachineStatus)

def Machine.patch : Machine :=
  let resources := (p.resources.map m.spec.resources.patch).getD m.spec.resources
  { m with
    metadata := { m.metadata with
      finalizers := p.finalizers.getD m.metadata.finalizers
      labels := m.metadata.labels.patchAll p.labels
      annotations := m.metadata.annotations.patchAll p.annotations }
    spec := { m.spec with
      nodeName := p.nodeName.getD m.spec.nodeName
      powerState := p.powerState.getD m.spec.powerState
      resources := { resources with
        allocatedCpuSet := p.allocatedCpuSet.getD resources.allocatedCpuSet } } }

@[simp] theorem Machine.key_patch : (m.patch p).key = m.key := rfl

def Machine.patchStatus : Machine := { m with status := Infra.GoJson.patch m.status s }

@[simp] theorem Machine.key_patchStatus : (m.patchStatus s).key = m.key := rfl

@[simp] theorem Machine.nodeName_patch : (m.patch p).spec.nodeName = p.nodeName.getD m.spec.nodeName
    := rfl

structure Node where
  name : String
  labels : StringMap
  allocatable : StringMap
  deriving DecidableEq

/-!
## Resource quantities

`ParseVCPUs` and `ParseMemoryMiB` of `internal/model/quantity.go`, over the floating-point numbers
of the Go runtime.
-/

open Infra.GoText

/-- The floating-point numbers, as far as the parsers use them: `parseFloat` is
`strconv.ParseFloat`, `nonpos` is the test `v <= 0`, the rest are the conversions of the rounded-up
quotients. -/
structure GoFloat where
  Value : Type
  parseFloat : String → Option Value
  nonpos : Value → Bool
  /-- `uint32(math.Ceil(v / d))`. -/
  ceilCores : (d : Nat) → Value → UInt32
  /-- `uint64(math.Ceil(v * unit / (1024 * 1024)))`. -/
  ceilMiB : (unit : Nat) → Value → UInt64

variable (F : GoFloat)

def parsePositive (text : String) : Option F.Value :=
  (F.parseFloat text).filter fun v => !F.nonpos v

def parseVCPUs (v : String) : Except String UInt32 :=
  let v := trimSpace v
  if v = "" then .error "cpu quantity is empty"
  else
    let (digits, d) := match cutSuffix v "m" with
      | some digits => (digits, 1000)
      | none => (v, 1)
    match parsePositive F digits with
    | some n => .ok (F.ceilCores d n)
    | none => .error ("invalid cpu quantity " ++ quote v)

def memoryUnits : List (String × Nat) :=
  [("Ti", 1024 * 1024 * 1024 * 1024), ("Gi", 1024 * 1024 * 1024), ("Mi", 1024 * 1024),
    ("Ki", 1024), ("T", 1000 * 1000 * 1000 * 1000), ("G", 1000 * 1000 * 1000),
    ("M", 1000 * 1000), ("K", 1000)]

def parseMemoryMiB (v : String) : Except String UInt64 :=
  let v := trimSpace v
  if v = "" then .error "memory quantity is empty"
  else
    let (digits, unit) := (memoryUnits.findSome? fun u =>
      (cutSuffix v u.1).map fun digits => (trimSpace digits, u.2)).getD (v, 1)
    match parsePositive F digits with
    | some n => .ok (F.ceilMiB unit n)
    | none => .error ("invalid memory quantity " ++ quote v)

theorem parseVCPUs_empty : (parseVCPUs F "").toOption = none := rfl

theorem parseMemoryMiB_empty : (parseMemoryMiB F "").toOption = none := rfl

def wholeNumbers : GoFloat where
  Value := Nat
  parseFloat text :=
    if text.toList.all Char.isDigit then
      some (text.toList.foldl (fun n c => 10 * n + (c.toNat - '0'.toNat)) 0)
    else none
  nonpos n := n == 0
  ceilCores d n := UInt32.ofNat ((n + d - 1) / d)
  ceilMiB unit n := UInt64.ofNat ((n * unit + 1024 * 1024 - 1) / (1024 * 1024))

end Kairon.Model
