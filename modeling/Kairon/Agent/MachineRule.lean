import Kairon.Agent.Reconcile
import Kairon.Cluster.World

/-!
# What the Machine reconcile does

Which calls the reconcile of one Machine makes, and after which answers. A runtime is brought up
only on what the lookup of that reconcile returned.
-/

namespace Kairon.Agent

open Infra GoText Model Cluster List

def Found (m : Machine) (rec : RuntimeRecord) (h : History) : Prop :=
  (m.status.runtimeID ≠ "" ∧
      ⟨.flux (.machine m) (.get m.status.runtimeID), (.ok rec : Except String RuntimeRecord)⟩ ∈ h) ∨
    ⟨.flux (.machine m) (.lookupByName m.key.runtimeName),
      (.ok (some rec) : Except String (Option RuntimeRecord))⟩ ∈ h

def Missing (m : Machine) (h : History) : Prop :=
  ⟨.flux (.machine m) (.lookupByName m.key.runtimeName),
    (.ok none : Except String (Option RuntimeRecord))⟩ ∈ h

def Wanted (m : Machine) : Prop :=
  m.metadata.deleting = false ∧ m.desiredPowerState ≠ "Stopped" ∧
    m.desiredPowerState ≠ "Paused" ∧ m.desiredPowerState ≠ "Halted"

def FluxRule (m : Machine) (h : History) : FluxCall → Prop
  | .resume id =>
    Wanted m ∧ m.desiredPowerState = "Running" ∧
      ∃ rec, Found m rec h ∧ rec.id = id ∧ equalFold rec.status "Paused" = true
  | .start id =>
    Wanted m ∧ ∃ rec, Found m rec h ∧ rec.id = id ∧ normalizePhase rec.status = "Stopped"
  | .createWithVfio | .createSandbox | .fork _ =>
    Wanted m ∧ Missing m h ∧ m.metadata.annotationTrue annotationAdoptOnly = false
  | .pause id | .stop id => ∃ rec, Found m rec h ∧ rec.id = id
  | .delete id => (∃ rec, Found m rec h ∧ rec.id = id) ∨ id = m.status.runtimeID
  | _ => True

def Cleared (m : Machine) (h : History) : Prop :=
  m.status.runtimeID = "" ∨ ⟨.flux (.machine m) (.delete m.status.runtimeID), (.ok () : GoErr)⟩ ∈ h

def MachineRule (m : Machine) (h : History) : ClusterOp → Prop
  | .flux (.machine x) call =>
    match call with
    | .get _ | .lookupByName _ => True
    | call => x = m ∧ FluxRule m h call
  | .flux (.migration _) _ => False
  | .patchMachine _ k p =>
    k = m.key ∧ ∃ fs, p = { finalizers := some fs } ∧
      (runtimeFinalizer ∈ fs ∨ m.metadata.deleting = true ∧ Cleared m h)
  | .patchMachineStatus k _ => k = m.key
  | .getMachine _ | .listMachineMigrationsNamespace _ | .machineStep _ _ | .now => True
  | _ => False

variable {a : Config} {m : Machine} {h : History}

theorem Cleared.cons {ev : Event ClusterOp.Ans} (hc : Cleared m h) : Cleared m (ev :: h) :=
  hc.imp_right (mem_cons_of_mem _)

theorem current_follows (x : Machine) {ok : History → ClusterOp → Prop}
    (hget : ∀ h id, ok h (.flux (.machine x) (.get id)))
    (hlookup : ∀ h name, ok h (.flux (.machine x) (.lookupByName name))) : (current x).Follows ok
      (fun h r => ∀ o, r = .ok o → o.elim (Missing x h) fun rec => Found x rec h) h := by
  have lookup : ∀ h : History, (Flux.lookupByName (.machine x) x.key.runtimeName).Follows
      ok (fun h r => ∀ o, r = .ok o → o.elim (Missing x h) fun rec => Found x rec h) h := by
    refine fun h => ⟨hlookup _ _, fun r o hr => ?_⟩
    cases hr
    cases o with
    | none => exact mem_cons_self
    | some rec => exact .inr mem_cons_self
  refine .ite (fun hid => ?_) fun _ => ?_
  · refine ⟨hget _ _, fun | .error _ => lookup _ | .ok rec => ?_⟩
    intro o hr
    cases hr
    exact .inl ⟨hid, mem_cons_self⟩
  · exact lookup _

theorem patchMachineStatusIfChanged_follows (s : MachineStatus) :
    (patchMachineStatusIfChanged m s).Follows (MachineRule m) Anyhow h := by
  unfold patchMachineStatusIfChanged
  split
  · trivial
  · exact ⟨rfl, fun _ => trivial⟩

theorem deregisterServiceFabric_follows :
    (deregisterServiceFabric m).Follows (MachineRule m) Anyhow h :=
  ⟨trivial, fun _ => trivial⟩

/-! ## The power states -/

theorem ensureStopped_follows : (ensureStopped a m).Follows (MachineRule m) Anyhow h := by
  refine (current_follows m (fun _ _ => trivial) fun _ _ => trivial).andThen (fun _ _ _ => trivial)
    fun h o ho => Prog.Follows.andThen_any ?_ fun h _ => ?_
  · -- only the runtime that was found is deleted
    match o with
    | none => trivial
    | some rec =>
      exact .ite (fun _ => ⟨⟨rfl, .inl ⟨rec, ho _ rfl, rfl⟩⟩, fun _ => trivial⟩) fun _ => trivial
  · refine deregisterServiceFabric_follows.andThen_any fun h _ => ?_
    exact ⟨trivial, fun now => patchMachineStatusIfChanged_follows _⟩

theorem ensurePaused_follows : (ensurePaused a m).Follows (MachineRule m) Anyhow h := by
  refine (current_follows m (fun _ _ => trivial) fun _ _ => trivial).andThen (fun _ _ _ => trivial)
    fun h o ho => ?_
  match o with
  | none => exact ⟨trivial, fun now => patchMachineStatusIfChanged_follows _⟩
  | some rec =>
    refine Prog.Follows.andThen_any ?_
      fun h _ => ⟨trivial, fun now => patchMachineStatusIfChanged_follows _⟩
    split
    · trivial
    · exact ⟨⟨rfl, rec, ho _ rfl, rfl⟩, fun _ => trivial⟩

theorem ensureHalted_follows : (ensureHalted a m).Follows (MachineRule m) Anyhow h := by
  refine (current_follows m (fun _ _ => trivial) fun _ _ => trivial).andThen (fun _ _ _ => trivial)
    fun h o ho => ?_
  match o with
  | none => exact ⟨trivial, fun now => patchMachineStatusIfChanged_follows _⟩
  | some rec =>
    refine Prog.Follows.andThen_any ?_ fun h _ => ?_
    · split
      · trivial
      · exact ⟨⟨rfl, rec, ho _ rfl, rfl⟩, fun _ => trivial⟩
    · refine deregisterServiceFabric_follows.andThen_any fun h _ => ?_
      exact ⟨trivial, fun now => patchMachineStatusIfChanged_follows _⟩

theorem cleanup_follows (hdel : m.metadata.deleting = true) :
    (cleanup m).Follows (MachineRule m) Anyhow h := by
  have first : (if m.status.runtimeID ≠ "" then Flux.delete (.machine m) m.status.runtimeID
      else .ret (.ok ())).Follows (MachineRule m) (fun h r => ∀ u, r = .ok u → Cleared m h) h := by
    split
    · refine ⟨⟨rfl, .inr rfl⟩, fun r u hr => .inr ?_⟩
      rw [hr]
      exact mem_cons_self
    · next hid => exact fun _ _ => .inl (not_not.mp hid)
  refine first.andThen (fun _ _ _ => trivial) fun h _ hc => ?_
  -- volumes and fabric come between
  have cleared := hc _ rfl
  refine ⟨trivial, fun | .error _ => trivial | .ok () => ?_⟩
  refine ⟨trivial, fun | .error _ => trivial | .ok () => ?_⟩
  refine ⟨trivial, fun | .error _ => trivial | .ok () => ?_⟩
  exact ⟨⟨rfl, _, rfl, .inr ⟨hdel, cleared.cons.cons.cons⟩⟩, fun _ => trivial⟩

/-! ## A Machine that is to run -/

theorem forkRuntime_follows (hw : Wanted m) (hmiss : Missing m h)
    (hadopt : m.metadata.annotationTrue annotationAdoptOnly = false) :
    (forkRuntime a m).Follows (MachineRule m) Anyhow h := by
  refine ⟨trivial, fun | .error _ => trivial | .ok (some _) => trivial | .ok none => ?_⟩
  split
  · trivial
  · refine ⟨trivial, fun | .error _ => trivial | .ok parent => ?_⟩
    refine .ite (fun _ => trivial) fun _ => ?_
    refine (current_follows parent (fun _ _ => trivial) fun _ _ => trivial).extend.andThen
      (fun _ _ _ => trivial) fun h' o ho => ?_
    match o with
    | none => trivial
    | some src =>
      refine .ite (fun _ => trivial) fun _ => ?_
      have still : Missing m h' :=
        ho.1.subset (mem_cons_of_mem _ (mem_cons_of_mem _ hmiss))
      exact ⟨⟨rfl, hw, still, hadopt⟩, fun _ => trivial⟩

theorem bringUp_follows (hw : Wanted m) {o : Option RuntimeRecord}
    (ho : o.elim (Missing m h) fun rec => Found m rec h)
    (hadopt : o = none → m.metadata.annotationTrue annotationAdoptOnly = false) :
    (bringUp a m o).Follows (MachineRule m) Anyhow h := by
  match o with
  | none =>
    refine Prog.Follows.andThen_any ?_ fun h _ => trivial
    split
    · exact forkRuntime_follows hw ho (hadopt rfl)
    · split
      · exact ⟨⟨rfl, hw, ho, hadopt rfl⟩, fun _ => trivial⟩
      · refine ⟨trivial, fun | .error _ => trivial | .ok () => ?_⟩
        exact ⟨⟨rfl, hw, mem_cons_of_mem _ ho, hadopt rfl⟩, fun _ => trivial⟩
  | some rec =>
    refine .ite (fun hp => ?_) fun _ => ?_
    · exact Prog.Follows.andThen_any ⟨⟨rfl, hw, hp.2, rec, ho, rfl, hp.1⟩, fun _ => trivial⟩
        fun h _ => trivial
    · split
      · next hp =>
        exact Prog.Follows.andThen_any ⟨⟨rfl, hw, rec, ho, rfl, hp.1⟩, fun _ => trivial⟩
          fun h _ => trivial
      · trivial

theorem followUp_follows (volume : VolumeStatus) (fresh : Bool) (rec : RuntimeRecord)
    (restarted : Bool) :
    (followUp a m volume fresh rec restarted).Follows (MachineRule m) Anyhow h := by
  refine Prog.Follows.andThen_any ?_ fun h rec => ?_
  · split
    · exact ⟨trivial, fun _ => trivial⟩
    · trivial
  · refine Prog.Follows.andThen_any ⟨trivial, fun _ => trivial⟩ fun h _ => ?_
    -- hotplug, devices, limits and statistics
    refine ⟨trivial, fun _ => ⟨trivial, fun _ => ⟨trivial, fun _ => ⟨⟨rfl, trivial⟩, fun _ => ?_⟩⟩⟩⟩
    refine Prog.Follows.andThen_any ⟨trivial, fun _ => trivial⟩ fun h _ => ⟨trivial, fun _ => ?_⟩
    refine Prog.Follows.andThen_any ⟨trivial, fun _ => trivial⟩ fun h _ => ⟨trivial, fun _ => ?_⟩
    exact patchMachineStatusIfChanged_follows _

theorem ensureRunning_follows (hw : Wanted m) :
    (ensureRunning a m).Follows (MachineRule m) Anyhow h := by
  refine Prog.Follows.andThen_any ⟨trivial, fun _ => trivial⟩ fun h volume => ?_
  refine (current_follows m (fun _ _ => trivial) fun _ _ => trivial).andThen (fun _ _ _ => trivial)
    fun h o ho => ?_
  split
  · exact ⟨trivial, fun now => patchMachineStatusIfChanged_follows _⟩
  · next hadopt =>
    refine (bringUp_follows hw (ho _ rfl) fun hnone => ?_).andThen_any fun h r =>
      followUp_follows _ _ _ _
    simpa [hnone] using hadopt

theorem reconcileMachine_follows : (reconcileMachine a m).Follows (MachineRule m) Anyhow h := by
  refine .ite (fun _ => ?_) fun hlive => ?_
  · refine Prog.Follows.andThen_any ?_ fun h inFlight => ?_
    · exact ⟨trivial, fun | .error _ => trivial | .ok _ => trivial⟩
    · match inFlight with
      | true => trivial
      | false => exact cleanup_follows (by assumption)
  · refine Prog.Follows.andThen_any ?_ fun h _ => ?_
    · split
      · trivial
      · exact ⟨⟨rfl, _, rfl, .inl (by simp)⟩, fun _ => trivial⟩
    · split
      · exact ensureStopped_follows
      split
      · exact ensurePaused_follows
      split
      · exact ensureHalted_follows
      next hs hp hh => exact ensureRunning_follows ⟨by simpa using hlive, hs, hp, hh⟩

end Kairon.Agent
