import Kairon.Agent.TickRule

/-!
# A node and its runtimes

One agent over the API server and the FluxVM of its node. Of a runtime only its identifier and the
Machine it was created for are kept; a create gets a new identifier, and a failed delete may have
been carried out.
-/

namespace Kairon.Agent

open Infra Model Cluster List

/-- The stored objects, and the identifiers of the runtimes that the agent created with the Machine
each is for. -/
structure NodeWorld where
  store : Store
  runtimes : List (String × ObjectKey)
  named : ∀ r ∈ runtimes, r.1 ≠ ""

variable (w : NodeWorld)

namespace NodeWorld

def create (id : String) (k : ObjectKey) (hid : id ≠ "") : NodeWorld where
  store := w.store
  runtimes := (id, k) :: w.runtimes
  named := forall_mem_cons.mpr ⟨hid, w.named⟩

def delete (id : String) : NodeWorld where
  store := w.store
  runtimes := w.runtimes.filter fun r => r.1 ≠ id
  named r hr := w.named r (mem_of_mem_filter hr)

def held (k : ObjectKey) : Bool := (w.store.machines.find k).any Machine.hasFinalizer

end NodeWorld

/-- What a create for `s` leads to: the runtime gets an identifier that no other has. -/
def createOutcomes (s : Subject) (rec : RuntimeRecord) : List NodeWorld :=
  match s with
  | .machine m =>
    if hid : rec.id ≠ "" then
      if ∀ r ∈ w.runtimes, r.1 ≠ rec.id then [w.create rec.id m.key hid] else []
    else []
  | .migration _ => [w]

def fluxOutcomes (s : Subject) : (call : FluxCall) → call.Ans → List NodeWorld
  | .delete id, .ok () => [w.delete id]
  | .delete id, .error _ => [w, w.delete id]
  | .createWithVfio, .ok rec | .createSandbox, .ok rec | .fork _, .ok rec =>
    createOutcomes w s rec
  | _, _ => [w]

def nodeOutcomes : (e : ClusterOp) → e.Ans → List NodeWorld
  | .flux s call, a => fluxOutcomes w s call a
  | e, a => (outcomes w.store e a).map fun store => { w with store }

/-- The ticks of the agent of `node`. Other processes and the users change the stored objects, and
runtimes may disappear. -/
def nodeHost (node : String) : Host ClusterOp.Ans GoErr Unit NodeWorld where
  outcomes _ := nodeOutcomes
  start _ p := ∃ a : Config, a.nodeName = node ∧ p = reconcile a
  env w w' := w'.runtimes ⊆ w.runtimes
  crash := True

/-! ## What a call does to the runtimes -/

def deletes (id : String) : Event ClusterOp.Ans → Bool
  | ⟨.flux _ (.delete id'), .ok ()⟩ => id' = id
  | _ => false

variable {w} {w' : NodeWorld} {m : Machine} {h : History} {id : String} {k : ObjectKey}
  {e : ClusterOp}

theorem mem_of_created {s : Subject} {rec : RuntimeRecord} (hw : w' ∈ createOutcomes w s rec)
    (hid : (id, k) ∈ w'.runtimes) : (id, k) ∈ w.runtimes ∨ ∃ m, s = .machine m ∧ m.key = k := by
  cases s with
  | migration item =>
    rw [mem_singleton.mp hw] at hid
    exact .inl hid
  | machine m =>
    simp only [createOutcomes] at hw
    split at hw
    · split at hw
      · rw [mem_singleton.mp hw] at hid
        rcases mem_cons.mp hid with hnew | hold
        · cases hnew
          exact .inr ⟨m, rfl, rfl⟩
        · exact .inl hold
      · cases hw
    · cases hw

theorem mem_of_call {a : e.Ans} (hw : w' ∈ nodeOutcomes w e a) (hid : (id, k) ∈ w'.runtimes) :
    ((id, k) ∈ w.runtimes ∧ deletes id ⟨e, a⟩ = false) ∨
      ∃ m call, e = .flux (.machine m) call ∧ powersUp call = true ∧ m.key = k := by
  have other : w' ∈ [w] → (id, k) ∈ w.runtimes := by
    intro hw
    rwa [← mem_singleton.mp hw]
  cases e with
  | flux s call =>
    cases call with
    | delete id' =>
      cases a with
      | ok u =>
        rw [mem_singleton.mp hw] at hid
        obtain ⟨hmem, hne⟩ := mem_filter.mp hid
        exact .inl ⟨hmem, decide_eq_false (Ne.symm (of_decide_eq_true hne))⟩
      | error e =>
        rcases mem_pair.mp hw with rfl | rfl
        · exact .inl ⟨hid, rfl⟩
        · exact .inl ⟨mem_of_mem_filter hid, rfl⟩
    | createWithVfio | createSandbox | fork parent =>
      cases a with
      | error e => exact .inl ⟨other hw, rfl⟩
      | ok rec =>
        rcases mem_of_created hw hid with hmem | ⟨m, rfl, hk⟩
        · exact .inl ⟨hmem, rfl⟩
        · exact .inr ⟨m, _, rfl, rfl, hk⟩
    | _ => exact .inl ⟨other hw, rfl⟩
  | _ =>
    obtain ⟨store, -, rfl⟩ := mem_map.mp hw
    exact .inl ⟨hid, rfl⟩

theorem store_of_flux {s : Subject} {call : FluxCall} {a : call.Ans}
    (hw : w' ∈ fluxOutcomes w s call a) : w'.store = w.store := by
  have made : ∀ {rec}, w' ∈ createOutcomes w s rec → w'.store = w.store := by
    intro rec hw
    cases s with
    | migration item => rw [mem_singleton.mp hw]
    | machine m =>
      simp only [createOutcomes] at hw
      split at hw
      · split at hw
        · rw [mem_singleton.mp hw]
          rfl
        · cases hw
      · cases hw
  cases call with
  | delete id =>
    cases a with
    | ok u =>
      rw [mem_singleton.mp hw]
      rfl
    | error e => rcases mem_pair.mp hw with rfl | rfl <;> rfl
  | createWithVfio | createSandbox | fork parent =>
    cases a with
    | ok rec => exact made hw
    | error e => rw [mem_singleton.mp hw]
  | _ => rw [mem_singleton.mp hw]

theorem store_of_call {a : e.Ans} (hw : w' ∈ nodeOutcomes w e a) :
    w'.store ∈ outcomes w.store e a := by
  cases e with
  | flux s call =>
    rw [store_of_flux hw]
    exact mem_singleton_self _
  | _ =>
    obtain ⟨store, hstore, rfl⟩ := mem_map.mp hw
    exact hstore

/-! ## What a tick does to the runtimes -/

def machinesSeen : History → List Machine
  | [] => []
  | ⟨.listMachinesWithSelector _, .ok ms⟩ :: _ => ms
  | _ :: h => machinesSeen h

/-- The calls of a tick, seen from the runtimes: they are brought up for listed Machines that are
not being deleted, and the finalizer is taken off a listed one that is. -/
def RuntimeRule (h : History) : ClusterOp → Prop
  | .listMachinesWithSelector _ => h = []
  | .flux s call =>
    powersUp call = true → ∃ m ∈ machinesSeen h, s = .machine m ∧ m.metadata.deleting = false
  | .patchMachine _ k p =>
    ∀ fs, p.finalizers = some fs → runtimeFinalizer ∉ fs →
      ∃ m ∈ machinesSeen h, m.key = k ∧ m.metadata.deleting = true ∧ Cleared m h
  | _ => True

theorem MachineRule.keepsSeen (he : MachineRule m h e) (r : e.Ans)
    (base : History) : machinesSeen (⟨e, r⟩ :: base) = machinesSeen base := by
  cases e <;> first | rfl | exact he.elim

theorem Cleared.append {base : History} (hc : Cleared m h) : Cleared m (h ++ base) :=
  hc.imp_right (mem_append_left base)

theorem MachineRule.runtimeRule {new base : History} (he : MachineRule m new e)
    (hm : m ∈ machinesSeen (new ++ base)) : RuntimeRule (new ++ base) e := by
  cases e with
  | listMachinesWithSelector node => exact he.elim
  | flux s call =>
    intro hup
    cases s with
    | migration item => exact he.elim
    | machine x =>
      refine ⟨m, hm, ?_⟩
      cases call with
      | resume | start | createWithVfio | createSandbox | fork =>
        exact ⟨congrArg Subject.machine he.1, he.2.1.1⟩
      | _ => cases hup
  | patchMachine site k p =>
    obtain ⟨rfl, fs, rfl, hfs⟩ := he
    intro fs' hfs' hno
    cases hfs'
    obtain ⟨hdel, hc⟩ := hfs.resolve_left hno
    exact ⟨m, hm, rfl, hdel, hc.append⟩
  | _ => trivial

theorem MigrationRule.runtimeRule {item : MachineMigration} {new base : History}
    (he : MigrationRule item new e) : RuntimeRule (new ++ base) e := by
  cases e with
  | listMachinesWithSelector node => exact he.elim
  | flux s call =>
    intro hup
    have hdown : powersUp call = false := he
    simp [hdown] at hup
  | patchMachine site k p => exact he.elim
  | _ => trivial

theorem reconcile_tends (a : Config) : (reconcile a).Follows RuntimeRule Anyhow [] := by
  refine reconcile_parts a (fun h left => ∀ m ∈ left, m ∈ machinesSeen h) rfl (fun _ m hm => hm) ?_
    (fun _ _ => trivial) (fun _ => trivial) ?_
  · intro base m left hm
    have kept := (machineTick_follows (a := a) m).keep
      (P := fun new => machinesSeen (new ++ base) = machinesSeen base) rfl
      fun new e r hnew he => (he.keepsSeen r _).trans hnew
    refine (kept.after base).mono ?_ ?_
    · rintro past e ⟨new, rfl, hnew, he⟩
      exact he.runtimeRule (hnew ▸ hm m mem_cons_self)
    · rintro past _ ⟨new, rfl, hnew, -⟩ x hx
      exact hnew ▸ hm x (mem_cons_of_mem _ hx)
  · intro base item
    refine ((@migrationTick_follows a item).after base).mono ?_ fun _ _ _ => trivial
    rintro past e ⟨new, rfl, -, he⟩
    exact he.runtimeRule

end Kairon.Agent
