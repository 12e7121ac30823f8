import Kairon.Cluster.World
import Kairon.Controller.Reconcile

/-!
# What the controller does

Which calls a tick of the controller makes: the writes to migrations by phase, and the one kind of
write that hands out CPUs.
-/

namespace Kairon.Controller

open Infra Model Cluster List

inductive Advance : MigrationPhase → MigrationPhase → Prop
  | block {p : MigrationPhase} (pending : p.isPending = true) : Advance p .blocked
  | admitLive {p : MigrationPhase} (pending : p.isPending = true) : Advance p .starting
  | admitCold {p : MigrationPhase} (pending : p.isPending = true) : Advance p .stopping
  | cutover : Advance .cutover .adopting
  | adopt : Advance .adopting .succeeded
  | restart : Advance .stopping .restarting
  | finish : Advance .restarting .succeeded

def Unfinished (item : MachineMigration) : Prop :=
  item.status.phase ≠ .succeeded ∧ item.status.phase ≠ .failed ∧
    item.status.phase ≠ .blocked ∧ item.status.phase ≠ .needsRecovery ∧
    item.status.phase ≠ .cancelled

def ItemRule (item : MachineMigration) (h : History) : ClusterOp → Prop
  | .patchMachineMigrationStatus .reconcile x s =>
    x = item ∧ Advance item.status.phase s.phase ∧ ∀ ev ∈ h, writesStatus ev = false
  | .patchMachineMigrationStatus .errorHandler x s =>
    x = item ∧ Unfinished item ∧ s.phase = .failed
  | .patchMachineMigration x _ => x = item
  | .patchMachine .reconcile _ p => p.allocatedCpuSet = none
  | .decision _ => True
  | _ => False

variable {c : Config} {item : MachineMigration} {h : History} {machine : Machine} {k : ObjectKey}
  {p : MachinePatch} {site : Site} {machines : List Machine} {items : List MachineMigration}

def Unwritten (h : History) : Prop :=
  ∀ ev ∈ h, writesStatus ev = false

theorem Unwritten.nil : Unwritten [] := forall_mem_nil _

theorem Unwritten.cons {ev : Event ClusterOp.Ans} (hev : writesStatus ev = false)
    (hh : Unwritten h) : Unwritten (ev :: h) :=
  forall_mem_cons.mpr ⟨hev, hh⟩

theorem finish_follows {s : MachineMigrationStatus} (hmove : Advance item.status.phase s.phase)
    (hh : Unwritten h) : (finish item s).Follows (ItemRule item) Anyhow h :=
  ⟨⟨rfl, hmove, hh⟩, fun _ => trivial⟩

theorem ensureMigrationSourceLabel_follows {node : String} :
    (ensureMigrationSourceLabel item node).Follows (ItemRule item) Anyhow h := by
  unfold ensureMigrationSourceLabel
  split
  · trivial
  · exact ⟨rfl, fun _ => trivial⟩

theorem beginMigration_follows (hp : item.status.phase.isPending = true)
    (hh : Unwritten h) (status : MachineMigrationStatus) (strategy : String) :
    (beginMigration item machine status strategy).Follows (ItemRule item) Anyhow h := by
  have label : ∀ {h : History}, ((ensureMigrationSourceLabel item status.sourceNode).bind
      fun _ => (.ret (.ok ()) : M GoErr)).Follows (ItemRule item) Anyhow h :=
    ensureMigrationSourceLabel_follows.bind fun _ _ _ => trivial
  unfold beginMigration
  split
  · exact (finish_follows (.admitLive hp) hh).andThen_any fun _ _ => label
  · exact ⟨rfl, fun
      | .error _ => trivial
      | .ok () => (finish_follows (.admitCold hp) (hh.cons rfl)).andThen_any fun _ _ => label⟩

theorem migrationTarget_follows (machine : Machine) (requested strategy : String)
    (nodes : List Node) (hh : Unwritten h) :
    (migrationTarget machine requested strategy nodes).Follows (ItemRule item)
      (fun h' _ => Unwritten h') h := by
  unfold migrationTarget
  dsimp only
  split
  · exact hh
  · refine ⟨trivial, fun | .error _ => hh.cons rfl | .ok target => ?_⟩
    dsimp only [Prog.bind]
    split
    · exact ⟨trivial, fun _ => (hh.cons rfl).cons rfl⟩
    · exact hh.cons rfl

theorem defaultBandwidth_follows (machine : Machine) (hh : Unwritten h) :
    (defaultBandwidth item machine).Follows (ItemRule item) (fun h' _ => Unwritten h') h := by
  unfold defaultBandwidth
  split
  · exact hh
  · refine ⟨trivial, fun (bw : UInt64) => ?_⟩
    exact .ite (fun _ => ⟨rfl, fun _ => (hh.cons rfl).cons rfl⟩) fun _ => hh.cons rfl

theorem admitMigration_follows (hp : item.status.phase.isPending = true) (hh : Unwritten h)
    (nodes : List Node) (load : MigrationLoad) :
    (admitMigration c item machine nodes load).Follows (ItemRule item) Anyhow h := by
  have block : ∀ {h : History} (message : String), Unwritten h →
      ((blockMigration item message).bind fun r => .ret (load, r)).Follows (ItemRule item)
        Anyhow h :=
    fun message hh => (finish_follows (.block hp) hh).bind fun _ _ _ => trivial
  refine .ite (fun _ => block _ hh) fun _ => ?_
  split
  · exact block _ hh
  split
  · exact block _ hh
  refine ⟨trivial, fun (blocker : String) => ?_⟩
  have hh := hh.cons
    (rfl : writesStatus ⟨.decision (.admitMigrationPolicy machine), blocker⟩ = false)
  refine .ite (fun _ => block _ hh) fun _ => ?_
  split
  · exact block _ hh
  · next strategy _ =>
    refine (migrationTarget_follows machine _ strategy nodes hh).bind fun h r hh => ?_
    match r with
    | .error e => exact block _ hh
    | .ok target =>
      refine .ite (fun _ => block _ hh) fun _ => ?_
      refine (defaultBandwidth_follows machine hh).bind fun h _ hh => ?_
      exact (beginMigration_follows hp hh _ strategy).bind fun _ _ _ => trivial

theorem advanceMigration_follows (hh : Unwritten h) :
    (advanceMigration item machine).Follows (ItemRule item) Anyhow h := by
  unfold advanceMigration
  dsimp only
  split
  · trivial
  · trivial
  · next hphase =>
    split
    · trivial
    · exact ⟨rfl, fun
        | .error _ => trivial
        | .ok () => finish_follows (hphase ▸ .cutover) (hh.cons rfl)⟩
  · next hphase =>
    split
    · trivial
    · exact ⟨rfl, fun
        | .error _ => trivial
        | .ok () => finish_follows (hphase ▸ .adopt) (hh.cons rfl)⟩
  · next hphase =>
    split
    · trivial
    · exact ⟨rfl, fun
        | .error _ => trivial
        | .ok () => finish_follows (hphase ▸ .restart) (hh.cons rfl)⟩
  · next hphase =>
    split
    · exact finish_follows (hphase ▸ .finish) hh
    · trivial
  · trivial

theorem reconcileMigration_follows (machines : List Machine) (nodes : List Node)
    (load : MigrationLoad) : (reconcileMigration c item machines nodes load).Follows (ItemRule item)
      (fun _ r => ∀ e, r.2 = .error e → Unfinished item) [] := by
  unfold reconcileMigration
  dsimp only
  split
  · exact nofun
  · exact nofun
  · exact nofun
  · exact nofun
  · exact nofun
  · next h₁ h₂ h₃ h₄ h₅ =>
    have hu : Unfinished item := ⟨h₁, h₂, h₃, h₄, h₅⟩
    have known : ∀ {p : M (MigrationLoad × GoErr)} {h : History},
        p.Follows (ItemRule item) Anyhow h →
        p.Follows (ItemRule item) (fun _ r => ∀ e, r.2 = .error e → Unfinished item) h :=
      fun hp => hp.weaken fun _ _ _ _ _ => hu
    refine known ?_
    split
    · trivial
    split
    · trivial
    · split
      · trivial
      split
      · next hp => exact admitMigration_follows hp Unwritten.nil nodes load
      · exact (advanceMigration_follows Unwritten.nil).bind fun _ _ _ => trivial

/-! ## One tick -/

/-- The calls of a tick that have to do with no single migration and hand out no CPUs. -/
def AsideCall : ClusterOp → Prop
  | .listMachines | .listNodes | .listMachineInstanceTypes | .controllerPass _ | .decision _
  | .now | .recordEvent _ _ _ | .patchMachineStatus _ _ | .patchMachineMigration _ _ => True
  | .patchMachine .reconcile _ p => p.allocatedCpuSet = none
  | _ => False

variable (ps : List ControllerPass) (snapshot : List Machine)

def Placed (k : ObjectKey) (p : MachinePatch) : Prop :=
  ∃ (c : Config) (nodes : List Node) (m : Machine) (node : String), m ∈ snapshot ∧
    m.key = k ∧ m.metadata.deleting = false ∧ m.spec.nodeName = "" ∧
    placementPatch c snapshot nodes m node = .ok p

theorem Placed.cpus {snapshot : List Machine}
    {cpus : List UInt32} (hp : Placed snapshot k p) (hcpus : p.allocatedCpuSet = some cpus) :
    ∃ node, p.nodeName = some node ∧ ∀ other ∈ snapshot, other.spec.nodeName = node →
      other.metadata.deleting = false → cpus.Disjoint other.spec.resources.allocatedCpuSet := by
  obtain ⟨c, nodes, m, node, -, -, -, -, hpatch⟩ := hp
  unfold placementPatch at hpatch
  dsimp only at hpatch
  split at hpatch
  · cases halloc : Scheduler.allocateCPUSet c.parseVCPUs m
        ((nodeByName nodes node).getD ⟨"", [], []⟩) snapshot with
    | error e =>
      rw [halloc] at hpatch
      cases hpatch
    | ok cpus' =>
      rw [halloc] at hpatch
      cases hpatch
      cases hcpus
      refine ⟨node, rfl, fun other hother hnode hlive => ?_⟩
      cases hfind : nodeByName nodes node with
      | none =>
        -- a node that is not listed has no CPUs to hand out
        rw [hfind] at halloc
        rw [Scheduler.allocateCPUSet_unlabelled halloc]
        exact disjoint_nil_left _
      | some n =>
        rw [hfind] at halloc
        have hname : n.name = node := by simpa using List.find?_some hfind
        exact Scheduler.allocateCPUSet_disjoint halloc hother (hnode.trans hname.symm) hlive
  · cases hpatch
    cases hcpus

/-- A list of Machines that a tick works on after the calls `h`: what it was answered by the API
server, except where it has put in the resources of an instance type. -/
def Shown (h : History) : Prop :=
  ∃ answer, (⟨.listMachines, .ok answer⟩ : Event ClusterOp.Ans) ∈ h ∧
    ∀ m ∈ answer, m ∈ snapshot ∨ ∃ ev ∈ h, reassigns m.key ev = true

theorem Shown.mono {snapshot : List Machine} {h h' : History} (hs : Shown snapshot h)
    (hh : h <:+ h') : Shown snapshot h' := by
  obtain ⟨answer, ha, hm⟩ := hs
  refine ⟨answer, hh.subset ha, fun m hma => (hm m hma).imp_right ?_⟩
  rintro ⟨ev, hev, hr⟩
  exact ⟨ev, hh.subset hev, hr⟩

inductive ControllerRule (h : History) (e : ClusterOp) : Prop where
  | tick (call : AsideCall e)
  | list (eq : e = .listMachineMigrations) (aside : ∀ ev ∈ h, Aside ev)
  | place (snapshot : List Machine) (k : ObjectKey) (p : MachinePatch)
      (eq : e = .patchMachine (.placement snapshot) k p) (placed : Placed snapshot k p)
      (shown : Shown snapshot h)
  | migration (item : MachineMigration) (new base : History) (eq : h = new ++ base)
      (turn : Turn item base) (about : ∀ ev ∈ new, About item ev) (rule : ItemRule item new e)

theorem AsideCall.aside {e : ClusterOp} (he : AsideCall e) (r : e.Ans) : Aside ⟨e, r⟩ := by
  cases e <;> first | exact he.elim | exact ⟨rfl, fun _ => rfl⟩

theorem ItemRule.about {e : ClusterOp} (he : ItemRule item h e) (r : e.Ans) :
    About item ⟨e, r⟩ := by
  cases e with
  | patchMachineMigrationStatus site x s =>
    cases site with
    | placement snapshot => exact he.elim
    | _ => exact ⟨rfl, fun k hk => by rw [← he.1]; exact (of_decide_eq_true hk).symm⟩
  | listMachineMigrations | listMachineMigrationsWithSelector | peer => exact he.elim
  | _ => exact ⟨rfl, nofun⟩

theorem ControllerRule.status_write {s : MachineMigrationStatus}
    (he : ControllerRule h (.patchMachineMigrationStatus site item s)) :
    ∃ new base, h = new ++ base ∧ Turn item base ∧ (∀ ev ∈ new, About item ev) ∧
      (site = .reconcile ∧ Advance item.status.phase s.phase ∧
          (∀ ev ∈ new, writesStatus ev = false) ∨
        site = .errorHandler ∧ Unfinished item ∧ s.phase = .failed) := by
  cases he with
  | tick call => exact call.elim
  | list eq => cases eq
  | place snapshot k p eq => cases eq
  | migration x new base eq turn about rule =>
    cases site with
    | placement snapshot => exact rule.elim
    | reconcile =>
      obtain ⟨rfl, hmove, hu⟩ := rule
      exact ⟨new, base, eq, turn, about, .inl ⟨rfl, hmove, hu⟩⟩
    | errorHandler =>
      obtain ⟨rfl, hfail⟩ := rule
      exact ⟨new, base, eq, turn, about, .inr ⟨rfl, hfail⟩⟩

theorem ControllerRule.hands_out (he : ControllerRule h (.patchMachine site k p))
    (hp : p.allocatedCpuSet ≠ none) : ∃ snapshot, Placed snapshot k p ∧ Shown snapshot h := by
  cases he with
  | tick call =>
    cases site with
    | reconcile => exact absurd call hp
    | _ => exact call.elim
  | list eq => cases eq
  | place snapshot k p eq placed shown =>
    cases eq
    exact ⟨snapshot, placed, shown⟩
  | migration item new base eq turn about rule =>
    cases site with
    | reconcile => exact absurd rule hp
    | _ => exact rule.elim

theorem follows_of_aside {α : Type} {p : M α} {P : History → Prop} {post : History → α → Prop}
    (hp : p.Follows (fun _ e => AsideCall e) post h) (hh : P h)
    (hP : ∀ h ev, P h → Aside ev → P (ev :: h)) :
    p.Follows ControllerRule (fun h' a => P h' ∧ post h' a) h :=
  (hp.keep hh fun h' e r hh' he => hP h' ⟨e, r⟩ hh' (he.aside r)).mono
    (fun _ _ he => .tick he.2) fun _ _ h' => h'

theorem forEach_aside {β : Type} {f : β → M Unit}
    (hf : ∀ h x, (f x).Follows (fun _ e => AsideCall e) Anyhow h) (xs : List β) :
    (Prog.forEach f xs).Follows (fun _ e => AsideCall e) Anyhow h :=
  Prog.Follows.forEach (fun _ _ => True) (fun h x _ _ => hf h x) trivial

theorem quietly_aside : (quietly ps).Follows (fun _ e => AsideCall e) Anyhow h := by
  refine forEach_aside (fun _ p => ?_) ps
  exact ⟨trivial, fun _ => trivial⟩

theorem syncAssignedNodeLabels_aside (machines : List Machine) :
    (syncAssignedNodeLabels machines).Follows (fun _ e => AsideCall e) Anyhow h := by
  refine forEach_aside (fun h m => ?_) machines
  unfold syncAssignedNodeLabel
  split
  · trivial
  · exact ⟨rfl, fun _ => trivial⟩

theorem syncMigrationSourceLabels_aside (items : List MachineMigration) :
    (syncMigrationSourceLabels items).Follows (fun _ e => AsideCall e) Anyhow h := by
  refine forEach_aside (fun h g => ?_) items
  unfold syncMigrationSourceLabel ensureMigrationSourceLabel
  split
  · trivial
  · split
    · trivial
    · exact ⟨trivial, fun _ => trivial⟩

theorem storeInstanceType_aside (types : List MachineInstanceType) (m : Machine) :
    (storeInstanceType types m).Follows (fun _ e => AsideCall e)
      (fun h' _ => resolveInstanceType types m = m ∨ ∃ ev ∈ h', reassigns m.key ev = true) h := by
  unfold storeInstanceType
  split
  · next hnone => exact .inl (by rw [resolveInstanceType, hnone])
  · exact ⟨rfl, fun _ => .inr ⟨_, mem_cons_self, by simp [reassigns]⟩⟩

theorem resolveInstanceTypes_aside (machines : List Machine) :
    (resolveInstanceTypes machines).Follows (fun _ e => AsideCall e)
      (fun h' ms => ∀ m ∈ machines, m ∈ ms ∨ ∃ ev ∈ h', reassigns m.key ev = true) h := by
  unfold resolveInstanceTypes
  split
  · refine ⟨trivial, fun | .error _ => fun m hm => .inl hm | .ok types => ?_⟩
    -- a Machine is still to come, is left alone, or its resources have been stored
    refine (Prog.Follows.forEach (fun h' ms => ∀ m ∈ machines, m ∈ ms ∨
      resolveInstanceType types m = m ∨ ∃ ev ∈ h', reassigns m.key ev = true)
      (fun h x xs hleft => ?_) fun m hm => .inl hm).bind fun h' _ hdone m hm => ?_
    · refine (storeInstanceType_aside types x).extend.weaken ?_
      rintro h' _ ⟨hsuf, hx⟩ m hm
      rcases hleft m hm with hmem | hsame | ⟨ev, hev, hr⟩
      · rcases mem_cons.mp hmem with rfl | hmem
        · exact .inr hx
        · exact .inl hmem
      · exact .inr (.inl hsame)
      · exact .inr (.inr ⟨ev, hsuf.subset hev, hr⟩)
    · rcases hdone m hm with hmem | hsame | hr
      · cases hmem
      · exact .inl (mem_map.mpr ⟨m, hm, hsame⟩)
      · exact .inr hr
  · exact fun m hm => .inl hm

theorem passes_aside : (passes ps).Follows (fun _ e => AsideCall e) Anyhow h := by
  induction ps generalizing h with
  | nil => trivial
  | cons p ps ih => exact Prog.Follows.andThen_any ⟨trivial, fun _ => trivial⟩ fun _ _ => ih

theorem reportUnplaced_aside (m : Machine) (reason message : String) :
    (reportUnplaced m reason message).Follows (fun _ e => AsideCall e) Anyhow h :=
  ⟨trivial, fun _ => ⟨trivial, fun _ => trivial⟩⟩

theorem placeMachine_follows {nodes : List Node} {m : Machine} (hm : m ∈ machines)
    (hlive : m.metadata.deleting = false) (hnode : m.spec.nodeName = "") (hs : Shown machines h) :
    (placeMachine c machines nodes m).Follows ControllerRule Anyhow h := by
  have report : ∀ {h : History} (reason message : String),
      (reportUnplaced m reason message).Follows ControllerRule Anyhow h := fun reason message =>
    (reportUnplaced_aside m reason message).mono (fun _ _ he => .tick he) fun _ _ _ => trivial
  refine ⟨.tick trivial, fun | .error _ => (report _ _).bind fun _ _ _ => trivial | .ok node => ?_⟩
  refine ⟨.tick trivial, fun (blocker : String) => ?_⟩
  refine .ite (fun _ => ?_) fun _ => ?_
  · exact (report _ _).bind fun _ _ _ => ⟨.tick trivial, fun _ => trivial⟩
  · split
    · exact (report _ _).bind fun _ _ _ => trivial
    · next p hp =>
      refine ⟨.place machines m.key p rfl ⟨c, nodes, m, node, hm, rfl, hlive, hnode, hp⟩ ?_,
        fun _ => trivial⟩
      exact hs.mono ((suffix_cons _ _).trans (suffix_cons _ _))

theorem placeMachines_follows {nodes : List Node} {ms : List Machine}
    (hms : ∀ m ∈ ms, m ∈ machines ∧ m.metadata.deleting = false ∧ m.spec.nodeName = "")
    (hs : Shown machines h) :
    (placeMachines c machines nodes ms).Follows ControllerRule Anyhow h := by
  induction ms generalizing h with
  | nil => trivial
  | cons m ms ih =>
    obtain ⟨hm, hlive, hnode⟩ := hms m mem_cons_self
    refine (placeMachine_follows hm hlive hnode hs).extend.andThen (fun _ _ _ => trivial) ?_
    exact fun h' _ hpast =>
      ih (fun m' hm' => hms m' (mem_cons_of_mem _ hm')) (hs.mono hpast.1)

theorem mem_pendingMachines {vs is : List ObjectKey} {m : Machine}
    (hm : m ∈ pendingMachines machines vs is) :
    m ∈ machines ∧ m.metadata.deleting = false ∧ m.spec.nodeName = "" := by
  have hf := mem_filter.mp ((mem_insertionSort _).mp hm)
  have hcond := of_decide_eq_true hf.2
  exact ⟨hf.1, by simpa using hcond.1, hcond.2.1⟩

theorem migrationTick_follows (machines : List Machine) (nodes : List Node) (load : MigrationLoad) :
    (migrationTick c machines nodes load item).Follows (ItemRule item) Anyhow [] := by
  refine (reconcileMigration_follows machines nodes load).bind fun h r hr => ?_
  split
  · trivial
  · next e he => exact ⟨⟨rfl, hr e he, rfl⟩, fun _ => trivial⟩

theorem migrationTick_part (machines : List Machine) (nodes : List Node) (load : MigrationLoad)
    (ht : ToCome (item :: items) h) :
    (migrationTick c machines nodes load item).Follows ControllerRule
      (fun h' _ => ToCome items h') h := by
  have kept := (@migrationTick_follows c item machines nodes load).keep
    (P := fun new => ∀ ev ∈ new, About item ev) (forall_mem_nil _)
    fun new e r hnew he => forall_mem_cons.mpr ⟨he.about r, hnew⟩
  refine (kept.after h).mono ?_ ?_
  · rintro past e ⟨new, rfl, hnew, he⟩
    exact .migration item new h rfl ht.turn hnew he
  · rintro past _ ⟨new, rfl, hnew, -⟩
    exact ht.next hnew

theorem migrationTicks_follows (machines : List Machine) (nodes : List Node)
    (load : MigrationLoad) (ht : ToCome items h) :
    (migrationTicks c machines nodes load items).Follows ControllerRule Anyhow h := by
  induction items generalizing h load with
  | nil => trivial
  | cons item items ih =>
    exact (migrationTick_part machines nodes load ht).bind fun _ load ht => ih load ht

theorem reconcileListed_follows (machines : List Machine) (nodes : List Node)
    (vs is : List ObjectKey) (ht : ToCome items h) (hs : Shown machines h) :
    (reconcileListed c machines nodes vs is items).Follows ControllerRule Anyhow h := by
  have both : ∀ h ev, ToCome items h ∧ Shown machines h → Aside ev →
      ToCome items (ev :: h) ∧ Shown machines (ev :: h) :=
    fun _ _ h hev => ⟨h.1.aside hev, h.2.mono (suffix_cons _ _)⟩
  -- after the migrations only the Machines matter
  have rest : ∀ {α : Type} {p : M α} {h : History}, Shown machines h →
      p.Follows (fun _ e => AsideCall e) Anyhow h →
      p.Follows ControllerRule (fun h' _ => Shown machines h') h := fun hs hp =>
    (follows_of_aside hp hs fun _ _ hs _ => hs.mono (suffix_cons _ _)).weaken fun _ _ h => h.1
  refine (follows_of_aside (syncMigrationSourceLabels_aside items) ⟨ht, hs⟩ both).bind
    fun h _ hh => ?_
  refine (follows_of_aside (quietly_aside _) hh.1 both).bind fun h _ hh => ?_
  obtain ⟨⟨ht, hs⟩, -⟩ := hh
  refine (migrationTicks_follows machines nodes _ ht).extend.bind fun h' _ hpast => ?_
  refine (rest (hs.mono hpast.1) (quietly_aside _)).bind fun h _ hs => ?_
  refine (rest hs (passes_aside _)).andThen (fun _ _ _ => trivial) fun h _ hs => ?_
  refine (placeMachines_follows (fun m hm => mem_pendingMachines hm) hs).extend.andThen
    (fun _ _ _ => trivial) fun h' _ hpast => ?_
  exact (rest (hs.mono hpast.1) (quietly_aside _)).bind fun _ _ _ => trivial

theorem reconcile_follows (c : Config) : (reconcile c).Follows ControllerRule Anyhow [] := by
  -- before the migrations are listed nothing is known but the Machines
  have keep : ∀ {P : History → Prop}, (∀ h h', P h → h <:+ h' → P h') →
      ∀ h ev, (∀ ev ∈ h, Aside ev) ∧ P h → Aside ev → (∀ ev' ∈ ev :: h, Aside ev') ∧ P (ev :: h) :=
    fun hP h _ hh hev => ⟨forall_mem_cons.mpr ⟨hev, hh.1⟩, hP h _ hh.2 (suffix_cons _ _)⟩
  refine ⟨.tick trivial, fun | .error _ => trivial | .ok machines => ?_⟩
  have given : ∀ h h', (⟨.listMachines, .ok machines⟩ : Event ClusterOp.Ans) ∈ h → h <:+ h' →
      (⟨.listMachines, .ok machines⟩ : Event ClusterOp.Ans) ∈ h' :=
    fun _ _ hmem hsuf => hsuf.subset hmem
  refine (follows_of_aside (syncAssignedNodeLabels_aside machines)
    ⟨forall_mem_singleton.mpr ⟨rfl, fun _ => rfl⟩, mem_cons_self⟩ (keep given)).bind
    fun h _ hh => ?_
  refine (follows_of_aside (quietly_aside _) hh.1 (keep given)).bind fun h _ hh => ?_
  refine (follows_of_aside (resolveInstanceTypes_aside machines) hh.1 (keep given)).bind
    fun h ms hh => ?_
  obtain ⟨⟨haside, hgiven⟩, hms⟩ := hh
  have hshown : ∀ h h', Shown ms h → h <:+ h' → Shown ms h' := fun _ _ hs => hs.mono
  have hh : (∀ ev ∈ h, Aside ev) ∧ Shown ms h := ⟨haside, machines, hgiven, hms⟩
  refine ⟨.tick trivial, fun (is : List ObjectKey) => ?_⟩
  refine ⟨.tick trivial, fun (vs : List ObjectKey) => ?_⟩
  have hh := keep hshown _ ⟨.decision .volumesNotReady, vs⟩
    (keep hshown _ ⟨.decision .imagesNotReady, is⟩ hh ⟨rfl, fun _ => rfl⟩) ⟨rfl, fun _ => rfl⟩
  refine (follows_of_aside (quietly_aside _) hh (keep hshown)).bind fun h _ hh => ?_
  refine ⟨.tick trivial, fun | .error _ => trivial | .ok nodes => ?_⟩
  have hh := keep hshown _ ⟨.listNodes, .ok nodes⟩ hh.1 ⟨rfl, fun _ => rfl⟩
  refine ⟨.list rfl hh.1, fun r => ?_⟩
  have hs := hh.2.mono (suffix_cons ⟨.listMachineMigrations, r⟩ _)
  match r with
  | .error e =>
    exact .ite (fun _ => reconcileListed_follows ms nodes vs is ToCome.nil hs) fun _ => trivial
  | .ok items =>
    exact reconcileListed_follows ms nodes vs is (ToCome.start rfl (fun _ => rfl) hh.1) hs

end Kairon.Controller
