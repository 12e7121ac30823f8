import Kairon.Agent.MigrationRule

/-!
# What a tick does

The two loops of `Reconcile`: first every Machine, then every migration of one listing, each once.
-/

namespace Kairon.Agent

open Infra Model Cluster List

def TickCall (node : String) (h : History) : ClusterOp → Prop
  | .listMachinesWithSelector x => x = node
  | .listMachineMigrationsWithSelector x => x = node ∧ ∀ ev ∈ h, Aside ev
  | .agentPass _ => True
  | _ => False

inductive AgentRule (node : String) (h : History) (e : ClusterOp) : Prop where
  | tick (call : TickCall node h e)
  | machine (m : Machine) (new base : History) (eq : h = new ++ base)
      (aside : ∀ ev ∈ h, Aside ev) (rule : MachineRule m new e)
  | migration (item : MachineMigration) (new base : History) (eq : h = new ++ base)
      (source : item.status.sourceNode = node) (turn : Turn item base)
      (about : ∀ ev ∈ new, About item ev) (settled : ∀ k, pending k base = false)
      (rule : MigrationRule item new e)

variable {a : Config} {item : MachineMigration} {h : History}

theorem MachineRule.aside {m : Machine} {e : ClusterOp} (he : MachineRule m h e) (r : e.Ans) :
    Aside ⟨e, r⟩ := by
  cases e <;> first | exact he.elim | exact ⟨rfl, fun _ => rfl⟩

theorem MigrationRule.about {e : ClusterOp} (he : MigrationRule item h e) (r : e.Ans) :
    About item ⟨e, r⟩ := by
  cases e with
  | peer x url call =>
    cases call with
    | commit id => exact ⟨rfl, fun k hk => by rw [← he.1]; exact (of_decide_eq_true hk).symm⟩
    | _ => exact ⟨rfl, nofun⟩
  | patchMachineMigrationStatus site x s =>
    cases site with
    | placement snapshot => exact he.elim
    | _ => exact ⟨rfl, fun k hk => by rw [← he.1]; exact (of_decide_eq_true hk).symm⟩
  | listMachineMigrations | listMachineMigrationsWithSelector => exact he.elim
  | _ => exact ⟨rfl, nofun⟩

theorem AgentRule.status_write {node : String} {site : Site} {s : MachineMigrationStatus}
    (he : AgentRule node h (.patchMachineMigrationStatus site item s)) :
    ∃ new base, h = new ++ base ∧ item.status.sourceNode = node ∧ Turn item base ∧
      (∀ ev ∈ new, About item ev) ∧ (∀ k, pending k base = false) ∧
      (site = .reconcile ∧ AgentMove item new s ∨
        site = .errorHandler ∧ AgentFailure item new s) := by
  cases he with
  | tick call => exact call.elim
  | machine m new base eq aside rule => exact rule.elim
  | migration x new base eq source turn about settled rule =>
    cases site with
    | placement snapshot => exact rule.elim
    | reconcile =>
      obtain ⟨rfl, hmove⟩ := rule
      exact ⟨new, base, eq, source, turn, about, settled, .inl ⟨rfl, hmove⟩⟩
    | errorHandler =>
      obtain ⟨rfl, hfail⟩ := rule
      exact ⟨new, base, eq, source, turn, about, settled, .inr ⟨rfl, hfail⟩⟩

theorem AgentRule.commit {node url id : String}
    (he : AgentRule node h (.peer item url (.commit id))) :
    ∃ new base, h = new ++ base ∧ Turn item base ∧ Driven item ∧
      (∀ ev ∈ new, About item ev) ∧ ∀ ev ∈ new, writesStatus ev = false := by
  cases he with
  | tick call => exact call.elim
  | machine m new base eq aside rule => exact rule.elim
  | migration x new base eq source turn about settled rule =>
    obtain ⟨rfl, hd, hu⟩ := rule
    exact ⟨new, base, eq, turn, hd, about, hu⟩

/-! ## The loops -/

theorem machineTick_follows (m : Machine) :
    (machineTick a m).Follows (MachineRule m) Anyhow [] := by
  unfold machineTick
  split
  · trivial
  · refine reconcileMachine_follows.bind fun h r _ => ?_
    match r with
    | .ok () => trivial
    | .error e =>
      exact ⟨trivial, fun now => (patchMachineStatusIfChanged_follows _).bind fun _ _ _ => trivial⟩

theorem machineTick_part {node : String} (m : Machine) (hh : ∀ ev ∈ h, Aside ev) :
    (machineTick a m).Follows (AgentRule node) (fun h' _ => ∀ ev ∈ h', Aside ev) h := by
  have kept := (machineTick_follows (a := a) m).keep (P := fun new => ∀ ev ∈ new, Aside ev)
    (fun _ hev => by cases hev) fun new e r hnew he ev hev => by
      rcases mem_cons.mp hev with rfl | hev
      · exact he.aside r
      · exact hnew ev hev
  have both : ∀ {new : History}, (∀ ev ∈ new, Aside ev) → ∀ ev ∈ new ++ h, Aside ev :=
    fun hnew ev hev => (mem_append.mp hev).elim (hnew ev) (hh ev)
  refine (kept.after h).mono ?_ ?_
  · rintro past e ⟨new, rfl, hnew, he⟩
    exact .machine m new h rfl (both hnew) he
  · rintro past _ ⟨new, rfl, hnew, -⟩
    exact both hnew

theorem migrationTick_part {items : List MachineMigration} (ht : ToCome (item :: items) h)
    (hs : ∀ k, pending k h = false) : (migrationTick a item).Follows (AgentRule a.nodeName)
      (fun h' _ => ToCome items h' ∧ ∀ k, pending k h' = false) h := by
  have kept := (@migrationTick_follows a item).keep
    (P := fun new => ∀ ev ∈ new, About item ev) (fun _ hev => by cases hev)
    fun new e r hnew he ev hev => by
      rcases mem_cons.mp hev with rfl | hev
      · exact he.2.about r
      · exact hnew ev hev
  refine (kept.after h).mono ?_ ?_
  · rintro past e ⟨new, rfl, hnew, hsource, he⟩
    exact .migration item new h rfl hsource ht.turn hnew hs he
  · rintro past _ ⟨new, rfl, hnew, hend⟩
    refine ⟨ht.next hnew, fun k => ?_⟩
    by_cases hk : k = item.key
    · rwa [pending_append (hs k), hk]
    · rw [pending_append_about hk hnew]
      exact hs k

theorem reconcile_follows (a : Config) :
    (reconcile a).Follows (AgentRule a.nodeName) (fun h _ => ∀ k, pending k h = false) [] := by
  have cons : ∀ {ev : Event ClusterOp.Ans} {h : History}, Aside ev → (∀ ev ∈ h, Aside ev) →
      ∀ ev' ∈ ev :: h, Aside ev' := fun hev hh => forall_mem_cons.mpr ⟨hev, hh⟩
  refine ⟨.tick rfl, fun | .error _ => fun _ => rfl | .ok machines => ?_⟩
  refine (Prog.Follows.forEach (fun h _ => ∀ ev ∈ h, Aside ev)
    (fun h m _ hh => machineTick_part m hh) ?_).bind fun h _ hh => ?_
  · exact cons ⟨rfl, fun _ => rfl⟩ (forall_mem_nil _)
  refine ⟨.tick trivial, fun
    | .error _ => fun _ => pending_of_aside (cons ⟨rfl, fun _ => rfl⟩ hh)
    | .ok () => ?_⟩
  -- capabilities, attestation and backups come between
  refine ⟨.tick trivial, fun r₁ => ⟨.tick trivial, fun r₂ => ⟨.tick trivial, fun r₃ => ?_⟩⟩⟩
  have aside : ∀ (p : AgentPass) (r : (ClusterOp.agentPass p).Ans), Aside ⟨.agentPass p, r⟩ :=
    fun _ _ => ⟨rfl, fun _ => rfl⟩
  have hh := cons (aside .backups r₃) (cons (aside .serveAttestation r₂)
    (cons (aside .publishCapabilities r₁) (cons (aside .networkResources (.ok ())) hh)))
  refine ⟨.tick ⟨rfl, hh⟩, fun r => ?_⟩
  have settled : ∀ (r : (ClusterOp.listMachineMigrationsWithSelector a.nodeName).Ans) k,
      pending k (⟨.listMachineMigrationsWithSelector a.nodeName, r⟩ :: _) = false :=
    fun _ k => (pending_cons_of_untouched rfl).trans (pending_of_aside hh)
  match r with
  | .error e => exact settled _
  | .ok items =>
    refine (Prog.Follows.forEach (fun h items => ToCome items h ∧ ∀ k, pending k h = false)
      (fun h item items ht => migrationTick_part ht.1 ht.2)
        ⟨ToCome.start rfl (fun _ => rfl) hh, settled _⟩).bind fun _ _ ht => ht.2

/-- A tick keeps to a discipline that its two loops keep to, one object at a time, if the calls
around them are always allowed. `looping` is what is known of the Machines that are left. -/
theorem reconcile_parts {ok : History → ClusterOp → Prop} (a : Config)
    (looping : History → List Machine → Prop)
    (list : ok [] (.listMachinesWithSelector a.nodeName))
    (listed : ∀ ms, looping [⟨.listMachinesWithSelector a.nodeName, .ok ms⟩] ms)
    (machine : ∀ h m ms, looping h (m :: ms) →
      (machineTick a m).Follows ok (fun h' _ => looping h' ms) h)
    (pass : ∀ h p, ok h (.agentPass p))
    (migrations : ∀ h, ok h (.listMachineMigrationsWithSelector a.nodeName))
    (migration : ∀ h item, (migrationTick a item).Follows ok Anyhow h) :
    (reconcile a).Follows ok Anyhow [] := by
  refine ⟨list, fun | .error _ => trivial | .ok machines => ?_⟩
  refine (Prog.Follows.forEach looping machine (listed machines)).bind fun h _ _ => ?_
  refine ⟨pass _ _, fun | .error _ => trivial | .ok () => ?_⟩
  refine ⟨pass _ _, fun _ => ⟨pass _ _, fun _ => ⟨pass _ _, fun _ => ?_⟩⟩⟩
  refine ⟨migrations _, fun | .error _ => trivial | .ok items => ?_⟩
  exact (Prog.Follows.forEach (fun _ _ => True) (fun h item _ _ => migration h item)
    trivial).bind fun _ _ _ => trivial

def isPass : Event ClusterOp.Ans → Bool
  | ⟨.agentPass _, _⟩ => true
  | _ => false

def BeforePasses (h : History) : ClusterOp → Prop
  | .flux _ call => powersUp call = true → ∀ ev ∈ h, isPass ev = false
  | _ => True

theorem MachineRule.not_isPass {m : Machine} {e : ClusterOp} (he : MachineRule m h e)
    (r : e.Ans) : isPass ⟨e, r⟩ = false := by
  cases e <;> first | rfl | exact he.elim

theorem reconcile_beforePasses (a : Config) : (reconcile a).Follows BeforePasses Anyhow [] := by
  have any : ∀ {h : History} {e : ClusterOp}, (∀ ev ∈ h, isPass ev = false) → BeforePasses h e := by
    intro h e hh
    cases e with
    | flux s call => exact fun _ => hh
    | _ => trivial
  refine reconcile_parts a (fun h _ => ∀ ev ∈ h, isPass ev = false) trivial ?_ ?_
    (fun _ _ => trivial) (fun _ => trivial) ?_
  · intro ms ev hev
    rw [mem_singleton.mp hev]
    rfl
  · intro base m ms hbase
    have kept := (machineTick_follows (a := a) m).keep
      (P := fun new => ∀ ev ∈ new, isPass ev = false) (forall_mem_nil _) fun new e r hnew he =>
        forall_mem_cons.mpr ⟨he.not_isPass r, hnew⟩
    refine (kept.after base).mono ?_ ?_
    · rintro past e ⟨new, rfl, hnew, -⟩
      exact any (forall_mem_append.mpr ⟨hnew, hbase⟩)
    · rintro past _ ⟨new, rfl, hnew, -⟩
      exact forall_mem_append.mpr ⟨hnew, hbase⟩
  · intro base item
    refine ((@migrationTick_follows a item).after base).mono ?_ fun _ _ _ => trivial
    rintro past e ⟨new, rfl, -, he⟩
    cases e with
    | flux s call =>
      intro hup
      have hdown : powersUp call = false := he
      simp [hdown] at hup
    | _ => trivial

end Kairon.Agent
