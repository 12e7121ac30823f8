import Kairon.Properties.OneActive

/-!
# Exclusive CPUs on a node

The scheduler gives a pinned Machine CPUs that no Machine in the list of the tick holds on the node;
what the tick itself puts there is not in it. Migrations move a Machine with the CPUs it has.

* `exclusively_solo`: the invariant of the controller's tick
* `exclusive_run`: CPU sets on a node stay disjoint in careful runs
-/

namespace Kairon

open Infra Model Cluster Controller List Option

/-- The node a Machine is on and the CPUs it has there for itself: that of a pinned Machine which
is not being deleted. -/
def held (m : Machine) : Option (String × List UInt32) :=
  if m.metadata.deleting = false ∧ m.spec.resources.cpuPinning = true ∧ m.spec.nodeName ≠ "" then
    some (m.spec.nodeName, m.spec.resources.allocatedCpuSet)
  else none

variable (w : Store)

def holding (k : ObjectKey) : Option (String × List UInt32) := (w.machines.find k).bind held

def Exclusive : Prop :=
  ∀ k k' node cpus cpus', k ≠ k' → holding w k = some (node, cpus) →
    holding w k' = some (node, cpus') → cpus.Disjoint cpus'

/-- The Machines that have CPUs on the node were there, with these CPUs, before the tick began:
none but `k` has been reassigned by it. -/
def Undisturbed (past : History) (k : ObjectKey) (node : String) : Prop :=
  ∀ k' cpus, k' ≠ k → holding w k' = some (node, cpus) → ∀ ev ∈ past, reassigns k' ev = false

def LandsFree (k : ObjectKey) (p : MachinePatch) : Prop :=
  ∀ m node cpus, w.machines.find k = some m → held (m.patch p) = some (node, cpus) →
    held m = some (node, cpus) ∨
      ∀ k' cpus', k' ≠ k → holding w k' = some (node, cpus') → cpus.Disjoint cpus'

/-- What a patch of the Machine `k` has to find: nothing the tick has put on the node if it hands
out CPUs, the CPUs of the Machine free if it does not. -/
def Clear (past : History) (k : ObjectKey) (p : MachinePatch) : Prop :=
  if p.allocatedCpuSet = none then LandsFree w k p
  else ∀ node, p.nodeName = some node → Undisturbed w past k node

/-- The patches of Machines find what they have to. -/
def Careful : Guard ClusterOp.Ans GoErr Process Store :=
  fun c l =>
    match l with
    | .call t ⟨.patchMachine _ k p, _⟩ => ∀ past, c.past t = some past → Clear c.world past k p
    | _ => True

/-- What happens besides the ticks of the controller: Machines are created, deleted and edited and
their statuses written, but none comes to CPUs on a node that way. -/
def GainsNone (w' : Store) : Prop :=
  ∀ k node cpus, holding w' k = some (node, cpus) →
    ∃ cpus₀, holding w k = some (node, cpus₀) ∧ cpus ⊆ cpus₀

abbrev placementHost := clusterHost (· = .controller) GainsNone

variable {w} {w' : Store} {k : ObjectKey} {past : History} {e : ClusterOp} {a : e.Ans}

/-! ## What a call does to the CPUs of a Machine -/

theorem held_eq_some {m : Machine} {node : String} {cpus : List UInt32}
    (h : held m = some (node, cpus)) : m.metadata.deleting = false ∧ m.spec.nodeName = node ∧
      m.spec.resources.allocatedCpuSet = cpus := by
  obtain ⟨hm, ⟨⟩⟩ := ite_none_right_eq_some.mp h
  exact ⟨hm.1, rfl, rfl⟩

theorem held_patch {m : Machine} {p : MachinePatch} (hnode : p.nodeName = none)
    (hres : p.resources = none) (hcpus : p.allocatedCpuSet = none) : held (m.patch p) = held m := by
  simp [held, Machine.patch, hnode, hres, hcpus]

theorem holding_of_call (hw : w' ∈ outcomes w e a) (k : ObjectKey) : holding w' k = holding w k ∨
      reassigns k ⟨e, a⟩ = true ∧ ∃ site p m, e = .patchMachine site k p ∧
        w.machines.find k = some m ∧ holding w' k = held (m.patch p) := by
  rcases (mem_outcomes_iff.mp hw).2 with ⟨rfl, -⟩ | ⟨x, hx, rfl⟩
  · exact .inl rfl
  · cases e with
    | patchMachineMigration | patchMachineMigrationStatus =>
      cases hx
      exact .inl rfl
    | patchMachineStatus k' s =>
      cases hx
      refine .inl ?_
      rw [holding, Store.write, Table.find_edit, holding]
      split
      · cases w.machines.find k <;> rfl
      · rfl
    | patchMachine site k' p =>
      cases hx
      rw [holding, Store.write, Table.find_edit, holding]
      split
      · next hk =>
        subst hk
        cases hm : w.machines.find k with
        | none => exact .inl rfl
        | some m =>
          by_cases hr : reassigns k ⟨.patchMachine site k p, a⟩ = true
          · exact .inr ⟨hr, site, p, m, rfl, rfl, rfl⟩
          · simp only [reassigns, decide_true, Bool.true_and, Bool.or_eq_true, not_or,
              not_isSome_iff_eq_none] at hr
            exact .inl (held_patch hr.1.1 hr.1.2 hr.2)
      · exact .inl rfl
    | _ => cases hx

/-! ## The invariant -/

/-- What a tick has been told of the CPUs in use: a Machine that has CPUs now had them in the
answer of the API server, or the tick has reassigned it. -/
def Accounted (w : Store) (past : History) : Prop :=
  ∀ answer, (⟨.listMachines, .ok answer⟩ : Event ClusterOp.Ans) ∈ past →
    ∀ k node cpus, holding w k = some (node, cpus) →
      (∃ m ∈ answer, m.key = k ∧ ∃ cpus₀, held m = some (node, cpus₀) ∧ cpus ⊆ cpus₀) ∨
        ∃ ev ∈ past, reassigns k ev = true

theorem Accounted.call (h : Accounted w past) (hw : w' ∈ outcomes w e a) :
    Accounted w' (⟨e, a⟩ :: past) := by
  intro answer hanswer k node cpus hk
  rcases mem_cons.mp hanswer with heq | hanswer
  · -- the answer has just come
    cases heq
    obtain ⟨ha, hw⟩ := mem_outcomes_iff.mp hw
    obtain ⟨rfl, -⟩ := hw.resolve_right fun ⟨x, hx, _⟩ => by cases hx
    obtain ⟨m, hm, hheld⟩ := bind_eq_some_iff.mp hk
    obtain ⟨hmem, hkey⟩ := Table.find_eq_some_iff.mp hm
    exact .inl ⟨m, (isPerm_iff.mp ha).mem_iff.mpr hmem, hkey, cpus, hheld, List.Subset.refl _⟩
  · rcases holding_of_call hw k with hsame | ⟨hr, -⟩
    · rw [hsame] at hk
      refine (h answer hanswer k node cpus hk).imp_right ?_
      rintro ⟨ev, hev, hr⟩
      exact ⟨ev, mem_cons_of_mem _ hev, hr⟩
    · exact .inr ⟨_, mem_cons_self, hr⟩

theorem Accounted.hands_out (h : Accounted w past) {snapshot : List Machine} {p : MachinePatch}
    {node : String} {cpus : List UInt32} (hplaced : Placed snapshot k p)
    (hshown : Shown snapshot past) (hcpus : p.allocatedCpuSet = some cpus)
    (hnode : p.nodeName = some node) (hG : Undisturbed w past k node) {k' : ObjectKey}
    {cpus' : List UInt32} (hne : k' ≠ k) (hk' : holding w k' = some (node, cpus')) :
    cpus.Disjoint cpus' := by
  obtain ⟨node', hnode', hfree⟩ := hplaced.cpus hcpus
  obtain rfl : node' = node := Option.some.inj (hnode'.symm.trans hnode)
  have hno : ¬∃ ev ∈ past, reassigns k' ev = true := by
    rintro ⟨ev, hev, hr⟩
    simp [hG k' cpus' hne hk' ev hev] at hr
  -- the other Machine is in the list the allocator was shown
  obtain ⟨answer, hanswer, hlist⟩ := hshown
  obtain ⟨m, hm, rfl, cpus₀, hheld, hsub⟩ :=
    (h answer hanswer k' node' cpus' hk').resolve_right hno
  obtain ⟨hlive, hon, rfl⟩ := held_eq_some hheld
  exact disjoint_of_subset_right hsub
    (hfree m ((hlist m hm).resolve_right hno) hon hlive)

theorem Accounted.patch (h : Accounted w past) (hex : Exclusive w) {site : Site} {p : MachinePatch}
    {m : Machine} (he : ControllerRule past (.patchMachine site k p)) (hG : Clear w past k p)
    (hm : w.machines.find k = some m) {node : String} {cpus : List UInt32}
    (hheld : held (m.patch p) = some (node, cpus)) {k' : ObjectKey} {cpus' : List UInt32}
    (hne : k' ≠ k) (hk' : holding w k' = some (node, cpus')) : cpus.Disjoint cpus' := by
  unfold Clear at hG
  split at hG
  · rcases hG m node cpus hm hheld with hsame | hfree
    · exact hex k k' node cpus cpus' hne.symm (by rw [holding, hm]; exact hsame) hk'
    · exact hfree k' cpus' hne hk'
  · next hsome =>
    obtain ⟨cpus₀, hcpus⟩ := ne_none_iff_exists'.mp hsome
    obtain ⟨snapshot, hplaced, hshown⟩ := he.hands_out hsome
    obtain ⟨node₀, hnode₀, -⟩ := hplaced.cpus hcpus
    obtain ⟨-, rfl, hset⟩ := held_eq_some hheld
    have hnode : (m.patch p).spec.nodeName = node₀ := by rw [Machine.nodeName_patch, hnode₀]; rfl
    have hset : cpus₀ = cpus := by simpa [Machine.patch, hcpus] using hset
    rw [hnode] at hk'
    exact hset ▸ h.hands_out hplaced hshown hcpus hnode₀ (hG _ hnode₀) hne hk'

theorem Accounted.exclusive (h : Accounted w past) (hex : Exclusive w)
    (he : ControllerRule past e) (hw : w' ∈ outcomes w e a)
    (hG : ∀ site k p, e = .patchMachine site k p → Clear w past k p) : Exclusive w' := by
  -- of two Machines at most one is patched
  intro k k' node cpus cpus' hne hk hk'
  rcases holding_of_call hw k with hs | ⟨-, site, p, m, rfl, hm, hheld⟩ <;>
    rcases holding_of_call hw k' with hs' | ⟨-, site', p', m', heq, hm', hheld'⟩
  · exact hex k k' node cpus cpus' hne (hs ▸ hk) (hs' ▸ hk')
  · subst heq
    exact disjoint_symm
      (h.patch hex he (hG site' k' p' rfl) hm' (hheld' ▸ hk') hne (hs ▸ hk))
  · exact h.patch hex he (hG site k p rfl) hm (hheld ▸ hk) hne.symm (hs' ▸ hk')
  · cases heq
    exact absurd rfl hne

def Exclusively (w : Store) (o : Option History) : Prop :=
  Exclusive w ∧ ∀ past, o = some past → Accounted w past

theorem exclusively_solo :
    Solo placementHost .controller (Rule .controller) (Ends .controller) Careful Exclusively where
  start h := ⟨h.1, fun past hp => by
    cases hp
    exact nofun⟩
  call := by
    intro c e a w past h hpast he hG hw
    have hacc := h.2 past rfl
    refine ⟨hacc.exclusive h.1 he hw ?_, fun past' hp => ?_⟩
    · rintro site k p rfl
      exact hG past hpast
    · cases hp
      exact hacc.call hw
  stop h _ := ⟨h.1, nofun⟩
  crash h _ _ := ⟨h.1, fun past hp => by cases hp⟩
  env := by
    rintro c w ⟨hex, hacc⟩ hw -
    refine ⟨fun k k' node cpus cpus' hne hk hk' => ?_, fun past hp answer ha k node cpus hk => ?_⟩
    · obtain ⟨cpus₀, h₀, hsub⟩ := hw k node cpus hk
      obtain ⟨cpus₀', h₀', hsub'⟩ := hw k' node cpus' hk'
      exact disjoint_of_subset_left hsub
        (disjoint_of_subset_right hsub' (hex k k' node cpus₀ cpus₀' hne h₀ h₀'))
    · obtain ⟨cpus₀, h₀, hsub⟩ := hw k node cpus hk
      refine (hacc past hp answer ha k node cpus₀ h₀).imp_left ?_
      rintro ⟨m, hm, hkey, cpus₁, hheld, hsub₁⟩
      exact ⟨m, hm, hkey, cpus₁, hheld, List.Subset.trans hsub hsub₁⟩

/-- The CPU sets of the pinned Machines on a node are disjoint in every state that ticks of the
controller reach, whatever is created, edited and deleted in between, as long as CPUs are handed
out on a node only before the tick has reassigned another Machine that has CPUs there, and
Machines are moved only to nodes where their CPUs are free. -/
theorem exclusive_run (w : Store) (h : Exclusive w) {tr : List ClusterLabel} {c : ClusterConf}
    (run : Run placementHost Careful (Conf.idle w) tr c) : Exclusive c.world :=
  (solo_run exclusively_solo run (Conf.follows_idle _ _ _) ⟨h, nofun⟩).1

/-! ## CPUs that are shared -/

def pinnedMachine (name node : String) (cpus : List UInt32) : Machine :=
  plainMachine name node { twoCores with cpuPinning := true, allocatedCpuSet := cpus }

def bothPending : Store :=
  storeOf [pinnedMachine "vm-1" "" [], pinnedMachine "vm-2" "" []] []

def cuttingOver : Store :=
  storeOf [pinnedMachine "vm-1" "node-a" [0, 1], pinnedMachine "vm-2" "node-b" [0, 1]]
    [plainMigration "mig" "vm-1" .cutover]

def onePending : Store :=
  storeOf [pinnedMachine "vm-1" "node-a" [0, 1], pinnedMachine "vm-2" "" []] []

def controllerTick (n : Nat) : List ClusterMove :=
  .start .controller (Controller.reconcile sampleController) ::
    List.replicate n (.call .controller works 0)

theorem exclusive_of_apart (h : ∀ m ∈ w.machines.rows, ∀ m' ∈ w.machines.rows, m.key ≠ m'.key →
    (held m).map Prod.fst = (held m').map Prod.fst → held m = none) : Exclusive w := by
  intro k k' node cpus cpus' hne hk hk'
  obtain ⟨m, hm, hheld⟩ := bind_eq_some_iff.mp hk
  obtain ⟨m', hm', hheld'⟩ := bind_eq_some_iff.mp hk'
  obtain ⟨hmem, rfl⟩ := Table.find_eq_some_iff.mp hm
  obtain ⟨hmem', rfl⟩ := Table.find_eq_some_iff.mp hm'
  have hnone := h m hmem m' hmem' hne (by rw [hheld, hheld']; rfl)
  simp [hheld] at hnone

theorem not_exclusive {node : String} (h₁ : holding w ⟨"default", "vm-1"⟩ = some (node, [0, 1]))
    (h₂ : holding w ⟨"default", "vm-2"⟩ = some (node, [0, 1])) : ¬Exclusive w :=
  fun hex => hex _ _ node _ _ (by decide) h₁ h₂ mem_cons_self mem_cons_self

/-- One tick gives the same CPUs to two Machines that it places on one node; another moves a
Machine to a node where its CPUs are in use. -/
theorem pinned_cpus_shared : (Exclusive bothPending ∧
      ∃ tr c, Run placementHost (fun _ _ => True) (Conf.idle bothPending) tr c ∧
        ¬Exclusive c.world) ∧
    (Exclusive cuttingOver ∧
      ∃ tr c, Run placementHost (fun _ _ => True) (Conf.idle cuttingOver) tr c ∧
        ¬Exclusive c.world) := by
  have may₁ : placementHost.Allows (controllerTick 24) := ⟨rfl, sampleController, rfl⟩
  have may₂ : placementHost.Allows (controllerTick 10) := ⟨rfl, sampleController, rfl⟩
  exact ⟨⟨exclusive_of_apart (by decide), _, _, Host.run_of_play may₁ rfl,
    not_exclusive rfl rfl⟩, exclusive_of_apart (by decide), _, _, Host.run_of_play may₂ rfl,
    not_exclusive rfl rfl⟩

def careful (c : ClusterConf) : ClusterLabel → Bool
  | .call t ⟨.patchMachine _ _ p, _⟩ =>
    p.allocatedCpuSet ≠ none ∧ (c.past t).all fun past =>
      past.all fun ev => c.world.machines.rows.all fun m => !reassigns m.key ev
  | _ => true

theorem careful_sound (c : ClusterConf) (l : ClusterLabel) (h : careful c l = true) :
    Careful c l := by
  unfold Careful
  split
  · intro past hpast
    simp only [careful, hpast, all_some, decide_eq_true_eq] at h
    obtain ⟨hsome, hall⟩ := h
    rw [Clear, if_neg hsome]
    intro node _ k' cpus _ hk' ev hev
    obtain ⟨m, hm, -⟩ := bind_eq_some_iff.mp hk'
    obtain ⟨hmem, rfl⟩ := Table.find_eq_some_iff.mp hm
    have := List.all_eq_true.mp (List.all_eq_true.mp hall ev hev) m hmem
    simpa using this
  · trivial

theorem exclusive_run_placed :
    ∃ tr c, Exclusive onePending ∧ Run placementHost Careful (Conf.idle onePending) tr c ∧
      holding c.world ⟨"default", "vm-1"⟩ = some ("node-a", [0, 1]) ∧
      holding c.world ⟨"default", "vm-2"⟩ = some ("node-a", [2, 3]) ∧ Exclusive c.world := by
  have hex : Exclusive onePending := exclusive_of_apart (by decide)
  have may : placementHost.Allows (controllerTick 21) := ⟨rfl, sampleController, rfl⟩
  have run := Host.play_sound careful_sound (c := .idle onePending) may rfl
  exact ⟨_, _, hex, run, rfl, rfl, exclusive_run _ hex run⟩

end Kairon
