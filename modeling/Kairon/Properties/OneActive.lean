import Kairon.Properties.CommittedPhase

/-!
# One active migration per Machine

Admission looks at the load of the nodes and of the cluster, not at the other migrations of the same
Machine.

* `admitted_solo`: the invariant of the controller's tick
* `oneActive_run`: without rivals in a listing, a Machine has one active migration
-/

namespace Kairon

open Infra Model Cluster Controller Option Host

def aim (w : Store) (k : ObjectKey) : Option (ObjectKey × MigrationPhase) :=
  (w.migrations.find k).map fun g => (g.machineKey, g.status.phase)

/-- Each Machine is named by at most one active migration. -/
def OneActive (w : Store) : Prop :=
  ∀ k k' m p p', aim w k = some (m, p) → aim w k' = some (m, p') → p.isActive = true →
    p'.isActive = true → k = k'

def Contends (p : MigrationPhase) : Prop :=
  p.isPending = true ∨ p.isActive = true

/-- What happens besides the ticks of the controller: migrations are created, their specs are
edited but name the same Machine, and the agents move them on; none becomes active that way. -/
structure UserEdits (w w' : Store) : Prop where
  kept : ∀ k m p, aim w k = some (m, p) →
    ∃ p', aim w' k = some (m, p') ∧ (p'.isActive = true → p.isActive = true)
  created : ∀ k m p, aim w k = none → aim w' k = some (m, p) → p.isActive = false

/-- When the controller lists the migrations, no pending one stands beside another of the same
Machine that is pending or active. -/
def NoRivals : Guard ClusterOp.Ans GoErr Process Store :=
  fun c l =>
    match l with
    | .call _ ⟨.listMachineMigrations, .ok _⟩ =>
      ∀ k k' m p p', aim c.world k = some (m, p) → aim c.world k' = some (m, p') →
        p.isPending = true → Contends p' → k = k'
    | _ => True

abbrev admissionHost := clusterHost (· = .controller) UserEdits

variable {w w' : Store} {k : ObjectKey} {past : History}

theorem contends_of_advance {p q : MigrationPhase} (h : Advance p q) : Contends p := by
  cases h with
  | block pending | admitLive pending | admitCold pending => exact .inl pending
  | _ => exact .inr rfl

theorem aim_eq_of_call {e : ClusterOp} {a : e.Ans} (hw : w' ∈ outcomes w e a)
    (he : writesStatusOf k ⟨e, a⟩ = false) : aim w' k = aim w k := by
  rcases (mem_outcomes_iff.mp hw).2 with ⟨rfl, -⟩ | ⟨x, hx, rfl⟩
  · rfl
  · cases e with
    | patchMachine | patchMachineStatus =>
      cases hx
      rfl
    | patchMachineMigration item p =>
      cases hx
      rw [aim, Store.write, Table.find_edit]
      split
      · rw [map_map]
        rfl
      · rfl
    | patchMachineMigrationStatus site item s =>
      cases hx
      have hne : k ≠ item.key := by
        rintro rfl
        simp [writesStatusOf] at he
      rw [aim, find_write_status, if_neg hne]
      rfl
    | _ => cases hx

theorem aim_of_write {site : Site} {item : MachineMigration} {s : MachineMigrationStatus}
    {a : (ClusterOp.patchMachineMigrationStatus site item s).Ans}
    (hw : w' ∈ outcomes w (.patchMachineMigrationStatus site item s) a) :
    aim w' item.key = aim w item.key ∨
      aim w' item.key = (aim w item.key).map fun x => (x.1, x.2.patch s.phase) := by
  rcases (mem_outcomes_iff.mp hw).2 with ⟨rfl, -⟩ | ⟨x, hx, rfl⟩
  · exact .inl rfl
  · cases hx
    refine .inr ?_
    rw [aim, find_write_status, if_pos rfl, aim, map_map, map_map]
    rfl

structure Surveyed (w : Store) (past : History) : Prop where
  /-- The listed migrations are stored and name the same Machine. -/
  stored : ∀ item ∈ listed past, ∃ p, aim w item.key = some (item.machineKey, p)
  known : listed past ≠ [] → ∀ k m p, aim w k = some (m, p) → p.isActive = true →
    ∃ item ∈ listed past, item.key = k ∧ item.machineKey = m ∧ Contends item.status.phase
  /-- No two of the listed migrations contend for a Machine. -/
  apart : ∀ item ∈ listed past, ∀ item' ∈ listed past, item.machineKey = item'.machineKey →
    Contends item.status.phase → Contends item'.status.phase → item.key = item'.key

def Admitted (w : Store) (o : Option History) : Prop :=
  OneActive w ∧ ∀ past, o = some past → Surveyed w past

theorem Surveyed.nil : Surveyed w [] where
  stored _ hi := by cases hi
  known h := absurd rfl h
  apart _ hi := by cases hi

theorem Admitted.frame {past' : History} (h : Admitted w (some past)) (haim : aim w' = aim w)
    (hl : listed past' = listed past) : Admitted w' (some past') := by
  obtain ⟨hone, hs⟩ := h
  have hs := hs past rfl
  refine ⟨by rwa [OneActive, haim], ?_⟩
  rintro _ ⟨⟩
  exact ⟨by rw [hl, haim]; exact hs.stored, by rw [hl, haim]; exact hs.known,
    by rw [hl]; exact hs.apart⟩

theorem Admitted.list {gs : List MachineMigration} (hone : OneActive w)
    (hgs : gs.isPerm w.migrations.rows = true)
    (hG : ∀ k k' m p p', aim w k = some (m, p) → aim w k' = some (m, p') →
      p.isPending = true → Contends p' → k = k') :
    Admitted w (some (⟨.listMachineMigrations, .ok gs⟩ :: past)) := by
  have hperm := List.isPerm_iff.mp hgs
  have aim_of_mem : ∀ item ∈ gs, aim w item.key = some (item.machineKey, item.status.phase) := by
    intro item hi
    rw [aim, Table.find_eq_some_iff.mpr ⟨hperm.mem_iff.mp hi, rfl⟩]
    rfl
  refine ⟨hone, ?_⟩
  rintro _ ⟨⟩
  constructor
  · exact fun item hi => ⟨_, aim_of_mem item hi⟩
  · intro _ k m p hk hp
    obtain ⟨g, hg, heq⟩ := map_eq_some_iff.mp hk
    cases heq
    obtain ⟨hmem, hkey⟩ := Table.find_eq_some_iff.mp hg
    exact ⟨g, hperm.mem_iff.mpr hmem, hkey, rfl, .inr hp⟩
  · intro item hi item' hi' hm hc hc'
    have h₁ := aim_of_mem item hi
    have h₂ := aim_of_mem item' hi'
    rw [hm] at h₁
    rcases hc with hpend | hact
    · exact hG _ _ _ _ _ h₁ h₂ hpend hc'
    rcases hc' with hpend' | hact'
    · exact (hG _ _ _ _ _ h₂ h₁ hpend' (.inr hact)).symm
    · exact hone _ _ _ _ _ h₁ h₂ hact hact'

theorem Admitted.write {item : MachineMigration} {ev : Event ClusterOp.Ans} {p : MigrationPhase}
    (h : Admitted w (some past)) (hitem : item ∈ listed past)
    (hl : listed (ev :: past) = listed past) (hother : ∀ k, k ≠ item.key → aim w' k = aim w k)
    (hself : aim w' item.key = some (item.machineKey, p))
    (hp : p.isActive = true → Contends item.status.phase) : Admitted w' (some (ev :: past)) := by
  obtain ⟨hone, hs⟩ := h
  have hs := hs past rfl
  -- another active migration of the same Machine was listed, and it contends with this one
  have rival : ∀ k m p', k ≠ item.key → aim w' k = some (m, p') → p'.isActive = true →
      p.isActive = true → m ≠ item.machineKey := by
    rintro k m p' hk haim hact hpact rfl
    rw [hother k hk] at haim
    obtain ⟨item', hi', hkey', hm', hc'⟩ :=
      hs.known (List.ne_nil_of_mem hitem) k _ p' haim hact
    exact hk (hkey' ▸ (hs.apart item hitem item' hi' hm'.symm (hp hpact) hc').symm)
  refine ⟨?_, ?_⟩
  · intro k k' m p₁ p₂ h₁ h₂ hact₁ hact₂
    by_cases hk : k = item.key <;> by_cases hk' : k' = item.key
    · rw [hk, hk']
    · rw [hk, hself] at h₁
      cases h₁
      exact absurd rfl (rival k' _ p₂ hk' h₂ hact₂ hact₁)
    · rw [hk', hself] at h₂
      cases h₂
      exact absurd rfl (rival k _ p₁ hk h₁ hact₁ hact₂)
    · rw [hother k hk] at h₁
      rw [hother k' hk'] at h₂
      exact hone k k' m p₁ p₂ h₁ h₂ hact₁ hact₂
  · rintro _ ⟨⟩
    constructor
    · rw [hl]
      intro x hx
      by_cases hk : x.key = item.key
      · obtain ⟨q, hq⟩ := hs.stored x hx
        obtain ⟨q', hq'⟩ := hs.stored item hitem
        rw [hk, hq'] at hq
        have hm : item.machineKey = x.machineKey := (Prod.mk.inj (Option.some.inj hq)).1
        exact ⟨p, by rw [hk, hself, hm]⟩
      · rw [hother x.key hk]
        exact hs.stored x hx
    · rw [hl]
      intro hne k m p' haim hact
      by_cases hk : k = item.key
      · rw [hk, hself] at haim
        cases haim
        exact ⟨item, hitem, hk.symm, rfl, hp hact⟩
      · rw [hother k hk] at haim
        exact hs.known hne k m p' haim hact
    · rw [hl]
      exact hs.apart

theorem Admitted.call {e : ClusterOp} {a : e.Ans} (h : Admitted w (some past))
    (he : ControllerRule past e) (hw : w' ∈ outcomes w e a)
    (hG : ∀ gs, (⟨e, a⟩ : Event ClusterOp.Ans) = ⟨.listMachineMigrations, .ok gs⟩ →
      ∀ k k' m p p', aim w k = some (m, p) → aim w k' = some (m, p') → p.isPending = true →
        Contends p' → k = k') : Admitted w' (some (⟨e, a⟩ :: past)) := by
  have unmoved : (∀ k, writesStatusOf k ⟨e, a⟩ = false) → aim w' = aim w :=
    fun hno => funext fun k => aim_eq_of_call hw (hno k)
  cases e with
  | listMachineMigrations =>
    obtain ⟨ha, hw⟩ := mem_outcomes_iff.mp hw
    obtain ⟨rfl, -⟩ := hw.resolve_right fun ⟨x, hx, _⟩ => by cases hx
    cases a with
    | error e => exact h.frame rfl rfl
    | ok gs => exact Admitted.list h.1 ha (hG gs rfl)
  | listMachineMigrationsWithSelector node =>
    -- this listing is the agents'
    cases he with
    | tick call => exact call.elim
    | list eq => cases eq
    | place snapshot k p eq => cases eq
    | migration item new base eq turn about rule => exact rule.elim
  | patchMachineMigrationStatus site item s =>
    obtain ⟨new, base, rfl, turn, about, hcase⟩ := he.status_write
    have hl : listed (new ++ base) = listed base := listed_append fun ev hev => (about ev hev).1
    have hitem : item ∈ listed (new ++ base) := hl ▸ turn.listed
    obtain ⟨p, hp⟩ := (h.2 _ rfl).stored item hitem
    have hother : ∀ k, k ≠ item.key → aim w' k = aim w k := fun k hk =>
      aim_eq_of_call hw (by simpa [writesStatusOf] using Ne.symm hk)
    rcases aim_of_write hw with hsame | hnew
    · refine h.frame (funext fun k => ?_) rfl
      by_cases hk : k = item.key
      · rw [hk, hsame]
      · exact hother k hk
    · rw [hp] at hnew
      refine h.write hitem rfl hother hnew fun hact => ?_
      rcases hcase with ⟨-, hmove, -⟩ | ⟨-, -, hs⟩
      · exact contends_of_advance hmove
      · rw [hs] at hact
        cases hact
  | _ => exact h.frame (unmoved fun _ => rfl) rfl

theorem admitted_solo :
    Solo admissionHost .controller (Rule .controller) (Ends .controller) NoRivals Admitted where
  start h := ⟨h.1, fun past hp => by cases hp; exact Surveyed.nil⟩
  call h _ he hG hw := h.call he hw fun gs heq => by
    cases heq
    exact hG
  stop h _ := ⟨h.1, nofun⟩
  crash h _ _ := ⟨h.1, fun past hp => by cases hp⟩
  env := by
    rintro c w ⟨hone, hs⟩ hw -
    -- what is active now was active before, under the same Machine
    have before : ∀ k m p, aim w k = some (m, p) → p.isActive = true →
        ∃ p₀, aim c.world k = some (m, p₀) ∧ p₀.isActive = true := by
      intro k m p hk hact
      cases hold : aim c.world k with
      | none =>
        simp [hw.created k m p hold hk] at hact
      | some x =>
        obtain ⟨m₀, p₀⟩ := x
        obtain ⟨p', hp', hkept⟩ := hw.kept k m₀ p₀ hold
        rw [hk] at hp'
        cases hp'
        exact ⟨p₀, rfl, hkept hact⟩
    refine ⟨fun k k' m p p' hk hk' hact hact' => ?_, fun past hp => ?_⟩
    · obtain ⟨p₀, h₀, hact₀⟩ := before k m p hk hact
      obtain ⟨p₀', h₀', hact₀'⟩ := before k' m p' hk' hact'
      exact hone k k' m p₀ p₀' h₀ h₀' hact₀ hact₀'
    · have hs := hs past hp
      constructor
      · intro item hi
        obtain ⟨p, hp⟩ := hs.stored item hi
        exact (hw.kept _ _ _ hp).imp fun _ h => h.1
      · intro hne k m p hk hact
        obtain ⟨p₀, h₀, hact₀⟩ := before k m p hk hact
        exact hs.known hne k m p₀ h₀ hact₀
      · exact hs.apart

/-- Each Machine is named by at most one active migration in every state that ticks of the
controller reach, whatever is created and edited in between, as long as no listing of the
controller shows a pending migration beside another one of its Machine that is pending or active. -/
theorem oneActive_run (w : Store) (h : OneActive w) {tr : List ClusterLabel} {c : ClusterConf}
    (run : Run admissionHost NoRivals (Conf.idle w) tr c) : OneActive c.world :=
  (solo_run admitted_solo run (Conf.follows_idle _ _ _) ⟨h, nofun⟩).1

/-! ## Two migrations of one Machine -/

def sampleController : Controller.Config := ⟨0, 0, fun _ => .ok 2⟩

def freshMigration (name machine : String) : MachineMigration :=
  let item := plainMigration name machine .unset
  { item with
    metadata := plainMeta name []
    status := { item.status with
      sourceNode := "", targetNode := "", effectiveStrategy := "", runtimeID := ""
      sessionID := "", transferID := "", backend := "", dataPlaneEncrypted := false } }

def evacuating : Store :=
  storeOf [plainMachine "vm" "node-a" twoCores]
    [freshMigration "mig-1" "vm", freshMigration "mig-2" "vm"]

/-- Two Machines are to leave the node, one of which has been migrated before. -/
def draining : Store :=
  storeOf [plainMachine "vm" "node-a" twoCores, plainMachine "vm-2" "node-a" twoCores]
    [plainMigration "mig-0" "vm" .succeeded, freshMigration "mig-1" "vm",
      freshMigration "mig-2" "vm-2"]

def admissionTick : List ClusterMove :=
  .start .controller (Controller.reconcile sampleController) ::
    List.replicate 18 (.call .controller works 0)

theorem allows_admissionTick : admissionHost.Allows admissionTick := ⟨rfl, sampleController, rfl⟩

theorem exists_of_aim {m : ObjectKey} {p : MigrationPhase} (h : aim w k = some (m, p)) :
    ∃ g ∈ w.migrations.rows, g.key = k ∧ g.machineKey = m ∧ g.status.phase = p := by
  obtain ⟨g, hg, heq⟩ := map_eq_some_iff.mp h
  obtain ⟨hmem, hk⟩ := Table.find_eq_some_iff.mp hg
  exact ⟨g, hmem, hk, congrArg Prod.fst heq, congrArg Prod.snd heq⟩

theorem oneActive_of_inactive (h : ∀ g ∈ w.migrations.rows, g.status.phase.isActive = false) :
    OneActive w := by
  intro k k' m p p' hk _ hact
  obtain ⟨g, hg, -, -, rfl⟩ := exists_of_aim hk
  simp [h g hg] at hact

/-- Two new migrations of one Machine are admitted in the same tick. -/
theorem rivals_both_admitted : OneActive evacuating ∧
      ∃ tr c, Run admissionHost (fun _ _ => True) (Conf.idle evacuating) tr c ∧
        ¬OneActive c.world := by
  refine ⟨oneActive_of_inactive (by decide), _, _, run_of_play allows_admissionTick rfl,
    fun hone => ?_⟩
  have : (⟨"default", "mig-1"⟩ : ObjectKey) = ⟨"default", "mig-2"⟩ :=
    hone _ _ ⟨"default", "vm"⟩ .starting .starting rfl rfl rfl rfl
  exact absurd this (by decide)

def noRivals (c : ClusterConf) : ClusterLabel → Bool
  | .call _ ⟨.listMachineMigrations, .ok _⟩ =>
    c.world.migrations.rows.all fun g => c.world.migrations.rows.all fun g' =>
      g.machineKey = g'.machineKey → g.status.phase.isPending = true →
        g'.status.phase.isPending = true ∨ g'.status.phase.isActive = true → g.key = g'.key
  | _ => true

theorem noRivals_sound (c : ClusterConf) (l : ClusterLabel) (h : noRivals c l = true) :
    NoRivals c l := by
  unfold NoRivals
  split
  · intro k k' m p p' hk hk' hpend hcont
    obtain ⟨g, hg, rfl, hm, rfl⟩ := exists_of_aim hk
    obtain ⟨g', hg', rfl, hm', rfl⟩ := exists_of_aim hk'
    have := List.all_eq_true.mp (List.all_eq_true.mp h g hg) g' hg'
    exact of_decide_eq_true this (hm.trans hm'.symm) hpend hcont
  · trivial

theorem oneActive_run_draining : ∃ tr c, OneActive draining ∧
      Run admissionHost NoRivals (Conf.idle draining) tr c ∧
      aim c.world ⟨"default", "mig-1"⟩ = some (⟨"default", "vm"⟩, .starting) ∧
      aim c.world ⟨"default", "mig-2"⟩ = some (⟨"default", "vm-2"⟩, .starting) ∧
      OneActive c.world := by
  have hone : OneActive draining := oneActive_of_inactive (by decide)
  have run := play_sound noRivals_sound (c := .idle draining) allows_admissionTick rfl
  exact ⟨_, _, hone, run, rfl, rfl, oneActive_run _ hone run⟩

end Kairon
