import Kairon.Properties.CommittedPhase

/-!
# The source runtime after a completed transfer

Each tick reconciles the Machines before the migrations, and the Machine reconcile does not look at
migrations. After a transfer only what FluxVM reports of the source runtime keeps it down.

* `watched_inductive`: the agent of the source after a completed transfer
* `completed_source_stays_down`: in calm runs it brings nothing up
-/

namespace Kairon

open Infra GoText Model Cluster Agent List Pasts

variable {node : String} {k : ObjectKey} {past : History}

abbrev fullHost := clusterHost (fun _ => True) fun _ _ => True

/-- The source adapter of `node` reports the transfer of a migration of the Machine `k` as
completed. -/
def reportsCompleted (node : String) (k : ObjectKey) : ClusterLabel → Bool
  | .call (.agent n) ⟨.source item (.status _ _), .ok transfer⟩ =>
    n = node ∧ item.machineKey = k ∧ TransferVerdict.of transfer = .done
  | .call (.agent n) ⟨.source item (.start _), .ok transfer⟩ =>
    n = node ∧ item.machineKey = k ∧ TransferVerdict.of transfer = .done
  | _ => false

def bringsUp (node : String) (k : ObjectKey) : ClusterLabel → Bool
  | .call (.agent n) ⟨.flux (.machine m) call, _⟩ => n = node ∧ m.key = k ∧ powersUp call
  | _ => false

structure Harmless (m : Machine) (rec : RuntimeRecord) : Prop where
  paused : equalFold rec.status "Paused" = true → m.desiredPowerState ≠ "Running"
  stopped : normalizePhase rec.status ≠ "Stopped"

def Calm (m : Machine) : (call : FluxCall) → call.Ans → Prop
  | .get id, .ok rec => id = m.status.runtimeID → Harmless m rec
  | .lookupByName name, .ok (some rec) => name = m.key.runtimeName → Harmless m rec
  | .lookupByName name, .ok none =>
    name = m.key.runtimeName → m.metadata.annotationTrue annotationAdoptOnly = true
  | _, _ => True

def CalmFor (k : ObjectKey) : Event ClusterOp.Ans → Prop
  | ⟨.flux (.machine m) call, a⟩ => m.key = k → Wanted m → Calm m call a
  | _ => True

/-- In the Machine loop of a tick, which ends with the listing of the migrations, FluxVM gives the
agent of `node` no reason to bring up the runtime of the Machine `k`. -/
def CalmLookups (node : String) (k : ObjectKey) : Guard ClusterOp.Ans GoErr Process Store :=
  fun c l =>
    match l with
    | .call (.agent n) ev => n = node → ∀ past, c.past (.agent n) = some past →
        (∀ ev' ∈ past, lists ev' = false) → CalmFor k ev
    | _ => True

def Watched (node : String) (k : ObjectKey) (t : Process) (past : History) : Prop :=
  t = .agent node → (∃ ev ∈ past, lists ev = true) ∨ ∀ ev ∈ past, CalmFor k ev

theorem watched_inductive (node : String) (k : ObjectKey) :
    Inductive fullHost (fun t h e => True ∧ Rule t h e) Ends (CalmLookups node k)
      (fun _ ps => ∀ t past, ps t = some past → Watched node k t past) where
  start h _ := forall_update
    (fun past hp _ => by cases hp; exact .inr (forall_mem_nil _)) fun t past _ => h t past
  call := by
    intro c t e a w past h hpast _ hG _
    refine forall_update ?_ fun u past' _ => h u past'
    rintro past' ⟨⟩ rfl
    rcases h _ past hpast rfl with ⟨ev, hev, hl⟩ | hcalm
    · exact .inl ⟨ev, mem_cons_of_mem _ hev, hl⟩
    · by_cases hlist : ∀ ev ∈ past, lists ev = false
      · exact .inr (forall_mem_cons.mpr ⟨hG rfl past hpast hlist, hcalm⟩)
      · push Not at hlist
        obtain ⟨ev, hev, hl⟩ := hlist
        exact .inl ⟨ev, mem_cons_of_mem _ hev, by simpa using hl⟩
  stop h _ _ := forall_update nofun fun t past _ => h t past
  crash h _ _ _ := forall_update nofun fun t past _ => h t past
  env h _ _ := h

theorem exists_lists_of_mem_listed {h : History} {item : MachineMigration}
    (hi : item ∈ listed h) : ∃ ev ∈ h, lists ev = true := by
  by_contra hno
  have hnil : listed (h ++ []) = listed [] :=
    listed_append fun ev hev => Bool.eq_false_iff.mpr fun hl => hno ⟨ev, hev, hl⟩
  rw [append_nil] at hnil
  rw [hnil] at hi
  cases hi

theorem lists_of_source {item : MachineMigration} {call : SourceCall}
    (he : AgentRule node past (.source item call)) : ∃ ev ∈ past, lists ev = true := by
  cases he with
  | tick h => exact h.elim
  | machine m new base eq aside rule => exact rule.elim
  | migration x new base eq source turn about settled rule =>
    obtain ⟨ev, hev, hl⟩ := exists_lists_of_mem_listed turn.listed
    exact ⟨ev, eq ▸ mem_append_right _ hev, hl⟩

theorem not_powersUp {m : Machine} {call : FluxCall} (hw : Watched node k (.agent node) past)
    (he : AgentRule node past (.flux (.machine m) call)) (hk : m.key = k) :
    powersUp call = false := by
  cases he with
  | tick h => exact h.elim
  | migration x new base eq source turn about settled rule => exact rule
  | machine x new base eq aside rule =>
    have hcalm : ∀ ev ∈ new, CalmFor k ev := by
      rcases hw rfl with ⟨ev, hev, hl⟩ | hcalm
      · rw [(aside ev hev).1] at hl
        cases hl
      · exact fun ev hev => hcalm ev (eq ▸ mem_append_left _ hev)
    have found : ∀ rec, Wanted m → Found m rec new → Harmless m rec := by
      rintro rec hwanted (⟨-, hmem⟩ | hmem)
      · exact hcalm _ hmem hk hwanted rfl
      · exact hcalm _ hmem hk hwanted rfl
    have missing : Wanted m → Missing m new →
        m.metadata.annotationTrue annotationAdoptOnly = true :=
      fun hwanted hmem => hcalm _ hmem hk hwanted rfl
    cases call with
    | resume id =>
      obtain ⟨rfl, hwanted, hrun, rec, hfound, -, hpaused⟩ := rule
      exact absurd hrun ((found rec hwanted hfound).paused hpaused)
    | start id =>
      obtain ⟨rfl, hwanted, rec, hfound, -, hstopped⟩ := rule
      exact absurd hstopped (found rec hwanted hfound).stopped
    | createWithVfio | createSandbox | fork =>
      obtain ⟨rfl, hwanted, hmissing, hadopt⟩ := rule
      rw [missing hwanted hmissing] at hadopt
      cases hadopt
    | _ => rfl

theorem lists_of_reportsCompleted {c₁ c₂ : ClusterConf} {l : ClusterLabel}
    (hf : c₁.Follows (fun t h e => True ∧ Rule t h e) Ends) (hs : Step fullHost c₁ l c₂)
    (hl : reportsCompleted node k l = true) :
    ∀ past, c₂.past (.agent node) = some past → ∃ ev ∈ past, lists ev = true := by
  intro past hpast
  cases hs with
  | @call t e kont past₁ a w at_call out =>
    have hrule := (hf _ _ at_call).1.2
    have key : ∃ item call, e = .source item call ∧ t = .agent node := by
      unfold reportsCompleted at hl
      split at hl
      next n item _ _ _ heq =>
        cases heq
        exact ⟨item, _, rfl, congrArg _ (of_decide_eq_true hl).1⟩
      next n item _ _ heq =>
        cases heq
        exact ⟨item, _, rfl, congrArg _ (of_decide_eq_true hl).1⟩
      · cases hl
    obtain ⟨item, call, rfl, rfl⟩ := key
    rw [Conf.past_put, Function.update_self] at hpast
    cases hpast
    obtain ⟨ev, hev, hlist⟩ := lists_of_source hrule
    exact ⟨ev, mem_cons_of_mem _ hev, hlist⟩
  | _ => cases hl

/-- After the transfer of a Machine has been reported completed to the source agent, that agent
issues no Resume, Start or Create for the Machine, in any interleaving with the controller and the
other agents and under any failures, as long as FluxVM gives its Machine loop no reason to. -/
theorem completed_source_stays_down (node : String) (k : ObjectKey) (w : Store)
    {tr₁ tr₂ : List ClusterLabel} {c₁ c₂ c₃ : ClusterConf} {l : ClusterLabel}
    (before : Run fullHost (fun _ _ => True) (Conf.idle w) tr₁ c₁) (report : Step fullHost c₁ l c₂)
    (hl : reportsCompleted node k l = true) (after : Run fullHost (CalmLookups node k) c₂ tr₂ c₃) :
    ∀ l' ∈ tr₂, bringsUp node k l' = false := by
  intro l' hl'
  have hf₁ : c₁.Follows (fun t h e => True ∧ Rule t h e) Ends :=
    before.follows follows_of_start (Conf.follows_idle _ _ _)
  have hf₂ := report.follows follows_of_start hf₁
  have hw₂ : ∀ t past, c₂.past t = some past → Watched node k t past := by
    rintro t past hp rfl
    exact .inl (lists_of_reportsCompleted hf₁ report hl past hp)
  -- look at the state in which the step is taken
  obtain ⟨tr₃, tr₄, rfl⟩ := append_of_mem hl'
  obtain ⟨c, c', hrun, -, hstep, -⟩ := after.split
  have hf := hrun.follows follows_of_start hf₂
  have hw := (watched_inductive node k).run follows_of_start hrun hf₂ hw₂
  rw [Bool.eq_false_iff]
  intro hup
  unfold bringsUp at hup
  split at hup
  next n m call a =>
    obtain ⟨rfl, hk, hpower⟩ := of_decide_eq_true hup
    cases hstep with
    | @call _ _ _ past _ w at_call out =>
      have hpast : c.past (.agent n) = some past := by simp [Conf.past, at_call]
      have := not_powersUp (hw _ past hpast) (hf _ _ at_call).1.2 hk
      rw [this] at hpower
      cases hpower
  · cases hup

/-! ## A source that is paused -/

def sampleKey : ObjectKey := ⟨"default", "vm"⟩

def completeThenTick (status : String) : List ClusterMove :=
  commitTick ++ .call (.agent "node-a") works 0 :: .stop (.agent "node-a") ::
    .start (.agent "node-a") (Agent.reconcile sampleAgent) ::
    List.replicate 4 (.call (.agent "node-a") (answerWith status) 0)

/-- The transfer is completed and committed; the next tick finds the source runtime paused and
resumes it, while the Machine is still assigned to the source. -/
theorem paused_source_is_resumed :
    ∃ tr₁ c₁ l c₂ tr₂ c₃, Run fullHost (fun _ _ => True) (Conf.idle transferring) tr₁ c₁ ∧
      Step fullHost c₁ l c₂ ∧ reportsCompleted "node-a" sampleKey l = true ∧
      Run fullHost (fun _ _ => True) c₂ tr₂ c₃ ∧
      (∃ l' ∈ tr₂, bringsUp "node-a" sampleKey l' = true) ∧
      c₃.world.nodeName sampleKey = some "node-a" := by
  obtain ⟨tr, c, hrun, hreport, hup, hnode⟩ := Host.exists_free_run (H := fullHost)
    (P := fun tr c => (tr.drop 23).head?.any (reportsCompleted "node-a" sampleKey) = true ∧
      (tr.drop 23).tail.any (bringsUp "node-a" sampleKey) = true ∧
      c.world.nodeName sampleKey = some "node-a")
    (Conf.idle transferring) (completeThenTick "paused")
    ⟨⟨trivial, sampleAgent, rfl, rfl⟩, trivial, sampleAgent, rfl, rfl⟩ (by decide +kernel)
  rw [← take_append_drop 23 tr] at hrun
  cases hlast : tr.drop 23 with
  | nil => simp [hlast] at hreport
  | cons l tr₂ =>
    rw [hlast] at hrun hreport hup
    obtain ⟨c₁, c₂, hbefore, -, hstep, hafter⟩ := hrun.split
    exact ⟨_, c₁, l, c₂, tr₂, c, hbefore, hstep, hreport, hafter, any_eq_true.mp hup, hnode⟩

def reportedRunning (_ : ClusterConf) : ClusterLabel → Bool
  | .call _ ⟨.flux _ (.get _), .ok rec⟩ => rec.status = "running"
  | .call _ ⟨.flux _ (.lookupByName _), .ok (some rec)⟩ => rec.status = "running"
  | .call _ ⟨.flux _ (.lookupByName _), .ok none⟩ => false
  | _ => true

theorem harmless_of_running {m : Machine} {rec : RuntimeRecord} (h : rec.status = "running") :
    Harmless m rec := by
  constructor
  · rw [h]
    intro hp
    cases hp
  · rw [h]
    decide

theorem reportedRunning_sound {c : ClusterConf} {l : ClusterLabel}
    (h : reportedRunning c l = true) : CalmLookups node k c l := by
  unfold CalmLookups
  split
  next n ev =>
    intro _ _ _ _
    obtain ⟨e, a⟩ := ev
    cases e with
    | flux s call =>
      cases s with
      | migration item => trivial
      | machine m =>
        intro _ _
        cases call with
        | get id =>
          cases a with
          | error e => trivial
          | ok rec => exact fun _ => harmless_of_running (of_decide_eq_true h)
        | lookupByName name =>
          match a with
          | .error e => trivial
          | .ok (some rec) => exact fun _ => harmless_of_running (of_decide_eq_true h)
          | .ok none => cases h
        | _ => trivial
    | _ => trivial
  · trivial

theorem completed_source_stays_down_running :
    ∃ tr₁ c₁ l c₂ tr₂ c₃, Run fullHost (fun _ _ => True) (Conf.idle transferring) tr₁ c₁ ∧
      Step fullHost c₁ l c₂ ∧ reportsCompleted "node-a" sampleKey l = true ∧
      Run fullHost (CalmLookups "node-a" sampleKey) c₂ tr₂ c₃ ∧
      ∀ l' ∈ tr₂, bringsUp "node-a" sampleKey l' = false := by
  obtain ⟨tr, c, hrun, ht⟩ := Host.exists_run_of_play (H := fullHost)
    (P := fun tr _ => tr.any (reportsCompleted "node-a" sampleKey) = true) reportedRunning
    (fun _ _ h => reportedRunning_sound h) (Conf.idle transferring)
    (completeThenTick "running") ⟨⟨trivial, sampleAgent, rfl, rfl⟩, trivial, sampleAgent, rfl, rfl⟩
    (by decide +kernel)
  obtain ⟨l, hmem, hl⟩ := any_eq_true.mp ht
  obtain ⟨tr₁, tr₂, rfl⟩ := append_of_mem hmem
  obtain ⟨c₁, c₂, hbefore, -, hstep, hafter⟩ := hrun.split
  have hbefore : Run fullHost (fun _ _ => True) (Conf.idle transferring) tr₁ c₁ :=
    hbefore.mono fun _ _ _ => trivial
  exact ⟨tr₁, c₁, l, c₂, tr₂, c, hbefore, hstep, hl, hafter,
    completed_source_stays_down "node-a" sampleKey transferring hbefore hstep hl hafter⟩

end Kairon
