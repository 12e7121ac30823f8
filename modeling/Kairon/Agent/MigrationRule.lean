import Kairon.Agent.MachineRule

/-!
# What the migration reconcile does

Which calls the reconcile of one migration makes, and after which answers. It writes the status
once, and what it writes after a successful Commit is `Cutover`.
-/

namespace Kairon.Agent

open Infra GoText Model Migration Cluster List

def Driven (item : MachineMigration) : Prop :=
  item.status.phase = .starting ∨ item.status.phase = .running ∨ item.status.phase = .needsRecovery

def powersUp : FluxCall → Bool
  | .resume _ | .start _ | .createWithVfio | .createSandbox | .fork _ => true
  | _ => false

def PlainCall (item : MachineMigration) : ClusterOp → Prop
  | .flux _ call => powersUp call = false
  | .peer x _ (.commit _) => False ∧ x = item
  | .peer x _ _ => x = item
  | .source x _ => x = item
  | .getMachine _ | .targetControlURL _ | .now | .machineStep _ _ => True
  | _ => False

abbrev Plain {α : Type} (item : MachineMigration) (p : M α) (h : History) : Prop :=
  p.Follows (fun _ e => PlainCall item e) (fun _ _ => True) h

def Quiet (h : History) : Prop :=
  ∀ ev ∈ h, writesStatus ev = false ∧ commits ev = false

structure Acknowledged (action : RecoverySpec) : Prop where
  reason : trimSpace action.reason ≠ ""
  diagnosis : action.action = .forceAbort ∨
    action.action.requires = some action.acknowledgedDiagnosis

structure AgentMove (item : MachineMigration) (h : History) (s : MachineMigrationStatus) :
    Prop where
  driven : Driven item
  unwritten : ∀ ev ∈ h, writesStatus ev = false
  /-- After a successful Commit the migration goes on to the cutover. -/
  committed : pending item.key h = true → s.phase = .cutover
  /-- It leaves `NeedsRecovery` only on an acknowledged instruction. -/
  recovers : item.status.phase = .needsRecovery → s.phase ≠ .needsRecovery →
    ∃ action, item.spec.recovery = some action ∧ Acknowledged action

structure AgentFailure (item : MachineMigration) (h : History) (s : MachineMigrationStatus) :
    Prop where
  driven : Driven item
  phase : s.phase = .failed
  /-- The write before it, if there was one, was answered by an error. -/
  refused : ∀ ev ∈ h, writesStatus ev = true → failed ev.op ev.ans = true
  /-- If the destination committed, there was a write since. -/
  settled : pending item.key h = false

def MigrationRule (item : MachineMigration) (h : History) : ClusterOp → Prop
  | .peer x _ (.commit _) => x = item ∧ Driven item ∧ ∀ ev ∈ h, writesStatus ev = false
  | .patchMachineMigrationStatus .reconcile x s => x = item ∧ AgentMove item h s
  | .patchMachineMigrationStatus .errorHandler x s => x = item ∧ AgentFailure item h s
  | e => PlainCall item e

variable {a : Config} {item : MachineMigration} {h : History}

theorem Quiet.nil : Quiet [] := fun _ hev => by cases hev

theorem Quiet.cons {ev : Event ClusterOp.Ans} (hq : Quiet h)
    (hev : writesStatus ev = false ∧ commits ev = false := by exact ⟨rfl, rfl⟩) : Quiet (ev :: h) :=
  forall_mem_cons.mpr ⟨hev, hq⟩

theorem Quiet.unwritten (hq : Quiet h) : ∀ ev ∈ h, writesStatus ev = false :=
  fun ev hev => (hq ev hev).1

theorem commits_of_commitsOf {k : ObjectKey} {ev : Event ClusterOp.Ans}
    (hev : commitsOf k ev = true) : commits ev = true := by
  obtain ⟨op, ans⟩ := ev
  cases op with
  | peer x url call =>
    cases call with
    | commit id =>
      cases ans with
      | ok u => rfl
      | error e => cases hev
    | _ => cases hev
  | _ => cases hev

theorem Quiet.settled (hq : Quiet h) (k : ObjectKey) : pending k h = false := by
  induction h with
  | nil => rfl
  | cons ev h ih =>
    have hev := hq ev mem_cons_self
    have hc : commitsOf k ev = false :=
      Bool.eq_false_iff.mpr fun hc => by simp [commits_of_commitsOf hc] at hev
    simp [pending, hc, ih fun ev' hev' => hq ev' (mem_cons_of_mem _ hev')]

theorem PlainCall.quiet {e : ClusterOp} (he : PlainCall item e) (r : e.Ans) :
    writesStatus ⟨e, r⟩ = false ∧ commits ⟨e, r⟩ = false := by
  cases e with
  | peer x url call =>
    cases call with
    | commit id => exact he.1.elim
    | _ => exact ⟨rfl, rfl⟩
  | patchMachineMigrationStatus site x s => exact he.elim
  | _ => exact ⟨rfl, rfl⟩

theorem PlainCall.rule {e : ClusterOp} (he : PlainCall item e) : MigrationRule item h e := by
  cases e with
  | peer x url call =>
    cases call with
    | commit id => exact he.1.elim
    | _ => exact he
  | patchMachineMigrationStatus site x s => exact he.elim
  | _ => exact he

theorem follows_of_plain {α : Type} {p : M α} (hp : Plain item p h) (hq : Quiet h) :
    p.Follows (MigrationRule item) (fun h' _ => Quiet h') h := by
  exact (hp.keep (P := Quiet) hq fun _ _ r hq' he => hq'.cons (he.quiet r)).mono
    (fun _ _ he => he.2.rule) fun _ _ h' => h'.1

theorem plain_bind {α β : Type} {p : M α} {f : α → M β} {post : History → β → Prop}
    (hp : Plain item p h) (hq : Quiet h)
    (hf : ∀ h' r, Quiet h' → (f r).Follows (MigrationRule item) post h') :
    (p.bind f).Follows (MigrationRule item) post h :=
  (follows_of_plain hp hq).bind hf

structure Ended (item : MachineMigration) (h : History) (r : Except Failure Unit) : Prop where
  settled : pending item.key h = false
  refused : ∀ e, r = .error e →
    Driven item ∧ ∀ ev ∈ h, writesStatus ev = true → failed ev.op ev.ans = true

abbrev Reconciles (item : MachineMigration) (p : M (Except Failure Unit)) (h : History) : Prop :=
  p.Follows (MigrationRule item) (Ended item) h

theorem ended_ok (hs : pending item.key h = false) : Ended item h (.ok ()) :=
  ⟨hs, nofun⟩

theorem pending_write {site : Site} {s : MachineMigrationStatus}
    (r : (ClusterOp.patchMachineMigrationStatus site item s).Ans) :
    pending item.key (⟨.patchMachineMigrationStatus site item s, r⟩ :: h) = false := by
  simp [pending, writesStatusOf]

theorem finish_follows {recovery : Option MachineMigrationRecoveryStatus}
    {s : MachineMigrationStatus} (hmove : AgentMove item h s) :
    Reconciles item (finish item recovery s) h := by
  refine ⟨⟨rfl, hmove⟩, fun | .ok () => ended_ok (pending_write _) | .error e => ?_⟩
  refine ⟨pending_write _, fun _ _ => ⟨hmove.driven, forall_mem_cons.mpr ⟨fun _ => rfl, ?_⟩⟩⟩
  intro ev hev hw
  simp [hmove.unwritten ev hev] at hw

theorem fail_follows (hd : Driven item) (hq : Quiet h) (text : String) :
    Reconciles item (fail item text) h := by
  refine ⟨hq.settled _, fun _ _ => ⟨hd, fun ev hev hw => ?_⟩⟩
  simp [hq.unwritten ev hev] at hw

def Live (item : MachineMigration) : Prop :=
  item.status.phase = .starting ∨ item.status.phase = .running

theorem Live.driven (hl : Live item) : Driven item := hl.imp_right .inl

theorem Live.move (hl : Live item) (hq : Quiet h) (s : MachineMigrationStatus) :
    AgentMove item h s where
  driven := hl.driven
  unwritten := hq.unwritten
  committed hc := by simp [hq.settled] at hc
  recovers hp := by rcases hl with hl | hl <;> rw [hl] at hp <;> cases hp

/-! ## The parts that neither commit nor write -/

theorem resumeSourceNetworkQuiesce_plain (id : String) :
    Plain item (resumeSourceNetworkQuiesce item id) h := by
  unfold resumeSourceNetworkQuiesce
  split
  · trivial
  · exact ⟨rfl, fun _ => trivial⟩

theorem deleteSourceRuntime_plain : Plain item (deleteSourceRuntime item) h := by
  unfold deleteSourceRuntime
  split
  · trivial
  · exact ⟨rfl, fun _ => trivial⟩

theorem takeSnapshots_plain (m : Machine) (rec : RuntimeRecord) (session : Session) :
    Plain item (takeSnapshots m rec session) h := by
  refine ⟨rfl, fun | .error _ => ⟨trivial, fun _ => trivial⟩ | .ok () => ?_⟩
  exact ⟨rfl, fun
    | .error _ => ⟨trivial, fun _ => trivial⟩
    | .ok _ => ⟨trivial, fun _ => trivial⟩⟩

theorem diagnose_plain (url : String) (now : Time) : Plain item (diagnose item url now) h := by
  have source : ∀ recovery, Plain item (diagnoseSource item recovery) h := by
    intro recovery
    unfold diagnoseSource
    split
    · trivial
    · exact ⟨rfl, fun | .error _ => trivial | .ok _ => trivial⟩
  refine (source _).bind fun h recovery _ => ?_
  unfold diagnoseDestination
  split
  · trivial
  · exact ⟨rfl, fun | .error _ => trivial | .ok _ => trivial⟩

theorem abortSource_plain : Plain item (abortSource a item) h := by
  unfold abortSource
  split
  · exact ⟨rfl, fun _ => trivial⟩
  · trivial

theorem abortDestination_plain : Plain item (abortDestination a item) h := by
  unfold abortDestination
  split
  · exact ⟨trivial, fun | .error _ => trivial | .ok _ => ⟨rfl, fun _ => trivial⟩⟩
  · trivial

/-! ## The parts that do -/

section Live

variable (hl : Live item) (hq : Quiet h)
include hl hq

theorem blockLiveMigrationWithStatus_follows
    (status : MachineMigrationStatus) (message : String) :
    Reconciles item (blockLiveMigrationWithStatus item status message) h :=
  finish_follows (hl.move hq _)

theorem projectTransfer_follows (status : MachineMigrationStatus)
    (session : Session) (url : String) (transfer : TransferStatus) :
    Reconciles item (projectTransfer item status session url transfer) h := by
  unfold projectTransfer
  split
  · refine ⟨⟨rfl, hl.driven, hq.unwritten⟩, fun
      | .error _ => finish_follows (hl.move hq.cons _)
      | .ok () => ?_⟩
    exact finish_follows ⟨hl.driven, forall_mem_cons.mpr ⟨rfl, hq.unwritten⟩, fun _ => rfl,
      (hl.move hq _).recovers⟩
  · refine ⟨rfl, fun _ => ?_⟩
    show Prog.Follows _ _ _ (Prog.bind (resumeSourceNetworkQuiesce _ _) _)
    exact plain_bind (resumeSourceNetworkQuiesce_plain _) hq.cons
      fun h _ hq => finish_follows (hl.move hq _)
  · exact finish_follows (hl.move hq _)

theorem cancelLiveMigration_follows : Reconciles item (cancelLiveMigration a item) h := by
  refine plain_bind abortSource_plain hq fun h _ hq => ?_
  refine plain_bind abortDestination_plain hq fun h _ hq => ?_
  refine plain_bind (resumeSourceNetworkQuiesce_plain _) hq fun h _ hq => ?_
  exact finish_follows (hl.move hq _)

theorem startTransfer_follows (rec : RuntimeRecord)
    (session : Session) (url : String) (prepared : PrepareResponse) :
    Reconciles item (startTransfer item rec session url prepared) h := by
  refine .ite (fun _ => ?_) fun _ => ?_
  · refine ⟨rfl, fun _ => ?_⟩
    show Prog.Follows _ _ _ (Prog.bind (resumeSourceNetworkQuiesce _ _) _)
    exact plain_bind (resumeSourceNetworkQuiesce_plain _) hq.cons
      fun h _ hq => fail_follows hl.driven hq _
  · refine ⟨rfl, fun r => ?_⟩
    match r with
    | .error e =>
      refine ⟨rfl, fun _ => ?_⟩
      show Prog.Follows _ _ _ (Prog.bind (resumeSourceNetworkQuiesce _ _) _)
      refine plain_bind (resumeSourceNetworkQuiesce_plain _)
        hq.cons.cons fun h _ hq => ?_
      split
      · exact blockLiveMigrationWithStatus_follows hl hq _ _
      · exact finish_follows (hl.move hq _)
    | .ok transfer =>
      exact projectTransfer_follows hl hq.cons _ _ _ _

theorem startMigration_follows (m : Machine)
    (rec : RuntimeRecord) (session : Session) (url : String) :
    Reconciles item (startMigration item m rec session url) h := by
  refine plain_bind (takeSnapshots_plain m rec session) hq fun h session hq => ?_
  refine ⟨rfl, fun | .error _ => fail_follows hl.driven hq.cons _ | .ok prepared => ?_⟩
  refine .ite (fun _ => ?_) fun _ => ?_
  · refine plain_bind (resumeSourceNetworkQuiesce_plain _) hq.cons fun h _ hq => ?_
    exact blockLiveMigrationWithStatus_follows hl hq _ _
  · exact startTransfer_follows hl hq.cons _ _ _ _

theorem pollMigration_follows (session : Session) (url : String) :
    Reconciles item (pollMigration item session url) h := by
  unfold pollMigration
  split
  · exact fail_follows hl.driven hq _
  · refine ⟨rfl, fun
      | .error _ => fail_follows hl.driven hq.cons _
      | .ok transfer => ?_⟩
    refine ⟨rfl, fun _ => ?_⟩
    exact projectTransfer_follows hl hq.cons.cons _ _ _ _

theorem driveMigration_follows : Reconciles item (driveMigration a item) h := by
  refine ⟨trivial, fun
    | .error _ => fail_follows hl.driven hq.cons _
    | .ok machine => ?_⟩
  refine .ite (fun _ => fail_follows hl.driven hq.cons _) fun _ => ?_
  split
  · exact fail_follows hl.driven hq.cons _
  split
  · exact blockLiveMigrationWithStatus_follows hl hq.cons _ _
  have lookup : ∀ {h : History}, Plain item (current machine) h :=
    (current_follows machine (fun _ _ => rfl) fun _ _ => rfl).weaken
      fun _ _ _ => trivial
  refine plain_bind lookup hq.cons fun h r hq => ?_
  match r with
  | .error e => exact fail_follows hl.driven hq _
  | .ok none => exact fail_follows hl.driven hq _
  | .ok (some rec) =>
    refine .ite (fun _ => fail_follows hl.driven hq _) fun _ => ?_
    refine ⟨trivial, fun
      | .error _ => fail_follows hl.driven hq.cons _
      | .ok url => ?_⟩
    split
    · exact startMigration_follows hl hq.cons _ _ _ _
    · exact pollMigration_follows hl hq.cons _ _

end Live

/-! ## Recovery -/

theorem acknowledged_of_refusal {action : RecoverySpec} (hr : refusal action = none) :
    Acknowledged action := by
  obtain ⟨-, ⟨⟩⟩ | ⟨hreason, hr⟩ := ite_eq_iff.mp hr
  refine ⟨hreason, ?_⟩
  split at hr
  · next want hwant =>
    split at hr
    · next hack => exact .inr (by rw [hwant, hack])
    · cases hr
  · split at hr
    · next hforce => exact .inl hforce
    · cases hr

/-- What an accepted instruction leaves: nothing is written yet, and a successful Commit leads to
the cutover. -/
theorem applyRecovery_follows (hd : Driven item) (hq : Quiet h) (url : String)
    (action : RecoveryAction) : (applyRecovery item url action).Follows (MigrationRule item)
      (fun h' r => (∀ ev ∈ h', writesStatus ev = false) ∧
        (pending item.key h' = true → r.1 = .cutover)) h := by
  -- a plain ending after a Commit, which is no write
  have cutover : ∀ {ev : Event ClusterOp.Ans} {message : String}, writesStatus ev = false →
      Prog.Follows (MigrationRule item)
        (fun h' (r : MigrationPhase × String) => (∀ ev ∈ h', writesStatus ev = false) ∧
          (pending item.key h' = true → r.1 = .cutover)) (ev :: h)
        ((deleteSourceRuntime item).bind fun _ => .ret (.cutover, message)) := by
    intro ev message hev
    exact ((deleteSourceRuntime_plain.keep (P := fun h' => ∀ ev ∈ h', writesStatus ev = false)
      (forall_mem_cons.mpr ⟨hev, hq.unwritten⟩) fun _ _ r hw he =>
        forall_mem_cons.mpr ⟨(he.quiet r).1, hw⟩).mono
        (fun _ _ he => PlainCall.rule he.2) fun _ _ h' => h'.1).bind
      fun h' _ hw => ⟨hw, fun _ => rfl⟩
  have quiet : ∀ {h' : History} {r : MigrationPhase × String}, Quiet h' →
      (∀ ev ∈ h', writesStatus ev = false) ∧ (pending item.key h' = true → r.1 = .cutover) :=
    fun hq => ⟨hq.unwritten, fun hc => by simp [hq.settled] at hc⟩
  cases action with
  | confirmDestinationCommitted =>
    exact ⟨⟨rfl, hd, hq.unwritten⟩, fun _ => cutover rfl⟩
  | confirmDestinationNotCommitted =>
    exact ⟨⟨rfl, hd, hq.unwritten⟩, fun
      | .error _ => ⟨rfl, fun _ => quiet hq.cons.cons⟩
      | .ok () => cutover rfl⟩
  | forceAbort => exact ⟨rfl, fun _ => quiet hq.cons⟩
  | other text => exact quiet hq

theorem reconcileNeedsRecovery_follows (hp : item.status.phase = .needsRecovery) (hq : Quiet h) :
    Reconciles item (reconcileNeedsRecovery a item) h := by
  have hd : Driven item := .inr (.inr hp)
  -- a migration that stays parked
  have parked : ∀ {h' : History} {s : MachineMigrationStatus}, Quiet h' →
      s.phase = item.status.phase → AgentMove item h' s := fun hq hs =>
    ⟨hd, hq.unwritten, fun hc => by simp [hq.settled] at hc, fun _ hne => absurd (hs.trans hp) hne⟩
  refine .ite (fun _ => fail_follows hd hq _) fun _ => ?_
  refine ⟨trivial, fun | .error _ => fail_follows hd hq.cons _ | .ok url => ?_⟩
  refine ⟨trivial, fun now => ?_⟩
  show Prog.Follows _ _ _ (Prog.bind (diagnose item url now) _)
  refine plain_bind (diagnose_plain url now) hq.cons.cons
    fun h recovery hq => ?_
  split
  · exact finish_follows (parked hq rfl)
  · next action haction =>
    split
    · exact finish_follows (parked hq rfl)
    · next hrefusal =>
      refine ⟨trivial, fun appliedAt => ?_⟩
      refine (applyRecovery_follows hd hq.cons url action.action).bind
        fun h r hr => finish_follows ⟨hd, hr.1, hr.2, fun _ _ => ?_⟩
      exact ⟨action, haction, acknowledged_of_refusal hrefusal⟩

/-! ## The whole reconcile -/

theorem reconcileMigration_follows (hq : Quiet h) :
    Reconciles item (reconcileMigration a item) h := by
  unfold reconcileMigration
  split
  · next hp => exact reconcileNeedsRecovery_follows hp hq
  split
  · exact ended_ok (hq.settled _)
  · next hphase =>
    have hl : Live item := by
      by_contra hn
      exact hphase ⟨fun hs => hn (.inl hs), fun hr => hn (.inr hr)⟩
    split
    · exact ended_ok (hq.settled _)
    split
    · exact cancelLiveMigration_follows hl hq
    · exact driveMigration_follows hl hq

theorem migrationTick_follows : (migrationTick a item).Follows
      (fun h e => item.status.sourceNode = a.nodeName ∧ MigrationRule item h e)
      (fun h _ => pending item.key h = false) [] := by
  unfold migrationTick
  split
  · rfl
  · next hsource =>
    have hsource : item.status.sourceNode = a.nodeName := by simpa using hsource
    refine ((reconcileMigration_follows Quiet.nil).mono (fun _ _ he => ⟨hsource, he⟩)
      fun _ _ hr => hr).bind fun h r hr => ?_
    match r with
    | .ok () => exact hr.settled
    | .error e =>
      obtain ⟨hd, hrefused⟩ := hr.refused e rfl
      exact ⟨⟨hsource, rfl, hd, rfl, hrefused, hr.settled⟩, fun _ => pending_write _⟩

end Kairon.Agent
