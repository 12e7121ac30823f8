import Kairon.Agent.TickRule

/-!
# What a live migration takes and gives back

A migration in phase `Starting` quiesces the network of the source runtime and prepares a session on
the target. The ways out of the two transfer phases differ in what they give back.
-/

namespace Kairon.Agent

open Infra Model Migration Cluster List

inductive Need where
  | resume (runtimeID : String)
  | abort (sessionID : String)
  deriving DecidableEq

variable (a : Config) (item : MachineMigration)

/-- What has to be called after an event. A session may be prepared even if the answer is an
error. -/
def incurs : Event ClusterOp.Ans → List Need
  | ⟨.flux (.machine m) (.networkMigrationQuiesce id), .ok ()⟩ =>
    if m.key = item.machineKey then [.resume id] else []
  | ⟨.peer x _ (.prepare s), _⟩ =>
    if x.key = item.key then [.resume s.runtimeID, .abort s.id] else []
  | _ => []

def pays (ev : Event ClusterOp.Ans) : List Need :=
  match ev.op with
  | .flux _ (.networkMigrationResume id) => [.resume id]
  | .peer x _ (.abort id) => if x.key = item.key then [.abort id] else []
  | _ => []

def owed (item : MachineMigration) : History → List Need
  | [] => []
  | ev :: h => incurs item ev ++ (owed item h).filter fun n => n ∉ pays item ev

def incurred (h : History) : List Need := h.flatMap (incurs item)

def paid (h : History) : List Need := h.flatMap (pays item)

/-- What the reconcile of `item` gives back because of an answer: the target has no backend, the
mode is not supported, the transfer does not start or is reported over. -/
def releasedBy : Event ClusterOp.Ans → List Need
  | ⟨.peer _ _ (.prepare s), .ok prepared⟩ =>
    if !prepared.transferSupported then [.resume s.runtimeID]
    else if transferMode item ≠ "pre-copy" ∧ transferMode item ≠ "post-copy" then
      [.abort s.id, .resume s.runtimeID]
    else []
  | ⟨.source _ (.start r), .error _⟩ => [.abort r.session.id, .resume r.runtimeID]
  | ⟨.source _ (.start r), .ok transfer⟩ =>
    if TransferVerdict.of transfer = .over then [.abort r.session.id, .resume r.runtimeID] else []
  | ⟨.source _ (.status s _), .ok transfer⟩ =>
    if TransferVerdict.of transfer = .over then [.abort s.id, .resume s.runtimeID] else []
  | _ => []

def findsTarget : Event ClusterOp.Ans → Bool
  | ⟨.targetControlURL _, .ok _⟩ => true
  | _ => false

def cancelReleases (turn : History) : List Need :=
  (if a.migrationPeer ∧ item.status.sessionID ≠ "" ∧ turn.any findsTarget then
    [.abort item.status.sessionID] else []) ++
  if item.status.runtimeID = "" then [] else [.resume item.status.runtimeID]

def released (turn : History) : List Need :=
  if item.spec.cancel then cancelReleases a item turn else turn.flatMap (releasedBy item)

variable {a item} {h : History} {n : Need}

/-! ## What is owed after a turn -/

def TakesFirst (item : MachineMigration) : History → Prop
  | [] => True
  | ev :: h => TakesFirst item h ∧ (incurs item ev = [] ∨ paid item (ev :: h) = [])

theorem mem_owed_append (hh : TakesFirst item h) (old : History) :
    n ∈ owed item (h ++ old) ↔ (n ∈ owed item old ∨ n ∈ incurred item h) ∧ n ∉ paid item h := by
  induction h with
  | nil => simp [incurred, paid]
  | cons ev h ih =>
    obtain ⟨hh, hev⟩ := hh
    simp only [paid, flatMap_cons, append_eq_nil_iff] at hev
    rw [cons_append, owed, mem_append, mem_filter, ih hh]
    simp only [incurred, paid, flatMap_cons, mem_append, decide_eq_true_eq]
    rcases hev with hnone | ⟨hev, hpaid⟩
    · simp only [hnone, not_mem_nil, false_or]
      tauto
    · simp only [hev, hpaid, not_mem_nil, not_false_eq_true, and_true, or_false]
      tauto

/-! ## The turn of a migration -/

/-- The two calls that take something come before the first that gives back, and a status is
written when exactly what is in `back` has been given back. -/
def ReleaseRule (item : MachineMigration) (back : History → List Need) (h : History) :
    ClusterOp → Prop
  | .flux (.machine _) (.networkMigrationQuiesce _) | .peer _ _ (.prepare _) => paid item h = []
  | .patchMachineMigrationStatus _ _ _ => ∀ n, n ∈ paid item h ↔ n ∈ back h
  | _ => True

def Even (item : MachineMigration) (back : History → List Need) (h : History) : Prop :=
  ∀ n, n ∈ paid item h ↔ n ∈ back h

abbrev driveReleases (item : MachineMigration) (h : History) : List Need :=
  h.flatMap (releasedBy item)

def Unpaid (item : MachineMigration) (h : History) : Prop :=
  paid item h = [] ∧ driveReleases item h = []

theorem Unpaid.cons {ev : Event ClusterOp.Ans} (hu : Unpaid item h)
    (hp : pays item ev = [] := by rfl) (hr : releasedBy item ev = [] := by rfl) :
    Unpaid item (ev :: h) := by
  constructor
  · rw [paid, flatMap_cons, hp]
    exact hu.1
  · rw [driveReleases, flatMap_cons, hr]
    exact hu.2

theorem Unpaid.even (hu : Unpaid item h) : Even item (driveReleases item) h := by
  intro n
  rw [hu.1, hu.2]

theorem paid_cons {ev : Event ClusterOp.Ans} (hp : paid item h = [])
    (hev : pays item ev = [] := by rfl) : paid item (ev :: h) = [] := by
  rwa [paid, flatMap_cons, hev]

section Finish

variable {back : History → List Need}
  (hback : ∀ site x s r h, back (⟨.patchMachineMigrationStatus site x s, r⟩ :: h) = back h)

include hback

theorem finish_releases (he : Even item back h)
    {recovery : Option MachineMigrationRecoveryStatus} {s : MachineMigrationStatus} :
    (finish item recovery s).Follows (ReleaseRule item back) (fun h' _ => Even item back h') h := by
  have hwritten s r :
      Even item back (⟨.patchMachineMigrationStatus .reconcile item s, r⟩ :: h) := by
    intro n
    rw [hback]
    exact he n
  exact ⟨he, fun | .ok () => hwritten _ _ | .error _ => hwritten _ _⟩

end Finish

abbrev DriveRule (item : MachineMigration) : History → ClusterOp → Prop :=
  ReleaseRule item (driveReleases item)

def Aloof (item : MachineMigration) (e : ClusterOp) : Prop :=
  (∀ r, pays item ⟨e, r⟩ = [] ∧ releasedBy item ⟨e, r⟩ = []) ∧ ∀ h, DriveRule item h e

abbrev Evened {α : Type} (item : MachineMigration) : History → α → Prop :=
  fun h _ => Even item (driveReleases item) h

abbrev Drives {α : Type} (item : MachineMigration) (p : M α) (h : History) : Prop :=
  p.Follows (DriveRule item) (Evened item) h

theorem finish_drive (he : Even item (driveReleases item) h)
    {recovery : Option MachineMigrationRecoveryStatus} {s : MachineMigrationStatus} :
    Drives item (finish item recovery s) h :=
  finish_releases (fun _ _ _ _ _ => rfl) he

theorem resume_releases {id : String} {f : Unit → M (Except Failure Unit)} (hid : id ≠ "")
    (hb : ∀ n, n ∈ driveReleases item h ↔ n = .resume id ∨ n ∈ paid item h)
    (hf : ∀ h', Even item (driveReleases item) h' → Drives item (f ()) h') :
    Drives item ((resumeSourceNetworkQuiesce item id).bind f) h := by
  rw [resumeSourceNetworkQuiesce, if_neg hid]
  refine ⟨trivial, fun r => hf _ fun n => ?_⟩
  show n ∈ .resume id :: paid item h ↔ n ∈ driveReleases item h
  rw [hb, mem_cons]

theorem undo_releases (sid : String) {url id : String} {f : Unit → M (Except Failure Unit)}
    (hid : id ≠ "") (hp : paid item h = []) (hb : driveReleases item h = [.abort sid, .resume id])
    (hf : ∀ h', Even item (driveReleases item) h' → Drives item (f ()) h') :
    Drives item ((Peer.abort item url sid).bind fun _ =>
      (resumeSourceNetworkQuiesce item id).bind f) h := by
  refine ⟨trivial, fun r => resume_releases hid (fun n => ?_) hf⟩
  have habort : paid item (⟨.peer item url (.abort sid), r⟩ :: h) = [.abort sid] := by
    rw [paid, flatMap_cons, ← paid, hp, append_nil]
    exact if_pos rfl
  show n ∈ driveReleases item h ↔ _
  rw [habort, hb]
  simp [or_comm]

theorem takeSnapshots_releases (hu : Unpaid item h) (m : Machine) (rec : RuntimeRecord)
    (session : Session) : (takeSnapshots m rec session).Follows (DriveRule item)
      (fun h' s => Unpaid item h' ∧ s.id = session.id ∧ s.runtimeID = session.runtimeID) h := by
  refine ⟨hu.1, fun | .error _ => ⟨trivial, fun _ => ⟨hu, rfl, rfl⟩⟩ | .ok () => ?_⟩
  exact ⟨trivial, fun
    | .error _ => ⟨trivial, fun _ => ⟨hu, rfl, rfl⟩⟩
    | .ok _ => ⟨trivial, fun _ => ⟨hu, rfl, rfl⟩⟩⟩

theorem projectTransfer_releases (hp : paid item h = []) {session : Session}
    {transfer : TransferStatus}
    (hb : driveReleases item h = if TransferVerdict.of transfer = .over then
      [.abort session.id, .resume session.runtimeID] else [])
    (hid : session.runtimeID ≠ "") (status : MachineMigrationStatus) (url : String) :
    Drives item (projectTransfer item status session url transfer) h := by
  unfold projectTransfer
  split
  · next hv =>
    rw [hv] at hb
    have hu : Unpaid item h := ⟨hp, hb⟩
    exact ⟨trivial, fun
      | .error _ => finish_drive hu.cons.even
      | .ok () => finish_drive hu.cons.even⟩
  · next hv =>
    rw [hv] at hb
    exact undo_releases _ hid hp hb fun _ he => finish_drive he
  · next hv =>
    rw [hv] at hb
    exact finish_drive (Unpaid.even ⟨hp, hb⟩)

theorem startTransfer_releases (hp : paid item h = []) {rec : RuntimeRecord} {session : Session}
    (hsession : session.runtimeID = rec.id) (hid : rec.id ≠ "") (prepared : PrepareResponse)
    (hb : driveReleases item h =
      if transferMode item ≠ "pre-copy" ∧ transferMode item ≠ "post-copy" then
        [.abort session.id, .resume rec.id] else []) (url : String) :
    Drives item (startTransfer item rec session url prepared) h := by
  refine .ite (fun hmode => ?_) fun hmode => ?_
  · rw [if_pos hmode] at hb
    exact undo_releases _ hid hp hb fun _ he => he
  · rw [if_neg hmode] at hb
    refine ⟨trivial, fun r => ?_⟩
    match r with
    | .error e =>
      refine undo_releases session.id hid (paid_cons hp) ?_ fun h' he => ?_
      · rw [driveReleases, flatMap_cons, ← driveReleases, hb]
        rfl
      · split
        · exact finish_drive he
        · exact finish_drive he
    | .ok transfer =>
      refine projectTransfer_releases (paid_cons hp) ?_ (hsession ▸ hid) _ _
      rw [driveReleases, flatMap_cons, ← driveReleases, hb, append_nil, hsession]
      rfl

theorem startMigration_releases (hu : Unpaid item h) (m : Machine) {rec : RuntimeRecord}
    (session : Session) (hsession : session.runtimeID = rec.id) (hid : rec.id ≠ "") (url : String) :
    Drives item (startMigration item m rec session url) h := by
  refine (takeSnapshots_releases hu m rec session).bind fun h s hs => ?_
  obtain ⟨hu, hsid, hrid⟩ := hs
  rw [hsession] at hrid
  refine ⟨hu.1, fun | .error _ => hu.cons.even | .ok prepared => ?_⟩
  have hb : driveReleases item (⟨.peer item url (.prepare s), .ok prepared⟩ :: h) =
      if !prepared.transferSupported then [.resume s.runtimeID]
      else if transferMode item ≠ "pre-copy" ∧ transferMode item ≠ "post-copy" then
        [.abort s.id, .resume s.runtimeID] else [] := by
    rw [driveReleases, flatMap_cons, ← driveReleases, hu.2, append_nil]
    rfl
  refine .ite (fun hsup => ?_) fun hsup => ?_
  · rw [if_pos hsup] at hb
    refine resume_releases hid (fun n => ?_) fun _ he => finish_drive he
    rw [hb, hrid]
    show _ ↔ _ ∨ n ∈ paid item h
    simp [hu.1]
  · rw [if_neg hsup, hrid] at hb
    exact startTransfer_releases (paid_cons hu.1) hrid hid prepared hb url

theorem pollMigration_releases (hu : Unpaid item h) (session : Session)
    (hid : session.runtimeID ≠ "") (url : String) :
    Drives item (pollMigration item session url) h := by
  unfold pollMigration
  split
  · exact hu.even
  · refine ⟨trivial, fun | .error _ => hu.cons.even | .ok transfer => ?_⟩
    refine ⟨trivial, fun _ => ?_⟩
    refine projectTransfer_releases (paid_cons (paid_cons hu.1)) ?_ hid _ _
    show releasedBy item _ ++ driveReleases item h = _
    rw [hu.2, append_nil]
    rfl

theorem driveMigration_releases (hu : Unpaid item h) : Drives item (driveMigration a item) h := by
  refine ⟨trivial, fun | .error _ => hu.even | .ok machine => ?_⟩
  refine .ite (fun _ => hu.even) fun _ => ?_
  split
  · exact hu.even
  split
  · exact finish_drive hu.cons.even
  -- a lookup gives nothing back
  have lookup : (current machine).Follows (DriveRule item) (fun h' _ => Unpaid item h')
      (⟨.getMachine item.machineKey, .ok machine⟩ :: h) := by
    have aloof : (current machine).Follows (fun _ e => Aloof item e) _
        (⟨.getMachine item.machineKey, .ok machine⟩ :: h) :=
      current_follows machine (fun _ _ => ⟨fun _ => ⟨rfl, rfl⟩, fun _ => trivial⟩)
        fun _ _ => ⟨fun _ => ⟨rfl, rfl⟩, fun _ => trivial⟩
    exact (aloof.keep (P := Unpaid item) hu.cons
      fun h' e r hu' he => hu'.cons (he.1 r).1 (he.1 r).2).mono (fun h' _ he => he.2.2 h')
        fun _ _ hp => hp.1
  refine lookup.bind fun h r hu => ?_
  match r with
  | .error e => exact hu.even
  | .ok none => exact hu.even
  | .ok (some rec) =>
    refine .ite (fun _ => hu.even) fun hid => ?_
    refine ⟨trivial, fun | .error _ => hu.even | .ok url => ?_⟩
    split
    · exact startMigration_releases hu.cons _ (sourceSession a item rec) rfl hid _
    · exact pollMigration_releases hu.cons (sourceSession a item rec) hid _

/-! ## A cancelled turn -/

abbrev CancelRule (a : Config) (item : MachineMigration) : History → ClusterOp → Prop :=
  ReleaseRule item (cancelReleases a item)

theorem abortSource_releases : (abortSource a item).Follows (CancelRule a item)
      (fun h _ => paid item h = [] ∧ h.any findsTarget = false) [] := by
  unfold abortSource
  split
  · exact ⟨trivial, fun _ => ⟨rfl, rfl⟩⟩
  · exact ⟨rfl, rfl⟩

theorem abortDestination_releases (hp : paid item h = []) (hnone : h.any findsTarget = false) :
    (abortDestination a item).Follows (CancelRule a item)
      (fun h' _ => paid item h' =
        if a.migrationPeer ∧ item.status.sessionID ≠ "" ∧ h'.any findsTarget then
          [.abort item.status.sessionID] else []) h := by
  unfold abortDestination
  split
  · next hpeer =>
    refine ⟨trivial, fun r => ?_⟩
    match r with
    | .error e =>
      refine hp.trans (if_neg fun hc => ?_).symm
      have hany : h.any findsTarget = true := hc.2.2
      simp [hnone] at hany
    | .ok url =>
      refine ⟨trivial, fun r => ?_⟩
      have habort : paid item (⟨.peer item url (.abort item.status.sessionID), r⟩ ::
          ⟨.targetControlURL item.status.targetNode, .ok url⟩ :: h) =
            [.abort item.status.sessionID] := by
        rw [paid, flatMap_cons, ← paid, paid_cons hp, append_nil]
        exact if_pos rfl
      exact habort.trans (if_pos ⟨hpeer.1, hpeer.2, rfl⟩).symm
  · next hpeer => exact hp.trans (if_neg fun hc => hpeer ⟨hc.1, hc.2.1⟩).symm

theorem cancelLiveMigration_releases : (cancelLiveMigration a item).Follows (CancelRule a item)
      (fun h _ => Even item (cancelReleases a item) h) [] := by
  refine abortSource_releases.bind fun h _ hh => ?_
  refine (abortDestination_releases hh.1 hh.2).bind fun h _ hp => ?_
  unfold resumeSourceNetworkQuiesce
  split
  · next hid =>
    refine finish_releases (fun _ _ _ _ _ => rfl) fun n => ?_
    rw [hp, cancelReleases, if_pos hid, append_nil]
  · next hid =>
    refine ⟨trivial, fun r => finish_releases (fun _ _ _ _ _ => rfl) fun n => ?_⟩
    show n ∈ .resume item.status.runtimeID :: paid item h ↔ n ∈ cancelReleases a item h
    rw [hp, cancelReleases, if_neg hid, mem_append, mem_cons, mem_singleton, or_comm]

/-! ## The whole turn -/

theorem reconcileMigration_releases (hl : Live item) :
    (reconcileMigration a item).Follows (ReleaseRule item (released a item))
      (fun h r => ∀ e, r = .error e → Even item (released a item) h) [] := by
  have hrecovery : item.status.phase ≠ .needsRecovery := by
    rcases hl with hl | hl <;> rw [hl] <;> decide
  unfold reconcileMigration
  rw [if_neg hrecovery]
  split
  · exact nofun
  split
  · exact nofun
  split
  · next hcancel =>
    have hback : released a item = cancelReleases a item := funext fun h => if_pos hcancel
    rw [hback]
    exact cancelLiveMigration_releases.weaken fun _ _ he _ _ => he
  · next hcancel =>
    have hback : released a item = driveReleases item := funext fun h => if_neg hcancel
    rw [hback]
    exact (driveMigration_releases ⟨rfl, rfl⟩).weaken fun _ _ he _ _ => he

theorem TakesFirst.cons {back : History → List Need} {e : ClusterOp} (hh : TakesFirst item h)
    (he : ReleaseRule item back h e) (r : e.Ans) : TakesFirst item (⟨e, r⟩ :: h) := by
  refine ⟨hh, ?_⟩
  cases e with
  | flux s call =>
    cases s with
    | migration x => cases call <;> exact .inl rfl
    | machine m =>
      cases call with
      | networkMigrationQuiesce id => exact .inr (paid_cons he)
      | _ => exact .inl rfl
  | peer x url call =>
    cases call with
    | prepare s => exact .inr (paid_cons he)
    | _ => exact .inl rfl
  | _ => exact .inl rfl

/-- In the turn of a live migration a status is written when exactly what its way out gives back
has been given back. -/
theorem migrationTick_releases (hl : Live item) : (migrationTick a item).Follows
      (fun h e => TakesFirst item h ∧ ReleaseRule item (released a item) h e) (fun h _ =>
        TakesFirst item h ∧ True) [] := by
  refine Prog.Follows.keep ?_ trivial fun h e r hh he => hh.cons he r
  unfold migrationTick
  split
  · trivial
  · refine (reconcileMigration_releases hl).bind fun h r hr => ?_
    match r with
    | .ok () => trivial
    | .error e => exact ⟨hr e rfl, fun _ => trivial⟩

/-- When the turn of a live migration writes a status, nothing is owed for the migration exactly if
its way out gives back all that was owed before and all that the turn took. -/
theorem owed_eq_nil_iff (hl : Live item) {turn : History} {site : Site} {x : MachineMigration}
    {s : MachineMigrationStatus} {k : (ClusterOp.patchMachineMigrationStatus site x s).Ans → M Unit}
    (ht : (migrationTick a item).Becomes turn (.call (.patchMachineMigrationStatus site x s) k))
    (old : History) : owed item (turn ++ old) = [] ↔
      ∀ n, n ∈ owed item old ∨ n ∈ incurred item turn → n ∈ released a item turn := by
  obtain ⟨htakes, hpaid⟩ := (ht.follows (migrationTick_releases hl)).1
  rw [eq_nil_iff_forall_not_mem]
  refine forall_congr' fun n => ?_
  rw [mem_owed_append htakes old, hpaid n, not_and, not_not]

/-! ## The turns of a tick -/

def TurnRule (a : Config) (h : History) : ClusterOp → Prop
  | .patchMachineMigrationStatus site item s =>
    ∃ turn base k, h = turn ++ base ∧
      (migrationTick a item).Becomes turn (.call (.patchMachineMigrationStatus site item s) k)
  | _ => True

theorem MachineRule.turnRule {m : Machine} {e : ClusterOp} {new : History}
    (he : MachineRule m new e) : TurnRule a h e := by
  cases e with
  | patchMachineMigrationStatus site item s => exact he.elim
  | _ => trivial

theorem migrationTick_turns (item : MachineMigration) (base : History) :
    (migrationTick a item).Follows (TurnRule a) Anyhow base := by
  refine (((migrationTick a item).follows_becomes.and migrationTick_follows).after base).mono ?_
    fun _ _ _ => trivial
  rintro past e ⟨turn, rfl, ⟨k, hk⟩, -, he⟩
  cases e with
  | patchMachineMigrationStatus site x s =>
    have hx : x = item := by
      cases site with
      | placement snapshot => exact he.elim
      | reconcile | errorHandler => exact he.1
    subst hx
    exact ⟨turn, base, k, rfl, hk⟩
  | _ => trivial

theorem reconcile_turns (a : Config) : (reconcile a).Follows (TurnRule a) Anyhow [] := by
  refine reconcile_parts a (fun _ _ => True) trivial (fun _ => trivial) ?_ (fun _ _ => trivial)
    (fun _ => trivial) fun base item => migrationTick_turns item base
  intro base m _ _
  refine ((machineTick_follows (a := a) m).after base).mono ?_ fun _ _ _ => trivial
  rintro past e ⟨new, -, he⟩
  exact he.turnRule

end Kairon.Agent
