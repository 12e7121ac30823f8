import Kairon.Migration.Sections
import Kairon.Model.Machine

/-!
# The network-aware destination driver

`NetworkAwareDestination` wraps an inner driver and restores and resumes FluxVM's network state
around it. The inner driver and FluxVM are services: each of their calls is one atomic call with
whatever answer.
-/

namespace Kairon.Migration

open Infra GoText Model

inductive NetworkOp where
  | prepare (s : Session)
  | commit (s : Session)
  | abort (s : Session)
  | networkMigrationRestore (runtimeID snapshot : String)
  | restoreConntrack (runtimeID snapshot : String)
  | networkMigrationResume (runtimeID : String)
  | lookupByName (name : String)
  | clock

def NetworkOp.Ans : NetworkOp → Type
  | prepare _ => Except String PrepareResult
  | commit _ => GoErr
  | abort _ => GoErr
  | networkMigrationRestore _ _ => GoErr
  | restoreConntrack _ _ => GoErr
  | networkMigrationResume _ => GoErr
  | lookupByName _ => Except String (Option RuntimeRecord)
  | clock => Int

/-- `NetworkAwareDestination`. `flux` says whether a FluxVM client is set; `checkConntrack` decodes
a conntrack snapshot and compares its identity with the Machine's. -/
structure NetworkAwareDestination where
  flux : Bool
  checkConntrack : Session → GoErr

variable (N : NetworkAwareDestination) (session : Session)

namespace NetworkAwareDestination

abbrev M := Prog NetworkOp.Ans

def abandon (err : String) : M (Except String PrepareResult) :=
  .call (.abort session) fun _ => .ret (.error err)

def restoreConntrack : M GoErr :=
  if !N.flux || session.conntrackSnapshot == "" || session.runtimeID == "" then
    .ret (.ok ())
  else
    match N.checkConntrack session with
    | .error err => .ret (.error err)
    | .ok () =>
      .call (.restoreConntrack session.runtimeID session.conntrackSnapshot) fun
        | .error err => .ret (.error ("conntrack restore: " ++ err))
        | .ok () => .ret (.ok ())

def prepareConntrack (res : PrepareResult) : M (Except String PrepareResult) := do
  match ← N.restoreConntrack session with
  | .error err => abandon session err
  | .ok () => pure (.ok res)

def prepare : M (Except String PrepareResult) :=
  .call (.prepare session) fun
    | .error err => .ret (.error err)
    | .ok res =>
      if !res.transferSupported || !N.flux || session.runtimeID == "" then
        .ret (.ok res)
      else if session.networkSnapshot == "" && session.conntrackSnapshot == "" then
        .ret (.ok res)
      else if session.networkSnapshot != "" then
        .call (.networkMigrationRestore session.runtimeID session.networkSnapshot) fun
          | .error err => abandon session ("network migration restore: " ++ err)
          | .ok () => N.prepareConntrack session res
      else
        N.prepareConntrack session res

def commit : M GoErr :=
  .call (.commit session) fun
    | .error err => .ret (.error err)
    | .ok () =>
      if !N.flux || session.networkSnapshot == "" || session.runtimeID == "" then
        .ret (.ok ())
      else
        .call (.networkMigrationResume session.runtimeID) fun
          | .error err => .ret (.error ("network migration resume: " ++ err))
          | .ok () => .ret (.ok ())

def abort : M GoErr := .call (.abort session) .ret

def diagnose : M (Except String DiagnosisResult) :=
  .call .clock fun now =>
    if !N.flux then
      .ret (.ok ⟨session.phase, false, "", "", "", now⟩)
    else
      let name := (ObjectKey.mk session.namespace session.machine).runtimeName
      .call (.lookupByName name) fun
        | .error err =>
          .ret (.error ("looking up destination runtime " ++ quote name ++ ": " ++ err))
        | .ok none => .ret (.ok ⟨session.phase, false, "", "", "", now⟩)
        | .ok (some rec) =>
          .ret (.ok ⟨session.phase, true, rec.status, rec.id, rec.guestIP, now⟩)

def driver : DestinationDriver NetworkOp.Ans where
  prepare := N.prepare
  commit := N.commit
  abort := abort
  diagnose := some N.diagnose

end NetworkAwareDestination

/-!
## The commit window

A commit asks the inner driver first, then resumes the network, then stores the phase. Between the
first and the last of these the destination is live while the session still reads Prepared.
-/

abbrev NetEvent := Event (ServerOp.Ans NetworkOp.Ans)

def pendingCommit : List NetEvent → Bool
  | [] => false
  | ⟨.lock _, _⟩ :: _ => false
  | ⟨.unlock _, _⟩ :: _ => false
  | ⟨.put _, .ok ()⟩ :: _ => false
  | ⟨.driver (.commit _), .ok ()⟩ :: _ => true
  | _ :: past => pendingCommit past

def justFailed : List NetEvent → Bool
  | ⟨.driver (.networkMigrationResume _), .error _⟩ :: _ => true
  | ⟨.put _, .error _⟩ :: _ => true
  | _ => false

/--
What the handlers do around the inner driver.

A commit is of the session read under the lock. An abort under the lock is of the session read
there, unfinished, and never in the window after a commit. In that window only the Committed phase
is stored, and the section ends there only after a failure.
-/
def copyRule (past : List NetEvent) : ServerOp NetworkOp → Prop
  | .driver (.commit s) =>
    pendingCommit past = false ∧ ∃ id, held past = some id ∧ lastRead id past = some (some s)
  | .driver (.abort s) =>
    ∀ id, held past = some id →
      pendingCommit past = false ∧ lastRead id past = some (some s) ∧ s.phase.isTerminal = false
  | .put s => pendingCommit past = true → s.phase = .committed
  | .unlock _ => pendingCommit past = true → justFailed past = true
  | _ => True

def MayLeave (past : List NetEvent) : Prop :=
  pendingCommit past = true → justFailed past = true

variable {past : List NetEvent}

theorem mayLeave_of_not_pending (h : pendingCommit past = false) : MayLeave past := by
  intro h'
  simp [h] at h'

/-! ## The handlers keep to the rule -/

theorem commit_section_follows (N : NetworkAwareDestination) (id : String)
    (hheld : Holds id past) (hnone : pendingCommit past = false) :
    (Server.transitionLocked id .committed N.commit).Follows copyRule
      (fun past' _ => MayLeave past') past := by
  refine ⟨trivial, forall_except (fun _ => mayLeave_of_not_pending hnone) fun s₀ => ?_⟩
  refine .ite (fun _ => mayLeave_of_not_pending hnone) fun _ => ?_
  split
  · exact mayLeave_of_not_pending hnone
  split
  · exact mayLeave_of_not_pending hnone
  refine ⟨⟨hnone, id, hheld, by simp [lastRead]⟩, forall_except
    (fun _ => mayLeave_of_not_pending hnone) fun u => ?_⟩
  -- from here on the commit is pending, until the `Put` succeeds
  split
  · exact ⟨trivial, fun n => ⟨fun _ => rfl, forall_except (fun _ _ => rfl)
      fun _ => mayLeave_of_not_pending rfl⟩⟩
  · refine ⟨trivial, forall_except (fun _ _ => rfl) fun u => ?_⟩
    exact ⟨trivial, fun n => ⟨fun _ => rfl, forall_except (fun _ _ => rfl)
      fun _ => mayLeave_of_not_pending rfl⟩⟩

theorem copyRule_put {s : Session} (h : pendingCommit past = false) : copyRule past (.put s) := by
  intro h'
  simp [h] at h'

theorem copyRule_abort {id : String} {s : Session} (hheld : Holds id past)
    (hnone : pendingCommit past = false) (hopen : s.phase.isTerminal = false) :
    copyRule (⟨.get id, .ok s⟩ :: past) (.driver (.abort s)) := by
  intro id' hid'
  obtain rfl : id = id' := Option.some.inj (hheld.symm.trans hid')
  exact ⟨hnone, by simp [lastRead], hopen⟩

theorem abort_section_follows (id : String) (hheld : Holds id past)
    (hnone : pendingCommit past = false) :
    (Server.transitionLocked id .aborted NetworkAwareDestination.abort).Follows copyRule
      (fun past' _ => MayLeave past') past := by
  refine ⟨trivial, forall_except (fun _ => mayLeave_of_not_pending hnone) fun s₀ => ?_⟩
  refine .ite (fun _ => mayLeave_of_not_pending hnone) fun hne => ?_
  split
  · exact mayLeave_of_not_pending hnone
  split
  · exact mayLeave_of_not_pending hnone
  next hc =>
  have hopen : s₀.phase.isTerminal = false := by
    cases hp : s₀.phase <;> simp_all [SessionPhase.isTerminal]
  refine ⟨copyRule_abort hheld hnone hopen, forall_except
    (fun _ => mayLeave_of_not_pending hnone) fun u => ?_⟩
  exact ⟨trivial, fun n => ⟨copyRule_put hnone, forall_except (fun _ _ => rfl)
    fun _ => mayLeave_of_not_pending rfl⟩⟩

theorem reap_section_follows (S : Server NetworkOp.Ans) (N : NetworkAwareDestination)
    (id : String) (seen : Int) (hheld : Holds id past) (hnone : pendingCommit past = false) :
    (S.reapOneLocked N.driver id seen).Follows copyRule (fun past' _ => MayLeave past') past := by
  refine ⟨trivial, fun | .error _ => mayLeave_of_not_pending hnone | .ok s₀ => ?_⟩
  refine .ite (fun _ => mayLeave_of_not_pending hnone) fun hstale => ?_
  have hopen := open_of_isStale hstale
  refine ⟨copyRule_abort hheld hnone hopen, fun
    | .error _ => mayLeave_of_not_pending hnone
    | .ok u => ?_⟩
  exact ⟨trivial, fun n => ⟨copyRule_put hnone, fun
    | .error _ => fun _ => rfl
    | .ok _ => mayLeave_of_not_pending rfl⟩⟩

structure Quiet (past : List NetEvent) : Prop where
  free : Free past
  none : pendingCommit past = false

theorem Quiet.abort (h : Quiet past) (s : Session) : copyRule past (.driver (.abort s)) := by
  intro id hid
  cases (show Option.none = some id from h.free.symm.trans hid)

theorem abandon_follows (session : Session) (err : String) (h : Quiet past) :
    (Server.ofDriver (NetworkAwareDestination.abandon session err)).Follows copyRule
      (fun past' _ => Quiet past') past :=
  ⟨h.abort session, fun _ => ⟨h.free, h.none⟩⟩

theorem prepareConntrack_follows (N : NetworkAwareDestination) (session : Session)
    (res : PrepareResult) (h : Quiet past) :
    (Server.ofDriver (N.prepareConntrack session res)).Follows copyRule
      (fun past' _ => Quiet past') past := by
  unfold NetworkAwareDestination.prepareConntrack NetworkAwareDestination.restoreConntrack
  split
  · exact h
  split
  · exact abandon_follows session _ h
  refine ⟨trivial, fun a => ?_⟩
  have h' : Quiet (⟨.driver (.restoreConntrack session.runtimeID session.conntrackSnapshot), a⟩ ::
      past) := ⟨h.free, h.none⟩
  cases a with
  | error err => exact abandon_follows session _ h'
  | ok u => exact h'

theorem driver_prepare_follows (N : NetworkAwareDestination) (session : Session) (h : Quiet past) :
    (Server.ofDriver (N.prepare session)).Follows copyRule (fun past' _ => Quiet past') past := by
  refine ⟨trivial, fun a => ?_⟩
  have h₁ : Quiet (⟨.driver (.prepare session), a⟩ :: past) := ⟨h.free, h.none⟩
  cases a with
  | error err => exact h₁
  | ok res =>
    show Prog.Follows _ _ _ (Server.ofDriver (if _ then _ else _))
    split
    · exact h₁
    split
    · exact h₁
    split
    · refine ⟨trivial, fun a => ?_⟩
      have h₂ : Quiet (⟨.driver (.networkMigrationRestore session.runtimeID
          session.networkSnapshot), a⟩ :: ⟨.driver (.prepare session), .ok res⟩ :: past) :=
        ⟨h.free, h.none⟩
      cases a with
      | error err => exact abandon_follows session _ h₂
      | ok u => exact prepareConntrack_follows N session res h₂
    · exact prepareConntrack_follows N session res h₁

theorem prepareNew_keeps_copyRule (N : NetworkAwareDestination) (req : Session) (h : Quiet past) :
    (Server.prepareNew N.driver req).Follows copyRule (fun past' _ => Quiet past') past := by
  refine (driver_prepare_follows N req h).bind fun past' r h' => ?_
  cases r with
  | error err => exact h'
  | ok result =>
    refine .ite (fun _ => h') fun _ => ?_
    exact ⟨trivial, fun n => ⟨copyRule_put h'.none, fun
      | .error _ => ⟨Quiet.abort ⟨h'.free, h'.none⟩ _, fun _ => ⟨h'.free, h'.none⟩⟩
      | .ok _ => ⟨h'.free, rfl⟩⟩⟩

theorem driver_of_dependencies {S : Server NetworkOp.Ans} {N : NetworkAwareDestination}
    (hS : S.driver = some N.driver) {d : DestinationDriver NetworkOp.Ans}
    (h : S.dependencies = .ok d) : d = N.driver := by
  unfold Server.dependencies at h
  rw [hS] at h
  split at h
  · cases h
  · cases h
    rfl

theorem copyRule_handled {S : Server NetworkOp.Ans} {N : NetworkAwareDestination}
    (hS : S.driver = some N.driver) : Handled S copyRule Quiet where
  read {_ e} he := by cases e <;> trivial
  kept {_ e _} he h := by cases e <;> first | exact ⟨h.free, h.none⟩ | cases he
  stored {_ _ a} h := by
    cases a with
    | error err => exact ⟨h.free, h.none⟩
    | ok u => exact ⟨h.free, rfl⟩
  lock _ := trivial
  renew h _ := copyRule_put h.none
  prepareNew hd h _ := by
    cases driver_of_dependencies hS hd
    exact prepareNew_keeps_copyRule N _ h
  commit id hd _ := by
    cases driver_of_dependencies hS hd
    exact (commit_section_follows N id (by rfl) (by rfl)).weaken fun _ _ h => ⟨h, rfl, rfl⟩
  abort id hd _ := by
    cases driver_of_dependencies hS hd
    exact (abort_section_follows id (by rfl) (by rfl)).weaken fun _ _ h => ⟨h, rfl, rfl⟩
  reap id seen hd _ := by
    cases driver_of_dependencies hS hd
    exact (reap_section_follows S N id seen (by rfl) (by rfl)).weaken fun _ _ h => ⟨h, rfl, rfl⟩
  diagnose s hf h := by
    rw [hS] at hf
    cases hf
    refine ⟨trivial, fun now => ?_⟩
    split
    · exact ⟨h.free, h.none⟩
    · refine ⟨trivial, fun a => ?_⟩
      rcases a with err | (_ | rec) <;> exact ⟨h.free, h.none⟩

theorem entry_keeps_copyRule {S : Server NetworkOp.Ans} {N : NetworkAwareDestination}
    (hS : S.driver = some N.driver) {p : Server.M NetworkOp.Ans Outcome} (h : S.Entry p) :
    p.Follows copyRule (fun _ _ => True) [] :=
  ((copyRule_handled hS).entry (by exact ⟨rfl, rfl⟩) h).weaken fun _ _ _ => trivial

end Kairon.Migration
