import Kairon.Migration.Host

/-!
# What a call of the server has read and locked

The calls a handler has made say which lock it holds and what its last `Get` of a session said. A
`Put` is made under the lock, after a `Get` in the same section, or without any lock.
-/

namespace Kairon.Migration

open Infra

variable {D : Type} {DAns : D → Type} {past : List (Event (ServerOp.Ans DAns))}

def held : List (Event (ServerOp.Ans DAns)) → Option String
  | [] => none
  | ⟨.lock id, _⟩ :: _ => some id
  | ⟨.unlock _, _⟩ :: _ => none
  | _ :: past => held past

/-- What the last `Get` of `id` said since the thread last locked, unlocked or stored `id`:
`some none` is "not found". -/
def lastRead (id : String) : List (Event (ServerOp.Ans DAns)) → Option (Option Session)
  | [] => none
  | ⟨.lock _, _⟩ :: _ => none
  | ⟨.unlock _, _⟩ :: _ => none
  | ⟨.get id', .ok s⟩ :: past => if id' = id then some (some s) else lastRead id past
  | ⟨.get id', .error .notFound⟩ :: past => if id' = id then some none else lastRead id past
  | ⟨.put s, .ok ()⟩ :: past => if s.id = id then none else lastRead id past
  | _ :: past => lastRead id past

/-- A `Put` under the lock of `id`: of the session read there, which was not finished. -/
structure LockedPut (past : List (Event (ServerOp.Ans DAns))) (id : String) (s : Session) :
    Prop where
  read : ∃ s₀, lastRead id past = some (some s₀) ∧ s.id = s₀.id ∧ s₀.phase.isTerminal = false

/-- A `Put` without a lock: of a new session for an id that was not found, or of one read as
Prepared that stays Prepared. -/
inductive UnlockedPut (past : List (Event (ServerOp.Ans DAns))) (s : Session) : Prop
  | fresh (read : lastRead s.id past = some none) (is : s.phase.isTerminal = false)
  | renew (id : String) (s₀ : Session) (read : lastRead id past = some (some s₀))
      (same : s.id = s₀.id) (was : s₀.phase = .prepared) (is : s.phase = .prepared)

/-- The discipline of the handlers: locks do not nest, and a `Put` is one of the two kinds. -/
def sectionRule (past : List (Event (ServerOp.Ans DAns))) : ServerOp D → Prop
  | .lock _ => held past = none
  | .put s =>
    match held past with
    | some id => LockedPut past id s
    | none => UnlockedPut past s
  | _ => True

/-! ## The handlers keep to the discipline -/

structure SameSection (past past' : List (Event (ServerOp.Ans DAns))) : Prop where
  held : held past' = held past
  read : ∀ id, lastRead id past' = lastRead id past

theorem ofDriver_follows {α : Type} (p : Prog DAns α) (past : List (Event (ServerOp.Ans DAns))) :
    (Server.ofDriver p).Follows sectionRule (fun past' _ => SameSection past past') past := by
  induction p generalizing past with
  | ret a => exact ⟨rfl, fun _ => rfl⟩
  | call d k ih =>
    refine ⟨trivial, fun a => ?_⟩
    exact (ih a _).weaken fun past' _ h => ⟨h.held, h.read⟩

theorem ofDriver_bind_follows {α β : Type} {p : Prog DAns α} {f : α → Server.M DAns β}
    {post : List (Event (ServerOp.Ans DAns)) → β → Prop}
    (h : ∀ past' a, SameSection past past' → (f a).Follows sectionRule post past') :
    (Server.ofDriver p >>= f).Follows sectionRule post past :=
  (ofDriver_follows p past).bind h

theorem SameSection.now {past' : List (Event (ServerOp.Ans DAns))}
    (h : SameSection past past') (n : Int) : SameSection past (⟨.now, n⟩ :: past') :=
  ⟨h.held, h.read⟩

theorem sectionRule_put_locked {id : String} {s s₀ : Session} (hheld : held past = some id)
    (hread : lastRead id past = some (some s₀)) (hid : s.id = s₀.id)
    (hopen : s₀.phase.isTerminal = false) : sectionRule past (.put s : ServerOp D) := by
  simp only [sectionRule, hheld]
  exact ⟨s₀, hread, hid, hopen⟩

theorem put_after_driver {past' : List (Event (ServerOp.Ans DAns))} {id : String} {s s₀ : Session}
    {n : Int} (hheld : held past = some id) (hsame : SameSection (⟨.get id, .ok s₀⟩ :: past) past')
    (hid : s.id = s₀.id) (hopen : s₀.phase.isTerminal = false) :
    sectionRule (⟨.now, n⟩ :: past') (.put s : ServerOp D) := by
  refine sectionRule_put_locked (hsame.held.trans hheld) ?_ hid hopen
  exact (hsame.read id).trans (by simp [lastRead])

def Holds (id : String) (past : List (Event (ServerOp.Ans DAns))) : Prop :=
  held past = some id

def Free (past : List (Event (ServerOp.Ans DAns))) : Prop :=
  held past = none

/-! ## Handlers with a lock -/

theorem transitionLocked_follows (id : String) (desired : SessionPhase)
    (fn : Session → Prog DAns GoErr)
    (hd : desired = .committed ∨ desired = .aborted) (hheld : Holds id past) :
    (Server.transitionLocked id desired fn).Follows sectionRule (fun _ _ => True) past := by
  refine ⟨trivial, fun | .error _ => trivial | .ok s₀ => ?_⟩
  refine .ite (fun _ => trivial) fun hne => ?_
  split
  · trivial
  next hc =>
  split
  · trivial
  next ha =>
  have hopen : s₀.phase.isTerminal = false := by
    rcases hd with rfl | rfl
    · have : s₀.phase = .prepared := by simpa using hc
      simp [this, SessionPhase.isTerminal]
    · cases hp : s₀.phase <;> simp_all [SessionPhase.isTerminal]
  refine ofDriver_bind_follows fun past' r hsame => ?_
  cases r with
  | error err => trivial
  | ok u =>
    refine ⟨trivial, fun n => ⟨put_after_driver hheld hsame rfl hopen, fun r => ?_⟩⟩
    cases r <;> trivial

theorem open_of_isStale {S : Server DAns} {seen : Int} {s : Session}
    (h : ¬(!S.isStale seen s) = true) : s.phase.isTerminal = false := by
  simp only [Server.isStale, Bool.not_eq_true', Bool.not_eq_false, Bool.and_eq_true,
    beq_iff_eq] at h
  simp [h.1, SessionPhase.isTerminal]

theorem reapOneLocked_follows (S : Server DAns) (d : DestinationDriver DAns) (id : String)
    (seen : Int) (hheld : Holds id past) :
    (S.reapOneLocked d id seen).Follows sectionRule (fun _ _ => True) past := by
  refine ⟨trivial, fun | .error _ => trivial | .ok s₀ => ?_⟩
  refine .ite (fun _ => trivial) fun hstale => ?_
  have hopen := open_of_isStale hstale
  refine ofDriver_bind_follows fun past' r hsame => ?_
  cases r with
  | error err => trivial
  | ok u =>
    exact ⟨trivial, fun n => ⟨put_after_driver hheld hsame rfl hopen, fun _ => trivial⟩⟩

/-! ## Handlers without a lock -/

theorem prepareNew_follows (d : DestinationDriver DAns) (req : Session) (hfree : Free past)
    (hread : lastRead req.id past = some none) :
    (Server.prepareNew d req).Follows sectionRule (fun past' _ => Free past') past := by
  refine ofDriver_bind_follows fun past' r hsame => ?_
  have hfree' : Free past' := hsame.held.trans hfree
  cases r with
  | error err => exact hfree'
  | ok result =>
    refine .ite (fun _ => hfree') fun _ => ?_
    refine ⟨trivial, fun n => ⟨?_, fun r => ?_⟩⟩
    · have hheld : held (⟨.now, n⟩ :: past') = none := hfree'
      simp only [sectionRule, hheld]
      refine .fresh (((hsame.now n).read req.id).trans hread) ?_
      show (if _ then _ else _ : SessionPhase).isTerminal = false
      split <;> rfl
    · cases r with
      | error err => exact ofDriver_bind_follows fun _ _ hsame' => hsame'.held.trans hfree'
      | ok u => exact hfree'

def reads : ServerOp D → Bool
  | .get _ | .list | .now => true
  | _ => false

/-! ## All handlers -/

section Handlers

variable (S : Server DAns) (rule : List (Event (ServerOp.Ans DAns)) → ServerOp D → Prop)
  (Out : List (Event (ServerOp.Ans DAns)) → Prop)

def Leaves (id : String) (past : List (Event (ServerOp.Ans DAns))) : Prop :=
  rule past (.unlock id) ∧ Out (⟨.unlock id, ()⟩ :: past)

/-- What the handlers keep to a rule for, each from a past and to a past in `Out`. -/
structure Handled : Prop where
  read : ∀ {past e}, reads e = true → rule past e
  kept : ∀ {past e a}, reads e = true → Out past → Out (⟨e, a⟩ :: past)
  stored : ∀ {past s a}, Out past → Out (⟨.put s, a⟩ :: past)
  lock : ∀ {past id}, Out past → rule past (.lock id)
  renew : ∀ {past id s n}, Out past → s.phase = .prepared →
    rule (⟨.now, n⟩ :: ⟨.get id, .ok s⟩ :: past) (.put { s with updatedAt := n })
  prepareNew : ∀ {past d req}, S.dependencies = .ok d → Out past →
    lastRead req.id past = some none →
    (Server.prepareNew d req).Follows rule (fun past' _ => Out past') past
  commit : ∀ {past d} id, S.dependencies = .ok d → Out past →
    (Server.transitionLocked id .committed d.commit).Follows rule
      (fun past' _ => Leaves rule Out id past') (⟨.lock id, ()⟩ :: past)
  abort : ∀ {past d} id, S.dependencies = .ok d → Out past →
    (Server.transitionLocked id .aborted d.abort).Follows rule
      (fun past' _ => Leaves rule Out id past') (⟨.lock id, ()⟩ :: past)
  reap : ∀ {past d} id seen, S.dependencies = .ok d → Out past →
    (S.reapOneLocked d id seen).Follows rule
      (fun past' _ => Leaves rule Out id past') (⟨.lock id, ()⟩ :: past)
  diagnose : ∀ {past f} s, S.driver.bind DestinationDriver.diagnose = some f → Out past →
    (Server.ofDriver (f s)).Follows rule (fun past' _ => Out past') past

variable {S rule Out} (h : Handled S rule Out) (ho : Out past)

include h ho

theorem reapEach_follows {d : DestinationDriver DAns} (hd : S.dependencies = .ok d) (seen : Int)
    (sessions : List Session) :
    (S.reapEach d seen sessions).Follows rule (fun past' _ => Out past') past := by
  induction sessions generalizing past with
  | nil => exact ho
  | cons s rest ih =>
    rw [Server.reapEach]
    split
    · refine Prog.Follows.bind ?_ fun _ _ ho' => ih ho'
      exact ⟨h.lock ho, fun _ => (h.reap s.id seen hd ho).bind fun _ _ hl => ⟨hl.1, fun _ => hl.2⟩⟩
    · exact ih ho

theorem prepare_follows (body : PrepareBody) :
    (S.prepare body).Follows rule (fun past' _ => Out past') past := by
  unfold Server.prepare
  split
  · exact ho
  next d hd =>
  split
  · exact ho
  · exact ho
  · exact ho
  next req =>
  split
  · exact ho
  split
  · exact ho
  refine ⟨h.read rfl, fun a => ?_⟩
  have ho' : Out (⟨.get req.id, a⟩ :: past) := h.kept rfl ho
  cases a with
  | ok existing =>
    show Prog.Follows _ _ _ (if _ then _ else _)
    split <;> exact ho'
  | error err =>
    cases err with
    | notFound => exact h.prepareNew hd ho' (by simp [lastRead])
    | other err => exact ho'

theorem heartbeat_follows (id : String) :
    (S.heartbeat id).Follows rule (fun past' _ => Out past') past := by
  unfold Server.heartbeat
  split
  · exact ho
  refine ⟨h.read rfl, fun | .error _ => h.kept rfl ho | .ok s₀ => ?_⟩
  show Prog.Follows _ _ _ (if _ then _ else _)
  split
  next hprep =>
    refine ⟨h.read rfl, fun n => ⟨h.renew ho hprep, fun r => ?_⟩⟩
    cases r <;> exact h.stored (h.kept rfl (h.kept rfl ho))
  · exact h.kept rfl ho

theorem diagnosis_follows (id : String) :
    (S.diagnosis id).Follows rule (fun past' _ => Out past') past := by
  unfold Server.diagnosis
  split
  · exact ho
  refine ⟨h.read rfl, fun | .error _ => h.kept rfl ho | .ok s => ?_⟩
  split
  · exact ⟨h.read rfl, fun _ => h.kept rfl (h.kept rfl ho)⟩
  next f hf =>
    refine (h.diagnose s hf (h.kept rfl ho)).bind fun _ r ho' => ?_
    cases r <;> exact ho'

theorem reapStaleSessions_follows :
    S.reapStaleSessions.Follows rule (fun past' _ => Out past') past := by
  unfold Server.reapStaleSessions
  split
  · exact ho
  next d hd =>
  split
  · exact ho
  refine ⟨h.read rfl, fun | .error _ => h.kept rfl ho | .ok sessions => ?_⟩
  refine ⟨h.read rfl, fun seen => ?_⟩
  exact (reapEach_follows h (h.kept rfl (h.kept rfl ho)) hd seen sessions).bind
    fun _ _ ho' => ho'

theorem Handled.entry {p : Server.M DAns Outcome} (hp : S.Entry p) :
    p.Follows rule (fun past' _ => Out past') past := by
  cases hp with
  | prepare body => exact prepare_follows h ho body
  | get id =>
    unfold Server.getSession
    split
    · exact ho
    · refine ⟨h.read rfl, fun a => ?_⟩
      cases a <;> exact h.kept rfl ho
  | commit id =>
    unfold Server.commit Server.transition
    split
    · exact ho
    next d hd =>
      exact ⟨h.lock ho, fun _ => (h.commit id hd ho).bind fun _ _ hl => ⟨hl.1, fun _ => hl.2⟩⟩
  | abort id =>
    unfold Server.abort Server.transition
    split
    · exact ho
    next d hd =>
      exact ⟨h.lock ho, fun _ => (h.abort id hd ho).bind fun _ _ hl => ⟨hl.1, fun _ => hl.2⟩⟩
  | heartbeat id => exact heartbeat_follows h ho id
  | diagnosis id => exact diagnosis_follows h ho id
  | reap => exact reapStaleSessions_follows h ho

end Handlers

theorem sectionRule_handled (S : Server DAns) : Handled S sectionRule Free where
  read {_ e} he := by cases e <;> trivial
  kept {_ e _} he ho := by cases e <;> first | exact ho | cases he
  stored ho := ho
  lock ho := ho
  renew {past id s n} ho hp := by
    have hheld : held (⟨.now, n⟩ :: ⟨.get id, .ok s⟩ :: past) = none := ho
    simp only [sectionRule, hheld]
    exact .renew id s (by simp [lastRead]) rfl hp hp
  prepareNew _ := prepareNew_follows _ _
  commit id _ _ := (transitionLocked_follows id _ _ (.inl rfl) (by rfl)).weaken
    fun _ _ _ => ⟨trivial, rfl⟩
  abort id _ _ := (transitionLocked_follows id _ _ (.inr rfl) (by rfl)).weaken
    fun _ _ _ => ⟨trivial, rfl⟩
  reap id seen _ _ := (reapOneLocked_follows S _ id seen (by rfl)).weaken
    fun _ _ _ => ⟨trivial, rfl⟩
  diagnose s _ ho := (ofDriver_follows _ _).weaken fun _ _ hsame => hsame.held.trans ho

theorem entry_follows {S : Server DAns} {p : Server.M DAns Outcome} (h : S.Entry p) :
    p.Follows sectionRule (fun past _ => Free past) [] :=
  (sectionRule_handled S).entry (by rfl) h

end Kairon.Migration
