import Kairon.Ui.Rule

/-!
# How many passwords are compared

A login asks whether the name is locked out, compares the password, and then counts a failure. Any
number of logins may have asked before the first failure is counted, and all of them compare.

* `counted_inductive`: comparisons next to counted failures
* `attempts_bounded`: how many passwords are compared in a lock-out window
-/

namespace Kairon.Ui

open Infra List Function Host

variable {L : Libraries} {a : AccountSettings}

structure Tally where
  attempts : String → LoginAttemptState
  checked : List UiRequest
  inCompare : List UiRequest
  compared : List Comparison
  cleared : List (String × Int)
  now : Int

def Replica.tally (w : Replica) : Tally :=
  ⟨w.attempts, w.history.checked, w.history.inCompare, w.history.compared, w.history.cleared, w.now⟩

namespace Tally

def underWay (s : Tally) (username : String) : Nat :=
  s.checked.countP fun r => r.2.loginName = some username

def waiting (s : Tally) (username : String) : Nat :=
  s.inCompare.countP fun r => r.2.loginName = some username

def Within (start time : Int) : Prop := start ≤ time ∧ time < start + loginLockoutFor

instance (start time : Int) : Decidable (Within start time) :=
  inferInstanceAs (Decidable (_ ∧ _))

/-- The passwords that were compared with the hash of `username` in a window. -/
def comparedIn (s : Tally) (username : String) (start : Int) : Nat :=
  s.compared.countP fun e => e.username = username ∧ Within start e.time

def ClearedIn (s : Tally) (username : String) (start : Int) : Prop :=
  ∃ x ∈ s.cleared, x.1 = username ∧ Within start x.2

end Tally

/-- A login is let in only if it would not reach `maxLoginAttempts` should it and all that are under
way for the name fail. -/
def Unhurried : Guard UiOp.Ans UiReply UiRequest Replica := fun c l =>
  match l with
  | .call _ ⟨.loginLockedFor username, remaining⟩ => (remaining : Int) ≤ 0 →
      (c.world.attempts username).count + c.world.tally.underWay username < maxLoginAttempts
  | _ => True

/-! ## The steps that concern the lock-out -/

variable (c : UiConf) (st : LoginAttemptState)

def LoginAttemptState.record (now : Int) (success : Bool) : LoginAttemptState :=
  if success then ⟨0, none⟩
  else if maxLoginAttempts ≤ st.count + 1 then ⟨0, some (now + loginLockoutFor)⟩
  else ⟨st.count + 1, st.lockedUntil⟩

theorem LoginAttemptState.record_cases (now : Int) (success : Bool) : success = true ∧ st.record now
    success = ⟨0, none⟩ ∨ success = false ∧ maxLoginAttempts ≤ st.count + 1 ∧ st.record now success
    = ⟨0, some (now + loginLockoutFor)⟩ ∨ success = false ∧ st.count + 1 < maxLoginAttempts ∧
    st.record now success = ⟨st.count + 1, st.lockedUntil⟩ := by
  unfold record
  cases success with
  | true => exact .inl ⟨rfl, rfl⟩
  | false =>
    by_cases hmax : maxLoginAttempts ≤ st.count + 1
    · exact .inr (.inl ⟨rfl, hmax, by simp [hmax]⟩)
    · exact .inr (.inr ⟨rfl, not_le.mp hmax, by simp [hmax]⟩)

def LoginAttemptState.merge (lockedUntil : Int) : LoginAttemptState :=
  if st.lockedUntil.all (· < lockedUntil) then { st with lockedUntil := some lockedUntil } else st

theorem LoginAttemptState.count_merge (t : Int) : (st.merge t).count = st.count := by
  unfold merge
  split <;> rfl

theorem LoginAttemptState.lockedUntil_merge {st : LoginAttemptState} {t : Int}
    (h : st.lockedUntil = some t) (t' : Int) :
    ∃ t'', (st.merge t').lockedUntil = some t'' ∧ t ≤ t'' := by
  unfold merge
  split
  · next hall =>
    rw [h] at hall
    exact ⟨t', rfl, (of_decide_eq_true hall).le⟩
  · exact ⟨t, h, le_rfl⟩

namespace Tally

def after (s : Tally) (r : UiRequest) : (e : UiOp) → e.Ans → Tally
  | .loginLockedFor _, remaining =>
    if (remaining : Int) > 0 then s else { s with checked := r :: s.checked }
  | .compareHash username user _, matched =>
    { s with
      inCompare := if r ∈ s.checked then r :: s.inCompare else s.inCompare
      compared := if r ∈ s.checked ∧ user.isSome then ⟨username, s.now, matched⟩ :: s.compared
        else s.compared }
  | .recordLoginResult username success, _ =>
    { s with
      attempts := update s.attempts username ((s.attempts username).record s.now success)
      checked := s.checked.erase r
      inCompare := s.inCompare.erase r
      cleared := if success then (username, s.now) :: s.cleared else s.cleared }
  | .mergeLockout username t, _ =>
    { s with attempts := update s.attempts username ((s.attempts username).merge t) }
  | _, _ => s

def Reads (s : Tally) : (e : UiOp) → e.Ans → Prop
  | .loginLockedFor username, remaining => (remaining : Int) ≤ 0 →
      ∀ t, (s.attempts username).lockedUntil = some t → t ≤ s.now
  | _, _ => True

end Tally

theorem attempts_setAttempts (w : Replica) (username : String) (st : LoginAttemptState) :
    (w.setAttempts username st).attempts = update w.attempts username st := by
  funext name
  by_cases hname : name = username
  · subst hname
    simp [Replica.attempts, Replica.setAttempts, lookup_put_self]
  · simp [Replica.attempts, Replica.setAttempts, lookup_put_of_ne hname, hname]

theorem lockedFor_nonpos {w : Replica} {username : String} (h : w.lockedFor username ≤ 0) {t : Int}
    (ht : (w.attempts username).lockedUntil = some t) : t ≤ w.now := by
  simp only [Replica.lockedFor, ht] at h
  omega

theorem recorded_fst (w : Replica) (username : String) (success : Bool) :
    (w.recorded username success).1 = (w.attempts username).record w.now success := by
  unfold Replica.recorded LoginAttemptState.record
  dsimp only
  split
  · rfl
  split <;> rfl

theorem tally_after {r : UiRequest} {w w' : Replica} {e : UiOp} {ans : e.Ans}
    (h : w' ∈ (replicaHost L a).outcomes r w e ans) :
    w.tally.Reads e ans ∧ w'.tally = w.tally.after r e ans := by
  obtain ⟨hans, rfl⟩ := Replica.eq_after h
  cases e with
  | loginLockedFor username =>
    obtain rfl : ans = w.lockedFor username := of_decide_eq_true hans
    refine ⟨fun hle t ht => lockedFor_nonpos hle ht, ?_⟩
    rw [Tally.after, Replica.after]
    split <;> rfl
  | recordLoginResult username success =>
    refine ⟨trivial, ?_⟩
    show Tally.mk (w.setAttempts username (w.recorded username success).1).attempts .. = _
    rw [attempts_setAttempts, recorded_fst]
    rfl
  | mergeLockout username t =>
    refine ⟨trivial, ?_⟩
    show Tally.mk (w.setAttempts username (w.mergedLockout username t)).attempts .. = _
    rw [attempts_setAttempts]
    rfl
  | replaceHash username hash => cases ans <;> exact ⟨trivial, rfl⟩
  | restoreHash idx previous =>
    refine ⟨trivial, ?_⟩
    rw [Replica.after]
    split <;> rfl
  | patchSecret users =>
    refine ⟨trivial, ?_⟩
    rw [Replica.after]
    split <;> rfl
  | _ => exact ⟨trivial, rfl⟩

/-! ## What is kept -/

/-- A window has a success in it; or what was compared in it is counted or will be; or nothing more
will be compared in it, because it is over or because the name is locked out until it is. -/
def Tally.Bounded (s : Tally) (username : String) (start : Int) : Prop :=
  s.ClearedIn username start ∨
  s.comparedIn username start ≤ (s.attempts username).count + s.waiting username ∨
  s.comparedIn username start ≤ maxLoginAttempts ∧ (start + loginLockoutFor ≤ s.now ∨
      s.underWay username = 0 ∧
        ∃ t, (s.attempts username).lockedUntil = some t ∧ start + loginLockoutFor ≤ t)

def phaseOf (ps : Pasts UiOp.Ans UiRequest) (r : UiRequest) : Phase :=
  (ps r).elim .out phase

theorem phaseOf_update_self (ps : Pasts UiOp.Ans UiRequest) (r : UiRequest)
    (new : Option (List (Event UiOp.Ans))) : phaseOf (update ps r new) r = new.elim .out phase := by
  rw [phaseOf, update_self]

theorem phaseOf_update_of_ne (ps : Pasts UiOp.Ans UiRequest) {r u : UiRequest} (h : u ≠ r)
    (new : Option (List (Event UiOp.Ans))) : phaseOf (update ps r new) u = phaseOf ps u := by
  rw [phaseOf, update_of_ne h, phaseOf]

structure Counted (s : Tally) (ps : Pasts UiOp.Ans UiRequest) : Prop where
  budget : ∀ name, (s.attempts name).count + s.underWay name ≤ maxLoginAttempts
  times : ∀ e ∈ s.compared, e.time ≤ s.now
  checkedOnce : s.checked.Nodup
  comparedOnce : s.inCompare.Nodup
  checked : ∀ r, r ∈ s.checked ↔ phaseOf ps r ≠ .out
  inCompare : ∀ r, r ∈ s.inCompare ↔ phaseOf ps r = .waiting
  windows : ∀ name start, s.Bounded name start

namespace Counted

variable {s : Tally} {ps : Pasts UiOp.Ans UiRequest} {r : UiRequest}
  {past : List (Event UiOp.Ans)}

theorem waiting_le (h : Counted s ps) (name : String) : s.waiting name ≤ s.underWay name := by
  have hsub : s.inCompare ⊆ s.checked := by
    intro r hr
    rw [h.checked, (h.inCompare r).mp hr]
    exact nofun
  exact (subperm_of_subset h.comparedOnce hsub).countP_le _

theorem comparedIn_le (h : Counted s ps) {name : String} {start : Int}
    (hnone : ¬s.ClearedIn name start) : s.comparedIn name start ≤ maxLoginAttempts := by
  rcases h.windows name start with hcleared | hcounted | ⟨hle, -⟩
  · exact absurd hcleared hnone
  · have hbudget := h.budget name
    have hwaiting := h.waiting_le name
    omega
  · exact hle

theorem comparedIn_eq_zero (h : Counted s ps) {name : String} {start : Int}
    (hstart : s.now < start) : s.comparedIn name start = 0 := by
  refine countP_eq_zero.mpr fun e he hwithin => ?_
  have hle := h.times e he
  have hge := (of_decide_eq_true hwithin).2.1
  omega

theorem thread (h : Counted s ps) {new : Option (List (Event UiOp.Ans))}
    (hnew : new.elim .out phase = phaseOf ps r) : Counted s (update ps r new) := by
  have hsame : phaseOf (update ps r new) = phaseOf ps := by
    funext u
    by_cases hu : u = r
    · rw [hu, phaseOf_update_self, hnew]
    · exact phaseOf_update_of_ne ps hu new
  exact { h with
    checked := by rw [hsame]; exact h.checked
    inCompare := by rw [hsame]; exact h.inCompare }

theorem letIn (h : Counted s ps) {name : String} (hname : r.2.loginName = some name)
    (hout : phaseOf ps r = .out) (hfree : ∀ t, (s.attempts name).lockedUntil = some t → t ≤ s.now)
    (hroom : (s.attempts name).count + s.underWay name < maxLoginAttempts)
    {past : List (Event UiOp.Ans)} (hin : phase past = .letIn) :
    Counted { s with checked := r :: s.checked } (update ps r (some past)) := by
  have hnew : r ∉ s.checked := fun hr => (h.checked r).mp hr hout
  have hnotyet : r ∉ s.inCompare := fun hr => by
    simp [h.inCompare, hout] at hr
  have hother : ∀ u ≠ name, (r :: s.checked).countP (fun r => r.2.loginName = some u) =
      s.underWay u := by
    intro u hu
    exact countP_cons_of_neg (by simpa [hname] using hu.symm)
  refine { h with budget := ?_, checkedOnce := ?_, checked := ?_, inCompare := ?_, windows := ?_ }
  · intro u
    show (s.attempts u).count + (r :: s.checked).countP _ ≤ maxLoginAttempts
    by_cases hu : u = name
    · rwa [hu, countP_cons_of_pos (by simpa using hname)]
    · rw [hother u hu]
      exact h.budget u
  · exact nodup_cons.mpr ⟨hnew, h.checkedOnce⟩
  · intro u
    by_cases hu : u = r
    · simp [hu, phaseOf_update_self, hin]
    · rw [phaseOf_update_of_ne ps hu, mem_cons, or_iff_right hu, h.checked]
  · intro u
    by_cases hu : u = r
    · simp [hu, phaseOf_update_self, hin, hnotyet]
    · rw [phaseOf_update_of_ne ps hu, h.inCompare]
  · intro u start
    rcases h.windows u start with hcleared | hcounted | ⟨hle, hover | ⟨hnone, t, ht, hlocked⟩⟩
    · exact .inl hcleared
    · exact .inr (.inl hcounted)
    · exact .inr (.inr ⟨hle, .inl hover⟩)
    · by_cases hu : u = name
      · -- the lock-out is over, and so the window is
        subst hu
        exact .inr (.inr ⟨hle, .inl (hlocked.trans (hfree t ht))⟩)
      · exact .inr (.inr ⟨hle, .inr ⟨(hother u hu).trans hnone, t, ht, hlocked⟩⟩)

theorem compare (h : Counted s ps) {name : String} (hname : r.2.loginName = some name)
    (hin : phaseOf ps r = .letIn) (user : Option User) (password : String) (matched : Bool)
    {past : List (Event UiOp.Ans)} (hwaiting : phase past = .waiting) :
    Counted (s.after r (.compareHash name user password) matched)
      (update ps r (some past)) := by
  have hchecked : r ∈ s.checked := by
    rw [h.checked, hin]
    exact nofun
  have hnotyet : r ∉ s.inCompare := fun hr => by
    simp [h.inCompare, hin] at hr
  obtain ⟨compared, hcompared⟩ : ∃ compared, compared = (s.after r (.compareHash name user password)
    matched).compared := ⟨_, rfl⟩
  have hafter : s.after r (.compareHash name user password) matched =
      { s with inCompare := r :: s.inCompare, compared := compared } := by
    rw [hcompared, Tally.after, if_pos hchecked]
  have hcases : compared = s.compared ∨ compared = ⟨name, s.now, matched⟩ :: s.compared := by
    rw [hcompared]
    simp only [Tally.after]
    split
    · exact .inr rfl
    · exact .inl rfl
  rw [hafter]
  refine { h with times := ?_, comparedOnce := ?_, checked := ?_, inCompare := ?_, windows := ?_ }
  · intro e he
    rcases hcases with rfl | rfl
    · exact h.times e he
    · rcases mem_cons.mp he with rfl | he
      · exact le_rfl
      · exact h.times e he
  · exact nodup_cons.mpr ⟨hnotyet, h.comparedOnce⟩
  · intro u
    by_cases hu : u = r
    · simp [hu, phaseOf_update_self, hwaiting, hchecked]
    · rw [phaseOf_update_of_ne ps hu, h.checked]
  · intro u
    by_cases hu : u = r
    · simp [hu, phaseOf_update_self, hwaiting]
    · rw [phaseOf_update_of_ne ps hu, mem_cons, or_iff_right hu, h.inCompare]
  · intro u start
    -- one more comparison at most, of this name, and only in a window that is not over
    have hmore : compared.countP (fun e => e.username = u ∧ Tally.Within start e.time) ≤
        s.comparedIn u start + (if u = name ∧ s.now < start + loginLockoutFor then 1 else 0) := by
      rcases hcases with rfl | rfl
      · exact Nat.le_add_right ..
      · rw [countP_cons]
        refine Nat.add_le_add_left ?_ _
        split
        · next hin =>
          obtain ⟨hu, -, hlt⟩ := of_decide_eq_true hin
          rw [if_pos ⟨hu.symm, hlt⟩]
        · exact Nat.zero_le _
    by_cases hu : u = name
    · subst hu
      have hone : (r :: s.inCompare).countP (fun r => r.2.loginName = some u) = s.waiting u + 1 :=
        countP_cons_of_pos (by simpa using hname)
      rcases h.windows u start with hcleared | hcounted | ⟨hle, hover | ⟨hnone, -⟩⟩
      · exact .inl hcleared
      · refine .inr (.inl ?_)
        show compared.countP _ ≤ (s.attempts u).count + (r :: s.inCompare).countP _
        rw [hone]
        split at hmore <;> omega
      · refine .inr (.inr ⟨?_, .inl hover⟩)
        rw [if_neg (by omega)] at hmore
        exact hmore.trans hle
      · exact absurd hnone (countP_pos_iff.mpr ⟨r, hchecked, by simpa using hname⟩).ne'
    · have hsame : (r :: s.inCompare).countP (fun r => r.2.loginName = some u) = s.waiting u :=
        countP_cons_of_neg (by simpa [hname] using Ne.symm hu)
      rw [if_neg (by simp [hu])] at hmore
      rcases h.windows u start with hcleared | hcounted | ⟨hle, hover⟩
      · exact .inl hcleared
      · refine .inr (.inl ?_)
        show compared.countP _ ≤ (s.attempts u).count + (r :: s.inCompare).countP _
        rw [hsame]
        exact hmore.trans hcounted
      · exact .inr (.inr ⟨hmore.trans hle, hover⟩)

end Counted

/-! ## A result is recorded -/

structure Recorded (s s' : Tally) (name : String) (success : Bool) : Prop where
  underWay : ∀ u, s.underWay u = s'.underWay u + if u = name then 1 else 0
  waiting : ∀ u, s.waiting u = s'.waiting u + if u = name then 1 else 0
  attempts : s'.attempts = update s.attempts name ((s.attempts name).record s.now success)
  compared : s'.compared = s.compared
  cleared : s'.cleared = if success then (name, s.now) :: s.cleared else s.cleared
  now : s'.now = s.now

theorem countP_leave {r : UiRequest} {l : List UiRequest} {name : String}
    (hname : r.2.loginName = some name) (hr : r ∈ l) (u : String) :
    l.countP (fun r => r.2.loginName = some u) =
      (l.erase r).countP (fun r => r.2.loginName = some u) + if u = name then 1 else 0 := by
  rw [(perm_cons_erase hr).countP_eq, countP_cons]
  by_cases hu : u = name
  · simp [hname, hu]
  · simp [hname, hu, Ne.symm hu]

theorem recorded_after {s : Tally} {r : UiRequest} {name : String}
    (hname : r.2.loginName = some name) (hchecked : r ∈ s.checked) (hcompared : r ∈ s.inCompare)
    (success : Bool) (lockedUntil : Option Int) :
    Recorded s (s.after r (.recordLoginResult name success) lockedUntil) name success where
  underWay := countP_leave hname hchecked
  waiting := countP_leave hname hcompared
  attempts := rfl
  compared := rfl
  cleared := rfl
  now := rfl

namespace Recorded

variable {s s' : Tally} {ps : Pasts UiOp.Ans UiRequest} {name : String} {success : Bool}

theorem attempts_self (h : Recorded s s' name success) :
    s'.attempts name = (s.attempts name).record s.now success := by
  rw [h.attempts, update_self]

theorem attempts_of_ne (h : Recorded s s' name success) {u : String} (hu : u ≠ name) :
    s'.attempts u = s.attempts u := by
  rw [h.attempts, update_of_ne hu]

theorem comparedIn (h : Recorded s s' name success) (u : String) (start : Int) :
    s'.comparedIn u start = s.comparedIn u start := by
  rw [Tally.comparedIn, h.compared, Tally.comparedIn]

theorem clearedIn (h : Recorded s s' name success) {u : String} {start : Int}
    (hcleared : s.ClearedIn u start) : s'.ClearedIn u start := by
  obtain ⟨x, hx, hin⟩ := hcleared
  refine ⟨x, ?_, hin⟩
  rw [h.cleared]
  split
  · exact mem_cons_of_mem _ hx
  · exact hx

theorem budget (h : Recorded s s' name success) (hcounted : Counted s ps) (u : String) :
    (s'.attempts u).count + s'.underWay u ≤ maxLoginAttempts := by
  have hbudget := hcounted.budget u
  rw [h.underWay u] at hbudget
  by_cases hu : u = name
  · subst hu
    rw [if_pos rfl] at hbudget
    rw [h.attempts_self]
    rcases (s.attempts u).record_cases s.now success with ⟨-, heq⟩ | ⟨-, -, heq⟩ | ⟨-, -, heq⟩
    all_goals
      rw [heq]
      dsimp only
      omega
  · rw [if_neg hu] at hbudget
    rwa [h.attempts_of_ne hu]

theorem windows_self (h : Recorded s s' name success) (hcounted : Counted s ps) (start : Int) :
    s'.Bounded name start := by
  have hunderWay := h.underWay name
  have hwaiting := h.waiting name
  rw [if_pos rfl] at hunderWay hwaiting
  by_cases hcleared : s.ClearedIn name start
  · exact .inl (h.clearedIn hcleared)
  have hle := hcounted.comparedIn_le hcleared
  rw [← h.comparedIn name start] at hle
  by_cases hbegun : s.now < start
  · refine .inr (.inl ?_)
    rw [h.comparedIn, hcounted.comparedIn_eq_zero hbegun]
    exact Nat.zero_le _
  have hself := h.attempts_self
  rcases (s.attempts name).record_cases s.now success with
    ⟨hsuccess, heq⟩ | ⟨-, hmax, heq⟩ | ⟨-, -, heq⟩
  · -- a success is in the window or after it
    by_cases hover : start + loginLockoutFor ≤ s.now
    · exact .inr (.inr ⟨hle, .inl (h.now ▸ hover)⟩)
    · refine .inl ⟨(name, s.now), ?_, rfl, not_lt.mp hbegun, not_le.mp hover⟩
      rw [h.cleared, if_pos hsuccess]
      exact mem_cons_self
  · -- the last failure: nobody is under way any more, and the name is locked out
    have hbudget := hcounted.budget name
    refine .inr (.inr ⟨hle, .inr ⟨by omega, s.now + loginLockoutFor, ?_, by omega⟩⟩)
    rw [hself, heq]
  · rw [heq] at hself
    rcases hcounted.windows name start with h' | hin | ⟨-, hover | ⟨hnone, -⟩⟩
    · exact absurd h' hcleared
    · refine .inr (.inl ?_)
      rw [h.comparedIn, hself]
      dsimp only
      omega
    · exact .inr (.inr ⟨hle, .inl (h.now ▸ hover)⟩)
    · omega

theorem windows_of_ne (h : Recorded s s' name success) (hcounted : Counted s ps) {u : String}
    (hu : u ≠ name) (start : Int) : s'.Bounded u start := by
  have hunderWay := h.underWay u
  have hwaiting := h.waiting u
  rw [if_neg hu] at hunderWay hwaiting
  unfold Tally.Bounded
  rw [h.comparedIn, h.attempts_of_ne hu, h.now, ← Nat.add_zero (s'.waiting u), ← hwaiting,
    ← Nat.add_zero (s'.underWay u), ← hunderWay]
  rcases hcounted.windows u start with hcleared | hrest
  · exact .inl (h.clearedIn hcleared)
  · exact .inr hrest

end Recorded

namespace Counted

variable {s : Tally} {ps : Pasts UiOp.Ans UiRequest} {r : UiRequest}
  {past : List (Event UiOp.Ans)}

theorem leave (h : Counted s ps) {name : String} (hname : r.2.loginName = some name)
    (hwaiting : phaseOf ps r = .waiting) (success : Bool) (lockedUntil : Option Int)
    (hout : phase past = .out) : Counted (s.after r (.recordLoginResult name success) lockedUntil)
      (update ps r (some past)) := by
  have hchecked : r ∈ s.checked := by
    rw [h.checked, hwaiting]
    exact nofun
  have hrecorded :=
    recorded_after hname hchecked ((h.inCompare r).mpr hwaiting) success lockedUntil
  constructor
  · exact hrecorded.budget h
  · exact h.times
  · exact h.checkedOnce.erase r
  · exact h.comparedOnce.erase r
  · intro u
    show u ∈ s.checked.erase r ↔ _
    rw [h.checkedOnce.mem_erase_iff]
    by_cases hu : u = r
    · simp [hu, phaseOf_update_self, hout]
    · rw [phaseOf_update_of_ne ps hu, h.checked, and_iff_right hu]
  · intro u
    show u ∈ s.inCompare.erase r ↔ _
    rw [h.comparedOnce.mem_erase_iff]
    by_cases hu : u = r
    · simp [hu, phaseOf_update_self, hout]
    · rw [phaseOf_update_of_ne ps hu, h.inCompare, and_iff_right hu]
  · intro u start
    by_cases hu : u = name
    · rw [hu]
      exact hrecorded.windows_self h start
    · exact hrecorded.windows_of_ne h hu start

theorem merge (h : Counted s ps) (name : String) (t : Int) :
    Counted (s.after r (.mergeLockout name t) ()) ps := by
  have hcount : ∀ u, ((s.after r (.mergeLockout name t) ()).attempts u).count =
      (s.attempts u).count := by
    intro u
    by_cases hu : u = name
    · simp [hu, Tally.after, LoginAttemptState.count_merge]
    · simp [hu, Tally.after]
  have hlocked : ∀ u t₁, (s.attempts u).lockedUntil = some t₁ → ∃ t₂,
      ((s.after r (.mergeLockout name t) ()).attempts u).lockedUntil = some t₂ ∧ t₁ ≤ t₂ := by
    intro u t₁ ht₁
    by_cases hu : u = name
    · subst hu
      simpa [Tally.after] using LoginAttemptState.lockedUntil_merge ht₁ t
    · exact ⟨t₁, by simpa [Tally.after, hu] using ht₁, le_rfl⟩
  refine { h with budget := ?_, windows := ?_ }
  · intro u
    rw [hcount u]
    exact h.budget u
  · intro u start
    rcases h.windows u start with hcleared | hcounted | ⟨hle, hover | ⟨hnone, t₁, ht₁, hlate⟩⟩
    · exact .inl hcleared
    · exact .inr (.inl (by rw [hcount u]; exact hcounted))
    · exact .inr (.inr ⟨hle, .inl hover⟩)
    · obtain ⟨t₂, ht₂, hle₂⟩ := hlocked u t₁ ht₁
      exact .inr (.inr ⟨hle, .inr ⟨hnone, t₂, ht₂, hlate.trans hle₂⟩⟩)

theorem time (h : Counted s ps) {now : Int} (hlater : s.now ≤ now) :
    Counted { s with now := now } ps := by
  refine { h with times := fun e he => (h.times e he).trans hlater, windows := ?_ }
  intro u start
  rcases h.windows u start with hcleared | hcounted | ⟨hle, hover | hlocked⟩
  · exact .inl hcleared
  · exact .inr (.inl hcounted)
  · exact .inr (.inr ⟨hle, .inl (hover.trans hlater)⟩)
  · exact .inr (.inr ⟨hle, .inr hlocked⟩)

end Counted

theorem counted_inductive : Inductive (replicaHost L a) UiRule (Replied L.crypto a) Unhurried
      (fun w ps => Counted w.tally ps) where
  start {w ps r} h hfree := h.thread (by rw [phaseOf, hfree]; rfl)
  call {c r e ans w past} h hpast hrule hguard hout := by
    obtain ⟨hreads, hafter⟩ := tally_after hout
    have hphase : phaseOf c.past r = phase past := by rw [phaseOf, hpast]; rfl
    rw [hafter]
    cases e with
    | loginLockedFor name =>
      obtain ⟨hname, hidle⟩ := hrule
      rw [Tally.after]
      split
      · next hlocked => exact h.thread (by rw [hphase, hidle]; exact if_pos hlocked)
      · next hlocked =>
        have hle : (ans : Int) ≤ 0 := not_lt.mp hlocked
        exact h.letIn hname (hphase.trans hidle) (hreads hle) (hguard hle) (if_neg hlocked)
    | compareHash name user password =>
      rcases hrule with hidle | ⟨hname, hin⟩
      · have hnot : r ∉ c.world.tally.checked := by
          rw [h.checked, hphase, hidle]
          exact not_not.mpr rfl
        simp only [Tally.after, hnot, if_false, false_and]
        exact h.thread (by rw [hphase]; simp [phase, hidle])
      · exact h.compare hname (hphase.trans hin) user password ans (by simp [phase, hin])
    | recordLoginResult name success =>
      exact h.leave hrule.1 (hphase.trans hrule.2) success ans rfl
    | mergeLockout name t => exact (h.merge name t).thread hphase.symm
    | _ => exact h.thread hphase.symm
  stop {w ps r past reply} h hpast hreply := h.thread (by rw [phaseOf, hpast]; exact hreply.1.symm)
  crash _ _ hcrash _ := hcrash.elim
  env {c w} h henv _ := by
    cases henv with
    | time later => exact h.time later
    | secret users => exact h

def wrongLogin (k : Nat) : UiRequest := (k, .login (.ok ⟨"bob", "wrong"⟩))

noncomputable def sixTogether : List UiMove :=
  (List.range 6).flatMap fun k => begin (wrongLogin k) :: steps (wrongLogin k) 4 .ok

noncomputable def fiveInTurn : List UiMove :=
  ((List.range 4).flatMap fun k =>
    begin (wrongLogin k) :: steps (wrongLogin k) 5 .ok ++ [.stop (wrongLogin k)]) ++
  begin (wrongLogin 4) :: steps (wrongLogin 4) 6 .ok ++ [.stop (wrongLogin 4)]

theorem not_clearedIn {c : UiConf} (h : c.world.history.cleared = []) {name : String}
    {start : Int} : ¬c.world.tally.ClearedIn name start := by
  rintro ⟨x, hx, -⟩
  rw [show c.world.tally.cleared = [] from h] at hx
  cases hx

def unhurried : UiLabel → Bool
  | .call _ ⟨.loginLockedFor username, _⟩ =>
    (c.world.attempts username).count + c.world.tally.underWay username < maxLoginAttempts
  | _ => true

theorem unhurried_sound (l : UiLabel) (h : unhurried c l = true) : Unhurried c l := by
  cases l with
  | call r ev =>
    obtain ⟨e, ans⟩ := ev
    cases e with
    | loginLockedFor username => exact fun _ => of_decide_eq_true h
    | _ => trivial
  | _ => trivial

end Kairon.Ui
