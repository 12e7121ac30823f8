import Kairon.Ui.Rule

/-!
# A password change and the list of users

`setPasswordHash` remembers the place of the user in the list, and lets go of the list before it
persists it and before it takes a failed change back. In between the loop may replace the list.

* `Careful`: what a change may do to the users, in memory and in the Secret
* `holds_call`, `holds_run`: the list and the Secret at every point of a change that nobody disturbs
* `password_change_careful_iff`: such a change is careful exactly if the list and the Secret had the
  same of the other users when it began, or the Secret was not written
-/

namespace Kairon.Ui

open Infra List Host

variable {L : Libraries} {a : AccountSettings} {idx : Nat} {w w₁ : Replica} {username : String}
  {past : List (Event UiOp.Ans)} {r : UiRequest} {x : Replacement} {s : Change}

def hashesOf (users : List User) (username : String) : List String :=
  (users.filter fun u => u.username = username).map User.passwordHash

/-- A change of `username`'s password to `hash`, from the list and the Secret of `w` to those of
`w'`: no hash of another user is different, nothing outside the list was indexed, and after a
success the Secret has the new hash. -/
structure Careful (username hash : String) (past : List (Event UiOp.Ans)) (p : UiProg)
    (w w' : Replica) : Prop where
  memory : ∀ v ≠ username, hashesOf w'.server.users v = hashesOf w.server.users v
  persisted : ∀ v ≠ username, hashesOf w'.secret v = hashesOf w.secret v
  inside : ∀ x patched, change past ≠ .restored x patched false
  success : p = .ret .noContent →
    (w'.secret.find? fun u => u.username = username).map User.passwordHash = some hash

/-- Until `r` is over, no step of anyone else changes the list of users or the Secret. -/
def Undisturbed (r : UiRequest) : Guard UiOp.Ans UiReply UiRequest Replica
  | c, .call t ev => t ≠ r →
    (c.world.after t ev.op ev.ans).server.users = c.world.server.users ∧
      (c.world.after t ev.op ev.ans).secret = c.world.secret
  | c, .env w => w.secret = c.world.secret
  | _, .stop t _ => t ≠ r
  | _, _ => True

/-! ## The place of a user -/

theorem setHashAt_length (front : List User) (user : User) (back : List User) (hash : String) :
    setHashAt (front ++ user :: back) front.length hash =
      front ++ { user with passwordHash := hash } :: back := by
  simp [setHashAt, modify_eq_take_cons_drop]

theorem place_split {previous : String} (h : w.place username = some (idx, previous)) :
    ∃ front user back, w.server.users = front ++ user :: back ∧ front.length = idx ∧
      user.username = username ∧ user.passwordHash = previous ∧
      ∀ u ∈ front, u.username ≠ username := by
  obtain ⟨i, hi, hfound⟩ := Option.bind_eq_some_iff.mp h
  obtain ⟨user, huser, heq⟩ := Option.map_eq_some_iff.mp hfound
  cases heq
  obtain ⟨hlt, hname, hfirst⟩ := findIdx?_eq_some_iff_getElem.mp hi
  obtain ⟨-, rfl⟩ := List.getElem?_eq_some_iff.mp huser
  refine ⟨w.server.users.take idx, _, w.server.users.drop (idx + 1), ?_, length_take_of_le hlt.le,
    by simpa using hname, rfl, fun u hu => ?_⟩
  · rw [getElem_cons_drop, take_append_drop]
  · obtain ⟨j, hj, rfl⟩ := mem_take_iff_getElem.mp hu
    simpa using hfirst j (lt_of_lt_of_le hj (min_le_left ..))

/-- The list with the new hash in it. -/
def renewed (w : Replica) (x : Replacement) : List User := setHashAt w.server.users x.idx x.hash

section Renewed

variable (h : w.place username = some (x.idx, x.previous))

include h

theorem hashesOf_renewed {v : String} (hv : v ≠ username) :
    hashesOf (renewed w x) v = hashesOf w.server.users v := by
  obtain ⟨front, user, back, husers, hlen, hname, -, -⟩ := place_split h
  rw [renewed, husers, ← hlen, setHashAt_length]
  simp [hashesOf, hname, hv.symm]

theorem find_renewed : ((renewed w x).find? fun u => u.username = username).map User.passwordHash =
    some x.hash := by
  obtain ⟨front, user, back, husers, hlen, hname, -, hfirst⟩ := place_split h
  have hnone : front.find? (fun u => decide (u.username = username)) = none := by
    simpa using hfirst
  rw [renewed, husers, ← hlen, setHashAt_length]
  simp [find?_append, hnone, hname]

theorem setHashAt_renewed : setHashAt (renewed w x) x.idx x.previous = w.server.users := by
  obtain ⟨front, user, back, husers, hlen, -, hprevious, -⟩ := place_split h
  rw [renewed, husers, ← hlen, setHashAt_length, setHashAt_length, ← hprevious]

theorem idx_lt_renewed : x.idx < (renewed w x).length := by
  obtain ⟨front, user, back, husers, hlen, -, -, -⟩ := place_split h
  rw [renewed, husers, ← hlen, setHashAt_length]
  simp

end Renewed

/-! ## The steps of a change -/

def Change.carriedOut : Change → Bool
  | written _ patched | restored _ patched _ => patched.carriedOut
  | _ => false

def Change.users (w₁ : Replica) (x : Replacement) : Change → List User
  | restored _ _ _ => w₁.server.users
  | _ => renewed w₁ x

/-- The list and the Secret when the replacement `x`, begun in `w₁`, is as far as `s`. -/
structure Holds (w₁ : Replica) (x : Replacement) (w : Replica) (s : Change) : Prop where
  ours : match s with
    | .idle => False
    | .replaced y | .written y _ => y = x
    | .read y users => y = x ∧ users = renewed w₁ x
    | .restored y _ inside => y = x ∧ inside = true
  memory : w.server.users = s.users w₁ x
  persisted : w.secret = if s.carriedOut then renewed w₁ x else w₁.secret

theorem Holds.congr {w' : Replica} (h : Holds w₁ x w s) (husers : w'.server.users = w.server.users)
    (hsecret : w'.secret = w.secret) : Holds w₁ x w' s :=
  ⟨h.ours, husers.trans h.memory, hsecret.trans h.persisted⟩

/-- A step of the request itself. -/
theorem holds_call (hplace : w₁.place username = some (x.idx, x.previous))
    (hchanges : r.2.changes = some username) (h : Holds w₁ x w (change past)) {e : UiOp}
    {ans : e.Ans} (hrule : UiRule r past e)
    (hans : w.answers L.passwordMatches L.dummyHash e ans = true) :
    Holds w₁ x (w.after r e ans) (change (⟨e, ans⟩ :: past)) := by
  cases e with
  | replaceHash name hash =>
    rw [hrule.2] at h
    exact h.ours.elim
  | replaceUsers users =>
    -- the loop replaces the list, and no request that changes a password does
    rw [show r.2 = .sync from hrule] at hchanges
    cases hchanges
  | readUsers =>
    obtain ⟨y, hy⟩ := hrule
    obtain ⟨-, rfl⟩ : w.stuck = false ∧ ans = w.server.users := by
      simpa [Replica.answers] using hans
    rw [hy] at h
    simp only [change, hy]
    exact ⟨⟨h.ours, h.memory⟩, h.memory, h.persisted⟩
  | patchSecret users =>
    obtain ⟨y, hy⟩ := hrule
    rw [hy] at h
    obtain ⟨rfl, husers⟩ := h.ours
    simp only [change, hy, Replica.after]
    refine ⟨rfl, ?_, ?_⟩
    · split <;> exact h.memory
    · cases hcarried : Patched.carriedOut ans
      · simpa [Change.carriedOut, hcarried] using h.persisted
      · simp [Change.carriedOut, hcarried, husers]
  | restoreHash idx previous =>
    obtain ⟨hash, anyway, message, hy⟩ := hrule
    rw [hy] at h
    obtain rfl := h.ours
    have hmemory : w.server.users = renewed w₁ ⟨hash, idx, previous⟩ := h.memory
    obtain ⟨-, rfl⟩ : w.stuck = false ∧ ans = decide (idx < w.server.users.length) := by
      simpa [Replica.answers] using hans
    have hinside : idx < w.server.users.length := by
      rw [hmemory]
      exact idx_lt_renewed hplace
    simp only [change, hy, Replica.after, hinside, decide_true, if_true]
    refine ⟨⟨rfl, rfl⟩, ?_, h.persisted⟩
    exact (congrArg (setHashAt · idx previous) hmemory).trans (setHashAt_renewed hplace)
  | _ =>
    obtain ⟨husers, hsecret, -⟩ := w.lists_after r rfl ans
    exact h.congr husers hsecret

theorem holds_run {c₂ c : UiConf} {tr : List UiLabel}
    (hplace : w₁.place username = some (x.idx, x.previous))
    (hchanges : r.2.changes = some username)
    (hrun : Run (replicaHost L a) (Undisturbed r) c₂ tr c)
    (hfollows : c₂.Follows UiRule (Replied L.crypto a))
    (hpast : c₂.past r = some past) (hholds : Holds w₁ x c₂.world (change past)) :
    ∃ past, c.past r = some past ∧ Holds w₁ x c.world (change past) := by
  refine (hrun.invariant (I := fun c => c.Follows UiRule (Replied L.crypto a) ∧
    ∃ past, c.past r = some past ∧ Holds w₁ x c.world (change past))
    ⟨hfollows, past, hpast, hholds⟩ ?_).2
  rintro c l c' ⟨hf, past, hpast, hholds⟩ hG hs
  refine ⟨hs.follows (fun _ _ => start_follows) hf, ?_⟩
  -- what `r` has done is the same after a step of another thread
  have hother : ∀ {t w new}, r ≠ t → (c.put w t new).past r = some past := by
    intro t w new ht
    rwa [Conf.past_put, Function.update_of_ne ht]
  cases hs with
  | @start t p free may =>
    refine ⟨past, hother ?_, hholds⟩
    rintro rfl
    simp [Conf.past, free] at hpast
  | @call t e k older ans w at_call out =>
    obtain ⟨hans, rfl⟩ := Replica.eq_after out
    by_cases ht : t = r
    · subst ht
      obtain rfl : older = past := by simpa [Conf.past, at_call] using hpast
      exact ⟨_, by rw [Conf.past_put, Function.update_self]; rfl,
        holds_call hplace hchanges hholds (hf _ _ at_call).1 hans⟩
    · obtain ⟨husers, hsecret⟩ := hG ht
      exact ⟨past, hother (Ne.symm ht), hholds.congr husers hsecret⟩
  | stop at_ret => exact ⟨past, hother (Ne.symm hG), hholds⟩
  | crash may => exact may.elim
  | env may =>
    refine ⟨past, hpast, hholds.congr ?_ hG⟩
    cases may <;> rfl

/-- A change that has put its hash into the list at `c₁`, at any later point until the request is
over, if nobody else touches the list or the Secret meanwhile. -/
theorem password_change_careful_iff {tr tr' : List UiLabel}
    {c₁ c₂ c : UiConf} {hash previous : String} {p : UiProg}
    (hrun : ReplicaRun L a w tr c₁) (hchanges : r.2.changes = some username)
    (hreplace : Step (replicaHost L a) c₁
      (.call r ⟨.replaceHash username hash, some (idx, previous)⟩) c₂)
    (hrest : Run (replicaHost L a) (Undisturbed r) c₂ tr' c)
    (hlive : c.thread r = some ⟨p, past⟩) :
    Careful username hash past p c₁.world c.world ↔ ((change past).carriedOut = true →
      ∀ v ≠ username, hashesOf c₁.world.server.users v = hashesOf c₁.world.secret v) := by
  have hfollows₁ := hrun.follows (fun _ _ => start_follows) (Conf.follows_idle UiRule _ w)
  have hfollows₂ := hreplace.follows (fun _ _ => start_follows) hfollows₁
  obtain ⟨hans, hafter⟩ := Replica.eq_after hreplace.outcome
  obtain ⟨-, hplace⟩ : c₁.world.stuck = false ∧
      some (idx, previous) = c₁.world.place username := by simpa [Replica.answers] using hans
  have hplace := hplace.symm
  obtain ⟨past₁, hpast₁⟩ : ∃ past₁,
      c₂.past r = some (⟨.replaceHash username hash, some (idx, previous)⟩ :: past₁) := by
    cases hreplace with
    | call at_call out => exact ⟨_, by rw [Conf.past_put, Function.update_self]; rfl⟩
  obtain ⟨past', hpast', hholds⟩ := holds_run (x := ⟨hash, idx, previous⟩) hplace hchanges hrest
    hfollows₂ hpast₁ (by rw [hafter]; exact ⟨rfl, rfl, rfl⟩)
  obtain rfl : past = past' := by simpa [Conf.past, hlive] using hpast'
  have hmemory : ∀ v ≠ username, hashesOf c.world.server.users v =
      hashesOf c₁.world.server.users v := by
    intro v hv
    rw [hholds.memory]
    cases change past with
    | restored y patched inside => rfl
    | _ => exact hashesOf_renewed hplace hv
  constructor
  · intro hcareful hcarried v hv
    rw [← hcareful.persisted v hv, hholds.persisted, if_pos hcarried]
    exact (hashesOf_renewed hplace hv).symm
  · intro hsame
    refine ⟨hmemory, fun v hv => ?_, fun y patched hy => ?_, fun hreply => ?_⟩
    · rw [hholds.persisted]
      split
      · next hcarried => rw [hashesOf_renewed hplace hv, hsame hcarried v hv]
      · rfl
    · have hours := hholds.ours
      simp [hy] at hours
    · subst hreply
      obtain ⟨-, ⟨y, hy⟩, -⟩ :=
        (hrest.follows (fun _ _ => start_follows) hfollows₂ r _ hlive : Replied _ _ _ _ _)
      rw [hholds.persisted, hy]
      exact find_renewed hplace

/-! ## A list that is replaced in between -/

def syncRound : UiRequest := (1, .sync)

noncomputable def replacedBetween (users : List User) (n : Nat) (patched : Patched) :
    List UiMove :=
  begin resetBob :: steps resetBob 3 patched ++ .env (fun w => { w with secret := users }) ::
    begin syncRound :: steps syncRound 3 .ok ++ steps resetBob n patched ++ [.stop resetBob]

def replyToBob (tr : List UiLabel) : List UiReply :=
  tr.filterMap fun
    | .stop (_, .resetPassword _ _ _ _) reply => some reply
    | _ => none

/-- Resetting Bob's password with the loop in between. After a failed write of the Secret, a list in
another order gets Bob's old hash for Alice, and in a shorter list the way back panics with the lock
in its hands. With the list as it was before, the reset succeeds and has changed nothing. -/
theorem list_replaced_between :
    (∃ tr c, ReplicaRun plainLibraries plainAccounts (replicaOf [alice, bob]) tr c ∧
      replyToBob tr = [.error 500 "failed to reset password: timeout"] ∧
      hashesOf c.world.server.users "alice" = ["hash of builder"]) ∧
    (∃ tr c, ReplicaRun plainLibraries plainAccounts (replicaOf [alice, bob]) tr c ∧
      replyToBob tr = [.panicked] ∧ c.world.stuck = true) ∧
    (∃ tr c, ReplicaRun plainLibraries plainAccounts (replicaOf [alice, bob]) tr c ∧
      replyToBob tr = [.noContent] ∧ hashesOf c.world.secret "bob" = ["hash of builder"]) := by
  refine ⟨?_, ?_, ?_⟩
  · exact exists_free_run _ (replacedBetween [bob, alice] 3 (.failed false "timeout"))
      ⟨rfl, fun _ => .secret _, rfl⟩ (by decide +kernel)
  · exact exists_free_run _ (replacedBetween [bob] 3 (.failed false "timeout"))
      ⟨rfl, fun _ => .secret _, rfl⟩ (by decide +kernel)
  · exact exists_free_run _ (replacedBetween [alice, bob] 5 .ok)
      ⟨rfl, fun _ => .secret _, rfl⟩ (by decide +kernel)

def onlyBobs : UiConf → UiLabel → Bool
  | _, .call t _ => t = resetBob
  | _, _ => false

theorem undisturbed_of_onlyBobs (c : UiConf) (l : UiLabel) (h : onlyBobs c l = true) :
    Undisturbed resetBob c l := by
  cases l with
  | call t ev => exact fun ht => absurd (of_decide_eq_true h) ht
  | _ => cases h

theorem undisturbed_reset_persists : ∃ tr c₁ c₂ tr' c past,
    ReplicaRun plainLibraries plainAccounts (replicaOf [alice, bob]) tr c₁ ∧
    Step (replicaHost plainLibraries plainAccounts) c₁ (.call resetBob
      ⟨.replaceHash "bob" "hash of new-password", some (1, "hash of builder")⟩) c₂ ∧
    Run (replicaHost plainLibraries plainAccounts) (Undisturbed resetBob) c₂ tr' c ∧
    c.thread resetBob = some ⟨.ret .noContent, past⟩ ∧
    Careful "bob" "hash of new-password" past (.ret .noContent) c₁.world c.world := by
  have run : ReplicaRun plainLibraries plainAccounts (replicaOf [alice, bob]) _ _ :=
    run_of_play (s := begin resetBob :: steps resetBob 2 .ok) rfl rfl
  let works (w : Replica) := w.answer plainLibraries .ok
  refine ⟨_, _, _, _, _, _, run, step_of_move resetBob works 0 rfl,
    play_sound undisturbed_of_onlyBobs (s := steps resetBob 5 .ok) trivial rfl, rfl, ?_⟩
  exact (password_change_careful_iff run rfl (step_of_move resetBob works 0 rfl)
    (play_sound undisturbed_of_onlyBobs (s := steps resetBob 5 .ok) trivial rfl) rfl).mpr
    fun _ _ _ => rfl

end Kairon.Ui
