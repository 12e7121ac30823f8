import Kairon.Ui.Rule

/-!
# Sessions after a password reset

A reset records when it was made, and a session is refused that was issued no later. A login that
has compared the old password before the reset may sign its session a second after it.

* `kept_inductive`: the times of sessions and resets in timely runs
* `reset_ends_sessions`: then a reset ends the sessions of the old password
-/

namespace Kairon.Ui

open Infra List Option Host Conf Pasts Function

variable {L : Libraries} {a : AccountSettings} {now : Int} {w : Replica} {name : String}
  {G : Guard UiOp.Ans UiReply UiRequest Replica}
  {tr : List UiLabel} {c : UiConf} {login : UiRequest}

structure Sessions where
  replaced : List (UiRequest × String)
  issued : List Issue
  resets : List Reset
  ended : List Reset
  changedAt : List (String × Int)
  now : Int

def Replica.sessions (w : Replica) : Sessions :=
  ⟨w.history.replaced, w.history.issued, w.history.resets, w.history.ended,
    w.server.passwordChangedAt, w.now⟩

/-- A session is signed for a hash that a reset has replaced only in the second of that reset or
before, and the time of a reset is not replaced by an earlier one. -/
def Sessions.Timely (s : Sessions) : (e : UiOp) → e.Ans → Prop
  | .signingTime user, now =>
    ∀ x ∈ s.resets, x.username = user.username → x.hash = user.passwordHash →
      unix now * second ≤ x.time
  | .storePasswordChangedAt username t, _ => ∀ x ∈ s.ended, x.username = username → x.time ≤ t
  | _, _ => True

def Timely : Guard UiOp.Ans UiReply UiRequest Replica := fun c l =>
  match l with
  | .call _ ev => c.world.sessions.Timely ev.op ev.ans
  | _ => True

/-! ## What a token is refused by -/

theorem unix_mul_second_le (t : Int) : unix t * second ≤ t := by
  unfold unix second
  omega

/-- A session that was issued, in whole seconds, no later than the recorded reset is refused. -/
theorem withAuth_ne_session {X : Crypto} {s : Server} {t : Int} {i : Issue}
    (ht : s.passwordChangedAt.lookup i.user.username = some t)
    (hle : unix i.time * second ≤ t) (name : String) (groups : List String) :
    withAuth X s now (i.token X a) ≠ .session name groups := by
  intro h
  unfold withAuth at h
  split_ifs at h
  split at h
  · cases h
  · next p hverify =>
    have hp : p = ⟨i.user.username, unix (i.time + sessionTTL), unix i.time, []⟩ :=
      X.sessions.eq_of_verify_sign (filter_eq_some_iff.mp hverify).1
    have hchanged : passwordChangedAfter s p.subject p.issuedAt = true := by
      simp [hp, passwordChangedAfter, ht, hle]
    rw [if_pos (.inr hchanged)] at h
    cases h

/-! ## The steps that concern sessions -/

def Sessions.after (s : Sessions) (r : UiRequest) : (e : UiOp) → e.Ans → Sessions
  | .replaceHash _ _, some (_, previous) => { s with replaced := (r, previous) :: s.replaced }
  | .signingTime user, now => { s with issued := ⟨user, now⟩ :: s.issued }
  | .resetTime target, now =>
    { s with resets := ((s.replaced.lookup r).map fun hash =>
        (⟨r, target, hash, now⟩ : Reset)).toList ++ s.resets }
  | .storePasswordChangedAt username t, _ =>
    { s with
      ended := s.resets.filter (fun x => x.request = r) ++ s.ended
      changedAt := put username t s.changedAt }
  | _, _ => s

def Sessions.Reads (s : Sessions) : (e : UiOp) → e.Ans → Prop
  | .signingTime _, now | .resetTime _, now => now = s.now
  | _, _ => True

theorem sessions_after {r : UiRequest} {w' : Replica} {e : UiOp} {ans : e.Ans}
    (h : w' ∈ (replicaHost L a).outcomes r w e ans) :
    w.sessions.Reads e ans ∧ w'.sessions = w.sessions.after r e ans := by
  obtain ⟨hans, rfl⟩ := Replica.eq_after h
  cases e with
  | signingTime user | resetTime target =>
    obtain rfl : ans = w.now := of_decide_eq_true hans
    exact ⟨rfl, rfl⟩
  | replaceHash username hash => cases ans <;> exact ⟨trivial, rfl⟩
  | loginLockedFor username =>
    refine ⟨trivial, ?_⟩
    rw [Replica.after]
    split <;> rfl
  | restoreHash idx previous =>
    refine ⟨trivial, ?_⟩
    rw [Replica.after]
    split <;> rfl
  | patchSecret users =>
    refine ⟨trivial, ?_⟩
    rw [Replica.after]
    split <;> rfl
  | _ => exact ⟨trivial, rfl⟩

theorem UiCall.Resets.eq {call : UiCall} {name' : String} (h : call.Resets name)
    (h' : call.Resets name') : name = name' := by
  obtain ⟨caller, groups, body, rfl⟩ := h
  obtain ⟨caller', groups', body', heq⟩ := h'
  cases heq
  rfl

structure Kept (s : Sessions) (ps : Pasts UiOp.Ans UiRequest) : Prop where
  issued : ∀ i ∈ s.issued, i.time ≤ s.now
  resets : ∀ x ∈ s.resets, x.time ≤ s.now ∧ x.request.2.Resets x.username
  /-- A session of a replaced hash was signed in the second of the reset or before. -/
  order : ∀ i ∈ s.issued, ∀ x ∈ s.resets, x.username = i.user.username →
    x.hash = i.user.passwordHash → unix i.time * second ≤ x.time
  ended : ∀ x ∈ s.ended, x ∈ s.resets ∧ ∃ t, s.changedAt.lookup x.username = some t ∧ x.time ≤ t
  replaced : ∀ r past, ps r = some past → ∀ hash, previousHash past = some hash →
    s.replaced.lookup r = some hash
  /-- A reset that has read the clock has its entry, and none of a later time. -/
  timed : ∀ r past, ps r = some past → ∀ name t older, past = ⟨.resetTime name, t⟩ :: older →
    (∀ x ∈ s.resets, x.request = r → x.time ≤ t) ∧
      ∀ hash, previousHash older = some hash → ⟨r, name, hash, t⟩ ∈ s.resets

namespace Kept

variable {s : Sessions} {ps : Pasts UiOp.Ans UiRequest} {r : UiRequest}
  {past : List (Event UiOp.Ans)}

theorem thread (h : Kept s ps) {new : Option (List (Event UiOp.Ans))}
    (hnew : new = none ∨ new = some []) : Kept s (update ps r new) := by
  refine { h with replaced := ?_, timed := ?_ }
  · refine forall_update (fun past hpast hash hprevious => ?_)
      fun u past _ => h.replaced u past
    rcases hnew with rfl | rfl
    · cases hpast
    · cases hpast
      cases hprevious
  · refine forall_update (fun past hpast name t older hcons => ?_)
      fun u past _ => h.timed u past
    rcases hnew with rfl | rfl
    · cases hpast
    · cases hpast
      cases hcons

theorem other (h : Kept s ps) (hpast : ps r = some past) {ev : Event UiOp.Ans}
    (hprevious : previousHash (ev :: past) = previousHash past)
    (hop : ∀ name, ev.op ≠ .resetTime name) : Kept s (update ps r (some (ev :: past))) := by
  refine { h with replaced := ?_, timed := ?_ }
  · refine forall_update (fun past' hpast' hash hhash => ?_)
      fun u past _ => h.replaced u past
    cases hpast'
    exact h.replaced r past hpast hash (hprevious ▸ hhash)
  · refine forall_update (fun past' hpast' name t older hcons => ?_)
      fun u past _ => h.timed u past
    cases hpast'
    cases hcons
    exact absurd rfl (hop name)

theorem replaceHash (h : Kept s ps) (username hash : String) (idx : Nat) (previous : String) :
    Kept (s.after r (.replaceHash username hash) (some (idx, previous)))
      (update ps r (some (⟨.replaceHash username hash, some (idx, previous)⟩ :: past))) := by
  refine { h with replaced := ?_, timed := ?_ }
  · refine forall_update (fun past' hpast' hash hhash => ?_)
      fun u past hu hpast hash hhash => ?_
    · cases hpast'
      cases hhash
      simp [Sessions.after]
    · show ((r, previous) :: s.replaced).lookup u = some hash
      rw [lookup_cons, beq_false_of_ne hu]
      exact h.replaced u past hpast hash hhash
  · refine forall_update (fun past' hpast' name t older hcons => ?_)
      fun u past _ => h.timed u past
    cases hpast'
    cases hcons

theorem signingTime (h : Kept s ps) (hpast : ps r = some past) {user : User}
    (hnow : now = s.now) (htimely : s.Timely (.signingTime user) now) :
    Kept (s.after r (.signingTime user) now)
      (update ps r (some (⟨.signingTime user, now⟩ :: past))) := by
  refine { h.other hpast rfl (fun _ h => by cases h) with issued := ?_, order := ?_ }
  · intro i hi
    rcases mem_cons.mp hi with rfl | hi
    · exact hnow.le
    · exact h.issued i hi
  · intro i hi x hx hname hhash
    rcases mem_cons.mp hi with rfl | hi
    · exact htimely x hx hname hhash
    · exact h.order i hi x hx hname hhash

theorem resetTime (h : Kept s ps) (hpast : ps r = some past)
    (hnow : now = s.now) (hresets : r.2.Resets name) : Kept (s.after r (.resetTime name) now)
      (update ps r (some (⟨.resetTime name, now⟩ :: past))) := by
  subst hnow
  have hcases : ∀ x ∈ (s.after r (.resetTime name) s.now).resets,
      (∃ hash, x = ⟨r, name, hash, s.now⟩) ∨ x ∈ s.resets := by
    intro x hx
    rcases mem_append.mp hx with hx | hx
    · rw [mem_toList, map_eq_some_iff] at hx
      obtain ⟨hash, -, rfl⟩ := hx
      exact .inl ⟨hash, rfl⟩
    · exact .inr hx
  refine { h with resets := ?_, order := ?_, ended := ?_, replaced := ?_, timed := ?_ }
  · intro x hx
    rcases hcases x hx with ⟨hash, rfl⟩ | hx
    · exact ⟨le_rfl, hresets⟩
    · exact h.resets x hx
  · intro i hi x hx hname hhash
    rcases hcases x hx with ⟨hash, rfl⟩ | hx
    · exact (unix_mul_second_le i.time).trans (h.issued i hi)
    · exact h.order i hi x hx hname hhash
  · intro x hx
    obtain ⟨hmem, hlookup⟩ := h.ended x hx
    exact ⟨mem_append_right _ hmem, hlookup⟩
  · refine forall_update (fun past' hpast' hash hhash => ?_)
      fun u past _ => h.replaced u past
    cases hpast'
    exact h.replaced r past hpast hash hhash
  · refine forall_update (fun past' hpast' name' t older hcons => ?_)
      fun u past hu hpast name' t older hcons => ?_
    · cases hpast'
      cases hcons
      refine ⟨fun x hx _ => ?_, fun hash hhash => ?_⟩
      · rcases hcases x hx with ⟨hash, rfl⟩ | hx
        · exact le_rfl
        · exact (h.resets x hx).1
      · refine mem_append_left _ (mem_toList.mpr ?_)
        rw [h.replaced r past hpast hash hhash]
        rfl
    · obtain ⟨hle, hmem⟩ := h.timed u past hpast name' t older hcons
      refine ⟨fun x hx hrequest => ?_, fun hash hhash => mem_append_right _ (hmem hash hhash)⟩
      rcases hcases x hx with ⟨hash, rfl⟩ | hx
      · exact absurd hrequest.symm hu
      · exact hle x hx hrequest

theorem storePasswordChangedAt (h : Kept s ps) (hpast : ps r = some past) {t : Int}
    (htimely : s.Timely (.storePasswordChangedAt name t) ())
    (hrule : UiRule r past (.storePasswordChangedAt name t)) :
    Kept (s.after r (.storePasswordChangedAt name t) ())
      (update ps r (some (⟨.storePasswordChangedAt name t, ()⟩ :: past))) := by
  -- the resets of this request are of this user, and not later
  have hown : ∀ x ∈ s.resets, x.request = r → x.username = name ∧ x.time ≤ t := by
    rintro x hx rfl
    have hresets := (h.resets x hx).2
    rcases hrule with hsync | ⟨hname, older, rfl⟩
    · obtain ⟨caller, groups, body, heq⟩ := hresets
      simp [hsync] at heq
    · exact ⟨hresets.eq hname, (h.timed _ _ hpast name t older rfl).1 x hx rfl⟩
  refine { h.other hpast rfl (fun _ h => by cases h) with ended := ?_ }
  intro x hx
  have hx' : x ∈ s.resets ∧ (x.username = name ∧ x.time ≤ t ∨ x ∈ s.ended) := by
    rcases mem_append.mp hx with hx | hx
    · obtain ⟨hmem, hrequest⟩ := mem_filter.mp hx
      exact ⟨hmem, .inl (hown x hmem (by simpa using hrequest))⟩
    · exact ⟨(h.ended x hx).1, .inr hx⟩
  obtain ⟨hmem, hx'⟩ := hx'
  refine ⟨hmem, ?_⟩
  show ∃ t', (put name t s.changedAt).lookup x.username = some t' ∧ x.time ≤ t'
  by_cases hname : x.username = name
  · refine ⟨t, by rw [hname, lookup_put_self], ?_⟩
    rcases hx' with ⟨-, hle⟩ | hended
    · exact hle
    · exact htimely x hended hname
  · rw [lookup_put_of_ne hname]
    rcases hx' with ⟨heq, -⟩ | hended
    · exact absurd heq hname
    · exact (h.ended x hended).2

theorem call (h : Kept s ps) (hpast : ps r = some past) {e : UiOp} {ans : e.Ans}
    (hrule : UiRule r past e) (hreads : s.Reads e ans) (htimely : s.Timely e ans) :
    Kept (s.after r e ans) (update ps r (some (⟨e, ans⟩ :: past))) := by
  cases e with
  | replaceHash username hash =>
    cases ans with
    | none => exact h.other hpast rfl nofun
    | some found => exact h.replaceHash username hash found.1 found.2
  | signingTime user => exact h.signingTime hpast hreads htimely
  | resetTime name => exact h.resetTime hpast hreads hrule
  | storePasswordChangedAt name t => exact h.storePasswordChangedAt hpast htimely hrule
  | _ => exact h.other hpast rfl nofun

end Kept

theorem kept_inductive : Inductive (replicaHost L a) UiRule (Replied L.crypto a) Timely
      (fun w ps => Kept w.sessions ps) where
  start h _ := h.thread (.inr rfl)
  call h hpast hrule htimely hout := by
    obtain ⟨hreads, hafter⟩ := sessions_after hout
    rw [hafter]
    exact h.call hpast hrule hreads htimely
  stop h _ _ := h.thread (.inl rfl)
  crash _ _ hcrash _ := hcrash.elim
  env {c w} h henv _ := by
    cases henv with
    | time later =>
      refine { h with issued := ?_, resets := ?_ }
      · exact fun i hi => (h.issued i hi).trans later
      · exact fun x hx => ⟨(h.resets x hx).1.trans later, (h.resets x hx).2⟩
    | secret users => exact h

theorem history_grows
    {c' : UiConf} (h : Run (replicaHost L a) G c tr c') :
    c.world.sessions.issued ⊆ c'.world.sessions.issued ∧
      c.world.sessions.ended ⊆ c'.world.sessions.ended := by
  refine h.invariant (I := fun c' => c.world.sessions.issued ⊆ c'.world.sessions.issued ∧
    c.world.sessions.ended ⊆ c'.world.sessions.ended)
    ⟨List.Subset.refl _, List.Subset.refl _⟩ ?_
  rintro c₁ l c₂ ⟨hissued, hended⟩ - hs
  have hstep : c₁.world.sessions.issued ⊆ c₂.world.sessions.issued ∧
      c₁.world.sessions.ended ⊆ c₂.world.sessions.ended := by
    cases hs with
    | @call r e k past ans w at_call out =>
      rw [world_put, (sessions_after out).2]
      cases e with
      | signingTime user => exact ⟨subset_cons_self .., List.Subset.refl _⟩
      | storePasswordChangedAt name t =>
        exact ⟨List.Subset.refl _, subset_append_right ..⟩
      | replaceHash username hash =>
        cases ans <;> exact ⟨List.Subset.refl _, List.Subset.refl _⟩
      | _ => exact ⟨List.Subset.refl _, List.Subset.refl _⟩
    | env may => cases may <;> exact ⟨List.Subset.refl _, List.Subset.refl _⟩
    | _ => exact ⟨List.Subset.refl _, List.Subset.refl _⟩
  exact ⟨List.Subset.trans hissued hstep.1, List.Subset.trans hended hstep.2⟩

theorem issued_of_returned {past : List (Event UiOp.Ans)} {token username : String} {isAdmin : Bool}
    (h : Returned (replicaHost L a) G w tr c login past (.token token username isAdmin)) :
    ∃ i ∈ c.world.sessions.issued, comparedUser past = some i.user ∧
      token = i.token L.crypto a := by
  obtain ⟨-, user, t, older, hcompared, rfl, htoken⟩ := h.post fun _ _ => start_follows
  obtain ⟨tr₁, tr₂, c₁, c₂, -, -, hstep, hrun⟩ := h.exists_call (nil_append _).symm
  have hissued : ⟨user, t⟩ ∈ c₂.world.sessions.issued := by
    rw [(sessions_after hstep.outcome).2]
    exact mem_cons_self
  exact ⟨⟨user, t⟩, (history_grows hrun).1 hissued, hcompared, htoken⟩

theorem ended_of_returned {reset : UiRequest}
    {past : List (Event UiOp.Ans)} (hkept : Kept w.sessions fun _ => none)
    (h : Returned (replicaHost L a) Timely w tr c reset past .noContent)
    (hresets : reset.2.Resets name) :
    ∃ x ∈ c.world.sessions.ended, x.username = name ∧ previousHash past = some x.hash := by
  obtain ⟨-, -, hreply⟩ := h.post fun _ _ => start_follows
  obtain ⟨hsome, entry, done, t, older, rfl⟩ := hreply name hresets
  obtain ⟨hash, hprevious⟩ := isSome_iff_exists.mp hsome
  obtain ⟨tr₁, tr₂, c₁, c₂, hrun₁, hpast, hstep, hrun₂⟩ :=
    h.exists_call (show _ = [_] ++ ⟨.storePasswordChangedAt name t, ()⟩ :: _ from rfl)
  have hkept₁ := kept_inductive.run (fun _ _ => start_follows) hrun₁ (follows_idle _ _ _) hkept
  have hmem := (hkept₁.timed _ _ hpast name t older rfl).2 hash hprevious
  refine ⟨⟨reset, name, hash, t⟩, (history_grows hrun₂).2 ?_, rfl, hprevious⟩
  rw [(sessions_after hstep.outcome).2]
  exact mem_append_left _ (mem_filter.mpr ⟨hmem, by simp⟩)

/-- A login that has found its password to be that of the hash a reset replaced: once the reset has
succeeded, the session of the login is refused. -/
theorem reset_ends_sessions {reset : UiRequest} {pastL pastR : List (Event UiOp.Ans)}
    {token username : String} {isAdmin : Bool} {user : User} (hhistory : w.history = .empty)
    (hlogin : Returned (replicaHost L a) Timely w tr c login pastL (.token token username isAdmin))
    (hcompared : comparedUser pastL = some user)
    (hreset : Returned (replicaHost L a) Timely w tr c reset pastR .noContent)
    (hresets : reset.2.Resets user.username) :
    ∃ hash, previousHash pastR = some hash ∧ (user.passwordHash = hash →
      ∀ now name groups, withAuth L.crypto c.world.server now token ≠ .session name groups) := by
  have hkept : Kept w.sessions fun _ => none := by
    constructor <;> simp [Replica.sessions, hhistory, History.empty]
  obtain ⟨i, hi, hcompared', rfl⟩ := issued_of_returned hlogin
  obtain rfl : i.user = user := Option.some.inj (hcompared'.symm.trans hcompared)
  obtain ⟨x, hx, hname, hprevious⟩ := ended_of_returned hkept hreset hresets
  refine ⟨x.hash, hprevious, fun hhash => ?_⟩
  have hend := kept_inductive.run (fun _ _ => start_follows) hlogin.run (follows_idle _ _ _) hkept
  obtain ⟨hmem, t, ht, hle⟩ := hend.ended x hx
  rw [hname] at ht
  exact fun now => withAuth_ne_session ht ((hend.order i hi x hmem hname hhash.symm).trans hle)

/-! ## A slow login -/

def signInBob : UiRequest := (0, .login (.ok ⟨"bob", "builder"⟩))

noncomputable def duringLogin : List UiMove :=
  begin signInBob :: steps signInBob 4 .ok ++ begin resetBob :: steps resetBob 8 .ok

noncomputable def afterReset : List UiMove :=
  .env (fun w => { w with now := w.now + 2 * second }) :: steps signInBob 3 .ok

noncomputable def beforeReset : List UiMove :=
  begin signInBob :: steps signInBob 7 .ok

noncomputable def resetOnly : List UiMove :=
  begin resetBob :: steps resetBob 8 .ok

theorem permits_slow : (replicaHost plainLibraries plainAccounts).Allows
    (duringLogin ++ .stop resetBob :: (afterReset ++ [.stop signInBob])) := by
  refine ⟨rfl, rfl, fun w => .time ?_⟩
  unfold second
  omega

def resetServer : Server :=
  { (replicaOf [alice, bob]).server with
    users := [alice, { bob with passwordHash := "hash of new-password" }]
    passwordChangedAt := [("bob", 0)] }

theorem withAuth_signed_later : withAuth strokes resetServer (2 * second)
      (Issue.token strokes plainAccounts ⟨bob, 2 * second⟩) = .session "bob" [] := by
  have hverify : verifySession strokes "secret" (2 * second)
      (Issue.token strokes plainAccounts ⟨bob, 2 * second⟩) =
        some ⟨"bob", unix (2 * second + sessionTTL), unix (2 * second), []⟩ := by
    rw [verifySession, Issue.token, signSession, plainAccounts, Codec.verify_sign]
    rfl
  have hne : Issue.token strokes plainAccounts ⟨bob, 2 * second⟩ ≠ "" := by
    simp [Issue.token, signSession, Codec.sign]
  rw [withAuth, if_neg (by decide), if_neg hne, if_neg (by decide), if_neg (by decide)]
  rw [show resetServer.sessionSecret = "secret" from rfl, hverify]
  rfl

/-- Bob signs in while the password is reset. The session is signed with the old password, after the
reset, and is accepted. -/
theorem slow_login_outlives_reset :
    ∃ w tr c pastL pastR token username isAdmin, w.history = .empty ∧
      Returned (replicaHost plainLibraries plainAccounts) (fun _ _ => True) w tr c signInBob pastL
        (.token token username isAdmin) ∧
      comparedUser pastL = some bob ∧
      Returned (replicaHost plainLibraries plainAccounts) (fun _ _ => True) w tr c resetBob pastR
        .noContent ∧
      previousHash pastR = some bob.passwordHash ∧
      withAuth plainLibraries.crypto c.world.server c.world.now token = .session "bob" [] := by
  have hlate : (replicaHost plainLibraries plainAccounts).Allows
      (.stop resetBob :: (afterReset ++ [.stop signInBob])) := permits_slow.2.2
  refine ⟨replicaOf [alice, bob], _, _, _, _, _, _, _, rfl, ⟨_, [], _, rfl,
    run_of_play (s := duringLogin ++ .stop resetBob :: afterReset) permits_slow rfl, rfl,
    run_of_play (s := [.stop signInBob]) trivial rfl⟩, rfl, ⟨_, _, _, rfl,
    run_of_play (s := duringLogin) ⟨rfl, rfl⟩ rfl, rfl, run_of_play hlate rfl⟩, rfl,
    withAuth_signed_later⟩

def beforeAnyReset (c : UiConf) : UiLabel → Bool
  | .call _ ⟨.signingTime _, _⟩ => c.world.history.resets.isEmpty
  | .call _ ⟨.storePasswordChangedAt _ _, _⟩ => c.world.history.ended.isEmpty
  | _ => true

theorem timely_of_beforeAnyReset (c : UiConf) (l : UiLabel) (h : beforeAnyReset c l = true) :
    Timely c l := by
  cases l with
  | call r ev =>
    obtain ⟨e, ans⟩ := ev
    cases e with
    | signingTime user =>
      intro x hx
      rw [show c.world.sessions.resets = [] from List.isEmpty_iff.mp h] at hx
      cases hx
    | storePasswordChangedAt username t =>
      intro x hx
      rw [show c.world.sessions.ended = [] from List.isEmpty_iff.mp h] at hx
      cases hx
    | _ => trivial
  | _ => trivial

theorem prompt_login_ended_by_reset : ∃ tr c pastL pastR token username isAdmin,
      Returned (replicaHost plainLibraries plainAccounts) Timely (replicaOf [alice, bob]) tr c
        signInBob pastL (.token token username isAdmin) ∧
      comparedUser pastL = some bob ∧
      Returned (replicaHost plainLibraries plainAccounts) Timely (replicaOf [alice, bob]) tr c
        resetBob pastR .noContent ∧
      ∃ hash, previousHash pastR = some hash ∧ bob.passwordHash = hash ∧
        (bob.passwordHash = hash → ∀ now name groups,
          withAuth plainLibraries.crypto c.world.server now token ≠ .session name groups) := by
  have hlogin : Returned (replicaHost plainLibraries plainAccounts) Timely (replicaOf [alice, bob])
      _ _ signInBob _ (.token _ _ _) := ⟨_, _, _, rfl,
    play_sound timely_of_beforeAnyReset (s := beforeReset) rfl rfl, rfl,
    play_sound timely_of_beforeAnyReset (s := .stop signInBob :: (resetOnly ++ [.stop resetBob]))
      (by exact rfl) rfl⟩
  have hreset : Returned (replicaHost plainLibraries plainAccounts) Timely (replicaOf [alice, bob])
      _ _ resetBob _ .noContent := ⟨_, [], _, rfl,
    play_sound timely_of_beforeAnyReset (s := beforeReset ++ .stop signInBob :: resetOnly)
      ⟨rfl, rfl⟩ rfl, rfl,
    play_sound timely_of_beforeAnyReset (s := [.stop resetBob]) trivial rfl⟩
  obtain ⟨hash, hhash, hrefused⟩ :=
    reset_ends_sessions rfl hlogin rfl hreset ⟨"", [], .ok "new-password", rfl⟩
  cases hhash
  exact ⟨_, _, _, _, _, _, _, hlogin, rfl, hreset, _, rfl, rfl, hrefused⟩

end Kairon.Ui
