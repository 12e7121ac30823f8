import Kairon.Infra.Conf

/-!
# What a program has done

A program seen at one of its calls, with the calls that brought it there, and the calls of one
thread in the trace of a run.
-/

namespace Infra

open List

variable {Op : Type} {Ans : Op → Type} {α R Tid W : Type}

namespace Prog

/-- After the calls of a history, latest first, the rest of `p` is left. -/
inductive Becomes (p : Prog Ans α) : List (Event Ans) → Prog Ans α → Prop
  | refl : Becomes p [] p
  | call {past : List (Event Ans)} {e : Op} {k : Ans e → Prog Ans α}
      (before : Becomes p past (.call e k)) (a : Ans e) : Becomes p (⟨e, a⟩ :: past) (k a)

variable {p q : Prog Ans α} {past : List (Event Ans)}

/-- What is left of a program that follows a rule follows it. -/
theorem Becomes.follows {ok : List (Event Ans) → Op → Prop} {post : List (Event Ans) → α → Prop}
    (hq : p.Becomes past q) (hp : p.Follows ok post []) : q.Follows ok post past := by
  induction hq with
  | refl => exact hp
  | call _ a ih => exact ih.2 a

theorem call_becomes_iff {e : Op} {k : Ans e → Prog Ans α} {a : Ans e} :
    (call e k).Becomes [⟨e, a⟩] q ↔ q = k a := by
  refine ⟨fun h => ?_, fun h => h ▸ .call .refl a⟩
  cases h with
  | call before => cases before; rfl

theorem follows_becomes (p : Prog Ans α) : p.Follows (fun past e => ∃ k, p.Becomes past (.call e k))
      (fun past a => p.Becomes past (.ret a)) [] := by
  have rest : ∀ (q : Prog Ans α) (past : List (Event Ans)), p.Becomes past q →
      q.Follows (fun past e => ∃ k, p.Becomes past (.call e k))
        (fun past a => p.Becomes past (.ret a)) past := by
    intro q
    induction q with
    | ret a => exact fun past h => h
    | call e k ih => exact fun past h => ⟨⟨k, h⟩, fun a => ih a _ (h.call a)⟩
  exact rest p [] .refl

end Prog

def Label.callOf [DecidableEq Tid] (t : Tid) : Label Ans R Tid W → Option (Event Ans)
  | .call u ev => if u = t then some ev else none
  | _ => none

/-- The calls of a thread in a run, latest first. -/
def callsOf [DecidableEq Tid] (t : Tid) (tr : List (Label Ans R Tid W)) : List (Event Ans) :=
  (tr.filterMap (Label.callOf t)).reverse

variable [DecidableEq Tid] {H : Host Ans R Tid W} {G : Guard Ans R Tid W} {w : W}
  {tr : List (Label Ans R Tid W)} {c c' : Conf Ans R Tid W} {t : Tid} {past : List (Event Ans)}
  {r : R}

theorem callsOf_concat (t : Tid) (tr : List (Label Ans R Tid W)) (l : Label Ans R Tid W) :
    callsOf t (tr ++ [l]) = (l.callOf t).toList ++ callsOf t tr := by
  cases h : l.callOf t <;> simp [callsOf, h]

/-- A thread is what its calls have left of the program it was started with. -/
theorem Run.becomes (h : Run H G (.idle w) tr c) {th : Thread Ans R}
    (ht : c.thread t = some th) : ∃ p, H.start t p ∧ p.Becomes th.past th.code := by
  refine h.invariant (I := fun c => ∀ t th, c.thread t = some th →
    ∃ p, H.start t p ∧ p.Becomes th.past th.code) nofun ?_ t th ht
  intro c l c' hI _ hs
  refine hs.threads hI (fun t p may => ⟨p, may, .refl⟩) fun t e k past a hq => ?_
  obtain ⟨p, hp, hbecomes⟩ := hq
  exact ⟨p, hp, hbecomes.call _⟩

/-- What a thread remembers are its latest calls in the run. -/
theorem Run.past_prefix (h : Run H G (.idle w) tr c) (hp : c.past t = some past) :
    past <+: callsOf t tr := by
  refine h.trace_invariant
    (I := fun tr c => ∀ past, c.past t = some past → past <+: callsOf t tr)
    nofun ?_ past hp
  intro tr c l c' hI _ hs past hp
  rw [callsOf_concat]
  rcases hs.past_cases hp with hold | ⟨p, -, rfl⟩ | ⟨ev, older, rfl, hold, rfl⟩
  · -- a thread that has made a call since does not remember the same calls as before
    have hnone : l.callOf t = none := by
      cases hs with
      | @call u e k past' a w at_call out =>
        refine if_neg fun hu => ?_
        subst hu
        rw [Conf.past_put, Function.update_self] at hp
        rw [Conf.past, at_call] at hold
        have := congrArg List.length ((Option.some.inj hp).trans (Option.some.inj hold).symm)
        simp at this
      | _ => rfl
    rw [hnone]
    exact hI past hold
  · exact nil_prefix
  · simpa [Label.callOf] using hI older hold

def Label.starts : Label Ans R Tid W → Option Tid
  | .start t _ => some t
  | _ => none

/-- A thread that is there was started. -/
theorem Run.started (h : Run H G (.idle w) tr c) (hp : c.past t = some past) :
    t ∈ tr.filterMap Label.starts := by
  refine h.trace_invariant
    (I := fun tr c => ∀ past, c.past t = some past → t ∈ tr.filterMap Label.starts)
    nofun ?_ past hp
  intro tr c l c' hI _ hs past hp
  rw [filterMap_append, mem_append]
  rcases hs.past_cases hp with hold | ⟨p, rfl, -⟩ | ⟨ev, older, -, hold, -⟩
  · exact .inl (hI past hold)
  · exact .inr (mem_singleton_self t)
  · exact .inl (hI older hold)

/-- In the run `tr` from `w` to `c`, thread `t` returned `r` after the calls `past`. -/
def Returned (H : Host Ans R Tid W) (G : Guard Ans R Tid W) (w : W)
    (tr : List (Label Ans R Tid W)) (c : Conf Ans R Tid W) (t : Tid) (past : List (Event Ans))
    (r : R) : Prop :=
  ∃ tr₁ tr₂ c₁, tr = tr₁ ++ .stop t r :: tr₂ ∧ Run H G (.idle w) tr₁ c₁ ∧
    c₁.past t = some past ∧ Run H G c₁ (.stop t r :: tr₂) c

namespace Returned

theorem run (h : Returned H G w tr c t past r) : Run H G (.idle w) tr c := by
  obtain ⟨tr₁, tr₂, c₁, rfl, hrun₁, -, hrun₂⟩ := h
  exact hrun₁.append hrun₂

theorem post {ok : Tid → List (Event Ans) → Op → Prop} {post : Tid → List (Event Ans) → R → Prop}
    (hok : ∀ t p, H.start t p → p.Follows (ok t) (post t) [])
    (h : Returned H G w tr c t past r) : post t past r := by
  obtain ⟨tr₁, tr₂, c₁, rfl, hrun₁, hpast, hrun₂⟩ := h
  have hf := hrun₁.follows hok (Conf.follows_idle ok post w)
  rw [← nil_append (_ :: tr₂)] at hrun₂
  obtain ⟨c', c'', hnil, -, hstep, -⟩ := hrun₂.split
  obtain rfl : c₁ = c' := by
    generalize hempty : ([] : List (Label Ans R Tid W)) = none_ at hnil
    cases hnil with
    | nil => rfl
    | snoc => simp at hempty
  cases hstep with
  | @stop _ _ past' at_ret =>
    obtain rfl : past' = past := by simpa [Conf.past, at_ret] using hpast
    exact hf _ _ at_ret

/-- Every call of a thread that has returned was a step of the run. -/
theorem exists_call (h : Returned H G w tr c t past r) {ev : Event Ans}
    {newer older : List (Event Ans)} (hev : past = newer ++ ev :: older) :
    ∃ tr₁ tr₂ c₁ c₂, Run H G (.idle w) tr₁ c₁ ∧ c₁.past t = some older ∧
      Step H c₁ (.call t ev) c₂ ∧ Run H G c₂ tr₂ c := by
  subst hev
  obtain ⟨tr₁, tr₂, c₁, rfl, hrun₁, hpast, hrun₂⟩ := h
  obtain ⟨tr₃, tr₄, c₃, c₄, -, hrun₃, holder, hstep, hrun₄⟩ := hrun₁.exists_call hpast
  exact ⟨tr₃, _, c₃, c₄, hrun₃, holder, hstep, hrun₄.append hrun₂⟩

end Returned

/-!
## Programs whose calls are answered in a certain way

`Prog.Follows` is about every answer; `Prog.Ends` is about the answers that meet a condition. A
program that overwrites the same place again and again leaves there what it wrote last: `latest`.
-/

/-! ## The last one that counts -/

/-- What `g` says of the last element of which it says anything. -/
def latest {α β : Type} (g : α → Option β) (xs : List α) : Option β :=
  xs.reverse.findSome? g

section Latest

variable {α β : Type} {g : α → Option β} {x : α} {xs : List α}

@[simp] theorem latest_cons : latest g (x :: xs) = (latest g xs).or (g x) := by
  simp [latest, List.findSome?_append]

theorem latest_eq_none_iff : latest g xs = none ↔ ∀ x ∈ xs, g x = none := by
  simp [latest]

theorem latest_ne_none_iff : latest g xs ≠ none ↔ ∃ x ∈ xs, g x ≠ none := by
  simp [latest]

theorem split_of_latest {b : β} (h : latest g xs = some b) :
    ∃ pre x post, xs = pre ++ x :: post ∧ g x = some b ∧ ∀ y ∈ post, g y = none := by
  induction xs with
  | nil => cases h
  | cons x xs ih =>
    rw [latest_cons, Option.or_eq_some_iff, latest_eq_none_iff] at h
    rcases h with h | ⟨hnone, hx⟩
    · obtain ⟨pre, y, post, rfl, hy, hpost⟩ := ih h
      exact ⟨x :: pre, y, post, rfl, hy, hpost⟩
    · exact ⟨[], x, xs, rfl, hx, hnone⟩

theorem latest_append {ys : List α} : latest g (xs ++ ys) = (latest g ys).or (latest g xs) := by
  simp [latest, List.findSome?_append]

theorem exists_of_latest {b : β} (h : latest g xs = some b) : ∃ x ∈ xs, g x = some b := by
  obtain ⟨x, hx, hb⟩ := exists_of_findSome?_eq_some h
  exact ⟨x, mem_reverse.mp hx, hb⟩

theorem latest_eq_some_iff_exists {b : β} (h : ∀ x ∈ xs, ∀ c, g x = some c → c = b) :
    latest g xs = some b ↔ ∃ x ∈ xs, g x = some b := by
  refine ⟨exists_of_latest, fun ⟨x, hx, hb⟩ => ?_⟩
  cases hl : latest g xs with
  | none =>
    simp [latest_eq_none_iff.mp hl x hx] at hb
  | some c =>
    obtain ⟨y, hy, hc⟩ := exists_of_latest hl
    rw [h y hy c hc]

end Latest

/-! ## Programs -/

namespace Prog

variable {Op : Type} {Ans : Op → Type} {α β γ : Type}

/-- Whenever every call is answered as `A` says, `post` holds at the end, of the calls made, the
newest first, and of what is returned. -/
def Ends (A : Event Ans → Prop) (post : List (Event Ans) → α → Prop) :
    List (Event Ans) → Prog Ans α → Prop
  | past, .ret a => post past a
  | past, .call e k => ∀ a, A ⟨e, a⟩ → Ends A post (⟨e, a⟩ :: past) (k a)

variable {A : Event Ans → Prop} {post : List (Event Ans) → α → Prop} {past : List (Event Ans)}
  {p : Prog Ans α}

/-- What holds at the end of a sequence, by its parts. -/
theorem Ends.bind {post' : List (Event Ans) → β → Prop} {f : α → Prog Ans β}
    (hp : Ends A post past p) (hf : ∀ past' a, post past' a → Ends A post' past' (f a)) :
    Ends A post' past (p >>= f) := by
  induction p generalizing past with
  | ret a => exact hf past a hp
  | call e k ih => exact fun a ha => ih a (hp a ha)

theorem Ends.mono {post' : List (Event Ans) → α → Prop} (hp : Ends A post past p)
    (h : ∀ past' a, post past' a → post' past' a) : Ends A post' past p := by
  induction p generalizing past with
  | ret a => exact h past a hp
  | call e k ih => exact fun a ha => ih a (hp a ha)

theorem Ends.and {post' : List (Event Ans) → α → Prop} (hp : Ends A post past p)
    (hp' : Ends A post' past p) : Ends A (fun past' a => post past' a ∧ post' past' a) past p := by
  induction p generalizing past with
  | ret a => exact ⟨hp, hp'⟩
  | call e k ih => exact fun a ha => ih a (hp a ha) (hp' a ha)

theorem ends_any (p : Prog Ans α) (past : List (Event Ans)) : Ends A (fun _ _ => True) past p := by
  induction p generalizing past with
  | ret a => trivial
  | call e k ih => exact fun a _ => ih a _

theorem Ends.answered (hp : Ends A post past p) (answer : (e : Op) → Ans e)
    (h : ∀ e, A ⟨e, answer e⟩) :
    post (Prog.answered answer past p).2 (Prog.answered answer past p).1 := by
  induction p generalizing past with
  | ret a => exact hp
  | call e k ih => exact ih (answer e) (hp (answer e) (h e))

theorem Ends.extend (hp : Ends A post past p) :
    Ends A (fun past' a => past <:+ past' ∧ post past' a) past p := by
  induction p generalizing past with
  | ret a => exact ⟨suffix_refl past, hp⟩
  | call e k ih =>
    exact fun a ha => (ih a (hp a ha)).mono fun past' b h => ⟨(suffix_cons _ _).trans h.1, h.2⟩

section Loops

variable {view : List (Event Ans) → Option γ} {g : β → Option γ} {xs : List β}

/-- If every round writes what `g` says, the loop leaves what the last round that wrote anything
has written. -/
theorem Ends.forEach_latest {f : β → Prog Ans Unit}
    (hf : ∀ past x, x ∈ xs → Ends A (fun past' _ => view past' = (g x).or (view past)) past (f x)) :
    Ends A (fun past' _ => view past' = (latest g xs).or (view past)) past
      (Prog.forEach f xs) := by
  induction xs generalizing past with
  | nil => exact rfl
  | cons x xs ih =>
    refine (hf past x mem_cons_self).bind fun past₁ _ h₁ => ?_
    refine (ih fun past y hy => hf past y (mem_cons_of_mem x hy)).mono fun past₂ _ h₂ => ?_
    rw [h₂, h₁, latest_cons, Option.or_assoc]

theorem Ends.tryEach_latest {ε : Type} {f : β → Prog Ans (Except ε Unit)}
    (hf : ∀ past x, x ∈ xs →
      Ends A (fun past' r => r = .ok () ∧ view past' = (g x).or (view past)) past (f x)) :
    Ends A (fun past' r => r = .ok () ∧ view past' = (latest g xs).or (view past)) past
      (Prog.tryEach f xs) := by
  induction xs generalizing past with
  | nil => exact ⟨rfl, rfl⟩
  | cons x xs ih =>
    refine (hf past x mem_cons_self).bind fun past₁ _ ⟨hr, h₁⟩ => ?_
    subst hr
    refine (ih fun past y hy => hf past y (mem_cons_of_mem x hy)).mono ?_
    rintro past₂ _ ⟨hr, h₂⟩
    exact ⟨hr, by rw [h₂, h₁, latest_cons, Option.or_assoc]⟩

end Loops

end Prog

/-! ## Runs -/

variable {Op : Type} {Ans : Op → Type} {R Tid W : Type} [DecidableEq Tid]
  {H : Host Ans R Tid W} {A : Tid → Event Ans → Prop} {post : Tid → List (Event Ans) → R → Prop}

/-- A running program whose calls were answered as `A` says so far ends with `post` if they go on
to be. -/
def Conf.Ends (A : Tid → Event Ans → Prop) (post : Tid → List (Event Ans) → R → Prop)
    (c : Conf Ans R Tid W) : Prop :=
  ∀ t th, c.thread t = some th → (∀ ev ∈ th.past, A t ev) → th.code.Ends (A t) (post t) th.past

theorem Step.ends (hok : ∀ t p, H.start t p → p.Ends (A t) (post t) []) {c c' : Conf Ans R Tid W}
    {l : Label Ans R Tid W} (h : Step H c l c') (hc : c.Ends A post) : c'.Ends A post := by
  refine h.threads hc (fun t p may _ => hok t p may) fun t e k past a hf hA => ?_
  obtain ⟨hnew, hold⟩ := forall_mem_cons.mp hA
  exact hf hold a hnew

/-- The rule for whole runs: what the programs end with, every thread ends with. -/
theorem Run.ends (hok : ∀ t p, H.start t p → p.Ends (A t) (post t) [])
    {G : Guard Ans R Tid W} {w : W} {c : Conf Ans R Tid W} {tr : List (Label Ans R Tid W)}
    (h : Run H G (Conf.idle w) tr c) {t : Tid} {r : R} {past : List (Event Ans)}
    (done : c.thread t = some ⟨.ret r, past⟩) (hA : ∀ ev ∈ past, A t ev) : post t past r := by
  have hidle : (Conf.idle w : Conf Ans R Tid W).Ends A post := by
    intro t th ht
    cases ht
  exact (h.invariant hidle fun hi _ hs => hs.ends hok hi) t _ done hA

end Infra
