import Mathlib.Logic.Function.Basic

/-!
# Programs that call out

A program that talks to services is a tree: either it has returned, or it stands at one call and
goes on from whatever that call answers. `Ans e` is the type of the answers to the call `e`; which
ones a service gives is the world's business (`Infra/Conf.lean`).
-/

namespace Infra

inductive Prog {Op : Type} (Ans : Op → Type) (α : Type) where
  | ret (a : α)
  | call (e : Op) (k : Ans e → Prog Ans α)

namespace Prog

variable {Op : Type} {Ans : Op → Type} {α β : Type}

def bind : Prog Ans α → (α → Prog Ans β) → Prog Ans β
  | .ret a, f => f a
  | .call e k, f => .call e fun a => (k a).bind f

def andThen {ε : Type} (p : Prog Ans (Except ε α)) (f : α → Prog Ans (Except ε β)) :
    Prog Ans (Except ε β) :=
  p.bind fun
    | .error e => .ret (.error e)
    | .ok a => f a

def forEach (f : α → Prog Ans Unit) : List α → Prog Ans Unit
  | [] => .ret ()
  | x :: xs => (f x).bind fun _ => forEach f xs

def tryEach {ε : Type} (f : α → Prog Ans (Except ε Unit)) : List α → Prog Ans (Except ε Unit)
  | [] => .ret (.ok ())
  | x :: xs => (f x).andThen fun _ => tryEach f xs

def perform (Ans : Op → Type) (e : Op) : Prog Ans (Ans e) :=
  .call e .ret

instance : Monad (Prog Ans) where
  pure := .ret
  bind := bind

end Prog

theorem forall_except {ε α : Type} {p : Except ε α → Prop} (herr : ∀ e, p (.error e))
    (hok : ∀ a, p (.ok a)) : ∀ r, p r
  | .error e => herr e
  | .ok a => hok a

structure Event {Op : Type} (Ans : Op → Type) where
  op : Op
  ans : Ans op

namespace Prog

variable {Op : Type} {Ans : Op → Type} {α β : Type}

/--
Every call `p` makes is allowed by `ok`, and `post` holds when it returns, whatever the answers
are.

`past` is the list of the calls made so far, the newest first. A call may be allowed only after
certain answers, so `ok` sees the whole past; so does `post`, with what is returned.
-/
def Follows (ok : List (Event Ans) → Op → Prop) (post : List (Event Ans) → α → Prop) :
    List (Event Ans) → Prog Ans α → Prop
  | past, .ret a => post past a
  | past, .call e k => ok past e ∧ ∀ a, Follows ok post (⟨e, a⟩ :: past) (k a)

variable {ok : List (Event Ans) → Op → Prop} {post : List (Event Ans) → α → Prop}
  {past : List (Event Ans)} {p : Prog Ans α}

theorem Follows.ite {c : Prop} [Decidable c] {q : Prog Ans α} (hp : c → Follows ok post past p)
    (hq : ¬c → Follows ok post past q) : Follows ok post past (if c then p else q) := by
  split
  · next hc => exact hp hc
  · next hc => exact hq hc

/-- A sequence follows `ok` when its first part does and its second part does from every past
that the first part can leave. -/
theorem Follows.bind {post' : List (Event Ans) → β → Prop} {f : α → Prog Ans β}
    (hp : Follows ok post past p) (hf : ∀ past' a, post past' a → Follows ok post' past' (f a)) :
    Follows ok post' past (p >>= f) := by
  induction p generalizing past with
  | ret a => exact hf past a hp
  | call e k ih => exact ⟨hp.1, fun a => ih a (hp.2 a)⟩

theorem Follows.mono {ok' : List (Event Ans) → Op → Prop} {post' : List (Event Ans) → α → Prop}
    (hp : Follows ok post past p) (hok : ∀ past' e, ok past' e → ok' past' e)
    (hpost : ∀ past' a, post past' a → post' past' a) : Follows ok' post' past p := by
  induction p generalizing past with
  | ret a => exact hpost past a hp
  | call e k ih => exact ⟨hok past e hp.1, fun a => ih a (hp.2 a)⟩

theorem Follows.weaken {post' : List (Event Ans) → α → Prop} (hp : Follows ok post past p)
    (hpost : ∀ past' a, post past' a → post' past' a) : Follows ok post' past p :=
  hp.mono (fun _ _ h => h) hpost

theorem Follows.and {ok' : List (Event Ans) → Op → Prop} {post' : List (Event Ans) → α → Prop}
    (hp : Follows ok post past p) (hp' : Follows ok' post' past p) :
    Follows (fun past' e => ok past' e ∧ ok' past' e) (fun past' a => post past' a ∧ post' past' a)
      past p := by
  induction p generalizing past with
  | ret a => exact ⟨hp, hp'⟩
  | call e k ih => exact ⟨⟨hp.1, hp'.1⟩, fun a => ih a (hp.2 a) (hp'.2 a)⟩

/-- What every allowed call keeps is there at every call and at the end. -/
theorem Follows.keep {P : List (Event Ans) → Prop} (hp : Follows ok post past p)
    (h : P past) (hP : ∀ past' e a, P past' → ok past' e → P (⟨e, a⟩ :: past')) :
    Follows (fun past' e => P past' ∧ ok past' e) (fun past' a => P past' ∧ post past' a) past
      p := by
  induction p generalizing past with
  | ret a => exact ⟨h, hp⟩
  | call e k ih => exact ⟨⟨h, hp.1⟩, fun a => ih a (hp.2 a) (hP past e a h hp.1)⟩

theorem Follows.forget {Q : Op → Prop} (hp : Follows ok post past p)
    (hQ : ∀ past' e, ok past' e → Q e) (past₀ : List (Event Ans)) :
    Follows (fun _ e => Q e) (fun _ _ => True) past₀ p := by
  induction p generalizing past past₀ with
  | ret a => trivial
  | call e k ih => exact ⟨hQ past e hp.1, fun a => ih a (hp.2 a) _⟩

theorem Follows.extend (hp : Follows ok post past p) :
    Follows ok (fun past' a => past <:+ past' ∧ post past' a) past p := by
  induction p generalizing past with
  | ret a => exact ⟨List.suffix_refl past, hp⟩
  | call e k ih =>
    refine ⟨hp.1, fun a => (ih a (hp.2 a)).weaken fun past' b h => ⟨?_, h.2⟩⟩
    exact (List.suffix_cons _ _).trans h.1

theorem Follows.andThen {ε : Type} {post : List (Event Ans) → Except ε α → Prop}
    {post' : List (Event Ans) → Except ε β → Prop} {p : Prog Ans (Except ε α)}
    {f : α → Prog Ans (Except ε β)} (hp : Follows ok post past p)
    (herr : ∀ past' e, post past' (.error e) → post' past' (.error e))
    (hf : ∀ past' a, post past' (.ok a) → Follows ok post' past' (f a)) :
    Follows ok post' past (p.andThen f) :=
  hp.bind fun past' r hr =>
    match r with
    | .error e => herr past' e hr
    | .ok a => hf past' a hr

theorem Follows.andThen_any {ε : Type} {p : Prog Ans (Except ε α)}
    {f : α → Prog Ans (Except ε β)} (hp : Follows ok (fun _ _ => True) past p)
    (hf : ∀ past' a, Follows ok (fun _ _ => True) past' (f a)) :
    Follows ok (fun _ _ => True) past (p.andThen f) :=
  hp.andThen (fun _ _ _ => trivial) fun past' a _ => hf past' a

theorem Follows.forEach {f : β → Prog Ans Unit} (left : List (Event Ans) → List β → Prop)
    (hf : ∀ past' x xs, left past' (x :: xs) →
      Follows ok (fun past'' _ => left past'' xs) past' (f x))
    {xs : List β} (h : left past xs) :
    Follows ok (fun past' _ => left past' []) past (Prog.forEach f xs) := by
  induction xs generalizing past with
  | nil => exact h
  | cons x xs ih => exact (hf past x xs h).bind fun past' _ h' => ih h'

theorem Follows.tryEach {ε : Type} {f : β → Prog Ans (Except ε Unit)}
    (inv : List (Event Ans) → Prop) (left : List (Event Ans) → List β → Prop)
    (hf : ∀ past' x xs, inv past' → left past' (x :: xs) →
      Follows ok (fun past'' r => inv past'' ∧ (r = .ok () → left past'' xs)) past' (f x))
    {xs : List β} (h₀ : inv past) (h : left past xs) :
    Follows ok (fun past' r => inv past' ∧ (r = .ok () → left past' [])) past
      (Prog.tryEach f xs) := by
  induction xs generalizing past with
  | nil => exact ⟨h₀, fun _ => h⟩
  | cons x xs ih =>
    exact (hf past x xs h₀ h).andThen (fun _ _ h' => ⟨h'.1, nofun⟩) fun past' _ h' =>
      ih h'.1 (h'.2 rfl)

theorem Follows.after {new : List (Event Ans)} (base : List (Event Ans))
    (hp : Follows ok post new p) : Follows (fun past e => ∃ new, past = new ++ base ∧ ok new e)
      (fun past a => ∃ new, past = new ++ base ∧ post new a) (new ++ base) p := by
  induction p generalizing new with
  | ret a => exact ⟨new, rfl, hp⟩
  | call e k ih => exact ⟨⟨new, rfl, hp.1⟩, fun a => ih a (hp.2 a)⟩

def record : List (Event Ans) → Prog Ans α → Prog Ans (α × List (Event Ans))
  | past, .ret a => .ret (a, past)
  | past, .call e k => .call e fun a => record (⟨e, a⟩ :: past) (k a)

theorem Follows.record (hp : Follows ok post past p) :
    Follows ok (fun past' r => r.2 = past' ∧ post past' r.1) past (Prog.record past p) := by
  induction p generalizing past with
  | ret a => exact ⟨rfl, hp⟩
  | call e k ih => exact ⟨hp.1, fun a => ih a (hp.2 a)⟩

/-- What the program returns if its calls are answered by `answer`, and the calls it has made
then. -/
def answered (answer : (e : Op) → Ans e) : List (Event Ans) → Prog Ans α → α × List (Event Ans)
  | past, .ret a => (a, past)
  | past, .call e k => answered answer (⟨e, answer e⟩ :: past) (k (answer e))

theorem answered_bind (answer : (e : Op) → Ans e) (p : Prog Ans α) (f : α → Prog Ans β)
    (past : List (Event Ans)) : Prog.answered answer past (p.bind f) =
      Prog.answered answer (Prog.answered answer past p).2 (f (Prog.answered answer past p).1) := by
  induction p generalizing past with
  | ret a => rfl
  | call e k ih => exact ih (answer e) _

theorem Follows.answered (hp : Follows ok post past p) (answer : (e : Op) → Ans e) :
    post (Prog.answered answer past p).2 (Prog.answered answer past p).1 := by
  induction p generalizing past with
  | ret a => exact hp
  | call e k ih => exact ih (answer e) (hp.2 (answer e))

variable {Op' : Type} {Ans' : Op' → Type}

def expand (f : List (Event Ans) → (e : Op) → Prog Ans' (Ans e)) :
    List (Event Ans) → Prog Ans α → Prog Ans' α
  | _, .ret a => .ret a
  | past, .call e k => (f past e).bind fun r => expand f (⟨e, r⟩ :: past) (k r)

theorem Follows.expand {f : List (Event Ans) → (e : Op) → Prog Ans' (Ans e)}
    {ok : List (Event Ans) → Op → Prop} {post : List (Event Ans) → α → Prop}
    {ok' : List (Event Ans') → Op' → Prop} (fit : List (Event Ans) → List (Event Ans') → Prop)
    (hf : ∀ past past' e, fit past past' → ok past e →
      (f past e).Follows ok' (fun past'' r => fit (⟨e, r⟩ :: past) past'') past')
    {past : List (Event Ans)} {past' : List (Event Ans')}
    (hp : p.Follows ok post past) (h : fit past past') :
    (p.expand f past).Follows ok' (fun past'' a => ∃ past₁, fit past₁ past'' ∧ post past₁ a)
      past' := by
  induction p generalizing past past' with
  | ret a => exact ⟨past, h, hp⟩
  | call e k ih => exact (hf past past' e h hp.1).bind fun past'' r hr => ih r (hp.2 r) hr

theorem answered_expand {f : List (Event Ans) → (e : Op) → Prog Ans' (Ans e)}
    {answer : (e : Op) → Ans e} {answer' : (e : Op') → Ans' e} (lift : Event Ans → Event Ans')
    (hf : ∀ past e past', answered answer' past' (f past e) =
      (answer e, lift ⟨e, answer e⟩ :: past'))
    (p : Prog Ans α) (past new : List (Event Ans)) (past' : List (Event Ans')) :
    answered answer' (new.map lift ++ past') (p.expand f past) =
      ((answered answer new p).1, (answered answer new p).2.map lift ++ past') := by
  induction p generalizing past new with
  | ret a => rfl
  | call e k ih =>
    rw [Prog.expand, answered_bind, hf]
    exact ih (answer e) _ (⟨e, answer e⟩ :: new)

end Prog

end Infra
