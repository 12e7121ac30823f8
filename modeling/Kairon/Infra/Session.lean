import Kairon.Infra.Prog
import Mathlib.Data.List.Basic

/-!
# Calls one after the other

One program against a service with a state: `Prog.Keeps` is what can be said of every run of it, by
rules that follow the program. A session is a component that answers one call after another, each by
a program of its own; a component that is a function is replayed by a fold over the calls.
-/

namespace Infra

variable {Op : Type} {Ans : Op → Type} {S α β : Type}

abbrev Service {Op : Type} (Ans : Op → Type) (S : Type) := S → (e : Op) → Ans e → S → Prop

namespace Prog

inductive Reaches (R : Service Ans S) : S → Prog Ans α → S → Prog Ans α → Prop
  | refl {s : S} {p : Prog Ans α} : Reaches R s p s p
  | call {s s₁ s' : S} {e : Op} {a : Ans e} {k : Ans e → Prog Ans α} {p' : Prog Ans α}
      (served : R s e a s₁) (rest : Reaches R s₁ (k a) s' p') : Reaches R s (.call e k) s' p'

theorem Reaches.andThen {ε : Type} {R : Service Ans S} {s s₁ s' : S} {a : α}
    {p : Prog Ans (Except ε α)} {f : α → Prog Ans (Except ε β)} {q : Prog Ans (Except ε β)}
    (hp : Reaches R s p s₁ (.ret (.ok a))) (hf : Reaches R s₁ (f a) s' q) :
    Reaches R s (p.andThen f) s' q := by
  induction p generalizing s with
  | ret r =>
    cases hp
    exact hf
  | call e k ih =>
    cases hp with
    | call served rest => exact .call served (ih _ rest)

/-- Started in `s`, the program keeps `inv` in every state and ends with `post`. -/
def Keeps (R : Service Ans S) (inv : S → Prop) (post : S → α → Prop) : S → Prog Ans α → Prop
  | s, .ret a => inv s ∧ post s a
  | s, .call e k => inv s ∧ ∀ a s', R s e a s' → Keeps R inv post s' (k a)

variable {R : Service Ans S} {inv : S → Prop} {post : S → α → Prop} {s s' : S}

theorem Keeps.now {p : Prog Ans α} (h : Keeps R inv post s p) : inv s := by
  cases p with
  | ret a => exact h.1
  | call e k => exact h.1

theorem Keeps.bind {post' : S → β → Prop} {p : Prog Ans α} {f : α → Prog Ans β}
    (hp : Keeps R inv post s p) (hf : ∀ s' a, inv s' → post s' a → Keeps R inv post' s' (f a)) :
    Keeps R inv post' s (p >>= f) := by
  induction p generalizing s with
  | ret a => exact hf s a hp.1 hp.2
  | call e k ih => exact ⟨hp.1, fun a s' hs => ih a (hp.2 a s' hs)⟩

theorem Keeps.andThen {ε : Type} {post : S → Except ε α → Prop} {post' : S → Except ε β → Prop}
    {p : Prog Ans (Except ε α)} {f : α → Prog Ans (Except ε β)} (hp : Keeps R inv post s p)
    (herr : ∀ s' e, inv s' → post s' (.error e) → post' s' (.error e))
    (hf : ∀ s' a, inv s' → post s' (.ok a) → Keeps R inv post' s' (f a)) :
    Keeps R inv post' s (p.andThen f) :=
  hp.bind fun s' r hi hr =>
    match r with
    | .error e => ⟨hi, herr s' e hi hr⟩
    | .ok a => hf s' a hi hr

theorem Keeps.mono {post' : S → α → Prop} {p : Prog Ans α} (hp : Keeps R inv post s p)
    (h : ∀ s' a, inv s' → post s' a → post' s' a) : Keeps R inv post' s p := by
  induction p generalizing s with
  | ret a => exact ⟨hp.1, h s a hp.1 hp.2⟩
  | call e k ih => exact ⟨hp.1, fun a s' hs => ih a (hp.2 a s' hs)⟩

theorem Reaches.keeps {p p' : Prog Ans α} (h : Reaches R s p s' p') (hp : Keeps R inv post s p) :
    Keeps R inv post s' p' := by
  induction h with
  | refl => exact hp
  | call served _ ih => exact ih (hp.2 _ _ served)

/-! ## Programs that may fail -/

section Ensures

variable {ε : Type} {Q : S → α → Prop} {Q' : S → β → Prop}

/-- Started in `s`, the program keeps `inv` in every state, and `Q` holds if it succeeds. -/
def Ensures (R : Service Ans S) (inv : S → Prop) (Q : S → α → Prop) (s : S)
    (p : Prog Ans (Except ε α)) : Prop :=
  p.Keeps R inv (fun s' r => ∀ a, r = .ok a → Q s' a) s

theorem Ensures.error (hs : inv s) (e : ε) : Ensures R inv Q s (.ret (.error e)) :=
  ⟨hs, nofun⟩

theorem Ensures.ok (hs : inv s) {a : α} (h : Q s a) :
    Ensures R inv Q s (.ret (.ok a) : Prog Ans (Except ε α)) :=
  ⟨hs, fun _ he => by cases he; exact h⟩

theorem Ensures.call {e : Op} {k : Ans e → Prog Ans (Except ε α)} (hs : inv s)
    (h : ∀ a s', R s e a s' → Ensures R inv Q s' (k a)) : Ensures R inv Q s (.call e k) :=
  ⟨hs, h⟩

theorem Ensures.andThen {p : Prog Ans (Except ε α)} {f : α → Prog Ans (Except ε β)}
    (hp : Ensures R inv Q s p) (hf : ∀ s' a, inv s' → Q s' a → Ensures R inv Q' s' (f a)) :
    Ensures R inv Q' s (p.andThen f) :=
  Keeps.andThen hp nofun fun s' a hi hq => hf s' a hi (hq a rfl)

theorem Ensures.mono {Q' : S → α → Prop} {p : Prog Ans (Except ε α)} (hp : Ensures R inv Q s p)
    (h : ∀ s' a, inv s' → Q s' a → Q' s' a) : Ensures R inv Q' s p :=
  Keeps.mono hp fun s' _ hi hq a ha => h s' a hi (hq a ha)

theorem Reaches.ensures {p : Prog Ans (Except ε α)} {a : α} (h : Reaches R s p s' (.ret (.ok a)))
    (hp : Ensures R inv Q s p) : Q s' a :=
  (h.keeps hp).2 a rfl

end Ensures

end Prog

variable {C : Type} {Res : C → Type}

structure Entry (S : Type) {C : Type} (Res : C → Type) where
  before : S
  call : C
  result : Res call
  after : S

inductive Session (R : Service Ans S) (env : S → S → Prop) (code : (c : C) → Prog Ans (Res c))
    (s : S) : List (Entry S Res) → S → Prop
  | nil : Session R env code s [] s
  | env {es : List (Entry S Res)} {s₁ s₂ : S} (session : Session R env code s es s₁)
      (change : env s₁ s₂) : Session R env code s es s₂
  | call {es : List (Entry S Res)} {s₁ s₂ : S} {c : C} {r : Res c}
      (session : Session R env code s es s₁) (ended : (code c).Reaches R s₁ s₂ (.ret r)) :
      Session R env code s (es ++ [⟨s₁, c, r, s₂⟩]) s₂

namespace Session

variable {R : Service Ans S} {env : S → S → Prop} {code : (c : C) → Prog Ans (Res c)} {s s' : S}
  {es : List (Entry S Res)} {I : S → Prop}

structure Invariant (R : Service Ans S) (env : S → S → Prop) (code : (c : C) → Prog Ans (Res c))
    (I : S → Prop) : Prop where
  call : ∀ s c, I s → (code c).Keeps R I (fun _ _ => True) s
  env : ∀ s s', I s → env s s' → I s'

theorem entry (h : Session R env code s es s') (hI : Invariant R env code I) (hs : I s) :
    I s' ∧ ∀ e ∈ es, I e.before ∧ (code e.call).Reaches R e.before e.after (.ret e.result) := by
  induction h with
  | nil => exact ⟨hs, by simp⟩
  | env _ change ih => exact ⟨hI.env _ _ ih.1 change, ih.2⟩
  | call _ ended ih =>
    refine ⟨(ended.keeps (hI.call _ _ ih.1)).now, fun e he => ?_⟩
    rcases List.mem_append.mp he with he | he
    · exact ih.2 e he
    · obtain rfl := List.mem_singleton.mp he
      exact ⟨ih.1, ended⟩

theorem Invariant.true (R : Service Ans S) (env : S → S → Prop)
    (code : (c : C) → Prog Ans (Res c)) : Invariant R env code fun _ => True where
  call s c _ := by
    induction code c generalizing s with
    | ret r => exact ⟨trivial, trivial⟩
    | call e k ih => exact ⟨trivial, fun a s' _ => ih a s'⟩
  env _ _ _ _ := trivial

end Session

/-! ## Scripted sessions -/

def served (out : S → (e : Op) → Ans e → List S) : Service Ans S :=
  fun s e a s' => s' ∈ out s e a

abbrev Oracle {Op : Type} (Ans : Op → Type) (S : Type) := S → (e : Op) → Ans e × Nat

def Prog.play (out : S → (e : Op) → Ans e → List S) (oracle : Oracle Ans S) :
    S → Prog Ans α → Option (α × S)
  | s, .ret a => some (a, s)
  | s, .call e k =>
    match (out s e (oracle s e).1)[(oracle s e).2]? with
    | some s' => play out oracle s' (k (oracle s e).1)
    | none => none

theorem Prog.reaches_of_play {out : S → (e : Op) → Ans e → List S} (oracle : Oracle Ans S)
    {p : Prog Ans α} {s s' : S} {a : α} (h : p.play out oracle s = some (a, s')) :
    p.Reaches (served out) s s' (.ret a) := by
  induction p generalizing s with
  | ret a₀ =>
    cases h
    exact .refl
  | call e k ih =>
    simp only [play] at h
    split at h
    · next s₁ hs₁ => exact .call (List.mem_of_getElem? hs₁) (ih _ h)
    · cases h

def playCalls (out : S → (e : Op) → Ans e → List S) (code : (c : C) → Prog Ans (Res c)) (s : S) :
    List (C × Oracle Ans S) → Option (List (Entry S Res) × S)
  | [] => some ([], s)
  | (c, oracle) :: calls =>
    match (code c).play out oracle s with
    | some (r, s₁) =>
      (playCalls out code s₁ calls).map fun rest => (⟨s, c, r, s₁⟩ :: rest.1, rest.2)
    | none => none

variable {out : S → (e : Op) → Ans e → List S} {env : S → S → Prop}
  {code : (c : C) → Prog Ans (Res c)}

theorem session_of_play {calls : List (C × Oracle Ans S)} {es es' : List (Entry S Res)}
    {s s₁ s' : S} (h : playCalls out code s₁ calls = some (es', s'))
    (hs : Session (served out) env code s es s₁) :
    Session (served out) env code s (es ++ es') s' := by
  induction calls generalizing es es' s₁ with
  | nil =>
    cases h
    simpa using hs
  | cons call calls ih =>
    simp only [playCalls] at h
    split at h
    · next r s₂ hp =>
      obtain ⟨⟨rest, s₃⟩, hrest, he⟩ := Option.map_eq_some_iff.mp h
      cases he
      simpa using ih hrest (.call hs (Prog.reaches_of_play _ hp))
    · cases h

theorem exists_session_of_play {P : List (Entry S Res) → S → Prop} [∀ es s, Decidable (P es s)]
    {s : S} (calls : List (C × Oracle Ans S))
    (h : (playCalls out code s calls).any (fun r => P r.1 r.2) = true) :
    ∃ es s', Session (served out) env code s es s' ∧ P es s' := by
  cases hp : playCalls out code s calls with
  | none => simp [hp] at h
  | some r =>
    rw [hp] at h
    exact ⟨r.1, r.2, by simpa using session_of_play hp .nil, by simpa using h⟩

end Infra

namespace Infra.Replay

variable {σ α : Type} {step : σ → α → σ} {I P : σ → Prop} {M : σ → α → Prop}

/-- Every call keeps the invariant, and keeps the property exactly if it meets the condition in the
state before it. By induction on the calls: the rest of them starts from the state after the
first. -/
theorem forall_take_iff (hinv : ∀ s a, I s → I (step s a))
    (hstep : ∀ s a, I s → P s → (P (step s a) ↔ M s a)) {s : σ} (hs : I s) (hp : P s)
    (as : List α) : (∀ k, P ((as.take k).foldl step s)) ↔
      ∀ k a, as[k]? = some a → M ((as.take k).foldl step s) a := by
  induction as generalizing s with
  | nil => simpa using hp
  | cons a as ih =>
    have hfirst := hstep s a hs hp
    constructor
    · intro h k b hk
      cases k with
      | zero =>
        obtain rfl : a = b := by simpa using hk
        exact hfirst.mp (h 1)
      | succ k =>
        exact (ih (hinv s a hs) (h 1)).mp (fun j => h (j + 1)) k b (by simpa using hk)
    · intro h k
      cases k with
      | zero => exact hp
      | succ k =>
        exact (ih (hinv s a hs) (hfirst.mpr (h 0 a rfl))).mpr
          (fun j b hj => h (j + 1) b (by simpa using hj)) k

end Infra.Replay
