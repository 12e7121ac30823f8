import Mathlib.Data.List.Basic
import Kairon.Infra.Trace

/-!
# Scripted runs

A script fixes who moves and how each call is answered. Playing it computes the run, so that a
concrete interleaving is exhibited by evaluation. A test of the steps stands for the condition on
the run.
-/

namespace Infra

open List Option

variable {Op : Type} {Ans : Op → Type} {R Tid W : Type}

inductive Move {Op : Type} (Ans : Op → Type) (R Tid W : Type) where
  | start (t : Tid) (p : Prog Ans R)
  /-- The next call of `t` is answered by `answer`, with the `i`-th of the outcomes. -/
  | call (t : Tid) (answer : W → (e : Op) → Ans e) (i : Nat)
  | stop (t : Tid)
  | crash (t : Tid)
  | env (f : W → W)

def Move.asks : Move Ans R Tid W → Bool
  | .start _ _ | .crash _ | .env _ => true
  | _ => false

namespace Host

variable [DecidableEq Tid] (H : Host Ans R Tid W)

def move (c : Conf Ans R Tid W) : Move Ans R Tid W → Option (Label Ans R Tid W × Conf Ans R Tid W)
  | .start t p =>
    match c.thread t with
    | none => some (.start t p, c.put c.world t (some ⟨p, []⟩))
    | some _ => none
  | .call t answer i =>
    match c.thread t with
    | some ⟨.call e k, past⟩ =>
      match (H.outcomes t c.world e (answer c.world e))[i]? with
      | some w =>
        some (.call t ⟨e, answer c.world e⟩,
          c.put w t (some ⟨k (answer c.world e), ⟨e, answer c.world e⟩ :: past⟩))
      | none => none
    | _ => none
  | .stop t =>
    match c.thread t with
    | some ⟨.ret r, _⟩ => some (.stop t r, c.put c.world t none)
    | _ => none
  | .crash t =>
    match c.thread t with
    | some _ => some (.crash t, c.put c.world t none)
    | none => none
  | .env f => some (.env (f c.world), ⟨f c.world, c.thread⟩)

def play (check : Conf Ans R Tid W → Label Ans R Tid W → Bool) (c : Conf Ans R Tid W) :
    List (Move Ans R Tid W) → Option (List (Label Ans R Tid W) × Conf Ans R Tid W)
  | [] => some ([], c)
  | m :: ms =>
    match H.move c m with
    | some (l, c₁) =>
      if check c l then (play check c₁ ms).map fun r => (l :: r.1, r.2) else none
    | none => none

/-- The host lets a move happen: `move` itself does not look at these conditions. -/
def Permits : Move Ans R Tid W → Prop
  | .start t p => H.start t p
  | .crash _ => H.crash
  | .env f => ∀ w, H.env w (f w)
  | _ => True

/-- The host lets a script happen. Of a closed script only the moves that ask are left to be
looked at. -/
def Allows (ms : List (Move Ans R Tid W)) : Prop := (ms.filter Move.asks).Forall H.Permits

variable {H} {G : Guard Ans R Tid W} {check : Conf Ans R Tid W → Label Ans R Tid W → Bool}
  (hcheck : ∀ c l, check c l = true → G c l) {c c' : Conf Ans R Tid W} {m : Move Ans R Tid W}
  {s : List (Move Ans R Tid W)} {tr : List (Label Ans R Tid W)}

omit [DecidableEq Tid] in
theorem permits_of_asks (h : m.asks = true → H.Permits m) : H.Permits m := by
  cases m with
  | call t answer i => trivial
  | stop t => trivial
  | _ => exact h rfl

omit [DecidableEq Tid] in
theorem allows_iff : H.Allows s ↔ ∀ m ∈ s, H.Permits m := by
  rw [Allows, forall_iff_forall_mem]
  exact ⟨fun h m hm => permits_of_asks fun asks => h m (mem_filter.mpr ⟨hm, asks⟩),
    fun h m hm => h m (mem_filter.mp hm).1⟩

theorem move_sound {l : Label Ans R Tid W} (may : H.Permits m) (h : H.move c m = some (l, c')) :
    Step H c l c' := by
  cases m with
  | start t p =>
    simp only [move] at h
    split at h
    · next free =>
      cases h
      exact .start free may
    · cases h
  | call t answer i =>
    simp only [move] at h
    split at h
    · next at_call =>
      split at h
      · next out =>
        cases h
        exact .call at_call (mem_of_getElem? out)
      · cases h
    · cases h
  | stop t =>
    simp only [move] at h
    split at h
    · next at_ret =>
      cases h
      exact .stop at_ret
    · cases h
  | crash t =>
    simp only [move] at h
    split at h
    · next live =>
      cases h
      exact .crash may live
    · cases h
  | env f =>
    cases h
    exact .env (may c.world)

include hcheck in
theorem play_sound (may : H.Allows s) (h : H.play check c s = some (tr, c')) :
    Run H G c tr c' := by
  rw [allows_iff] at may
  induction s generalizing c tr with
  | nil =>
    cases h
    exact .nil
  | cons m ms ih =>
    obtain ⟨may₁, may₂⟩ := forall_mem_cons.mp may
    simp only [play] at h
    split at h
    · next l c₁ hm =>
      obtain ⟨hc, h⟩ := ite_none_right_eq_some.mp h
      obtain ⟨⟨tr₁, c₂⟩, hp, he⟩ := map_eq_some_iff.mp h
      cases he
      have first : Run H G c ([] ++ [l]) c₁ :=
        .snoc .nil (hcheck c l hc) (move_sound may₁ hm)
      exact first.append (ih may₂ hp)
    · cases h

theorem run_of_play (may : H.Allows s) (h : H.play (fun _ _ => true) c s = some (tr, c')) :
    Run H (fun _ _ => True) c tr c' :=
  play_sound (fun _ _ _ => trivial) may h

theorem step_of_move (t : Tid) (answer : W → (e : Op) → Ans e) (i : Nat) {l : Label Ans R Tid W}
    (h : H.move c (.call t answer i) = some (l, c')) : Step H c l c' :=
  move_sound (m := .call t answer i) trivial h

section

variable (check) (c) (s) {P : List (Label Ans R Tid W) → Conf Ans R Tid W → Prop}
  [∀ tr c, Decidable (P tr c)]

include hcheck in
theorem exists_run_of_play (may : H.Allows s)
    (h : (H.play check c s).any (fun r => P r.1 r.2) = true) :
    ∃ tr c', Run H G c tr c' ∧ P tr c' := by
  cases hp : H.play check c s with
  | none => simp [hp] at h
  | some r =>
    rw [hp] at h
    exact ⟨r.1, r.2, play_sound hcheck may hp, by simpa using h⟩

theorem exists_free_run (may : H.Allows s)
    (h : (H.play (fun _ _ => true) c s).any (fun r => P r.1 r.2) = true) :
    ∃ tr c', Run H (fun _ _ => True) c tr c' ∧ P tr c' :=
  exists_run_of_play _ (fun _ _ _ => trivial) c s may h

end

end Host

/-- Where a run has come to, for a run whose script is given. -/
abbrev Run.final [DecidableEq Tid] {H : Host Ans R Tid W} {G : Guard Ans R Tid W}
    {c c' : Conf Ans R Tid W} {tr : List (Label Ans R Tid W)} (_ : Run H G c tr c') :=
  c'

end Infra
