import Mathlib.Algebra.BigOperators.Group.Finset.Piecewise
import Mathlib.Algebra.Order.BigOperators.Group.Finset
import Kairon.Infra.Conf

/-!
# Books over a run

Something is issued, held and spent: by the world, which has it in stock, and by the running
programs, which take it out of the stock first and spend it later. A program that dies takes what
it holds with it.
-/

namespace Infra

open Option Conf Function

variable {Op : Type} {Ans : Op → Type} {R Tid W : Type} [DecidableEq Tid]

/--
The books of a system: `stock` is what the world holds, `credit` what a program holds after the
calls it has made.

`I` is what the step lemmas may use of the state. Only what a call or the end of a program spends
has to be covered; a start or a crash spends nothing.
-/
structure Ledger (H : Host Ans R Tid W) (ok : Tid → List (Event Ans) → Op → Prop)
    (post : Tid → List (Event Ans) → R → Prop) (I : W → Pasts Ans Tid → Prop) (stock : W → ℕ)
    (credit : Tid → List (Event Ans) → ℕ) (issued spent : Label Ans R Tid W → Bool) : Prop where
  nothing : ∀ t, credit t [] = 0
  start : ∀ t p, spent (.start t p) = false
  call : ∀ {w ps t e a w' past}, I w ps → ps t = some past → ok t past e → w' ∈ H.outcomes t w e a →
    stock w' + credit t (⟨e, a⟩ :: past) + (spent (.call t ⟨e, a⟩)).toNat ≤
      stock w + credit t past + (issued (.call t ⟨e, a⟩)).toNat
  stop : ∀ {t past r}, post t past r → (spent (.stop t r)).toNat ≤ credit t past
  crash : ∀ t, spent (.crash t) = false
  env : ∀ {w ps w'}, I w ps → H.env w w' →
    stock w' + (spent (.env w')).toNat ≤ stock w + (issued (.env w')).toNat

namespace Ledger

variable {H : Host Ans R Tid W} {ok : Tid → List (Event Ans) → Op → Prop}
  {post : Tid → List (Event Ans) → R → Prop} {G : Guard Ans R Tid W}
  {I : W → Pasts Ans Tid → Prop} {stock : W → ℕ} {credit : Tid → List (Event Ans) → ℕ}
  {issued spent : Label Ans R Tid W → Bool}

def held (credit : Tid → List (Event Ans) → ℕ) (ps : Pasts Ans Tid) (t : Tid) : ℕ :=
  (ps t).elim 0 (credit t)

theorem held_update (ps : Pasts Ans Tid) (t : Tid) (new : Option (List (Event Ans))) :
    held credit (update ps t new) = update (held credit ps) t (new.elim 0 (credit t)) := by
  funext u
  by_cases hu : u = t
  · subst hu
    simp [held]
  · simp [held, hu]

theorem sum_held_update {s : Finset Tid} {ps : Pasts Ans Tid} (hs : ∀ u ∉ s, ps u = none)
    (t : Tid) (new : Option (List (Event Ans))) :
    ∑ u ∈ insert t s, held credit (update ps t new) u + held credit ps t =
      ∑ u ∈ s, held credit ps u + new.elim 0 (credit t) := by
  have absent : t ∉ s → held credit ps t = 0 := fun ht => by simp [held, hs t ht]
  rw [held_update, Finset.sum_update_of_mem (Finset.mem_insert_self t s),
    ← Finset.sum_insert_of_eq_zero_if_notMem absent, Finset.sdiff_singleton_eq_erase,
    ← Finset.add_sum_erase _ _ (Finset.mem_insert_self t s)]
  omega

omit [DecidableEq Tid] in
theorem countP_concat (tr : List (Label Ans R Tid W)) (l : Label Ans R Tid W)
    (p : Label Ans R Tid W → Bool) : (tr ++ [l]).countP p = tr.countP p + (p l).toNat := by
  cases hp : p l <;> simp [List.countP_append, hp]

/-- The books after the trace `tr`, begun with `total` in stock: `s` are the threads that may
hold something. -/
def Balanced (stock : W → ℕ) (credit : Tid → List (Event Ans) → ℕ)
    (issued spent : Label Ans R Tid W → Bool) (total : ℕ) (tr : List (Label Ans R Tid W)) (w : W)
    (ps : Pasts Ans Tid) : Prop :=
  ∃ s : Finset Tid, (∀ u ∉ s, ps u = none) ∧
    tr.countP spent + stock w + ∑ u ∈ s, held credit ps u ≤ tr.countP issued + total

/-- One step of one thread: what it adds to the stock, to what it holds and to what is spent, it
takes from the stock, from what it held or from what is issued. -/
theorem Balanced.update {total : ℕ} {tr : List (Label Ans R Tid W)} {w w' : W}
    {ps : Pasts Ans Tid} {l : Label Ans R Tid W} {t : Tid} {new : Option (List (Event Ans))}
    (h : Balanced stock credit issued spent total tr w ps)
    (hstep : stock w' + new.elim 0 (credit t) + (spent l).toNat ≤
      stock w + held credit ps t + (issued l).toNat) :
    Balanced stock credit issued spent total (tr ++ [l]) w' (update ps t new) := by
  obtain ⟨s, hs, hle⟩ := h
  refine ⟨insert t s, fun u hu => ?_, ?_⟩
  · rw [Finset.mem_insert, not_or] at hu
    rw [Function.update_of_ne hu.1]
    exact hs u hu.2
  · have shift : _ + held credit ps t = _ := sum_held_update hs t new
    rw [countP_concat, countP_concat]
    omega

theorem balanced_step (hL : Ledger H ok post I stock credit issued spent) {total : ℕ}
    {tr : List (Label Ans R Tid W)} {c c' : Conf Ans R Tid W} {l : Label Ans R Tid W}
    (h : Step H c l c') (hf : c.Follows ok post) (hi : I c.world c.past)
    (hb : Balanced stock credit issued spent total tr c.world c.past) :
    Balanced stock credit issued spent total (tr ++ [l]) c'.world c'.past := by
  have holds : ∀ {t past}, c.past t = some past → held credit c.past t = credit t past :=
    fun hp => by simp [held, hp]
  cases h with
  | @start t p free may =>
    rw [past_put]
    refine hb.update ?_
    simp only [map_some, elim_some, hL.nothing t, hL.start, Bool.toNat_false, world_put]
    omega
  | @call t e k past a w at_call out =>
    have hp : c.past t = some past := by simp [Conf.past, at_call]
    have := hL.call hi hp (hf _ _ at_call).1 out
    rw [past_put]
    refine hb.update ?_
    rwa [holds hp]
  | @stop t r past at_ret =>
    have hp : c.past t = some past := by simp [Conf.past, at_ret]
    have : (spent (.stop t r)).toNat ≤ credit t past := hL.stop (hf _ _ at_ret)
    rw [past_put]
    refine hb.update ?_
    rw [holds hp]
    simp only [map_none, elim_none, world_put]
    omega
  | @crash t th may live =>
    rw [past_put]
    refine hb.update ?_
    simp only [map_none, elim_none, hL.crash, Bool.toNat_false, world_put]
    omega
  | @env w may =>
    obtain ⟨s, hs, hle⟩ := hb
    have := hL.env hi may
    refine ⟨s, hs, ?_⟩
    rw [countP_concat, countP_concat]
    change _ + stock w + ∑ u ∈ s, held credit c.past u ≤ _
    omega

theorem spent_le_issued (hL : Ledger H ok post I stock credit issued spent)
    (hI : Inductive H ok post G I) (hok : ∀ t p, H.start t p → p.Follows (ok t) (post t) [])
    {w₀ : W} (h₀ : I w₀ fun _ => none) {tr : List (Label Ans R Tid W)} {c : Conf Ans R Tid W}
    (h : Run H G (.idle w₀) tr c) : tr.countP spent ≤ tr.countP issued + stock w₀ := by
  have books : c.Follows ok post ∧ I c.world c.past ∧
      Balanced stock credit issued spent (stock w₀) tr c.world c.past := by
    refine h.trace_invariant (I := fun tr c => c.Follows ok post ∧ I c.world c.past ∧
      Balanced stock credit issued spent (stock w₀) tr c.world c.past) ?_ ?_
    · exact ⟨follows_idle ok post w₀, h₀, ∅, fun _ _ => rfl, by simp⟩
    · rintro tr c l c' ⟨hf, hi, hb⟩ hG hs
      exact ⟨hs.follows hok hf, hI.step hs hG hf hi, hL.balanced_step hs hf hi hb⟩
  obtain ⟨-, -, s, -, hle⟩ := books
  omega

end Ledger

end Infra
