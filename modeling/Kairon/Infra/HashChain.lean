import Mathlib.Data.List.Nodup
import Mathlib.Data.List.Infix

/-!
# Chains of hashes

Records of which each carries the hash of the one before it and a hash of its own text. Where no two
texts have the same digest, the hash of a record pins the record and all those before it, but none
after it.
-/

namespace Infra

open List

variable {ρ τ H : Type*}

structure HashChain (ρ τ H : Type*) where
  prev : ρ → H
  hash : ρ → H
  text : ρ → τ
  digest : τ → H
  /-- What the first record carries as the hash before it. -/
  genesis : H

namespace HashChain

variable (L : HashChain ρ τ H)

inductive Linked : List ρ → H → Prop
  | nil : Linked [] L.genesis
  | snoc {rs : List ρ} {last : H} {r : ρ} : Linked rs last → L.prev r = last →
    L.digest (L.text r) = L.hash r → Linked (rs ++ [r]) (L.hash r)

def hashes (rs : List ρ) : List H := L.genesis :: rs.map L.hash

variable {L} {rs es : List ρ} {last last' : H}

theorem linked_nil_iff : L.Linked [] last ↔ last = L.genesis := by
  refine ⟨fun h => ?_, fun h => h ▸ .nil⟩
  generalize hrs : ([] : List ρ) = rs at h
  cases h with
  | nil => rfl
  | snoc h hprev hhash => simp at hrs

theorem linked_concat_iff {r : ρ} : L.Linked (rs ++ [r]) last ↔
      L.Linked rs (L.prev r) ∧ L.digest (L.text r) = L.hash r ∧ last = L.hash r := by
  constructor
  · intro h
    generalize hrs : rs ++ [r] = rs' at h
    cases h with
    | nil => simp at hrs
    | snoc h hprev hhash =>
      obtain ⟨rfl, hr⟩ := append_inj' hrs rfl
      obtain rfl := singleton_inj.mp hr
      exact ⟨hprev ▸ h, hhash, rfl⟩
  · rintro ⟨h, hhash, rfl⟩
    exact h.snoc rfl hhash

theorem Linked.getElem?_last (h : L.Linked rs last) : (L.hashes rs)[rs.length]? = some last := by
  cases h with
  | nil => rfl
  | snoc h hprev hhash => simp [hashes]

theorem Linked.getElem?_prev (h : L.Linked rs last) {i : Nat} {r : ρ} (hi : rs[i]? = some r) :
    (L.hashes rs)[i]? = some (L.prev r) ∧ L.digest (L.text r) = L.hash r := by
  induction h with
  | nil => simp at hi
  | @snoc rs last r' h hprev hhash ih =>
    have hgrow (j : Nat) (hj : j ≤ rs.length) :
        (L.hashes (rs ++ [r']))[j]? = (L.hashes rs)[j]? := by
      rw [hashes, map_append, ← cons_append, List.getElem?_append_left (by simp; omega)]
      rfl
    rcases lt_or_ge i rs.length with hlt | hge
    · rw [List.getElem?_append_left hlt] at hi
      rw [hgrow i hlt.le]
      exact ih hi
    · obtain ⟨hlen, -⟩ := List.getElem?_eq_some_iff.mp hi
      obtain rfl : i = rs.length := by simp at hlen; omega
      obtain rfl : r' = r := by simpa using hi
      rw [hgrow _ le_rfl, h.getElem?_last, hprev]
      exact ⟨rfl, hhash⟩

theorem Linked.digest_eq (h : L.Linked rs last) {r : ρ} (hr : r ∈ rs) :
    L.digest (L.text r) = L.hash r := by
  obtain ⟨i, hi⟩ := mem_iff_getElem?.mp hr
  exact (h.getElem?_prev hi).2

/-- The hashes pin the links: records of two lists with one hash carry one hash before it. -/
def Pinned (L : HashChain ρ τ H) (rs es : List ρ) : Prop :=
  ∀ r ∈ rs, ∀ e ∈ es, L.hash r = L.hash e → L.prev r = L.prev e

theorem Linked.nodup (h : L.Linked rs last) (hgen : ∀ r ∈ rs, L.hash r ≠ L.genesis)
    (hpin : L.Pinned rs rs) : (L.hashes rs).Nodup := by
  induction h with
  | nil => simp [hashes]
  | @snoc rs last r h hprev hhash ih =>
    have hnodup : (L.hashes rs).Nodup :=
      ih (fun s hs => hgen s (mem_append_left _ hs))
        fun s hs s' hs' => hpin s (mem_append_left _ hs) s' (mem_append_left _ hs')
    have hnew : L.hash r ∉ L.hashes rs := by
      intro hmem
      rcases mem_cons.mp hmem with hfirst | hmem
      · exact hgen r (by simp) hfirst
      · obtain ⟨s, hs, heq⟩ := mem_map.mp hmem
        obtain ⟨i, hi⟩ := mem_iff_getElem?.mp hs
        -- both carry one hash, which the chain has at their two positions
        have hprevs := hpin s (mem_append_left _ hs) r (by simp) heq
        have hsame : (L.hashes rs)[i]? = (L.hashes rs)[rs.length]? := by
          rw [(h.getElem?_prev hi).1, h.getElem?_last, hprevs, hprev]
        obtain ⟨hlt, -⟩ := List.getElem?_eq_some_iff.mp hi
        have := (List.getElem?_inj (by simp [hashes]; omega) hnodup).mp hsame
        omega
    rw [hashes, map_append, ← cons_append]
    exact nodup_append.mpr ⟨hnodup, by simp, fun x hx y hy => by
      rintro rfl
      obtain rfl : x = L.hash r := by simpa using hy
      exact hnew hx⟩

theorem Linked.isPrefix (h : L.Linked rs last) (h' : L.Linked es last')
    (hgen : ∀ r ∈ rs, L.hash r ≠ L.genesis) (hself : L.Pinned rs rs) (hpin : L.Pinned rs es)
    (hkept : ∀ e ∈ es, L.hash e ∈ rs.map L.hash) : es.map L.hash <+: rs.map L.hash := by
  have hnodup := h.nodup hgen hself
  induction h' with
  | nil => simp
  | @snoc es last' e h' hprev hhash ih =>
    obtain ⟨rest, hrest⟩ := ih (fun r hr e he => hpin r hr e (mem_append_left _ he))
      fun e he => hkept e (mem_append_left _ he)
    obtain ⟨r, hr, heq⟩ := mem_map.mp (hkept e (by simp))
    obtain ⟨j, hj⟩ := mem_iff_getElem?.mp hr
    -- the hash that the new record carries is at its own position in both chains
    have hlink : (L.hashes rs)[es.length]? = some (L.prev r) := by
      have hgrow : L.hashes rs = L.hashes es ++ rest := by
        rw [hashes, ← hrest]
        rfl
      rw [hgrow, List.getElem?_append_left (by simp [hashes]), h'.getElem?_last,
        hpin r hr e (by simp) heq, hprev]
    obtain ⟨hlt, -⟩ := List.getElem?_eq_some_iff.mp hj
    have hpos : j = es.length :=
      (List.getElem?_inj (by simp [hashes]; omega) hnodup).mp
        ((h.getElem?_prev hj).1.trans hlink.symm)
    have hhead : rest[0]? = some (L.hash e) := by
      have := congrArg (·[es.length]?) hrest
      rw [List.getElem?_append_right (by simp)] at this
      simpa [← hpos, hj, heq] using this
    obtain ⟨rest', rfl⟩ : ∃ rest', rest = L.hash e :: rest' := by
      cases rest with
      | nil => simp at hhead
      | cons t rest' => exact ⟨rest', by simpa using hhead⟩
    exact ⟨rest', by simpa using hrest⟩

theorem Linked.of_isPrefix (h : L.Linked rs last) (hes : es <+: rs) :
    ∃ last', L.Linked es last' := by
  induction h with
  | nil =>
    obtain rfl := prefix_nil.mp hes
    exact ⟨_, .nil⟩
  | snoc h hprev hhash ih =>
    rcases prefix_concat_iff.mp hes with rfl | hes
    · exact ⟨_, h.snoc hprev hhash⟩
    · exact ih hes

theorem Linked.of_map_eq (h : L.Linked rs last)
    (hes : (es.map fun e => (L.prev e, L.hash e, L.text e)) =
      rs.map fun r => (L.prev r, L.hash r, L.text r)) : L.Linked es last := by
  induction h generalizing es with
  | nil =>
    obtain rfl := map_eq_nil_iff.mp hes
    exact .nil
  | snoc h hprev hhash ih =>
    rw [map_append, map_eq_append_iff] at hes
    obtain ⟨es, es', rfl, hes, hlast⟩ := hes
    obtain ⟨e, rfl, he⟩ := map_eq_singleton_iff.mp hlast
    simp only [Prod.mk.injEq] at he
    rw [← he.2.1]
    exact (ih hes).snoc (he.1.trans hprev) (by rw [he.2.1, he.2.2, hhash])

end HashChain

theorem map_isPrefix_map {α β γ : Type*} {f : α → β} {g : α → γ} {es rs : List α}
    (h : es.map f <+: rs.map f) (hfg : ∀ e ∈ es, ∀ r ∈ rs, f e = f r → g e = g r) :
    es.map g <+: rs.map g := by
  induction es generalizing rs with
  | nil => simp
  | cons e es ih =>
    cases rs with
    | nil => simp at h
    | cons r rs =>
      rw [map_cons, map_cons, cons_prefix_cons] at h ⊢
      exact ⟨hfg e (by simp) r (by simp) h.1, ih h.2 fun e he r hr =>
        hfg e (mem_cons_of_mem _ he) r (mem_cons_of_mem _ hr)⟩

end Infra
