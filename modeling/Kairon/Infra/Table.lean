import Mathlib.Algebra.BigOperators.Group.List.Basic
import Mathlib.Algebra.Order.Ring.Int
import Mathlib.Data.List.Nodup
import Mathlib.Logic.Function.Basic

/-!
# Tables of objects

A finite table whose rows carry their own key, no key twice: what an API server stores of one
kind of object.
-/

namespace Infra

open List

structure Table {K V : Type} (key : V → K) where
  rows : List V
  distinct : (rows.map key).Nodup

namespace Table

variable {K V : Type} [DecidableEq K] {key : V → K} {k : K} {v v' : V} {f : V → V}
  {t : Table key}

def find (t : Table key) (k : K) : Option V :=
  t.rows.find? fun v => key v = k

theorem find_eq_some_iff : t.find k = some v ↔ v ∈ t.rows ∧ key v = k := by
  constructor
  · intro h
    exact ⟨mem_of_find?_eq_some h, by simpa using List.find?_some h⟩
  · rintro ⟨hv, rfl⟩
    obtain ⟨rows, distinct⟩ := t
    simp only [find] at hv ⊢
    induction rows with
    | nil => cases hv
    | cons u rows ih =>
      rw [map_cons, nodup_cons] at distinct
      rcases mem_cons.mp hv with rfl | hv
      · simp
      · have hne : key u ≠ key v := fun he => distinct.1 (he ▸ mem_map_of_mem hv)
        simpa [hne] using ih distinct.2 hv

theorem find_eq_none_iff : t.find k = none ↔ ∀ v ∈ t.rows, key v ≠ k := by
  simp [find]

def edit (t : Table key) (k : K) (f : V → V) (hf : ∀ v, key (f v) = key v) : Table key where
  rows := t.rows.map fun v => if key v = k then f v else v
  distinct := by
    have same : (key ∘ fun v => if key v = k then f v else v) = key := by
      funext v
      simp only [Function.comp_apply]
      split
      · exact hf v
      · rfl
    rw [map_map, same]
    exact t.distinct

theorem rows_edit_of_find_eq_none {hf : ∀ v, key (f v) = key v} (h : t.find k = none) :
    (t.edit k f hf).rows = t.rows :=
  (map_congr_left fun v hv => if_neg (find_eq_none_iff.mp h v hv)).trans (map_id _)

theorem find_edit (t : Table key) (k k' : K) (f : V → V) (hf : ∀ v, key (f v) = key v) :
    (t.edit k f hf).find k' = if k' = k then (t.find k').map f else t.find k' := by
  obtain ⟨rows, distinct⟩ := t
  simp only [find, edit]
  clear distinct
  induction rows with
  | nil => simp
  | cons v rows ih =>
    have hkey : key (if key v = k then f v else v) = key v := by
      split
      · exact hf v
      · rfl
    simp only [map_cons, List.find?_cons, hkey]
    by_cases hv : key v = k'
    · simp only [hv, decide_true, Option.map_some]
      split <;> rfl
    · simpa [hv] using ih

def replace (t : Table key) (v : V) : Table key :=
  t.edit (key v) (fun u => if key u = key v then v else u) fun u => by
    split
    · next h => exact h.symm
    · rfl

theorem sum_edit {A : Type} [AddCommMonoid A] {h : ∀ v, key (f v) = key v} (hv : t.find k = some v)
    (g : V → A) : ((t.edit k f h).rows.map g).sum + g v = (t.rows.map g).sum + g (f v) := by
  obtain ⟨hmem, rfl⟩ := find_eq_some_iff.mp hv
  obtain ⟨rows, distinct⟩ := t
  simp only [edit] at hmem ⊢
  clear hv
  induction rows with
  | nil => cases hmem
  | cons u rows ih =>
    rw [map_cons, nodup_cons] at distinct
    rcases mem_cons.mp hmem with rfl | hrest
    · -- no other row has this key
      have same : rows.map (fun u => if key u = key v then f u else u) = rows := by
        refine map_congr_left (g := id) (fun u hu => if_neg fun he => ?_)
          |>.trans (map_id _)
        exact distinct.1 (he ▸ mem_map_of_mem hu)
      simp only [map_cons, sum_cons, if_true, same]
      ac_rfl
    · have hne : key u ≠ key v := fun he => distinct.1 (he ▸ mem_map_of_mem hrest)
      have := ih distinct.2 hrest
      simp only [map_cons, sum_cons, if_neg hne]
      rw [add_assoc, this, add_assoc]

theorem sum_replace {u : V} (hu : t.find (key v) = some u) (g : V → ℕ) :
    ((t.replace v).rows.map g).sum + g u = (t.rows.map g).sum + g v := by
  rw [replace, sum_edit hu g, if_pos (find_eq_some_iff.mp hu).2]

def add (t : Table key) (v : V) : Table key :=
  if h : ∀ u ∈ t.rows, key u ≠ key v then
    ⟨v :: t.rows, by
      rw [map_cons, nodup_cons]
      refine ⟨fun hm => ?_, t.distinct⟩
      obtain ⟨u, hu, he⟩ := mem_map.mp hm
      exact h u hu he⟩
  else t

theorem mem_add (h : v' ∈ (t.add v).rows) : v' ∈ t.rows ∨ v' = v := by
  unfold add at h
  split at h
  · exact (mem_cons.mp h).symm
  · exact .inl h

theorem sum_add (hv : t.find (key v) = none) (g : V → ℕ) :
    ((t.add v).rows.map g).sum = (t.rows.map g).sum + g v := by
  rw [add, dif_pos (find_eq_none_iff.mp hv), map_cons, sum_cons, Nat.add_comm]

def erase (t : Table key) (k : K) : Table key :=
  ⟨t.rows.filter fun v => key v ≠ k, t.distinct.sublist (filter_sublist.map key)⟩

theorem find_erase (t : Table key) (k k' : K) :
    (t.erase k).find k' = if k' = k then none else t.find k' := by
  have split : ∀ v, (t.erase k).find k' = some v ↔ k' ≠ k ∧ t.find k' = some v := by
    intro v
    simp only [find_eq_some_iff, erase, mem_filter, decide_eq_true_eq]
    constructor
    · rintro ⟨⟨hv, hk⟩, rfl⟩
      exact ⟨hk, hv, rfl⟩
    · rintro ⟨hk, hv, rfl⟩
      exact ⟨⟨hv, hk⟩, rfl⟩
  ext v
  rw [split v]
  by_cases hk : k' = k <;> simp [hk]

def settle (t : Table key) (k : K) (f : V → V) (hf : ∀ v, key (f v) = key v) (ended : V → Bool) :
    Table key :=
  if ((t.find k).map f).any ended then t.erase k else t.edit k f hf

theorem mem_edit_iff {hf : ∀ v, key (f v) = key v} : v' ∈ (t.edit k f hf).rows ↔
      v' ∈ t.rows ∧ key v' ≠ k ∨ ∃ v ∈ t.rows, key v = k ∧ v' = f v := by
  simp only [edit, mem_map]
  constructor
  · rintro ⟨v, hv, rfl⟩
    by_cases hk : key v = k
    · exact .inr ⟨v, hv, hk, by rw [if_pos hk]⟩
    · rw [if_neg hk]
      exact .inl ⟨hv, hk⟩
  · rintro (⟨hv, hk⟩ | ⟨v, hv, hk, rfl⟩)
    · exact ⟨v', hv, if_neg hk⟩
    · exact ⟨v, hv, if_pos hk⟩

theorem eq_of_key_eq {u : V} (hu : u ∈ t.rows) (hv : v ∈ t.rows) (hk : key u = key v) : u = v := by
  have hfu := find_eq_some_iff.mpr ⟨hu, hk⟩
  have hfv := find_eq_some_iff.mpr ⟨hv, rfl⟩
  exact Option.some.inj (hfu.symm.trans hfv)

theorem mem_edit {hf : ∀ v, key (f v) = key v}
    (h : v' ∈ (t.edit k f hf).rows) : ∃ v ∈ t.rows, v' = v ∨ key v = k ∧ v' = f v := by
  obtain ⟨v, hv, heq⟩ := mem_map.mp h
  refine ⟨v, hv, ?_⟩
  split at heq
  · next hk => exact .inr ⟨hk, heq.symm⟩
  · exact .inl heq.symm

theorem mem_settle {hf : ∀ v, key (f v) = key v} {ended : V → Bool}
    (h : v' ∈ (t.settle k f hf ended).rows) : ∃ v ∈ t.rows, v' = v ∨ key v = k ∧ v' = f v := by
  unfold settle at h
  split at h
  · exact ⟨v', (mem_filter.mp h).1, .inl rfl⟩
  · exact mem_edit h

theorem find_settle (t : Table key) (k k' : K) (f : V → V) (hf : ∀ v, key (f v) = key v)
    (ended : V → Bool) : (t.settle k f hf ended).find k' =
      if k' = k then ((t.find k').map f).filter (fun v => !ended v) else t.find k' := by
  unfold settle
  by_cases hk : k' = k
  · subst hk
    cases hv : t.find k' with
    | none => simp [find_edit, hv]
    | some v => by_cases he : ended (f v) = true <;>
        simp [find_edit, find_erase, hv, he, Option.filter]
  · split
    · rw [find_erase, if_neg hk]
    · rw [find_edit, if_neg hk]

end Table

/-!
## Versioned objects

What an API server stores of one kind of object: a row under every name, with an identity that is
never given twice and a version that every write draws anew.
-/

open Table

structure Identity (K U V : Type) where
  key : V → K
  uid : V → U
  version : V → ℕ
  /-- The object with another version. -/
  stamp : ℕ → V → V
  key_stamp : ∀ n v, key (stamp n v) = key v
  uid_stamp : ∀ n v, uid (stamp n v) = uid v
  version_stamp : ∀ n v, version (stamp n v) = n

attribute [simp] Identity.key_stamp Identity.uid_stamp Identity.version_stamp

/-- The stored objects: no version is ahead of the revision, every identity has been given, and no
two objects share an identity or a version. -/
structure Registry {K U V : Type} (D : Identity K U V) where
  table : Table D.key
  revision : ℕ
  uids : List U
  known : ∀ v ∈ table.rows, D.version v ≤ revision ∧ D.uid v ∈ uids
  apart : ∀ v ∈ table.rows, ∀ v' ∈ table.rows,
    D.uid v = D.uid v' ∨ D.version v = D.version v' → v = v'

namespace Registry

variable {K U V : Type} [DecidableEq K] {D : Identity K U V} {r : Registry D} {v v' : V}

def update (r : Registry D) (k : K) (f : V → V)
    (hf : ∀ v, D.key (f v) = D.key v ∧ D.uid (f v) = D.uid v) : Registry D where
  table := r.table.edit k (fun v => D.stamp (r.revision + 1) (f v)) fun v => by
    rw [D.key_stamp]
    exact (hf v).1
  revision := r.revision + 1
  uids := r.uids
  known := by
    intro v' hv'
    rcases mem_edit_iff.mp hv' with ⟨hv, -⟩ | ⟨v, hv, -, rfl⟩
    · exact ⟨Nat.le_succ_of_le (r.known v' hv).1, (r.known v' hv).2⟩
    · simp [(hf v).2, (r.known v hv).2]
  apart := by
    -- the one object that was written keeps its identity and has a version nothing else has
    have new : ∀ u ∈ r.table.rows, ∀ v ∈ r.table.rows, D.key u ≠ k → D.key v = k →
        ¬(D.uid u = D.uid v ∨ D.version u = r.revision + 1) := by
      rintro u hu v hv hku hkv (he | he)
      · exact hku (r.apart u hu v hv (.inl he) ▸ hkv)
      · have := (r.known u hu).1
        omega
    intro x hx y hy he
    rcases mem_edit_iff.mp hx with ⟨hx, hkx⟩ | ⟨u, hu, hku, rfl⟩ <;>
      rcases mem_edit_iff.mp hy with ⟨hy, hky⟩ | ⟨v, hv, hkv, rfl⟩
    · exact r.apart x hx y hy he
    · refine absurd ?_ (new x hx v hv hkx hkv)
      simpa [(hf v).2] using he
    · refine absurd ?_ (new y hy u hu hky hku)
      simpa [(hf u).2, eq_comm] using he
    · rw [eq_of_key_eq hu hv (hku.trans hkv.symm)]

def create (r : Registry D) (v : V) (hk : r.table.find (D.key v) = none) (hu : D.uid v ∉ r.uids) :
    Registry D where
  table := ⟨D.stamp (r.revision + 1) v :: r.table.rows, by
    rw [map_cons, nodup_cons, D.key_stamp]
    refine ⟨fun hm => ?_, r.table.distinct⟩
    obtain ⟨u, hu, he⟩ := mem_map.mp hm
    exact find_eq_none_iff.mp hk u hu he⟩
  revision := r.revision + 1
  uids := D.uid v :: r.uids
  known := by
    intro v' hv'
    rcases mem_cons.mp hv' with rfl | hv'
    · simp
    · exact ⟨Nat.le_succ_of_le (r.known v' hv').1, mem_cons_of_mem _ (r.known v' hv').2⟩
  apart := by
    have new : ∀ u ∈ r.table.rows, ¬(D.uid u = D.uid v ∨ D.version u = r.revision + 1) := by
      rintro u hmem (he | he)
      · exact hu (he ▸ (r.known u hmem).2)
      · have := (r.known u hmem).1
        omega
    intro x hx y hy he
    rcases mem_cons.mp hx with rfl | hx <;> rcases mem_cons.mp hy with rfl | hy
    · rfl
    · refine absurd ?_ (new y hy)
      simpa [eq_comm] using he
    · refine absurd ?_ (new x hx)
      simpa using he
    · exact r.apart x hx y hy he

def erase (r : Registry D) (k : K) : Registry D where
  table := r.table.erase k
  revision := r.revision + 1
  uids := r.uids
  known := by
    intro v hv
    have := r.known v (mem_filter.mp hv).1
    exact ⟨Nat.le_succ_of_le this.1, this.2⟩
  apart := fun x hx y hy => r.apart x (mem_filter.mp hx).1 y (mem_filter.mp hy).1

theorem mem_update {k : K} {f : V → V} {hf : ∀ v, D.key (f v) = D.key v ∧ D.uid (f v) = D.uid v} :
    v' ∈ (r.update k f hf).table.rows ↔ v' ∈ r.table.rows ∧ D.key v' ≠ k ∨
      ∃ v ∈ r.table.rows, D.key v = k ∧ v' = D.stamp (r.revision + 1) (f v) := by
  simp only [update]
  exact mem_edit_iff

theorem mem_create {hk : r.table.find (D.key v) = none} {hu : D.uid v ∉ r.uids} :
    v' ∈ (r.create v hk hu).table.rows ↔ v' = D.stamp (r.revision + 1) v ∨ v' ∈ r.table.rows :=
  mem_cons

theorem mem_of_mem_erase {k : K} (h : v ∈ (r.erase k).table.rows) : v ∈ r.table.rows :=
  (mem_filter.mp h).1

/-- `v` was stored at some time: what is stored now under its version is `v` itself. -/
structure Copy (r : Registry D) (v : V) : Prop where
  version_le : D.version v ≤ r.revision
  eq_of_version_eq : ∀ u ∈ r.table.rows, D.version u = D.version v → u = v

omit [DecidableEq K] in
theorem Copy.of_mem (h : v ∈ r.table.rows) : r.Copy v :=
  ⟨(r.known v h).1, fun u hu he => r.apart u hu v h (.inr he)⟩

namespace Copy

theorem update (h : r.Copy v) (k : K) (f : V → V)
    (hf : ∀ v, D.key (f v) = D.key v ∧ D.uid (f v) = D.uid v) : (r.update k f hf).Copy v := by
  refine ⟨Nat.le_succ_of_le h.version_le, fun u hu he => ?_⟩
  rcases mem_update.mp hu with ⟨hu, -⟩ | ⟨x, -, -, rfl⟩
  · exact h.eq_of_version_eq u hu he
  · have := h.version_le
    rw [D.version_stamp] at he
    omega

theorem create (h : r.Copy v) {x : V} (hk : r.table.find (D.key x) = none)
    (hu : D.uid x ∉ r.uids) : (r.create x hk hu).Copy v := by
  refine ⟨Nat.le_succ_of_le h.version_le, fun u hmem he => ?_⟩
  rcases mem_create.mp hmem with rfl | hmem
  · have := h.version_le
    rw [D.version_stamp] at he
    omega
  · exact h.eq_of_version_eq u hmem he

theorem erase (h : r.Copy v) (k : K) : (r.erase k).Copy v :=
  ⟨Nat.le_succ_of_le h.version_le, fun u hu => h.eq_of_version_eq u (mem_of_mem_erase hu)⟩

end Copy

end Registry

/-!
## A directory of files

Names, the files they stand for, and what is in the files. A file that is open stays the same file
when it gets another name or loses its name, so a directory keeps names and contents apart. No file
has two names.
-/

open Table Function

structure Dir (K α : Type) where
  files : Table (Prod.fst : K × Nat → K)
  data : Nat → List α
  next : Nat
  single : ∀ x ∈ files.rows, ∀ y ∈ files.rows, x.2 = y.2 → x = y
  fresh : ∀ x ∈ files.rows, x.2 < next

namespace Dir

variable {K α : Type} [DecidableEq K] {k : K} {i : Nat} {d : Dir K α}

def find (d : Dir K α) (k : K) : Option Nat := (d.files.find k).map Prod.snd

def read (d : Dir K α) (k : K) : Option (List α) := (d.find k).map d.data

theorem find_eq_some_iff : d.find k = some i ↔ (k, i) ∈ d.files.rows := by
  unfold find
  rw [Option.map_eq_some_iff]
  constructor
  · rintro ⟨⟨k', i'⟩, hfind, rfl⟩
    obtain ⟨hmem, rfl⟩ := Table.find_eq_some_iff.mp hfind
    exact hmem
  · exact fun hmem => ⟨(k, i), Table.find_eq_some_iff.mpr ⟨hmem, rfl⟩, rfl⟩

theorem eq_of_find {k' : K} (h : d.find k = some i) (h' : d.find k' = some i) : k = k' := by
  have heq := d.single _ (find_eq_some_iff.mp h) _ (find_eq_some_iff.mp h') rfl
  exact congrArg Prod.fst heq

theorem find_lt_next (h : d.find k = some i) : i < d.next :=
  d.fresh _ (find_eq_some_iff.mp h)

def empty : Dir K α := ⟨⟨[], .nil⟩, fun _ => [], 0, nofun, nofun⟩

/-! ## Opening -/

def link (d : Dir K α) (k : K) : Dir K α where
  files := d.files.add (k, d.next)
  data := d.data
  next := d.next + 1
  single := by
    intro x hx y hy heq
    rcases mem_add hx with hx | rfl <;> rcases mem_add hy with hy | rfl
    · exact d.single x hx y hy heq
    · exact absurd heq (Nat.ne_of_lt (d.fresh x hx))
    · exact absurd heq (Nat.ne_of_gt (d.fresh y hy))
    · rfl
  fresh := by
    intro x hx
    rcases mem_add hx with hx | rfl
    · exact Nat.lt_succ_of_lt (d.fresh x hx)
    · exact Nat.lt_succ_self _

theorem find_link (h : d.find k = none) (k' : K) :
    (d.link k).find k' = if k' = k then some d.next else d.find k' := by
  have hnone : ∀ u ∈ d.files.rows, u.1 ≠ k := by
    rintro ⟨u, i⟩ hu rfl
    simp [find_eq_some_iff.mpr hu] at h
  have hrows : (d.link k).files.rows = (k, d.next) :: d.files.rows := by
    simp only [link, Table.add]
    rw [dif_pos hnone]
  ext i
  rw [find_eq_some_iff, hrows, mem_cons, Prod.mk.injEq, ← find_eq_some_iff]
  by_cases hk : k' = k
  · subst hk
    simp [h, eq_comm]
  · simp [hk]

def create (d : Dir K α) (k : K) : Dir K α × Nat :=
  match d.find k with
  | some i => ({ d with data := update d.data i [] }, i)
  | none => ({ d.link k with data := update d.data d.next [] }, d.next)

theorem find_create (d : Dir K α) (k k' : K) :
    (d.create k).1.find k' = if k' = k then some (d.create k).2 else d.find k' := by
  unfold create
  cases h : d.find k with
  | some i =>
    by_cases hk : k' = k
    · rwa [if_pos hk, hk]
    · rw [if_neg hk]
      rfl
  | none => exact find_link h k'

theorem data_create (d : Dir K α) (k : K) :
    (d.create k).1.data = update d.data (d.create k).2 [] := by
  unfold create
  cases d.find k <;> rfl

theorem ne_create {k' : K} (h : d.find k' = some i) (hk : k' ≠ k) : i ≠ (d.create k).2 := by
  rintro rfl
  unfold create at h
  cases hfind : d.find k with
  | some j =>
    rw [hfind] at h
    exact hk (eq_of_find h hfind)
  | none =>
    rw [hfind] at h
    exact Nat.lt_irrefl _ (find_lt_next h)

/-! ## Writing -/

def overwrite (new old : List α) : List α := new ++ old.drop new.length

@[simp] theorem overwrite_nil (new : List α) : overwrite new [] = new := by
  simp [overwrite]

def write (d : Dir K α) (i : Nat) (text : List α) : Dir K α :=
  { d with data := update d.data i (overwrite text (d.data i)) }

/-! ## Names -/

def remove (d : Dir K α) (k : K) : Dir K α where
  files := d.files.erase k
  data := d.data
  next := d.next
  single x hx y hy := d.single x (mem_filter.mp hx).1 y (mem_filter.mp hy).1
  fresh x hx := d.fresh x (mem_filter.mp hx).1

theorem find_remove (d : Dir K α) (k k' : K) :
    (d.remove k).find k' = if k' = k then none else d.find k' := by
  unfold find
  rw [remove, find_erase]
  split <;> rfl

def rename (d : Dir K α) (k k' : K) : Dir K α :=
  match h : d.find k with
  | none => d
  | some i =>
    { files := ((d.remove k).remove k').files.add (k', i)
      data := d.data
      next := d.next
      single := by
        -- no other name stands for the file
        have hother : ∀ x ∈ ((d.remove k).remove k').files.rows, x.2 ≠ i := by
          rintro ⟨u, j⟩ hx rfl
          have hx' : (u, j) ∈ (d.remove k).files.rows := (mem_filter.mp hx).1
          have hu : u ≠ k := by simpa using (mem_filter.mp hx').2
          exact hu (eq_of_find (find_eq_some_iff.mpr (mem_filter.mp hx').1) h)
        intro x hx y hy heq
        rcases mem_add hx with hx | rfl <;> rcases mem_add hy with hy | rfl
        · exact ((d.remove k).remove k').single x hx y hy heq
        · exact absurd heq (hother x hx)
        · exact absurd heq.symm (hother y hy)
        · rfl
      fresh := by
        intro x hx
        rcases mem_add hx with hx | rfl
        · exact ((d.remove k).remove k').fresh x hx
        · exact find_lt_next h }

theorem data_rename (d : Dir K α) (k k' : K) : (d.rename k k').data = d.data := by
  unfold rename
  split <;> rfl

theorem find_rename (h : d.find k = some i) (k' q : K) :
    (d.rename k k').find q = if q = k' then some i else if q = k then none else d.find q := by
  have hnone : ∀ u ∈ ((d.remove k).remove k').files.rows, u.1 ≠ k' := by
    intro u hu
    simpa using (mem_filter.mp hu).2
  have hrows : (d.rename k k').files.rows = (k', i) :: ((d.remove k).remove k').files.rows := by
    unfold rename
    split
    · next hfind =>
      simp [h] at hfind
    · next j hfind =>
      obtain rfl : i = j := Option.some.inj (h.symm.trans hfind)
      simp only [Table.add]
      rw [dif_pos hnone]
  ext j
  rw [find_eq_some_iff, hrows, mem_cons, Prod.mk.injEq, ← find_eq_some_iff, find_remove,
    find_remove]
  by_cases hq : q = k'
  · simp [hq, eq_comm]
  · simp [hq]

end Dir

end Infra
