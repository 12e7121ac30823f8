import Kairon.Infra.GoText

/-!
# Paths as `path/filepath` treats them

`filepath.Clean` and `filepath.Join` with `/` as the separator. A path is walked one component
after the other, without looking at what is stored there.
-/

namespace Infra.GoPath

open Infra.GoText List

def components (p : String) : List String :=
  (split p '/').filter fun c => c ≠ "" ∧ c ≠ "."

def isRooted (p : String) : Bool := p.toList.head? == some '/'

variable (elems : List String) (rooted : Bool)

/-- One component further. A `..` takes the last component away; at the root there is none, and a
relative path keeps a `..` that leads out of it. -/
def enter (here : List String) (c : String) : List String :=
  if c ≠ ".." then here ++ [c]
  else
    match here.getLast? with
    | none => if rooted then [] else [".."]
    | some last => if last = ".." then here ++ [".."] else here.dropLast

def walk (here : List String) (cs : List String) : List String := cs.foldl (enter rooted) here

def place (p : String) : List String :=
  walk (isRooted p) [] (components p)

def render (parts : List String) : String :=
  if rooted then "/" ++ "/".intercalate parts
  else if parts = [] then "." else "/".intercalate parts

def clean (p : String) : String :=
  render (isRooted p) (place p)

def join : String :=
  match elems.dropWhile (· = "") with
  | [] => ""
  | elem :: elems => clean ("/".intercalate (elem :: elems))

variable {rooted} {here : List String} {c d p q s x y : String}

/-! ## Walking -/

structure Part (c : String) : Prop where
  slash : '/' ∉ c.toList
  empty : c ≠ ""
  dot : c ≠ "."

/-- A component that leads one step down. -/
structure Plain (c : String) : Prop extends Part c where
  up : c ≠ ".."

theorem walk_append (rooted : Bool) (here cs cs' : List String) :
    walk rooted here (cs ++ cs') = walk rooted (walk rooted here cs) cs' :=
  foldl_append

theorem components_plain (hc : Plain c) : components c = [c] := by
  rw [components, split_eq_singleton hc.slash, filter_cons_of_pos (by simp [hc.empty, hc.dot]),
    filter_nil]

theorem walk_plain (hc : Plain c) : walk rooted here [c] = here ++ [c] := by
  rw [walk, foldl_cons, foldl_nil, enter, if_pos hc.up]

theorem part_of_mem_components (h : c ∈ components p) : Part c := by
  obtain ⟨hc, hskip⟩ := mem_filter.mp h
  obtain ⟨hne, hdot⟩ : c ≠ "" ∧ c ≠ "." := by simpa using hskip
  exact ⟨not_mem_of_mem_split hc, hne, hdot⟩

theorem part_enter (hhere : ∀ c ∈ here, Part c) (hc : Part c) :
    ∀ c' ∈ enter rooted here c, Part c' := by
  have hup : Part ".." := ⟨by decide, by decide, by decide⟩
  unfold enter
  split
  · simpa [or_imp, forall_and] using ⟨hhere, hc⟩
  · split
    · split
      · simp
      · simpa using hup
    · split
      · simpa [or_imp, forall_and] using ⟨hhere, hup⟩
      · exact fun c' hc' => hhere c' (dropLast_subset _ hc')

theorem part_of_mem_place : ∀ c ∈ place p, Part c := by
  have hwalk : ∀ (cs here : List String), (∀ c ∈ here, Part c) → (∀ c ∈ cs, Part c) →
      ∀ c ∈ walk (isRooted p) here cs, Part c := by
    intro cs
    induction cs with
    | nil => exact fun here hhere _ => hhere
    | cons c cs ih =>
      intro here hhere hcs
      obtain ⟨hc, hcs⟩ := forall_mem_cons.mp hcs
      exact ih _ (part_enter hhere hc) hcs
  exact hwalk _ _ (by simp) fun c hc => part_of_mem_components hc

/-! ## The text of a place -/

theorem components_intercalate : components ("/".intercalate elems) = elems.flatMap components := by
  induction elems with
  | nil => decide
  | cons elem elems ih =>
    cases elems with
    | nil => simp
    | cons next elems =>
      have htext : ("/".intercalate (elem :: next :: elems)).toList =
          elem.toList ++ '/' :: ("/".intercalate (next :: elems)).toList := by
        simp [String.toList_intercalate]
      rw [components, split_of_toList htext, filter_append]
      exact congrArg (components elem ++ ·) ih

theorem components_parts {parts : List String} (h : ∀ c ∈ parts, Part c) :
    components ("/".intercalate parts) = parts := by
  rw [components_intercalate]
  induction parts with
  | nil => rfl
  | cons c parts ih =>
    obtain ⟨hc, hrest⟩ := forall_mem_cons.mp h
    have hself : components c = [c] := by
      rw [components, split_eq_singleton hc.slash]
      simp [hc.empty, hc.dot]
    rw [flatMap_cons, ih hrest, hself]
    rfl

theorem components_render {parts : List String} (h : ∀ c ∈ parts, Part c) :
    components (render rooted parts) = parts := by
  unfold render
  split
  · have htext : ("/" ++ "/".intercalate parts).toList =
        "".toList ++ '/' :: ("/".intercalate parts).toList := by simp
    rw [components, split_of_toList htext, filter_append]
    exact components_parts h
  · split
    · next he => exact he ▸ by decide
    · exact components_parts h

theorem isRooted_render {parts : List String} (h : ∀ c ∈ parts, Part c) :
    isRooted (render rooted parts) = rooted := by
  unfold render
  cases rooted with
  | true => simp [isRooted]
  | false =>
    cases parts with
    | nil => decide
    | cons c parts =>
      have hc := h c mem_cons_self
      obtain ⟨x, xs, hx⟩ := exists_cons_of_ne_nil
        (show c.toList ≠ [] from fun he => hc.empty (by simpa using he))
      have hslash : x ≠ '/' := fun he => hc.slash (by rw [hx, he]; exact mem_cons_self)
      have hhead : ("/".intercalate (c :: parts)).toList.head? = some x := by
        cases parts <;> simp [String.toList_intercalate, hx]
      rw [if_neg Bool.false_ne_true, if_neg (cons_ne_nil _ _), isRooted, hhead]
      simpa using hslash

theorem clean_eq_clean_iff : clean p = clean q ↔ isRooted p = isRooted q ∧ place p = place q := by
  constructor
  · intro h
    constructor
    · have := congrArg isRooted h
      rwa [clean, clean, isRooted_render part_of_mem_place, isRooted_render part_of_mem_place]
        at this
    · have := congrArg components h
      rwa [clean, clean, components_render part_of_mem_place, components_render part_of_mem_place]
        at this
  · rintro ⟨hr, hp⟩
    rw [clean, clean, hr, hp]

/-- Where joined elements lead, seen from the first of them. -/
def within (d : String) (elems : List String) : List String :=
  walk (isRooted d) (place d) (elems.flatMap components)

theorem join_eq_join_iff (hd : d ≠ "") {xs ys : List String} :
    join (d :: xs) = join (d :: ys) ↔ within d xs = within d ys := by
  have hjoin : ∀ xs, join (d :: xs) = clean ("/".intercalate (d :: xs)) := by
    intro xs
    rw [join, dropWhile_cons_of_neg (by simpa using hd)]
  have hrooted : ∀ xs, isRooted ("/".intercalate (d :: xs)) = isRooted d := by
    intro xs
    obtain ⟨c, cs, hc⟩ := exists_cons_of_ne_nil
      (show d.toList ≠ [] from fun he => hd (by simpa using he))
    cases xs <;> simp [isRooted, String.toList_intercalate, hc]
  have hplace : ∀ xs, place ("/".intercalate (d :: xs)) = within d xs := by
    intro xs
    rw [place, hrooted, components_intercalate, flatMap_cons, walk_append]
    rfl
  rw [hjoin, hjoin, clean_eq_clean_iff, hrooted, hrooted, hplace, hplace]
  exact and_iff_right rfl

theorem within_plain {xs : List String} (h : ∀ x ∈ xs, Plain x) : within d xs = place d ++ xs := by
  induction xs using List.reverseRecOn with
  | nil => simp [within, walk]
  | append_singleton xs x ih =>
    have hx := h x (by simp)
    have hxs := ih fun y hy => h y (by simp [hy])
    rw [within] at hxs ⊢
    rw [flatMap_append, walk_append, hxs, flatMap_singleton, components_plain hx,
      walk_plain hx, append_assoc]

end Infra.GoPath
