import Mathlib.Algebra.Order.Ring.Int
import Mathlib.Data.List.DropRight
import Mathlib.Data.List.GetD
import Mathlib.Data.List.Infix
import Mathlib.Data.List.TakeDrop
import Mathlib.Data.List.TakeWhile

/-!
# Strings as the Go standard library treats them

The parts of `strings`, `unicode` and `fmt` that the model needs. Everything goes through the list
of characters, so that closed instances evaluate.
-/

/-- The result of a Go function that returns nothing but an error. -/
abbrev Infra.GoErr : Type := Except String Unit

namespace Infra.GoText

open List

def isSpace (c : Char) : Bool :=
  let n := c.toNat
  (9 ≤ n && n ≤ 13) || n == 0x20 || n == 0x85 || n == 0xA0 || n == 0x1680 ||
    (0x2000 ≤ n && n ≤ 0x200A) || n == 0x2028 || n == 0x2029 || n == 0x202F || n == 0x205F ||
    n == 0x3000

variable (s : String)

def trimSpace : String :=
  String.ofList ((s.toList.dropWhile isSpace).reverse.dropWhile isSpace).reverse

/-- The lower case of a character as far as ASCII is concerned: besides the ASCII capitals, the
dotted capital I and the Kelvin sign have a lower case there. -/
def lowerASCII (c : Char) : Char :=
  if c.toNat = 0x130 then 'i' else if c.toNat = 0x212A then 'k' else c.toLower

def toLower : String := String.ofList (s.toList.map lowerASCII)

/-- What `EqualFold` takes a character for: the long s and the Kelvin sign fold into ASCII. -/
def foldASCII (c : Char) : Char :=
  if c.toNat = 0x17F then 's' else if c.toNat = 0x212A then 'k' else c.toLower

def equalFold (t : String) : Bool := s.toList.map foldASCII == t.toList.map foldASCII

def cut (sep : Char) : Option (String × String) :=
  match s.toList.span (· ≠ sep) with
  | (before, _ :: after) => some (String.ofList before, String.ofList after)
  | (_, []) => none

def split (sep : Char) : List String := (s.toList.splitOn sep).map String.ofList

def contains (sub : String) : Bool := decide (sub.toList <:+: s.toList)

def fields : List String := ((s.toList.splitOnP isSpace).filter (· ≠ [])).map String.ofList

def cutPrefix (start : String) : Option String :=
  if start.toList <+: s.toList then some (String.ofList (s.toList.drop start.toList.length))
  else none

def cutSuffix (suffix : String) : Option String :=
  if suffix.toList <:+ s.toList then
    some (String.ofList (s.toList.take (s.toList.length - suffix.toList.length)))
  else none

def atoi : Option Int :=
  let (negative, digits) := match s.toList with
    | '-' :: ds => (true, ds)
    | '+' :: ds => (false, ds)
    | ds => (false, ds)
  if digits = [] ∨ ¬digits.all Char.isDigit then none
  else
    let n : Int := digits.foldl (fun n d => 10 * n + (d.toNat - 48 : Nat)) 0
    let n := if negative then -n else n
    if -2 ^ 63 ≤ n ∧ n < 2 ^ 63 then some n else none

variable {s} {before after : String} {sep : Char}

theorem cut_eq_some (h : cut s sep = some (before, after)) :
    s.toList = before.toList ++ sep :: after.toList ∧ sep ∉ before.toList := by
  unfold cut at h
  rw [span_eq_takeWhile_dropWhile] at h
  split at h
  · next front c back heq =>
    obtain ⟨rfl, hback⟩ := Prod.mk.inj heq
    cases h
    have hc : c = sep := by
      have hhead := List.head?_dropWhile_not (fun x => decide (x ≠ sep)) s.toList
      rw [hback] at hhead
      simpa using hhead
    subst hc
    refine ⟨?_, fun hmem => ?_⟩
    · rw [String.toList_ofList, String.toList_ofList, ← hback, takeWhile_append_dropWhile]
    · rw [String.toList_ofList] at hmem
      simpa using mem_takeWhile_imp hmem
  · cases h

theorem cut_of_toList (h : s.toList = before.toList ++ sep :: after.toList)
    (hsep : sep ∉ before.toList) : cut s sep = some (before, after) := by
  have hall : ∀ c ∈ before.toList, decide (c ≠ sep) = true := by
    intro c hc
    refine decide_eq_true ?_
    rintro rfl
    exact hsep hc
  unfold cut
  rw [span_eq_takeWhile_dropWhile, h, takeWhile_append_of_pos hall, dropWhile_append_of_pos hall]
  simp

theorem cutPrefix_append (start s : String) : cutPrefix (start ++ s) start = some s := by
  rw [cutPrefix, String.toList_append, if_pos (prefix_append _ _), drop_left, String.ofList_toList]

theorem split_of_toList (h : s.toList = before.toList ++ sep :: after.toList) :
    split s sep = split before sep ++ split after sep := by
  rw [split, h, splitOn_append_cons_self, map_append]
  rfl

theorem split_eq_singleton (h : sep ∉ s.toList) : split s sep = [s] := by
  rw [split, splitOn_eq_singleton h, map_singleton, String.ofList_toList]

theorem not_mem_of_mem_splitOn {α : Type} [BEq α] [LawfulBEq α] {sep : α} {l part : List α}
    (h : part ∈ l.splitOn sep) : sep ∉ part := by
  induction l generalizing part with
  | nil =>
    obtain rfl : part = [] := by simpa using h
    exact not_mem_nil
  | cons c cs ih =>
    rw [splitOn_cons_eq_if_modifyHead] at h
    split at h
    · rcases mem_cons.mp h with rfl | h
      · exact not_mem_nil
      · exact ih h
    · next hc =>
      -- `c` comes in front of the first part
      obtain ⟨first, rest, hsplit⟩ := exists_cons_of_ne_nil (splitOn_ne_nil sep cs)
      rw [hsplit] at h ih
      rcases mem_cons.mp h with rfl | h
      · intro hmem
        rcases mem_cons.mp hmem with rfl | hmem
        · exact hc (beq_self_eq_true _)
        · exact ih mem_cons_self hmem
      · exact ih (mem_cons_of_mem _ h)

theorem not_mem_of_mem_split {part : String} (h : part ∈ split s sep) : sep ∉ part.toList := by
  obtain ⟨l, hl, rfl⟩ := mem_map.mp h
  rw [String.toList_ofList]
  exact not_mem_of_mem_splitOn hl

theorem split_join {parts : List String} (hne : parts ≠ []) (hsep : ∀ p ∈ parts, sep ∉ p.toList)
    (hs : s.toList = [sep].intercalate (parts.map String.toList)) : split s sep = parts := by
  rw [split, hs, splitOn_intercalate]
  · simp [Function.comp_def]
  · intro l hl
    obtain ⟨p, hp, rfl⟩ := mem_map.mp hl
    exact hsep p hp
  · simpa using hne

def readDigits (max n : Nat) : List Char → Except String Nat
  | [] => .ok n
  | c :: cs =>
    if c.isDigit = false then .error "invalid syntax"
    else if 10 * n + (c.toNat - 48) > max then .error "value out of range"
    else readDigits max (10 * n + (c.toNat - 48)) cs

def quoteChar : Char → List Char
  | '"' => ['\\', '"']
  | '\\' => ['\\', '\\']
  | '\n' => ['\\', 'n']
  | '\r' => ['\\', 'r']
  | '\t' => ['\\', 't']
  | c => [c]

def quote (s : String) : String :=
  String.ofList ('"' :: s.toList.flatMap quoteChar ++ ['"'])

def parseUint (max : Nat) (s : String) : Except String Nat :=
  match if s = "" then .error "invalid syntax" else readDigits max 0 s.toList with
  | .error e => .error ("strconv.ParseUint: parsing " ++ quote s ++ ": " ++ e)
  | .ok n => .ok n

theorem dash_eq_dash_iff {a b c d : String} : a ++ "-" ++ b = c ++ "-" ++ d ↔
      (a = c ∧ b = d) ∨ (∃ x, c = a ++ "-" ++ x ∧ b = x ++ "-" ++ d) ∨
        ∃ x, a = c ++ "-" ++ x ∧ d = x ++ "-" ++ b := by
  have split : ∀ {a b c d : List Char}, a ++ '-' :: b = c ++ '-' :: d →
      (a = c ∧ b = d) ∨ (∃ x, c = a ++ '-' :: x ∧ b = x ++ '-' :: d) ∨
        ∃ x, a = c ++ '-' :: x ∧ d = x ++ '-' :: b := by
    intro a b c d h
    rcases append_eq_append_iff.mp h with ⟨x, rfl, hb⟩ | ⟨x, rfl, hd⟩
    · cases x with
      | nil => exact .inl ⟨by simp, by simpa using hb⟩
      | cons y x =>
        obtain ⟨rfl, rfl⟩ := List.cons.inj hb
        exact .inr (.inl ⟨x, rfl, rfl⟩)
    · cases x with
      | nil => exact .inl ⟨by simp, by simpa using hd.symm⟩
      | cons y x =>
        obtain ⟨rfl, rfl⟩ := List.cons.inj hd
        exact .inr (.inr ⟨x, rfl, rfl⟩)
  have join : ∀ {s t u : String}, s = t ++ "-" ++ u ↔ s.toList = t.toList ++ '-' :: u.toList := by
    intro s t u
    rw [← String.toList_inj]
    simp
  constructor
  · intro h
    have h' : a.toList ++ '-' :: b.toList = c.toList ++ '-' :: d.toList := by
      simpa using congrArg String.toList h
    rcases split h' with ⟨h₁, h₂⟩ | ⟨x, h₁, h₂⟩ | ⟨x, h₁, h₂⟩
    · exact .inl ⟨String.toList_inj.mp h₁, String.toList_inj.mp h₂⟩
    · exact .inr (.inl ⟨.ofList x, join.mpr (by simpa using h₁), join.mpr (by simpa using h₂)⟩)
    · exact .inr (.inr ⟨.ofList x, join.mpr (by simpa using h₁), join.mpr (by simpa using h₂)⟩)
  · rintro (⟨rfl, rfl⟩ | ⟨x, rfl, rfl⟩ | ⟨x, rfl, rfl⟩)
    · rfl
    · simp only [String.append_assoc]
    · simp only [String.append_assoc]

/-! ## Trimming a character -/

def trimRight (s : String) (c : Char) : String :=
  String.ofList (s.toList.rdropWhile (· == c))

def trim (s : String) (c : Char) : String :=
  trimRight (String.ofList (s.toList.dropWhile (· == c))) c

section TrimRight

variable {α : Type} [BEq α] [LawfulBEq α] {c : α}

theorem getD_rdropWhile (l : List α) (i : Nat) : (l.rdropWhile (· == c)).getD i c = l.getD i c := by
  induction l using List.reverseRecOn with
  | nil => rw [rdropWhile_nil]
  | append_singleton l x ih =>
    by_cases hx : (x == c) = true
    · rw [rdropWhile_concat, if_pos hx, ih]
      obtain rfl := eq_of_beq hx
      by_cases hi : i < l.length
      · rw [getD_append _ _ _ _ hi]
      · rw [getD_eq_default _ _ (Nat.le_of_not_lt hi),
          getD_append_right _ _ _ _ (Nat.le_of_not_lt hi)]
        cases i - l.length <;> simp
    · rw [rdropWhile_concat, if_neg hx]

theorem length_rdropWhile_le {l l' : List α} (h : ∀ i, l.getD i c = l'.getD i c) :
    (l.rdropWhile (· == c)).length ≤ l'.length := by
  by_contra hlen
  have hne : l.rdropWhile (· == c) ≠ [] := by
    intro he
    rw [he] at hlen
    exact hlen (Nat.zero_le _)
  refine rdropWhile_last_not _ l hne ?_
  -- the last entry would be past the end of the other list
  have hlast : (l.rdropWhile (· == c)).getD ((l.rdropWhile (· == c)).length - 1) c = c := by
    rw [getD_rdropWhile, h, getD_eq_default _ _ (by omega)]
  rwa [getLast_eq_getElem, ← getD_eq_getElem _ c, beq_iff_eq]

theorem rdropWhile_eq_iff {l l' : List α} :
    l.rdropWhile (· == c) = l'.rdropWhile (· == c) ↔ ∀ i, l.getD i c = l'.getD i c := by
  constructor
  · intro h i
    rw [← getD_rdropWhile l, h, getD_rdropWhile]
  · intro h
    have h' : ∀ i, (l.rdropWhile (· == c)).getD i c = (l'.rdropWhile (· == c)).getD i c := by
      intro i
      rw [getD_rdropWhile, getD_rdropWhile, h]
    have hlen : (l.rdropWhile (· == c)).length = (l'.rdropWhile (· == c)).length := by
      refine Nat.le_antisymm (length_rdropWhile_le fun i => ?_) (length_rdropWhile_le fun i => ?_)
      · rw [getD_rdropWhile, h]
      · rw [getD_rdropWhile, h]
    refine ext_getElem hlen fun i hi hi' => ?_
    rw [← getD_eq_getElem _ c hi, h', getD_eq_getElem _ c hi']

omit [BEq α] [LawfulBEq α] in
theorem getD_take (l : List α) (n i : Nat) :
    (l.take n).getD i c = if i < n then l.getD i c else c := by
  split
  · next hi => rw [getD_eq_getElem?_getD, List.getElem?_take_of_lt hi, getD_eq_getElem?_getD]
  · next hi => rw [getD_eq_default _ _ (by rw [length_take]; omega)]

/-- Trimming before a text is cut to `n` does not show in what is trimmed after it. -/
theorem rdropWhile_cut (l : List α) (n : Nat) : (if n < (l.rdropWhile (· == c)).length then
        ((l.rdropWhile (· == c)).take n).rdropWhile (· == c)
      else l.rdropWhile (· == c)) = (l.take n).rdropWhile (· == c) := by
  have htake : ((l.rdropWhile (· == c)).take n).rdropWhile (· == c) =
      (l.take n).rdropWhile (· == c) := by
    refine rdropWhile_eq_iff.mpr fun i => ?_
    rw [getD_take, getD_rdropWhile, ← getD_take]
  split
  · exact htake
  · next hlen =>
    -- a short text is not cut, and it was trimmed before
    rw [← htake, take_of_length_le (Nat.le_of_not_lt hlen), rdropWhile_idempotent]

end TrimRight

end Infra.GoText
