import Mathlib.Algebra.Order.Ring.Int
import Mathlib.Data.List.Basic

/-!
# JSON texts, character by character

What `encoding/json` writes for an object of strings, and how it reads any text. A Go string is its
characters and the bytes that belong to none: such a byte is written as the replacement character.
The reader is the scanner of the package, one glyph at a time.
-/

namespace Infra.JsonLine

open List Option

/-! ## Go strings -/

/-- A character, or a byte that is part of none. -/
inductive Glyph where
  | char (c : Char)
  | bad (b : UInt8)
  deriving DecidableEq

abbrev Text := List Glyph

def ofChars (cs : List Char) : Text := cs.map .char

@[simp] theorem ofChars_append (cs ds : List Char) :
    ofChars (cs ++ ds) = ofChars cs ++ ofChars ds :=
  map_append

variable {cs : List Char} {t : Text} {n : Nat} {c : Char}

theorem ofChars_injective {ds : List Char} (h : ofChars cs = ofChars ds) : cs = ds :=
  map_injective_iff.mpr (fun _ _ hc => Glyph.char.inj hc) h

def Glyph.bytes : Glyph → List UInt8
  | char c => String.utf8EncodeChar c
  | bad b => [b]

def bytes (t : Text) : List UInt8 := t.flatMap Glyph.bytes

def size (t : Text) : Nat := (bytes t).length

@[simp] theorem size_nil : size [] = 0 := rfl

@[simp] theorem size_append (s t : Text) : size (s ++ t) = size s + size t := by
  simp [size, bytes]

variable (g : Glyph)

@[simp] theorem size_cons (t : Text) : size (g :: t) = g.bytes.length + size t := by
  simp [size, bytes]

def replacement : Char := '\ufffd'

def clean (t : Text) : List Char :=
  t.map fun
    | .char c => c
    | .bad _ => replacement

@[simp] theorem clean_nil : clean [] = [] := rfl

@[simp] theorem clean_eq_nil : clean t = [] ↔ t = [] := map_eq_nil_iff

@[simp] theorem clean_ofChars (cs : List Char) : clean (ofChars cs) = cs := by
  simp [clean, ofChars, Function.comp_def]

def valid (t : Text) : Bool :=
  t.all fun
    | .char _ => true
    | .bad _ => false

theorem valid_iff : valid t = true ↔ ofChars (clean t) = t := by
  induction t with
  | nil => simp [valid, clean, ofChars]
  | cons g t ih =>
    cases g with
    | char c => simpa [valid, clean, ofChars] using ih
    | bad b => simp [valid, clean, ofChars]

@[simp] theorem valid_ofChars (cs : List Char) : valid (ofChars cs) = true :=
  valid_iff.mpr (by rw [clean_ofChars])

@[simp] theorem valid_append (s t : Text) : valid (s ++ t) = (valid s && valid t) := all_append

theorem eq_of_bytes_eq {s : Text} (hs : valid s = true) (ht : valid t = true)
    (h : bytes s = bytes t) : s = t := by
  have hbytes (cs : List Char) : bytes (ofChars cs) = cs.flatMap String.utf8EncodeChar := by
    simp [bytes, ofChars, flatMap_map, Glyph.bytes]
  rw [← valid_iff.mp hs, ← valid_iff.mp ht, hbytes, hbytes] at h
  have hlist : (clean s).utf8Encode = (clean t).utf8Encode := by
    rw [List.utf8Encode, List.utf8Encode, h]
  have hstring : String.ofList (clean s) = String.ofList (clean t) :=
    String.toByteArray_inj.mp (by rwa [String.toByteArray_ofList, String.toByteArray_ofList])
  rw [← valid_iff.mp hs, ← valid_iff.mp ht, String.ofList_injective hstring]

def cut (n : Nat) : Text → Text
  | [] => []
  | g :: t =>
    if g.bytes.length ≤ n then g :: cut (n - g.bytes.length) t else (g.bytes.take n).map .bad

theorem Glyph.length_bytes_pos : 0 < g.bytes.length := by
  cases g with
  | char c =>
    rw [Glyph.bytes, String.length_utf8EncodeChar]
    exact c.utf8Size_pos
  | bad b => exact Nat.one_pos

theorem bytes_cut (n : Nat) (t : Text) : bytes (cut n t) = (bytes t).take n := by
  have hbad (bs : List UInt8) : bytes (bs.map .bad) = bs := by
    induction bs with
    | nil => rfl
    | cons b bs ih => exact congrArg (b :: ·) ih
  induction t generalizing n with
  | nil => simp [cut, bytes]
  | cons g t ih =>
    have hcons (u : Text) : bytes (g :: u) = g.bytes ++ bytes u := rfl
    unfold cut
    split
    · rename_i hle
      rw [hcons, hcons, ih, take_append, take_of_length_le hle]
    · rename_i hlt
      rw [hbad, hcons, take_append_of_le_length (by omega)]

@[simp] theorem cut_zero (t : Text) : cut 0 t = [] := by
  cases t with
  | nil => rfl
  | cons g t => simp [cut, Nat.ne_of_gt g.length_bytes_pos]

theorem cut_append_of_le {s : Text} (h : n ≤ size s) (t : Text) : cut n (s ++ t) = cut n s := by
  induction s generalizing n with
  | nil =>
    obtain rfl : n = 0 := Nat.le_zero.mp h
    simp
  | cons g s ih =>
    rw [size_cons] at h
    simp only [cons_append, cut]
    split
    · rw [ih (by omega)]
    · rfl

theorem cut_of_size_le (h : size t ≤ n) : cut n t = t := by
  induction t generalizing n with
  | nil => rfl
  | cons g t ih =>
    rw [size_cons] at h
    rw [cut, if_pos (by omega), ih (by omega)]

theorem cut_isPrefix_or (n : Nat) (t : Text) : cut n t <+: t ∨ ∃ u b, cut n t = u ++ [.bad b] := by
  induction t generalizing n with
  | nil => exact .inl (prefix_refl _)
  | cons g t ih =>
    unfold cut
    split
    · obtain h | ⟨u, b, h⟩ := ih (n - g.bytes.length)
      · exact .inl ((cons_prefix_cons).mpr ⟨rfl, h⟩)
      · exact .inr ⟨g :: u, b, by rw [h, cons_append]⟩
    · obtain hnil | ⟨bs, b, hbs⟩ := eq_nil_or_concat' (g.bytes.take n)
      · rw [hnil]
        exact .inl nil_prefix
      · rw [hbs]
        exact .inr ⟨bs.map .bad, b, map_append⟩

theorem char_mem_of_mem_cut (h : Glyph.char c ∈ cut n t) : Glyph.char c ∈ t := by
  induction t generalizing n with
  | nil => cases h
  | cons g t ih =>
    unfold cut at h
    split at h
    · rcases mem_cons.mp h with rfl | h
      · exact mem_cons_self
      · exact mem_cons_of_mem _ (ih h)
    · obtain ⟨b, -, hb⟩ := List.mem_map.mp h
      cases hb

/-! ## Writing -/

def hexDigit (n : Nat) : Char := Char.ofNat (if n < 10 then 48 + n else 87 + n)

def hexEncode (bs : List UInt8) : List Char :=
  bs.flatMap fun b => [hexDigit (b.toNat / 16), hexDigit (b.toNat % 16)]

theorem length_hexEncode (bs : List UInt8) : (hexEncode bs).length = 2 * bs.length := by
  simp [hexEncode, length_flatMap, Nat.mul_comm]

def hexValue (c : Char) : Option Nat :=
  let n := c.toNat
  if 48 ≤ n ∧ n ≤ 57 then some (n - 48)
  else if 97 ≤ n ∧ n ≤ 102 then some (n - 87)
  else if 65 ≤ n ∧ n ≤ 70 then some (n - 55)
  else none

theorem hexValue_hexDigit : ∀ n < 16, hexValue (hexDigit n) = some n := by decide

def codeEscape (n : Nat) : List Char :=
  ['\\', 'u', hexDigit (n / 4096 % 16), hexDigit (n / 256 % 16), hexDigit (n / 16 % 16),
    hexDigit (n % 16)]

/-- The characters that are written as the escape of their code: control characters, those with a
meaning in HTML, and two separators of lines. -/
def codeEscaped (c : Char) : Bool :=
  decide (c.toNat < 32) || c == '<' || c == '>' || c == '&' || c == '\u2028' || c == '\u2029'

def shortEscape (c : Char) : Option Char :=
  if c = '"' then some '"' else if c = '\\' then some '\\' else if c = '\x08' then some 'b'
  else if c = '\x0c' then some 'f' else if c = '\n' then some 'n' else if c = '\r' then some 'r'
  else if c = '\t' then some 't' else none

def escapeChar (c : Char) : List Char :=
  match shortEscape c with
  | some letter => ['\\', letter]
  | none => if codeEscaped c then codeEscape c.toNat else [c]

def escapeGlyph : Glyph → List Char
  | .char c => escapeChar c
  | .bad _ => [replacement]

def escape (t : Text) : Text := ofChars (t.flatMap escapeGlyph)

@[simp] theorem escape_nil : escape [] = [] := rfl

@[simp] theorem escape_cons (t : Text) : escape (g :: t) = ofChars (escapeGlyph g) ++ escape t := by
  simp [escape]

def quoted (t : Text) : Text := .char '"' :: (escape t ++ [.char '"'])

def member (m : Text × Text) : Text := quoted m.1 ++ .char ':' :: quoted m.2

def renderMembers : List (Text × Text) → Text
  | [] => []
  | [m] => member m
  | m :: m' :: ms => member m ++ .char ',' :: renderMembers (m' :: ms)

def render (ms : List (Text × Text)) : Text :=
  .char '\x7b' :: (renderMembers ms ++ [.char '\x7d'])

/-! ## Reading -/

/-- What a string literal is made of: characters, and codes of 16 bits, two of which may make up
one character. -/
inductive CodeUnit where
  | char (c : Char)
  | code (n : Nat)

def isHigh (n : Nat) : Bool := decide (0xd800 ≤ n ∧ n < 0xdc00)

def isLow (n : Nat) : Bool := decide (0xdc00 ≤ n ∧ n < 0xe000)

def combine : List CodeUnit → List Char
  | [] => []
  | .char c :: us => c :: combine us
  | .code n :: .code m :: us =>
    if isHigh n && isLow m then
      Char.ofNat ((n - 0xd800) * 1024 + (m - 0xdc00) + 0x10000) :: combine us
    else if isHigh n || isLow n then replacement :: combine (.code m :: us)
    else Char.ofNat n :: combine (.code m :: us)
  | .code n :: us =>
    (if isHigh n || isLow n then replacement else Char.ofNat n) :: combine us

theorem combine_code (hh : isHigh n = false) (hl : isLow n = false)
    (us : List CodeUnit) : combine (.code n :: us) = Char.ofNat n :: combine us := by
  cases us with
  | nil => simp [combine, hh, hl]
  | cons u us => cases u <;> simp [combine, hh, hl]

/-- A JSON value. A string is kept as it is written, too: a type with a reader of its own is given
that. -/
inductive Val where
  | null
  | bool (b : Bool)
  | num (raw : List Char)
  | str (raw : Text) (s : List Char)
  | arr (items : List Val)
  | obj (members : List (List Char × Val))

inductive NumState where
  | neg
  | zero
  | int
  | dot
  | frac
  | e
  | eSign
  | exp

namespace NumState

def step (s : NumState) (c : Char) : Option NumState :=
  match s with
  | neg => if c = '0' then some zero else if c.isDigit then some int else none
  | zero => if c = '.' then some dot else if c = 'e' ∨ c = 'E' then some e else none
  | int =>
    if c.isDigit then some int else if c = '.' then some dot
    else if c = 'e' ∨ c = 'E' then some e else none
  | dot => if c.isDigit then some frac else none
  | frac => if c.isDigit then some frac else if c = 'e' ∨ c = 'E' then some e else none
  | e => if c = '+' ∨ c = '-' then some eSign else if c.isDigit then some exp else none
  | eSign => if c.isDigit then some exp else none
  | exp => if c.isDigit then some exp else none

def final : NumState → Bool
  | zero => true
  | int => true
  | frac => true
  | exp => true
  | _ => false

end NumState

/-- An array or an object that is being read. The key of an object is there from when it is read
until its value is. -/
inductive Frame where
  | arr (items : List Val)
  | obj (members : List (List Char × Val)) (key : Option (List Char))

inductive Mode where
  | beginValue
  | beginValueOrEmpty
  | beginString
  | beginStringOrEmpty
  | inString (raw : Text) (units : List CodeUnit)
  | inStringEsc (raw : Text) (units : List CodeUnit)
  | inStringEscU (raw : Text) (units : List CodeUnit) (code left : Nat)
  | inNumber (s : NumState) (raw : List Char)
  | inWord (rest : List Char) (v : Val)
  | colon
  | endValue
  | endTop (v : Val)

structure Scanner where
  stack : List Frame
  mode : Mode

variable (stack : List Frame) (s : Scanner)

namespace Scanner

def maxNestingDepth : Nat := 10000

def start : Scanner := ⟨[], .beginValue⟩

def finish (v : Val) : Option Scanner :=
  match stack with
  | [] => some ⟨[], .endTop v⟩
  | .arr items :: st => some ⟨.arr (items ++ [v]) :: st, .endValue⟩
  | .obj ms (some k) :: st => some ⟨.obj (ms ++ [(k, v)]) none :: st, .endValue⟩
  | .obj _ none :: _ => none

def finishString (raw : Text) (units : List CodeUnit) : Option Scanner :=
  match stack with
  | .obj ms none :: st => some ⟨.obj ms (some (combine units)) :: st, .colon⟩
  | _ => finish stack (.str raw (combine units))

def push (f : Frame) (mode : Mode) : Option Scanner :=
  if stack.length < maxNestingDepth then some ⟨f :: stack, mode⟩ else none

def isBlank (c : Char) : Bool := c == ' ' || c == '\t' || c == '\r' || c == '\n'

def beginValue (c : Char) : Option Scanner :=
  if c = '\x7b' then push stack (.obj [] none) .beginStringOrEmpty
  else if c = '[' then push stack (.arr []) .beginValueOrEmpty
  else if c = '"' then some ⟨stack, .inString [] []⟩
  else if c = '-' then some ⟨stack, .inNumber .neg [c]⟩
  else if c = '0' then some ⟨stack, .inNumber .zero [c]⟩
  else if c.isDigit then some ⟨stack, .inNumber .int [c]⟩
  else if c = 't' then some ⟨stack, .inWord ['r', 'u', 'e'] (.bool true)⟩
  else if c = 'f' then some ⟨stack, .inWord ['a', 'l', 's', 'e'] (.bool false)⟩
  else if c = 'n' then some ⟨stack, .inWord ['u', 'l', 'l'] .null⟩
  else none

def endValue (c : Char) : Option Scanner :=
  if isBlank c then some s
  else match s with
    | ⟨.arr items :: st, .endValue⟩ =>
      if c = ',' then some ⟨.arr items :: st, .beginValue⟩
      else if c = ']' then finish st (.arr items) else none
    | ⟨.obj ms k :: st, .endValue⟩ =>
      if c = ',' then some ⟨.obj ms k :: st, .beginString⟩
      else if c = '\x7d' then finish st (.obj ms) else none
    | _ => none

def unescape (c : Char) : Option Char :=
  if c = '"' then some '"' else if c = '\\' then some '\\' else if c = '/' then some '/'
  else if c = 'b' then some '\x08' else if c = 'f' then some '\x0c' else if c = 'n' then some '\n'
  else if c = 'r' then some '\r' else if c = 't' then some '\t' else none

def stepChar (c : Char) : Option Scanner :=
  match s.mode with
  | .beginValue => if isBlank c then some s else beginValue s.stack c
  | .beginValueOrEmpty =>
    if isBlank c then some s
    else if c = ']' then endValue ⟨s.stack, .endValue⟩ c
    else beginValue s.stack c
  | .beginString =>
    if isBlank c then some s
    else if c = '"' then some ⟨s.stack, .inString [] []⟩ else none
  | .beginStringOrEmpty =>
    if isBlank c then some s
    else if c = '\x7d' then endValue ⟨s.stack, .endValue⟩ c
    else if c = '"' then some ⟨s.stack, .inString [] []⟩ else none
  | .inString raw units =>
    if c = '"' then finishString s.stack raw units
    else if c = '\\' then some ⟨s.stack, .inStringEsc (raw ++ [.char c]) units⟩
    else if c.toNat < 32 then none
    else some ⟨s.stack, .inString (raw ++ [.char c]) (units ++ [.char c])⟩
  | .inStringEsc raw units =>
    if c = 'u' then some ⟨s.stack, .inStringEscU (raw ++ [.char c]) units 0 4⟩
    else (unescape c).map fun d => ⟨s.stack, .inString (raw ++ [.char c]) (units ++ [.char d])⟩
  | .inStringEscU raw units code left =>
    (hexValue c).map fun v =>
      if left ≤ 1 then ⟨s.stack, .inString (raw ++ [.char c]) (units ++ [.code (code * 16 + v)])⟩
      else ⟨s.stack, .inStringEscU (raw ++ [.char c]) units (code * 16 + v) (left - 1)⟩
  | .inNumber n raw =>
    match n.step c with
    | some n' => some ⟨s.stack, .inNumber n' (raw ++ [c])⟩
    | none => if n.final then (finish s.stack (.num raw)).bind (endValue · c) else none
  | .inWord rest v =>
    match rest with
    | [] => none
    | [x] => if c = x then finish s.stack v else none
    | x :: xs => if c = x then some ⟨s.stack, .inWord xs v⟩ else none
  | .colon => if isBlank c then some s else if c = ':' then some ⟨s.stack, .beginValue⟩ else none
  | .endValue => endValue s c
  | .endTop _ => endValue s c

/-- One glyph. A byte that is part of no character may only stand in a string. -/
def step : Glyph → Option Scanner
  | .char c => stepChar s c
  | .bad b =>
    match s.mode with
    | .inString raw units =>
      some ⟨s.stack, .inString (raw ++ [.bad b]) (units ++ [.char replacement])⟩
    | _ => none

def scan (t : Text) : Option Scanner := t.foldlM step s

@[simp] theorem scan_nil : s.scan [] = some s := rfl

@[simp] theorem scan_cons (g : Glyph) (t : Text) : s.scan (g :: t) = (s.step g).bind (·.scan t) :=
  rfl

@[simp] theorem scan_append (t u : Text) : s.scan (t ++ u) = (s.scan t).bind (·.scan u) :=
  foldlM_append

def eof : Option Val :=
  match s with
  | ⟨[], .endTop v⟩ => some v
  | ⟨[], .inNumber n raw⟩ => if n.final then some (.num raw) else none
  | _ => none

end Scanner

def unmarshal (t : Text) : Option Val := (Scanner.start.scan t).bind Scanner.eof

/-! ## Reading what was written -/

theorem shortEscape_eq_some {letter : Char} (h : shortEscape c = some letter) :
    letter ≠ 'u' ∧ Scanner.unescape letter = some c := by
  unfold shortEscape at h
  split_ifs at h with h₁ h₂ h₃ h₄ h₅ h₆ h₇ <;>
    · cases h
      subst c
      exact ⟨by decide, rfl⟩

theorem shortEscape_eq_none (h : shortEscape c = none) : c ≠ '"' ∧ c ≠ '\\' := by
  unfold shortEscape at h
  split_ifs at h with h₁ h₂
  exact ⟨h₁, h₂⟩

theorem toNat_lt_of_codeEscaped (h : codeEscaped c = true) : c.toNat < 65536 := by
  simp only [codeEscaped, Bool.or_eq_true, decide_eq_true_eq, beq_iff_eq] at h
  obtain ((((h | rfl) | rfl) | rfl) | rfl) | rfl := h
  · omega
  all_goals decide

def glyphUnit : Glyph → CodeUnit
  | .char c =>
    match shortEscape c with
    | some _ => .char c
    | none => if codeEscaped c then .code c.toNat else .char c
  | .bad _ => .char replacement

theorem combine_glyphUnit (us : List CodeUnit) : combine (glyphUnit g :: us) = clean [g] ++ combine
    us := by
  cases g with
  | bad b => rfl
  | char c =>
    have hhigh : isHigh c.toNat = false := by
      have := c.valid
      simp only [isHigh, UInt32.isValidChar, Nat.isValidChar, Char.toNat, decide_eq_false_iff_not]
        at this ⊢
      omega
    have hlow : isLow c.toNat = false := by
      have := c.valid
      simp only [isLow, UInt32.isValidChar, Nat.isValidChar, Char.toNat, decide_eq_false_iff_not]
        at this ⊢
      omega
    simp only [glyphUnit]
    split
    · rfl
    · split
      · rw [combine_code hhigh hlow, Char.ofNat_toNat]
        rfl
      · rfl

theorem combine_map_glyphUnit (t : Text) : combine (t.map glyphUnit) = clean t := by
  induction t with
  | nil => rfl
  | cons g t ih =>
    rw [map_cons, combine_glyphUnit, ih]
    rfl

namespace Scanner

variable (st : List Frame) (raw : Text) (us : List CodeUnit)

theorem scan_codeEscape (h : n < 65536) : scan ⟨st, .inString raw us⟩ (ofChars (codeEscape n)) =
      some ⟨st, .inString (raw ++ ofChars (codeEscape n)) (us ++ [.code n])⟩ := by
  have hdigit (k : Nat) : hexValue (hexDigit (k % 16)) = some (k % 16) :=
    hexValue_hexDigit _ (Nat.mod_lt _ (by decide))
  have hvalue : ((n / 4096 % 16 * 16 + n / 256 % 16) * 16 + n / 16 % 16) * 16 + n % 16 = n := by
    omega
  simp [ofChars, codeEscape, step, stepChar, hdigit, hvalue]

theorem scan_escapeGlyph (g : Glyph) : scan ⟨st, .inString raw us⟩ (ofChars (escapeGlyph g)) =
      some ⟨st, .inString (raw ++ ofChars (escapeGlyph g)) (us ++ [glyphUnit g])⟩ := by
  cases g with
  | bad b => rfl
  | char c =>
    simp only [escapeGlyph, escapeChar, glyphUnit]
    cases hs : shortEscape c with
    | some letter =>
      obtain ⟨hu, hun⟩ := shortEscape_eq_some hs
      simp [ofChars, step, stepChar, hu, hun]
    | none =>
      cases hc : codeEscaped c with
      | true => simpa using scan_codeEscape st raw us (toNat_lt_of_codeEscaped hc)
      | false =>
        obtain ⟨hquote, hslash⟩ := shortEscape_eq_none hs
        have hcontrol : ¬c.toNat < 32 := fun h => by simp [codeEscaped, h] at hc
        simp [ofChars, step, stepChar, hquote, hslash, hcontrol]

theorem scan_escape (t : Text) : scan ⟨st, .inString raw us⟩ (escape t) =
      some ⟨st, .inString (raw ++ escape t) (us ++ t.map glyphUnit)⟩ := by
  induction t generalizing raw us with
  | nil => simp
  | cons g t ih => simp [scan_escapeGlyph, ih]

theorem scan_literal (t : Text) : scan ⟨st, .inString [] []⟩ (escape t ++ [.char '"']) =
      finishString st (escape t) (t.map glyphUnit) := by
  simp [scan_escape, step, stepChar]

theorem scan_member (ms : List (List Char × Val)) (m : Text × Text) {mode : Mode}
    (hmode : mode = .beginString ∨ mode = .beginStringOrEmpty) :
    scan ⟨.obj ms none :: st, mode⟩ (member m) =
      some ⟨.obj (ms ++ [(clean m.1, .str (escape m.2) (clean m.2))]) none :: st, .endValue⟩ := by
  have hkey : step ⟨.obj ms none :: st, mode⟩ (.char '"') =
      some ⟨.obj ms none :: st, .inString [] []⟩ := by
    rcases hmode with rfl | rfl <;> rfl
  have hcolon (k : List Char) : step ⟨.obj ms (some k) :: st, .colon⟩ (.char ':') =
      some ⟨.obj ms (some k) :: st, .beginValue⟩ := rfl
  have hvalue (k : List Char) : step ⟨.obj ms (some k) :: st, .beginValue⟩ (.char '"') =
      some ⟨.obj ms (some k) :: st, .inString [] []⟩ := rfl
  simp only [member, quoted, cons_append, scan_cons, hkey, bind_some]
  rw [scan_append, scan_literal, finishString, bind_some, scan_cons, hcolon,
    bind_some, scan_cons, hvalue, bind_some, scan_literal]
  simp [finishString, finish, combine_map_glyphUnit]

theorem scan_renderMembers (m : Text × Text) (rest : List (Text × Text))
    (ms : List (List Char × Val)) {mode : Mode}
    (hmode : mode = .beginString ∨ mode = .beginStringOrEmpty) :
    scan ⟨.obj ms none :: st, mode⟩ (renderMembers (m :: rest)) =
      some ⟨.obj (ms ++ (m :: rest).map fun m => (clean m.1, .str (escape m.2) (clean m.2))) none
        :: st, .endValue⟩ := by
  induction rest generalizing m ms mode with
  | nil => exact scan_member st ms m hmode
  | cons m' rest ih =>
    have hcomma (ms' : List (List Char × Val)) : step ⟨.obj ms' none :: st, .endValue⟩ (.char ',') =
          some ⟨.obj ms' none :: st, .beginString⟩ := rfl
    rw [renderMembers, scan_append, scan_member st ms m hmode, bind_some, scan_cons, hcomma,
      bind_some, ih _ _ (.inl rfl)]
    simp

end Scanner

/-- An object of strings is read back, each of its strings with the odd bytes replaced. -/
theorem unmarshal_render (ms : List (Text × Text)) : unmarshal (render ms) =
      some (.obj (ms.map fun m => (clean m.1, .str (escape m.2) (clean m.2)))) := by
  cases ms with
  | nil => rfl
  | cons m ms =>
    have hopen : Scanner.start.step (.char '\x7b') =
        some ⟨[.obj [] none], .beginStringOrEmpty⟩ := rfl
    simp only [unmarshal, render, Scanner.scan_cons, hopen, bind_some, Scanner.scan_append,
      Scanner.scan_renderMembers [] m ms [] (.inr rfl)]
    rfl

theorem render_inj {ms ms' : List (Text × Text)} (h : render ms = render ms') :
    (ms.map fun m => (clean m.1, clean m.2)) = ms'.map fun m => (clean m.1, clean m.2) := by
  have hval := congrArg unmarshal h
  rw [unmarshal_render, unmarshal_render] at hval
  have hmembers := Val.obj.inj (Option.some.inj hval)
  simpa [Function.comp_def] using congrArg (List.map fun m : List Char × Val =>
    (m.1, match m.2 with | .str _ s => s | _ => [])) hmembers

/-! ## A text after another -/

def blank (t : Text) : Bool :=
  t.all fun
    | .char c => Scanner.isBlank c
    | .bad _ => false

namespace Scanner

theorem scan_endTop (v : Val) (s : Text) :
    scan ⟨[], .endTop v⟩ s = if blank s then some ⟨[], .endTop v⟩ else none := by
  induction s with
  | nil => simp [blank]
  | cons g s ih =>
    unfold blank at ih ⊢
    cases g with
    | bad b => simp [step]
    | char c =>
      cases hc : isBlank c with
      | true => simp [step, stepChar, endValue, hc, ih]
      | false => simp [step, stepChar, endValue, hc]

theorem eq_endTop_of_eof {s : Scanner} {v : Val} (h : s.eof = some v)
    (hv : ∀ raw, v ≠ .num raw) : s = ⟨[], .endTop v⟩ := by
  unfold eof at h
  split at h
  · cases h
    rfl
  · split at h
    · cases h
      exact absurd rfl (hv _)
    · cases h
  · cases h

end Scanner

/-- After a value that is not a number only blanks may follow. A number ends where the text does, so
that what follows may be part of it. -/
theorem unmarshal_append {v : Val} (h : unmarshal t = some v)
    (hv : ∀ raw, v ≠ .num raw) (s : Text) :
    unmarshal (t ++ s) = if blank s then some v else none := by
  obtain ⟨end', hscan, heof⟩ := bind_eq_some_iff.mp h
  rw [unmarshal, Scanner.scan_append, hscan, bind_some,
    Scanner.eq_endTop_of_eof heof hv, Scanner.scan_endTop]
  split <;> rfl

theorem unmarshal_concat_bad (t : Text) (b : UInt8) : unmarshal (t ++ [.bad b]) = none := by
  rw [unmarshal, Scanner.scan_append]
  cases Scanner.start.scan t with
  | none => rfl
  | some s =>
    obtain ⟨st, mode⟩ := s
    cases mode <;> simp [Scanner.step, Scanner.eof]

/-- Nothing is read of a text that was cut, but for a number: a text ends where its value does. -/
theorem num_of_unmarshal_cut {v v' : Val} (h : unmarshal t = some v)
    (hlast : ∀ g ∈ t.getLast?, blank [g] = false) (hn : n < size t)
    (hcut : unmarshal (cut n t) = some v') : ∃ raw, v' = .num raw := by
  by_contra hnum
  obtain ⟨u, hu⟩ | ⟨u, b, hu⟩ := cut_isPrefix_or n t
  · have hne : u ≠ [] := by
      rintro rfl
      have hsize : size (cut n t) = min n (size t) := by
        rw [size, bytes_cut, length_take, size]
      rw [append_nil] at hu
      rw [hu] at hsize
      omega
    have hblank : blank u = false := by
      obtain ⟨w, g, rfl⟩ := (eq_nil_or_concat' u).resolve_left hne
      have hg := hlast g (by rw [← hu]; simp)
      unfold blank at hg ⊢
      rw [all_append, hg, Bool.and_false]
    rw [← hu, unmarshal_append hcut (fun raw hv => hnum ⟨raw, hv⟩), hblank] at h
    cases h
  · rw [hu, unmarshal_concat_bad] at hcut
    cases hcut

/-! ## What a written text looks like -/

def plain (c : Char) : Bool := (shortEscape c).isNone && !codeEscaped c

theorem escapeChar_of_plain (h : plain c = true) : escapeChar c = [c] := by
  simp only [plain, Bool.and_eq_true, isNone_iff_eq_none, Bool.not_eq_true'] at h
  simp [escapeChar, h.1, h.2]

theorem escape_of_plain (h : ∀ c ∈ cs, plain c = true) : escape (ofChars cs) = ofChars cs := by
  induction cs with
  | nil => rfl
  | cons c cs ih =>
    obtain ⟨hc, hcs⟩ := forall_mem_cons.mp h
    rw [ofChars, map_cons, escape_cons, escapeGlyph, escapeChar_of_plain hc]
    exact congrArg (Glyph.char c :: ·) (ih hcs)

theorem plain_hexDigit : ∀ n < 16, plain (hexDigit n) = true := by decide

theorem size_of_plain_hex (h : ∀ c ∈ cs, ∃ n < 16, c = hexDigit n) :
    size (ofChars cs) = cs.length := by
  have hone : ∀ n < 16, (Glyph.char (hexDigit n)).bytes.length = 1 := by decide
  induction cs with
  | nil => rfl
  | cons c cs ih =>
    obtain ⟨⟨n, hn, rfl⟩, hcs⟩ := forall_mem_cons.mp h
    rw [ofChars, map_cons, size_cons, hone n hn, length_cons, Nat.add_comm]
    exact congrArg (· + 1) (ih hcs)

theorem printable_of_mem_codeEscape : ∀ c ∈ codeEscape n, 32 ≤ c.toNat := by
  have hdigit : ∀ n < 16, 32 ≤ (hexDigit n).toNat := by decide
  have hmod (k : Nat) := hdigit (k % 16) (Nat.mod_lt _ (by decide))
  simp only [codeEscape, forall_mem_cons]
  exact ⟨by decide, by decide, hmod _, hmod _, hmod _, hmod _, by simp⟩

theorem printable_of_mem_escapeGlyph {g : Glyph} : ∀ c ∈ escapeGlyph g, 32 ≤ c.toNat := by
  cases g with
  | bad b => simp [escapeGlyph, replacement]
  | char d =>
    simp only [escapeGlyph, escapeChar]
    cases hs : shortEscape d with
    | some letter =>
      have hletter : 32 ≤ letter.toNat := by
        unfold shortEscape at hs
        split_ifs at hs <;> cases hs <;> decide
      simp only [forall_mem_cons]
      exact ⟨by decide, hletter, by simp⟩
    | none =>
      cases hc : codeEscaped d with
      | true => exact printable_of_mem_codeEscape
      | false =>
        have hcontrol : ¬d.toNat < 32 := fun h => by simp [codeEscaped, h] at hc
        simpa using hcontrol

theorem control_notMem_escape (hc : c.toNat < 32) (t : Text) : Glyph.char c ∉ escape t := by
  simp only [escape, ofChars, List.mem_map, mem_flatMap, not_exists, not_and, and_imp,
    forall_exists_index]
  intro d g _ hd heq
  obtain rfl := Glyph.char.inj heq
  exact absurd (printable_of_mem_escapeGlyph _ hd) (by omega)

theorem valid_member (m : Text × Text) : valid (member m) = true := by
  have hescape (t : Text) : valid (escape t) = true := valid_ofChars _
  simp only [valid] at hescape
  simp [member, quoted, valid, hescape]

theorem valid_render (ms : List (Text × Text)) : valid (render ms) = true := by
  have hmembers : valid (renderMembers ms) = true := by
    induction ms with
    | nil => rfl
    | cons m ms ih =>
      cases ms with
      | nil => exact valid_member m
      | cons m' ms =>
        rwa [renderMembers, valid_append, valid_member]
  rw [render, ← singleton_append, valid_append, valid_append, hmembers]
  rfl

theorem control_notMem_render (hc : c.toNat < 32) (ms : List (Text × Text)) :
    Glyph.char c ∉ render ms := by
  have hne (d : Char) (hd : 32 ≤ d.toNat) : c ≠ d := by
    rintro rfl
    omega
  have hquote := hne '"' (by decide)
  have hcolon := hne ':' (by decide)
  have hmember (m : Text × Text) : Glyph.char c ∉ member m := by
    simp [member, quoted, control_notMem_escape hc, hquote, hcolon]
  have hmembers : Glyph.char c ∉ renderMembers ms := by
    induction ms with
    | nil => simp [renderMembers]
    | cons m ms ih =>
      cases ms with
      | nil => exact hmember m
      | cons m' ms => simp [renderMembers, hmember, ih, hne ',' (by decide)]
  simp [render, hmembers, hne '\x7b' (by decide), hne '\x7d' (by decide)]

theorem size_member (m : Text × Text) :
    size (member m) = size (escape m.1) + size (escape m.2) + 5 := by
  have hquote : (Glyph.char '"').bytes.length = 1 := by decide
  have hcolon : (Glyph.char ':').bytes.length = 1 := by decide
  simp only [member, quoted, size_append, size_cons, size_nil, hquote, hcolon]
  omega

theorem size_render {ms : List (Text × Text)} (h : ms ≠ []) :
    size (render ms) = (ms.map fun m => size (escape m.1) + size (escape m.2) + 6).sum + 1 := by
  have hcomma : (Glyph.char ',').bytes.length = 1 := by decide
  have hopen : (Glyph.char '\x7b').bytes.length = 1 := by decide
  have hclose : (Glyph.char '\x7d').bytes.length = 1 := by decide
  have hmembers : size (renderMembers ms) + 1 =
      (ms.map fun m => size (escape m.1) + size (escape m.2) + 6).sum := by
    induction ms with
    | nil => exact absurd rfl h
    | cons m ms ih =>
      cases ms with
      | nil => simp [renderMembers, size_member]
      | cons m' ms =>
        rw [map_cons, sum_cons, ← ih (by simp)]
        simp only [renderMembers, size_append, size_cons, size_member, hcomma]
        omega
  simp only [render, size_cons, size_append, size_nil, hopen, hclose]
  omega

/-- A string is written the same way after it was read, also one with odd bytes. -/
@[simp] theorem escape_clean (t : Text) : escape (ofChars (clean t)) = escape t := by
  induction t with
  | nil => rfl
  | cons g t ih =>
    have hglyph : escape (ofChars (clean [g])) = escape [g] := by
      cases g with
      | char c => rfl
      | bad b => rfl
    simp only [escape, ofChars, clean, map_cons, map_nil, flatMap_cons, flatMap_nil, append_nil,
      map_append] at hglyph ih ⊢
    rw [hglyph, ih]

/-- What is written depends only on what is read. -/
theorem render_clean (ms : List (Text × Text)) :
    render (ms.map fun m => (ofChars (clean m.1), ofChars (clean m.2))) = render ms := by
  have hmember (m : Text × Text) :
      member (ofChars (clean m.1), ofChars (clean m.2)) = member m := by
    simp [member, quoted]
  have hmembers : renderMembers (ms.map fun m => (ofChars (clean m.1), ofChars (clean m.2))) =
      renderMembers ms := by
    induction ms with
    | nil => rfl
    | cons m ms ih =>
      cases ms with
      | nil => exact hmember m
      | cons m' ms => simpa [renderMembers, hmember] using ih
  rw [render, render, hmembers]

end Infra.JsonLine
