import Kairon.Audit.Event
import Kairon.Infra.HashChain

/-!
# The audit log file

`FileLog`: a file of lines, each the JSON of an event that carries the hash of the event before it
and its own. Here every step of an append succeeds; `Audit/Survival` has those that fail.
-/

namespace Kairon.Audit

open Infra JsonLine List

variable {T : Type} (C : TimeCodec T) {e : Event T} {file line last : Text}
  {s s' : List (Event T) × Text} {ls : List Text} {es : List (Event T)}

/-- What is hashed for an event: the hash of the one before it, and its encoding without a hash. An
error of the encoder is dropped. -/
def chainText (e : Event T) : Text :=
  e.text .prevHash ++ .char '\n' :: (marshal C (e.set .hash [])).toOption.getD []

def chainHash (e : Event T) : Text := digest (chainText C e)

/-! ## Scanning -/

/-- The lines of a file, given what there is of the first one: `bufio.ScanLines`. What follows the
last newline is a line if there is anything. -/
def splitLines (line : Text) : Text → List Text
  | [] => if line = [] then [] else [line]
  | g :: t => if g = .char '\n' then line :: splitLines [] t else splitLines (line ++ [g]) t

def dropCR (line : Text) : Text :=
  if line.getLast? = some (.char '\r') then line.dropLast else line

def maxLine : Nat := 4 * 2 ^ 20

inductive ScanError where
  | tooLong
  | unreadable (line : Nat)
  | broken (line : Nat)
  deriving DecidableEq

def scanLine (s : List (Event T) × Text) (line : Text) : Except ScanError (List (Event T) × Text) :=
  if maxLine ≤ size line then .error .tooLong
  else match unmarshalEvent C (dropCR line) with
    | none => .error (.unreadable (s.1.length + 1))
    | some e =>
      if e.text .prevHash ≠ s.2 ∨ chainHash C e ≠ e.text .hash then
        .error (.broken (s.1.length + 1))
      else .ok (s.1 ++ [e], e.text .hash)

def scanChain (file : Text) : Except ScanError (List (Event T) × Text) :=
  (splitLines [] file).foldlM (scanLine C) ([], [])

def verifyFile (file : Text) : Except ScanError Nat := (scanChain C file).map (·.1.length)

/-! ## Handles -/

structure FileLog where
  last : Text
  deriving DecidableEq

def openFileLog (file : Text) : Except ScanError FileLog := (scanChain C file).map fun s => ⟨s.2⟩

variable (now : T)

def FileLog.append (l : FileLog) (e : Event T) (file : Text) :
    Except String (Event T × FileLog × Text) := do
  let e := if C.isZero e.timeAt then { e with timeAt := now } else e
  let recorded ← record C e
  let recorded := recorded.set .prevHash l.last
  let recorded := recorded.set .hash (chainHash C recorded)
  let line ← marshal C recorded
  return (recorded, ⟨recorded.text .hash⟩, file ++ line ++ [.char '\n'])

def createCall (principal : Text) : Event Bool where
  timeAt := true
  text := fun
    | .principal => principal
    | .tool => ofChars "create_vm".toList
    | _ => []

def stamp (e : Event T) : T :=
  let t := if C.isZero e.timeAt then now else e.timeAt
  if C.isZero t then C.epoch else t

def recordAfter (last : Text) (e : Event T) : Event T :=
  let r : Event T := { e with timeAt := stamp C now e }
  let r := r.set .id (ofChars (hexEncode ((Sha256.sum256 (bytes (idText C r))).take 8)))
  let r := r.set .prevHash last
  r.set .hash (chainHash C r)

theorem record_stamp (e : Event T) :
    record C (if C.isZero e.timeAt then { e with timeAt := now } else e) =
      if trimSpace (e.text .principal) = [] ∨ trimSpace (e.text .tool) = []
      then .error "principal and tool are required"
      else .ok (({ e with timeAt := stamp C now e } : Event T).set .id (ofChars (hexEncode
        ((Sha256.sum256 (bytes (idText C { e with timeAt := stamp C now e }))).take 8)))) := by
  unfold record stamp
  cases hz : C.isZero e.timeAt with
  | true => cases hn : C.isZero now <;> simp [hn]
  | false => simp [hz]

theorem append_eq_ok_iff {now : T} {l l' : FileLog} {r : Event T} {file' : Text} :
    l.append C now e file = .ok (r, l', file') ↔
      trimSpace (e.text .principal) ≠ [] ∧ trimSpace (e.text .tool) ≠ [] ∧
        r = recordAfter C now l.last e ∧ l' = ⟨r.text .hash⟩ ∧
        ∃ line, marshal C r = .ok line ∧ file' = file ++ line ++ [.char '\n'] := by
  unfold FileLog.append
  simp only [record_stamp]
  by_cases hreq : trimSpace (e.text .principal) = [] ∨ trimSpace (e.text .tool) = []
  · simp only [hreq, if_true]
    constructor
    · intro h
      cases h
    · rintro ⟨hp, ht, -⟩
      exact absurd hreq (not_or.mpr ⟨hp, ht⟩)
  · rw [if_neg hreq]
    obtain ⟨hp, ht⟩ := not_or.mp hreq
    change (marshal C (recordAfter C now l.last e) >>= fun line =>
      pure (recordAfter C now l.last e, ⟨(recordAfter C now l.last e).text .hash⟩,
        file ++ line ++ [.char '\n'])) = .ok (r, l', file') ↔ _
    constructor
    · intro h
      cases hline : marshal C (recordAfter C now l.last e) with
      | error msg => simp [hline, bind, Except.bind] at h
      | ok line =>
        rw [hline] at h
        cases h
        exact ⟨hp, ht, rfl, rfl, line, hline, rfl⟩
    · rintro ⟨-, -, rfl, rfl, line, hline, rfl⟩
      rw [hline]
      rfl

/-! ## Lines -/

theorem getLast?_render (ms : List (Text × Text)) : (render ms).getLast? = some (.char '\x7d') := by
  rw [render, ← cons_append, List.getLast?_concat]

theorem newline_notMem_marshal (h : marshal C e = .ok line) : Glyph.char '\n' ∉ line := by
  obtain ⟨at', -, rfl⟩ := (marshal_eq_ok_iff C).mp h
  exact control_notMem_render (by decide) _

theorem getLast?_marshal (h : marshal C e = .ok line) : line.getLast? ≠ some (.char '\r') := by
  obtain ⟨at', -, rfl⟩ := (marshal_eq_ok_iff C).mp h
  rw [getLast?_render]
  decide

theorem dropCR_marshal (h : marshal C e = .ok line) : dropCR line = line :=
  if_neg (getLast?_marshal C h)

def complete (file : Text) : Bool := file.getLast?.all (· == .char '\n')

theorem splitLines_of_newline_notMem (h : Glyph.char '\n' ∉ line) (acc t : Text) :
    splitLines acc (line ++ .char '\n' :: t) = (acc ++ line) :: splitLines [] t := by
  induction line generalizing acc with
  | nil => simp [splitLines]
  | cons g line ih =>
    obtain ⟨hg, hline⟩ := not_or.mp (mt mem_cons.mpr h)
    rw [cons_append, splitLines, if_neg (Ne.symm hg), ih hline]
    simp

theorem splitLines_of_last {eol : Text} (h : Glyph.char '\n' ∉ line)
    (heol : eol = [] ∨ eol = [.char '\n']) (acc : Text) (hne : acc ++ line ≠ []) :
    splitLines acc (line ++ eol) = [acc ++ line] := by
  rcases heol with rfl | rfl
  · induction line generalizing acc with
    | nil =>
      rw [append_nil] at hne
      simp [splitLines, hne]
    | cons g line ih =>
      obtain ⟨hg, hline⟩ := not_or.mp (mt mem_cons.mpr h)
      rw [cons_append, splitLines, if_neg (Ne.symm hg), ih hline _ (by simp)]
      simp
  · exact splitLines_of_newline_notMem h acc []

theorem exists_splitLines (acc file : Text) (hacc : Glyph.char '\n' ∉ acc) :
    ∃ ls line, Glyph.char '\n' ∉ line ∧
      (∀ t, splitLines acc (file ++ t) = ls ++ splitLines line t) ∧
      (line = [] ↔ complete (acc ++ file) = true) := by
  induction file generalizing acc with
  | nil =>
    refine ⟨[], acc, hacc, fun t => rfl, ?_⟩
    constructor
    · rintro rfl
      rfl
    · intro h
      cases hlast : acc.getLast? with
      | none => exact List.getLast?_eq_none_iff.mp hlast
      | some g =>
        obtain rfl : g = .char '\n' := by simpa [complete, hlast] using h
        exact absurd (mem_of_getLast? hlast) hacc
  | cons g file ih =>
    by_cases hg : g = .char '\n'
    · subst hg
      obtain ⟨ls, line, hline, hsplit, hcomplete⟩ := ih [] (by simp)
      refine ⟨acc :: ls, line, hline, fun t => ?_, ?_⟩
      · rw [cons_append, splitLines, if_pos rfl, hsplit]
        rfl
      · rw [hcomplete]
        cases file <;> simp [complete, List.getLast?_cons, List.getLast?_append]
    · obtain ⟨ls, line, hline, hsplit, hcomplete⟩ := ih (acc ++ [g]) (by simp [hacc, Ne.symm hg])
      refine ⟨ls, line, hline, fun t => ?_, ?_⟩
      · rw [cons_append, splitLines, if_neg hg, hsplit]
      · rw [hcomplete]
        simp

theorem splitLines_append_line (hfile : complete file = true) (hline : Glyph.char '\n' ∉ line) :
    splitLines [] (file ++ line ++ [.char '\n']) = splitLines [] file ++ [line] := by
  obtain ⟨ls, rest, -, hsplit, hrest⟩ := exists_splitLines [] file (by simp)
  obtain rfl := hrest.mpr hfile
  have hold : splitLines [] file = ls := by simpa [splitLines] using hsplit []
  rw [append_assoc, hsplit, hold, splitLines_of_newline_notMem hline]
  rfl

/-! ## What the scan accepts -/

theorem verifyFile_eq_ok_iff {n : Nat} :
    verifyFile C file = .ok n ↔ ∃ s, scanChain C file = .ok s ∧ s.1.length = n := by
  unfold verifyFile
  cases scanChain C file <;> simp [Except.map]

theorem openFileLog_eq_ok_iff {l : FileLog} :
    openFileLog C file = .ok l ↔ ∃ evs, scanChain C file = .ok (evs, l.last) := by
  unfold openFileLog
  cases hscan : scanChain C file with
  | error err => simp [Except.map]
  | ok s =>
    simp only [Except.map, Except.ok.injEq]
    constructor
    · rintro rfl
      exact ⟨s.1, rfl⟩
    · rintro ⟨evs, rfl⟩
      rfl

def chain : HashChain (Event T) Text Text where
  prev := fun e => e.text .prevHash
  hash := fun e => e.text .hash
  text := chainText C
  digest := digest
  genesis := []

theorem scanLine_eq_ok_iff : scanLine C s line = .ok s' ↔
      ∃ e, size line < maxLine ∧ unmarshalEvent C (dropCR line) = some e ∧
        e.text .prevHash = s.2 ∧ chainHash C e = e.text .hash ∧
        s' = (s.1 ++ [e], e.text .hash) := by
  unfold scanLine
  by_cases hsize : maxLine ≤ size line
  · simp [hsize, Nat.not_lt.mpr hsize]
  · rw [if_neg hsize]
    cases hread : unmarshalEvent C (dropCR line) with
    | none => simp
    | some e =>
      have hlt := Nat.not_le.mp hsize
      by_cases hlink : e.text .prevHash = s.2 ∧ chainHash C e = e.text .hash
      · simp [hlt, hlink, eq_comm]
      · have hbroken : e.text .prevHash ≠ s.2 ∨ chainHash C e ≠ e.text .hash := by
          rwa [← not_and_or]
        simp only [hbroken, if_true]
        constructor
        · intro h
          cases h
        · rintro ⟨e', -, he', hprev, hhash, -⟩
          obtain rfl := Option.some.inj he'
          exact absurd ⟨hprev, hhash⟩ hlink

def readLine (line : Text) : Option (Event T) :=
  if maxLine ≤ size line then none else unmarshalEvent C (dropCR line)

def records (file : Text) : Option (List (Event T)) := (splitLines [] file).mapM (readLine C)

theorem readLine_eq_some_iff :
    readLine C line = some e ↔ size line < maxLine ∧ unmarshalEvent C (dropCR line) = some e := by
  unfold readLine
  by_cases hsize : maxLine ≤ size line
  · simp [hsize, Nat.not_lt.mpr hsize]
  · simp [hsize, Nat.not_le.mp hsize]

theorem foldlM_scanLine_concat_iff {s₀ : List (Event T) × Text} :
    (ls ++ [line]).foldlM (scanLine C) s₀ = .ok s' ↔
      ∃ s, ls.foldlM (scanLine C) s₀ = .ok s ∧ scanLine C s line = .ok s' := by
  rw [foldlM_append]
  cases ls.foldlM (scanLine C) s₀ with
  | error err => simp [bind, Except.bind]
  | ok s =>
    have : (Except.ok s >>= fun s => [line].foldlM (scanLine C) s) = scanLine C s line :=
      bind_pure (scanLine C s line)
    rw [this]
    simp

theorem mapM_readLine_concat_iff : (ls ++ [line]).mapM (readLine C) = some es ↔
      ∃ es₀ e, ls.mapM (readLine C) = some es₀ ∧ readLine C line = some e ∧ es = es₀ ++ [e] := by
  rw [mapM_append, mapM_cons, mapM_nil]
  cases ls.mapM (readLine C) <;> cases readLine C line <;> simp [eq_comm]

theorem foldlM_scanLine_eq_ok_iff : ls.foldlM (scanLine C) ([], []) = .ok (es, last) ↔
      ls.mapM (readLine C) = some es ∧ (chain C).Linked es last := by
  induction ls using List.reverseRecOn generalizing es last with
  | nil =>
    constructor
    · rintro ⟨⟩
      exact ⟨rfl, .nil⟩
    · rintro ⟨⟨⟩, h⟩
      rw [HashChain.linked_nil_iff.mp h]
      rfl
  | append_singleton ls line ih =>
    rw [foldlM_scanLine_concat_iff, mapM_readLine_concat_iff]
    constructor
    · rintro ⟨⟨es₀, last₀⟩, hls, hline⟩
      obtain ⟨hread, hlinked⟩ := ih.mp hls
      obtain ⟨e, hsize, he, hprev, hhash, heq⟩ := (scanLine_eq_ok_iff C).mp hline
      obtain ⟨rfl, rfl⟩ := Prod.mk.inj heq
      exact ⟨⟨es₀, e, hread, (readLine_eq_some_iff C).mpr ⟨hsize, he⟩, rfl⟩,
        hlinked.snoc hprev hhash⟩
    · rintro ⟨⟨es₀, e, hread, he, rfl⟩, hlinked⟩
      obtain ⟨hsize, he⟩ := (readLine_eq_some_iff C).mp he
      obtain ⟨hlinked₀, hhash, rfl⟩ := HashChain.linked_concat_iff.mp hlinked
      exact ⟨_, ih.mpr ⟨hread, hlinked₀⟩,
        (scanLine_eq_ok_iff C).mpr ⟨e, hsize, he, rfl, hhash, rfl⟩⟩

/-- The scan accepts a file exactly if its lines can be read and their records form a chain. -/
theorem scanChain_eq_ok_iff :
    scanChain C file = .ok (es, last) ↔ records C file = some es ∧ (chain C).Linked es last :=
  foldlM_scanLine_eq_ok_iff C

theorem linked_of_scanChain (h : scanChain C file = .ok s) : (chain C).Linked s.1 s.2 :=
  ((scanChain_eq_ok_iff C).mp h).2

theorem last_of_linked {rs : List (Event T)} (h : (chain C).Linked rs last) :
    last = [] ∨ ∃ t, last = digest t := by
  cases h with
  | nil => exact .inl rfl
  | snoc h hprev hhash => exact .inr ⟨_, hhash.symm⟩

theorem valid_last {rs : List (Event T)} (h : (chain C).Linked rs last) : valid last = true := by
  obtain rfl | ⟨t, rfl⟩ := last_of_linked C h
  · rfl
  · exact valid_digest t

/-- A line that was accepted is rejected with more on it: its value is an object, after which only
blanks may follow. -/
theorem scanLine_append_error {s₁ : List (Event T) × Text} {t : Text}
    (h : scanLine C s line = .ok s') (hblank : blank t = false)
    (hcr : t.getLast? ≠ some (.char '\r')) : ∃ err, scanLine C s₁ (line ++ t) = .error err := by
  obtain ⟨e, -, hread, -, hhash, -⟩ := (scanLine_eq_ok_iff C).mp h
  obtain ⟨v, hv, hdecode⟩ := Option.bind_eq_some_iff.mp hread
  have hnum (raw : List Char) : v ≠ .num raw := by
    rintro rfl
    cases hdecode
  have ht : t ≠ [] := by
    rintro rfl
    cases hblank
  have hdrop : dropCR (line ++ t) = line ++ t := by
    unfold dropCR
    rw [List.getLast?_append_of_ne_nil _ ht, if_neg hcr]
  obtain ⟨cr, hcr'⟩ : ∃ cr, line = dropCR line ++ cr := by
    unfold dropCR
    split
    · exact ⟨_, (dropLast_append_getLast? _ ‹_›).symm⟩
    · exact ⟨[], by simp⟩
  have hunread : unmarshalEvent C (dropCR (line ++ t)) = none := by
    have hrest : blank (cr ++ t) = false := by
      unfold blank at hblank ⊢
      rw [all_append, hblank, Bool.and_false]
    rw [hdrop, hcr', append_assoc, unmarshalEvent, unmarshal_append hv hnum, hrest]
    rfl
  unfold scanLine
  split
  · exact ⟨_, rfl⟩
  · rw [hunread]
    exact ⟨_, rfl⟩

theorem scanChain_append {eol : Text}
    (h : scanChain C file = .ok s) (hnl : Glyph.char '\n' ∉ line) (hblank : blank line = false)
    (hcr : line.getLast? ≠ some (.char '\r')) (heol : eol = [] ∨ eol = [.char '\n']) :
    (complete file = true → scanChain C (file ++ line ++ eol) = scanLine C s line) ∧
      (complete file = false → ∃ err, scanChain C (file ++ line ++ eol) = .error err) := by
  obtain ⟨ls, rest, hrest, hsplit, hcomplete⟩ := exists_splitLines [] file (by simp)
  have hold : splitLines [] file = ls ++ splitLines rest [] := by simpa using hsplit []
  have hline : line ≠ [] := by
    rintro rfl
    cases hblank
  have hnew : splitLines [] (file ++ line ++ eol) = ls ++ [rest ++ line] := by
    rw [append_assoc, hsplit, splitLines_of_last hnl heol _ (by simp [hline])]
  rw [nil_append] at hcomplete
  unfold scanChain at h ⊢
  rw [hnew, foldlM_append]
  rw [hold, foldlM_append] at h
  cases hls : ls.foldlM (scanLine C) ([], []) with
  | error err => simp [hls, bind, Except.bind] at h
  | ok s₀ =>
    have hfold (x : Text) :
        (Except.ok s₀ >>= fun s => [x].foldlM (scanLine C) s) = scanLine C s₀ x :=
      bind_pure (scanLine C s₀ x)
    rw [hfold]
    rw [hls] at h
    constructor
    · intro hc
      obtain rfl := hcomplete.mpr hc
      cases h
      rfl
    · intro hc
      have hne : rest ≠ [] := fun hnil => by simp [hcomplete.mp hnil] at hc
      rw [splitLines, if_neg hne, hfold] at h
      exact scanLine_append_error C h hblank hcr

end Kairon.Audit
