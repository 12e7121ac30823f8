import Kairon.Audit.FileLog

/-!
# Which records survive

An append computes the hash of a record from the event it was given, the scan from what it has read
of the line. The two agree if the record is written the same way again.
-/

namespace Kairon.Audit

open Infra JsonLine List

variable {T : Type} (C : TimeCodec T)

/-! ## The record -/

def given : List TextField := [.principal, .tool, .tenant, .claim, .diff, .outcome]

section Record

variable (now : T) (last : Text) (e : Event T)

@[simp] theorem recordAfter_prevHash : (recordAfter C now last e).text .prevHash = last := by
  simp [recordAfter]

theorem recordAfter_given {f : TextField} (hf : f ∈ given) :
    (recordAfter C now last e).text f = e.text f := by
  revert hf
  cases f <;> simp [given, recordAfter]

theorem recordAfter_id : ∃ bs : List UInt8, bs.length = 8 ∧
    (recordAfter C now last e).text .id = ofChars (hexEncode bs) := by
  refine ⟨(Sha256.sum256 (bytes (idText C { e with timeAt := stamp C now e }))).take 8, ?_, ?_⟩
  · rw [length_take, Sha256.length_sum256]
    decide
  · simp [recordAfter]

theorem chainText_set_hash (r : Event T) (h : Text) :
    chainText C (r.set .hash h) = chainText C r := by
  have hset : (r.set .hash h).set .hash [] = r.set .hash [] := by
    ext1
    · rfl
    · funext f
      by_cases hf : f = .hash
      · simp [hf]
      · simp [hf]
  unfold chainText
  rw [hset, Event.set_text_ne _ _ (by decide)]

theorem recordAfter_hash :
    (recordAfter C now last e).text .hash = chainHash C (recordAfter C now last e) := by
  unfold recordAfter
  rw [Event.set_text_self, chainHash, chainHash, chainText_set_hash]

end Record

variable {now t : T} {last line : Text} {e : Event T} {at' : List Char}

/-! ## The length of its line -/

def memberSize (name : String) (v : Text) : Nat := name.length + size (escape v) + 6

def optionalSize (name : String) (v : Text) : Nat := if v = [] then 0 else memberSize name v

/-- The bytes of the line of an event, after the record with a hash. The id has 16 digits and the
hash has 64. -/
def lineSize (at' : List Char) (last : Text) (e : Event T) : Nat :=
  24 + memberSize "at" (ofChars at') + memberSize "principal" (e.text .principal) +
    memberSize "tool" (e.text .tool) + optionalSize "tenant" (e.text .tenant) +
    optionalSize "claim" (e.text .claim) + optionalSize "diff" (e.text .diff) +
    optionalSize "outcome" (e.text .outcome) + optionalSize "prevHash" last + 75

def tagSize (at' : List Char) (e : Event T) (tag : Tag) : Nat :=
  if tag.omitempty then optionalSize tag.name (content at' e tag.field)
  else memberSize tag.name (content at' e tag.field)

theorem size_escape_name : ∀ tag ∈ fields,
    size (escape (ofChars tag.name.toList)) = tag.name.length := by
  decide

theorem size_render_members (at' : List Char) (e : Event T) :
    size (render (members at' e)) = (fields.map (tagSize at' e)).sum + 1 := by
  have hid : (⟨"id", false, .text .id⟩ : Tag) ∈ fields := mem_cons_self ..
  have hne : members at' e ≠ [] := ne_nil_of_mem (mem_filterMap.mpr ⟨_, hid, rfl⟩)
  have hsum (tags : List Tag) (htags : ∀ tag ∈ tags, tag ∈ fields) :
      ((tags.filterMap (entry at' e)).map fun m => size (escape m.1) + size (escape m.2) + 6).sum =
        (tags.map (tagSize at' e)).sum := by
    induction tags with
    | nil => rfl
    | cons tag tags ih =>
      obtain ⟨htag, htags⟩ := forall_mem_cons.mp htags
      have hname := size_escape_name tag htag
      rw [map_cons, sum_cons, ← ih htags]
      unfold entry tagSize optionalSize memberSize
      cases hom : tag.omitempty <;> by_cases hv : content at' e tag.field = [] <;>
        simp [hom, hv, hname]
  rw [size_render hne, members, hsum fields fun _ h => h]

theorem size_marshal_recordAfter (hat : C.marshal (stamp C now e) = .ok at')
    (h : marshal C (recordAfter C now last e) = .ok line) : size line = lineSize at' last e := by
  obtain ⟨at₁, hat₁, rfl⟩ := (marshal_eq_ok_iff C).mp h
  obtain rfl : at₁ = at' := Except.ok.inj (hat₁.symm.trans hat)
  obtain ⟨bs, hbs, hid⟩ := recordAfter_id C now last e
  have hidsize : memberSize "id" ((recordAfter C now last e).text .id) = 24 := by
    rw [hid, memberSize, escape_hexEncode, size_hexEncode, hbs]
    rfl
  have hhash : optionalSize "hash" ((recordAfter C now last e).text .hash) = 74 := by
    rw [recordAfter_hash, chainHash, optionalSize, if_neg (digest_ne_nil _), memberSize,
      escape_digest, size_digest]
    rfl
  rw [size_render_members]
  have hgiven {f : TextField} (hf : f ∈ given) := recordAfter_given C now last e hf
  simp only [fields, map_cons, map_nil, sum_cons, sum_nil, tagSize, content,
    if_true, Bool.false_eq_true, if_false, hidsize, hhash, recordAfter_prevHash,
    hgiven (f := .principal) (by decide), hgiven (f := .tool) (by decide),
    hgiven (f := .tenant) (by decide), hgiven (f := .claim) (by decide),
    hgiven (f := .diff) (by decide), hgiven (f := .outcome) (by decide), lineSize]
  omega

/-! ## The hash of what is read -/

theorem valid_chainText (h : valid (e.text .prevHash) = true) : valid (chainText C e) = true := by
  have hbody : valid ((marshal C (e.set .hash [])).toOption.getD []) = true := by
    cases hm : marshal C (e.set .hash []) with
    | error msg => rfl
    | ok body =>
      obtain ⟨at', -, rfl⟩ := (marshal_eq_ok_iff C).mp hm
      exact valid_render _
  rw [chainText, ← singleton_append, valid_append, valid_append, h, hbody]
  rfl

/-- A record and what is read of it have one text to be hashed exactly if its time is written the
same way again. -/
theorem chainText_reread_iff {r : Event T} (hat : C.marshal r.timeAt = .ok at')
    (hprev : valid (r.text .prevHash) = true) :
    chainText C (reread t r) = chainText C r ↔ C.marshal t = .ok at' := by
  obtain ⟨body, hbody⟩ : ∃ body, marshal C (r.set .hash []) = .ok body :=
    ⟨_, (marshal_eq_ok_iff C).mpr ⟨at', hat, rfl⟩⟩
  have hne : body ≠ [] := by
    obtain ⟨at₁, -, rfl⟩ := (marshal_eq_ok_iff C).mp hbody
    simp [render]
  have hset : (reread t r).set .hash [] = reread t (r.set .hash []) := by
    ext1
    · rfl
    · funext f
      by_cases hf : f = .hash
      · simp [hf, reread, ofChars]
      · simp [hf, reread]
  have hsame : chainText C (reread t r) = chainText C r ↔
      marshal C (reread t (r.set .hash [])) = .ok body := by
    have hprev' : (reread t r).text .prevHash = r.text .prevHash := valid_iff.mp hprev
    unfold chainText
    rw [hprev', hset, hbody, append_cancel_left_eq, List.cons.injEq]
    cases marshal C (reread t (r.set .hash [])) with
    | error msg => simp [Except.toOption, Ne.symm hne]
    | ok body' => simp [Except.toOption]
  rw [hsame, ← hat]
  constructor
  · exact fun h => (marshal_inj C h hbody).1
  · exact fun h => (marshal_reread C (e := r.set .hash []) h).trans hbody

/-- The time of the record of an event is written the same way after it was read. -/
def Steady (now : T) (e : Event T) : Prop :=
  ∀ at' t', C.marshal (stamp C now e) = .ok at' → C.unmarshal (ofChars at') = some t' →
    C.marshal t' = .ok at'

/-- The record of an event and what is read of it are hashed as two texts with one digest. -/
def Collides (now : T) (last : Text) (e : Event T) : Prop :=
  ∃ at' t', C.marshal (stamp C now e) = .ok at' ∧ C.unmarshal (ofChars at') = some t' ∧
    bytes (chainText C (reread t' (recordAfter C now last e))) ≠
      bytes (chainText C (recordAfter C now last e)) ∧
    Sha256.sum256 (bytes (chainText C (reread t' (recordAfter C now last e)))) =
      Sha256.sum256 (bytes (chainText C (recordAfter C now last e)))

def Fits (now : T) (last : Text) (e : Event T) : Prop :=
  ∀ at', C.marshal (stamp C now e) = .ok at' → lineSize at' last e < maxLine

theorem chainText_reread_recordAfter_iff (hat : C.marshal (stamp C now e) = .ok at')
    (ht : C.unmarshal (ofChars at') = some t) (hlast : valid last = true) :
    chainText C (reread t (recordAfter C now last e)) = chainText C (recordAfter C now last e) ↔
      Steady C now e := by
  rw [chainText_reread_iff C (r := recordAfter C now last e) hat (by simpa using hlast)]
  constructor
  · intro htime at₁ t₁ hat₁ ht₁
    obtain rfl := Except.ok.inj (hat.symm.trans hat₁)
    obtain rfl := Option.some.inj (ht.symm.trans ht₁)
    exact htime
  · exact fun hsteady => hsteady at' t hat ht

/-- The hash of a record is that of what is read of it, if it is written the same way again and
otherwise only by a collision. -/
theorem chainHash_reread_iff (hat : C.marshal (stamp C now e) = .ok at')
    (ht : C.unmarshal (ofChars at') = some t) (hlast : valid last = true) :
    chainHash C (reread t (recordAfter C now last e)) = chainHash C (recordAfter C now last e) ↔
      Steady C now e ∨ Collides C now last e := by
  have htext := chainText_reread_recordAfter_iff C hat ht hlast
  have hbytes : bytes (chainText C (reread t (recordAfter C now last e))) =
      bytes (chainText C (recordAfter C now last e)) ↔ Steady C now e := by
    rw [← htext]
    refine ⟨fun h => eq_of_bytes_eq (valid_chainText C (valid_ofChars _))
      (valid_chainText C ?_) h, fun h => by rw [h]⟩
    rwa [recordAfter_prevHash]
  rw [chainHash, chainHash, digest_eq_iff]
  constructor
  · intro h
    by_cases hs : Steady C now e
    · exact .inl hs
    · exact .inr ⟨at', t, hat, ht, fun hb => hs (hbytes.mp hb), h⟩
  · rintro (hs | ⟨at₁, t₁, hat₁, ht₁, -, h⟩)
    · rw [hbytes.mpr hs]
    · obtain rfl := Except.ok.inj (hat.symm.trans hat₁)
      obtain rfl := Option.some.inj (ht.symm.trans ht₁)
      exact h

theorem fits_createCall : Fits oneDay true [] (createCall (ofChars "mcp".toList)) := by
  rintro at' ⟨⟩
  decide +kernel

theorem steady_createCall : Steady oneDay true (createCall (ofChars "mcp".toList)) := by
  rintro at' t ⟨⟩ ht
  revert t
  decide

theorem append_createCall {p : Text} (hp : trimSpace p ≠ []) (l : FileLog) (file : Text) :
    ∃ r l' file', l.append oneDay true (createCall p) file = .ok (r, l', file') :=
  ⟨_, _, _, (append_eq_ok_iff oneDay).mpr ⟨hp, (by decide : trimSpace (ofChars _) ≠ []), rfl, rfl,
    _, (marshal_eq_ok_iff oneDay).mpr ⟨_, rfl, rfl⟩, rfl⟩⟩

/-! ## The file after an append -/

theorem unmarshalEvent_recordAfter (h : marshal C (recordAfter C now last e) = .ok line)
    (hlast : valid last = true) :
    ∃ at' t, C.marshal (stamp C now e) = .ok at' ∧ C.unmarshal (ofChars at') = some t ∧
      unmarshalEvent C (dropCR line) = some (reread t (recordAfter C now last e)) ∧
      (reread t (recordAfter C now last e)).text .prevHash = last ∧
      (reread t (recordAfter C now last e)).text .hash = (recordAfter C now last e).text .hash := by
  obtain ⟨at', t, hat, ht, hread⟩ := unmarshalEvent_marshal C h
  refine ⟨at', t, hat, ht, (dropCR_marshal C h).symm ▸ hread, ?_, ?_⟩
  · change ofChars (clean ((recordAfter C now last e).text .prevHash)) = last
    rw [recordAfter_prevHash, valid_iff.mp hlast]
  · exact valid_iff.mp (valid_digest _)

/-- The scan accepts the line of a record exactly if the record comes after the last one, is within
the limit and is hashed the same way again. -/
theorem scanLine_recordAfter_iff (h : marshal C (recordAfter C now last e) = .ok line)
    (hlast : valid last = true) (s : List (Event T) × Text) :
    (∃ e', scanLine C s line = .ok (s.1 ++ [e'], (recordAfter C now last e).text .hash)) ↔
      last = s.2 ∧ Fits C now last e ∧ (Steady C now e ∨ Collides C now last e) := by
  obtain ⟨at', t, hat, ht, hread, hprev, hhash⟩ := unmarshalEvent_recordAfter C h hlast
  have hfits : size line < maxLine ↔ Fits C now last e := by
    rw [size_marshal_recordAfter C hat h]
    refine ⟨fun hlt at₁ hat₁ => ?_, fun hf => hf at' hat⟩
    obtain rfl := Except.ok.inj (hat.symm.trans hat₁)
    exact hlt
  rw [← chainHash_reread_iff C hat ht hlast, ← hfits, ← recordAfter_hash]
  constructor
  · rintro ⟨e', he'⟩
    obtain ⟨e₁, hsize, he₁, hlink, heq, -⟩ := (scanLine_eq_ok_iff C).mp he'
    obtain rfl := Option.some.inj (hread.symm.trans he₁)
    exact ⟨hprev.symm.trans hlink, hsize, heq.trans hhash⟩
  · rintro ⟨hlink, hsize, heq⟩
    exact ⟨_, (scanLine_eq_ok_iff C).mpr ⟨_, hsize, hread, hprev.trans hlink,
      heq.trans hhash.symm, by rw [hhash]⟩⟩

theorem eq_of_scanLine_recordAfter (h : marshal C (recordAfter C now last e) = .ok line)
    (hlast : valid last = true) {s s' : List (Event T) × Text} (hs : scanLine C s line = .ok s') :
    ∃ e', s' = (s.1 ++ [e'], (recordAfter C now last e).text .hash) := by
  obtain ⟨at', t, -, -, hread, -, hhash⟩ := unmarshalEvent_recordAfter C h hlast
  obtain ⟨e₁, -, he₁, -, -, rfl⟩ := (scanLine_eq_ok_iff C).mp hs
  obtain rfl := Option.some.inj (hread.symm.trans he₁)
  exact ⟨_, by rw [hhash]⟩

def Accepted (now : T) (l : FileLog) (e : Event T) (file last : Text) : Prop :=
  l.last = last ∧ complete file = true ∧ Fits C now l.last e ∧
    (Steady C now e ∨ Collides C now l.last e)

section Append

variable {file file' : Text} {evs : List (Event T)} {l l' : FileLog}
  {e r : Event T}

theorem scanChain_of_append (hfile : scanChain C file = .ok (evs, last))
    (h : l.append C now e file = .ok (r, l', file')) :
    (complete file = true → ∃ line, marshal C (recordAfter C now l.last e) = .ok line ∧
      scanChain C file' = scanLine C (evs, last) line) ∧
      (complete file = false → ∃ err, scanChain C file' = .error err) := by
  obtain ⟨-, -, rfl, -, line, hline, rfl⟩ := (append_eq_ok_iff C).mp h
  obtain ⟨at', -, hrender⟩ := (marshal_eq_ok_iff C).mp hline
  have hblank : blank line = false := by
    rw [← hrender]
    rfl
  obtain ⟨hwhole, hrest⟩ := scanChain_append C hfile (newline_notMem_marshal C hline) hblank
    (getLast?_marshal C hline) (.inr rfl)
  exact ⟨fun hc => ⟨line, hline, hwhole hc⟩, hrest⟩

/-- A file that is accepted is accepted after an append exactly under that condition, and then ends
in the hash that the handle keeps. -/
theorem scanChain_append_iff (hfile : scanChain C file = .ok (evs, last))
    (hl : valid l.last = true) (h : l.append C now e file = .ok (r, l', file')) :
    (∃ e', scanChain C file' = .ok (evs ++ [e'], l'.last)) ↔ Accepted C now l e file last := by
  obtain ⟨hwhole, hrest⟩ := scanChain_of_append C hfile h
  obtain ⟨-, -, hr, hl', -⟩ := (append_eq_ok_iff C).mp h
  unfold Accepted
  cases hc : complete file with
  | true =>
    obtain ⟨line, hline, hscan⟩ := hwhole hc
    rw [hscan, hl', hr]
    simpa using scanLine_recordAfter_iff C hline hl (evs, last)
  | false =>
    obtain ⟨err, herr⟩ := hrest hc
    rw [herr]
    simp

theorem eq_of_scanChain_append (hfile : scanChain C file = .ok (evs, last))
    (hl : valid l.last = true) (h : l.append C now e file = .ok (r, l', file'))
    {s : List (Event T) × Text} (hs : scanChain C file' = .ok s) :
    ∃ e', s = (evs ++ [e'], l'.last) := by
  obtain ⟨hwhole, hrest⟩ := scanChain_of_append C hfile h
  obtain ⟨-, -, hr, hl', -⟩ := (append_eq_ok_iff C).mp h
  cases hc : complete file with
  | true =>
    obtain ⟨line, hline, hscan⟩ := hwhole hc
    rw [hl', hr]
    exact eq_of_scanLine_recordAfter C hline hl (hscan.symm.trans hs)
  | false =>
    obtain ⟨err, herr⟩ := hrest hc
    cases herr.symm.trans hs

end Append

/-! ## Accepted files -/

def Verified (file : Text) : Prop := ∃ n, verifyFile C file = .ok n

def lastHash (file : Text) : Text :=
  match scanChain C file with
  | .ok s => s.2
  | .error _ => []

theorem verified_iff {file : Text} : Verified C file ↔ ∃ s, scanChain C file = .ok s := by
  constructor
  · rintro ⟨n, hn⟩
    obtain ⟨s, hs, -⟩ := (verifyFile_eq_ok_iff C).mp hn
    exact ⟨s, hs⟩
  · rintro ⟨s, hs⟩
    exact ⟨_, (verifyFile_eq_ok_iff C).mpr ⟨s, hs, rfl⟩⟩

/-!
## Appends that fail

`Append` opens the file, writes its line, syncs and closes it, and only then takes over the hash of
the record. A step that fails ends the call with what was done before it.
-/

variable {T : Type} (C : TimeCodec T)

/-! ## The call -/

/-- What the system answers to the steps of a call: the error, if there is one. A write that fails
comes with the number of bytes it has written. -/
structure Answers where
  openFile : Option String := none
  write : Option (Nat × String) := none
  sync : Option String := none
  close : Option String := none
  mirror : Option String := none

structure Outcome (T : Type) where
  recorded : Event T
  err : Option String
  log : FileLog
  file : Text

def FileLog.write (a : Answers) (l : FileLog) (recorded : Event T) (line file : Text) : Outcome T :=
  match a.openFile with
  | some err => ⟨zeroEvent C, some err, l, file⟩
  | none =>
    match a.write with
    | some (n, err) => ⟨zeroEvent C, some err, l, file ++ cut n (line ++ [.char '\n'])⟩
    | none =>
      let file := file ++ line ++ [.char '\n']
      match a.sync with
      | some err => ⟨zeroEvent C, some err, l, file⟩
      | none =>
        match a.close with
        | some err => ⟨zeroEvent C, some err, l, file⟩
        | none =>
          let l : FileLog := ⟨recorded.text .hash⟩
          ⟨recorded, a.mirror.map ("audit mirror: " ++ ·), l, file⟩

def FileLog.appendWith (a : Answers) (now : T) (l : FileLog) (e : Event T) (file : Text) :
    Outcome T :=
  let e := if C.isZero e.timeAt then { e with timeAt := now } else e
  match record C e with
  | .error msg => ⟨zeroEvent C, some msg, l, file⟩
  | .ok recorded =>
    let recorded := recorded.set .prevHash l.last
    let recorded := recorded.set .hash (chainHash C recorded)
    match marshal C recorded with
    | .error msg => ⟨zeroEvent C, some msg, l, file⟩
    | .ok line => l.write C a recorded line file

def Encodes (now : T) (e : Event T) : Prop :=
  trimSpace (e.text .principal) ≠ [] ∧ trimSpace (e.text .tool) ≠ [] ∧
    ∃ at', C.marshal (stamp C now e) = .ok at'

section Call

variable (a : Answers) {now : T} (l : FileLog) {e : Event T} (file : Text)

theorem appendWith_of_not_encodes (h : ¬Encodes C now e) :
    ∃ msg, l.appendWith C a now e file = ⟨zeroEvent C, some msg, l, file⟩ := by
  unfold FileLog.appendWith
  simp only [record_stamp]
  by_cases hreq : trimSpace (e.text .principal) = [] ∨ trimSpace (e.text .tool) = []
  · rw [if_pos hreq]
    exact ⟨_, rfl⟩
  · rw [if_neg hreq]
    obtain ⟨hp, ht⟩ := not_or.mp hreq
    cases hline : marshal C (recordAfter C now l.last e) with
    | error msg =>
      refine ⟨msg, ?_⟩
      change (match marshal C (recordAfter C now l.last e) with | .error _ => _ | .ok _ => _) = _
      rw [hline]
    | ok line =>
      obtain ⟨at', hat, -⟩ := (marshal_eq_ok_iff C).mp hline
      exact absurd ⟨hp, ht, at', hat⟩ h

theorem appendWith_of_encodes (h : Encodes C now e) :
    ∃ line, marshal C (recordAfter C now l.last e) = .ok line ∧
      l.appendWith C a now e file = l.write C a (recordAfter C now l.last e) line file := by
  obtain ⟨hp, ht, at', hat⟩ := h
  obtain ⟨line, hline⟩ : ∃ line, marshal C (recordAfter C now l.last e) = .ok line :=
    ⟨_, (marshal_eq_ok_iff C).mpr ⟨at', hat, rfl⟩⟩
  refine ⟨line, hline, ?_⟩
  unfold FileLog.appendWith
  simp only [record_stamp]
  rw [if_neg (not_or.mpr ⟨hp, ht⟩)]
  change (match marshal C (recordAfter C now l.last e) with | .error _ => _ | .ok _ => _) = _
  rw [hline]
  rfl

end Call

/-! ## What is in the file -/

section File

variable {now : T} {l : FileLog} {e r : Event T} {file line last : Text} {evs : List (Event T)}

theorem verified_line_iff (hfile : scanChain C file = .ok (evs, last))
    (hl : valid l.last = true) (hline : marshal C (recordAfter C now l.last e) = .ok line)
    {eol : Text} (heol : eol = [] ∨ eol = [.char '\n']) :
    Verified C (file ++ line ++ eol) ↔ Accepted C now l e file last := by
  have hblank : blank line = false := by
    obtain ⟨at', -, rfl⟩ := (marshal_eq_ok_iff C).mp hline
    rfl
  obtain ⟨hwhole, hrest⟩ := scanChain_append C hfile (newline_notMem_marshal C hline) hblank
    (getLast?_marshal C hline) heol
  rw [verified_iff]
  unfold Accepted
  cases hc : complete file with
  | true =>
    have hiff := scanLine_recordAfter_iff C hline hl (evs, last)
    rw [hwhole hc, eq_self_iff_true, true_and, ← hiff]
    constructor
    · rintro ⟨s, hs⟩
      obtain ⟨e', rfl⟩ := eq_of_scanLine_recordAfter C hline hl hs
      exact ⟨e', hs⟩
    · rintro ⟨e', he'⟩
      exact ⟨_, he'⟩
  | false =>
    obtain ⟨err, herr⟩ := hrest hc
    rw [herr]
    simp

theorem not_verified_cut {n : Nat} (hfile : scanChain C file = .ok (evs, last))
    (hline : marshal C r = .ok line) (hpos : 0 < n) (hn : n < size line) :
    ¬Verified C (file ++ cut n line) := by
  obtain ⟨at', -, hrender⟩ := (marshal_eq_ok_iff C).mp hline
  have hread (v : Val) (hv : JsonLine.unmarshal (cut n line) = some v) : ∃ raw, v = .num raw := by
    refine num_of_unmarshal_cut (hrender ▸ unmarshal_render _) (fun g hg => ?_) hn hv
    rw [← hrender, getLast?_render] at hg
    obtain rfl := Option.some.inj hg
    rfl
  have hcontrol {c : Char} (hc : c.toNat < 32) : Glyph.char c ∉ cut n line := fun hmem =>
    control_notMem_render hc _ (hrender ▸ char_mem_of_mem_cut hmem)
  have hblank : blank (cut n line) = false := by
    have hbrace : (Glyph.char '\x7b').bytes.length = 1 := by decide
    rw [← hrender, render, cut, hbrace, if_pos (show 1 ≤ n from hpos)]
    rfl
  have hcr : (cut n line).getLast? ≠ some (.char '\r') := fun h =>
    hcontrol (by decide) (List.mem_of_getLast? h)
  obtain ⟨hwhole, hrest⟩ := scanChain_append C hfile (hcontrol (by decide)) hblank hcr (.inl rfl)
  rw [List.append_nil] at hwhole hrest
  rw [verified_iff]
  rintro ⟨s, hs⟩
  cases hc : complete file with
  | true =>
    obtain ⟨e', -, he', -⟩ := (scanLine_eq_ok_iff C).mp ((hwhole hc).symm.trans hs)
    rw [dropCR, if_neg hcr] at he'
    obtain ⟨v, hv, hdecode⟩ := Option.bind_eq_some_iff.mp he'
    obtain ⟨raw, rfl⟩ := hread v hv
    cases hdecode
  | false =>
    obtain ⟨err, herr⟩ := hrest hc
    cases herr.symm.trans hs

end File

end Kairon.Audit
