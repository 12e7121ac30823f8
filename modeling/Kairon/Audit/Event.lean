import Kairon.Infra.GoDecode
import Kairon.Infra.GoText
import Kairon.Infra.JsonLine
import Kairon.Infra.Sha256

/-!
# Audit events and their encoding

An event of the audit log, how `encoding/json` writes and reads it, and how it gets its id. What the
encoding of a time looks like is left to a `TimeCodec`.
-/

namespace Kairon.Audit

open Infra JsonLine List Option

inductive TextField where
  | id
  | principal
  | tool
  | tenant
  | claim
  | diff
  | outcome
  | prevHash
  | hash
  deriving DecidableEq

structure TimeCodec (T : Type) where
  /-- The zero value, which a decoded event has if its text names no time. -/
  zero : T
  isZero : T → Bool
  /-- `time.Unix(0, 0).UTC()`. -/
  epoch : T
  /-- The format `time.RFC3339Nano`, in UTC. -/
  format : T → List Char
  /-- `MarshalJSON`, between the quotes; it refuses years and zones that RFC 3339 cannot express. -/
  marshal : T → Except String (List Char)
  /-- `UnmarshalJSON` of a literal, between the quotes. -/
  unmarshal : Text → Option T
  plain_marshal : ∀ {t s}, marshal t = .ok s → ∀ c ∈ s, plain c = true
  unmarshal_marshal : ∀ {t s}, marshal t = .ok s → (unmarshal (ofChars s)).isSome = true

def oneDay : TimeCodec Bool :=
  let text (day : Bool) : List Char :=
    (if day then "2026-11-15T09:30:00Z" else "0001-01-01T00:00:00Z").toList
  { zero := false
    isZero := not
    epoch := true
    format := text
    marshal := fun day => .ok (text day)
    unmarshal := fun t => [true, false].find? fun day => ofChars (text day) == t
    plain_marshal := by
      rintro day _ ⟨⟩
      cases day <;> exact List.all_eq_true.mp rfl
    unmarshal_marshal := by
      rintro day _ ⟨⟩
      cases day <;> rfl }

@[ext]
structure Event (T : Type) where
  timeAt : T
  text : TextField → Text

namespace Event

variable {T : Type}

def set (e : Event T) (f : TextField) (v : Text) : Event T :=
  { e with text := fun g => if g = f then v else e.text g }

@[simp] theorem set_text_self (e : Event T) (f : TextField) (v : Text) : (e.set f v).text f = v :=
  if_pos rfl

@[simp] theorem set_text_ne (e : Event T) {f g : TextField} (v : Text) (h : g ≠ f) :
    (e.set f v).text g = e.text g :=
  if_neg h

@[simp] theorem set_timeAt (e : Event T) (f : TextField) (v : Text) :
    (e.set f v).timeAt = e.timeAt :=
  rfl

end Event

/-! ## The encoding -/

inductive Field where
  | timeAt
  | text (f : TextField)
  deriving DecidableEq

structure Tag where
  name : String
  omitempty : Bool
  field : Field
  deriving DecidableEq

def fields : List Tag :=
  [⟨"id", false, .text .id⟩, ⟨"at", false, .timeAt⟩, ⟨"principal", false, .text .principal⟩,
   ⟨"tool", false, .text .tool⟩, ⟨"tenant", true, .text .tenant⟩, ⟨"claim", true, .text .claim⟩,
   ⟨"diff", true, .text .diff⟩, ⟨"outcome", true, .text .outcome⟩,
   ⟨"prevHash", true, .text .prevHash⟩, ⟨"hash", true, .text .hash⟩]

theorem tag_eq_of_name : ∀ a ∈ fields, ∀ b ∈ fields, a.name.toList = b.name.toList → a = b := by
  decide

theorem exists_tag (f : Field) : ∃ tag ∈ fields, tag.field = f := by
  cases f with
  | timeAt => decide
  | text f => cases f <;> decide

variable {T : Type} {at' : List Char} {t : T} {tag : Tag} {e e₁ e₂ : Event T} {line : Text}

def content (at' : List Char) (e : Event T) : Field → Text
  | .timeAt => ofChars at'
  | .text f => e.text f

def entry (at' : List Char) (e : Event T) (tag : Tag) : Option (Text × Text) :=
  if tag.omitempty && (content at' e tag.field).isEmpty then none
  else some (ofChars tag.name.toList, content at' e tag.field)

def members (at' : List Char) (e : Event T) : List (Text × Text) := fields.filterMap (entry at' e)

variable (C : TimeCodec T)

def marshal (e : Event T) : Except String Text :=
  (C.marshal e.timeAt).map fun at' => render (members at' e)

def fieldOf (key : List Char) : Option Field :=
  ((fields.find? fun tag => tag.name.toList == key) <|>
    fields.find? fun tag => tag.name.toList.map foldChar == key.map foldChar).map (·.field)

theorem fieldOf_name : ∀ tag ∈ fields, fieldOf tag.name.toList = some tag.field := by
  decide

/-- Storing a member of an object. A key that names no field is skipped, and `null` changes
nothing. -/
def store (e : Event T) (m : List Char × Val) : Option (Event T) :=
  match fieldOf m.1, m.2 with
  | none, _ => some e
  | some _, .null => some e
  | some .timeAt, .str raw _ => (C.unmarshal raw).map fun t => { e with timeAt := t }
  | some (.text f), .str _ s => some (e.set f (ofChars s))
  | some _, _ => none

def zeroEvent : Event T := ⟨C.zero, fun _ => []⟩

def decode : Val → Option (Event T)
  | .null => some (zeroEvent C)
  | .obj ms => ms.foldlM (store C) (zeroEvent C)
  | _ => none

def unmarshalEvent (t : Text) : Option (Event T) := (JsonLine.unmarshal t).bind (decode C)

/-! ## Reading an encoded event -/

def reread (t : T) (e : Event T) : Event T := ⟨t, fun f => ofChars (clean (e.text f))⟩

def put (at' : List Char) (t : T) (e z : Event T) (tag : Tag) : Event T :=
  if tag.omitempty && (content at' e tag.field).isEmpty then z
  else match tag.field with
    | .timeAt => { z with timeAt := t }
    | .text f => z.set f (ofChars (clean (e.text f)))

theorem store_entry (hplain : ∀ c ∈ at', plain c = true)
    (hread : C.unmarshal (ofChars at') = some t) (e z : Event T) (htag : tag ∈ fields) :
    ((entry at' e tag).toList.map fun m => (clean m.1, Val.str (escape m.2) (clean m.2))).foldlM
      (store C) z = some (put at' t e z tag) := by
  unfold entry put
  split
  · rfl
  · simp only [toList_some, map_cons, map_nil, foldlM_cons, foldlM_nil,
      store, clean_ofChars, fieldOf_name tag htag]
    cases tag.field with
    | timeAt => simp [content, escape_of_plain hplain, hread]
    | text f => simp [content]

theorem foldlM_store_entries (hplain : ∀ c ∈ at', plain c = true)
    (hread : C.unmarshal (ofChars at') = some t) (e z : Event T) {tags : List Tag}
    (htags : ∀ tag ∈ tags, tag ∈ fields) : ((tags.filterMap (entry at' e)).map fun m =>
      (clean m.1, Val.str (escape m.2) (clean m.2))).foldlM (store C) z =
      some (tags.foldl (put at' t e) z) := by
  induction tags generalizing z with
  | nil => rfl
  | cons tag tags ih =>
    obtain ⟨htag, htags⟩ := forall_mem_cons.mp htags
    have hsplit : (tag :: tags).filterMap (entry at' e) =
        (entry at' e tag).toList ++ tags.filterMap (entry at' e) := by
      rw [filterMap_cons]
      cases entry at' e tag <;> rfl
    rw [hsplit, map_append, foldlM_append, store_entry C hplain hread e z htag]
    exact ih _ htags

theorem put_text (at' : List Char) (t : T) (e z : Event T) (tag : Tag) (f : TextField) :
    (put at' t e z tag).text f =
      if tag.field = .text f ∧ (tag.omitempty = true → e.text f ≠ []) then
        ofChars (clean (e.text f))
      else z.text f := by
  unfold put
  cases hfield : tag.field with
  | timeAt => split <;> simp
  | text g =>
    by_cases hg : g = f
    · subst hg
      cases tag.omitempty <;> by_cases hv : e.text g = [] <;> simp [content, hv]
    · have hfg : f ≠ g := Ne.symm hg
      split <;> simp [hg, hfg]

theorem foldl_put (at' : List Char) (t : T) (e : Event T) :
    fields.foldl (put at' t e) (zeroEvent C) = reread t e := by
  have htime : (fields.foldl (put at' t e) (zeroEvent C)).timeAt = t := by
    simp only [fields, foldl_cons, foldl_nil, put, apply_ite Event.timeAt,
      Event.set_timeAt, Bool.false_and, ite_self, Bool.false_eq_true, if_false]
  have htext : (fields.foldl (put at' t e) (zeroEvent C)).text = (reread t e).text := by
    funext f
    have hempty : (if e.text f = [] then ([] : Text) else ofChars (clean (e.text f))) =
        ofChars (clean (e.text f)) := by
      split
      · simp [*, ofChars]
      · rfl
    cases f <;> simp [fields, put_text, zeroEvent, reread, hempty]
  exact Event.ext htime htext

theorem marshal_eq_ok_iff : marshal C e = .ok line ↔
      ∃ at', C.marshal e.timeAt = .ok at' ∧ render (members at' e) = line := by
  unfold marshal
  cases C.marshal e.timeAt <;> simp [Except.map]

theorem unmarshalEvent_marshal (h : marshal C e = .ok line) :
    ∃ at' t, C.marshal e.timeAt = .ok at' ∧ C.unmarshal (ofChars at') = some t ∧
      unmarshalEvent C line = some (reread t e) := by
  obtain ⟨at', hat, rfl⟩ := (marshal_eq_ok_iff C).mp h
  obtain ⟨t, ht⟩ := isSome_iff_exists.mp (C.unmarshal_marshal hat)
  refine ⟨at', t, hat, ht, ?_⟩
  rw [unmarshalEvent, unmarshal_render, bind_some, decode, members,
    foldlM_store_entries C (C.plain_marshal hat) ht e _ fun _ h => h, foldl_put]

/-! ## Events that are encoded the same way -/

theorem mem_members (htag : tag ∈ fields) (hv : content at' e tag.field ≠ []) :
    (ofChars tag.name.toList, content at' e tag.field) ∈ members at' e :=
  mem_filterMap.mpr ⟨tag, htag, by simp [entry, hv]⟩

theorem tag_of_mem_members {m : Text × Text} (h : m ∈ members at' e) :
    ∃ tag ∈ fields, m = (ofChars tag.name.toList, content at' e tag.field) := by
  obtain ⟨tag, htag, hentry⟩ := mem_filterMap.mp h
  refine ⟨tag, htag, ?_⟩
  obtain ⟨_, hentry⟩ := ite_none_left_eq_some.mp hentry
  exact (Option.some.inj hentry).symm

theorem content_eq_of_render_eq {at₁ at₂ : List Char}
    (h : render (members at₁ e₁) = render (members at₂ e₂)) (htag : tag ∈ fields)
    (hv : content at₁ e₁ tag.field ≠ []) :
    clean (content at₁ e₁ tag.field) = clean (content at₂ e₂ tag.field) := by
  have hmem := List.mem_map_of_mem (f := fun m => (clean m.1, clean m.2)) (mem_members htag hv)
  rw [render_inj h, List.mem_map] at hmem
  obtain ⟨m, hm, heq⟩ := hmem
  obtain ⟨tag', htag', rfl⟩ := tag_of_mem_members hm
  simp only [clean_ofChars, Prod.mk.injEq] at heq
  obtain rfl := tag_eq_of_name tag' htag' tag htag heq.1
  exact heq.2.symm

theorem render_members_inj {at₁ at₂ : List Char}
    (h : render (members at₁ e₁) = render (members at₂ e₂)) (f : Field) :
    clean (content at₁ e₁ f) = clean (content at₂ e₂ f) := by
  obtain ⟨tag, htag, rfl⟩ := exists_tag f
  by_cases h₁ : content at₁ e₁ tag.field = []
  · by_cases h₂ : content at₂ e₂ tag.field = []
    · rw [h₁, h₂]
    · exact (content_eq_of_render_eq h.symm htag h₂).symm
  · exact content_eq_of_render_eq h htag h₁

/-- Events with one encoding have one time and, but for odd bytes, the same texts. -/
theorem marshal_inj (h₁ : marshal C e₁ = .ok line) (h₂ : marshal C e₂ = .ok line) :
    C.marshal e₁.timeAt = C.marshal e₂.timeAt ∧ ∀ f, clean (e₁.text f) = clean (e₂.text f) := by
  obtain ⟨at₁, hat₁, rfl⟩ := (marshal_eq_ok_iff C).mp h₁
  obtain ⟨at₂, hat₂, h⟩ := (marshal_eq_ok_iff C).mp h₂
  refine ⟨?_, fun f => render_members_inj h.symm (.text f)⟩
  have htime := render_members_inj h.symm .timeAt
  rw [content, content, clean_ofChars, clean_ofChars] at htime
  rw [hat₁, hat₂, htime]

theorem members_reread (at' : List Char) (t : T) (e : Event T) : members at' (reread t e) =
    (members at' e).map fun m => (ofChars (clean m.1), ofChars (clean m.2)) := by
  have hcontent (f : Field) : content at' (reread t e) f = ofChars (clean (content at' e f)) := by
    cases f with
    | timeAt => exact congrArg ofChars (clean_ofChars at').symm
    | text f => rfl
  rw [members, members, map_filterMap]
  refine filterMap_congr fun tag _ => ?_
  have hempty : (ofChars (clean (content at' e tag.field))).isEmpty =
      (content at' e tag.field).isEmpty := by simp [ofChars, clean]
  unfold entry
  rw [hcontent, hempty]
  split <;> simp

/-- An event is encoded the same way after it was read if its time is. -/
theorem marshal_reread (htime : C.marshal t = C.marshal e.timeAt) :
    marshal C (reread t e) = marshal C e := by
  have htime' : C.marshal (reread t e).timeAt = C.marshal e.timeAt := htime
  unfold marshal
  simp only [members_reread, render_clean, htime']

theorem marshal_congr (htime : C.marshal e₁.timeAt = C.marshal e₂.timeAt)
    (htext : ∀ f, clean (e₁.text f) = clean (e₂.text f)) : marshal C e₁ = marshal C e₂ := by
  have hread : reread e₂.timeAt e₁ = reread e₂.timeAt e₂ :=
    Event.ext rfl (funext fun f => congrArg ofChars (htext f))
  rw [← marshal_reread C htime.symm, hread, marshal_reread C rfl]

theorem valid_of_unmarshalEvent {t : Text} (h : unmarshalEvent C t = some e)
    (f : TextField) : valid (e.text f) = true := by
  have hstore (z z' : Event T) (m : List Char × Val) (hz : valid (z.text f) = true)
      (hm : store C z m = some z') : valid (z'.text f) = true := by
    unfold store at hm
    split at hm
    · cases hm
      exact hz
    · cases hm
      exact hz
    · obtain ⟨t, -, rfl⟩ := map_eq_some_iff.mp hm
      exact hz
    · rename_i g _ s _ _
      cases hm
      by_cases hfg : f = g
      · rw [hfg, Event.set_text_self]
        exact valid_ofChars s
      · rwa [Event.set_text_ne _ _ hfg]
    · cases hm
  have hfold (ms : List (List Char × Val)) (z : Event T) (hz : valid (z.text f) = true)
      (hms : ms.foldlM (store C) z = some e) : valid (e.text f) = true := by
    induction ms generalizing z with
    | nil =>
      cases hms
      exact hz
    | cons m ms ih =>
      obtain ⟨z', hz', hms⟩ := bind_eq_some_iff.mp hms
      exact ih z' (hstore z z' m hz hz') hms
  obtain ⟨v, -, hv⟩ := bind_eq_some_iff.mp h
  cases v with
  | null =>
    cases hv
    rfl
  | obj ms => exact hfold ms _ rfl hv
  | _ => cases hv

/-! ## Digests -/

variable (bs : List UInt8)

theorem exists_hexDigit_of_mem {bs : List UInt8} :
    ∀ c ∈ hexEncode bs, ∃ n < 16, c = hexDigit n := by
  intro c hc
  obtain ⟨b, -, hc⟩ := mem_flatMap.mp hc
  have hb : b.toNat < 256 := b.toNat_lt
  rcases mem_cons.mp hc with rfl | hc
  · exact ⟨_, by omega, rfl⟩
  · obtain rfl := mem_singleton.mp hc
    exact ⟨_, Nat.mod_lt _ (by decide), rfl⟩

theorem escape_hexEncode : escape (ofChars (hexEncode bs)) = ofChars (hexEncode bs) := by
  refine escape_of_plain fun c hc => ?_
  obtain ⟨n, hn, rfl⟩ := exists_hexDigit_of_mem c hc
  exact plain_hexDigit n hn

theorem size_hexEncode : size (ofChars (hexEncode bs)) = 2 * bs.length := by
  rw [size_of_plain_hex exists_hexDigit_of_mem, length_hexEncode]

theorem hexEncode_inj {bs cs : List UInt8} (h : hexEncode bs = hexEncode cs) : bs = cs := by
  induction bs generalizing cs with
  | nil =>
    cases cs with
    | nil => rfl
    | cons c cs => simp [hexEncode] at h
  | cons b bs ih =>
    cases cs with
    | nil => simp [hexEncode] at h
    | cons c cs =>
      simp only [hexEncode, flatMap_cons, cons_append, nil_append, List.cons.injEq]
        at h
      obtain ⟨hhigh, hlow, htail⟩ := h
      have hb : b.toNat < 256 := b.toNat_lt
      have hc : c.toNat < 256 := c.toNat_lt
      have hdiv := congrArg hexValue hhigh
      have hmod := congrArg hexValue hlow
      rw [hexValue_hexDigit _ (by omega), hexValue_hexDigit _ (by omega)] at hdiv hmod
      have hbyte : b.toNat = c.toNat := by
        simp only [Option.some.injEq] at hdiv hmod
        omega
      rw [UInt8.toNat_inj.mp hbyte, ih htail]

def digest (t : Text) : Text := ofChars (hexEncode (Sha256.sum256 (bytes t)))

@[simp] theorem valid_digest (t : Text) : valid (digest t) = true := valid_ofChars _

@[simp] theorem escape_digest (t : Text) : escape (digest t) = digest t := escape_hexEncode _

@[simp] theorem size_digest (t : Text) : size (digest t) = 64 := by
  rw [digest, size_hexEncode, Sha256.length_sum256]

@[simp] theorem digest_ne_nil (t : Text) : digest t ≠ [] := fun h => by
  have := size_digest t
  rw [h] at this
  exact absurd this (by decide)

theorem newline_notMem_digest (t : Text) : Glyph.char '\n' ∉ digest t := by
  rw [← escape_digest]
  exact control_notMem_escape (by decide) _

theorem digest_eq_iff {s t : Text} :
    digest s = digest t ↔ Sha256.sum256 (bytes s) = Sha256.sum256 (bytes t) :=
  ⟨fun h => hexEncode_inj (ofChars_injective h), fun h => by rw [digest, h, digest]⟩

/-! ## Recording -/

def trimSpace (t : Text) : Text :=
  let space : Glyph → Bool
    | .char c => GoText.isSpace c
    | .bad _ => false
  ((t.dropWhile space).reverse.dropWhile space).reverse

def idText (e : Event T) : Text :=
  let bar := Glyph.char '|'
  e.text .principal ++ bar :: e.text .tool ++ bar :: e.text .tenant ++ bar :: e.text .claim ++
    bar :: e.text .diff ++ bar :: ofChars (C.format e.timeAt) ++
    if e.text .outcome = [] then [] else bar :: e.text .outcome

def record (e : Event T) : Except String (Event T) :=
  if trimSpace (e.text .principal) = [] ∨ trimSpace (e.text .tool) = [] then
    .error "principal and tool are required"
  else
    let e := if C.isZero e.timeAt then { e with timeAt := C.epoch } else e
    .ok (e.set .id (ofChars (hexEncode ((Sha256.sum256 (bytes (idText C e))).take 8))))

end Kairon.Audit
