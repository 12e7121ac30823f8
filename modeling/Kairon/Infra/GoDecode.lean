import Kairon.Infra.GoJson
import Mathlib.Data.List.Induction
import Mathlib.Data.List.Nodup
import Mathlib.Data.Option.Basic
import Mathlib.Logic.Function.Basic

/-!
# Two ways of reading a JSON text

`encoding/json` reads an object into a map by its exact keys, and into a struct by the fields the
keys name, whatever their case; the struct leaves a field alone where the text says `null`.
-/

namespace Infra

open List Option Function

/-- The number literals of JSON, and how `strconv` reads them: as the bits of a `float64` unless it
is out of range, and as an integer if it is one. -/
structure Numerals where
  Literal : Type
  toFloat : Literal → Option UInt64
  toInt : Literal → Option Int
  zero : Literal
  one : Literal
  float_zero : (toFloat zero).isSome
  float_one : (toFloat one).isSome
  int_zero : toInt zero = some 0
  int_one : toInt one = some 1

instance : Inhabited Numerals where
  default :=
    { Literal := Int
      toFloat := fun n => some n.toNat.toUInt64
      toInt := some
      zero := 0
      one := 1
      float_zero := rfl
      float_one := rfl
      int_zero := rfl
      int_one := rfl }

inductive JsonText (L : Type) where
  | null
  | bool (b : Bool)
  | num (literal : L)
  | str (s : String)
  | arr (items : List (JsonText L))
  | obj (members : List (String × JsonText L))

namespace JsonText

variable (N : Numerals) {d : JsonText N.Literal} {acc m : String → Json} {v : Json} {k : String}
  {ms : List (String × JsonText N.Literal)}

mutual

def generic : JsonText N.Literal → Option Json
  | null => some .null
  | bool b => some (.bool b)
  | num l => (N.toFloat l).map .float
  | str s => some (.str s)
  | arr items => (genericItems items).map .arr
  | obj members => (genericMembers (fun _ => .absent) members).map .obj

def genericItems : List (JsonText N.Literal) → Option (List Json)
  | [] => some []
  | d :: ds =>
    match generic d with
    | none => none
    | some v => (genericItems ds).map (v :: ·)

def genericMembers (acc : String → Json) :
    List (String × JsonText N.Literal) → Option (String → Json)
  | [] => some acc
  | (k, d) :: ms =>
    match generic d with
    | none => none
    | some v => genericMembers (update acc k v) ms

end

variable {N}

theorem generic_ne_absent (h : generic N d = some v) : v ≠ .absent := by
  rintro rfl
  cases d <;> simp [generic] at h

theorem eq_obj_of_generic (h : generic N d = some (.obj m)) :
    ∃ ms, d = .obj ms ∧ genericMembers N (fun _ => .absent) ms = some m := by
  cases d with
  | obj ms =>
    obtain ⟨m', hm', heq⟩ := map_eq_some_iff.mp h
    cases heq
    exact ⟨ms, rfl, hm'⟩
  | _ => simp [generic] at h

theorem genericMembers_append {ms' : List (String × JsonText N.Literal)} :
    genericMembers N acc (ms ++ ms') =
      (genericMembers N acc ms).bind fun m => genericMembers N m ms' := by
  induction ms generalizing acc with
  | nil => simp [genericMembers]
  | cons e ms ih =>
    obtain ⟨k, d⟩ := e
    simp only [cons_append, genericMembers]
    cases generic N d with
    | none => rfl
    | some v => exact ih

theorem exists_of_genericMembers_concat (h : genericMembers N acc (ms ++ [(k, d)]) = some m) :
    ∃ m₀ v, genericMembers N acc ms = some m₀ ∧ generic N d = some v ∧ m = update m₀ k v := by
  rw [genericMembers_append] at h
  obtain ⟨m₀, hm₀, h⟩ := bind_eq_some_iff.mp h
  simp only [genericMembers] at h
  split at h
  · cases h
  · next v hv => exact ⟨m₀, v, hm₀, hv, (Option.some.inj h).symm⟩

theorem mem_keys_of_genericMembers (h : genericMembers N acc ms = some m) (k : String) :
    (k ∈ ms.map Prod.fst → m k ≠ .absent) ∧ (k ∉ ms.map Prod.fst → m k = acc k) := by
  induction ms generalizing acc with
  | nil =>
    cases h
    exact ⟨fun hk => (not_mem_nil hk).elim, fun _ => rfl⟩
  | cons e ms ih =>
    simp only [genericMembers] at h
    split at h
    · cases h
    · next v hv =>
      obtain ⟨hin, hout⟩ := ih h
      rw [map_cons, mem_cons]
      by_cases hk : k ∈ ms.map Prod.fst
      · exact ⟨fun _ => hin hk, fun hno => absurd (.inr hk) hno⟩
      · refine ⟨fun hk' => ?_, fun hno => ?_⟩
        · rcases hk' with rfl | hk'
          · rw [hout hk, update_self]
            exact generic_ne_absent hv
          · exact absurd hk' hk
        · rw [hout hk]
          exact update_of_ne (fun h => hno (.inl h)) _ _

theorem genericMembers_singleton (h : generic N d = some v) :
    genericMembers N acc [(k, d)] = some (update acc k v) := by
  simp only [genericMembers, h]

end JsonText

/-! ## Structs -/

inductive FieldType where
  | string
  | bool
  | int
  | intPtr
  deriving DecidableEq

inductive Slot where
  | string (s : String)
  | bool (b : Bool)
  | int (n : Int)
  | intPtr (n : Option Int)

structure Field where
  name : String
  type : FieldType
  deriving DecidableEq

def FieldType.zero : FieldType → Slot
  | string => .string ""
  | bool => .bool false
  | int => .int 0
  | intPtr => .intPtr none

/-- `foldName`, on the characters that fold together with ASCII letters: the long s and the Kelvin
sign are among them. -/
def foldChar (c : Char) : Char :=
  if c = '\u017F' then 'S' else if c = '\u212A' then 'K' else c.toUpper

def foldName (name : String) : String := String.ofList (name.toList.map foldChar)

abbrev Layout := List Field

namespace Layout

def field? (fields : Layout) (key : String) : Option Field :=
  (fields.find? fun f => f.name == key) <|>
    fields.find? fun f => foldName f.name == foldName key

variable (N : Numerals) {s : Field → Slot} {type : FieldType} {new : Slot} {f : Field}
  {a d : JsonText N.Literal} {m : String → Json} {v : Json} {k : String}
  {ms : List (String × JsonText N.Literal)}

def assign (type : FieldType) (old : Slot) : JsonText N.Literal → Option Slot
  | .null => some (if type = .intPtr then .intPtr none else old)
  | .str s => if type = .string then some (.string s) else none
  | .bool b => if type = .bool then some (.bool b) else none
  | .num l =>
    match type with
    | .int => (N.toInt l).map .int
    | .intPtr => (N.toInt l).map fun n => .intPtr (some n)
    | _ => none
  | _ => none

def readMembers (fields : Layout) (s : Field → Slot) :
    List (String × JsonText N.Literal) → Option (Field → Slot)
  | [] => some s
  | (k, d) :: ms =>
    match fields.field? k with
    | none => none
    | some f =>
      match assign N f.type (s f) d with
      | none => none
      | some v => readMembers fields (update s f v) ms

def read (fields : Layout) : JsonText N.Literal → Option (Field → Slot)
  | .null => some fun f => f.type.zero
  | .obj members => readMembers N fields (fun f => f.type.zero) members
  | _ => none

def skim (fields : Layout) : JsonText N.Literal → Option (Field → Slot)
  | .obj members => read N fields (.obj (members.filter fun e => (fields.field? e.1).isSome))
  | d => read N fields d

variable {N} {fields : Layout}

theorem skim_eq_read {members : List (String × JsonText N.Literal)}
    (h : members.all (fun e => (fields.field? e.1).isSome) = true) :
    fields.skim N (.obj members) = fields.read N (.obj members) := by
  rw [skim, filter_eq_self.mpr (List.all_eq_true.mp h)]

theorem readMembers_append {ms' : List (String × JsonText N.Literal)} :
    readMembers N fields s (ms ++ ms') =
      (readMembers N fields s ms).bind fun s' => readMembers N fields s' ms' := by
  induction ms generalizing s with
  | nil => rfl
  | cons e ms ih =>
    obtain ⟨k, d⟩ := e
    simp only [cons_append, readMembers]
    cases fields.field? k with
    | none => rfl
    | some f =>
      dsimp only
      cases assign N f.type (s f) d with
      | none => rfl
      | some v => exact ih

theorem exists_of_readMembers_concat {s' : Field → Slot}
    (h : readMembers N fields s (ms ++ [(k, d)]) = some s') :
    ∃ s₀ f new, readMembers N fields s ms = some s₀ ∧ fields.field? k = some f ∧
      assign N f.type (s₀ f) d = some new ∧ s' = update s₀ f new := by
  rw [readMembers_append] at h
  obtain ⟨s₀, hs₀, h⟩ := bind_eq_some_iff.mp h
  simp only [readMembers] at h
  split at h
  · cases h
  · next f hf =>
    split at h
    · cases h
    · next new hnew => exact ⟨s₀, f, new, hs₀, hf, hnew, (Option.some.inj h).symm⟩

inductive Reads (N : Numerals) : FieldType → Json → Slot → Prop
  | string (s : String) : Reads N .string (.str s) (.string s)
  | bool (b : Bool) : Reads N .bool (.bool b) (.bool b)
  | int {l : N.Literal} {bits : UInt64} {n : Int} : N.toFloat l = some bits → N.toInt l = some n →
    Reads N .int (.float bits) (.int n)
  | intPtr {l : N.Literal} {bits : UInt64} {n : Int} : N.toFloat l = some bits →
    N.toInt l = some n → Reads N .intPtr (.float bits) (.intPtr (some n))
  | clear : Reads N .intPtr .null (.intPtr none)

/-- A document that is assigned to a field sets it, or is a `null` that leaves it alone. -/
theorem reads_of_assign {old : Slot} (hv : d.generic N = some v)
    (h : assign N type old d = some new) : (v = .null ∧ type ≠ .intPtr) ∨ Reads N type v new := by
  cases d with
  | null =>
    cases hv
    by_cases ht : type = .intPtr
    · rw [assign, if_pos ht] at h
      cases h
      exact .inr (ht ▸ .clear)
    · exact .inl ⟨rfl, ht⟩
  | bool b =>
    cases hv
    simp only [assign, ite_none_right_eq_some] at h
    obtain ⟨rfl, h⟩ := h
    cases h
    exact .inr (.bool b)
  | str s =>
    cases hv
    simp only [assign, ite_none_right_eq_some] at h
    obtain ⟨rfl, h⟩ := h
    cases h
    exact .inr (.string s)
  | num l =>
    obtain ⟨bits, hbits, rfl⟩ := map_eq_some_iff.mp hv
    cases type with
    | string | bool => cases h
    | int =>
      obtain ⟨n, hn, rfl⟩ := map_eq_some_iff.mp h
      exact .inr (.int hbits hn)
    | intPtr =>
      obtain ⟨n, hn, rfl⟩ := map_eq_some_iff.mp h
      exact .inr (.intPtr hbits hn)
  | arr items => cases h
  | obj members => cases h

theorem exists_text_of_reads (h : Reads N type v new) :
    ∃ d : JsonText N.Literal, d.generic N = some v ∧ ∀ old, assign N type old d = some new := by
  cases h with
  | string s => exact ⟨.str s, rfl, fun _ => rfl⟩
  | bool b => exact ⟨.bool b, rfl, fun _ => rfl⟩
  | @int l bits n hbits hn =>
    exact ⟨.num l, by rw [JsonText.generic, hbits]; rfl, fun _ => by rw [assign, hn]; rfl⟩
  | @intPtr l bits n hbits hn =>
    exact ⟨.num l, by rw [JsonText.generic, hbits]; rfl, fun _ => by rw [assign, hn]; rfl⟩
  | clear => exact ⟨.null, rfl, fun _ => rfl⟩

/-! ## Maps that determine the struct -/

/-- The fields of a map settle the struct: `null` only stands for pointers, and all members of a
field are read alike. -/
def Settled (N : Numerals) (fields : Layout) (m : String → Json) : Prop :=
  ∀ f k, m k ≠ .absent → fields.field? k = some f → (m k = .null → f.type = .intPtr) ∧
    ∀ k', m k' ≠ .absent → fields.field? k' = some f →
      ∀ s s', Reads N f.type (m k) s → Reads N f.type (m k') s' → s = s'

/-- No text with this map is read: it has a key that names no field, or a value of another type. -/
def Refused (N : Numerals) (fields : Layout) (m : String → Json) : Prop :=
  ∃ k, m k ≠ .absent ∧ ∀ f, fields.field? k = some f → m k ≠ .null ∧ ∀ s, ¬Reads N f.type (m k) s

/-- What a read struct has in a field: nothing if no member is about it, else what one of the
members reads as. -/
theorem reads_of_readMembers (hm : JsonText.genericMembers N (fun _ => .absent) ms = some m)
    (hs : readMembers N fields (fun f => f.type.zero) ms = some s)
    (hnull : ∀ k, fields.field? k = some f → m k = .null → f.type = .intPtr) :
    ((∀ k, fields.field? k = some f → m k = .absent) ∧ s f = f.type.zero) ∨
      ∃ k, m k ≠ .absent ∧ fields.field? k = some f ∧ Reads N f.type (m k) (s f) := by
  -- from the end: the last member of the field decides, and it is also the last one of its key
  induction ms using List.reverseRecOn generalizing m s with
  | nil =>
    cases hm
    cases hs
    exact .inl ⟨fun _ _ => rfl, rfl⟩
  | append_singleton ms e ih =>
    obtain ⟨k, d⟩ := e
    obtain ⟨m₀, v, hm₀, hv, rfl⟩ := JsonText.exists_of_genericMembers_concat hm
    obtain ⟨s₀, g, new, hs₀, hg, hnew, rfl⟩ := exists_of_readMembers_concat hs
    by_cases hfg : g = f
    · subst hfg
      refine .inr ⟨k, ?_, hg, ?_⟩
      · simpa using JsonText.generic_ne_absent hv
      · rcases reads_of_assign hv hnew with ⟨rfl, htype⟩ | hreads
        · exact absurd (hnull k hg (by simp)) htype
        · simpa using hreads
    · -- members of the field have other keys than `k`
      have hkey : ∀ k', fields.field? k' = some f → update m₀ k v k' = m₀ k' := by
        rintro k' hk'
        refine update_of_ne ?_ _ _
        rintro rfl
        exact hfg (Option.some.inj (hg.symm.trans hk'))
      rw [update_of_ne (Ne.symm hfg)]
      have hnull₀ : ∀ k', fields.field? k' = some f → m₀ k' = .null → f.type = .intPtr :=
        fun k' hk' h => hnull k' hk' ((hkey k' hk').trans h)
      rcases ih hm₀ hs₀ hnull₀ with ⟨hno, hzero⟩ | ⟨k', hpres, hk', hreads⟩
      · exact .inl ⟨fun k' hk' => (hkey k' hk').trans (hno k' hk'), hzero⟩
      · refine .inr ⟨k', ?_, hk', ?_⟩
        · rwa [hkey k' hk']
        · rwa [hkey k' hk']

theorem read_eq_of_settled {b : JsonText N.Literal} {s' : Field → Slot}
    (h : Settled N fields m) (ha : a.generic N = some (.obj m)) (hb : b.generic N = some (.obj m))
    (hs : read N fields a = some s) (hs' : read N fields b = some s') : s = s' := by
  obtain ⟨ms, rfl, hms⟩ := JsonText.eq_obj_of_generic ha
  obtain ⟨ms', rfl, hms'⟩ := JsonText.eq_obj_of_generic hb
  funext f
  have hnull : ∀ k, fields.field? k = some f → m k = .null → f.type = .intPtr :=
    fun k hk hnull => (h f k (by simp [hnull]) hk).1 hnull
  rcases reads_of_readMembers hms hs hnull with ⟨hno, hzero⟩ | ⟨k, hpres, hk, hreads⟩
  · rcases reads_of_readMembers hms' hs' hnull with ⟨-, hzero'⟩ | ⟨k', hpres', hk', -⟩
    · rw [hzero, hzero']
    · exact absurd (hno k' hk') hpres'
  · rcases reads_of_readMembers hms' hs' hnull with ⟨hno', -⟩ | ⟨k', hpres', hk', hreads'⟩
    · exact absurd (hno' k hk) hpres
    · exact (h f k hpres hk).2 k' hpres' hk' _ _ hreads hreads'

theorem not_refused_of_readMembers (hm : JsonText.genericMembers N (fun _ => .absent) ms = some m)
    (hs : readMembers N fields (fun f => f.type.zero) ms = some s) : ¬Refused N fields m := by
  induction ms using List.reverseRecOn generalizing m s with
  | nil =>
    cases hm
    rintro ⟨k, hpres, -⟩
    exact hpres rfl
  | append_singleton ms e ih =>
    obtain ⟨k, d⟩ := e
    obtain ⟨m₀, v, hm₀, hv, rfl⟩ := JsonText.exists_of_genericMembers_concat hm
    obtain ⟨s₀, g, new, hs₀, hg, hnew, rfl⟩ := exists_of_readMembers_concat hs
    rintro ⟨k', hpres, hno⟩
    by_cases hk : k' = k
    · subst hk
      rw [update_self] at hno
      rcases reads_of_assign hv hnew with ⟨rfl, -⟩ | hreads
      · exact (hno g hg).1 rfl
      · exact (hno g hg).2 new hreads
    · rw [update_of_ne hk] at hpres hno
      exact ih hm₀ hs₀ ⟨k', hpres, hno⟩

/-! ## Maps that do not -/

theorem exists_text_of_not_refused (h : ¬Refused N fields m) (hk : m k ≠ .absent) :
    ∃ f, ∃ d : JsonText N.Literal, fields.field? k = some f ∧ d.generic N = some (m k) ∧
      ∀ old, (assign N f.type old d).isSome := by
  simp only [Refused, not_exists, not_and, not_forall] at h
  obtain ⟨f, hf, hacc⟩ := h k hk
  by_cases hnull : m k = .null
  · exact ⟨f, .null, hf, by rw [hnull]; rfl, fun _ => rfl⟩
  · obtain ⟨new, hreads⟩ := hacc hnull
    obtain ⟨d, hd, hassign⟩ := exists_text_of_reads (not_not.mp hreads)
    exact ⟨f, d, hf, hd, fun old => by rw [hassign old]; rfl⟩

theorem exists_members (h : ¬Refused N fields m) (ks : List String)
    (hks : ∀ k ∈ ks, m k ≠ .absent) :
    ∃ ms : List (String × JsonText N.Literal), ms.map Prod.fst = ks ∧
      (∀ acc, ∃ m', JsonText.genericMembers N acc ms = some m' ∧ ∀ k ∈ ks, m' k = m k) ∧
      ∀ s, (readMembers N fields s ms).isSome := by
  induction ks with
  | nil => exact ⟨[], rfl, fun acc => ⟨acc, rfl, fun k hk => (not_mem_nil hk).elim⟩, fun _ => rfl⟩
  | cons k ks ih =>
    obtain ⟨ms, hkeys, hgen, hread⟩ := ih fun k' hk' => hks k' (mem_cons_of_mem _ hk')
    obtain ⟨f, d, hf, hd, hassign⟩ := exists_text_of_not_refused h (hks k mem_cons_self)
    refine ⟨(k, d) :: ms, by rw [map_cons, hkeys], fun acc => ?_, fun s => ?_⟩
    · obtain ⟨m', hm', heq⟩ := hgen (update acc k (m k))
      refine ⟨m', by rw [JsonText.genericMembers, hd]; exact hm', fun k' hk' => ?_⟩
      by_cases hmem : k' ∈ ks
      · exact heq k' hmem
      · obtain rfl := (mem_cons.mp hk').resolve_right hmem
        rw [← hkeys] at hmem
        rw [(JsonText.mem_keys_of_genericMembers hm' k').2 hmem, update_self]
    · obtain ⟨new, hnew⟩ := isSome_iff_exists.mp (hassign (s f))
      rw [readMembers, hf]
      dsimp only
      rw [hnew]
      exact hread _

/-- A map that is not refused has a text that ends in given documents for one of its keys, if these
leave the value of the key. It is read with what they make of the field. -/
theorem exists_read_ending (ha : a.generic N = some (.obj m)) (h : ¬Refused N fields m) (k : String)
    (ending : List (String × JsonText N.Literal))
    (hgen : ∀ acc, JsonText.genericMembers N acc ending = some (update acc k (m k)))
    (hread : ∀ s, readMembers N fields s ending = some (update s f new)) :
    ∃ b s, b.generic N = some (.obj m) ∧ read N fields b = some s ∧ s f = new := by
  obtain ⟨ms, rfl, hms⟩ := JsonText.eq_obj_of_generic ha
  have hkeys := JsonText.mem_keys_of_genericMembers hms
  obtain ⟨front, hfront, hgen₀, hread₀⟩ := exists_members h
    ((ms.map Prod.fst).filter fun k' => k' ≠ k)
    fun k' hk' => (hkeys k').1 (mem_filter.mp hk').1
  obtain ⟨m₀, hm₀, heq⟩ := hgen₀ fun _ => .absent
  obtain ⟨s, hs⟩ := isSome_iff_exists.mp (hread₀ fun f => f.type.zero)
  refine ⟨.obj (front ++ ending), _, ?_, ?_, update_self f new s⟩
  · rw [JsonText.generic, JsonText.genericMembers_append, hm₀, bind_some, hgen]
    refine congrArg (some ∘ Json.obj) ?_
    funext k'
    by_cases hk : k' = k
    · rw [hk, update_self]
    · rw [update_of_ne hk]
      by_cases hmem : k' ∈ ms.map Prod.fst
      · exact heq k' (mem_filter.mpr ⟨hmem, by simpa using hk⟩)
      · rw [(hkeys k').2 hmem, (JsonText.mem_keys_of_genericMembers hm₀ k').2]
        rw [hfront]
        exact fun hin => hmem (mem_filter.mp hin).1
  · rw [read, readMembers_append, hs, bind_some, hread]

theorem exists_two (h : type ≠ .intPtr) :
    ∃ v v' s s', Reads N type v s ∧ Reads N type v' s' ∧ s ≠ s' := by
  cases type with
  | string => exact ⟨_, _, _, _, .string "", .string "x", by simp⟩
  | bool => exact ⟨_, _, _, _, .bool false, .bool true, by simp⟩
  | int =>
    obtain ⟨bits, hbits⟩ := isSome_iff_exists.mp N.float_zero
    obtain ⟨bits', hbits'⟩ := isSome_iff_exists.mp N.float_one
    exact ⟨_, _, _, _, .int hbits N.int_zero, .int hbits' N.int_one, by simp⟩
  | intPtr => exact absurd rfl h

/-- A map that is neither refused nor settled has two texts that are read differently. -/
theorem exists_read_apart (ha : a.generic N = some (.obj m)) (h : ¬Refused N fields m)
    (hs : ¬Settled N fields m) :
    ∃ b c s s', b.generic N = some (.obj m) ∧ c.generic N = some (.obj m) ∧
      read N fields b = some s ∧ read N fields c = some s' ∧ s ≠ s' := by
  -- a member as the last one of its field
  have single : ∀ {k f new}, fields.field? k = some f → Reads N f.type (m k) new →
      ∃ b s, b.generic N = some (.obj m) ∧ read N fields b = some s ∧ s f = new := by
    intro k f new hf hreads
    obtain ⟨d, hd, hassign⟩ := exists_text_of_reads hreads
    refine exists_read_ending ha h k [(k, d)] (fun acc => ?_) fun s => ?_
    · exact JsonText.genericMembers_singleton hd
    · simp only [readMembers, hf, hassign]
  simp only [Settled, not_forall] at hs
  obtain ⟨f, k, hpres, hf, hbad⟩ := hs
  by_cases hnull : m k = .null → f.type = .intPtr
  · -- two members of the field that are read differently
    have happart := not_and.mp hbad hnull
    simp only [not_forall] at happart
    obtain ⟨k', -, hf', s, s', hreads, hreads', hne⟩ := happart
    obtain ⟨b, sb, hb, hsb, hbf⟩ := single hf hreads
    obtain ⟨c, sc, hc, hsc, hcf⟩ := single hf' hreads'
    refine ⟨b, c, sb, sc, hb, hc, hsb, hsc, ?_⟩
    rintro rfl
    exact hne (hbf.symm.trans hcf)
  · -- a `null` after any value of the field
    rw [Classical.not_imp] at hnull
    obtain ⟨hnull, htype⟩ := hnull
    have hkeep : ∀ old, assign N f.type old .null = some old := fun old => by
      rw [assign, if_neg htype]
    have before : ∀ {v new}, Reads N f.type v new →
        ∃ b s, b.generic N = some (.obj m) ∧ read N fields b = some s ∧ s f = new := by
      intro v new hreads
      obtain ⟨d, hd, hassign⟩ := exists_text_of_reads hreads
      refine exists_read_ending ha h k [(k, d), (k, .null)] (fun acc => ?_) fun s => ?_
      · simp [JsonText.genericMembers, JsonText.generic, hd, hnull]
      · simp [readMembers, hf, hassign, hkeep]
    obtain ⟨v, v', s, s', hreads, hreads', hne⟩ := exists_two htype
    obtain ⟨b, sb, hb, hsb, hbf⟩ := before hreads
    obtain ⟨c, sc, hc, hsc, hcf⟩ := before hreads'
    refine ⟨b, c, sb, sc, hb, hc, hsb, hsc, ?_⟩
    rintro rfl
    exact hne (hbf.symm.trans hcf)

/-! ## One text, two structs -/

def Distinct (fields : Layout) : Prop := (fields.map fun f => foldName f.name).Nodup

instance : DecidablePred Distinct := fun fields =>
  List.nodupDecidable (List.map (fun f : Field => foldName f.name) fields)

/-- A key that means a field in both means the same field. -/
def Compatible (fields fields' : Layout) : Prop :=
  ∀ f ∈ fields, ∀ f' ∈ fields', foldName f.name = foldName f'.name → f = f'

instance : DecidableRel Compatible := fun fields fields' =>
  inferInstanceAs (Decidable
    (∀ f ∈ fields, ∀ f' ∈ fields', foldName f.name = foldName f'.name → f = f'))

theorem mem_of_field? {k : String} (h : fields.field? k = some f) :
    f ∈ fields ∧ foldName f.name = foldName k := by
  rcases (orElse_eq_some _ _ _).mp h with h | ⟨-, h⟩
  · have hname : f.name = k := by simpa using List.find?_some h
    exact ⟨mem_of_find?_eq_some h, by rw [hname]⟩
  · exact ⟨mem_of_find?_eq_some h, by simpa using List.find?_some h⟩

theorem field?_eq_some_iff (hd : Distinct fields) {k : String} :
    fields.field? k = some f ↔ f ∈ fields ∧ foldName f.name = foldName k := by
  refine ⟨mem_of_field?, fun ⟨hf, hname⟩ => ?_⟩
  -- some field answers to the key, and no other than `f`
  cases hk : fields.field? k with
  | none =>
    have hnone := ((orElse_eq_none _ _).mp hk).2
    rw [List.find?_eq_none] at hnone
    exact absurd (by simpa using hname) (hnone f hf)
  | some g =>
    obtain ⟨hg, hname'⟩ := mem_of_field? hk
    rw [inj_on_of_nodup_map hd hg hf (hname'.trans hname.symm)]

/-- What a decoder that refuses unknown fields took for `big`, one that passes over them takes for
`small`. -/
theorem skim_of_readMembers {small big : Layout} (hsmall : Distinct small)
    (hc : Compatible small big) {ms : List (String × JsonText N.Literal)} {s' t : Field → Slot}
    (h : readMembers N big s ms = some t) (hs : ∀ f ∈ small, s' f = s f) :
    ∃ t', readMembers N small s' (ms.filter fun e => (small.field? e.1).isSome) = some t' ∧
      ∀ f ∈ small, t' f = t f := by
  induction ms generalizing s s' with
  | nil =>
    cases h
    exact ⟨s', rfl, hs⟩
  | cons e ms ih =>
    obtain ⟨k, d⟩ := e
    simp only [readMembers] at h
    split at h
    · cases h
    · next g hg =>
      obtain ⟨hgmem, hgname⟩ := mem_of_field? hg
      split at h
      · cases h
      · next v hv =>
        by_cases hin : g ∈ small
        · -- both take the member
          have hk : small.field? k = some g := (field?_eq_some_iff hsmall).mpr ⟨hin, hgname⟩
          rw [filter_cons_of_pos (by simp [hk])]
          simp only [readMembers, hk, hs g hin, hv]
          refine ih h fun f hf => ?_
          by_cases hfg : f = g
          · simp [hfg]
          · simpa [hfg] using hs f hf
        · -- only `big` has the field
          have hk : small.field? k = none := by
            cases hk : small.field? k with
            | none => rfl
            | some f =>
              obtain ⟨hf, hname⟩ := mem_of_field? hk
              exact absurd (hc f hf g hgmem (hname.trans hgname.symm) ▸ hf) hin
          rw [filter_cons_of_neg (by simp [hk])]
          refine ih h fun f hf => ?_
          have hfg : f ≠ g := fun he => hin (he ▸ hf)
          simpa [hfg] using hs f hf

theorem skim_of_read {small big : Layout} (hsmall : Distinct small) (hc : Compatible small big)
    {d : JsonText N.Literal} {t : Field → Slot} (h : read N big d = some t) :
    ∃ t', skim N small d = some t' ∧ ∀ f ∈ small, t' f = t f := by
  cases d with
  | null =>
    cases h
    exact ⟨_, rfl, fun _ _ => rfl⟩
  | obj members => exact skim_of_readMembers hsmall hc h fun _ _ => rfl
  | _ => cases h

end Layout

end Infra
