import Mathlib.Logic.Basic

/-!
# Go values as JSON

Documents up to the order of members, and RFC 7386 merge patches on them; `encoding/json` on the
kinds of values that API objects hold, and what a merge patch of an encoded value does to the value
stored before. A field tagged `omitempty` is left out when it is empty, and then a patch leaves it
as it was.
-/

namespace Infra

inductive Json where
  | absent
  | null
  | bool (b : Bool)
  | num (n : Int)
  /-- A number with a fraction, by its bits. -/
  | float (bits : UInt64)
  | str (s : String)
  | arr (items : List Json)
  | obj (members : String → Json)

variable (target : Json) (members : List (String × Json)) (name : String)

namespace Json

def member : Json → String → Json
  | obj members, name => members name
  | _, _ => absent

/--
The document after a merge patch.

A member that the patch does not have stays, one that is `null` in the patch goes, an object is
merged member by member, and anything else replaces what was there.
-/
def merge : Json → Json → Json
  | target, absent => target
  | _, null => absent
  | target, obj patch => obj fun name => merge (target.member name) (patch name)
  | _, patch => patch

def present : Json → Bool
  | absent | null => false
  | _ => true

def object : Json := obj fun name => (members.lookup name).getD absent

@[simp] theorem member_absent : absent.member name = absent := rfl

@[simp] theorem member_null : null.member name = absent := rfl

@[simp] theorem merge_absent : target.merge absent = target := by
  cases target <;> rfl

@[simp] theorem member_merge_object : (target.merge (object members)).member name =
    (target.member name).merge ((members.lookup name).getD absent) := by
  cases target <;> rfl

theorem member_object : (object members).member name = (members.lookup name).getD absent := rfl

@[simp] theorem present_object : (object members).present = true := rfl

theorem present_merge {target patch : Json} (h : patch.present = true) :
    (target.merge patch).present = true := by
  cases patch <;> cases target <;> first | rfl | cases h

end Json

/-- The laws are proved by default for a struct, whose document has a member for each field. -/
class GoJson (α : Type) where
  enc : α → Json
  /-- Decoding; a missing or `null` document gives the zero value. -/
  dec : Json → α
  /-- The test of `omitempty`. -/
  isEmpty : α → Bool := fun _ => false
  /-- The value after a merge patch that has the second one's encoding. -/
  patch : α → α → α
  present_enc : ∀ a, (enc a).present = true := by exact fun _ => rfl
  dec_enc : ∀ a, dec (enc a) = a := by simp [Infra.Json.member_object, List.lookup_cons]
  dec_null : dec .null = dec .absent := by rfl
  dec_merge : ∀ j a, dec (j.merge (enc a)) = patch (dec j) a := by simp [List.lookup_cons]
  patch_zero : ∀ a, patch (dec .absent) a = a := by simp
  eq_zero_of_isEmpty : ∀ a, isEmpty a = true → a = dec .absent := by
    intro _ h
    cases h

namespace GoJson

attribute [simp] dec_enc dec_merge patch_zero

variable {α : Type} [GoJson α]

/-! ## Fields tagged `omitempty` -/

def encOmit (a : α) : Json :=
  if isEmpty a then .absent else enc a

def patchOmit (old new : α) : α :=
  if isEmpty new then old else patch old new

@[simp] theorem dec_encOmit (a : α) : dec (encOmit a) = a := by
  unfold encOmit
  split
  · next h => exact (eq_zero_of_isEmpty a h).symm
  · exact dec_enc a

@[simp] theorem dec_merge_omit (j : Json) (a : α) :
    dec (j.merge (encOmit a)) = patchOmit (dec j) a := by
  unfold encOmit patchOmit
  split
  · rw [Json.merge_absent]
  · exact dec_merge j a

@[simp] theorem patchOmit_zero (a : α) : patchOmit (dec .absent) a = a := by
  unfold patchOmit
  split
  · next h => exact (eq_zero_of_isEmpty a h).symm
  · exact patch_zero a

/-! ## Pointers, tagged `omitempty` -/

def encPtr : Option α → Json
  | none => .absent
  | some a => enc a

def decPtr (j : Json) : Option α :=
  if j.present then some (dec j) else none

def patchPtr : Option α → Option α → Option α
  | old, none => old
  | none, some new => some new
  | some old, some new => some (patch old new)

@[simp] theorem decPtr_encPtr (p : Option α) : decPtr (encPtr p) = p := by
  cases p with
  | none => rfl
  | some a => simp [decPtr, encPtr, present_enc, dec_enc]

@[simp] theorem patchPtr_zero (p : Option α) : patchPtr (decPtr .absent) p = p := by
  cases p <;> rfl

@[simp] theorem decPtr_merge (j : Json) (p : Option α) :
    decPtr (j.merge (encPtr p)) = patchPtr (decPtr j) p := by
  cases p with
  | none =>
    rw [encPtr, Json.merge_absent]
    cases (decPtr j : Option α) <;> rfl
  | some a =>
    have hmerged : (j.merge (enc a)).present = true := Json.present_merge (present_enc a)
    have hdec : decPtr (j.merge (encPtr (some a))) = some (patch (dec j) a) := by
      rw [encPtr, decPtr, if_pos hmerged, dec_merge]
    rw [hdec]
    by_cases hj : j.present = true
    · simp [decPtr, hj, patchPtr]
    · -- nothing was there: the zero value is patched
      have hzero : dec j = (dec .absent : α) := by
        cases j <;> first | rfl | exact dec_null | simp [Json.present] at hj
      simp [decPtr, hj, patchPtr, hzero, patch_zero]

end GoJson

/-! ## Values that are replaced as a whole -/

class GoAtom (α : Type) extends GoJson α where
  patch_eq : ∀ old new, patch old new = new

namespace GoJson

variable {α : Type}

def Cleared [GoJson α] (old new : α) : Prop :=
  isEmpty new = true → isEmpty old = true

theorem patchOmit_eq_iff [GoAtom α] (old new : α) : patchOmit old new = new ↔ Cleared old new := by
  unfold patchOmit Cleared
  split
  · next h =>
    constructor
    · rintro rfl _
      exact h
    · intro hold
      rw [eq_zero_of_isEmpty new h, eq_zero_of_isEmpty old (hold h)]
  · next h => simp [GoAtom.patch_eq, h]

theorem patch_eq_self [GoAtom α] (old new : α) : patch old new = new := GoAtom.patch_eq old new

theorem patchPtr_eq_iff [GoJson α] (old new : Option α) : patchPtr old new = new ↔
      (new = none → old = none) ∧ ∀ o n, old = some o → new = some n → patch o n = n := by
  cases old <;> cases new <;> simp [patchPtr]

end GoJson

open GoJson

@[reducible] def GoAtom.ofReplacing {α : Type} (enc : α → Json) (dec : Json → α)
    (isEmpty : α → Bool) (dec_enc : ∀ a, dec (enc a) = a)
    (present : ∀ a, (enc a).present = true) (replaces : ∀ (j : Json) a, j.merge (enc a) = enc a)
    (dec_null : dec .null = dec .absent)
    (eq_zero : ∀ a, isEmpty a = true → a = dec .absent) : GoAtom α where
  enc := enc
  dec := dec
  isEmpty := isEmpty
  patch _ new := new
  present_enc := present
  dec_enc := dec_enc
  dec_null := dec_null
  dec_merge j a := by rw [replaces, dec_enc]
  patch_zero _ := rfl
  eq_zero_of_isEmpty := eq_zero
  patch_eq _ _ := rfl

instance : GoAtom String :=
  .ofReplacing .str (fun | .str s => s | _ => "") (· == "") (fun _ => rfl) (fun _ => rfl)
    (fun j _ => by cases j <;> rfl) rfl fun s h => by simpa using h

instance : GoAtom Bool :=
  .ofReplacing .bool (fun | .bool b => b | _ => false) (!·) (fun _ => rfl) (fun _ => rfl)
    (fun j _ => by cases j <;> rfl) rfl fun b h => by simpa using h

instance : GoAtom Int :=
  .ofReplacing .num (fun | .num n => n | _ => 0) (· == 0) (fun _ => rfl) (fun _ => rfl)
    (fun j _ => by cases j <;> rfl) rfl fun n h => by simpa using h

instance : GoAtom UInt16 :=
  .ofReplacing (fun n => .num n.toNat) (fun | .num n => .ofNat n.toNat | _ => 0) (· == 0)
    (fun n => by simp) (fun _ => rfl) (fun j _ => by cases j <;> rfl) rfl
    fun n h => by simpa using h

instance : GoAtom UInt32 :=
  .ofReplacing (fun n => .num n.toNat) (fun | .num n => .ofNat n.toNat | _ => 0) (· == 0)
    (fun n => by simp) (fun _ => rfl) (fun j _ => by cases j <;> rfl) rfl
    fun n h => by simpa using h

instance : GoAtom UInt64 :=
  .ofReplacing (fun n => .num n.toNat) (fun | .num n => .ofNat n.toNat | _ => 0) (· == 0)
    (fun n => by simp) (fun _ => rfl) (fun j _ => by cases j <;> rfl) rfl
    fun n h => by simpa using h

/-- `float64`, by its bits. Values that JSON cannot express are not encoded at all, so a patch with
one is never sent. -/
structure Float64 where
  bits : UInt64
  deriving DecidableEq

instance : GoAtom Float64 :=
  .ofReplacing (fun x => .float x.bits) (fun | .float bits => ⟨bits⟩ | _ => ⟨0⟩) (·.bits == 0)
    (fun _ => rfl) (fun _ => rfl) (fun j _ => by cases j <;> rfl) rfl fun x h => by
      cases x
      simpa using h

/-- `time.Time`, by its instant; the zero time is 0. `omitempty` has no effect on it: Go never
takes a struct for empty. -/
structure Time where
  instant : Int
  deriving DecidableEq

instance : GoAtom Time :=
  .ofReplacing (fun t => .num t.instant) (fun | .num n => ⟨n⟩ | _ => ⟨0⟩) (fun _ => false)
    (fun _ => rfl) (fun _ => rfl) (fun j _ => by cases j <;> rfl) rfl nofun

instance {α : Type} [GoJson α] : GoAtom (List α) :=
  .ofReplacing (fun l => .arr (l.map enc)) (fun | .arr items => items.map dec | _ => [])
    List.isEmpty (fun l => by simp [Function.comp_def, dec_enc]) (fun _ => rfl)
    (fun j _ => by cases j <;> rfl) rfl fun l h => by simpa using h

end Infra
