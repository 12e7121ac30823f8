import Mathlib.Logic.Encodable.Basic
import Kairon.Infra.GoText

/-!
# Signed texts

A value is written as a text, and a code computed from the text under a key is appended after a
dot. Who knows the key reads the value back and refuses anything else.
-/

namespace Infra

open GoText

/-- Values as texts without a dot, as JSON in an URL-safe alphabet gives them. -/
structure Codec (α : Type) where
  encode : α → String
  decode : String → Option α
  decode_encode : ∀ a, decode (encode a) = some a
  dot_notMem : ∀ a, '.' ∉ (encode a).toList

namespace Codec

variable {α : Type} (C : Codec α) (mac : String → String)

def sign (a : α) : String := C.encode a ++ "." ++ mac (C.encode a)

def verify (text : String) : Option α :=
  match cut text '.' with
  | none => none
  | some (body, code) => if code = mac body then C.decode body else none

theorem verify_sign (a : α) : C.verify mac (C.sign mac a) = some a := by
  have hcut : cut (C.sign mac a) '.' = some (C.encode a, mac (C.encode a)) :=
    cut_of_toList (by simp [sign]) (C.dot_notMem a)
  rw [verify, hcut]
  simp only [if_true, C.decode_encode]

theorem eq_of_verify_sign {mac mac' : String → String} {a b : α}
    (h : C.verify mac (C.sign mac' a) = some b) : b = a := by
  have hcut : cut (C.sign mac' a) '.' = some (C.encode a, mac' (C.encode a)) :=
    cut_of_toList (by simp [sign]) (C.dot_notMem a)
  rw [verify, hcut] at h
  simp only [C.decode_encode] at h
  split at h
  · exact (Option.some.inj h).symm
  · cases h

/-- Every countable type has a codec: a value is as many strokes as its number. -/
def unary (α : Type) [Encodable α] : Codec α where
  encode a := String.ofList (List.replicate (Encodable.encode a) '|')
  decode text := Encodable.decode text.toList.length
  decode_encode a := by simp
  dot_notMem a := by simp [List.mem_replicate]

end Codec

end Infra
