import Mathlib.Data.List.Basic

/-!
# SHA-256

The digest of FIPS 180-4, so that it can be evaluated. Nothing but its length is proved about it:
that it has no collisions is an assumption of the results that need it.
-/

namespace Infra.Sha256

def rotr (x : UInt32) (n : UInt32) : UInt32 := (x >>> n) ||| (x <<< (32 - n))

def roundConstants : List UInt32 :=
  [0x428a2f98, 0x71374491, 0xb5c0fbcf, 0xe9b5dba5, 0x3956c25b, 0x59f111f1, 0x923f82a4, 0xab1c5ed5,
   0xd807aa98, 0x12835b01, 0x243185be, 0x550c7dc3, 0x72be5d74, 0x80deb1fe, 0x9bdc06a7, 0xc19bf174,
   0xe49b69c1, 0xefbe4786, 0x0fc19dc6, 0x240ca1cc, 0x2de92c6f, 0x4a7484aa, 0x5cb0a9dc, 0x76f988da,
   0x983e5152, 0xa831c66d, 0xb00327c8, 0xbf597fc7, 0xc6e00bf3, 0xd5a79147, 0x06ca6351, 0x14292967,
   0x27b70a85, 0x2e1b2138, 0x4d2c6dfc, 0x53380d13, 0x650a7354, 0x766a0abb, 0x81c2c92e, 0x92722c85,
   0xa2bfe8a1, 0xa81a664b, 0xc24b8b70, 0xc76c51a3, 0xd192e819, 0xd6990624, 0xf40e3585, 0x106aa070,
   0x19a4c116, 0x1e376c08, 0x2748774c, 0x34b0bcb5, 0x391c0cb3, 0x4ed8aa4a, 0x5b9cca4f, 0x682e6ff3,
   0x748f82ee, 0x78a5636f, 0x84c87814, 0x8cc70208, 0x90befffa, 0xa4506ceb, 0xbef9a3f7, 0xc67178f2]

structure Digest where
  a : UInt32
  b : UInt32
  c : UInt32
  d : UInt32
  e : UInt32
  f : UInt32
  g : UInt32
  h : UInt32

def initial : Digest :=
  ⟨0x6a09e667, 0xbb67ae85, 0x3c6ef372, 0xa54ff53a, 0x510e527f, 0x9b05688c, 0x1f83d9ab, 0x5be0cd19⟩

/-- The words of the rounds: sixteen are those of the block, and each later one is made of the
sixteen before it. -/
def schedule : Nat → List UInt32 → List UInt32
  | 0, _ => []
  | n + 1, w =>
    let w1 := w.getD 1 0
    let w14 := w.getD 14 0
    let s0 := rotr w1 7 ^^^ rotr w1 18 ^^^ (w1 >>> 3)
    let s1 := rotr w14 17 ^^^ rotr w14 19 ^^^ (w14 >>> 10)
    w.getD 0 0 :: schedule n (w.drop 1 ++ [s1 + w.getD 9 0 + s0 + w.getD 0 0])

def round (s : Digest) (kw : UInt32 × UInt32) : Digest :=
  let t1 := s.h + (rotr s.e 6 ^^^ rotr s.e 11 ^^^ rotr s.e 25) +
    ((s.e &&& s.f) ^^^ (~~~s.e &&& s.g)) + kw.1 + kw.2
  let t2 := (rotr s.a 2 ^^^ rotr s.a 13 ^^^ rotr s.a 22) +
    ((s.a &&& s.b) ^^^ (s.a &&& s.c) ^^^ (s.b &&& s.c))
  ⟨t1 + t2, s.a, s.b, s.c, s.d + t1, s.e, s.f, s.g⟩

def block (s : Digest) (w : List UInt32) : Digest :=
  let r := (roundConstants.zip (schedule 64 w)).foldl round s
  ⟨s.a + r.a, s.b + r.b, s.c + r.c, s.d + r.d, s.e + r.e, s.f + r.f, s.g + r.g, s.h + r.h⟩

def bigEndian (n : Nat) (x : Nat) : List UInt8 :=
  (List.range n).map fun i => UInt8.ofNat (x >>> (8 * (n - 1 - i)))

def pad (m : List UInt8) : List UInt8 :=
  m ++ 0x80 :: List.replicate ((119 - m.length % 64) % 64) 0 ++ bigEndian 8 (8 * m.length)

def words : List UInt8 → List UInt32
  | a :: b :: c :: d :: bs =>
    (a.toUInt32 <<< 24 ||| b.toUInt32 <<< 16 ||| c.toUInt32 <<< 8 ||| d.toUInt32) :: words bs
  | _ => []

def blocks (n : Nat) (s : Digest) (w : List UInt32) : Digest :=
  match n with
  | 0 => s
  | n + 1 => blocks n (block s (w.take 16)) (w.drop 16)

def sum256 (m : List UInt8) : List UInt8 :=
  let w := words (pad m)
  let s := blocks (w.length / 16) initial w
  [s.a, s.b, s.c, s.d, s.e, s.f, s.g, s.h].flatMap fun x => bigEndian 4 x.toNat

theorem length_sum256 (m : List UInt8) : (sum256 m).length = 32 := by
  simp [sum256, bigEndian]

example : (sum256 [97, 98, 99]).take 4 = [0xba, 0x78, 0x16, 0xbf] := by decide +kernel

-- No proof is to compute a digest by unfolding.
attribute [irreducible] sum256

end Infra.Sha256
