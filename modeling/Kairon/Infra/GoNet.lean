import Kairon.Infra.GoText

/-!
# Addresses as the Go standard library treats them

`net.SplitHostPort`, `net.ParseIP` and `IPNet.Contains`. An address is its sixteen bytes, an IPv4
address the mapped one, as `net.ParseIP` returns it.
-/

namespace Infra.GoNet

open Infra.GoText

/-! ## Host and port -/

def cutLast (l : List Char) (sep : Char) : Option (List Char × List Char) :=
  match l.reverse.span (· ≠ sep) with
  | (after, _ :: before) => some (before.reverse, after.reverse)
  | (_, []) => none

def addrErr (addr why : String) : String :=
  if addr = "" then why else "address " ++ addr ++ ": " ++ why

def splitHostPort (hostport : String) : Except String (String × String) :=
  let fail (why : String) : Except String (String × String) := .error (addrErr hostport why)
  match cutLast hostport.toList ':' with
  | none => fail "missing port in address"
  | some (front, port) =>
    if hostport.toList.head? = some '[' then
      match hostport.toList.span (· ≠ ']') with
      | (_, []) => fail "missing ']' in address"
      | (inside, _ :: rest) =>
        if rest = [] then fail "missing port in address"
        -- the bracket ends just before the last colon
        else if inside.length + 1 = front.length then
          if '[' ∈ hostport.toList.drop 1 then fail "unexpected '[' in address"
          else if ']' ∈ rest then fail "unexpected ']' in address"
          else .ok (String.ofList (inside.drop 1), String.ofList port)
        else if rest.head? = some ':' then fail "too many colons in address"
        else fail "missing port in address"
    else if ':' ∈ front then fail "too many colons in address"
    else if '[' ∈ hostport.toList then fail "unexpected '[' in address"
    else if ']' ∈ hostport.toList then fail "unexpected ']' in address"
    else .ok (String.ofList front, String.ofList port)

theorem cutLast_append {before after : List Char} {sep : Char} (h : sep ∉ after) :
    cutLast (before ++ sep :: after) sep = some (before, after) := by
  have hall : ∀ c ∈ after.reverse, decide (c ≠ sep) = true := by
    intro c hc
    refine decide_eq_true ?_
    rintro rfl
    exact h (List.mem_reverse.mp hc)
  have hrev : (before ++ sep :: after).reverse = after.reverse ++ sep :: before.reverse := by simp
  unfold cutLast
  rw [hrev, List.span_eq_takeWhile_dropWhile, List.takeWhile_append_of_pos hall,
    List.dropWhile_append_of_pos hall]
  simp

def Plain (host : String) : Prop :=
  ':' ∉ host.toList ∧ '[' ∉ host.toList ∧ ']' ∉ host.toList

instance (host : String) : Decidable (Plain host) := by
  unfold Plain
  infer_instance

/-- What is read back from `host:port` is the host itself, only for a plain host. -/
theorem splitHostPort_eq_host_iff {host port : String} (hport : Plain port) :
    (∃ p, splitHostPort (host ++ ":" ++ port) = .ok (host, p)) ↔ Plain host := by
  have hlist : (host ++ ":" ++ port).toList = host.toList ++ ':' :: port.toList := by simp
  have hcut : cutLast (host ++ ":" ++ port).toList ':' = some (host.toList, port.toList) := by
    rw [hlist, cutLast_append hport.1]
  have hfront : ∀ c ≠ ':', c ∉ port.toList →
      (c ∈ (host ++ ":" ++ port).toList ↔ c ∈ host.toList) := by
    intro c hne hc
    rw [hlist]
    simp [hne, hc]
  simp only [splitHostPort, hcut]
  by_cases hhead : (host ++ ":" ++ port).toList.head? = some '['
  · -- what is inside the brackets is shorter than the host
    have hopen : '[' ∈ host.toList := by
      rw [hlist] at hhead
      cases hh : host.toList with
      | nil => simp [hh] at hhead
      | cons c rest => simp_all
    refine ⟨fun h => ?_, fun h => absurd hopen h.2.1⟩
    obtain ⟨p, h⟩ := h
    rw [if_pos hhead] at h
    split at h
    · cases h
    · next inside c rest hspan =>
      split at h
      · cases h
      split at h
      · next hlen =>
        split at h
        · cases h
        split at h
        · cases h
        · simp only [Except.ok.injEq, Prod.mk.injEq] at h
          have := congrArg (fun s => s.toList.length) h.1
          simp at this
          omega
      · split at h <;> cases h
  · rw [if_neg hhead]
    simp only [hfront '[' (by decide) hport.2.1, hfront ']' (by decide) hport.2.2, Plain]
    split
    · next hcolon => simp [hcolon]
    · next hcolon =>
      split
      · next hopen => simp [hopen]
      · next hopen =>
        split
        · next hclose => simp [hclose]
        · next hclose => simp [hcolon, hopen, hclose]

/-! ## Addresses -/

def hexValue (c : Char) : Option Nat :=
  if c.isDigit then some (c.toNat - 48)
  else if 'a' ≤ c ∧ c ≤ 'f' then some (c.toNat - 87)
  else if 'A' ≤ c ∧ c ≤ 'F' then some (c.toNat - 55)
  else none

def isHexDigit (c : Char) : Bool := (hexValue c).isSome

def parseOctet (l : List Char) : Option Nat :=
  if l = [] ∨ ¬l.all Char.isDigit ∨ (1 < l.length ∧ l.head? = some '0') ∨ 3 < l.length then none
  else
    let n := l.foldl (fun n d => 10 * n + (d.toNat - 48)) 0
    if n ≤ 255 then some n else none

def parseIPv4 (l : List Char) : Option (List Nat) :=
  match l.splitOn '.' with
  | [a, b, c, d] => [a, b, c, d].mapM parseOctet
  | _ => none

def groupBytes (digits : List Char) : List Nat :=
  let n := digits.foldl (fun n d => 16 * n + (hexValue d).getD 0) 0
  [n / 256, n % 256]

/-- The loop of `parseIPv6`: what is left of the text, the bytes read, and where `::` stood. There
is room for `n` more groups. -/
def parseGroups : (n : Nat) → (l : List Char) → (bytes : List Nat) → (ellipsis : Option Nat) →
    Option (List Char × List Nat × Option Nat)
  | 0, l, bytes, ellipsis => some (l, bytes, ellipsis)
  | n + 1, l, bytes, ellipsis =>
    let digits := l.takeWhile isHexDigit
    if digits = [] ∨ 4 < digits.length then none
    else
      let bytes' := bytes ++ groupBytes digits
      match l.dropWhile isHexDigit with
      | [] => some ([], bytes', ellipsis)
      | '.' :: _ =>
        if (ellipsis = none ∧ bytes.length ≠ 12) ∨ 16 < bytes.length + 4 then none
        else (parseIPv4 l).map fun ip => ([], bytes ++ ip, ellipsis)
      | [':'] => none
      | [':', ':'] => if ellipsis.isSome then none else some ([], bytes', some bytes'.length)
      | ':' :: ':' :: rest =>
        if ellipsis.isSome then none else parseGroups n rest bytes' (some bytes'.length)
      | ':' :: rest => parseGroups n rest bytes' ellipsis
      | _ => none

def expandEllipsis : List Char × List Nat × Option Nat → Option (List Nat)
  | ([], bytes, some at_) =>
    if bytes.length < 16 then
      some (bytes.take at_ ++ List.replicate (16 - bytes.length) 0 ++ bytes.drop at_)
    else none
  | ([], bytes, none) => if bytes.length < 16 then none else some bytes
  | (_ :: _, _, _) => none

def parseIPv6 : List Char → Option (List Nat)
  | [':', ':'] => some (List.replicate 16 0)
  | ':' :: ':' :: rest => (parseGroups 8 rest [] (some 0)).bind expandEllipsis
  | l => (parseGroups 8 l [] none).bind expandEllipsis

/-- `net.ParseIP`. Whether it is an IPv4 or an IPv6 address, the first dot or colon decides; an
address with a zone is none. -/
def parseIP (s : String) : Option (List Nat) :=
  match s.toList.find? (fun c => c = '.' ∨ c = ':' ∨ c = '%') with
  | some '.' => (parseIPv4 s.toList).map (List.replicate 10 0 ++ [255, 255] ++ ·)
  | some ':' => if '%' ∈ s.toList then none else parseIPv6 s.toList
  | _ => none

structure IPNet where
  ip : List Nat
  mask : List Nat

def shortest (ip : List Nat) : List Nat :=
  if ip.length = 16 ∧ ip.take 12 = List.replicate 10 0 ++ [255, 255] then ip.drop 12 else ip

/-- The network with its own address shortened too, and the mask cut to it; nothing for lengths that
do not fit. -/
def networkNumberAndMask (n : IPNet) : List Nat × List Nat :=
  let ip := shortest n.ip
  match ip.length, n.mask.length with
  | 4, 4 | 16, 16 => (ip, n.mask)
  | 4, 16 => (ip, n.mask.drop 12)
  | _, _ => ([], [])

def IPNet.contains (n : IPNet) (ip : List Nat) : Bool :=
  let (nn, m) := networkNumberAndMask n
  let ip := shortest ip
  ip.length = nn.length && List.zipWith (· &&& ·) nn m == List.zipWith (· &&& ·) ip m

example : parseIP "10.0.0.7" = some (List.replicate 10 0 ++ [255, 255, 10, 0, 0, 7]) := by decide
example : parseIP "fd00::1" = some ([0xfd] ++ List.replicate 14 0 ++ [1]) := by decide
example : parseIP "node-7.example" = none := by decide

/-- `::ffff:10.0.0.0/104` contains `10.1.2.3`. -/
example : (parseIP "10.1.2.3").any (IPNet.contains ⟨List.replicate 10 0 ++ [255, 255, 10, 0, 0, 0],
    List.replicate 13 255 ++ [0, 0, 0]⟩) = true := by decide

end Infra.GoNet
