/-!
Decimal and hexadecimal digits: padded decimal texts, reading of bounded integers, the hexadecimal
text of bytes, and the complement that reverses the order of hexadecimal texts.
-/

namespace ForestQuery.Text

/-- The decimal digits of a number, without leading zeros. -/
def decimalDigits (n : Nat) : List Char := Nat.toDigits 10 n

def padLeft (width : Nat) (fill : Char) (cs : List Char) : List Char :=
  List.replicate (width - cs.length) fill ++ cs

def padRight (width : Nat) (fill : Char) (cs : List Char) : List Char :=
  cs ++ List.replicate (width - cs.length) fill

/-- The decimal digits of a number behind as many zeros as `width` asks for; a number of more digits
keeps them all. -/
def zeroPadded (width n : Nat) : List Char := padLeft width '0' (decimalDigits n)

/-- The decimal text of an integer. -/
def integerChars : Int → List Char
  | .ofNat n => decimalDigits n
  | .negSucc n => '-' :: decimalDigits (n + 1)

def digitValue? (c : Char) : Option Nat :=
  if '0' ≤ c ∧ c ≤ '9' then some (c.toNat - '0'.toNat) else none

/-- The number that one or more decimal digits denote. -/
def natOfDigits? : List Char → Option Nat
  | [] => none
  | c :: cs => (c :: cs).foldlM (fun n d => (digitValue? d).map (n * 10 + ·)) 0

/-- An unsigned number below `bound`, behind an optional plus sign. -/
def unsigned? (bound : Nat) (cs : List Char) : Option Nat :=
  let digits := match cs with
    | '+' :: r => r
    | _ => cs
  (natOfDigits? digits).filter (· < bound)

/-- The integer of 64 bits with this value, if there is one. -/
def int64? (i : Int) : Option Int64 :=
  if Int64.minValue.toInt ≤ i ∧ i ≤ Int64.maxValue.toInt then some (Int64.ofInt i) else none

/-- An integer of 64 bits, behind an optional sign. -/
def signed64? : List Char → Option Int64
  | '-' :: r => (natOfDigits? r).bind fun n => int64? (-(n : Int))
  | '+' :: r => (natOfDigits? r).bind fun n => int64? n
  | cs => (natOfDigits? cs).bind fun n => int64? n

def hexValue? (c : Char) : Option Nat :=
  if '0' ≤ c ∧ c ≤ '9' then some (c.toNat - '0'.toNat)
  else if 'a' ≤ c ∧ c ≤ 'f' then some (c.toNat - 'a'.toNat + 10)
  else if 'A' ≤ c ∧ c ≤ 'F' then some (c.toNat - 'A'.toNat + 10)
  else none

def upperHexDigit (d : Nat) : Char :=
  if d < 10 then Char.ofNat ('0'.toNat + d) else Char.ofNat ('A'.toNat + (d - 10))

def lowerHexDigit (d : Nat) : Char :=
  if d < 10 then Char.ofNat ('0'.toNat + d) else Char.ofNat ('a'.toNat + (d - 10))

/-- Two upper-case hexadecimal digits per byte. -/
def hexOfBytes (bytes : List UInt8) : List Char :=
  bytes.flatMap fun b => [upperHexDigit (b.toNat / 16), upperHexDigit (b.toNat % 16)]

/-- The hexadecimal digit that stands for 15 minus the value of `c`, in upper case; any other
character is kept. -/
def complementHexDigit (c : Char) : Char :=
  match hexValue? c with
  | some d => upperHexDigit (15 - d)
  | none => c

/-- Complements each hexadecimal digit, which reverses the order of upper-case hexadecimal texts of
one length. -/
def complementHex (cs : List Char) : List Char := cs.map complementHexDigit

/-- The bytes of a text in UTF-8. -/
def utf8 (cs : List Char) : List UInt8 := cs.flatMap String.utf8EncodeChar

/-- The order of byte sequences: by the first byte that differs, a proper beginning first. -/
def compareBytes : List UInt8 → List UInt8 → Ordering
  | [], [] => .eq
  | [], _ :: _ => .lt
  | _ :: _, [] => .gt
  | a :: r, b :: s => (compare a b).then (compareBytes r s)

/-- The order of texts by their bytes. -/
def compareText (a b : String) : Ordering := compareBytes (utf8 a.toList) (utf8 b.toList)

theorem length_padLeft (width : Nat) (fill : Char) (cs : List Char) :
    (padLeft width fill cs).length = max width cs.length := by
  simp [padLeft]; omega

theorem length_padRight (width : Nat) (fill : Char) (cs : List Char) :
    (padRight width fill cs).length = max width cs.length := by
  simp [padRight]; omega

theorem length_complementHex (cs : List Char) : (complementHex cs).length = cs.length := by
  simp [complementHex]

theorem length_hexOfBytes (bytes : List UInt8) : (hexOfBytes bytes).length = 2 * bytes.length := by
  induction bytes with
  | nil => rfl
  | cons b r ih =>
    rw [show hexOfBytes (b :: r) = upperHexDigit (b.toNat / 16) :: upperHexDigit (b.toNat % 16) :: hexOfBytes r from rfl]
    simp [ih]; omega

end ForestQuery.Text
