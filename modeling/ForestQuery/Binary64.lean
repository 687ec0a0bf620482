import ForestQuery.Text.Digits
/-!
Double-precision numbers as their bits. Every finite one is a whole multiple of `2 ^ (-1074)`, so
comparing, and comparing with integers, is exact integer arithmetic.
-/

namespace ForestQuery

/-- A double-precision number, held as its 64 bits. -/
structure Binary64 where
  bits : UInt64
deriving DecidableEq, Inhabited

namespace Binary64

/-- The bit of the sign: two to the 63rd power. -/
def signBit : Nat := 9223372036854775808

def isNegative (x : Binary64) : Bool := signBit ≤ x.bits.toNat

/-- The leading bit of the significand of a normal number: two to the 52nd power. It is not stored. -/
def hiddenBit : Nat := 4503599627370496

def exponentField (x : Binary64) : Nat := x.bits.toNat / hiddenBit % 2048

def fractionField (x : Binary64) : Nat := x.bits.toNat % hiddenBit

def isFinite (x : Binary64) : Bool := x.exponentField < 2047

def isNaN (x : Binary64) : Bool := !x.isFinite && x.fractionField != 0

/-- The whole number that the power of two is multiplied with: the fraction, behind the implicit bit
of a normal number. -/
def significand (x : Binary64) : Nat :=
  if x.exponentField = 0 then x.fractionField else hiddenBit + x.fractionField

/-- The power of two by which the significand is shifted, counted from `2 ^ (-1074)`. -/
def scale (x : Binary64) : Nat := x.exponentField - 1

/-- How many units of `2 ^ (-1074)` the magnitude has. -/
def magnitude (x : Binary64) : Nat := x.significand <<< x.scale

/-- How many units of `2 ^ (-1074)` an integer of magnitude one has. -/
def unit : Nat := 1 <<< 1074

/-- The number in units of `2 ^ (-1074)`. An infinity lies beyond every finite number. -/
def units (x : Binary64) : Int := if x.isNegative then -(x.magnitude : Int) else x.magnitude

/-- The numeric order; the two zeros are equal. -/
def compareNumeric (x y : Binary64) : Ordering := compare x.units y.units

/-- The numeric order between an integer and a double. -/
def compareInt (i : Int) (y : Binary64) : Ordering := compare (i * unit) y.units

/-- The integer that the number is, if it is one. -/
def toInt? (x : Binary64) : Option Int :=
  if x.isFinite && x.magnitude % unit == 0 then
    some (if x.isNegative then -((x.magnitude / unit : Nat) : Int) else (x.magnitude / unit : Nat))
  else none

/-- The integer that is left without the fraction. -/
def truncated (x : Binary64) : Int :=
  if x.isNegative then -((x.magnitude / unit : Nat) : Int) else (x.magnitude / unit : Nat)

/-- The number with the opposite sign. -/
def neg (x : Binary64) : Binary64 :=
  ⟨UInt64.ofNat (if x.isNegative then x.bits.toNat - signBit else x.bits.toNat + signBit)⟩

/-- The bits as 16 lower-case hexadecimal digits. -/
def hex (x : Binary64) : String :=
  String.ofList (Text.padLeft 16 '0' (Nat.toDigits 16 x.bits.toNat))

end Binary64

end ForestQuery
