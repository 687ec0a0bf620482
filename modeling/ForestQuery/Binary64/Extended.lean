import ForestQuery.Binary64.Nearest
/-!
Positive numbers of 64 binary digits. Each product is rounded to the nearest such number, ties to
even.
-/

namespace ForestQuery

/-- The number `significand * 2 ^ exponent`, whose significand has 64 binary digits. A significand that
was rounded up may be the next power of two. -/
structure Extended where
  significand : Nat
  exponent : Int
deriving DecidableEq

namespace Extended

/-- The exponent of the leading binary digit of a significand. -/
def leading : Nat := 63

/-- The number nearest to `num / den`, both positive. -/
def ofRatio (num den : Nat) : Extended :=
  let shift := leading + 1 + den.log2
  let scaled := num <<< shift
  let drop := (scaled / den).log2 - leading
  ⟨Tie.toEven.roundQuotient scaled (den <<< drop), (drop : Int) - shift⟩

/-- The number nearest to `10 ^ exponent`. -/
def powerOfTen (exponent : Int) : Extended :=
  if 0 ≤ exponent then ofRatio (Nat.pow 10 exponent.toNat) 1 else ofRatio 1 (Nat.pow 10 (-exponent).toNat)

/-- The number nearest to a product. -/
def mul (x y : Extended) : Extended :=
  let product := x.significand * y.significand
  let drop := product.log2 - leading
  ⟨Tie.toEven.roundQuotient product (1 <<< drop), x.exponent + y.exponent + drop⟩

/-- The product with `count` times the same factor, rounded after each. -/
def mulTimes (factor : Extended) : Nat → Extended → Extended
  | 0, x => x
  | count + 1, x => mulTimes factor count (x.mul factor)

def lt (x y : Extended) : Bool :=
  if x.exponent ≤ y.exponent then x.significand < y.significand <<< (y.exponent - x.exponent).toNat
  else x.significand <<< (x.exponent - y.exponent).toNat < y.significand

/-- The largest whole number that is not larger. -/
def floor (x : Extended) : Nat :=
  if 0 ≤ x.exponent then x.significand <<< x.exponent.toNat else x.significand >>> (-x.exponent).toNat

end Extended

namespace Binary64

/-- A finite double of positive magnitude without its sign. -/
def extended (x : Binary64) : Extended := .ofRatio x.magnitude unit

/-- The largest finite double. -/
def largest : Binary64 := ⟨UInt64.ofNat (infinityBits - 1)⟩

/-- The double nearest to a number of 64 binary digits, with a sign. All numbers above the largest
double become infinity. -/
def ofExtended (negative : Bool) (x : Extended) : Binary64 :=
  if largest.extended.lt x then ofMagnitude negative infinityBits
  else if 0 ≤ x.exponent then ofRatio negative (x.significand <<< x.exponent.toNat) 1
  else ofRatio negative x.significand (1 <<< (-x.exponent).toNat)

end Binary64

end ForestQuery
