import ForestQuery.Binary64.Decimal
import ForestQuery.Binary64.Extended
/-!
How a store turns decimals into doubles and back: by steps of powers of ten in numbers of 64 binary
digits. A decimal may so become a neighbour of the nearest double, and the digits of a double are
rounded after they were cut.
-/

namespace ForestQuery

namespace Decimal

/-- The largest significand that is read: two to the 64th power less one. -/
def largestSignificand : Nat := 18446744073709551615

/-- Drops digits at the end until all but the last are below a tenth of the largest significand; at
most `fuel` of them. -/
def cut : Nat → Decimal → Decimal
  | 0, d => d
  | fuel + 1, d =>
    if d.digits / 10 < (largestSignificand - 9) / 10 then d else cut fuel ⟨d.digits / 10, d.exponent + 1⟩

/-- Brings the exponent nearer to zero, as far as the significand allows; in at most `fuel` steps. -/
def balance : Nat → Decimal → Decimal
  | 0, d => d
  | fuel + 1, d =>
    if 0 < d.exponent ∧ d.digits < largestSignificand / 10 then
      balance fuel ⟨d.digits * 10, d.exponent - 1⟩
    else if d.exponent < 0 ∧ d.digits % 10 = 0 then balance fuel ⟨d.digits / 10, d.exponent + 1⟩
    else d

/-- The steps that balance a significand of 64 binary digits. -/
def balanceSteps : Nat := 20

end Decimal

namespace Extended

/-- A number times `10 ^ exponent`, by hundreds, tens and ones of the exponent. -/
def scale (x : Extended) (exponent : Int) : Extended :=
  let sign : Int := if exponent < 0 then -1 else 1
  let count := exponent.natAbs
  let x := mulTimes (powerOfTen (sign * 100)) (count / 100) x
  let x := mulTimes (powerOfTen (sign * 10)) (count % 100 / 10) x
  mulTimes (powerOfTen sign) (count % 10) x

/-- Multiplies by `10 ^ step` while `more` holds, at most `fuel` times; the exponent tells by what the
result has to be multiplied again. -/
def scaleWhile (more : Extended → Bool) (step : Int) : Nat → Extended × Int → Extended × Int
  | 0, r => r
  | fuel + 1, (x, exponent) =>
    if more x then scaleWhile more step fuel (x.mul (powerOfTen step), exponent - step) else (x, exponent)

/-- More steps than any double needs. -/
def scaleSteps : Nat := 20

/-- Scales a number to between 17 and 19 digits in front of the point. -/
def normalize (x : Extended) : Extended × Int :=
  let reaches (e : Int) (y : Extended) : Bool := !y.lt (powerOfTen e)
  let lacks (e : Int) (y : Extended) : Bool := y.lt (powerOfTen e)
  if reaches 19 x then
    scaleWhile (reaches 19) (-1) scaleSteps
      (scaleWhile (reaches 29) (-10) scaleSteps (scaleWhile (reaches 119) (-100) scaleSteps (x, 0)))
  else
    scaleWhile (lacks 17) 1 scaleSteps
      (scaleWhile (lacks 7) 10 scaleSteps (scaleWhile (lacks (-97)) 100 scaleSteps (x, 0)))

end Extended

namespace Binary64

/-- The double that a store reads from `digits * 10 ^ exponent`, with the sign given. -/
def ofScaledDecimal (negative : Bool) (digits : Nat) (exponent : Int) : Binary64 :=
  let lead := (Decimal.mk digits exponent).leading
  if digits = 0 ∨ lead ≤ -overflowExponent then ofMagnitude negative 0
  else if overflowExponent ≤ lead then ofMagnitude negative infinityBits
  else
    let d := (Decimal.cut (Text.decimalDigits digits).length ⟨digits, exponent⟩).balance Decimal.balanceSteps
    if d.exponent = 0 then ofRatio negative d.digits 1
    else ofExtended negative ((Extended.ofRatio d.digits 1).scale d.exponent)

/-- The `count` leading digits of a finite double of positive magnitude as a store writes them, at most
16: a half of the digits that are cut is rounded up, and no zeros are left at the end. -/
def scaledDigits (count : Nat) (x : Binary64) : Decimal :=
  let (y, exponent) := x.extended.normalize
  let digits := y.floor
  let extra := (Text.decimalDigits digits).length - count
  let rounded := (digits / Nat.pow 10 (extra - 1) + 5) / 10
  (Decimal.mk rounded (exponent + extra)).strip (count + 1)

end Binary64

end ForestQuery
