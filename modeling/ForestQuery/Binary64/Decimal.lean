import ForestQuery.Binary64.Nearest
import ForestQuery.Binary64.Shortest
/-!
The double nearest to a decimal. Exponents far outside the range of doubles are answered without
computing the power of ten.
-/

namespace ForestQuery.Binary64

/-- Decimals whose leading digit has at least this exponent exceed every double, and those whose
leading digit has at most its negative are nearer to zero than to any other double. -/
def overflowExponent : Int := 400

/-- The double nearest to `digits * 10 ^ exponent`, with the sign given. -/
def ofDecimal (negative : Bool) (digits : Nat) (exponent : Int) : Binary64 :=
  let lead := (Decimal.mk digits exponent).leading
  if digits = 0 ∨ lead ≤ -overflowExponent then ofMagnitude negative 0
  else if overflowExponent ≤ lead then ofMagnitude negative infinityBits
  else if 0 ≤ exponent then ofRatio negative (digits * Nat.pow 10 exponent.toNat) 1
  else ofRatio negative digits (Nat.pow 10 (-exponent).toNat)

end ForestQuery.Binary64
