import ForestQuery.Binary64
/-!
Rounding a quotient to a whole number, and to the nearest double, in exact arithmetic. Main
statement: a rounded quotient is off by half a unit at most.
-/

namespace ForestQuery

/-- What becomes of a number that lies halfway between two. -/
inductive Tie where
  | toEven
  | up
deriving DecidableEq

/-- The whole number nearest to `num / den`. -/
def Tie.roundQuotient (tie : Tie) (num den : Nat) : Nat :=
  let below := num / den
  match compare (2 * (num % den)) den, tie with
  | .lt, _ => below
  | .gt, _ => below + 1
  | .eq, .up => below + 1
  | .eq, .toEven => if below % 2 = 0 then below else below + 1

theorem Tie.two_mul_le_roundQuotient (tie : Tie) {num den : Nat} (positive : 0 < den) :
    2 * num ≤ 2 * (tie.roundQuotient num den * den) + den ∧
      2 * (tie.roundQuotient num den * den) ≤ 2 * num + den := by
  have split := Nat.div_add_mod num den
  have small := Nat.mod_lt num positive
  rw [Nat.mul_comm] at split
  have next : (num / den + 1) * den = num / den * den + den := Nat.succ_mul _ _
  unfold Tie.roundQuotient
  cases h : compare (2 * (num % den)) den <;> cases tie <;>
    simp only [Nat.compare_eq_lt, Nat.compare_eq_eq, Nat.compare_eq_gt] at h ⊢
  case eq.toEven => split <;> omega
  all_goals omega

namespace Binary64

/-- The bits of the positive infinity. -/
def infinityBits : Nat := 9218868437227405312

/-- The bits of the double nearest to `num / den`, ties to even. Behind the first 53 binary digits
the quotient is cut; a carry out of the significand steps into the next exponent, and the last such
step into infinity. -/
def nearestBits (num den : Nat) : Nat :=
  let scaled := num <<< 1074
  let scale := (scaled / den).log2 - 52
  min infinityBits (scale * hiddenBit + Tie.toEven.roundQuotient scaled (den <<< scale))

/-- The number of a sign and the bits of its magnitude. -/
def ofMagnitude (negative : Bool) (bits : Nat) : Binary64 :=
  ⟨UInt64.ofNat (if negative then signBit + bits else bits)⟩

/-- The double nearest to `num / den` with a sign; a quotient that is too small is a zero of that
sign, one that is too large an infinity. -/
def ofRatio (negative : Bool) (num den : Nat) : Binary64 := ofMagnitude negative (nearestBits num den)

/-- The nearest double to an integer, ties to even. -/
def ofInt (i : Int) : Binary64 := ofRatio (i < 0) i.natAbs 1

/-- The double nearest to a sum with an integer, ties to even. -/
def addInt (x : Binary64) (i : Int) : Binary64 :=
  let sum := x.units + i * unit
  ofRatio (sum < 0) sum.natAbs unit

end Binary64

end ForestQuery
