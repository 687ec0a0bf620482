import ForestQuery.Binary64.Nearest
/-!
Decimal digits for a double: the fewest that read back.
-/

namespace ForestQuery

/-- The number `digits * 10 ^ exponent`. -/
structure Decimal where
  digits : Nat
  exponent : Int
deriving DecidableEq

namespace Decimal

/-- The exponent of the leading digit in scientific writing. -/
def leading (d : Decimal) : Int := d.exponent + ((Text.decimalDigits d.digits).length - 1 : Nat)

/-- The exponent `e` with `10 ^ e ≤ num / den < 10 ^ (e + 1)`, for positive `num` and `den`. -/
def leadingOfRatio (num den : Nat) : Int :=
  if den ≤ num then ((Text.decimalDigits (num / den)).length - 1 : Nat)
  else -((Text.decimalDigits ((den - 1) / num)).length : Int)

/-- Moves the zeros at the end of the digits into the exponent; at most `fuel` of them. -/
def strip : Nat → Decimal → Decimal
  | 0, d => d
  | fuel + 1, d =>
    if d.digits ≠ 0 ∧ d.digits % 10 = 0 then strip fuel ⟨d.digits / 10, d.exponent + 1⟩ else d

/-- How many steps of `10 ^ k` fit into `num / den`. -/
def stepsBelow (num den : Nat) (k : Int) : Nat :=
  if 0 ≤ k then num / (den * Nat.pow 10 k.toNat) else num * Nat.pow 10 (-k).toNat / den

/-- The order between `steps * 10 ^ k` and `num / den`. -/
def compareSteps (steps : Nat) (k : Int) (num den : Nat) : Ordering :=
  if 0 ≤ k then compare (steps * Nat.pow 10 k.toNat * den) num
  else compare (steps * den) (num * Nat.pow 10 (-k).toNat)

end Decimal

namespace Binary64

/-- The interval of numbers that read back as a double, as numerators over four times the unit:
its ends, and whether they belong to it. -/
structure Neighbourhood where
  low : Nat
  value : Nat
  high : Nat
  closed : Bool

/-- Half the way to each neighbour; the way down is shorter at a power of two. -/
def neighbourhood (x : Binary64) : Neighbourhood :=
  let below := if x.fractionField = 0 ∧ 1 < x.exponentField then 1 else 2
  { low := (4 * x.significand - below) <<< x.scale
    value := (4 * x.significand) <<< x.scale
    high := (4 * x.significand + 2) <<< x.scale
    closed := x.significand % 2 = 0 }

def Neighbourhood.contains (n : Neighbourhood) (steps : Nat) (k : Int) : Bool :=
  let toLow := Decimal.compareSteps steps k n.low (4 * unit)
  let toHigh := Decimal.compareSteps steps k n.high (4 * unit)
  if n.closed then toLow != .lt && toHigh != .gt else toLow == .gt && toHigh == .lt

/-- The point of the grid of step `10 ^ k` next to the value that reads back, the nearer one of two. -/
def Neighbourhood.onGrid? (n : Neighbourhood) (tie : Tie) (k : Int) : Option Decimal :=
  let den := 4 * unit
  let down := Decimal.stepsBelow n.value den k
  let up := down + 1
  match n.contains down k && 0 < down, n.contains up k with
  | true, false => some ⟨down, k⟩
  | false, true => some ⟨up, k⟩
  | true, true =>
    match Decimal.compareSteps (2 * down + 1) k (2 * n.value) den, tie with
    | .gt, _ => some ⟨down, k⟩
    | .lt, _ => some ⟨up, k⟩
    | .eq, .up => some ⟨up, k⟩
    | .eq, .toEven => some (if down % 2 = 0 then ⟨down, k⟩ else ⟨up, k⟩)
  | false, false => none

/-- The decimal of fewest digits that reads back as a finite double of positive magnitude, the nearest
of those. Grids of one to seventeen digits are tried in turn; the last always has a point that reads
back. -/
def shortest (tie : Tie) (x : Binary64) : Decimal :=
  let n := x.neighbourhood
  let lead := Decimal.leadingOfRatio n.value (4 * unit)
  let grids := (List.range 17).map fun (i : Nat) => lead - i
  match grids.findSome? (n.onGrid? tie) with
  | some d => d.strip 400
  | none => ⟨n.value / (4 * unit), 0⟩

end Binary64

end ForestQuery
