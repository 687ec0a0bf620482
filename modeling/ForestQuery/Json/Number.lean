import ForestQuery.Binary64.Decimal
import ForestQuery.Json
/-!
What the literal of a JSON number denotes: an integer of 64 bits, or the double nearest to it.
-/

namespace ForestQuery.Json

/-- What a number denotes. -/
inductive Numeric where
  | integer (i : Int)
  | real (x : Binary64)
deriving DecidableEq

/-- The pieces of a number. -/
structure Literal where
  negative : Bool
  whole : List Char
  /-- The digits behind a point. -/
  fraction : List Char
  /-- Sign and digits behind the mark of an exponent. -/
  exponent : Option (Bool × List Char)
deriving DecidableEq

/-- One or more digits, and the rest. -/
def digits? (cs : List Char) : Option (List Char × List Char) :=
  let ds := cs.takeWhile Char.isDigit
  if ds.isEmpty then none else some (ds, cs.dropWhile Char.isDigit)

/-- The digits in front of a point: a single zero, or digits that do not start with one. -/
def whole? (cs : List Char) : Option (List Char × List Char) :=
  match cs with
  | '0' :: r => some (['0'], r)
  | _ => digits? cs

/-- A point and digits, or nothing. -/
def fraction? (cs : List Char) : Option (List Char × List Char) :=
  match cs with
  | '.' :: r => digits? r
  | _ => some ([], cs)

/-- The mark of an exponent, a sign and digits, or nothing. -/
def exponent? (cs : List Char) : Option (Option (Bool × List Char) × List Char) :=
  match cs with
  | c :: r =>
    if c = 'e' ∨ c = 'E' then
      let signed := match r with
        | '-' :: t => (true, t)
        | '+' :: t => (false, t)
        | _ => (false, r)
      (digits? signed.2).map fun p => (some (signed.1, p.1), p.2)
    else some (none, cs)
  | [] => some (none, [])

/-- The number at the start of a text, and the rest. -/
def literal? (cs : List Char) : Option (Literal × List Char) :=
  let (negative, body) := match cs with
    | '-' :: r => (true, r)
    | _ => (false, cs)
  match whole? body with
  | none => none
  | some (whole, rest) =>
    match fraction? rest with
    | none => none
    | some (fraction, rest) =>
      (exponent? rest).map fun p => (⟨negative, whole, fraction, p.1⟩, p.2)

namespace Literal

/-- The exponent that is written. -/
def writtenExponent (l : Literal) : Int :=
  match l.exponent with
  | none => 0
  | some (negative, ds) =>
    let n : Nat := (Text.natOfDigits? ds).getD 0
    if negative then -(n : Int) else n

/-- All digits in front of the exponent as one number. -/
def significand (l : Literal) : Nat := (Text.natOfDigits? (l.whole ++ l.fraction)).getD 0

/-- The double nearest to the number, unless it lies beyond the largest one. -/
def real? (l : Literal) : Option Binary64 :=
  let x := Binary64.ofDecimal l.negative l.significand (l.writtenExponent - l.fraction.length)
  if x.isFinite then some x else none

/-- One more than the largest unsigned integer: two to the 64th power. -/
def unsignedBound : Nat := 18446744073709551616

/-- The integer that is written without point and exponent and fits into 64 bits, with or without a
sign. A negative zero is none. -/
def integer? (l : Literal) : Option Int :=
  if !l.fraction.isEmpty || l.exponent.isSome then none
  else if l.negative then
    if l.significand ≠ 0 ∧ l.significand ≤ unsignedBound / 2 then some (-(l.significand : Int)) else none
  else if l.significand < unsignedBound then some l.significand
  else none

/-- What a number denotes; `none` if it is a double beyond the largest one. -/
def numeric? (l : Literal) : Option Numeric :=
  match l.integer? with
  | some i => some (.integer i)
  | none => l.real?.map .real

end Literal

/-- What a number literal denotes. -/
def numeric? (cs : List Char) : Option Numeric :=
  match literal? cs with
  | some (l, []) => l.numeric?
  | _ => none

end ForestQuery.Json
