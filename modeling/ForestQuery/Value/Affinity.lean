import ForestQuery.Binary64.Scaling
import ForestQuery.FieldType
import ForestQuery.Value.Order
/-!
The leaning of a column towards one kind of value: what it stores when a value of another kind is
written, and what it turns the other side of a comparison into.
-/

namespace ForestQuery

/-- The kind of value that a column prefers. -/
inductive Affinity where
  | integer
  | real
  | text
  /-- Stores what it is given. -/
  | none
deriving DecidableEq

namespace FieldType

/-- How columns of the type are declared. -/
def affinity : FieldType → Affinity
  | integer | boolean => .integer
  | text | uuid => .text
  | real => .real
  | blob => .none

end FieldType

namespace Text

/-- Blanks that may surround a number in a text. -/
def isNumberBlank (c : Char) : Bool := c.toNat = 0x20 || (0x9 ≤ c.toNat && c.toNat ≤ 0xD)

/-- A number as it is written: a sign, digits, perhaps a point and digits, perhaps an exponent. -/
structure NumberText where
  negative : Bool
  digits : Nat
  exponent : Int
  /-- Neither a point nor an exponent was written. -/
  whole : Bool

/-- Splits off a sign. -/
def splitSign : List Char → Bool × List Char
  | '-' :: cs => (true, cs)
  | '+' :: cs => (false, cs)
  | cs => (false, cs)

/-- The exponent that the rest of a number denotes: nothing, or a mark, a sign and digits. -/
def exponentPart? : List Char → Option Int
  | [] => some 0
  | c :: cs =>
    if c = 'e' ∨ c = 'E' then
      (natOfDigits? (splitSign cs).2).map fun n => if (splitSign cs).1 then -(n : Int) else n
    else Option.none

/-- Reads a text that is a number with blanks around it. -/
def number? (cs : List Char) : Option NumberText :=
  let trimmed := (((cs.dropWhile isNumberBlank).reverse).dropWhile isNumberBlank).reverse
  let (negative, body) := splitSign trimmed
  let whole := body.takeWhile Char.isDigit
  let rest := body.dropWhile Char.isDigit
  let point := rest.head? = some '.'
  let fraction := if point then rest.tail.takeWhile Char.isDigit else []
  let tail := if point then rest.tail.dropWhile Char.isDigit else rest
  match natOfDigits? (whole ++ fraction), exponentPart? tail with
  | some digits, some exponent =>
    some ⟨negative, digits, exponent - fraction.length, !point && tail.isEmpty⟩
  | _, _ => Option.none

end Text

namespace Value

/-- The number that a text is, if it is one: an integer if it is written as one and fits. -/
def numberOfText? (s : String) : Option Value :=
  (Text.number? s.toList).map fun n =>
    let signed : Int := if n.negative then -(n.digits : Int) else n.digits
    match if n.whole then Text.int64? signed else Option.none with
    | some i => integer i
    | Option.none => real (Binary64.ofScaledDecimal n.negative n.digits n.exponent)

/-- Texts that are numbers become numbers. -/
def toNumber : Value → Value
  | text s => (numberOfText? s).getD (text s)
  | v => v

/-- Numbers become texts. -/
def toText : Value → Value
  | integer i => text (integerText i)
  | real x => text x.columnText
  | v => v

/-- A real that is a whole number strictly inside the range of integers becomes an integer. -/
def toWhole : Value → Value
  | real x =>
    match x.toInt?.bind Text.int64? with
    | some i => if i = Int64.minValue ∨ i = Int64.maxValue then real x else integer i
    | Option.none => real x
  | v => v

/-- An integer becomes a real. A column of reals has a single zero. -/
def toReal : Value → Value
  | integer i => real (Binary64.ofInt i.toInt)
  | real x => if x.magnitude = 0 then real (Binary64.ofInt 0) else real x
  | v => v

end Value

namespace Affinity

/-- What a column stores for a value. -/
def store : Affinity → Value → Value
  | integer, v => v.toNumber.toWhole
  | real, v => v.toNumber.toReal
  | text, v => v.toText
  | none, v => v

/-- What a value that is compared with a column is taken for. -/
def operand : Affinity → Value → Value
  | integer, v | real, v => v.toNumber
  | text, v => v.toText
  | none, v => v

end Affinity

end ForestQuery
