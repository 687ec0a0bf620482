import ForestQuery.Binary64.Scaling
/-!
Decimal texts of doubles: one writer, and one record of decisions for each form of text that the
library writes.
-/

namespace ForestQuery

/-- How the digits of a double become text. -/
structure RealLayout where
  /-- The least exponent of the leading digit that is written without an exponent. -/
  positionalFrom : Int
  /-- The exponent of the leading digit from which on an exponent is written. -/
  positionalBelow : Int
  /-- Whether a whole number ends in a point and a zero. -/
  pointZero : Bool
  /-- Whether a single digit before an exponent is followed by a point and a zero. -/
  pointBeforeExponent : Bool
  /-- Whether an exponent that is not negative has a plus sign. -/
  plus : Bool
  exponentDigits : Nat
  /-- Whether a negative zero keeps its sign. -/
  signedZero : Bool
  /-- Which of two equally short and equally near decimals is written. -/
  tie : Tie

namespace RealLayout

/-- JSON text: `1.0`, `0.01`, `1e-7`, `1e+21`. -/
def json : RealLayout := ⟨-5, 16, true, false, true, 1, true, .toEven⟩

/-- The text in messages: `1.5`, `7.0`, `1e20`. -/
def message : RealLayout := ⟨-4, 16, true, false, false, 1, true, .up⟩

/-- The plain text: all digits, no exponent, a whole number without a point. -/
def plain : RealLayout := ⟨-400, 400, false, false, false, 1, true, .up⟩

/-- The text that a text column gives a number: fifteen digits at most, `1.0e+15`, `1.0e-05`. -/
def column : RealLayout := ⟨-4, 15, true, true, true, 2, false, .up⟩

def exponentChars (l : RealLayout) (e : Int) : List Char :=
  let sign : List Char := if e < 0 then ['-'] else if l.plus then ['+'] else []
  sign ++ Text.zeroPadded l.exponentDigits e.natAbs

/-- The digits of `d` with the point after the digit of exponent zero. -/
def positional (l : RealLayout) (d : Decimal) : List Char :=
  let ds := Text.decimalDigits d.digits
  let e := d.leading
  if e < 0 then '0' :: '.' :: (List.replicate (-e - 1).toNat '0' ++ ds)
  else
    let whole := e.toNat + 1
    if ds.length ≤ whole then
      ds ++ List.replicate (whole - ds.length) '0' ++ (if l.pointZero then ['.', '0'] else [])
    else ds.take whole ++ '.' :: ds.drop whole

/-- One digit, the others after a point, and the exponent. -/
def scientific (l : RealLayout) (d : Decimal) : List Char :=
  let fraction : List Char := match Text.decimalDigits d.digits with
    | [] => []
    | [c] => c :: (if l.pointBeforeExponent then ['.', '0'] else [])
    | c :: r => c :: '.' :: r
  fraction ++ 'e' :: l.exponentChars d.leading

def magnitudeChars (l : RealLayout) (d : Decimal) : List Char :=
  if l.positionalFrom ≤ d.leading ∧ d.leading < l.positionalBelow then l.positional d
  else l.scientific d

/-- The text of a double whose digits `pick` chooses. -/
def write (l : RealLayout) (pick : Binary64 → Decimal) (x : Binary64) : String :=
  let zero := x.magnitude = 0
  let sign : List Char := if x.isNegative && (l.signedZero || !zero) then ['-'] else []
  let body :=
    if x.isNaN then ['N', 'a', 'N']
    else if !x.isFinite then ['i', 'n', 'f']
    else if zero then l.positional ⟨0, 0⟩
    else l.magnitudeChars (pick x)
  String.ofList (sign ++ body)

end RealLayout

namespace Binary64

def jsonText (x : Binary64) : String := RealLayout.json.write (shortest RealLayout.json.tie) x

def messageText (x : Binary64) : String := RealLayout.message.write (shortest RealLayout.message.tie) x

def plainText (x : Binary64) : String := RealLayout.plain.write (shortest RealLayout.plain.tie) x

def columnText (x : Binary64) : String := RealLayout.column.write (scaledDigits 15) x

end Binary64

end ForestQuery
