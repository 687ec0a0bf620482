import ForestQuery.Text.Stored
import ForestQuery.Value.Affinity
/-!
The values that expressions have while a statement runs. They are column values, except that a text
is kept as the store holds it, so the bytes of a byte sequence that is taken for a text are not lost.
-/

namespace ForestQuery

/-- The value of an expression. -/
inductive Scalar where
  | null
  | integer (i : Int64)
  | real (x : Binary64)
  | text (t : StoredText)
  | blob (bytes : List UInt8)
deriving DecidableEq

def Value.scalar : Value → Scalar
  | null => .null
  | integer i => .integer i
  | real x => .real x
  | text s => .text (.ofChars s.toList)
  | blob bytes => .blob bytes

namespace Scalar

def isNull : Scalar → Bool
  | null => true
  | _ => false

def ofChars (cs : List Char) : Scalar := text (.ofChars cs)

/-- The integer for a count. -/
def ofCount (n : Nat) : Scalar := (Value.ofCount n).scalar

/-- A value read as text; an absent value is none. -/
def asText? : Scalar → Option StoredText
  | null => none
  | integer i => some (.ofChars (Text.integerChars i.toInt))
  | real x => some (.ofChars x.columnText.toList)
  | text t => some t
  | blob bytes => some (.ofBytes bytes)

/-- A value changed as a text. -/
def mapText (f : StoredText → StoredText) (v : Scalar) : Scalar :=
  (v.asText?.map fun t => text (f t)).getD null

/-- The number at the start of a text, behind blanks and a sign; zero if there is none. -/
def leadingInt (cs : List Char) : Int :=
  let signed := Text.splitSign (cs.dropWhile Text.isNumberBlank)
  let n : Nat := (Text.natOfDigits? (signed.2.takeWhile Char.isDigit)).getD 0
  if signed.1 then -(n : Int) else n

/-- The nearest integer of 64 bits. -/
def clamp (i : Int) : Int64 :=
  if i < Int64.minValue.toInt then Int64.minValue
  else if Int64.maxValue.toInt < i then Int64.maxValue
  else Int64.ofInt i

/-- A value read as an integer: a real without its fraction, a text as far as it is a number. -/
def asInteger : Scalar → Int64
  | null => 0
  | integer i => i
  | real x => clamp x.truncated
  | text t => clamp (leadingInt t.lossyChars)
  | blob bytes => clamp (leadingInt (StoredText.ofBytes bytes).lossyChars)

/-- The sum of an integer and a value as numbers, the value with the opposite sign if `negate`. -/
def addTo (i : Int) (negate : Bool) (v : Scalar) : Scalar :=
  match v with
  | null => null
  | real x => real ((if negate then x.neg else x).addInt i)
  | integer _ | text _ | blob _ =>
    let j := v.asInteger.toInt
    let sum := if negate then i - j else i + j
    match Text.int64? sum with
    | some n => integer n
    | none => real (Binary64.ofInt sum)

/-- The order between a value and an integer. Texts and byte sequences lie above all numbers. -/
def compareInt (v : Scalar) (i : Int) : Ordering :=
  match v with
  | null => .lt
  | integer j => compare j.toInt i
  | real x => (Binary64.compareInt i x).swap
  | text _ | blob _ => .gt

/-- The argument of a raise as a failure shows it. -/
def raisedChars : Scalar → List Char
  | null => "NULL".toList
  | integer i => Text.integerChars i.toInt
  | real x => x.plainText.toList
  | text t => t.lossyChars
  | blob bytes => '<' :: Text.decimalDigits bytes.length ++ " bytes>".toList

theorem isNull_scalar (v : Value) : v.scalar.isNull = v.isNull := by cases v <;> rfl

end Scalar

end ForestQuery
