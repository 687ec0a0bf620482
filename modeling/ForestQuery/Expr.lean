import ForestQuery.Dialect.Spelling
/-!
Scalar expressions of generated statements as data, and their text in each dialect. Segment
expressions, which write a column value as a fixed-width segment, are built here.
-/

namespace ForestQuery

/-- What an expression refers to. -/
inductive Reference where
  /-- An expression given as text. -/
  | verbatim (sql : String)
  /-- A column of the relation, as seen through the row source `source`. -/
  | column (source name : String)
  /-- A column that the statement itself defines. -/
  | generated (source name : String)
deriving DecidableEq

namespace Reference

def text (d : Dialect) : Reference → String
  | verbatim sql => sql
  | column source name => String.join [source, ".", d.quote name]
  | generated source name => String.join [source, ".", name]

end Reference

/-- A test on the value of an expression. -/
inductive Test where
  | isNull
  | exceeds (n : Nat)
  | differs (n : Nat)
  | atLeast (n : Nat)
deriving DecidableEq

namespace Test

def text : Test → String
  | isNull => " IS NULL"
  | exceeds n => String.join [" > ", toString n]
  | differs n => String.join [" <> ", toString n]
  | atLeast n => String.join [" >= ", toString n]

end Test

/-- A scalar expression. -/
inductive Expr where
  | reference (r : Reference)
  | literal (s : String)
  /-- One more than an integer. -/
  | successor (e : Expr)
  /-- Minus one minus an integer, which reverses the order of all integers. -/
  | mirrored (e : Expr)
  /-- The distance of a negative integer from the smallest one. -/
  | offset (e : Expr)
  | concat (a b : Expr)
  | charLength (e : Expr)
  | padInteger (e : Expr) (width : Nat)
  | padText (e : Expr) (width : Nat) (fill : Char)
  | hex (e : Expr)
  | complement (e : Expr)
  | lowerUuid (e : Expr)
  | textValue (e : Expr)
  | raise (kind : RaiseKind) (arg : Expr)
  | choose (subject : Expr) (test : Test) (yes no : Expr)
  | bySign (subject null negative other : Expr)
deriving DecidableEq

namespace Expr

/-- The text of an expression. A dialect that cannot complement or raise is given no such
expression. -/
def text (d : Dialect) : Expr → String
  | reference r => r.text d
  | literal s => String.join ["'", s, "'"]
  | successor e => String.join [e.text d, " + 1"]
  | mirrored e => String.join ["(-1 - ", e.text d, ")"]
  | offset e => String.join ["9223372036854775807 + (", e.text d, " + 1)"]
  | concat a b => d.concat [a.text d, b.text d]
  | charLength e => d.charLength (e.text d)
  | padInteger e width => d.padInteger (e.text d) width
  | padText e width fill => d.padText (e.text d) width fill
  | hex e => d.hex (e.text d)
  | complement e => (d.complement? (e.text d)).getD (e.text d)
  | lowerUuid e => d.lowerUuid (e.text d)
  | textValue e => d.textValue (e.text d)
  | raise kind arg => (d.raise? kind (arg.text d)).getD (arg.text d)
  | choose subject test yes no =>
    String.join ["CASE WHEN ", subject.text d, test.text, " THEN ", yes.text d, " ELSE ", no.text d, " END"]
  | bySign subject null negative other =>
    String.join ["CASE WHEN ", subject.text d, " IS NULL THEN ", null.text d, " WHEN ", subject.text d,
      " < 0 THEN ", negative.text d, " ELSE ", other.text d, " END"]

/-- Fails when the test holds of the subject, where the dialect can fail inside an expression. -/
def guarded (d : Dialect) (subject : Expr) (test : Test) (kind : RaiseKind) (arg value : Expr) : Expr :=
  if d.capabilities.inlineRaise then choose subject test (raise kind arg) value else value

def blanks (count : Nat) : Expr := literal (String.ofList (List.replicate count ' '))

/-- The segment of an integer: zeros and digits, or a minus sign and the offset of a negative one.
The minus sign sorts before the digits, so the texts sort as the integers do. -/
def integerSegment (e : Expr) : Expr :=
  bySign e (blanks SegmentKind.integerWidth)
    (concat (literal "-") (padInteger (offset e) (SegmentKind.integerWidth - 1)))
    (padInteger e SegmentKind.integerWidth)

/-- The segment of an identifier: its lower-case text, which must have its proper length. -/
def uuidSegment (d : Dialect) (e : Expr) : Expr :=
  let t := lowerUuid e
  choose e .isNull (blanks SegmentKind.uuidWidth)
    (guarded d (charLength t) (.differs SegmentKind.uuidWidth) (.overflow SegmentKind.uuidWidth) t t)

/-- The segment of a text: its length, then the text filled with blanks. -/
def textSegment (d : Dialect) (e : Expr) (width : Nat) : Expr :=
  let t := textValue e
  let length := choose (charLength t) (.exceeds width) (literal (String.ofList SegmentKind.overflowMark))
    (padInteger (charLength t) SegmentKind.lengthWidth)
  choose e .isNull (literal (String.ofList (SegmentKind.nullMark ++ List.replicate width ' ')))
    (guarded d (charLength t) (.exceeds width) (.overflow width) t (concat length (padText t width ' ')))

/-- The segment of a text as a key: a marker and the digits of its bytes filled with zeros, each
digit complemented when descending. A dialect that cannot complement has no descending keys. -/
def textKeySegment? (d : Dialect) (e : Expr) (bytes : Nat) (descending : Bool) : Option Expr :=
  let digits := hex e
  let key := guarded d (charLength digits) (.exceeds (bytes * 2)) (.overflow (bytes * 2)) digits
    (padText digits (bytes * 2) '0')
  let marker := choose e .isNull (literal SegmentKind.absentMarker.toString)
    (literal SegmentKind.presentMarker.toString)
  if !descending then some (concat marker key)
  else if d.capabilities.hexComplement then some (concat marker (complement key))
  else none

/-- The expression that writes a value as a segment. -/
def segment? (d : Dialect) (e : Expr) : SegmentKind → Option Expr
  | .integer => some (integerSegment e)
  | .uuid => some (uuidSegment d e)
  | .text width => some (textSegment d e width)
  | .textKey bytes descending => textKeySegment? d e bytes descending

end Expr

end ForestQuery
