/-!
A place in the text of a document, and the classes of characters that the grammar of documents tells
apart. Main statement: the end of a line moves a place to the first column of the next one.
-/

namespace ForestQuery.Document

/-- Whether a document may hold a character: line ends, tabs, and what is no control character. -/
def isAllowed (c : Char) : Bool :=
  let n := c.toNat
  n == 0x9 || n == 0xA || n == 0xD || (0x20 ≤ n && n ≤ 0x7E) || n == 0x85 || (0xA0 ≤ n && n ≤ 0xFFFD) ||
    0x10000 ≤ n

def isBlank (c : Char) : Bool := c == ' ' || c == '\t'

/-- Whether a character ends a line. -/
def isBreak (c : Char) : Bool :=
  c == '\n' || c == '\r' || c == '\u0085' || c == '\u2028' || c == '\u2029'

/-- Whether names of anchors and of tag handles may hold a character. -/
def isWord (c : Char) : Bool := c.isAlphanum || c == '_' || c == '-'

/-- Whether a character has a meaning of its own between brackets. -/
def isFlowMark (c : Char) : Bool :=
  c == ',' || c == '[' || c == ']' || c == '\x7b' || c == '\x7d'

/-- A mark that may stand at the start of a line and is no part of the text. -/
def byteOrderMark : Char := '\ufeff'

/-- Whether a text starts with one of the characters of a class. -/
def startsWith (p : Char → Bool) (cs : List Char) : Bool := cs.head?.any p

/-- Whether a text starts with the end of a line, or is empty. -/
def atLineEnd (cs : List Char) : Bool := cs.isEmpty || startsWith isBreak cs

/-- Whether a text starts with a blank or the end of a line, or is empty. -/
def atGap (cs : List Char) : Bool := atLineEnd cs || startsWith isBlank cs

/-- A place in a text, with the text behind it. -/
structure Cursor where
  rest : List Char
  /-- The number of characters in front of the place. -/
  index : Nat
  line : Nat
  column : Nat
deriving DecidableEq

namespace Cursor

def start (cs : List Char) : Cursor := ⟨cs, 0, 0, 0⟩

/-- The place behind so many characters of the same line. -/
def advance (c : Cursor) (count : Nat) : Cursor :=
  { c with rest := c.rest.drop count, index := c.index + count, column := c.column + count }

/-- The place on the same line that has a given text behind it. -/
def moveTo (c : Cursor) (rest : List Char) : Cursor := c.advance (c.rest.length - rest.length)

/-- The place behind the characters of a class. -/
def skipWhile (c : Cursor) (p : Char → Bool) : Cursor := c.moveTo (c.rest.dropWhile p)

/-- The end of a line at a place, with the place behind it. Those of ASCII, alone or as a pair, and the
control character for it are all the same. -/
def break? (c : Cursor) : Option (Char × Cursor) :=
  let next (count : Nat) : Cursor := ⟨c.rest.drop count, c.index + count, c.line + 1, 0⟩
  match c.rest with
  | '\r' :: '\n' :: _ => some ('\n', next 2)
  | b :: _ =>
    if b == '\u2028' || b == '\u2029' then some (b, next 1)
    else if isBreak b then some ('\n', next 1)
    else none
  | [] => none

/-- The place behind the end of a line, if there is one. -/
def skipBreak (c : Cursor) : Cursor := (c.break?.map Prod.snd).getD c

/-- Whether three equal characters at the start of a line, and nothing but a gap behind them, mark the
start or the end of a document. -/
def atMark (c : Cursor) (mark : Char) : Bool :=
  c.column == 0 && c.rest.take 3 == [mark, mark, mark] && atGap (c.rest.drop 3)

/-- Whether a document starts or ends at a place. -/
def atDocumentMark (c : Cursor) : Bool := c.atMark '-' || c.atMark '.'

/-- The place behind a comment, if there is one. -/
def skipComment (c : Cursor) : Cursor :=
  if startsWith (· == '#') c.rest then c.skipWhile fun x => !isBreak x else c

theorem column_of_break? {c next : Cursor} {b : Char} (h : c.break? = some (b, next)) :
    next.column = 0 ∧ next.line = c.line + 1 := by
  unfold break? at h
  simp only at h
  split at h
  · cases h; exact ⟨rfl, rfl⟩
  · split at h
    · cases h; exact ⟨rfl, rfl⟩
    · split at h
      · cases h; exact ⟨rfl, rfl⟩
      · cases h
  · cases h

end Cursor

end ForestQuery.Document
