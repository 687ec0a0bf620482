import ForestQuery.FieldType
import ForestQuery.Text.Digits
/-!
The kinds of fixed-width segments that levels of an accumulated column are made of, and how wide
each is.
-/

namespace ForestQuery

/-- Format of one component of a level. -/
inductive SegmentKind where
  | integer
  | uuid
  /-- A text of at most `width` characters behind its length. -/
  | text (width : Nat)
  /-- A text as an ordering key: a marker and the hexadecimal digits of at most `bytes` bytes. -/
  | textKey (bytes : Nat) (descending : Bool)
deriving DecidableEq

namespace SegmentKind

/-- One more than the largest width that can be asked for: two to the 64th power. -/
def widthBound : Nat := 18446744073709551616

/-- Characters of an integer segment. -/
def integerWidth : Nat := 20

/-- Characters of an identifier segment. -/
def uuidWidth : Nat := 36

/-- Characters of the length in front of a text segment. -/
def lengthWidth : Nat := 4

/-- The length written for a text that does not fit. -/
def overflowMark : List Char := ['9', '9', '9', '9']

/-- The length written for an absent text. -/
def nullMark : List Char := ['-', '-', '-', '-']

/-- First character of the key of an absent text. -/
def absentMarker : Char := '0'

/-- First character of the key of any text, so that an absent one sorts before the empty one. -/
def presentMarker : Char := '1'

/-- The characters that a segment of this kind occupies. -/
def width : SegmentKind → Nat
  | integer => integerWidth
  | uuid => uuidWidth
  | text w => lengthWidth + w
  | textKey bytes _ => 1 + bytes * 2

/-- The kind that carries values of a column type as they are. -/
def ofFieldType (textWidth : Nat) : FieldType → SegmentKind
  | .integer => integer
  | .uuid => uuid
  | _ => text textWidth

/-- The column type of an array that holds values of this kind. -/
def arrayType : SegmentKind → FieldType
  | integer => .integer
  | uuid => .uuid
  | text _ | textKey _ _ => .text

/-- The kind as messages show it. -/
def messageText : SegmentKind → String
  | integer => "Integer"
  | uuid => "Uuid"
  | text w => String.join ["Text \x7b width: ", toString w, " \x7d"]
  | textKey bytes descending =>
    String.join ["TextKey \x7b bytes: ", toString bytes, ", descending: ", toString descending, " \x7d"]

/-- The characters of one level made of these kinds. -/
def levelWidth : List SegmentKind → Nat
  | [] => 0
  | k :: ks => k.width + levelWidth ks

theorem levelWidth_nil : levelWidth [] = 0 := rfl

theorem levelWidth_cons (k : SegmentKind) (ks : List SegmentKind) :
    levelWidth (k :: ks) = k.width + levelWidth ks := rfl

theorem levelWidth_singleton (k : SegmentKind) : levelWidth [k] = k.width := by
  simp [levelWidth]

end SegmentKind

end ForestQuery
