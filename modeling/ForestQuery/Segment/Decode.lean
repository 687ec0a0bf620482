import ForestQuery.Error
/-!
Reading a segment back. Only what writing can produce is read as an integer or a key; a text is read
by its length, and an identifier in any of its spellings.
-/

namespace ForestQuery.Segment

open SegmentKind

def isDigit (c : Char) : Bool := (Text.digitValue? c).isSome

/-- Digits as an integer of 64 bits; nothing but digits is read. -/
def digits64? (cs : List Char) : Option Int64 :=
  if cs.all isDigit then (Text.natOfDigits? cs).bind fun n => Text.int64? n else none

/-- Blanks are an absent integer; a minus sign stands before the offset of a negative one. -/
def decodeInteger (cs : List Char) : Except Error Value :=
  let bad := Error.decode (.badIntegerSegment (String.ofList cs))
  if cs.all (· == ' ') then .ok .null
  else
    let number := match cs with
      | '-' :: digits => (digits64? digits).map fun o => Int64.ofInt (o.toInt + Int64.minValue.toInt)
      | _ => digits64? cs
    match number with
    | some i => .ok (.integer i)
    | none => .error bad

/-- Blanks are an absent identifier. -/
def decodeUuid (cs : List Char) : Except Error Value :=
  if (Text.trimChars cs).isEmpty then .ok .null
  else
    match Uuid.ofChars? cs with
    | some u => .ok (.text u.text)
    | none => .error (.decode (.badUuidSegment (String.ofList cs)))

/-- The first characters tell how many of the others belong to the text. -/
def decodeText (width : Nat) (cs : List Char) : Except Error Value :=
  let mark := cs.take lengthWidth
  if mark = nullMark then .ok .null
  else if mark = overflowMark then .error (.encodingOverflow .storedText width)
  else
    match Text.unsigned? widthBound mark with
    | none => .error (.decode (.badLength (String.ofList mark)))
    | some count =>
      if width < count then .error (.encodingOverflow .storedText width)
      else .ok (.text (String.ofList ((cs.drop lengthWidth).take count)))

/-- Whether the characters are a marker and hexadecimal digits. -/
def isKey : List Char → Bool
  | [] => false
  | c :: cs => (c == absentMarker || c == presentMarker) && cs.all fun d => (Text.hexValue? d).isSome

/-- Keys compare as they are written and are kept so. -/
def decodeKey (cs : List Char) : Except Error Value :=
  if isKey cs then .ok (.text (String.ofList cs))
  else .error (.decode (.badKeySegment (String.ofList cs)))

/-- The value of a segment. -/
def decode (cs : List Char) : SegmentKind → Except Error Value
  | .integer => decodeInteger cs
  | .uuid => decodeUuid cs
  | .text width => decodeText width cs
  | .textKey _ _ => decodeKey cs

end ForestQuery.Segment
