import ForestQuery.Error
/-!
Writing a value as a fixed-width segment. Segments of one kind compare as their values do, because
each has a fixed width and a format that keeps the order. Main statement: the key of a text that fits
has exactly the width of its kind.
-/

namespace ForestQuery.Segment

open SegmentKind

def blanks (count : Nat) : List Char := List.replicate count ' '

/-- The distance of an integer from the smallest one. -/
def offset (i : Int64) : Nat := (i.toInt - Int64.minValue.toInt).toNat

/-- Twenty digits, or a minus sign and the nineteen digits of the offset. -/
def encodeInteger (i : Int64) : List Char :=
  if 0 ≤ i.toInt then Text.zeroPadded integerWidth i.toInt.toNat
  else '-' :: Text.zeroPadded (integerWidth - 1) (offset i)

/-- The number of characters, then the characters, filled with blanks. -/
def encodeText (width : Nat) (cs : List Char) : Except Error (List Char) :=
  if cs.length ≤ width then
    .ok (Text.zeroPadded lengthWidth cs.length ++ Text.padRight width ' ' cs)
  else .error (.encodingOverflow (.textChars cs.length) width)

/-- The digits of the bytes filled with zeros, complemented when descending. -/
def encodeKeyBytes (bytes : Nat) (descending : Bool) (raw : List UInt8) : Except Error (List Char) :=
  if raw.length ≤ bytes then
    let digits := Text.padRight (bytes * 2) '0' (Text.hexOfBytes raw)
    .ok (if descending then Text.complementHex digits else digits)
  else .error (.encodingOverflow (.keyBytes raw.length) (bytes * 2))

/-- The segment of a value. An absent value has one in every kind. -/
def encode (v : Value) (kind : SegmentKind) : Except Error (List Char) :=
  let mismatch := Error.configuration (.notEncodable v kind)
  match kind with
  | .integer =>
    match v with
    | .null => .ok (blanks integerWidth)
    | .integer i => .ok (encodeInteger i)
    | _ => .error mismatch
  | .uuid =>
    match v with
    | .null => .ok (blanks uuidWidth)
    | .text s =>
      match Uuid.ofText? s with
      | some u => .ok u.chars
      | none => .error mismatch
    | _ => .error mismatch
  | .text width =>
    match v with
    | .null => .ok (nullMark ++ blanks width)
    | .text s => encodeText width s.toList
    | _ => .error mismatch
  | .textKey bytes descending =>
    match v with
    | .null => (encodeKeyBytes bytes descending []).map (absentMarker :: ·)
    | .text s => (encodeKeyBytes bytes descending (Text.utf8 s.toList)).map (presentMarker :: ·)
    | _ => .error mismatch

theorem length_encodeKeyBytes {bytes : Nat} {descending : Bool} {raw : List UInt8} {cs : List Char}
    (h : encodeKeyBytes bytes descending raw = .ok cs) : cs.length = bytes * 2 := by
  unfold encodeKeyBytes at h
  split at h
  · rename_i fits
    cases h
    have full : (Text.padRight (bytes * 2) '0' (Text.hexOfBytes raw)).length = bytes * 2 := by
      rw [Text.length_padRight, Text.length_hexOfBytes]; omega
    cases descending <;> simp [Text.length_complementHex, full]
  · cases h

end ForestQuery.Segment
