import ForestQuery.Proofs.Outcome
import ForestQuery.Proofs.Text.Decimal
import ForestQuery.Proofs.Uuid
import ForestQuery.Segment.Decode
import ForestQuery.Segment.Encode
/-!
Segments read back. Main statements: the segment of a value has the width of its kind, and reading it
gives the value; an identifier comes back in its canonical text, and a key as it is written.
-/

namespace ForestQuery

/-- The kinds that leave the length which marks an overflow to overflows. -/
def SegmentKind.IsBounded : SegmentKind → Prop
  | .text width => width ≤ maxTextWidth
  | .integer | .uuid | .textKey _ _ => True

namespace Segment

open SegmentKind

/-- What a segment `cs` of a value is read as. -/
def reading (v : Value) (cs : List Char) : SegmentKind → Value
  | .integer | .text _ => v
  | .uuid => if v.isNull then .null else .text (String.ofList cs)
  | .textKey _ _ => .text (String.ofList cs)

theorem ne_of_isDigit {c d : Char} (digit : isDigit c = true) (other : isDigit d = false) : c ≠ d := by
  intro same
  rw [same, other] at digit
  cases digit

theorem isDigit_of_mem_zeroPadded {width n : Nat} {c : Char} (h : c ∈ Text.zeroPadded width n) :
    isDigit c = true :=
  Text.digitValue?_of_mem_zeroPadded h

theorem exists_zeroPadded_eq_cons (width n : Nat) :
    ∃ c r, Text.zeroPadded width n = c :: r ∧ isDigit c = true := by
  cases shape : Text.zeroPadded width n with
  | nil =>
    have back := Text.natOfDigits?_zeroPadded width n
    rw [shape] at back
    cases back
  | cons c r => exact ⟨c, r, rfl, isDigit_of_mem_zeroPadded (by rw [shape]; simp)⟩

theorem minValue_toInt : Int64.minValue.toInt = -9223372036854775808 := rfl

theorem maxValue_toInt : Int64.maxValue.toInt = 9223372036854775807 := rfl

theorem digits64?_zeroPadded (width : Nat) {n : Nat} (bound : n < 9223372036854775808) :
    digits64? (Text.zeroPadded width n) = some (Int64.ofInt n) := by
  have digits : (Text.zeroPadded width n).all isDigit = true :=
    List.all_eq_true.mpr fun c hc => isDigit_of_mem_zeroPadded hc
  have lower : Int64.minValue.toInt ≤ (n : Int) := by rw [minValue_toInt]; omega
  have upper : (n : Int) ≤ Int64.maxValue.toInt := by rw [maxValue_toInt]; omega
  rw [digits64?, if_pos digits, Text.natOfDigits?_zeroPadded]
  simp only [Option.bind_some, Text.int64?, if_pos (And.intro lower upper)]

theorem toNat_toInt_lt (i : Int64) : i.toInt.toNat < 9223372036854775808 := by
  have bound := i.toInt_lt
  omega

theorem offset_lt {i : Int64} (negative : i.toInt < 0) : offset i < 9223372036854775808 := by
  rw [offset, minValue_toInt]
  omega

theorem offset_toInt (i : Int64) : (offset i : Int) = i.toInt + 9223372036854775808 := by
  have bound := i.le_toInt
  rw [offset, minValue_toInt]
  omega

theorem length_encodeInteger (i : Int64) : (encodeInteger i).length = integerWidth := by
  by_cases sign : 0 ≤ i.toInt
  · rw [encodeInteger, if_pos sign]
    exact Text.length_zeroPadded (by decide) (Nat.lt_trans (toNat_toInt_lt i) (by decide))
  · have bound := offset_lt (Int.not_le.mp sign)
    rw [encodeInteger, if_neg sign, List.length_cons,
      Text.length_zeroPadded (by decide) (Nat.lt_trans bound (by decide))]
    rfl

theorem decodeInteger_of_digits {c : Char} {r : List Char} {i : Int64} (digit : isDigit c = true)
    (number : digits64? (c :: r) = some i) : decodeInteger (c :: r) = .ok (.integer i) := by
  have noBlank : c ≠ ' ' := ne_of_isDigit digit (by decide)
  have noMinus : c ≠ '-' := ne_of_isDigit digit (by decide)
  rw [decodeInteger, if_neg (by simp [noBlank])]
  · simp only [number]
  · intro digits same
    exact noMinus (List.cons.inj same).1

theorem decodeInteger_encodeInteger (i : Int64) : decodeInteger (encodeInteger i) = .ok (.integer i) := by
  by_cases sign : 0 ≤ i.toInt
  · have back := digits64?_zeroPadded integerWidth (toNat_toInt_lt i)
    have value : ((i.toInt.toNat : Nat) : Int) = i.toInt := by omega
    rw [value, Int64.ofInt_toInt] at back
    rw [encodeInteger, if_pos sign]
    obtain ⟨c, r, shape, digit⟩ := exists_zeroPadded_eq_cons integerWidth i.toInt.toNat
    rw [shape] at back ⊢
    exact decodeInteger_of_digits digit back
  · have negative := Int.not_le.mp sign
    have bound := offset_lt negative
    have back := digits64?_zeroPadded (integerWidth - 1) bound
    have small : (Int64.ofInt (offset i)).toInt = (offset i : Int) :=
      Int64.toInt_ofInt_of_le (by omega) (by omega)
    have value : (Int64.ofInt (offset i)).toInt + Int64.minValue.toInt = i.toInt := by
      rw [small, offset_toInt, minValue_toInt]
      omega
    rw [encodeInteger, if_neg sign, decodeInteger, if_neg (by simp)]
    simp only [back, Option.map_some, value, Int64.ofInt_toInt]

section Cases

variable {v : Value} {cs : List Char}

theorem encode_integer_cases (written : encode v .integer = .ok cs) :
    v = .null ∧ cs = blanks integerWidth ∨ ∃ i, v = .integer i ∧ cs = encodeInteger i := by
  cases v with
  | null => exact Or.inl ⟨rfl, (Except.ok.inj written).symm⟩
  | integer i => exact Or.inr ⟨i, rfl, (Except.ok.inj written).symm⟩
  | real | text | blob => cases written

theorem encode_uuid_cases (written : encode v .uuid = .ok cs) :
    v = .null ∧ cs = blanks uuidWidth ∨ ∃ s u, v = .text s ∧ Uuid.ofText? s = some u ∧ cs = u.chars := by
  cases v with
  | null => exact Or.inl ⟨rfl, (Except.ok.inj written).symm⟩
  | text s =>
    rw [encode] at written
    split at written
    · exact Or.inr ⟨s, _, rfl, ‹_›, (Except.ok.inj written).symm⟩
    · cases written
  | integer | real | blob => cases written

theorem encode_text_cases {width : Nat} (written : encode v (.text width) = .ok cs) :
    v = .null ∧ cs = nullMark ++ blanks width ∨ ∃ s, v = .text s ∧ encodeText width s.toList = .ok cs := by
  cases v with
  | null => exact Or.inl ⟨rfl, (Except.ok.inj written).symm⟩
  | text s => exact Or.inr ⟨s, rfl, written⟩
  | integer | real | blob => cases written

/-- A key is a marker with digits behind it, those of no bytes for an absent value. -/
theorem encode_textKey_cases {bytes : Nat} {descending : Bool} (written : encode v (.textKey bytes descending) = .ok cs) :
    ∃ marker raw digits, (v = .null ∧ marker = absentMarker ∧ raw = [] ∨
        ∃ s, v = .text s ∧ marker = presentMarker ∧ raw = Text.utf8 s.toList) ∧
      encodeKeyBytes bytes descending raw = .ok digits ∧ cs = marker :: digits := by
  cases v with
  | null =>
    rw [encode] at written
    obtain ⟨digits, made, rfl⟩ := Outcome.map_eq_ok_iff.mp written
    exact ⟨_, _, digits, Or.inl ⟨rfl, rfl, rfl⟩, made, rfl⟩
  | text s =>
    rw [encode] at written
    obtain ⟨digits, made, rfl⟩ := Outcome.map_eq_ok_iff.mp written
    exact ⟨_, _, digits, Or.inr ⟨s, rfl, rfl, rfl⟩, made, rfl⟩
  | integer | real | blob => cases written

end Cases

theorem length_encode {v : Value} {kind : SegmentKind} {cs : List Char} (bounded : kind.IsBounded)
    (written : encode v kind = .ok cs) : cs.length = kind.width := by
  cases kind with
  | integer =>
    rcases encode_integer_cases written with ⟨rfl, rfl⟩ | ⟨i, rfl, rfl⟩
    · exact List.length_replicate
    · exact length_encodeInteger i
  | uuid =>
    rcases encode_uuid_cases written with ⟨rfl, rfl⟩ | ⟨s, u, rfl, -, rfl⟩
    · exact List.length_replicate
    · exact u.length_chars
  | text w =>
    have bound : w ≤ maxTextWidth := bounded
    rcases encode_text_cases written with ⟨rfl, rfl⟩ | ⟨s, rfl, made⟩
    · rw [List.length_append, blanks, List.length_replicate]
      rfl
    · rw [encodeText] at made
      split at made
      · rename_i fits
        cases made
        rw [List.length_append, Text.length_padRight, Nat.max_eq_left fits,
          Text.length_zeroPadded (by decide) (Nat.lt_of_le_of_lt (Nat.le_trans fits bound) (by decide))]
        rfl
      · cases made
  | textKey bytes descending =>
    obtain ⟨_, _, digits, -, made, rfl⟩ := encode_textKey_cases written
    rw [List.length_cons, length_encodeKeyBytes made, width, Nat.add_comm]

theorem decodeUuid_chars (u : Uuid) : decodeUuid u.chars = .ok (.text u.text) := by
  have nonempty : u.chars ≠ [] := List.ne_nil_of_length_pos (by rw [u.length_chars]; decide)
  rw [decodeUuid, u.trimChars_chars, if_neg (by simpa using nonempty), Uuid.ofChars?_chars]

/-- A padded number is read as a number below a bound. -/
theorem unsigned?_zeroPadded (bound width n : Nat) :
    Text.unsigned? bound (Text.zeroPadded width n) = (some n).filter (· < bound) := by
  have count := Text.natOfDigits?_zeroPadded width n
  obtain ⟨c, r, shape, digit⟩ := exists_zeroPadded_eq_cons width n
  have noPlus : c ≠ '+' := ne_of_isDigit digit (by decide)
  rw [shape] at count ⊢
  rw [Text.unsigned?]
  · rw [count]
  · intro digits same
    exact noPlus (List.cons.inj same).1

/-- The length in front of a text that fits is neither of the two marks, so as many characters are read behind it. -/
theorem decodeText_of_fits {width count : Nat} (body : List Char) (bounded : width ≤ maxTextWidth) (fits : count ≤ width) :
    decodeText width (Text.zeroPadded lengthWidth count ++ body) = .ok (.text (String.ofList (body.take count))) := by
  have bound : count ≤ 9998 := Nat.le_trans fits bounded
  have length : (Text.zeroPadded lengthWidth count).length = lengthWidth :=
    Text.length_zeroPadded (by decide) (Nat.lt_of_le_of_lt bound (by decide))
  have value := Text.natOfDigits?_zeroPadded lengthWidth count
  have taken : (Text.zeroPadded lengthWidth count ++ body).take lengthWidth = Text.zeroPadded lengthWidth count :=
    List.take_left' length
  have rest : (Text.zeroPadded lengthWidth count ++ body).drop lengthWidth = body := List.drop_left' length
  have present : Text.zeroPadded lengthWidth count ≠ nullMark := by
    intro same
    rw [same] at value
    cases value
  have fitting : Text.zeroPadded lengthWidth count ≠ overflowMark := by
    intro same
    rw [same] at value
    have other : (9999 : Nat) = count := Option.some.inj value
    omega
  have small : count < widthBound := Nat.lt_of_le_of_lt bound (by decide)
  have number : Text.unsigned? widthBound (Text.zeroPadded lengthWidth count) = some count := by
    rw [unsigned?_zeroPadded]
    exact Option.filter_some_pos (by simpa using small)
  rw [decodeText, taken, rest, if_neg present, if_neg fitting]
  simp only [number, if_neg (Nat.not_lt.mpr fits)]

theorem decodeText_encodeText {width : Nat} {cs seg : List Char} (bounded : width ≤ maxTextWidth)
    (written : encodeText width cs = .ok seg) : decodeText width seg = .ok (.text (String.ofList cs)) := by
  rw [encodeText] at written
  split at written
  · rename_i fits
    cases written
    rw [decodeText_of_fits _ bounded fits, Text.padRight, List.take_left' rfl]
  · cases written

theorem hexValue?_upperHexDigit {d : Nat} (h : d < 16) : Text.hexValue? (Text.upperHexDigit d) = some d := by
  have all : ∀ x : Fin 16, Text.hexValue? (Text.upperHexDigit x) = some x.val := by decide
  exact all ⟨d, h⟩

theorem hexValue?_of_mem_hexOfBytes {bytes : List UInt8} {c : Char} (h : c ∈ Text.hexOfBytes bytes) :
    (Text.hexValue? c).isSome := by
  obtain ⟨b, -, digit⟩ := List.mem_flatMap.mp h
  have bound := b.toNat_lt
  rcases List.mem_pair.mp digit with rfl | rfl
  · rw [hexValue?_upperHexDigit (by omega)]
    rfl
  · rw [hexValue?_upperHexDigit (by omega)]
    rfl

theorem hexValue?_complementHexDigit {c : Char} (h : (Text.hexValue? c).isSome) :
    (Text.hexValue? (Text.complementHexDigit c)).isSome := by
  obtain ⟨d, value⟩ := Option.isSome_iff_exists.mp h
  rw [Text.complementHexDigit, value]
  simp only [hexValue?_upperHexDigit (show 15 - d < 16 by omega), Option.isSome_some]

theorem hexValue?_of_mem_encodeKeyBytes {bytes : Nat} {descending : Bool} {raw : List UInt8}
    {cs : List Char} (written : encodeKeyBytes bytes descending raw = .ok cs) {c : Char} (h : c ∈ cs) :
    (Text.hexValue? c).isSome := by
  rw [encodeKeyBytes] at written
  split at written
  · have padded : ∀ d ∈ Text.padRight (bytes * 2) '0' (Text.hexOfBytes raw), (Text.hexValue? d).isSome := by
      intro d member
      rcases List.mem_append.mp member with digit | fill
      · exact hexValue?_of_mem_hexOfBytes digit
      · rw [List.eq_of_mem_replicate fill]
        rfl
    cases descending <;> cases written
    · exact padded c h
    · obtain ⟨d, member, rfl⟩ := List.mem_map.mp h
      exact hexValue?_complementHexDigit (padded d member)
  · cases written

theorem decodeKey_of_marker {marker : Char} {digits : List Char}
    (marked : marker = absentMarker ∨ marker = presentMarker)
    (hex : ∀ c ∈ digits, (Text.hexValue? c).isSome) :
    decodeKey (marker :: digits) = .ok (.text (String.ofList (marker :: digits))) := by
  have key : isKey (marker :: digits) = true := by
    rw [isKey, Bool.and_eq_true]
    exact ⟨by rcases marked with rfl | rfl <;> rfl, List.all_eq_true.mpr hex⟩
  rw [decodeKey, if_pos key]

/-- A segment is read as the value it was written for. -/
theorem decode_encode {v : Value} {kind : SegmentKind} {cs : List Char} (bounded : kind.IsBounded)
    (written : encode v kind = .ok cs) : decode cs kind = .ok (reading v cs kind) := by
  cases kind with
  | integer =>
    rcases encode_integer_cases written with ⟨rfl, rfl⟩ | ⟨i, rfl, rfl⟩
    · rfl
    · exact decodeInteger_encodeInteger i
  | uuid =>
    rcases encode_uuid_cases written with ⟨rfl, rfl⟩ | ⟨s, u, rfl, -, rfl⟩
    · rfl
    · exact decodeUuid_chars u
  | text w =>
    rcases encode_text_cases written with ⟨rfl, rfl⟩ | ⟨s, rfl, made⟩
    · rfl
    · have back := decodeText_encodeText bounded made
      rwa [String.ofList_toList] at back
  | textKey bytes descending =>
    obtain ⟨marker, raw, digits, marked, made, rfl⟩ := encode_textKey_cases written
    have markers : marker = absentMarker ∨ marker = presentMarker :=
      marked.imp (fun absent => absent.2.1) fun ⟨_, _, present, _⟩ => present
    exact decodeKey_of_marker markers fun _ => hexValue?_of_mem_encodeKeyBytes made

/-- The values that a segment gives back unchanged: an identifier has to be in its canonical text. -/
def IsKept (v : Value) : SegmentKind → Prop
  | .integer | .text _ => True
  | .uuid => v = .null ∨ ∃ u : Uuid, v = .text u.text
  | .textKey _ _ => False

theorem encode_uuid_text (u : Uuid) : encode (.text u.text) .uuid = .ok u.chars := by
  have back : Uuid.ofText? u.text = some u := by
    rw [Uuid.ofText?, Uuid.text, String.toList_ofList, Uuid.ofChars?_chars]
  rw [encode]
  simp only [back]

theorem reading_of_isKept {v : Value} {kind : SegmentKind} {cs : List Char} (kept : IsKept v kind)
    (written : encode v kind = .ok cs) : reading v cs kind = v := by
  cases kind with
  | integer => rfl
  | text w => rfl
  | textKey bytes descending => exact absurd kept id
  | uuid =>
    rcases kept with rfl | ⟨u, rfl⟩
    · rfl
    · rw [encode_uuid_text] at written
      cases written
      rfl

end Segment

end ForestQuery
