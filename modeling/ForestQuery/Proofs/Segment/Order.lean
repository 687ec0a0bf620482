import ForestQuery.Proofs.Segment.RoundTrip
import ForestQuery.Proofs.Text.Hexadecimal
import ForestQuery.Proofs.Value.Order
/-!
The order of segments. Main statements: segments of integers, identifiers and keys of texts are in ASCII and in
the order of what they were written for, and the segment of an absent value comes before the others.
-/

namespace ForestQuery.Segment

open SegmentKind

variable {i j : Int64} {u w : Uuid} {cs ds : List Char} {bytes : Nat} {descending : Bool} {raw other : List UInt8}

theorem compare_of_first {c d : Char} (less : c.toNat < d.toNat) (r s : List Char) :
    compare (Text.codes (c :: r)) (Text.codes (d :: s)) = .lt := by
  rw [Text.codes_cons, Text.codes_cons, Text.compare_cons, Nat.compare_eq_lt.mpr less]
  rfl

theorem compare_mirrored (i j : Int) : compare (-1 - i) (-1 - j) = (compare i j).swap := by
  rcases Int.lt_trichotomy i j with less | rfl | greater
  · rw [Int.compare_eq_lt.mpr less, Int.compare_eq_gt.mpr (by omega)]
    rfl
  · rw [Int.compare_eq_eq.mpr rfl, Int.compare_eq_eq.mpr rfl]
    rfl
  · rw [Int.compare_eq_gt.mpr greater, Int.compare_eq_lt.mpr (by omega)]
    rfl

theorem compare_natCast {m n : Nat} {a b : Int} (shift : (m : Int) - n = a - b) : compare m n = compare a b := by
  rcases Nat.lt_trichotomy m n with less | same | greater
  · rw [Nat.compare_eq_lt.mpr less, Int.compare_eq_lt.mpr (by omega)]
  · rw [Nat.compare_eq_eq.mpr same, Int.compare_eq_eq.mpr (by omega)]
  · rw [Nat.compare_eq_gt.mpr greater, Int.compare_eq_gt.mpr (by omega)]

/-- A minus sign comes before the digits. -/
theorem compare_encodeInteger_of_sign (negative : i.toInt < 0) (positive : 0 ≤ j.toInt) :
    compare (Text.codes (encodeInteger i)) (Text.codes (encodeInteger j)) = .lt := by
  obtain ⟨c, r, shape, digit⟩ := exists_zeroPadded_eq_cons integerWidth j.toInt.toNat
  obtain ⟨d, value⟩ := Option.isSome_iff_exists.mp digit
  have bounds := Text.digit_bounds value
  rw [encodeInteger, if_neg (by omega), encodeInteger, if_pos positive, shape]
  refine compare_of_first ?_ _ _
  rw [show '-'.toNat = 45 from rfl]
  omega

/-- The segments of integers are in the order of these. -/
theorem compare_encodeInteger (i j : Int64) :
    compare (Text.codes (encodeInteger i)) (Text.codes (encodeInteger j)) = compare i.toInt j.toInt := by
  by_cases first : 0 ≤ i.toInt
  · by_cases second : 0 ≤ j.toInt
    · rw [encodeInteger, if_pos first, encodeInteger, if_pos second,
        Text.compare_zeroPadded (by decide) (Nat.lt_trans (toNat_toInt_lt i) (by decide))
          (Nat.lt_trans (toNat_toInt_lt j) (by decide))]
      exact compare_natCast (by omega)
    · rw [Int.compare_eq_gt.mpr (by omega)]
      exact Std.OrientedCmp.gt_of_lt (compare_encodeInteger_of_sign (Int.not_le.mp second) first)
  · by_cases second : 0 ≤ j.toInt
    · rw [compare_encodeInteger_of_sign (Int.not_le.mp first) second, Int.compare_eq_lt.mpr (by omega)]
    · have small := offset_lt (Int.not_le.mp first)
      have small' := offset_lt (Int.not_le.mp second)
      have value := offset_toInt i
      have value' := offset_toInt j
      rw [encodeInteger, if_neg first, encodeInteger, if_neg second, Text.codes_cons, Text.codes_cons,
        Text.compare_cons_self,
        Text.compare_zeroPadded (by decide) (Nat.lt_trans small (by decide)) (Nat.lt_trans small' (by decide))]
      exact compare_natCast (by omega)

/-- The segments of identifiers are in the order of their texts. -/
theorem compare_chars (u w : Uuid) :
    compare (Text.codes u.chars) (Text.codes w.chars) = Text.compareText u.text w.text := by
  rw [Text.compareText, Text.compareBytes_eq_compare, Uuid.text, Uuid.text, String.toList_ofList, String.toList_ofList,
    Text.compare_utf8 u.isAscii_chars w.isAscii_chars]

/-- Blanks come before characters above these. -/
theorem compare_blanks {width : Nat} (positive : 0 < width) (nonempty : cs ≠ []) (above : ∀ c ∈ cs, 32 < c.toNat) :
    compare (Text.codes (blanks width)) (Text.codes cs) = .lt := by
  obtain ⟨n, rfl⟩ := Nat.exists_eq_add_one_of_ne_zero (Nat.ne_of_gt positive)
  cases cs with
  | nil => exact absurd rfl nonempty
  | cons c r =>
    rw [blanks, List.replicate_succ]
    exact compare_of_first (show ' '.toNat < c.toNat from above c (by simp)) _ _

theorem ascii_of_mem_encodeInteger {c : Char} (member : c ∈ encodeInteger i) : 32 < c.toNat ∧ c.toNat < 128 := by
  have digit : ∀ {width n : Nat}, c ∈ Text.zeroPadded width n → 32 < c.toNat ∧ c.toNat < 128 := by
    intro width n inDigits
    obtain ⟨d, value⟩ := Option.isSome_iff_exists.mp (Text.digitValue?_of_mem_zeroPadded inDigits)
    have bounds := Text.digit_bounds value
    omega
  rw [encodeInteger] at member
  split at member
  · exact digit member
  · rcases List.mem_cons.mp member with rfl | inDigits
    · decide
    · exact digit inDigits

theorem ascii_of_mem_chars {c : Char} (member : c ∈ u.chars) : 32 < c.toNat ∧ c.toNat < 128 := by
  have digits : ∀ x : Fin 16, 32 < (Text.lowerHexDigit x).toNat ∧ (Text.lowerHexDigit x).toNat < 128 := by decide
  rcases Uuid.mem_hyphenate member with rfl | digit
  · decide
  · obtain ⟨d, inDigits, rfl⟩ := List.mem_map.mp digit
    exact digits ⟨d, u.digit_lt d inDigits⟩

/-- The digits of a key are in the order of the bytes filled up with zeros, or against it. -/
theorem compare_encodeKeyBytes_filled (first : encodeKeyBytes bytes descending raw = .ok cs)
    (second : encodeKeyBytes bytes descending other = .ok ds) :
    raw.length + (bytes - raw.length) = other.length + (bytes - other.length) ∧
    let order := compare (raw ++ List.replicate (bytes - raw.length) 0) (other ++ List.replicate (bytes - other.length) 0)
    compare (Text.codes cs) (Text.codes ds) = if descending then order.swap else order := by
  rw [encodeKeyBytes] at first second
  split at first
  · rename_i fits
    split at second
    · rename_i fits'
      refine ⟨by omega, ?_⟩
      rw [Text.padRight_hexOfBytes] at first second
      cases descending with
      | false =>
        simp only [Bool.false_eq_true, if_false, Except.ok.injEq] at first second ⊢
        rw [← first, ← second, Text.compare_hexOfBytes]
      | true =>
        simp only [if_true, Except.ok.injEq] at first second ⊢
        rw [← first, ← second, Text.compare_complementHex ?_ (fun c => Text.exists_of_mem_hexOfBytes)
          (fun c => Text.exists_of_mem_hexOfBytes), Text.compare_hexOfBytes]
        rw [Text.length_hexOfBytes, Text.length_hexOfBytes, List.length_append, List.length_append,
          List.length_replicate, List.length_replicate]
        omega
    · cases second
  · cases first

/-- The digits of a key are in the order of bytes that do not end in zero, or against it. -/
theorem compare_encodeKeyBytes (first : encodeKeyBytes bytes descending raw = .ok cs)
    (second : encodeKeyBytes bytes descending other = .ok ds) (unpadded : Text.IsUnpadded raw)
    (unpadded' : Text.IsUnpadded other) :
    compare (Text.codes cs) (Text.codes ds) = if descending then (compare raw other).swap else compare raw other := by
  obtain ⟨length, order⟩ := compare_encodeKeyBytes_filled first second
  rw [order, Text.compare_append_zeros_of_unpadded unpadded unpadded' length]

/-- Segments other than those of texts are in ASCII. -/
theorem isAscii_encode {v : Value} {kind : SegmentKind} (written : encode v kind = .ok cs)
    (plain : ∀ width, kind ≠ .text width) : Text.IsAscii cs := by
  have blank : ∀ width, Text.IsAscii (blanks width) := by
    intro width c member
    rw [List.eq_of_mem_replicate member]
    decide
  have key : ∀ {bytes : Nat} {descending : Bool} {raw : List UInt8} {ds : List Char},
      encodeKeyBytes bytes descending raw = .ok ds → Text.IsAscii ds := by
    intro bytes descending raw ds digits c member
    obtain ⟨d, value⟩ := Option.isSome_iff_exists.mp (hexValue?_of_mem_encodeKeyBytes digits member)
    exact Text.lt_of_hexValue? value
  cases kind with
  | integer =>
    rcases encode_integer_cases written with ⟨rfl, rfl⟩ | ⟨i, rfl, rfl⟩
    · exact blank _
    · exact fun c member => (ascii_of_mem_encodeInteger member).2
  | uuid =>
    rcases encode_uuid_cases written with ⟨rfl, rfl⟩ | ⟨s, u, rfl, -, rfl⟩
    · exact blank _
    · exact fun c member => (ascii_of_mem_chars member).2
  | text width => exact absurd rfl (plain width)
  | textKey bytes descending =>
    obtain ⟨marker, raw, digits, marked, made, rfl⟩ := encode_textKey_cases written
    have first : marker.toNat < 128 := by
      rcases marked with ⟨-, rfl, -⟩ | ⟨s, -, rfl, -⟩ <;> decide
    exact List.forall_mem_cons.mpr ⟨first, key made⟩

end ForestQuery.Segment
