import ForestQuery.Proofs.Segment.RoundTrip
/-!
Which texts are read as segments. Main statements: of the texts of their width exactly the written segments of integers
are read as integers, and the length in front of a text is four digits, or a plus sign and three.
-/

namespace ForestQuery

theorem Text.toInt_of_int64? {i : Int64} {j : Int} (made : int64? j = some i) : i.toInt = j := by
  rw [int64?] at made
  split at made
  · rename_i range
    obtain rfl := Option.some.inj made
    rw [Segment.minValue_toInt, Segment.maxValue_toInt] at range
    exact Int64.toInt_ofInt_of_le (by omega) (by omega)
  · cases made

namespace Segment

open SegmentKind

variable {cs : List Char} {v : Value} {i : Int64}

/-- Digits that are read as an integer are its text behind zeros. -/
theorem zeroPadded_of_digits64? (read : digits64? cs = some i) :
    0 ≤ i.toInt ∧ Text.zeroPadded cs.length i.toInt.toNat = cs := by
  rw [digits64?] at read
  split at read
  · obtain ⟨n, number, made⟩ := Option.bind_eq_some_iff.mp read
    have value : i.toInt = n := Text.toInt_of_int64? made
    rw [value]
    exact ⟨by omega, Text.zeroPadded_of_natOfDigits? number⟩
  · cases read

/-- A text is read as an integer in one of three forms. -/
theorem decodeInteger_cases (read : decodeInteger cs = .ok v) :
    cs = blanks cs.length ∧ v = .null ∨ (∃ i, digits64? cs = some i ∧ v = .integer i) ∨
      ∃ digits o, cs = '-' :: digits ∧ digits64? digits = some o ∧
        v = .integer (Int64.ofInt (o.toInt + Int64.minValue.toInt)) := by
  unfold decodeInteger at read
  split at read
  · rename_i blank
    refine Or.inl ⟨List.eq_replicate_iff.mpr ⟨rfl, fun c member => ?_⟩, (Except.ok.inj read).symm⟩
    exact beq_iff_eq.mp (List.all_eq_true.mp blank c member)
  · refine Or.inr ?_
    dsimp only at read
    split at read
    · rename_i number
      split at number
      · obtain ⟨o, offset, rfl⟩ := Option.map_eq_some_iff.mp number
        exact Or.inr ⟨_, o, rfl, offset, (Except.ok.inj read).symm⟩
      · exact Or.inl ⟨_, number, (Except.ok.inj read).symm⟩
    · cases read

theorem encodeInteger_of_digits (width : cs.length = integerWidth) (read : digits64? cs = some i) :
    encodeInteger i = cs := by
  obtain ⟨sign, digits⟩ := zeroPadded_of_digits64? read
  rw [width] at digits
  rw [encodeInteger, if_pos sign, digits]

/-- An integer of 64 bits plus the smallest one is in range, because digits denote no negative one. -/
theorem encodeInteger_of_offset {o : Int64} (width : cs.length = integerWidth - 1) (read : digits64? cs = some o) :
    encodeInteger (Int64.ofInt (o.toInt + Int64.minValue.toInt)) = '-' :: cs := by
  obtain ⟨sign, digits⟩ := zeroPadded_of_digits64? read
  have bound := o.toInt_lt
  have value : (Int64.ofInt (o.toInt + Int64.minValue.toInt)).toInt = o.toInt + Int64.minValue.toInt := by
    rw [minValue_toInt]
    exact Int64.toInt_ofInt_of_le (by omega) (by omega)
  have negative : ¬ 0 ≤ o.toInt + Int64.minValue.toInt := by
    rw [minValue_toInt]
    omega
  rw [width] at digits
  rw [encodeInteger, offset, value, if_neg negative, Int.add_sub_cancel, digits]

/-- Of the texts of its width exactly the written segments are read as integers. -/
theorem decode_integer_iff (width : cs.length = integerWidth) :
    decode cs .integer = .ok v ↔ encode v .integer = .ok cs := by
  constructor
  · intro read
    obtain ⟨blank, rfl⟩ | ⟨i, number, rfl⟩ | ⟨digits, o, rfl, number, rfl⟩ := decodeInteger_cases read
    · rw [encode, blank, width]
    · rw [encode, encodeInteger_of_digits width number]
    · rw [encode, encodeInteger_of_offset (Nat.succ.inj width) number]
  · intro written
    exact decode_encode trivial written

/-- The numbers that the front of a text segment is read as. The plus sign is the one thing that is read and never
written. -/
inductive Counts : List Char → Nat → Prop
  | digits {n : Nat} : n < 10000 → Counts (Text.zeroPadded lengthWidth n) n
  | plus {n : Nat} : n < 1000 → Counts ('+' :: Text.zeroPadded (lengthWidth - 1) n) n

section Text

variable {mark : List Char} {m n width : Nat}

theorem Counts.unsigned? (counts : Counts mark n) : Text.unsigned? widthBound mark = some n := by
  have below : n < widthBound → (some n).filter (· < widthBound) = some n := fun small =>
    Option.filter_some_pos (by simpa using small)
  cases counts with
  | digits small =>
    rw [unsigned?_zeroPadded]
    exact below (Nat.lt_trans small (by decide))
  | plus small =>
    rw [Text.unsigned?, Text.natOfDigits?_zeroPadded]
    exact below (Nat.lt_trans small (by decide))

theorem counts_of_unsigned? (length : mark.length = lengthWidth) (read : Text.unsigned? widthBound mark = some n) :
    Counts mark n := by
  unfold Text.unsigned? at read
  obtain ⟨number, -⟩ := Option.filter_eq_some_iff.mp read
  split at number
  · rename_i r
    have three : r.length = lengthWidth - 1 := Nat.succ.inj length
    have small := Text.natOfDigits?_lt number
    have digits := Text.zeroPadded_of_natOfDigits? number
    rw [three] at small digits
    rw [← digits]
    exact .plus small
  · have small := Text.natOfDigits?_lt number
    have digits := Text.zeroPadded_of_natOfDigits? number
    rw [length] at small digits
    rw [← digits]
    exact .digits small

theorem Counts.unique (first : Counts mark m) (second : Counts mark n) : m = n :=
  Option.some.inj (first.unsigned?.symm.trans second.unsigned?)

theorem not_counts_nullMark : ¬ Counts nullMark n := by
  intro counts
  have read := counts.unsigned?
  rw [show Text.unsigned? widthBound nullMark = none by decide] at read
  cases read

theorem decodeText_of_absent (absent : cs.take lengthWidth = nullMark) : decodeText width cs = .ok .null := by
  rw [decodeText, if_pos absent]

/-- The mark of an overflow is a number that no width reaches, so it needs no case of its own. -/
theorem decodeText_of_overlong (counts : Counts (cs.take lengthWidth) n) (overlong : width < n) :
    decodeText width cs = .error (.encodingOverflow .storedText width) := by
  have present : cs.take lengthWidth ≠ nullMark := fun absent => not_counts_nullMark (absent ▸ counts)
  rw [decodeText, if_neg present]
  split
  · rfl
  · simp only [counts.unsigned?, if_pos overlong]

theorem decodeText_of_counts (bounded : width ≤ maxTextWidth) (counts : Counts (cs.take lengthWidth) n) (fits : n ≤ width) :
    decodeText width cs = .ok (.text (String.ofList ((cs.drop lengthWidth).take n))) := by
  have present : cs.take lengthWidth ≠ nullMark := fun absent => not_counts_nullMark (absent ▸ counts)
  have small : n < 9999 := Nat.lt_succ_of_le (Nat.le_trans fits bounded)
  have visible : cs.take lengthWidth ≠ overflowMark := by
    intro marked
    rw [marked] at counts
    exact Nat.ne_of_lt small (counts.unique (.digits (n := 9999) (by decide)))
  rw [decodeText, if_neg present, if_neg visible]
  simp only [counts.unsigned?, if_neg (Nat.not_lt.mpr fits)]

theorem decodeText_of_malformed (length : (cs.take lengthWidth).length = lengthWidth)
    (present : cs.take lengthWidth ≠ nullMark) (uncounted : ∀ n, ¬ Counts (cs.take lengthWidth) n) :
    decodeText width cs = .error (.decode (.badLength (String.ofList (cs.take lengthWidth)))) := by
  have visible : cs.take lengthWidth ≠ overflowMark := by
    intro marked
    refine uncounted 9999 ?_
    rw [marked]
    exact .digits (n := 9999) (by decide)
  have unread : Text.unsigned? widthBound (cs.take lengthWidth) = none := by
    cases read : Text.unsigned? widthBound (cs.take lengthWidth) with
    | none => rfl
    | some n => exact absurd (counts_of_unsigned? length read) (uncounted n)
  rw [decodeText, if_neg present, if_neg visible]
  simp only [unread]

/-- A text segment is read in one of four ways. -/
theorem decodeText_cases (bounded : width ≤ maxTextWidth) (length : (cs.take lengthWidth).length = lengthWidth) :
    cs.take lengthWidth = nullMark ∧ decodeText width cs = .ok .null ∨
      (∃ n, Counts (cs.take lengthWidth) n ∧ width < n ∧
        decodeText width cs = .error (.encodingOverflow .storedText width)) ∨
      (∃ n, Counts (cs.take lengthWidth) n ∧ n ≤ width ∧
        decodeText width cs = .ok (.text (String.ofList ((cs.drop lengthWidth).take n)))) ∨
      cs.take lengthWidth ≠ nullMark ∧ (∀ n, ¬ Counts (cs.take lengthWidth) n) ∧
        decodeText width cs = .error (.decode (.badLength (String.ofList (cs.take lengthWidth)))) := by
  by_cases absent : cs.take lengthWidth = nullMark
  · exact Or.inl ⟨absent, decodeText_of_absent absent⟩
  · by_cases counted : ∃ n, Counts (cs.take lengthWidth) n
    · obtain ⟨n, counts⟩ := counted
      by_cases overlong : width < n
      · exact Or.inr (Or.inl ⟨n, counts, overlong, decodeText_of_overlong counts overlong⟩)
      · have fits := Nat.le_of_not_lt overlong
        exact Or.inr (Or.inr (Or.inl ⟨n, counts, fits, decodeText_of_counts bounded counts fits⟩))
    · have uncounted := not_exists.mp counted
      exact Or.inr (Or.inr (Or.inr ⟨absent, uncounted, decodeText_of_malformed length absent uncounted⟩))

/-- What a text segment of the right length is read as, by the four characters in front. -/
theorem text_grammar (bounded : width ≤ maxTextWidth) (length : cs.length = (SegmentKind.text width).width) :
    (decode cs (.text width) = .ok .null ↔ cs.take lengthWidth = nullMark) ∧
      (∀ w detail, decode cs (.text width) = .error (.encodingOverflow detail w) ↔
        detail = .storedText ∧ w = width ∧ ∃ n, Counts (cs.take lengthWidth) n ∧ width < n) ∧
      (∀ t, decode cs (.text width) = .ok (.text t) ↔
        ∃ n, Counts (cs.take lengthWidth) n ∧ n ≤ width ∧ t.toList = (cs.drop lengthWidth).take n) ∧
      ((∃ fault, decode cs (.text width) = .error (.decode fault)) ↔
        cs.take lengthWidth ≠ nullMark ∧ ∀ n, ¬ Counts (cs.take lengthWidth) n) := by
  have mark : (cs.take lengthWidth).length = lengthWidth := by
    rw [List.length_take, length, SegmentKind.width]
    omega
  have only {n : Nat} (counts : Counts (cs.take lengthWidth) n) (m : Nat) : Counts (cs.take lengthWidth) m ↔ m = n :=
    ⟨fun other => other.unique counts, fun same => same ▸ counts⟩
  have present {n : Nat} (counts : Counts (cs.take lengthWidth) n) : cs.take lengthWidth ≠ nullMark :=
    fun absent => not_counts_nullMark (absent ▸ counts)
  rw [decode]
  obtain ⟨absent, read⟩ | ⟨n, counts, overlong, read⟩ | ⟨n, counts, fits, read⟩ | ⟨other, uncounted, read⟩ :=
    decodeText_cases bounded mark
  · simp [read, absent, not_counts_nullMark]
  · simp only [read, only counts, present counts]
    simp [overlong, Nat.not_le.mpr overlong, eq_comm]
  · have text (t : String) : String.ofList ((cs.drop lengthWidth).take n) = t ↔
        t.toList = (cs.drop lengthWidth).take n := by
      rw [← String.toList_inj, String.toList_ofList, eq_comm]
    simp only [read, only counts, present counts]
    simp [fits, Nat.not_lt.mpr fits, text]
  · simp [read, other, uncounted]

theorem text_grammar_three :
    3 ≤ maxTextWidth ∧ decode "0002ab ".toList (.text 3) = .ok (.text "ab") ∧
      decode "0004ab ".toList (.text 3) = .error (.encodingOverflow .storedText 3) := by
  have fitting := text_grammar (by decide : 3 ≤ maxTextWidth) (by decide : "0002ab ".toList.length = _)
  have overlong := text_grammar (by decide : 3 ≤ maxTextWidth) (by decide : "0004ab ".toList.length = _)
  refine ⟨by decide, (fitting.2.2.1 "ab").mpr ⟨2, ?_, by decide, by decide⟩,
    (overlong.2.1 3 .storedText).mpr ⟨rfl, rfl, 4, ?_, by decide⟩⟩
  · exact (by decide : "0002ab ".toList.take lengthWidth = Text.zeroPadded lengthWidth 2) ▸ .digits (by decide)
  · exact (by decide : "0004ab ".toList.take lengthWidth = Text.zeroPadded lengthWidth 4) ▸ .digits (by decide)

/-- A plus sign in front is read, although the length has to be four digits or the mark of an absent text. -/
theorem read_behind_plus :
    decode "+003abcde".toList (.text 5) = .ok (.text "abc") ∧
      "+003abcde".toList.length = (SegmentKind.text 5).width ∧
      ("+003abcde".toList.take lengthWidth).all isDigit = false ∧ "+003abcde".toList.take lengthWidth ≠ nullMark := by
  decide

end Text

end Segment

end ForestQuery
