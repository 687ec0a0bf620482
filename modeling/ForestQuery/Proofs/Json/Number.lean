import ForestQuery.Json.Decode
import ForestQuery.Proofs.Json
import ForestQuery.Proofs.Text.Decimal
/-!
Integers in JSON. Main statement: an integer of 64 bits, with a sign or without, is read back from its digits.
-/

namespace ForestQuery

theorem Text.int64?_toInt (i : Int64) : int64? i.toInt = some i := by
  rw [int64?, if_pos ⟨i.minValue_le_toInt, i.toInt_le⟩, Int64.ofInt_toInt]

namespace Json

variable {n : Nat} {cs rest : List Char}

theorem IsEnd.ne {c d : Char} (ends : IsEnd (c :: rest)) (other : ¬ (d = ',' ∨ d = ']' ∨ d = '\x7d')) : c ≠ d := by
  rintro rfl
  exact other (ends c rfl)

theorem IsEnd.isDigit {c : Char} (ends : IsEnd (c :: rest)) : c.isDigit = false := by
  rcases ends c rfl with rfl | rfl | rfl <;> rfl

theorem digits?_append (nonempty : cs ≠ []) (digits : ∀ c ∈ cs, c.isDigit = true) (ends : IsEnd rest) :
    digits? (cs ++ rest) = some (cs, rest) := by
  have stop : rest.takeWhile Char.isDigit = [] ∧ rest.dropWhile Char.isDigit = rest := by
    cases rest with
    | nil => exact ⟨rfl, rfl⟩
    | cons c rest => simp [ends.isDigit]
  rw [digits?, List.takeWhile_append_of_pos digits, List.dropWhile_append_of_pos digits, stop.1, stop.2,
    List.append_nil, if_neg (by simpa using nonempty)]

theorem whole?_decimalDigits (n : Nat) (ends : IsEnd rest) :
    whole? (Text.decimalDigits n ++ rest) = some (Text.decimalDigits n, rest) := by
  rcases Nat.eq_zero_or_pos n with rfl | positive
  · rfl
  · have read := digits?_append (Text.decimalDigits_ne_nil n) (Text.isDigit_of_mem_decimalDigits n) ends
    have first := Text.head?_decimalDigits positive
    rw [whole?, read]
    intro r zero
    obtain ⟨c, cs, shape, -⟩ := Text.exists_decimalDigits n
    rw [shape] at first zero
    exact first (congrArg some (List.cons.inj zero).1)

theorem fraction?_of_isEnd (ends : IsEnd rest) : fraction? rest = some ([], rest) := by
  cases rest with
  | nil => rfl
  | cons c rest =>
    rw [fraction?]
    intro r point
    exact ends.ne (by decide) (List.cons.inj point).1

theorem exponent?_of_isEnd (ends : IsEnd rest) : exponent? rest = some (none, rest) := by
  cases rest with
  | nil => rfl
  | cons c rest =>
    have unmarked : ¬ (c = 'e' ∨ c = 'E') := by
      rintro (mark | mark)
      · exact ends.ne (by decide) mark
      · exact ends.ne (by decide) mark
    simp only [exponent?, if_neg unmarked]

/-- The pieces of an integer. -/
def wholeLiteral (negative : Bool) (n : Nat) : Literal := ⟨negative, Text.decimalDigits n, [], none⟩

theorem literal?_decimalDigits (n : Nat) (ends : IsEnd rest) :
    literal? (Text.decimalDigits n ++ rest) = some (wholeLiteral false n, rest) := by
  have unsigned : ∀ r, Text.decimalDigits n ++ rest ≠ '-' :: r := by
    intro r sign
    obtain ⟨c, cs, shape, digit⟩ := Text.exists_decimalDigits n
    rw [shape] at sign
    rw [(List.cons.inj sign).1] at digit
    cases digit
  unfold literal?
  split
  rename_i negative body same
  split at same
  · rename_i r sign
    exact absurd sign (unsigned r)
  · cases same
    simp only [whole?_decimalDigits n ends, fraction?_of_isEnd ends, exponent?_of_isEnd ends, Option.map_some,
      wholeLiteral]

theorem literal?_minus (n : Nat) (ends : IsEnd rest) :
    literal? ('-' :: (Text.decimalDigits n ++ rest)) = some (wholeLiteral true n, rest) := by
  simp only [literal?, whole?_decimalDigits n ends, fraction?_of_isEnd ends, exponent?_of_isEnd ends, Option.map_some,
    wholeLiteral]

theorem isReadable_ofInt (i : Int) : (ofInt i).IsReadable := by
  cases i with
  | ofNat n =>
    obtain ⟨c, cs, shape, digit⟩ := Text.exists_decimalDigits n
    rw [ofInt, Text.integerChars, shape]
    exact .number (Or.inr digit) fun rest ends => ⟨_, shape ▸ literal?_decimalDigits n ends⟩
  | negSucc n =>
    rw [ofInt, Text.integerChars]
    exact .number (Or.inl rfl) fun rest ends => ⟨_, literal?_minus (n + 1) ends⟩

theorem isReadable_ofNat (n : Nat) : (ofNat n).IsReadable := isReadable_ofInt n

theorem significand_wholeLiteral (negative : Bool) (n : Nat) : (wholeLiteral negative n).significand = n := by
  rw [Literal.significand, wholeLiteral, List.append_nil, Text.natOfDigits?_decimalDigits, Option.getD_some]

/-- An integer of 64 bits, with a sign or without, is read back. -/
theorem numeric?_integerChars {i : Int} (lower : -9223372036854775808 ≤ i) (upper : i < 18446744073709551616) :
    numeric? (Text.integerChars i) = some (.integer i) := by
  have ends : IsEnd [] := by simp [IsEnd]
  cases i with
  | ofNat n =>
    have read := literal?_decimalDigits n ends
    have small : n < Literal.unsignedBound := by
      rw [Literal.unsignedBound]
      exact Int.ofNat_lt.mp upper
    have value : (wholeLiteral false n).integer? = some (n : Int) := by
      rw [Literal.integer?, significand_wholeLiteral]
      exact if_pos small
    rw [List.append_nil] at read
    simp only [Text.integerChars, numeric?, read, Literal.numeric?, value]
    rfl
  | negSucc n =>
    have read := literal?_minus (n + 1) ends
    have small : n + 1 ≠ 0 ∧ n + 1 ≤ Literal.unsignedBound / 2 := by
      rw [Literal.unsignedBound]
      omega
    have value : (wholeLiteral true (n + 1)).integer? = some (Int.negSucc n) := by
      rw [Literal.integer?, significand_wholeLiteral]
      exact if_pos small
    rw [List.append_nil] at read
    simp only [Text.integerChars, numeric?, read, Literal.numeric?, value]

theorem int?_ofInt {i : Int} (lower : -9223372036854775808 ≤ i) (upper : i < 18446744073709551616) :
    (ofInt i).int? = some i := by
  simp only [ofInt, int?, numeric?_integerChars lower upper]

theorem nat?_ofNat {bound : Nat} (small : n < bound) (word : bound ≤ 18446744073709551616) :
    nat? bound (ofNat n) = some n := by
  have read : (ofNat n).int? = some (n : Int) := @int?_ofInt n (by omega) (by omega)
  rw [nat?, read, Option.bind_some, if_pos (by omega), Int.toNat_natCast]

end Json

end ForestQuery
