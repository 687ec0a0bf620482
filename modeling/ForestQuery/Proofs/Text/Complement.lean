import ForestQuery.Proofs.Text.Hexadecimal
/-!
Complements of hexadecimal digits within any text. Main statement: a complement changes the hexadecimal digits and
nothing else, two of them leave the text with its hexadecimal letters in upper case, and texts of upper-case digits are
in the order against that of their complements.
-/

namespace ForestQuery.Text

variable {c : Char} {cs ds : List Char}

/-- A hexadecimal digit in either case. -/
def IsHexDigit (c : Char) : Prop := '0' ≤ c ∧ c ≤ '9' ∨ 'a' ≤ c ∧ c ≤ 'f' ∨ 'A' ≤ c ∧ c ≤ 'F'

instance : DecidablePred IsHexDigit := fun c =>
  inferInstanceAs (Decidable ('0' ≤ c ∧ c ≤ '9' ∨ 'a' ≤ c ∧ c ≤ 'f' ∨ 'A' ≤ c ∧ c ≤ 'F'))

def IsUpperHexDigit (c : Char) : Prop := '0' ≤ c ∧ c ≤ '9' ∨ 'A' ≤ c ∧ c ≤ 'F'

instance : DecidablePred IsUpperHexDigit := fun c =>
  inferInstanceAs (Decidable ('0' ≤ c ∧ c ≤ '9' ∨ 'A' ≤ c ∧ c ≤ 'F'))

/-- Puts a hexadecimal letter in upper case and keeps any other character. -/
def upperHexLetter (c : Char) : Char := if 'a' ≤ c ∧ c ≤ 'f' then c.toUpper else c

theorem exists_hexValue?_iff : (∃ d, hexValue? c = some d) ↔ IsHexDigit c := by
  rw [hexValue?, IsHexDigit]
  split
  · rename_i digit
    simp [digit]
  · rename_i digit
    split
    · rename_i lower
      simp [lower]
    · rename_i lower
      split
      · rename_i upper
        simp [upper]
      · rename_i upper
        simp [digit, lower, upper]

theorem lt_of_isHexDigit (digit : IsHexDigit c) : c.toNat < 128 := by
  obtain ⟨d, value⟩ := exists_hexValue?_iff.mpr digit
  exact lt_of_hexValue? value

theorem complementHexDigit_of_not_isHexDigit (other : ¬ IsHexDigit c) : complementHexDigit c = c := by
  have none : hexValue? c = none := by
    rw [Option.eq_none_iff_forall_ne_some]
    exact fun d value => other (exists_hexValue?_iff.mp ⟨d, value⟩)
  rw [complementHexDigit, none]

/-- The digits and no other characters are changed: a value and what it lacks to 15 are never the same. -/
theorem complementHexDigit_ne_iff : complementHexDigit c ≠ c ↔ IsHexDigit c := by
  have changes : ∀ n : Fin 128, IsHexDigit (Char.ofNat n) → complementHexDigit (Char.ofNat n) ≠ Char.ofNat n := by
    decide
  constructor
  · intro changed
    by_contra other
    exact changed (complementHexDigit_of_not_isHexDigit other)
  · intro digit
    exact forall_of_ascii (P := fun c => IsHexDigit c → complementHexDigit c ≠ c) changes (lt_of_isHexDigit digit) digit

theorem complementHexDigit_complementHexDigit (c : Char) :
    complementHexDigit (complementHexDigit c) = upperHexLetter c := by
  have twice : ∀ n : Fin 128,
      complementHexDigit (complementHexDigit (Char.ofNat n)) = upperHexLetter (Char.ofNat n) := by decide
  by_cases digit : IsHexDigit c
  · exact forall_of_ascii (P := fun c => complementHexDigit (complementHexDigit c) = upperHexLetter c) twice
      (lt_of_isHexDigit digit)
  · rw [complementHexDigit_of_not_isHexDigit digit, complementHexDigit_of_not_isHexDigit digit, upperHexLetter,
      if_neg fun lower => digit (Or.inr (Or.inl lower))]

theorem complementHex_complementHex (cs : List Char) : complementHex (complementHex cs) = cs.map upperHexLetter := by
  rw [complementHex, complementHex, List.map_map]
  exact List.map_congr_left fun c _ => complementHexDigit_complementHexDigit c

theorem IsUpperHexDigit.isHexDigit (upper : IsUpperHexDigit c) : IsHexDigit c := upper.imp_right Or.inr

theorem IsUpperHexDigit.exists_upperHexDigit (upper : IsUpperHexDigit c) : ∃ d < 16, c = upperHexDigit d := by
  have written : ∀ n : Fin 128, IsUpperHexDigit (Char.ofNat n) → ∃ d < 16, Char.ofNat n = upperHexDigit d := by
    decide
  exact forall_of_ascii (P := fun c => IsUpperHexDigit c → ∃ d < 16, c = upperHexDigit d) written
    (lt_of_isHexDigit upper.isHexDigit) upper

/-- What is in upper case stays so. -/
theorem map_upperHexLetter_of_upper (upper : ∀ c ∈ cs, IsUpperHexDigit c) : cs.map upperHexLetter = cs := by
  have each : ∀ c ∈ cs, upperHexLetter c = c := by
    intro c member
    refine if_neg fun lower => ?_
    -- Both kinds of upper-case digits come before the lower-case letters.
    rcases upper c member with digit | letter
    · exact absurd (Char.le_trans lower.1 digit.2) (by decide)
    · exact absurd (Char.le_trans lower.1 letter.2) (by decide)
  rw [List.map_congr_left each, List.map_id']

theorem isAscii_complementHex (ascii : IsAscii cs) : IsAscii (complementHex cs) := by
  have small : ∀ n : Fin 128, (complementHexDigit (Char.ofNat n)).toNat < 128 := by decide
  intro c member
  obtain ⟨d, before, rfl⟩ := List.mem_map.mp member
  exact forall_of_ascii (P := fun c => (complementHexDigit c).toNat < 128) small (ascii d before)

theorem isAscii_of_upper (upper : ∀ c ∈ cs, IsUpperHexDigit c) : IsAscii cs :=
  fun c member => lt_of_isHexDigit (upper c member).isHexDigit

/-- Upper-case digits of one length are in the order of bytes against that of their complements. -/
theorem compareBytes_complementHex (first : ∀ c ∈ cs, IsUpperHexDigit c) (second : ∀ c ∈ ds, IsUpperHexDigit c)
    (length : cs.length = ds.length) :
    compareBytes (utf8 (complementHex cs)) (utf8 (complementHex ds)) = (compareBytes (utf8 cs) (utf8 ds)).swap := by
  have ascii := isAscii_of_upper first
  have ascii' := isAscii_of_upper second
  rw [compareBytes_eq_compare, compareBytes_eq_compare, compare_utf8 ascii ascii',
    compare_utf8 (isAscii_complementHex ascii) (isAscii_complementHex ascii'),
    compare_complementHex length (fun c member => (first c member).exists_upperHexDigit)
      fun c member => (second c member).exists_upperHexDigit]

/-- The complement of a text has as many characters, and differs from it exactly where there are hexadecimal digits. The
complement of the complement is the text with its hexadecimal letters in upper case, so upper-case digits come back; and
those of one length are in the order of bytes against that of their complements. -/
theorem complement_reverses (cs : List Char) :
    (complementHex cs).length = cs.length ∧
    (∀ (i : Nat) c, cs[i]? = some c → ∃ d, (complementHex cs)[i]? = some d ∧ (d ≠ c ↔ IsHexDigit c)) ∧
    complementHex (complementHex cs) = cs.map upperHexLetter ∧
    ((∀ c ∈ cs, IsUpperHexDigit c) →
      complementHex (complementHex cs) = cs ∧
      ∀ ds, (∀ c ∈ ds, IsUpperHexDigit c) → cs.length = ds.length →
        compareBytes (utf8 (complementHex cs)) (utf8 (complementHex ds))
          = (compareBytes (utf8 cs) (utf8 ds)).swap) := by
  refine ⟨length_complementHex cs, fun i c inside => ?_, complementHex_complementHex cs, fun upper => ⟨?_, ?_⟩⟩
  · exact ⟨complementHexDigit c, by rw [complementHex, List.getElem?_map, inside, Option.map_some],
      complementHexDigit_ne_iff⟩
  · rw [complementHex_complementHex, map_upperHexLetter_of_upper upper]
  · exact fun ds upper' length => compareBytes_complementHex upper upper' length

theorem complement_reverses_sample :
    complementHex (complementHex "09AF".toList) = "09AF".toList ∧
    compareBytes (utf8 (complementHex "09AF".toList)) (utf8 (complementHex "09B0".toList)) = .gt ∧
    complementHex (complementHex "ü-9af".toList) = "ü-9AF".toList := by
  have digits (cs : List Char) (each : (cs.all fun c => decide (IsUpperHexDigit c)) = true) :
      ∀ c ∈ cs, IsUpperHexDigit c := fun c member => of_decide_eq_true (List.all_eq_true.mp each c member)
  obtain ⟨-, -, -, upper⟩ := complement_reverses "09AF".toList
  obtain ⟨back, order⟩ := upper (digits _ (by decide))
  obtain ⟨-, -, twice, -⟩ := complement_reverses "ü-9af".toList
  refine ⟨back, ?_, twice.trans (by decide)⟩
  rw [order "09B0".toList (digits _ (by decide)) (by decide)]
  decide

end ForestQuery.Text
