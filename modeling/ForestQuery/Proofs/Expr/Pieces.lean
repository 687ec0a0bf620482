import ForestQuery.Proofs.Column.Pieces
import ForestQuery.Proofs.Expr
/-!
What segment expressions write, whatever the value is. Main statement: what is written for an integer, an identifier or
a key has the width of its segment, unless it cannot be read.
-/

namespace ForestQuery

open Segment SegmentKind

theorem isPiece_ofChars {kind : SegmentKind} {cs : List Char} (shape : cs.length = kind.width ∨ ∃ r, cs = '-' :: '-' :: r) :
    IsPiece kind (.ofChars cs) where
  whole := StoredText.isWhole_ofChars cs
  width := by
    intro _ apart
    rcases shape with width | ⟨r, rfl⟩
    · rw [StoredText.length_ofChars, width]
    · exact absurd (List.prefix_append [StoredChar.char '-', .char '-'] (StoredText.ofChars r)).isInfix apart

theorem Value.exists_asText {v : Value} (present : v.isNull = false) :
    ∃ t, v.scalar.asText? = some t ∧ t.IsWhole := by
  cases v with
  | null => cases present
  | integer i => exact ⟨_, rfl, StoredText.isWhole_ofChars _⟩
  | real x => exact ⟨_, rfl, StoredText.isWhole_ofChars _⟩
  | text s => exact ⟨_, rfl, StoredText.isWhole_ofChars _⟩
  | blob bytes => exact ⟨_, rfl, StoredText.isWhole_ofBytes _⟩

/-- Whether a store counts the characters of a value's text. -/
def Value.IsShort (v : Value) : Prop := (v.scalar.asText?.getD []).length < 9223372036854775808

instance (v : Value) : Decidable v.IsShort := inferInstanceAs (Decidable (_ < _))

namespace Dialect

theorem natAbs_asInteger_lt (v : Scalar) : v.asInteger.toInt.natAbs < Nat.pow 10 19 := by
  have lower := v.asInteger.le_toInt
  have upper := v.asInteger.toInt_lt
  exact Nat.lt_of_le_of_lt (show _ ≤ 9223372036854775808 by omega) (by decide)

/-- Any value takes as many characters as are asked for. -/
theorem exists_padIntegerOf (v : Scalar) :
    ∃ cs, Dialect.sqlite.padIntegerOf integerWidth v = .ofChars cs ∧ cs.length = integerWidth := by
  have small := natAbs_asInteger_lt v
  simp only [padIntegerOf]
  split
  · exact ⟨_, rfl, congrArg (· + 1) (Text.length_zeroPadded (by decide) small)⟩
  · exact ⟨_, rfl, Text.length_zeroPadded (by decide) (Nat.lt_trans small (by decide))⟩

theorem exists_padIntegerOf_offset (v : Scalar) :
    ∃ cs, Dialect.sqlite.padIntegerOf (integerWidth - 1) v = .ofChars cs ∧
      (cs.length = integerWidth - 1 ∨ ∃ r, cs = '-' :: r) := by
  simp only [padIntegerOf]
  split
  · exact ⟨_, rfl, Or.inr ⟨_, rfl⟩⟩
  · exact ⟨_, rfl, Or.inl (Text.length_zeroPadded (by decide) (natAbs_asInteger_lt v))⟩

end Dialect

namespace Expr

variable {env : Reference → Value} {e expr : Expr} {t : StoredText} {kind : SegmentKind}

theorem exists_eval_of_evalText (text : e.evalText .sqlite env = .ok t) :
    ∃ x, e.eval .sqlite env = .ok x ∧ t = x.asText?.getD [] := by
  obtain ⟨x, value, same⟩ := Outcome.bind_eq_ok_iff.mp text
  exact ⟨x, value, (Except.ok.inj same).symm⟩

theorem isPiece_integerSegment (text : (integerSegment e).evalText .sqlite env = .ok t) : IsPiece .integer t := by
  obtain ⟨x, value, rfl⟩ := exists_eval_of_evalText text
  rw [integerSegment] at value
  obtain ⟨v, subject, -⟩ := Outcome.bind_eq_ok_iff.mp value
  rw [eval_bySign subject] at value
  split at value
  · obtain rfl := Except.ok.inj (value.symm.trans (eval_literal (List.replicate integerWidth ' ')))
    exact isPiece_ofChars (Or.inl List.length_replicate)
  split at value
  · obtain ⟨y, offset⟩ : ∃ y, (Expr.offset e).eval .sqlite env = .ok y := ⟨_, by rw [eval, subject]; rfl⟩
    obtain ⟨cs, padded, shape⟩ := Dialect.exists_padIntegerOf_offset y
    have digits : (padInteger (Expr.offset e) (integerWidth - 1)).eval .sqlite env = .ok (.ofChars cs) := by
      rw [eval, offset, ← padded]
      rfl
    obtain rfl := Except.ok.inj (value.symm.trans (eval_concat (eval_literal ['-']) digits))
    rcases shape with length | ⟨r, minus⟩
    · refine isPiece_ofChars (Or.inl ?_)
      rw [List.length_append, length]
      rfl
    · refine isPiece_ofChars (Or.inr ⟨r, ?_⟩)
      rw [minus]
      rfl
  · obtain ⟨cs, padded, length⟩ := Dialect.exists_padIntegerOf v
    have digits : (padInteger e integerWidth).eval .sqlite env = .ok (.ofChars cs) := by
      rw [eval, subject, ← padded]
      rfl
    obtain rfl := Except.ok.inj (value.symm.trans digits)
    exact isPiece_ofChars (Or.inl length)

theorem beforeNul_of_not_mem (noNul : StoredChar.char '\x00' ∉ t) : t.beforeNul = t :=
  List.takeWhile_eq_self_iff.mpr fun c member => by
    rw [bne_iff_ne]
    rintro rfl
    exact noNul member

/-- An identifier is written as the text of the value in lower case, which has 36 characters in front of a U+0000. -/
theorem uuidSegment_text {r : Reference} (short : (env r).IsShort)
    (text : (uuidSegment .sqlite (reference r)).evalText .sqlite env = .ok t) :
    (env r).isNull = true ∧ t = .ofChars (List.replicate uuidWidth ' ') ∨
      ∃ u, (env r).scalar.asText? = some u ∧ u.IsWhole ∧ t = u.map StoredChar.toLower ∧ t.beforeNul.length = uuidWidth := by
  obtain ⟨x, value, rfl⟩ := exists_eval_of_evalText text
  have subject : (reference r).eval .sqlite env = .ok (env r).scalar := by rw [eval]
  rw [uuidSegment, eval_choose subject] at value
  split at value
  · rename_i absent
    obtain rfl := Except.ok.inj (value.symm.trans (eval_literal (List.replicate uuidWidth ' ')))
    rw [Test.holds, Scalar.isNull_scalar] at absent
    exact Or.inl ⟨absent, rfl⟩
  · rename_i present
    rw [Test.holds, Scalar.isNull_scalar, Bool.not_eq_true] at present
    obtain ⟨u, written, whole⟩ := Value.exists_asText present
    rw [Value.IsShort, written, Option.getD_some] at short
    have lower : (lowerUuid (reference r)).eval .sqlite env = .ok (.text (u.map StoredChar.toLower)) := by
      rw [eval, subject]
      simp only [bind, Except.bind, pure, Except.pure, Scalar.mapText, written, Option.map_some, Option.getD_some]
    have length : (charLength (lowerUuid (reference r))).eval .sqlite env
        = .ok (Scalar.ofCount (StoredText.beforeNul (u.map StoredChar.toLower)).length) := by
      rw [eval, lower]
      rfl
    have few : (StoredText.beforeNul (u.map StoredChar.toLower)).length < 9223372036854775808 := by
      have shorter := StoredText.length_beforeNul_le (u.map StoredChar.toLower)
      rw [List.length_map] at shorter
      exact Nat.lt_of_le_of_lt shorter short
    rw [eval_guarded length, holds_differs_ofCount few] at value
    split at value
    · rw [eval_raise lower] at value
      cases value
    · rename_i same
      rw [decide_eq_true_eq, Decidable.not_not] at same
      obtain rfl := Except.ok.inj (value.symm.trans lower)
      exact Or.inr ⟨u, written, whole, rfl, same⟩

theorem isPiece_uuidSegment {r : Reference} (short : (env r).IsShort)
    (text : (uuidSegment .sqlite (reference r)).evalText .sqlite env = .ok t) : IsPiece .uuid t := by
  rcases uuidSegment_text short text with ⟨-, rfl⟩ | ⟨u, -, whole, rfl, length⟩
  · exact isPiece_ofChars (Or.inl List.length_replicate)
  · refine ⟨StoredText.isWhole_map_toLower whole, fun noNul _ => ?_⟩
    rw [beforeNul_of_not_mem noNul] at length
    exact length

theorem exists_eval_keyDigits {x : Scalar} {bytes : Nat} {y : Scalar} (subject : e.eval .sqlite env = .ok x)
    (value : (keyDigits e bytes).eval .sqlite env = .ok y) : ∃ cs, y = .ofChars cs ∧ cs.length = bytes * 2 := by
  obtain ⟨raw, digits⟩ : ∃ raw, (hex e).eval .sqlite env = .ok (.ofChars (Text.hexOfBytes raw)) := by
    rw [eval, subject]
    cases x with
    | null => exact ⟨[], rfl⟩
    | integer i => exact ⟨_, rfl⟩
    | real y => exact ⟨_, rfl⟩
    | text t => exact ⟨_, rfl⟩
    | blob raw => exact ⟨raw, rfl⟩
  rw [keyDigits, eval_guarded (eval_charLength digits)] at value
  split at value
  · rw [eval_raise digits] at value
    cases value
  · obtain rfl := Except.ok.inj (value.symm.trans (eval_padText digits))
    refine ⟨_, rfl, ?_⟩
    rw [Dialect.visible_of_clean .sqlite (nul_not_mem_fill (nul_not_mem_hexOfBytes raw) (by decide)), List.length_take,
      List.length_append, List.length_replicate]
    omega

theorem isPiece_textKeySegment {bytes : Nat} {descending : Bool}
    (made : textKeySegment? .sqlite e bytes descending = some expr) (text : expr.evalText .sqlite env = .ok t) :
    IsPiece (.textKey bytes descending) t := by
  rw [textKeySegment?_eq, Option.some.injEq] at made
  subst made
  obtain ⟨x, value, rfl⟩ := exists_eval_of_evalText text
  obtain ⟨m, marker, rest⟩ := Outcome.bind_eq_ok_iff.mp value
  obtain ⟨k, key, -⟩ := Outcome.bind_eq_ok_iff.mp rest
  obtain ⟨v, subject, -⟩ := Outcome.bind_eq_ok_iff.mp marker
  obtain ⟨c, single⟩ : ∃ c, (keyMarker e).eval .sqlite env = .ok (.ofChars [c]) := by
    rw [keyMarker, eval_choose subject]
    split <;> exact ⟨_, rfl⟩
  obtain ⟨cs, digits, length⟩ : ∃ cs, (if descending then complement (keyDigits e bytes) else keyDigits e bytes).eval
      .sqlite env = .ok (.ofChars cs) ∧ cs.length = bytes * 2 := by
    cases descending with
    | false =>
      obtain ⟨cs, rfl, length⟩ := exists_eval_keyDigits subject key
      exact ⟨cs, key, length⟩
    | true =>
      obtain ⟨y, inner, -⟩ := Outcome.bind_eq_ok_iff.mp key
      obtain ⟨cs, rfl, length⟩ := exists_eval_keyDigits subject inner
      exact ⟨_, eval_complement inner, by rw [Text.length_complementHex, length]⟩
  obtain rfl := Except.ok.inj (value.symm.trans (eval_concat single digits))
  refine isPiece_ofChars (Or.inl ?_)
  rw [List.length_append, length]
  rfl

/-- What is written for a value is a piece of a level. -/
theorem isPiece_segment? (made : segment? .sqlite e kind = some expr) (plain : ∀ width, kind ≠ .text width)
    (short : kind = .uuid → ∃ r, e = reference r ∧ (env r).IsShort) (text : expr.evalText .sqlite env = .ok t) :
    IsPiece kind t := by
  cases kind with
  | text width => exact absurd rfl (plain width)
  | integer =>
    cases made
    exact isPiece_integerSegment text
  | uuid =>
    cases made
    obtain ⟨r, rfl, few⟩ := short rfl
    exact isPiece_uuidSegment few text
  | textKey bytes descending => exact isPiece_textKeySegment made text

end Expr

end ForestQuery
