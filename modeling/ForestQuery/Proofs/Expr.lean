import ForestQuery.Encoding
import ForestQuery.Expr.Evaluation
import ForestQuery.Proofs.Column
import Mathlib.Data.List.TakeWhile
/-!
Segment expressions, evaluated in the dialect that statements are run in. Main statement: the expression
for a kind writes the segment of every value that a column of this kind may hold, and fails exactly where
the value has none.
-/

namespace ForestQuery

/-- The values that a column read by a segment of this kind may hold. Text functions end at U+0000, and
identifiers stand with their hyphens. -/
def Segment.IsHeld (v : Value) : SegmentKind → Prop
  | .integer => v = .null ∨ ∃ i, v = .integer i
  | .uuid => v = .null ∨ ∃ s u, v = .text s ∧ s.toList.length = SegmentKind.uuidWidth ∧ Uuid.ofText? s = some u
  | .text _ => v = .null ∨ ∃ s, v = .text s ∧ '\x00' ∉ s.toList
  | .textKey _ _ => v = .null ∨ ∃ s, v = .text s

theorem Value.ofCount_of_lt {n : Nat} (small : n < 9223372036854775808) :
    Value.ofCount n = .integer (Int64.ofInt n) := by
  have range : Int64.minValue.toInt ≤ (n : Int) ∧ (n : Int) ≤ Int64.maxValue.toInt := by
    rw [Segment.minValue_toInt, Segment.maxValue_toInt]
    omega
  simp only [Value.ofCount, Text.int64?, if_pos range, Option.map_some, Option.getD_some]

/-- No text is longer than a store can count. -/
def Value.IsCountable : Value → Prop
  | .text s => (Text.utf8 s.toList).length < 4611686018427387904
  | .null | .integer _ | .real _ | .blob _ => True

theorem Text.length_le_length_utf8 (cs : List Char) : cs.length ≤ (Text.utf8 cs).length := by
  induction cs with
  | nil => exact Nat.le_refl 0
  | cons c r ih =>
    have one : 0 < (String.utf8EncodeChar c).length := by
      rw [String.length_utf8EncodeChar]
      exact c.utf8Size_pos
    rw [Text.utf8, List.flatMap_cons, List.length_append, List.length_cons]
    rw [Text.utf8] at ih
    omega

namespace StoredText

theorem beforeNul_ofChars (cs : List Char) : beforeNul (ofChars cs) = ofChars (cs.takeWhile (· != '\x00')) := by
  rw [beforeNul, ofChars, ofChars, List.takeWhile_map]
  congr 2
  funext c
  simp [bne, BEq.beq]

theorem toBytes_ofChars (cs : List Char) : (ofChars cs).toBytes = Text.utf8 cs := by
  rw [toBytes, ofChars, List.flatMap_map, Text.utf8]
  rfl

end StoredText

namespace Dialect

/-- The characters of a text that the dialect's text functions see. -/
def visible (d : Dialect) (cs : List Char) : List Char :=
  match d with
  | sqlite => cs.takeWhile (· != '\x00')
  | postgres | mysql => cs

theorem seen_ofChars (d : Dialect) (cs : List Char) : d.seen (.ofChars cs) = .ofChars (d.visible cs) := by
  cases d with
  | sqlite => exact StoredText.beforeNul_ofChars cs
  | postgres => rfl
  | mysql => rfl

/-- All of a text without U+0000 is seen. -/
theorem visible_of_clean (d : Dialect) {cs : List Char} (clean : '\x00' ∉ cs) : d.visible cs = cs := by
  cases d with
  | postgres => rfl
  | mysql => rfl
  | sqlite =>
    rw [visible, List.takeWhile_eq_self_iff]
    intro c member
    have other : c ≠ '\x00' := fun same => clean (same ▸ member)
    simpa using other

end Dialect

namespace Scalar

theorem asText?_ofChars (cs : List Char) : (ofChars cs).asText? = some (.ofChars cs) := rfl

theorem addTo_integer {i : Int} {j : Int64} (lower : -9223372036854775808 ≤ i + j.toInt)
    (upper : i + j.toInt < 9223372036854775808) :
    addTo i false (.integer j) = .integer (Int64.ofInt (i + j.toInt)) := by
  have range : Int64.minValue.toInt ≤ i + j.toInt ∧ i + j.toInt ≤ Int64.maxValue.toInt := by
    rw [Segment.minValue_toInt, Segment.maxValue_toInt]
    omega
  simp only [addTo, asInteger, Text.int64?, Bool.false_eq_true, if_false, if_pos range]

end Scalar

theorem Test.not_isNull_text (s : String) : ¬ Test.isNull.holds (Value.text s).scalar = true := by
  simp [Test.holds, Value.scalar, Scalar.isNull]

namespace Expr

variable {d : Dialect} {e : Expr} {env : Reference → Value} {v : Value}

attribute [local simp] eval

theorem evalText_of_eval {x : Scalar} (value : e.eval d env = .ok x) :
    e.evalText d env = .ok (x.asText?.getD []) := by
  rw [evalText, value]
  rfl

theorem eval_choose {subject yes no : Expr} {test : Test} {x : Scalar} (value : subject.eval d env = .ok x) :
    (choose subject test yes no).eval d env = if test.holds x then yes.eval d env else no.eval d env := by
  rw [eval, value]
  rfl

theorem eval_bySign {subject null negative other : Expr} {x : Scalar} (value : subject.eval d env = .ok x) :
    (bySign subject null negative other).eval d env =
      if x.isNull then null.eval d env
      else if x.compareInt 0 == .lt then negative.eval d env else other.eval d env := by
  rw [eval, value]
  rfl

theorem eval_concat {a b : Expr} {s t : List Char} (first : a.eval d env = .ok (.ofChars s))
    (second : b.eval d env = .ok (.ofChars t)) : (concat a b).eval d env = .ok (.ofChars (s ++ t)) := by
  rw [eval, first, second]
  exact congrArg (fun t => Except.ok (Scalar.text t)) (StoredText.ofChars_append s t).symm

theorem eval_literal (cs : List Char) : (literal (String.ofList cs)).eval d env = .ok (.ofChars cs) := by
  simp

/-- The distance of a negative integer from the smallest one is found without leaving the integers. -/
theorem eval_offset {i : Int64} (value : e.eval d env = .ok (.integer i)) (negative : i.toInt < 0) :
    (offset e).eval d env = .ok (.integer (Int64.ofInt (Segment.offset i))) := by
  have lower := i.le_toInt
  have first : Scalar.addTo 1 false (.integer i) = .integer (Int64.ofInt (1 + i.toInt)) :=
    Scalar.addTo_integer (by omega) (by omega)
  have back : (Int64.ofInt (1 + i.toInt)).toInt = 1 + i.toInt :=
    Int64.toInt_ofInt_of_le (by omega) (by omega)
  have second : Scalar.addTo 9223372036854775807 false (.integer (Int64.ofInt (1 + i.toInt)))
      = .integer (Int64.ofInt (9223372036854775807 + (Int64.ofInt (1 + i.toInt)).toInt)) :=
    Scalar.addTo_integer (by omega) (by omega)
  have total : 9223372036854775807 + (1 + i.toInt) = (Segment.offset i : Int) := by
    rw [Segment.offset_toInt]
    omega
  rw [eval, value]
  simp only [bind, Except.bind, pure, Except.pure, first, second, back, total]

theorem eval_padInteger {i : Int64} {width : Nat} (value : e.eval .sqlite env = .ok (.integer i))
    (sign : 0 ≤ i.toInt) :
    (padInteger e width).eval .sqlite env = .ok (.ofChars (Text.zeroPadded width i.toInt.toNat)) := by
  have natural : i.toInt.natAbs = i.toInt.toNat := by omega
  rw [eval, value]
  simp only [bind, Except.bind, pure, Except.pure, Dialect.padIntegerOf, Scalar.asInteger,
    if_neg (Int.not_lt.mpr sign), natural]

theorem eval_integerSegment {i : Int64} (value : e.eval .sqlite env = .ok (.integer i)) :
    (integerSegment e).eval .sqlite env = .ok (.ofChars (Segment.encodeInteger i)) := by
  rw [integerSegment, eval_bySign value, if_neg (by simp [Scalar.isNull])]
  by_cases sign : 0 ≤ i.toInt
  · have notBelow : (Scalar.compareInt (.integer i) 0 == .lt) = false := by
      rw [Scalar.compareInt, beq_eq_false_iff_ne, ne_eq, Int.compare_eq_lt]
      omega
    rw [if_neg (by simp [notBelow]), eval_padInteger value sign, Segment.encodeInteger, if_pos sign]
  · have negative := Int.not_le.mp sign
    have below : (Scalar.compareInt (.integer i) 0 == .lt) = true := by
      rw [Scalar.compareInt, beq_iff_eq, Int.compare_eq_lt]
      exact negative
    have bound := Segment.offset_lt negative
    have back : (Int64.ofInt (Segment.offset i)).toInt = (Segment.offset i : Int) :=
      Int64.toInt_ofInt_of_le (by omega) (by omega)
    have digits : (padInteger (offset e) (SegmentKind.integerWidth - 1)).eval .sqlite env
        = .ok (.ofChars (Text.zeroPadded (SegmentKind.integerWidth - 1) (Segment.offset i))) := by
      rw [eval_padInteger (eval_offset value negative) (by rw [back]; omega), back, Int.toNat_natCast]
    rw [if_pos below, eval_concat (eval_literal ['-']) digits, Segment.encodeInteger, if_neg sign]
    rfl

theorem eval_integerSegment_of_isHeld {cs : List Char} (value : e.eval .sqlite env = .ok v.scalar)
    (held : Segment.IsHeld v .integer) (written : Segment.encode v .integer = .ok cs) :
    (integerSegment e).eval .sqlite env = .ok (.ofChars cs) := by
  rcases held with rfl | ⟨i, rfl⟩
  · cases written
    rw [integerSegment, eval_bySign value, if_pos (show Value.null.scalar.isNull = true from rfl)]
    exact eval_literal (Segment.blanks SegmentKind.integerWidth)
  · cases written
    exact eval_integerSegment value

theorem ofCount_of_lt {n : Nat} (small : n < 9223372036854775808) :
    Scalar.ofCount n = .integer (Int64.ofInt n) := by
  rw [Scalar.ofCount, Value.ofCount_of_lt small, Value.scalar]

theorem compareInt_ofCount {n : Nat} (m : Int) (small : n < 9223372036854775808) :
    (Scalar.ofCount n).compareInt m = compare (n : Int) m := by
  rw [ofCount_of_lt small, Scalar.compareInt, Int64.toInt_ofInt_of_le (by omega) (by omega)]

theorem isNull_ofCount {n : Nat} (small : n < 9223372036854775808) : (Scalar.ofCount n).isNull = false := by
  rw [ofCount_of_lt small]
  rfl

theorem holds_exceeds_ofCount {n width : Nat} (small : n < 9223372036854775808) :
    (Test.exceeds width).holds (Scalar.ofCount n) = decide (width < n) := by
  rw [Test.holds, isNull_ofCount small, compareInt_ofCount _ small, Bool.not_false, Bool.true_and,
    Bool.eq_iff_iff, beq_iff_eq, Int.compare_eq_gt, decide_eq_true_eq, Int.ofNat_lt]

theorem holds_differs_ofCount {n width : Nat} (small : n < 9223372036854775808) :
    (Test.differs width).holds (Scalar.ofCount n) = decide (n ≠ width) := by
  rw [Test.holds, isNull_ofCount small, compareInt_ofCount _ small, Bool.not_false, Bool.true_and,
    Bool.eq_iff_iff, bne_iff_ne, decide_eq_true_eq]
  exact not_congr (Int.compare_eq_eq.trans Int.ofNat_inj)

theorem eval_charLength {cs : List Char} (value : e.eval d env = .ok (.ofChars cs)) :
    (charLength e).eval d env = .ok (Scalar.ofCount (d.visible cs).length) := by
  have seen := d.seen_ofChars cs
  rw [eval, value]
  simp only [bind, Except.bind, pure, Except.pure, Dialect.lengthOf, Scalar.ofChars, Scalar.asText?, Option.getD_some,
    seen, StoredText.length_ofChars]

/-- A text filled and cut to a width. -/
theorem eval_padText {cs : List Char} {width : Nat} {fill : Char} (value : e.eval d env = .ok (.ofChars cs)) :
    (padText e width fill).eval d env = .ok (.ofChars ((d.visible (cs ++ List.replicate width fill)).take width)) := by
  have seen := d.seen_ofChars (cs ++ List.replicate width fill)
  rw [eval, value]
  simp only [bind, Except.bind, pure, Except.pure, Dialect.padTextOf, Scalar.mapText, Scalar.ofChars, Scalar.asText?,
    Option.map_some, Option.getD_some, ← StoredText.ofChars_append, seen]
  rw [StoredText.ofChars, ← List.map_take]
  rfl

theorem nul_not_mem_fill {cs : List Char} {width : Nat} {fill : Char} (clean : '\x00' ∉ cs) (proper : fill ≠ '\x00') :
    '\x00' ∉ cs ++ List.replicate width fill := by
  intro member
  rcases List.mem_append.mp member with text | filled
  · exact clean text
  · exact proper (List.eq_of_mem_replicate filled).symm

theorem take_fill {cs : List Char} {width : Nat} {fill : Char} (fits : cs.length ≤ width) :
    (cs ++ List.replicate width fill).take width = Text.padRight width fill cs := by
  rw [List.take_append, List.take_of_length_le fits, List.take_replicate, Text.padRight, Nat.min_eq_left (Nat.sub_le _ _)]

/-- A text that fits is filled. -/
theorem eval_padText_of_fits {cs : List Char} {width : Nat} {fill : Char} (value : e.eval d env = .ok (.ofChars cs))
    (clean : '\x00' ∉ cs) (proper : fill ≠ '\x00') (fits : cs.length ≤ width) :
    (padText e width fill).eval d env = .ok (.ofChars (Text.padRight width fill cs)) := by
  rw [eval_padText value, d.visible_of_clean (nul_not_mem_fill clean proper), take_fill fits]

/-- In the dialect that can fail, a guard fails where its test holds. -/
theorem eval_guarded {subject arg value : Expr} {test : Test} {kind : RaiseKind} {x : Scalar}
    (evaluated : subject.eval .sqlite env = .ok x) :
    (guarded .sqlite subject test kind arg value).eval .sqlite env =
      if test.holds x then (raise kind arg).eval .sqlite env else value.eval .sqlite env := by
  rw [guarded, if_pos (show Dialect.sqlite.capabilities.inlineRaise = true from rfl), eval_choose evaluated]

theorem eval_raise {kind : RaiseKind} {x : Scalar} (value : e.eval d env = .ok x) :
    (raise kind e).eval d env = .error ⟨kind, x.raisedChars⟩ := by
  rw [eval, value]
  rfl

theorem eval_uuidSegment {cs : List Char} (value : e.eval .sqlite env = .ok v.scalar)
    (held : Segment.IsHeld v .uuid) (written : Segment.encode v .uuid = .ok cs) :
    (uuidSegment .sqlite e).eval .sqlite env = .ok (.ofChars cs) := by
  rcases held with rfl | ⟨s, u, rfl, length, read⟩
  · cases written
    rw [uuidSegment, eval_choose value, if_pos (show Test.isNull.holds Value.null.scalar = true from rfl)]
    exact eval_literal (Segment.blanks SegmentKind.uuidWidth)
  · simp only [Segment.encode, read, Except.ok.injEq] at written
    subst written
    have lower : (lowerUuid e).eval .sqlite env = .ok (.ofChars u.chars) := by
      have letters := StoredText.map_toLower_ofChars s.toList
      rw [Uuid.map_toLower_of_ofChars? length read] at letters
      rw [eval, value]
      simp only [bind, Except.bind, pure, Except.pure, Value.scalar, Scalar.mapText, Scalar.asText?, Option.map_some,
        Option.getD_some, letters, Scalar.ofChars]
    have counted := eval_charLength lower
    rw [Dialect.visible_of_clean .sqlite u.nul_not_mem_chars] at counted
    have proper : (Test.differs SegmentKind.uuidWidth).holds (Scalar.ofCount u.chars.length) = false := by
      rw [u.length_chars, holds_differs_ofCount (by decide)]
      rfl
    rw [uuidSegment, eval_choose value, if_neg (Test.not_isNull_text s), eval_guarded counted,
      if_neg (by simp [proper]), lower]

theorem eval_textValue {cs : List Char} (value : e.eval d env = .ok (.ofChars cs)) :
    (textValue e).eval d env = .ok (.ofChars cs) := by
  cases d with
  | sqlite => simpa using value
  | mysql => simpa using value
  | postgres =>
    rw [eval, value]
    rfl

section Text

variable {s : String} {width : Nat}

/-- The segment of a text, as far as the text is seen. -/
theorem eval_textSegment_of_visible (value : e.eval .sqlite env = .ok (Value.text s).scalar)
    (fits : (Dialect.sqlite.visible s.toList).length ≤ width) (bounded : width ≤ maxTextWidth) :
    (textSegment .sqlite e width).eval .sqlite env = .ok (.ofChars
      (Text.zeroPadded SegmentKind.lengthWidth (Dialect.sqlite.visible s.toList).length ++
        (Dialect.sqlite.visible (s.toList ++ List.replicate width ' ')).take width)) := by
  have bound : (Dialect.sqlite.visible s.toList).length ≤ 9998 := Nat.le_trans fits bounded
  have text : (textValue e).eval .sqlite env = .ok (.ofChars s.toList) := eval_textValue value
  have counted := eval_charLength text
  have proper : ¬ (Test.exceeds width).holds (Scalar.ofCount (Dialect.sqlite.visible s.toList).length) = true := by
    rw [holds_exceeds_ofCount (by omega), decide_eq_true_eq]
    omega
  have back : (Int64.ofInt (Dialect.sqlite.visible s.toList).length).toInt
      = ((Dialect.sqlite.visible s.toList).length : Int) := Int64.toInt_ofInt_of_le (by omega) (by omega)
  have number : (charLength (textValue e)).eval .sqlite env
      = .ok (.integer (Int64.ofInt (Dialect.sqlite.visible s.toList).length)) := by
    rw [counted, ofCount_of_lt (by omega)]
  have digits : (padInteger (charLength (textValue e)) SegmentKind.lengthWidth).eval .sqlite env
      = .ok (.ofChars (Text.zeroPadded SegmentKind.lengthWidth (Dialect.sqlite.visible s.toList).length)) := by
    rw [eval_padInteger number (by rw [back]; omega), back, Int.toNat_natCast]
  rw [textSegment, eval_choose value, if_neg (Test.not_isNull_text s), eval_guarded counted, if_neg proper]
  refine eval_concat ?_ (eval_padText text)
  rw [eval_choose counted, if_neg proper, digits]

theorem eval_textSegment (value : e.eval .sqlite env = .ok (Value.text s).scalar) (clean : '\x00' ∉ s.toList)
    (fits : s.toList.length ≤ width) (bounded : width ≤ maxTextWidth) :
    (textSegment .sqlite e width).eval .sqlite env = .ok (.ofChars
      (Text.zeroPadded SegmentKind.lengthWidth s.toList.length ++ Text.padRight width ' ' s.toList)) := by
  have seen := Dialect.sqlite.visible_of_clean clean
  rw [eval_textSegment_of_visible value (by rwa [seen]) bounded, seen,
    Dialect.sqlite.visible_of_clean (nul_not_mem_fill clean (by decide)), take_fill fits]

/-- A text that is seen to be too long fails the statement. -/
theorem eval_textSegment_overflow (value : e.eval .sqlite env = .ok (Value.text s).scalar)
    (long : width < (Dialect.sqlite.visible s.toList).length)
    (small : (Dialect.sqlite.visible s.toList).length < 9223372036854775808) :
    (textSegment .sqlite e width).eval .sqlite env = .error ⟨.overflow width, s.toList⟩ := by
  have text : (textValue e).eval .sqlite env = .ok (.ofChars s.toList) := eval_textValue value
  have exceeding : (Test.exceeds width).holds (Scalar.ofCount (Dialect.sqlite.visible s.toList).length) = true := by
    rw [holds_exceeds_ofCount small, decide_eq_true_eq]
    exact long
  rw [textSegment, eval_choose value, if_neg (Test.not_isNull_text s), eval_guarded (eval_charLength text),
    if_pos exceeding, eval_raise text]
  simp only [Scalar.ofChars, Scalar.raisedChars, StoredText.lossyChars_ofChars]

theorem nul_not_mem_hexOfBytes (raw : List UInt8) : '\x00' ∉ Text.hexOfBytes raw := by
  intro member
  have digit := Segment.hexValue?_of_mem_hexOfBytes member
  cases digit

/-- The digits of a value's bytes; an absent value has no bytes. -/
theorem eval_hex {raw : List UInt8} (value : e.eval d env = .ok v.scalar)
    (held : v = .null ∧ raw = [] ∨ v = .text s ∧ raw = Text.utf8 s.toList) :
    (hex e).eval d env = .ok (.ofChars (Text.hexOfBytes raw)) := by
  rcases held with ⟨rfl, rfl⟩ | ⟨rfl, rfl⟩
  · rw [eval, value]
    rfl
  · rw [eval, value]
    simp only [bind, Except.bind, pure, Except.pure, Value.scalar, Dialect.hexOf, Scalar.asText?, Option.getD_some,
      StoredText.toBytes_ofChars]

theorem eval_complement {cs : List Char} (value : e.eval d env = .ok (.ofChars cs)) :
    (complement e).eval d env = .ok (.ofChars (Text.complementHex cs)) := by
  rw [eval, value]
  simp only [bind, Except.bind, pure, Except.pure, Scalar.mapText, Scalar.ofChars, Scalar.asText?, Option.map_some,
    Option.getD_some, StoredText.lossyChars_ofChars]

/-- The digits filled with zeros, behind the guard for keys that do not fit. -/
def keyDigits (e : Expr) (bytes : Nat) : Expr :=
  guarded .sqlite (charLength (hex e)) (.exceeds (bytes * 2)) (.overflow (bytes * 2)) (hex e)
    (padText (hex e) (bytes * 2) '0')

/-- The first character of a key. -/
def keyMarker (e : Expr) : Expr :=
  choose e .isNull (literal SegmentKind.absentMarker.toString) (literal SegmentKind.presentMarker.toString)

theorem textKeySegment?_eq (e : Expr) (bytes : Nat) (descending : Bool) :
    textKeySegment? .sqlite e bytes descending = some (concat (keyMarker e)
      (if descending then complement (keyDigits e bytes) else keyDigits e bytes)) := by
  cases descending <;> rfl

theorem eval_keyDigits {raw : List UInt8} {bytes : Nat}
    (digits : (hex e).eval .sqlite env = .ok (.ofChars (Text.hexOfBytes raw))) (fits : raw.length ≤ bytes) :
    (keyDigits e bytes).eval .sqlite env = .ok (.ofChars (Text.padRight (bytes * 2) '0' (Text.hexOfBytes raw))) := by
  have length := Text.length_hexOfBytes raw
  have counted := eval_charLength digits
  rw [Dialect.visible_of_clean .sqlite (nul_not_mem_hexOfBytes raw)] at counted
  have proper : ¬ (Test.exceeds (bytes * 2)).holds (Scalar.ofCount (Text.hexOfBytes raw).length) = true := by
    by_cases small : (Text.hexOfBytes raw).length < 9223372036854775808
    · rw [holds_exceeds_ofCount small, decide_eq_true_eq]
      omega
    · -- A count that is no integer of the store is absent, and exceeds nothing.
      have absent : Scalar.ofCount (Text.hexOfBytes raw).length = .null := by
        have range : ¬ (Int64.minValue.toInt ≤ ((Text.hexOfBytes raw).length : Int) ∧
            ((Text.hexOfBytes raw).length : Int) ≤ Int64.maxValue.toInt) := by
          rw [Segment.minValue_toInt, Segment.maxValue_toInt]
          omega
        simp only [Scalar.ofCount, Value.ofCount, Text.int64?, if_neg range, Option.map_none, Option.getD_none, Value.scalar]
      rw [absent]
      simp [Test.holds, Scalar.isNull]
  rw [keyDigits, eval_guarded counted, if_neg proper]
  exact eval_padText_of_fits digits (nul_not_mem_hexOfBytes raw) (by decide) (by omega)

theorem eval_keyDigits_overflow {raw : List UInt8} {bytes : Nat}
    (digits : (hex e).eval .sqlite env = .ok (.ofChars (Text.hexOfBytes raw))) (long : bytes < raw.length)
    (small : raw.length < 4611686018427387904) :
    (keyDigits e bytes).eval .sqlite env = .error ⟨.overflow (bytes * 2), Text.hexOfBytes raw⟩ := by
  have length := Text.length_hexOfBytes raw
  have exceeding : (Test.exceeds (bytes * 2)).holds (Scalar.ofCount (Text.hexOfBytes raw).length) = true := by
    rw [holds_exceeds_ofCount (by omega), decide_eq_true_eq]
    omega
  have counted := eval_charLength digits
  rw [Dialect.visible_of_clean .sqlite (nul_not_mem_hexOfBytes raw)] at counted
  rw [keyDigits, eval_guarded counted, if_pos exceeding, eval_raise digits]
  simp only [Scalar.ofChars, Scalar.raisedChars, StoredText.lossyChars_ofChars]

theorem eval_key {raw : List UInt8} {bytes : Nat} {descending : Bool} {cs : List Char}
    (digits : (hex e).eval .sqlite env = .ok (.ofChars (Text.hexOfBytes raw)))
    (written : Segment.encodeKeyBytes bytes descending raw = .ok cs) :
    (if descending then complement (keyDigits e bytes) else keyDigits e bytes).eval .sqlite env
      = .ok (.ofChars cs) := by
  rw [Segment.encodeKeyBytes] at written
  split at written
  · rename_i fits
    cases written
    cases descending with
    | false => exact eval_keyDigits digits fits
    | true => exact eval_complement (eval_keyDigits digits fits)
  · cases written

theorem eval_textKeySegment {expr : Expr} {bytes : Nat} {descending : Bool} {cs : List Char}
    (value : e.eval .sqlite env = .ok v.scalar) (segment : textKeySegment? .sqlite e bytes descending = some expr)
    (held : Segment.IsHeld v (.textKey bytes descending))
    (written : Segment.encode v (.textKey bytes descending) = .ok cs) :
    expr.eval .sqlite env = .ok (.ofChars cs) := by
  rw [textKeySegment?_eq, Option.some.injEq] at segment
  subst segment
  rcases held with rfl | ⟨s, rfl⟩
  · rw [Segment.encode] at written
    obtain ⟨digits, key, rfl⟩ := Outcome.map_eq_ok_iff.mp written
    have marker : (keyMarker e).eval .sqlite env = .ok (.ofChars [SegmentKind.absentMarker]) := by
      rw [keyMarker, eval_choose value, if_pos (show Test.isNull.holds Value.null.scalar = true from rfl)]
      rfl
    have hexed := eval_hex (s := "") value (Or.inl ⟨rfl, rfl⟩)
    exact eval_concat marker (eval_key hexed key)
  · rw [Segment.encode] at written
    obtain ⟨digits, key, rfl⟩ := Outcome.map_eq_ok_iff.mp written
    have marker : (keyMarker e).eval .sqlite env = .ok (.ofChars [SegmentKind.presentMarker]) := by
      rw [keyMarker, eval_choose value, if_neg (Test.not_isNull_text s)]
      rfl
    have hexed := eval_hex value (Or.inr ⟨rfl, rfl⟩)
    exact eval_concat marker (eval_key hexed key)

theorem eval_textSegment_of_isHeld {width : Nat} {cs : List Char} (value : e.eval .sqlite env = .ok v.scalar)
    (held : Segment.IsHeld v (.text width)) (bounded : width ≤ maxTextWidth)
    (written : Segment.encode v (.text width) = .ok cs) :
    (textSegment .sqlite e width).eval .sqlite env = .ok (.ofChars cs) := by
  rcases held with rfl | ⟨s, rfl, clean⟩
  · cases written
    rw [textSegment, eval_choose value, if_pos (show Test.isNull.holds Value.null.scalar = true from rfl)]
    exact eval_literal (SegmentKind.nullMark ++ Segment.blanks width)
  · rw [Segment.encode, Segment.encodeText] at written
    split at written
    · rename_i fits
      cases written
      exact eval_textSegment value clean fits bounded
    · cases written

/-- The expression for a kind has the segment of the value as its value. -/
theorem eval_segment? {expr : Expr} {kind : SegmentKind} {cs : List Char}
    (value : e.eval .sqlite env = .ok v.scalar) (segment : segment? .sqlite e kind = some expr)
    (held : Segment.IsHeld v kind) (bounded : kind.IsBounded) (written : Segment.encode v kind = .ok cs) :
    expr.eval .sqlite env = .ok (.ofChars cs) := by
  cases kind with
  | integer =>
    cases segment
    exact eval_integerSegment_of_isHeld value held written
  | uuid =>
    cases segment
    exact eval_uuidSegment value held written
  | text width =>
    cases segment
    exact eval_textSegment_of_isHeld value held bounded written
  | textKey bytes descending => exact eval_textKeySegment value segment held written

/-- The expression for a kind writes the segment of the value. -/
theorem evalText_segment? {expr : Expr} {kind : SegmentKind} {cs : List Char}
    (value : e.eval .sqlite env = .ok v.scalar) (segment : segment? .sqlite e kind = some expr)
    (held : Segment.IsHeld v kind) (bounded : kind.IsBounded) (written : Segment.encode v kind = .ok cs) :
    expr.evalText .sqlite env = .ok (.ofChars cs) :=
  evalText_of_eval (eval_segment? value segment held bounded written)

theorem evalText_of_eval_error {r : Raised} (failed : e.eval d env = .error r) : e.evalText d env = .error r := by
  rw [evalText, failed]
  rfl

theorem eval_concat_error {a b : Expr} {x : Scalar} {r : Raised} (first : a.eval d env = .ok x)
    (second : b.eval d env = .error r) : (concat a b).eval d env = .error r := by
  rw [eval, first, second]
  rfl

/-- A text with too many bytes for its key fails the statement. -/
theorem eval_textKey_overflow {bytes : Nat} {descending : Bool} (value : e.eval .sqlite env = .ok (Value.text s).scalar)
    (long : bytes < (Text.utf8 s.toList).length) (small : (Text.utf8 s.toList).length < 4611686018427387904) :
    (concat (keyMarker e) (if descending then complement (keyDigits e bytes) else keyDigits e bytes)).eval .sqlite env
      = .error ⟨.overflow (bytes * 2), Text.hexOfBytes (Text.utf8 s.toList)⟩ := by
  have marker : (keyMarker e).eval .sqlite env = .ok (.ofChars [SegmentKind.presentMarker]) := by
    rw [keyMarker, eval_choose value, if_neg (Test.not_isNull_text s)]
    rfl
  have failed := eval_keyDigits_overflow (eval_hex value (Or.inr ⟨rfl, rfl⟩)) long small
  refine eval_concat_error marker ?_
  cases descending with
  | false => exact failed
  | true =>
    rw [if_pos rfl, eval, failed]
    rfl

/-- A countable value without a segment of its kind fails the statement, with the width that it does not
fit into. -/
theorem eval_segment?_error {expr : Expr} {kind : SegmentKind} {refusal : Error}
    (value : e.eval .sqlite env = .ok v.scalar) (segment : segment? .sqlite e kind = some expr)
    (held : Segment.IsHeld v kind) (countable : v.IsCountable) (refused : Segment.encode v kind = .error refusal) :
    ∃ width detail argument, refusal = .encodingOverflow detail width ∧
      expr.eval .sqlite env = .error ⟨.overflow width, argument⟩ := by
  cases kind with
  | integer => rcases held with rfl | ⟨i, rfl⟩ <;> cases refused
  | uuid =>
    rcases held with rfl | ⟨s, u, rfl, length, read⟩
    · cases refused
    · simp only [Segment.encode, read, reduceCtorEq] at refused
  | text width =>
    cases segment
    rcases held with rfl | ⟨s, rfl, clean⟩
    · cases refused
    · have bytes : (Text.utf8 s.toList).length < 4611686018427387904 := countable
      have small := Text.length_le_length_utf8 s.toList
      have seen := Dialect.sqlite.visible_of_clean clean
      rw [Segment.encode, Segment.encodeText] at refused
      split at refused
      · cases refused
      · rename_i long
        cases refused
        exact ⟨width, _, _, rfl, eval_textSegment_overflow value (by rw [seen]; omega) (by rw [seen]; omega)⟩
  | textKey bytes descending =>
    rw [segment?, textKeySegment?_eq, Option.some.injEq] at segment
    subst segment
    rcases held with rfl | ⟨s, rfl⟩
    · rw [Segment.encode, Segment.encodeKeyBytes, if_pos (show ([] : List UInt8).length ≤ bytes from Nat.zero_le _)] at refused
      cases refused
    · have small : (Text.utf8 s.toList).length < 4611686018427387904 := countable
      rw [Segment.encode, Segment.encodeKeyBytes] at refused
      split at refused
      · cases refused
      · rename_i long
        cases refused
        exact ⟨bytes * 2, _, _, rfl, eval_textKey_overflow value (Nat.not_le.mp long) small⟩

theorem evalText_segment?_error {expr : Expr} {kind : SegmentKind} {refusal : Error}
    (value : e.eval .sqlite env = .ok v.scalar) (segment : segment? .sqlite e kind = some expr)
    (held : Segment.IsHeld v kind) (countable : v.IsCountable) (refused : Segment.encode v kind = .error refusal) :
    ∃ width detail argument, refusal = .encodingOverflow detail width ∧
      expr.evalText .sqlite env = .error ⟨.overflow width, argument⟩ := by
  obtain ⟨width, detail, argument, shape, failed⟩ := eval_segment?_error value segment held countable refused
  exact ⟨width, detail, argument, shape, evalText_of_eval_error failed⟩

end Text

end Expr

end ForestQuery
