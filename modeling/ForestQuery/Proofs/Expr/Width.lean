import ForestQuery.Proofs.Encoding
import ForestQuery.Proofs.Expr.Overflow
/-!
How wide evaluated segments are where expressions cannot fail. Main statement: the element for some parts has exactly
the characters of their kinds, whatever values of their types it is made of, texts that do not fit among them.
-/

namespace ForestQuery

/-- The values that fill a segment of this kind: an absent one, or one of the type, with an identifier in its full
length and a text that can be counted. -/
def Segment.Fills (v : Value) : SegmentKind → Prop
  | .integer => v = .null ∨ ∃ i, v = .integer i
  | .uuid => v = .null ∨ ∃ s, v = .text s ∧ s.toList.length = SegmentKind.uuidWidth
  | .text _ | .textKey _ _ => v = .null ∨ ∃ s, v = .text s ∧ s.toList.length < 9223372036854775808

theorem Segment.fills_null (kind : SegmentKind) : Fills .null kind := by
  cases kind <;> exact Or.inl rfl

theorem Segment.Fills.textKey {v : Value} (fills : Fills v .uuid) (bytes : Nat) (descending : Bool) :
    Fills v (.textKey bytes descending) := by
  refine fills.imp_right fun ⟨s, text, length⟩ => ⟨s, text, ?_⟩
  rw [length]
  decide

namespace Expr

variable {d : Dialect} {env : Reference → Value} {e a b : Expr} {v : Value} {m n width : Nat}

/-- Whether an expression has a text of so many characters as its value. -/
def HasWidth (d : Dialect) (env : Reference → Value) (e : Expr) (n : Nat) : Prop :=
  ∃ cs, e.eval d env = .ok (.ofChars cs) ∧ cs.length = n

theorem HasWidth.evalText (wide : e.HasWidth d env n) :
    ∃ cs, e.evalText d env = .ok (.ofChars cs) ∧ cs.length = n := by
  obtain ⟨cs, value, length⟩ := wide
  exact ⟨cs, evalText_of_eval value, length⟩

theorem hasWidth_literal (cs : List Char) : (literal (String.ofList cs)).HasWidth d env cs.length :=
  ⟨cs, eval_literal cs, rfl⟩

theorem HasWidth.concat (first : a.HasWidth d env m) (second : b.HasWidth d env n) :
    (Expr.concat a b).HasWidth d env (m + n) := by
  obtain ⟨cs, value, rfl⟩ := first
  obtain ⟨ds, value', rfl⟩ := second
  exact ⟨cs ++ ds, eval_concat value value', List.length_append⟩

theorem HasWidth.choose {subject : Expr} {test : Test} {x : Scalar} (value : subject.eval d env = .ok x)
    (yes : a.HasWidth d env n) (no : b.HasWidth d env n) : (Expr.choose subject test a b).HasWidth d env n := by
  rw [HasWidth, eval_choose value]
  split
  · exact yes
  · exact no

theorem HasWidth.complement (wide : e.HasWidth d env n) : (Expr.complement e).HasWidth d env n := by
  obtain ⟨cs, value, rfl⟩ := wide
  exact ⟨_, eval_complement value, Text.length_complementHex cs⟩

theorem HasWidth.lowerUuid (wide : e.HasWidth d env n) : (Expr.lowerUuid e).HasWidth d env n := by
  obtain ⟨cs, value, rfl⟩ := wide
  refine ⟨cs.map Char.toLower, ?_, List.length_map _⟩
  rw [eval, value]
  simp only [bind, Except.bind, pure, Except.pure, Scalar.mapText, Scalar.ofChars, Scalar.asText?, Option.map_some,
    Option.getD_some, StoredText.ofChars, List.map_map]
  rfl

variable (silent : d.capabilities.inlineRaise = false)

include silent

theorem guarded_of_silent {subject arg : Expr} {test : Test} {kind : RaiseKind} :
    guarded d subject test kind arg e = e := by
  rw [guarded, if_neg (by simp [silent])]

/-- A text is filled or cut. -/
theorem HasWidth.padText (wide : e.HasWidth d env n) (width : Nat) (fill : Char) :
    (Expr.padText e width fill).HasWidth d env width := by
  obtain ⟨cs, value, -⟩ := wide
  refine ⟨_, eval_padText value, ?_⟩
  rw [Dialect.visible_of_silent silent, List.length_take, List.length_append, List.length_replicate]
  omega

/-- Digits are filled up or cut. -/
theorem hasWidth_padInteger {i : Int64} (value : e.eval d env = .ok (.integer i)) (width : Nat) :
    (padInteger e width).HasWidth d env width := by
  have padded : d.padIntegerOf width (.integer i)
      = .ofChars ((Text.padLeft width '0' (Text.integerChars i.toInt)).take width) := by
    cases d with
    | sqlite => cases silent
    | postgres | mysql => rfl
  refine ⟨_, by rw [eval, value]; exact congrArg Except.ok padded, ?_⟩
  rw [List.length_take, Text.length_padLeft]
  omega

theorem hasWidth_integerSegment (value : e.eval d env = .ok v.scalar) (fills : Segment.Fills v .integer) :
    (integerSegment e).HasWidth d env SegmentKind.integerWidth := by
  rcases fills with rfl | ⟨i, rfl⟩
  · rw [integerSegment, HasWidth, eval_bySign value, if_pos (show Value.null.scalar.isNull = true from rfl)]
    exact hasWidth_literal _
  · rw [integerSegment, HasWidth, eval_bySign value, if_neg (by simp [Value.scalar, Scalar.isNull])]
    split
    · rename_i below
      have negative : i.toInt < 0 := Int.compare_eq_lt.mp (beq_iff_eq.mp below)
      exact (hasWidth_literal ['-']).concat (hasWidth_padInteger silent (eval_offset value negative) _)
    · exact hasWidth_padInteger silent value _

theorem hasWidth_uuidSegment (value : e.eval d env = .ok v.scalar) (fills : Segment.Fills v .uuid) :
    (uuidSegment d e).HasWidth d env SegmentKind.uuidWidth := by
  rw [uuidSegment, guarded_of_silent silent]
  rcases fills with rfl | ⟨s, rfl, length⟩
  · rw [HasWidth, eval_choose value, if_pos (show Test.isNull.holds Value.null.scalar = true from rfl)]
    exact hasWidth_literal _
  · rw [HasWidth, eval_choose value, if_neg (Test.not_isNull_text s)]
    exact HasWidth.lowerUuid ⟨s.toList, value, length⟩

/-- Of a text that does not fit the mark and the front are left, which are as wide as a text that does. -/
theorem hasWidth_textSegment (value : e.eval d env = .ok v.scalar) (fills : Segment.Fills v (.text width)) :
    (textSegment d e width).HasWidth d env (SegmentKind.lengthWidth + width) := by
  rw [textSegment, guarded_of_silent silent]
  rcases fills with rfl | ⟨s, rfl, small⟩
  · rw [HasWidth, eval_choose value, if_pos (show Test.isNull.holds Value.null.scalar = true from rfl)]
    refine ⟨_, eval_literal _, ?_⟩
    rw [List.length_append, List.length_replicate]
    rfl
  · have text : (textValue e).eval d env = .ok (.ofChars s.toList) := eval_textValue value
    have counted := eval_charLength text
    rw [Dialect.visible_of_silent silent, ofCount_of_lt small] at counted
    rw [HasWidth, eval_choose value, if_neg (Test.not_isNull_text s)]
    exact HasWidth.concat (.choose counted (hasWidth_literal SegmentKind.overflowMark)
      (hasWidth_padInteger silent counted _)) (HasWidth.padText silent ⟨_, text, rfl⟩ width ' ')

theorem hasWidth_textKeySegment {expr : Expr} {bytes : Nat} {descending : Bool} (value : e.eval d env = .ok v.scalar)
    (segment : textKeySegment? d e bytes descending = some expr) (fills : Segment.Fills v (.textKey bytes descending)) :
    expr.HasWidth d env (1 + bytes * 2) := by
  obtain ⟨raw, hexed⟩ : ∃ raw, (hex e).eval d env = .ok (.ofChars (Text.hexOfBytes raw)) := by
    rcases fills with rfl | ⟨s, rfl, -⟩
    · exact ⟨_, eval_hex (s := "") value (Or.inl ⟨rfl, rfl⟩)⟩
    · exact ⟨_, eval_hex value (Or.inr ⟨rfl, rfl⟩)⟩
  have digits : (padText (hex e) (bytes * 2) '0').HasWidth d env (bytes * 2) :=
    HasWidth.padText silent ⟨_, hexed, rfl⟩ _ _
  have marker : (keyMarker e).HasWidth d env 1 :=
    .choose value (hasWidth_literal [SegmentKind.absentMarker]) (hasWidth_literal [SegmentKind.presentMarker])
  simp only [textKeySegment?, guarded_of_silent silent] at segment
  split at segment
  · cases segment
    exact marker.concat digits
  · split at segment
    · cases segment
      exact marker.concat digits.complement
    · cases segment

/-- The expression for a kind has a text of its width. -/
theorem hasWidth_segment? {expr : Expr} {kind : SegmentKind} (value : e.eval d env = .ok v.scalar)
    (segment : segment? d e kind = some expr) (fills : Segment.Fills v kind) : expr.HasWidth d env kind.width := by
  cases kind with
  | integer =>
    cases segment
    exact hasWidth_integerSegment silent value fills
  | uuid =>
    cases segment
    exact hasWidth_uuidSegment silent value fills
  | text width =>
    cases segment
    exact hasWidth_textSegment silent value fills
  | textKey bytes descending => exact hasWidth_textKeySegment silent value segment fills

end Expr

/-- Whether the value of a part fills its segment. -/
def Part.IsFilled (d : Dialect) (env : Reference → Value) (p : Part) : Prop :=
  ∃ v : Value, p.expr.eval d env = .ok v.scalar ∧ Segment.Fills v p.kind

/-- The element for some parts has the characters of a level of their kinds. -/
theorem Element.exists_evalText {d : Dialect} {env : Reference → Value} {parts : List Part} {exprs : List Expr}
    {width : Nat} (silent : d.capabilities.inlineRaise = false) (made : Encoding.segments d parts = .ok exprs)
    (filled : ∀ p ∈ parts, p.IsFilled d env) : ∃ cs, (segments exprs width).evalText d env = .ok (.ofChars cs) ∧
      cs.length = SegmentKind.levelWidth (parts.map Part.kind) := by
  have each := Encoding.segments_eq_ok_iff.mp made
  clear made
  simp only [evalText, Outcome.map_eq_ok_iff, Outcome.mapM_eq_ok_iff]
  induction each with
  | nil => exact ⟨[], ⟨[], .nil, rfl⟩, rfl⟩
  | @cons p e parts exprs segment _ ih =>
    obtain ⟨v, value, fills⟩ := filled p (by simp)
    obtain ⟨cs, text, length⟩ := (Expr.hasWidth_segment? silent value segment fills).evalText
    obtain ⟨ds, ⟨ts, texts, flat⟩, rest⟩ := ih fun q member => filled q (by simp [member])
    refine ⟨cs ++ ds, ⟨StoredText.ofChars cs :: ts, .cons text texts, ?_⟩, ?_⟩
    · rw [List.flatten_cons, flat, StoredText.ofChars_append]
    · rw [List.length_append, length, rest, List.map_cons, SegmentKind.levelWidth_cons]

end ForestQuery
