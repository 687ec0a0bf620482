import ForestQuery.Proofs.Expr
import ForestQuery.Proofs.Failure
/-!
Texts that are wider than their segments, in every dialect. Main statement: a query reports an overflow where the
expression fails with a message that it can show, or where a mark is left in front of what was cut. The key of a text
has no such mark, so it is cut without a trace where expressions cannot fail, and so is a text of which the dialect
sees no more than has room.
-/

namespace ForestQuery

theorem Dialect.eq_sqlite {d : Dialect} (raises : d.capabilities.inlineRaise = true) : d = .sqlite := by
  cases d with
  | sqlite => rfl
  | postgres => cases raises
  | mysql => cases raises

theorem Dialect.visible_of_silent {d : Dialect} (silent : d.capabilities.inlineRaise = false) (cs : List Char) :
    d.visible cs = cs := by
  cases d with
  | sqlite => cases silent
  | postgres => rfl
  | mysql => rfl

namespace Segment

/-- What a query reports of an evaluated segment: the failure that was asked for, or what the segment is read as. -/
def report (maxDepth : Nat) (kind : SegmentKind) : Except Raised Scalar → Except Error Value
  | .error raised => .error (Failure.ofRaised maxDepth raised)
  | .ok x =>
    match (x.asText?.getD []).chars? with
    | some cs => decode cs kind
    | none => .error .store

/-- Texts that do not fit into a segment of the kind. -/
def IsOverlong (s : String) : SegmentKind → Prop
  | .text width => width < s.toList.length
  | .textKey bytes _ => bytes < (Text.utf8 s.toList).length
  | .integer | .uuid => False

/-- Whether an overlong text is noticed: by an expression that fails, whose message must not be cut, or by the mark
that stands for the length of a text. -/
def IsNoticed (d : Dialect) (s : String) : SegmentKind → Prop
  | .text _ => d.capabilities.inlineRaise = true → '\x00' ∉ s.toList
  | .textKey _ _ => d.capabilities.inlineRaise = true
  | .integer | .uuid => False

/-- Whether an overlong text is cut without a trace: no more of it is seen than has room, or it is a key that no
expression guards. -/
def IsCut (d : Dialect) (s : String) : SegmentKind → Prop
  | .text width => (d.visible s.toList).length ≤ width
  | .textKey _ _ => d.capabilities.inlineRaise = false
  | .integer | .uuid => False

theorem report_chars (maxDepth : Nat) (kind : SegmentKind) (cs : List Char) :
    report maxDepth kind (.ok (.ofChars cs)) = decode cs kind := by
  simp only [report, Scalar.asText?_ofChars, Option.getD_some, StoredText.chars?_ofChars]

theorem decodeText_overflowMark (width : Nat) (body : List Char) :
    decodeText width (SegmentKind.overflowMark ++ body) = .error (.encodingOverflow .storedText width) := rfl

end Segment

namespace Expr

variable {d : Dialect} {e expr : Expr} {env : Reference → Value} {s : String} {width bytes maxDepth : Nat}

/-- Where expressions cannot fail, a mark stands in front of what is left of an overlong text. -/
theorem eval_textSegment_marked (silent : d.capabilities.inlineRaise = false)
    (value : e.eval d env = .ok (Value.text s).scalar) (long : width < (d.visible s.toList).length)
    (small : (d.visible s.toList).length < 9223372036854775808) :
    (textSegment d e width).eval d env = .ok (.ofChars (SegmentKind.overflowMark ++
      (d.visible (s.toList ++ List.replicate width ' ')).take width)) := by
  have text : (textValue e).eval d env = .ok (.ofChars s.toList) := eval_textValue value
  have exceeding : (Test.exceeds width).holds (Scalar.ofCount (d.visible s.toList).length) = true := by
    rw [holds_exceeds_ofCount small, decide_eq_true_eq]
    exact long
  rw [textSegment, eval_choose value, if_neg (Test.not_isNull_text s), guarded, if_neg (by simp [silent])]
  refine eval_concat ?_ (eval_padText text)
  rw [eval_choose (eval_charLength text), if_pos exceeding, eval_literal]

/-- Where expressions cannot fail, the digits of a key are cut. -/
theorem exists_eval_textKeySegment (silent : d.capabilities.inlineRaise = false)
    (value : e.eval d env = .ok (Value.text s).scalar) {descending : Bool}
    (segment : textKeySegment? d e bytes descending = some expr) :
    ∃ digits, expr.eval d env = .ok (.ofChars (SegmentKind.presentMarker :: digits)) ∧
      ∀ c ∈ digits, (Text.hexValue? c).isSome := by
  have marker : (keyMarker e).eval d env = .ok (.ofChars [SegmentKind.presentMarker]) := by
    rw [keyMarker, eval_choose value, if_neg (Test.not_isNull_text s)]
    rfl
  have hexed : (hex e).eval d env = .ok (.ofChars (Text.hexOfBytes (Text.utf8 s.toList))) :=
    eval_hex value (Or.inr ⟨rfl, rfl⟩)
  have padded : (padText (hex e) (bytes * 2) '0').eval d env = .ok (.ofChars
      ((Text.hexOfBytes (Text.utf8 s.toList) ++ List.replicate (bytes * 2) '0').take (bytes * 2))) := by
    rw [eval_padText hexed, Dialect.visible_of_silent silent]
  have digits : ∀ c ∈ (Text.hexOfBytes (Text.utf8 s.toList) ++ List.replicate (bytes * 2) '0').take (bytes * 2),
      (Text.hexValue? c).isSome := by
    intro c member
    rcases List.mem_append.mp (List.mem_of_mem_take member) with digit | fill
    · exact Segment.hexValue?_of_mem_hexOfBytes digit
    · rw [List.eq_of_mem_replicate fill]
      rfl
  simp only [textKeySegment?, guarded, silent, Bool.false_eq_true, if_false] at segment
  cases descending with
  | false =>
    cases segment
    exact ⟨_, eval_concat marker padded, digits⟩
  | true =>
    simp only [Bool.not_true, Bool.false_eq_true, if_false] at segment
    split at segment
    · cases segment
      refine ⟨_, eval_concat marker (eval_complement padded), fun c member => ?_⟩
      obtain ⟨digit, inDigits, rfl⟩ := List.mem_map.mp member
      exact Segment.hexValue?_complementHexDigit (digits digit inDigits)
    · cases segment

end Expr

namespace Segment

variable {d : Dialect} {e expr : Expr} {env : Reference → Value} {s : String} {kind : SegmentKind} {width bytes : Nat}

/-- What is reported of an overlong text for an ancestor field. -/
theorem report_text (maxDepth : Nat) (value : e.eval d env = .ok (Value.text s).scalar)
    (long : width < s.toList.length) (bounded : width ≤ maxTextWidth)
    (countable : (Text.utf8 s.toList).length < 4611686018427387904) :
    ((∃ detail w, report maxDepth (.text width) ((Expr.textSegment d e width).eval d env)
        = .error (.encodingOverflow detail w)) ↔ IsNoticed d s (.text width)) ∧
      ((∃ v, report maxDepth (.text width) ((Expr.textSegment d e width).eval d env) = .ok v) ↔
        IsCut d s (.text width)) := by
  have count := Text.length_le_length_utf8 s.toList
  cases raises : d.capabilities.inlineRaise with
  | false =>
    have seen := Dialect.visible_of_silent raises s.toList
    have marked := Expr.eval_textSegment_marked raises value (by rwa [seen]) (by rw [seen]; omega)
    rw [marked, report_chars, decode, decodeText_overflowMark]
    refine ⟨iff_of_true ⟨_, _, rfl⟩ fun other => ?_, iff_of_false (by simp) ?_⟩
    · rw [raises] at other
      cases other
    · rw [IsCut, seen]
      exact Nat.not_le.mpr long
  | true =>
    obtain rfl := Dialect.eq_sqlite raises
    have shorter : (Dialect.sqlite.visible s.toList).length ≤ s.toList.length := (List.takeWhile_prefix _).length_le
    by_cases fits : (Dialect.sqlite.visible s.toList).length ≤ width
    · -- Only a text that ends early for the store can be seen to fit.
      have nul : '\x00' ∈ s.toList := by
        by_contra clean
        rw [Dialect.visible_of_clean .sqlite clean] at fits
        omega
      rw [Expr.eval_textSegment_of_visible value fits bounded, report_chars, decode, decodeText_of_fits _ bounded fits]
      exact ⟨iff_of_false (by simp) fun noticed => noticed raises nul, iff_of_true ⟨_, rfl⟩ fits⟩
    · rw [Expr.eval_textSegment_overflow value (Nat.not_le.mp fits) (by omega), report]
      by_cases nul : '\x00' ∈ s.toList
      · rw [Failure.ofRaised_overflow_of_nul maxDepth width nul]
        exact ⟨iff_of_false (by simp) fun noticed => noticed raises nul, iff_of_false (by simp) fits⟩
      · rw [Failure.ofRaised_overflow maxDepth width nul]
        exact ⟨iff_of_true ⟨_, _, rfl⟩ fun _ => nul, iff_of_false (by simp) fits⟩

/-- What is reported of an overlong text for a key. -/
theorem report_textKey {descending : Bool} (maxDepth : Nat) (value : e.eval d env = .ok (Value.text s).scalar)
    (segment : Expr.textKeySegment? d e bytes descending = some expr) (long : bytes < (Text.utf8 s.toList).length)
    (countable : (Text.utf8 s.toList).length < 4611686018427387904) :
    ((∃ detail w, report maxDepth (.textKey bytes descending) (expr.eval d env) = .error (.encodingOverflow detail w)) ↔
        IsNoticed d s (.textKey bytes descending)) ∧
      ((∃ v, report maxDepth (.textKey bytes descending) (expr.eval d env) = .ok v) ↔
        IsCut d s (.textKey bytes descending)) := by
  rw [IsNoticed, IsCut]
  cases raises : d.capabilities.inlineRaise with
  | false =>
    -- What is left of the digits is still a key, and nothing tells that some of them are missing.
    obtain ⟨digits, cut, hex⟩ := Expr.exists_eval_textKeySegment raises value segment
    rw [cut, report_chars, decode, decodeKey_of_marker (Or.inr rfl) hex]
    exact ⟨iff_of_false (by simp) (by simp), iff_of_true ⟨_, rfl⟩ rfl⟩
  | true =>
    obtain rfl := Dialect.eq_sqlite raises
    rw [Expr.textKeySegment?_eq, Option.some.injEq] at segment
    subst segment
    rw [Expr.eval_textKey_overflow value long countable, report,
      Failure.ofRaised_overflow maxDepth (bytes * 2) (Expr.nul_not_mem_hexOfBytes _)]
    exact ⟨iff_of_true ⟨_, _, rfl⟩ rfl, iff_of_false (by simp) (by simp)⟩

/-- A query reports an overlong text as an overflow exactly where it is noticed, and delivers it cut exactly where it
is cut without a trace. -/
theorem report_overlong (maxDepth : Nat) (value : e.eval d env = .ok (Value.text s).scalar)
    (segment : Expr.segment? d e kind = some expr) (long : IsOverlong s kind) (bounded : kind.IsBounded)
    (countable : (Text.utf8 s.toList).length < 4611686018427387904) :
    ((∃ detail w, report maxDepth kind (expr.eval d env) = .error (.encodingOverflow detail w)) ↔ IsNoticed d s kind) ∧
      ((∃ v, report maxDepth kind (expr.eval d env) = .ok v) ↔ IsCut d s kind) := by
  cases kind with
  | integer => exact long.elim
  | uuid => exact long.elim
  | text width =>
    cases segment
    exact report_text maxDepth value long bounded countable
  | textKey bytes descending => exact report_textKey maxDepth value segment long countable

/-- Three characters do not fit into an ancestor field of two. -/
theorem report_overlong_sample :
    ∃ expr detail w, Expr.segment? .mysql (.reference (.column "t" "name")) (.text 2) = some expr ∧
      report 64 (.text 2) (expr.eval .mysql fun _ => .text "ABC") = .error (.encodingOverflow detail w) := by
  have column : (Expr.reference (.column "t" "name")).eval .mysql (fun _ => .text "ABC") = .ok (Value.text "ABC").scalar :=
    rfl
  have long : IsOverlong "ABC" (.text 2) := show 2 < "ABC".toList.length by decide
  have bounded : (SegmentKind.text 2).IsBounded := show 2 ≤ maxTextWidth by decide
  obtain ⟨noticed, -⟩ := report_overlong 64 column rfl long bounded (by decide)
  obtain ⟨detail, w, failed⟩ := noticed.mpr (fun _ => by decide)
  exact ⟨_, detail, w, rfl, failed⟩

/-- Three characters do not fit into a key of two bytes, but two of them are delivered. -/
theorem report_cut :
    ∃ expr, Expr.segment? .mysql (.reference (.column "t" "name")) (.textKey 2 false) = some expr ∧
      IsOverlong "ABC" (.textKey 2 false) ∧
      report 64 (.textKey 2 false) (expr.eval .mysql fun _ => .text "ABC") = .ok (.text "14142") :=
  ⟨_, rfl, show 2 < (Text.utf8 "ABC".toList).length by decide, by decide⟩

end Segment

end ForestQuery
