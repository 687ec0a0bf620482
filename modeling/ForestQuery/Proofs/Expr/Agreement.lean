import ForestQuery.Proofs.Encoding
/-!
The two writers of segments side by side: the expression that a statement evaluates, and the function that
writes a value directly. Main statement: on every value that a column of the kind may hold they come to the
same characters or to an overflow of the same width.
-/

namespace ForestQuery

/-- What evaluating a segment expression and writing the segment have come to. -/
inductive Segment.Agrees : Except Raised Scalar → Except Error (List Char) → Prop where
  | chars (cs : List Char) : Agrees (.ok (.ofChars cs)) (.ok cs)
  | overflow (width : Nat) (argument : List Char) (detail : Overflow) :
    Agrees (.error ⟨.overflow width, argument⟩) (.error (.encodingOverflow detail width))

namespace Segment.Agrees

variable {evaluated : Except Raised Scalar} {written : Except Error (List Char)}

theorem chars_iff (agrees : Agrees evaluated written) (cs : List Char) :
    evaluated = .ok (.ofChars cs) ↔ written = .ok cs := by
  cases agrees with
  | chars ds =>
    rw [Except.ok.injEq, Except.ok.injEq]
    constructor
    · intro same
      have texts : StoredText.ofChars ds = StoredText.ofChars cs := Scalar.text.inj same
      rw [← StoredText.lossyChars_ofChars ds, texts, StoredText.lossyChars_ofChars]
    · rintro rfl
      rfl
  | overflow width argument detail => simp

theorem overflow_iff (agrees : Agrees evaluated written) (width : Nat) :
    (∃ argument, evaluated = .error ⟨.overflow width, argument⟩) ↔
      ∃ detail, written = .error (.encodingOverflow detail width) := by
  cases agrees with
  | chars cs => simp
  | overflow own argument detail => simp

end Segment.Agrees

namespace Expr

variable {e : Expr} {env : Reference → Value} {v : Value}

theorem agrees_segment? {expr : Expr} {kind : SegmentKind} (value : e.eval .sqlite env = .ok v.scalar)
    (segment : segment? .sqlite e kind = some expr) (held : Segment.IsHeld v kind) (bounded : kind.IsBounded)
    (countable : v.IsCountable) : Segment.Agrees (expr.eval .sqlite env) (Segment.encode v kind) := by
  cases written : Segment.encode v kind with
  | ok cs =>
    rw [eval_segment? value segment held bounded written]
    exact .chars cs
  | error refusal =>
    obtain ⟨width, detail, argument, rfl, failed⟩ := eval_segment?_error value segment held countable written
    rw [failed]
    exact .overflow width argument detail

/-- One dialect writes segments of every kind. -/
theorem exists_segment? (e : Expr) (kind : SegmentKind) : ∃ expr, segment? .sqlite e kind = some expr := by
  cases kind with
  | integer => exact ⟨_, rfl⟩
  | uuid => exact ⟨_, rfl⟩
  | text width => exact ⟨_, rfl⟩
  | textKey bytes descending => exact ⟨_, textKeySegment?_eq e bytes descending⟩

/-- The inner sum of the offset of a negative integer. -/
theorem eval_successor {i : Int64} (value : e.eval .sqlite env = .ok (.integer i)) (negative : i.toInt < 0) :
    (successor e).eval .sqlite env = .ok (.integer (Int64.ofInt (1 + i.toInt))) := by
  have lower := i.le_toInt
  rw [eval, value]
  simp only [bind, Except.bind, pure, Except.pure, Scalar.addTo_integer (i := 1) (j := i) (by omega) (by omega)]

/-- Neither sum of the offset of a negative integer leaves the integers of 64 bits. -/
theorem exact_offset {i : Int64} (value : e.eval .sqlite env = .ok (.integer i)) (negative : i.toInt < 0) :
    ∃ next distance : Int64, (successor e).eval .sqlite env = .ok (.integer next) ∧ next.toInt = i.toInt + 1 ∧
      (offset e).eval .sqlite env = .ok (.integer distance) ∧
      distance.toInt = 9223372036854775807 + next.toInt := by
  have lower := i.le_toInt
  have bound := Segment.offset_lt negative
  have next : (Int64.ofInt (1 + i.toInt)).toInt = 1 + i.toInt := Int64.toInt_ofInt_of_le (by omega) (by omega)
  have distance : (Int64.ofInt (Segment.offset i)).toInt = (Segment.offset i : Int) :=
    Int64.toInt_ofInt_of_le (by omega) (by omega)
  refine ⟨_, _, eval_successor value negative, by omega, eval_offset value negative, ?_⟩
  rw [distance, next, Segment.offset_toInt]
  omega

end Expr

namespace Encoding

variable {e : Expr} {env : Reference → Value} {v : Value} {kind : SegmentKind}

/-- A fixed-width element of one part is a segment expression that agrees with the direct writer on every value
of its column: it has the written characters as its value exactly where there are some, and it fails with an
overflow of some width exactly where writing does. -/
theorem element_agrees (maxDepth : Nat) (value : e.eval .sqlite env = .ok v.scalar) (held : Segment.IsHeld v kind)
    (bounded : kind.IsBounded) (countable : v.IsCountable) :
    ∃ expr, element ⟨.sqlite, false, maxDepth⟩ [⟨e, kind⟩] = .ok (.segments [expr] kind.width) ∧
      Segment.Agrees (expr.eval .sqlite env) (Segment.encode v kind) ∧
      (∀ cs, expr.eval .sqlite env = .ok (.ofChars cs) ↔ Segment.encode v kind = .ok cs) ∧
      (∀ width, (∃ argument, expr.eval .sqlite env = .error ⟨.overflow width, argument⟩) ↔
        ∃ detail, Segment.encode v kind = .error (.encodingOverflow detail width)) ∧
      ∀ i, v = .integer i → i.toInt < 0 →
        ∃ next distance : Int64, (Expr.successor e).eval .sqlite env = .ok (.integer next) ∧
          next.toInt = i.toInt + 1 ∧ (Expr.offset e).eval .sqlite env = .ok (.integer distance) ∧
          distance.toInt = 9223372036854775807 + next.toInt := by
  obtain ⟨expr, segment⟩ := Expr.exists_segment? e kind
  have agrees := Expr.agrees_segment? value segment held bounded countable
  have made : segments .sqlite [⟨e, kind⟩] = .ok [expr] := segments_eq_ok_iff.mpr (.cons segment .nil)
  refine ⟨expr, (element_eq_ok_iff rfl).mpr ⟨[expr], made, ?_⟩, agrees, agrees.chars_iff, agrees.overflow_iff, ?_⟩
  · rw [List.map_singleton, SegmentKind.levelWidth_singleton]
  · rintro i rfl negative
    exact Expr.exact_offset value negative

/-- The three bytes of a text fail a key of two bytes. -/
theorem element_agrees_sample :
    ∃ expr argument, element ⟨.sqlite, false, 64⟩ [⟨.reference (.column "t" "name"), .textKey 2 true⟩]
        = .ok (.segments [expr] 5) ∧
      expr.eval .sqlite (fun _ => .text "ABC") = .error ⟨.overflow 4, argument⟩ := by
  have column : (Expr.reference (.column "t" "name")).eval .sqlite (fun _ => .text "ABC") = .ok (Value.text "ABC").scalar :=
    rfl
  have held : Segment.IsHeld (.text "ABC") (.textKey 2 true) := Or.inr ⟨"ABC", rfl⟩
  have countable : (Text.utf8 "ABC".toList).length < 4611686018427387904 := by decide
  obtain ⟨expr, made, -, -, raises, -⟩ := element_agrees 64 column held trivial countable
  obtain ⟨argument, failed⟩ := (raises 4).mpr ⟨.keyBytes 3, by decide⟩
  exact ⟨expr, argument, made, failed⟩

end Encoding

end ForestQuery
