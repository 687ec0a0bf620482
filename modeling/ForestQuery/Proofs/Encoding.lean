import ForestQuery.Proofs.Expr
import ForestQuery.Traversal
/-!
What one level adds to an accumulated column. Main statement: the element made for some parts writes the
level of their values.
-/

namespace ForestQuery

namespace Encoding

theorem segments_eq_ok_iff {d : Dialect} {parts : List Part} {exprs : List Expr} :
    segments d parts = .ok exprs ↔
      List.Forall₂ (fun p e => Expr.segment? d p.expr p.kind = some e) parts exprs := by
  induction parts generalizing exprs with
  | nil => cases exprs <;> simp [segments]
  | cons p ps ih =>
    rw [segments, List.forall₂_cons_left_iff]
    cases first : Expr.segment? d p.expr p.kind with
    | none =>
      simp only [reduceCtorEq, false_iff, not_exists, not_and]
      rintro e es none
      cases none
    | some e =>
      simp only [Outcome.map_eq_ok_iff, ih]
      constructor
      · rintro ⟨es, others, rfl⟩
        exact ⟨e, es, rfl, others, rfl⟩
      · rintro ⟨e', es, same, others, rfl⟩
        cases same
        exact ⟨es, others, rfl⟩

/-- An element of fixed-width columns is made of one segment for each part. -/
theorem element_eq_ok_iff {enc : Encoding} {parts : List Part} {el : Element} (fixed : enc.native = false) :
    enc.element parts = .ok el ↔
      ∃ exprs, segments enc.dialect parts = .ok exprs ∧
        el = .segments exprs (SegmentKind.levelWidth (parts.map Part.kind)) := by
  unfold element
  rw [fixed, if_neg (by decide), Outcome.map_eq_ok_iff]
  constructor
  · rintro ⟨exprs, made, rfl⟩
    exact ⟨exprs, made, rfl⟩
  · rintro ⟨exprs, made, rfl⟩
    exact ⟨exprs, made, rfl⟩

end Encoding

namespace Element

variable {parts : List Part} {exprs : List Expr} {env : Reference → Value} {values : List Value} {width : Nat}

/-- The values of the parts of a level, each of which its column may hold. -/
def AreHeld (env : Reference → Value) (parts : List Part) (values : List Value) : Prop :=
  List.Forall₂ (fun p v => p.expr.eval .sqlite env = .ok v.scalar ∧ Segment.IsHeld v p.kind) parts values

theorem evalText_segments_cons {e : Expr} {es : List Expr} {t : StoredText} :
    (segments (e :: es) width).evalText .sqlite env = .ok t ↔
      ∃ first rest, e.evalText .sqlite env = .ok first ∧ (segments es width).evalText .sqlite env = .ok rest ∧
        t = first ++ rest := by
  simp only [evalText, List.mapM_cons, Outcome.map_eq_ok_iff, Outcome.bind_eq_ok_iff, Outcome.pure_eq_ok_iff]
  constructor
  · rintro ⟨_, ⟨first, firstOk, others, othersOk, rfl⟩, rfl⟩
    exact ⟨first, others.flatten, firstOk, ⟨others, othersOk, rfl⟩, rfl⟩
  · rintro ⟨first, _, firstOk, ⟨others, othersOk, rfl⟩, rfl⟩
    exact ⟨first :: others, ⟨first, firstOk, others, othersOk, rfl⟩, rfl⟩

/-- The element made for some parts writes the level of their values. -/
theorem evalText_segments {level : List Char} (made : Encoding.segments .sqlite parts = .ok exprs)
    (held : AreHeld env parts values) (bounded : ∀ p ∈ parts, p.kind.IsBounded)
    (written : Column.encodeLevel (parts.map Part.kind) values = .ok level) :
    (segments exprs width).evalText .sqlite env = .ok (.ofChars level) := by
  induction held generalizing exprs level with
  | nil =>
    cases made
    cases written
    rfl
  | @cons p v ps vs first _ ih =>
    obtain ⟨e, es, segment, others, rfl⟩ := List.forall₂_cons_left_iff.mp (Encoding.segments_eq_ok_iff.mp made)
    obtain ⟨cs, tail, firstOk, tailOk, rfl⟩ := Column.encodeLevel_cons_eq_ok written
    have text := Expr.evalText_segment? first.1 segment first.2 (bounded p (by simp)) firstOk
    have texts := ih (Encoding.segments_eq_ok_iff.mpr others) (fun q hq => bounded q (by simp [hq])) tailOk
    exact evalText_segments_cons.mpr ⟨_, _, text, texts, StoredText.ofChars_append _ _⟩

/-- Where the element has a text, each of the countable values has its segment. -/
theorem exists_level_of_evalText {t : StoredText} (made : Encoding.segments .sqlite parts = .ok exprs)
    (held : AreHeld env parts values) (countable : ∀ v ∈ values, v.IsCountable)
    (bounded : ∀ p ∈ parts, p.kind.IsBounded) (text : (segments exprs width).evalText .sqlite env = .ok t) :
    ∃ level, Column.encodeLevel (parts.map Part.kind) values = .ok level ∧ t = .ofChars level := by
  induction held generalizing exprs t with
  | nil =>
    cases made
    exact ⟨[], rfl, (Except.ok.inj text).symm⟩
  | @cons p v ps vs first _ ih =>
    obtain ⟨e, es, segment, others, rfl⟩ := List.forall₂_cons_left_iff.mp (Encoding.segments_eq_ok_iff.mp made)
    obtain ⟨front, rest, frontOk, restOk, rfl⟩ := evalText_segments_cons.mp text
    cases written : Segment.encode v p.kind with
    | error refusal =>
      obtain ⟨w, detail, argument, -, failed⟩ :=
        Expr.evalText_segment?_error first.1 segment first.2 (countable v (by simp)) written
      rw [failed] at frontOk
      cases frontOk
    | ok cs =>
      have same := Expr.evalText_segment? first.1 segment first.2 (bounded p (by simp)) written
      rw [same, Except.ok.injEq] at frontOk
      obtain ⟨tail, tailOk, rfl⟩ := ih (Encoding.segments_eq_ok_iff.mpr others)
        (fun w hw => countable w (by simp [hw])) (fun q hq => bounded q (by simp [hq])) restOk
      refine ⟨cs ++ tail, ?_, ?_⟩
      · rw [List.map_cons, Column.encodeLevel, written, tailOk]
        rfl
      · rw [← frontOk, StoredText.ofChars_append]

end Element

end ForestQuery
