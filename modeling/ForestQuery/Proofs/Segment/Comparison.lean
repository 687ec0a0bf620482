import ForestQuery.Proofs.Segment.Order
import ForestQuery.Proofs.Siblings
/-!
The order that the segments of one kind keep. Main statements: segments compare as the values that they were
written for, and equal segments come from equal values, identifiers up to their spelling.
-/

namespace ForestQuery

namespace SegmentKind

/-- The kinds whose segments keep the order of values. -/
def IsOrdered : SegmentKind → Prop
  | .text _ => False
  | .integer | .uuid | .textKey _ _ => True

/-- Whether the segments of present values are in their order or against it. -/
def direction : SegmentKind → Direction
  | .textKey _ true => .descending
  | .integer | .uuid | .text _ | .textKey _ false => .ascending

theorem IsOrdered.isBounded {kind : SegmentKind} (ordered : kind.IsOrdered) : kind.IsBounded := by
  cases kind with
  | text width => exact ordered.elim
  | integer | uuid | textKey bytes descending => trivial

theorem IsOrdered.ne_text {kind : SegmentKind} (ordered : kind.IsOrdered) (width : Nat) : kind ≠ .text width := by
  rintro rfl
  exact ordered

end SegmentKind

namespace Segment

/-- A value in the one spelling of its kind: identifiers in their canonical text. -/
def canonical : SegmentKind → Value → Value
  | .uuid, .text s => .text (((Uuid.ofText? s).map Uuid.text).getD s)
  | _, v => v

/-- The order of the values of a kind: absent ones first, integers by their numbers, identifiers by their canonical
texts, and the texts of keys by their bytes, or against that order. -/
def compareValues (kind : SegmentKind) : Value → Value → Ordering
  | .null, .null => .eq
  | .null, _ => .lt
  | _, .null => .gt
  | v, w => kind.direction.apply (Value.compare (canonical kind v) (canonical kind w))

/-- Zeros are filled in behind the text of a key, so a text that ends in one is not told from a shorter one. -/
def IsTold : SegmentKind → Value → Prop
  | .textKey _ _, .text s => s.toList.getLast? ≠ some '\x00'
  | _, _ => True

variable {v w : Value} {cs ds : List Char} {kind : SegmentKind} {bytes : Nat} {descending : Bool}

theorem compareValues_null_left (kind : SegmentKind) (present : w.isNull = false) :
    compareValues kind .null w = .lt := by
  cases w with
  | null => cases present
  | integer | real | text | blob => rfl

theorem compareValues_null_right (kind : SegmentKind) (present : v.isNull = false) :
    compareValues kind v .null = .gt := by
  cases v with
  | null => cases present
  | integer | real | text | blob => rfl

theorem compareValues_of_present (kind : SegmentKind) (first : v.isNull = false) (second : w.isNull = false) :
    compareValues kind v w = kind.direction.apply (Value.compare (canonical kind v) (canonical kind w)) := by
  cases v with
  | null => cases first
  | integer | real | text | blob =>
    cases w with
    | null => cases second
    | integer | real | text | blob => rfl

theorem canonical_uuid {s : String} {u : Uuid} (read : Uuid.ofText? s = some u) :
    canonical .uuid (.text s) = .text u.text := by
  rw [canonical, read, Option.map_some, Option.getD_some]

theorem encode_integer_eq_ok (present : v.isNull = false) (written : encode v .integer = .ok cs) :
    ∃ i, v = .integer i ∧ cs = encodeInteger i := by
  rcases encode_integer_cases written with ⟨rfl, -⟩ | found
  · cases present
  · exact found

theorem encode_uuid_eq_ok (present : v.isNull = false) (written : encode v .uuid = .ok cs) :
    ∃ s u, v = .text s ∧ Uuid.ofText? s = some u ∧ cs = u.chars := by
  rcases encode_uuid_cases written with ⟨rfl, -⟩ | found
  · cases present
  · exact found

theorem encode_textKey_eq_ok (present : v.isNull = false) (written : encode v (.textKey bytes descending) = .ok cs) :
    ∃ s digits, v = .text s ∧ encodeKeyBytes bytes descending (Text.utf8 s.toList) = .ok digits ∧
      cs = SegmentKind.presentMarker :: digits := by
  obtain ⟨_, _, digits, ⟨rfl, -, -⟩ | ⟨s, rfl, rfl, rfl⟩, made, rfl⟩ := encode_textKey_cases written
  · cases present
  · exact ⟨s, digits, rfl, made, rfl⟩

/-- The segment of an absent value comes before those of the others. -/
theorem compare_encode_null (ordered : kind.IsOrdered) (present : w.isNull = false)
    (first : encode .null kind = .ok cs) (second : encode w kind = .ok ds) :
    compare (Text.codes cs) (Text.codes ds) = .lt := by
  cases kind with
  | integer =>
    obtain ⟨i, rfl, rfl⟩ := encode_integer_eq_ok present second
    cases first
    refine compare_blanks (by decide) (List.ne_nil_of_length_pos ?_) fun c member => (ascii_of_mem_encodeInteger member).1
    rw [length_encodeInteger]
    decide
  | uuid =>
    obtain ⟨s, u, rfl, -, rfl⟩ := encode_uuid_eq_ok present second
    cases first
    refine compare_blanks (by decide) (List.ne_nil_of_length_pos ?_) fun c member => (ascii_of_mem_chars member).1
    rw [u.length_chars]
    decide
  | text width => exact ordered.elim
  | textKey bytes descending =>
    obtain ⟨s, digits, rfl, -, rfl⟩ := encode_textKey_eq_ok present second
    rw [encode] at first
    obtain ⟨zeros, -, rfl⟩ := Outcome.map_eq_ok_iff.mp first
    exact compare_of_first (by decide) _ _

theorem compare_encode_present (ordered : kind.IsOrdered) (present : v.isNull = false) (present' : w.isNull = false)
    (first : encode v kind = .ok cs) (second : encode w kind = .ok ds) (told : IsTold kind v) (told' : IsTold kind w) :
    compare (Text.codes cs) (Text.codes ds) = compareValues kind v w := by
  rw [compareValues_of_present kind present present']
  cases kind with
  | integer =>
    obtain ⟨i, rfl, rfl⟩ := encode_integer_eq_ok present first
    obtain ⟨j, rfl, rfl⟩ := encode_integer_eq_ok present' second
    exact compare_encodeInteger i j
  | uuid =>
    obtain ⟨s, u, rfl, read, rfl⟩ := encode_uuid_eq_ok present first
    obtain ⟨t, x, rfl, read', rfl⟩ := encode_uuid_eq_ok present' second
    rw [canonical_uuid read, canonical_uuid read']
    exact compare_chars u x
  | text width => exact ordered.elim
  | textKey bytes descending =>
    obtain ⟨s, digits, rfl, made, rfl⟩ := encode_textKey_eq_ok present first
    obtain ⟨t, digits', rfl, made', rfl⟩ := encode_textKey_eq_ok present' second
    -- Both keys have the marker of a present value in front, so their digits decide.
    have order := compare_encodeKeyBytes made made' (Text.isUnpadded_utf8 told) (Text.isUnpadded_utf8 told')
    have bytesOrder : Text.compareText s t = compare (Text.utf8 s.toList) (Text.utf8 t.toList) :=
      Text.compareBytes_eq_compare _ _
    rw [Text.codes_cons, Text.codes_cons, Text.compare_cons_self, order, ← bytesOrder]
    cases descending <;> rfl

theorem null_or_present (v : Value) : v = .null ∨ v.isNull = false := by
  cases v with
  | null => exact Or.inl rfl
  | integer | real | text | blob => exact Or.inr rfl

/-- Segments of one kind compare as the values that they were written for. -/
theorem compare_encode (ordered : kind.IsOrdered) (first : encode v kind = .ok cs) (second : encode w kind = .ok ds)
    (told : IsTold kind v) (told' : IsTold kind w) :
    compare (Text.codes cs) (Text.codes ds) = compareValues kind v w := by
  rcases null_or_present v with rfl | present
  · rcases null_or_present w with rfl | present'
    · obtain rfl : cs = ds := Except.ok.inj (first.symm.trans second)
      exact Std.ReflCmp.compare_self
    · rw [compareValues_null_left kind present', compare_encode_null ordered present' first second]
  · rcases null_or_present w with rfl | present'
    · rw [compareValues_null_right kind present]
      exact Std.OrientedCmp.gt_of_lt (compare_encode_null ordered present second first)
    · exact compare_encode_present ordered present present' first second told told'

theorem canonical_of_present (kind : SegmentKind) (present : v.isNull = false) : (canonical kind v).isNull = false := by
  cases v with
  | null => cases present
  | integer | real | text | blob => cases kind <;> rfl

theorem compareValues_eq_eq_iff_of_present (ordered : kind.IsOrdered) (present : v.isNull = false)
    (present' : w.isNull = false) (first : encode v kind = .ok cs) (second : encode w kind = .ok ds) :
    compareValues kind v w = .eq ↔ canonical kind v = canonical kind w := by
  have numbers : ∀ i j : Int64, Value.compare (.integer i) (.integer j) = .eq ↔ Value.integer i = .integer j := by
    intro i j
    rw [Value.integer.injEq, ← Value.same_integer_iff, Value.same, beq_iff_eq]
  have texts : ∀ s t : String, Value.compare (.text s) (.text t) = .eq ↔ Value.text s = .text t := by
    intro s t
    rw [Value.text.injEq]
    exact Text.compareText_eq_eq_iff
  rw [compareValues_of_present kind present present', Direction.apply_eq_eq_iff]
  cases kind with
  | integer =>
    obtain ⟨i, rfl, -⟩ := encode_integer_eq_ok present first
    obtain ⟨j, rfl, -⟩ := encode_integer_eq_ok present' second
    exact numbers i j
  | uuid =>
    obtain ⟨s, u, rfl, read, -⟩ := encode_uuid_eq_ok present first
    obtain ⟨t, x, rfl, read', -⟩ := encode_uuid_eq_ok present' second
    rw [canonical_uuid read, canonical_uuid read']
    exact texts _ _
  | text width => exact ordered.elim
  | textKey bytes descending =>
    obtain ⟨s, digits, rfl, -, -⟩ := encode_textKey_eq_ok present first
    obtain ⟨t, digits', rfl, -, -⟩ := encode_textKey_eq_ok present' second
    exact texts s t

/-- Values that are written and compare as equal are one value, up to its spelling. -/
theorem compareValues_eq_eq_iff (ordered : kind.IsOrdered) (first : encode v kind = .ok cs)
    (second : encode w kind = .ok ds) : compareValues kind v w = .eq ↔ canonical kind v = canonical kind w := by
  have absent : canonical kind .null = .null := by cases kind <;> rfl
  rcases null_or_present v with rfl | present
  · rcases null_or_present w with rfl | present'
    · exact iff_of_true rfl rfl
    · have other := canonical_of_present kind present'
      refine iff_of_false (by rw [compareValues_null_left kind present']; decide) fun same => ?_
      rw [← same, absent] at other
      cases other
  · rcases null_or_present w with rfl | present'
    · have other := canonical_of_present kind present
      refine iff_of_false (by rw [compareValues_null_right kind present]; decide) fun same => ?_
      rw [same, absent] at other
      cases other
    · exact compareValues_eq_eq_iff_of_present ordered present present' first second

end Segment

end ForestQuery
