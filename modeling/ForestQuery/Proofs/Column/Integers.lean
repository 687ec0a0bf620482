import ForestQuery.Proofs.Column
import ForestQuery.Proofs.Segment.Grammar
/-!
Columns of integers. Main statement: exactly the texts that are written for lists of integers are read, each as the
list that it is written for.
-/

namespace ForestQuery

theorem Segment.isInteger_of_encode {v : Value} {cs : List Char} (written : encode v .integer = .ok cs) :
    v = .null ∨ ∃ i, v = .integer i := by
  cases v with
  | null => exact Or.inl rfl
  | integer i => exact Or.inr ⟨i, rfl⟩
  | real x => cases written
  | text s => cases written
  | blob bytes => cases written

namespace Column

open SegmentKind

variable {cs l : List Char} {v : Value} {vs : List Value} {ls : List (List Char)}

/-- A level of one integer is read exactly when it is its segment. -/
theorem decodeLevel_integer_iff :
    (l.length = levelWidth [.integer] ∧ decodeLevel [.integer] l = .ok v) ↔ Segment.encode v .integer = .ok l := by
  rw [levelWidth_singleton]
  constructor
  · rintro ⟨width, read⟩
    rw [decodeLevel_single width] at read
    exact (Segment.decode_integer_iff width).mp read
  · intro written
    have width : l.length = SegmentKind.integer.width := Segment.length_encode trivial written
    rw [decodeLevel_single width]
    exact ⟨width, (Segment.decode_integer_iff width).mpr written⟩

theorem decodeLevels_integer_iff :
    ((∀ l ∈ ls, l.length = levelWidth [.integer]) ∧ List.Forall₂ (fun l v => decodeLevel [.integer] l = .ok v) ls vs) ↔
      (vs.mapM fun v => Segment.encode v .integer) = .ok ls := by
  rw [← List.forall₂_and_left, Outcome.mapM_eq_ok_iff]
  constructor
  · intro read
    exact (read.imp fun _ _ level => decodeLevel_integer_iff.mp level).flip
  · intro written
    exact (written.imp fun _ _ level => decodeLevel_integer_iff.mpr level).flip

theorem decodeChars_integer_iff : decodeChars [.integer] cs = .ok vs ↔
    vs ≠ [] ∧ (vs.mapM fun v => Segment.encode v .integer).map List.flatten = .ok cs := by
  have positive : 0 < levelWidth [.integer] := levelWidth_pos (by simp)
  rw [decodeChars_eq_ok_iff, Outcome.map_eq_ok_iff]
  constructor
  · rintro ⟨-, some, ls, rfl, levels⟩
    exact ⟨some, ls, decodeLevels_integer_iff.mp levels, rfl⟩
  · rintro ⟨some, ls, written, rfl⟩
    exact ⟨positive, some, ls, rfl, decodeLevels_integer_iff.mpr written⟩

/-- Exactly the segments of one or more integers, one after the other, are read as integers, and no two texts are read
as the same ones. -/
theorem integers_read_as_written :
    (∀ (text : String) (vs : List Value), (encoded text).decodeFixedWidth [.integer] = .ok vs ↔
        vs ≠ [] ∧ (∀ v ∈ vs, v = .null ∨ ∃ i, v = .integer i) ∧
          (vs.mapM fun v => Segment.encode v .integer).map List.flatten = .ok text.toList) ∧
      ∀ (text other : String) (vs : List Value), (encoded text).decodeFixedWidth [.integer] = .ok vs →
        (encoded other).decodeFixedWidth [.integer] = .ok vs → text = other := by
  constructor
  · intro text vs
    rw [decodeFixedWidth, decodeChars_integer_iff]
    refine and_congr_right fun _ => ⟨fun written => ⟨?_, written⟩, And.right⟩
    intro v member
    obtain ⟨segments, each, -⟩ := Outcome.map_eq_ok_iff.mp written
    obtain ⟨cs, -, segment⟩ := Outcome.exists_of_mem_left (Outcome.mapM_eq_ok_iff.mp each) member
    exact Segment.isInteger_of_encode segment
  · intro text other vs first second
    rw [decodeFixedWidth, decodeChars_integer_iff] at first second
    have same : text.toList = other.toList := Except.ok.inj (first.2.symm.trans second.2)
    exact String.toList_inj.mp same

theorem integers_read_as_written_smallest :
    (encoded "-0000000000000000000                    ").decodeFixedWidth [.integer]
        = .ok [.integer Int64.minValue, .null] ∧
      ∀ other, (encoded other).decodeFixedWidth [.integer] = .ok [.integer Int64.minValue, .null] →
        other = "-0000000000000000000                    " := by
  have read := (integers_read_as_written.1 "-0000000000000000000                    "
    [.integer Int64.minValue, .null]).mpr ⟨by simp, by simp, by decide⟩
  exact ⟨read, fun other same => integers_read_as_written.2 _ _ _ same read⟩

end Column

end ForestQuery
