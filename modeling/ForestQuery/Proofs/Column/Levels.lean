import ForestQuery.Proofs.Column
import ForestQuery.Proofs.Text.Utf8
import ForestQuery.Traversal
/-!
Stored texts that are read as levels. Main statement: where a text and the same text with something behind it are
both read, and the second has one value more, what stands behind is the bytes of exactly one level.
-/

namespace ForestQuery.Column

variable {kinds : List SegmentKind} {t x : StoredText} {ls ms : List (List Char)} {vs ws : List Value} {c : Column}

/-- Levels of one width that make up a stored text, with the values that they are read as. -/
structure Spells (kinds : List SegmentKind) (t : StoredText) (ls : List (List Char)) (vs : List Value) : Prop where
  positive : 0 < SegmentKind.levelWidth kinds
  whole : ∀ l ∈ ls, l.length = SegmentKind.levelWidth kinds
  bytes : Text.utf8 ls.flatten = t.toBytes
  read : List.Forall₂ (fun l v => decodeLevel kinds l = .ok v) ls vs

theorem spells_nil (positive : 0 < SegmentKind.levelWidth kinds) : Spells kinds [] [] [] :=
  ⟨positive, by simp, rfl, .nil⟩

/-- A column that is read is made of levels. -/
theorem exists_spells (column : Statement.encodedColumn? t = some c) (decoded : c.decode false kinds = .ok vs) :
    ∃ ls, Spells kinds t ls vs := by
  obtain ⟨cs, chars, rfl⟩ := Option.map_eq_some_iff.mp column
  rw [decode, if_neg (by decide), decodeFixedWidth, String.toList_ofList] at decoded
  obtain ⟨positive, -, ls, rfl, whole, read⟩ := decodeChars_eq_ok_iff.mp decoded
  exact ⟨ls, positive, whole, StoredText.utf8_of_chars? chars, read⟩

theorem Spells.length_flatten (spells : Spells kinds t ls vs) :
    ls.flatten.length = vs.length * SegmentKind.levelWidth kinds := by
  rw [length_flatten_of_whole spells.whole, spells.read.length_eq]

/-- What stands behind a text that is read, and adds one value, is a level. -/
theorem Spells.exists_last (first : Spells kinds t ls vs) (second : Spells kinds (t ++ x) ms ws)
    (one : ws.length = vs.length + 1) : ∃ l w, ms = ls ++ [l] ∧ ws = vs ++ [w] ∧ Text.utf8 l = x.toBytes ∧
      l.length = SegmentKind.levelWidth kinds ∧ decodeLevel kinds l = .ok w := by
  have count : ms.length = ls.length + 1 := by rw [second.read.length_eq, first.read.length_eq, one]
  obtain ⟨front, l, rfl⟩ : ∃ front l, ms = front ++ [l] := by
    rcases List.eq_nil_or_concat ms with rfl | ⟨front, l, rfl⟩
    · cases count
    · exact ⟨front, l, List.concat_eq_append⟩
  have bytes : Text.utf8 ls.flatten ++ x.toBytes = Text.utf8 front.flatten ++ Text.utf8 l := by
    rw [first.bytes, ← Text.utf8_append, show front.flatten ++ l = (front ++ [l]).flatten by simp, second.bytes]
    exact List.flatMap_append.symm
  have inFront : ∀ m ∈ front, m.length = SegmentKind.levelWidth kinds := fun m member => second.whole m (by simp [member])
  have shorter : ls.flatten.length = front.flatten.length := by
    rw [length_flatten_of_whole first.whole, length_flatten_of_whole inFront,
      show ls.length = front.length by simpa using count.symm]
  -- Both fronts begin the same text, and have the same length.
  have beginning : ls.flatten <+: (front ++ [l]).flatten := by
    refine Text.prefix_of_utf8 ⟨x.toBytes, bytes.trans ?_⟩
    rw [← Text.utf8_append, List.flatten_append, List.flatten_singleton]
  rw [List.flatten_append, List.flatten_singleton] at beginning
  have same : ls.flatten = front.flatten :=
    (List.prefix_of_prefix_length_le beginning (List.prefix_append _ _) (Nat.le_of_eq shorter)).eq_of_length shorter
  have levels : ls = front := by
    rw [← levels_flatten first.positive first.whole, same, levels_flatten first.positive inFront]
  subst levels
  have values := Outcome.mapM_eq_ok_iff.mpr second.read
  rw [List.mapM_append, Outcome.mapM_eq_ok_iff.mpr first.read, Outcome.ok_bind] at values
  obtain ⟨last, read, rest⟩ := Outcome.bind_eq_ok_iff.mp values
  rw [List.mapM_cons] at read
  obtain ⟨w, decoded, none⟩ := Outcome.bind_eq_ok_iff.mp read
  cases none
  cases rest
  refine ⟨l, w, rfl, rfl, ?_, second.whole l (by simp), decoded⟩
  exact (List.append_cancel_left bytes).symm

end ForestQuery.Column
