import ForestQuery.Proofs.Segment.Clean
/-!
Levels as they were written, piece by piece, whatever the values were. Main statement: two levels that are read from
the same text were written in the same pieces.
-/

namespace ForestQuery

namespace Text.IsClean

variable {cs : List Char} {t : StoredText}

theorem nul_not_mem (clean : IsClean cs) (bytes : utf8 cs = t.toBytes) : StoredChar.char '\x00' ∉ t := by
  intro member
  obtain ⟨x, y, rfl⟩ := List.append_of_mem member
  rw [StoredText.toBytes_append] at bytes
  obtain ⟨front, later, rfl, -, behind⟩ := Text.exists_cut (b := 0) (y := StoredText.toBytes y) bytes (by decide)
  obtain ⟨r, rfl, -⟩ := exists_cons_of_utf8 behind (by decide)
  exact clean.nul (List.mem_append_right _ List.mem_cons_self)

theorem hyphens_apart (clean : IsClean cs) (bytes : utf8 cs = t.toBytes) :
    ¬ [StoredChar.char '-', .char '-'] <:+: t := by
  rintro ⟨x, y, rfl⟩
  rw [List.append_assoc, StoredText.toBytes_append] at bytes
  obtain ⟨front, later, rfl, -, behind⟩ :=
    Text.exists_cut (b := 45) (y := 45 :: StoredText.toBytes y) bytes (by decide)
  obtain ⟨r, rfl, rest⟩ := exists_cons_of_utf8 behind (by decide)
  obtain ⟨r, rfl, -⟩ := exists_cons_of_utf8 rest (by decide)
  obtain ⟨d, next, other⟩ := clean.hyphens front.length (by
    rw [List.getElem?_append_right (Nat.le_refl _), Nat.sub_self]
    rfl)
  rw [List.getElem?_append_right (by omega), Nat.add_sub_cancel_left] at next
  exact other (Option.some.inj next).symm

end Text.IsClean

namespace Segment

/-- What a value can be written as in a segment: a text of the width of its kind, unless it holds a U+0000 or two
hyphens, which no segment is read with. -/
structure IsPiece (kind : SegmentKind) (t : StoredText) : Prop where
  whole : t.IsWhole
  width : StoredChar.char '\x00' ∉ t → ¬ [StoredChar.char '-', .char '-'] <:+: t → t.length = kind.width

end Segment

namespace Column

open Segment

variable {kinds : List SegmentKind} {ts us : List StoredText} {cs : List Char}

/-- The pieces of a clean level have the widths of their kinds. -/
theorem width_of_isPiece (pieces : List.Forall₂ IsPiece kinds ts) (noNul : StoredChar.char '\x00' ∉ ts.flatten)
    (apart : ¬ [StoredChar.char '-', .char '-'] <:+: ts.flatten) :
    List.Forall₂ (fun kind t => t.IsWhole ∧ t.length = kind.width) kinds ts ∧
      ts.flatten.length = SegmentKind.levelWidth kinds := by
  induction pieces with
  | nil => exact ⟨.nil, rfl⟩
  | @cons kind t kinds ts piece _ ih =>
    rw [List.flatten_cons] at noNul apart
    have own : t.length = kind.width := piece.width (fun member => noNul (List.mem_append_left _ member))
      fun inside => apart (inside.trans (List.prefix_append _ _).isInfix)
    obtain ⟨others, length⟩ := ih (fun member => noNul (List.mem_append_right _ member))
      fun inside => apart (inside.trans (List.suffix_append _ _).isInfix)
    refine ⟨.cons ⟨piece.whole, own⟩ others, ?_⟩
    rw [List.flatten_cons, List.length_append, own, length, SegmentKind.levelWidth_cons]

theorem isWhole_flatten (pieces : List.Forall₂ (fun kind t => t.IsWhole ∧ t.length = SegmentKind.width kind) kinds ts) :
    StoredText.IsWhole ts.flatten := by
  intro c member
  obtain ⟨t, found, inPiece⟩ := List.mem_flatten.mp member
  obtain ⟨kind, -, whole, -⟩ := Outcome.exists_of_mem_right pieces found
  exact whole c inPiece

/-- Pieces of the same widths that have the same characters have the same bytes one by one. -/
theorem same_pieces_of_width
    (first : List.Forall₂ (fun kind t => t.IsWhole ∧ t.length = SegmentKind.width kind) kinds ts)
    (second : List.Forall₂ (fun kind t => t.IsWhole ∧ t.length = SegmentKind.width kind) kinds us)
    (bytes : Text.utf8 cs = StoredText.toBytes ts.flatten) (bytes' : Text.utf8 cs = StoredText.toBytes us.flatten)
    (length : cs.length = ts.flatten.length) (length' : cs.length = us.flatten.length) :
    List.Forall₂ (fun t u => t.toBytes = u.toBytes) ts us := by
  induction first generalizing us cs with
  | nil =>
    cases second
    exact .nil
  | @cons kind t kinds ts own others ih =>
    obtain ⟨u, us, own', others', rfl⟩ := List.forall₂_cons_left_iff.mp second
    rw [List.flatten_cons] at bytes bytes' length length'
    obtain ⟨front, later, rfl, here, behind, width, rest⟩ :=
      StoredText.exists_cut own.1 (isWhole_flatten others) bytes length
    obtain ⟨front', later', shape, here', behind', width', rest'⟩ :=
      StoredText.exists_cut own'.1 (isWhole_flatten others') bytes' length'
    obtain ⟨rfl, rfl⟩ := List.append_inj shape (by rw [width, width', own.2, own'.2])
    exact .cons (here.symm.trans here') (ih others' behind behind' rest rest')

/-- Two levels that are read from the same text were written in the same pieces. -/
theorem same_pieces {v : Value} (first : List.Forall₂ IsPiece kinds ts) (second : List.Forall₂ IsPiece kinds us)
    (plain : ∀ kind ∈ kinds, ∀ width, kind ≠ .text width) (length : cs.length = SegmentKind.levelWidth kinds)
    (read : decodeLevel kinds cs = .ok v) (bytes : Text.utf8 cs = StoredText.toBytes ts.flatten)
    (bytes' : Text.utf8 cs = StoredText.toBytes us.flatten) : List.Forall₂ (fun t u => t.toBytes = u.toBytes) ts us := by
  have clean := isClean_of_decodeLevel plain length read
  obtain ⟨widths, total⟩ := width_of_isPiece first (clean.nul_not_mem bytes) (clean.hyphens_apart bytes)
  obtain ⟨widths', total'⟩ := width_of_isPiece second (clean.nul_not_mem bytes') (clean.hyphens_apart bytes')
  exact same_pieces_of_width widths widths' bytes bytes' (length.trans total.symm) (length.trans total'.symm)

end Column

end ForestQuery
