import ForestQuery.Column
import ForestQuery.Proofs.Outcome
import ForestQuery.Proofs.Text.Pieces
import ForestQuery.Proofs.Uuid
/-!
What the characters of a level can be. Main statement: a level that is read, made of anything but plain texts, has no
U+0000, and behind each hyphen in it stands something else than a hyphen. So of the pieces that it was written in none
is longer than its segment.
-/

namespace ForestQuery

namespace Text

variable {cs ds : List Char}

/-- Whether there is no U+0000 in a text, and another character than a hyphen behind each hyphen. -/
structure IsClean (cs : List Char) : Prop where
  nul : '\x00' ∉ cs
  hyphens : ∀ i, cs[i]? = some '-' → ∃ d, cs[i + 1]? = some d ∧ d ≠ '-'

theorem isClean_of_forall (each : ∀ c ∈ cs, c ≠ '\x00' ∧ c ≠ '-') : IsClean cs where
  nul := fun member => (each _ member).1 rfl
  hyphens := fun _ found => absurd rfl (each _ (List.mem_of_getElem? found)).2

theorem IsClean.append (first : IsClean cs) (second : IsClean ds) : IsClean (cs ++ ds) where
  nul := fun member => (List.mem_append.mp member).elim first.nul second.nul
  hyphens := by
    intro i found
    by_cases inside : i < cs.length
    · rw [List.getElem?_append_left inside] at found
      obtain ⟨d, next, other⟩ := first.hyphens i found
      obtain ⟨bound, -⟩ := List.getElem?_eq_some_iff.mp next
      exact ⟨d, by rw [List.getElem?_append_left bound, next], other⟩
    · rw [List.getElem?_append_right (by omega)] at found
      obtain ⟨d, next, other⟩ := second.hyphens _ found
      refine ⟨d, ?_, other⟩
      rw [List.getElem?_append_right (by omega), ← next, show i + 1 - cs.length = i - cs.length + 1 by omega]

/-- A hyphen in front of characters other than hyphens. -/
theorem IsClean.hyphen (each : ∀ c ∈ cs, c ≠ '\x00' ∧ c ≠ '-') (nonempty : cs ≠ []) (rest : IsClean ds) :
    IsClean ('-' :: (cs ++ ds)) where
  nul := by
    rintro (_ | ⟨_, member⟩)
    exact ((isClean_of_forall each).append rest).nul member
  hyphens := by
    intro i found
    cases i with
    | zero =>
      obtain ⟨c, cs, rfl⟩ := List.exists_cons_of_ne_nil nonempty
      exact ⟨c, rfl, (each c List.mem_cons_self).2⟩
    | succ i => exact ((isClean_of_forall each).append rest).hyphens i found

theorem isBlank_of_trimChars (empty : (trimChars cs).isEmpty = true) : ∀ c ∈ cs, isBlank c = true := by
  have all : ∀ xs : List Char, xs.dropWhile isBlank = [] → ∀ c ∈ xs, isBlank c = true := by
    intro xs none c member
    rw [← List.takeWhile_append_dropWhile (p := isBlank) (l := xs), none, List.append_nil] at member
    exact List.all_eq_true.mp List.all_takeWhile c member
  rw [List.isEmpty_iff, trimChars, List.reverse_eq_nil_iff] at empty
  intro c member
  rw [← List.takeWhile_append_dropWhile (p := isBlank) (l := cs), List.mem_append] at member
  rcases member with front | rest
  · exact List.all_eq_true.mp List.all_takeWhile c front
  · exact all _ empty c (List.mem_reverse.mpr rest)

end Text

theorem Uuid.isClean_chars (u : Uuid) : Text.IsClean u.chars := by
  have digits : ∀ c ∈ u.digits.map Text.lowerHexDigit, c ≠ '\x00' ∧ c ≠ '-' := by
    have each : ∀ x : Fin 16, Text.lowerHexDigit x ≠ '\x00' ∧ Text.lowerHexDigit x ≠ '-' := by decide
    intro c member
    obtain ⟨d, inDigits, rfl⟩ := List.mem_map.mp member
    exact each ⟨d, u.digit_lt d inDigits⟩
  have length : (u.digits.map Text.lowerHexDigit).length = 32 := by rw [List.length_map, u.length_digits]
  rw [chars, hyphenate]
  generalize u.digits.map Text.lowerHexDigit = cs at digits length ⊢
  have inside : ∀ {n m : Nat}, ∀ c ∈ (cs.drop n).take m, c ≠ '\x00' ∧ c ≠ '-' :=
    fun c member => digits c (List.mem_of_mem_drop (List.mem_of_mem_take member))
  have present : ∀ {n m : Nat}, n < 32 → 0 < m → (cs.drop n).take m ≠ [] := by
    intro n m start positive
    refine List.ne_nil_of_length_pos ?_
    rw [List.length_take, List.length_drop]
    omega
  have last : Text.IsClean ('-' :: cs.drop 20) := by
    rw [← List.append_nil (cs.drop 20)]
    refine Text.IsClean.hyphen (fun c member => digits c (List.mem_of_mem_drop member)) ?_
      (Text.isClean_of_forall (List.forall_mem_nil _))
    exact List.ne_nil_of_length_pos (by rw [List.length_drop]; omega)
  refine Text.IsClean.append (Text.isClean_of_forall fun c member => digits c (List.mem_of_mem_take member)) ?_
  exact .hyphen inside (present (by decide) (by decide)) (.hyphen inside (present (by decide) (by decide))
    (.hyphen inside (present (by decide) (by decide)) last))

/-- An identifier of 36 characters in any spelling. -/
theorem Uuid.isClean_of_ofChars? {cs : List Char} {u : Uuid} (length : cs.length = 36) (read : ofChars? cs = some u) :
    Text.IsClean cs := by
  have lower := map_toLower_of_ofChars? length read
  have clean := u.isClean_chars
  rw [← lower] at clean
  refine ⟨fun member => clean.nul (List.mem_map.mpr ⟨_, member, rfl⟩), fun i found => ?_⟩
  obtain ⟨d, next, other⟩ := clean.hyphens i (by rw [List.getElem?_map, found]; rfl)
  rw [List.getElem?_map, Option.map_eq_some_iff] at next
  obtain ⟨c, next, rfl⟩ := next
  refine ⟨c, next, ?_⟩
  rintro rfl
  exact other rfl

namespace Segment

variable {cs : List Char} {kind : SegmentKind} {kinds : List SegmentKind} {v : Value} {vs : List Value}

theorem isClean_of_digits64? {i : Int64} (read : digits64? cs = some i) :
    (∀ c ∈ cs, c ≠ '\x00' ∧ c ≠ '-') ∧ cs ≠ [] := by
  rw [digits64?] at read
  split at read
  · rename_i digits
    refine ⟨fun c member => ?_, ?_⟩
    · have digit := List.all_eq_true.mp digits c member
      constructor <;> rintro rfl <;> exact absurd digit (by decide)
    · rintro rfl
      cases read
  · cases read

theorem isClean_of_decodeInteger (read : decodeInteger cs = .ok v) : Text.IsClean cs := by
  unfold decodeInteger at read
  simp only at read
  split at read
  · rename_i blank
    refine Text.isClean_of_forall fun c member => ?_
    rw [beq_iff_eq.mp (List.all_eq_true.mp blank c member)]
    decide
  · split at read
    · rename_i number
      split at number
      · rename_i digits _
        obtain ⟨o, read, -⟩ := Option.map_eq_some_iff.mp number
        obtain ⟨each, nonempty⟩ := isClean_of_digits64? read
        rw [← List.append_nil digits]
        exact .hyphen each nonempty (Text.isClean_of_forall (List.forall_mem_nil _))
      · exact Text.isClean_of_forall (isClean_of_digits64? number).1
    · cases read

/-- What is read for an identifier: nothing where there are only blanks, or the text of an identifier. -/
theorem decodeUuid_cases (read : decodeUuid cs = .ok v) :
    (Text.trimChars cs).isEmpty = true ∧ v = .null ∨ ∃ u, Uuid.ofChars? cs = some u ∧ v = .text u.text := by
  rw [decodeUuid] at read
  split at read
  · exact Or.inl ⟨‹_›, (Except.ok.inj read).symm⟩
  · split at read
    · exact Or.inr ⟨_, ‹_›, (Except.ok.inj read).symm⟩
    · cases read

/-- A segment that is read is clean. -/
theorem isClean_of_decode (plain : ∀ width, kind ≠ .text width) (length : cs.length = kind.width)
    (read : decode cs kind = .ok v) : Text.IsClean cs := by
  cases kind with
  | text width => exact absurd rfl (plain width)
  | integer => exact isClean_of_decodeInteger read
  | uuid =>
    rcases decodeUuid_cases read with ⟨blank, -⟩ | ⟨u, found, -⟩
    · refine Text.isClean_of_forall fun c member => ?_
      have blank := Text.isBlank_of_trimChars blank c member
      constructor <;> rintro rfl <;> exact absurd blank (by decide)
    · exact Uuid.isClean_of_ofChars? length found
  | textKey bytes descending =>
    change decodeKey cs = .ok v at read
    rw [decodeKey] at read
    split at read
    · rename_i key
      refine Text.isClean_of_forall fun c member => ?_
      cases cs with
      | nil => cases member
      | cons marker digits =>
        rw [isKey, Bool.and_eq_true, Bool.or_eq_true, beq_iff_eq, beq_iff_eq] at key
        rcases List.mem_cons.mp member with rfl | digit
        · rcases key.1 with rfl | rfl <;> decide
        · have value := List.all_eq_true.mp key.2 c digit
          constructor <;> rintro rfl <;> exact absurd value (by decide)
    · cases read

end Segment

namespace Column

variable {l : List Char} {kinds : List SegmentKind} {v : Value} {vs : List Value}

theorem isClean_of_decodeSegments (plain : ∀ kind ∈ kinds, ∀ width, kind ≠ .text width)
    (length : l.length = SegmentKind.levelWidth kinds) (read : decodeSegments kinds l = .ok vs) : Text.IsClean l := by
  induction kinds generalizing l vs with
  | nil =>
    rw [List.eq_nil_of_length_eq_zero length]
    exact Text.isClean_of_forall (List.forall_mem_nil _)
  | cons kind kinds ih =>
    obtain ⟨v, first, read⟩ := Outcome.bind_eq_ok_iff.mp read
    obtain ⟨ws, others, -⟩ := Outcome.bind_eq_ok_iff.mp read
    rw [SegmentKind.levelWidth_cons] at length
    rw [← List.take_append_drop kind.width l]
    refine .append ?_ ?_
    · exact Segment.isClean_of_decode (plain kind List.mem_cons_self) (by rw [List.length_take]; omega) first
    · exact ih (fun k member => plain k (List.mem_cons_of_mem _ member)) (by rw [List.length_drop]; omega) others

/-- A level that is read is clean. -/
theorem isClean_of_decodeLevel (plain : ∀ kind ∈ kinds, ∀ width, kind ≠ .text width)
    (length : l.length = SegmentKind.levelWidth kinds) (read : decodeLevel kinds l = .ok v) : Text.IsClean l := by
  obtain ⟨vs, segments, -⟩ := Outcome.bind_eq_ok_iff.mp read
  exact isClean_of_decodeSegments plain length segments

end Column

end ForestQuery
