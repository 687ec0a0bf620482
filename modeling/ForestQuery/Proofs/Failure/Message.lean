import ForestQuery.Proofs.Failure
/-!
Messages of failures that an expression asks for, with anything but the marker in front of them and any argument in
them. Main statement: such a message is read back as the failure that was asked for.
-/

namespace ForestQuery

namespace Text

variable {part front : List Char}

/-- Whether no ending of a text is a beginning of it, so that two of its places never overlap. -/
def IsUnbordered (part : List Char) : Prop := ∀ n < part.length, 0 < n → (part.drop n).isPrefixOf part = false

theorem afterFirst?_cons (part : List Char) (c : Char) (cs : List Char) :
    afterFirst? part (c :: cs) =
      if part.isPrefixOf (c :: cs) then some ((c :: cs).drop part.length) else afterFirst? part cs := by
  rw [afterFirst?, afterBeginning?]
  by_cases here : part.isPrefixOf (c :: cs) = true
  · simp only [here, if_true]
  · simp only [here, Bool.false_eq_true, if_false]

theorem not_prefix_of_unbordered (unbordered : IsUnbordered part) (nonempty : front ≠ [])
    (absent : ¬ part <+: front) (rest : List Char) : ¬ part <+: front ++ (part ++ rest) := by
  intro found
  by_cases short : part.length ≤ front.length
  · exact absent (List.prefix_of_prefix_length_le found (List.prefix_append _ _) short)
  · -- The text would start inside the front and end inside its own place, so an ending of it would be a beginning.
    have longer : front.length < part.length := Nat.lt_of_not_le short
    obtain ⟨ending, shape⟩ := List.prefix_of_prefix_length_le (List.prefix_append front _) found (Nat.le_of_lt longer)
    rw [← shape, List.prefix_append_right_inj, shape] at found
    have beginning : ending <+: part := by
      refine List.prefix_of_prefix_length_le found (List.prefix_append part rest) ?_
      rw [← shape, List.length_append]
      omega
    have clash := unbordered front.length longer (List.length_pos_iff.mpr nonempty)
    rw [← shape, List.drop_left, shape, List.isPrefixOf_iff_prefix.mpr beginning] at clash
    cases clash

/-- An unbordered text is found where it was put, if it does not stand in front of that place. -/
theorem afterFirst?_of_absent (unbordered : IsUnbordered part) (absent : contains part front = false)
    (rest : List Char) : afterFirst? part (front ++ (part ++ rest)) = some rest := by
  induction front with
  | nil => exact afterFirst?_append part rest
  | cons c front ih =>
    rw [contains, afterFirst?_cons] at absent
    by_cases here : part.isPrefixOf (c :: front) = true
    · simp only [here, if_true, Option.isSome_some, Bool.true_eq_false] at absent
    · rw [if_neg here] at absent
      rw [List.isPrefixOf_iff_prefix] at here
      have later := not_prefix_of_unbordered unbordered (List.cons_ne_nil c front) here rest
      rw [← List.isPrefixOf_iff_prefix, List.cons_append] at later
      rw [List.cons_append, afterFirst?_cons, if_neg later]
      exact ih absent

end Text

namespace Raised

/-- The text of a failure: the marker, the tag of its kind, and its argument. -/
def message (r : Raised) : List Char := marker.toList ++ (r.kind.tag.toList ++ ':' :: ' ' :: r.argument)

theorem isUnbordered_marker : Text.IsUnbordered marker.toList := by
  unfold Text.IsUnbordered
  decide

/-- A statement fails with this text, unless it is cut. -/
theorem messageChars?_eq (r : Raised) :
    messageChars? r.kind.tag.toList r.argument = if '\x00' ∈ r.argument then none else some r.message := by
  obtain ⟨kind, argument⟩ := r
  cases kind with
  | depthExceeded =>
    have tag : '\x00' ∉ RaiseKind.depthExceeded.tag.toList := by decide
    rw [messageChars?_of_clean tag, message, List.append_assoc]
  | overflow width => rw [messageChars?_overflow, message, List.append_assoc]

end Raised

namespace Failure

/-- The failure is found behind its marker, whatever text without a marker stands in front. -/
theorem ofMessage?_message {maxDepth : Nat} {r : Raised} {front : List Char} {e : Error}
    (absent : Text.contains Raised.marker.toList front = false)
    (asked : raised? maxDepth (r.kind.tag.toList ++ ':' :: ' ' :: r.argument) = some e) :
    ofMessage? maxDepth (String.ofList (front ++ r.message)) = some e :=
  ofMessage?_of_raised (Text.afterFirst?_of_absent Raised.isUnbordered_marker absent _) asked

/-- A message that a failing expression makes is read as what the expression asked for, whatever its argument holds
and whatever stands in front: the depth limit, or an overflow of its width that quotes the trimmed argument. -/
theorem message_read_back (maxDepth : Nat) (r : Raised) (front : List Char)
    (absent : Text.contains Raised.marker.toList front = false) :
    Raised.messageChars? r.kind.tag.toList r.argument = (if '\x00' ∈ r.argument then none else some r.message) ∧
    (r.kind = .depthExceeded →
      ofMessage? maxDepth (String.ofList (front ++ r.message)) = some (.depthExceeded maxDepth)) ∧
    ∀ width, r.kind = .overflow width → width < SegmentKind.widthBound → ∃ detail,
      ofMessage? maxDepth (String.ofList (front ++ r.message)) = some (.encodingOverflow detail width) ∧
      detail.message = String.join ["value ", Text.quoted (Text.trim (String.ofList r.argument)),
        " does not fit its segment"] := by
  refine ⟨r.messageChars?_eq, fun depth => ?_, fun width overflow small => ?_⟩
  · refine ofMessage?_message absent ?_
    rw [depth]
    exact raised?_depthExceeded maxDepth _
  · have asked := raised?_overflow maxDepth width r.argument
    rw [if_pos small, ← overflow] at asked
    refine ⟨_, ofMessage?_message absent asked, ?_⟩
    rw [Overflow.message, Text.trim, String.toList_ofList]

/-- An argument that looks like two other failures does not change what a message says. -/
theorem message_read_back_sample : ∃ detail,
    ofMessage? 50 "stack depth limit exceeded: treecte:encoding_overflow:12:  a:treecte:depth_exceeded: 7 "
      = some (.encodingOverflow detail 12) ∧
    detail.message = "value \"a:treecte:depth_exceeded: 7\" does not fit its segment" := by
  have absent : Text.contains Raised.marker.toList "stack depth limit exceeded: ".toList = false := by decide
  obtain ⟨-, -, overflows⟩ := message_read_back 50
    ⟨.overflow 12, " a:treecte:depth_exceeded: 7 ".toList⟩ _ absent
  obtain ⟨detail, found, quoted⟩ := overflows 12 rfl (by decide)
  refine ⟨detail, found, quoted.trans ?_⟩
  decide

end Failure

end ForestQuery
