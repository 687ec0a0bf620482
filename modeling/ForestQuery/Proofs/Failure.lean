import ForestQuery.Failure
import ForestQuery.Proofs.Segment.RoundTrip
/-!
Failures that an expression asks for, read back from their messages. Main statement: an overflow of some width is
reported as an overflow of this width, with the value that has caused it, unless the value cuts the message.
-/

namespace ForestQuery

namespace Text

theorem afterBeginning?_append (a b : List Char) : afterBeginning? a (a ++ b) = some b := by
  have front : a.isPrefixOf (a ++ b) = true := List.isPrefixOf_iff_prefix.mpr (List.prefix_append a b)
  rw [afterBeginning?, if_pos front, List.drop_left' rfl]

theorem afterFirst?_append (a b : List Char) : afterFirst? a (a ++ b) = some b := by
  have front := afterBeginning?_append a b
  cases whole : a ++ b with
  | nil =>
    rw [whole] at front
    exact front
  | cons c r =>
    rw [whole] at front
    simp only [afterFirst?, front]

theorem splitFirst?_append {separator : Char} {before : List Char} (clean : separator ∉ before) (behind : List Char) :
    splitFirst? separator (before ++ separator :: behind) = some (before, behind) := by
  induction before with
  | nil => simp [splitFirst?]
  | cons c r ih =>
    obtain ⟨other, rest⟩ := not_or.mp (mt List.mem_cons.mpr clean)
    rw [List.cons_append, splitFirst?, if_neg (Ne.symm other), ih rest]
    rfl

theorem isBlank_of_digitValue? {c : Char} {d : Nat} (value : digitValue? c = some d) : isBlank c = false := by
  have bounds := digit_bounds value
  simp only [isBlank, inRanges, blankRanges, List.any_cons, List.any_nil, Bool.or_false, Bool.or_eq_false_iff,
    Bool.and_eq_false_imp, decide_eq_true_eq, decide_eq_false_iff_not, Nat.not_le]
  omega

theorem decimalDigits_eq (n : Nat) : decimalDigits n = zeroPadded 0 n := by
  rw [zeroPadded, padLeft, Nat.zero_sub]
  rfl

end Text

theorem Segment.isDigit_of_mem_decimalDigits {n : Nat} {c : Char} (member : c ∈ Text.decimalDigits n) :
    isDigit c = true := by
  rw [Text.decimalDigits_eq] at member
  exact isDigit_of_mem_zeroPadded member

namespace RaiseKind

theorem toList_tag_overflow (width : Nat) :
    (overflow width).tag.toList = overflowTag.toList ++ ':' :: Text.decimalDigits width := by
  simp [tag, String.join, Text.decimalDigits]

end RaiseKind

namespace Raised

theorem any_nul_iff {cs : List Char} : (cs.any fun c => c.toNat == 0) = true ↔ '\x00' ∈ cs := by
  simp only [List.any_eq_true, beq_iff_eq]
  constructor
  · rintro ⟨c, member, zero⟩
    rwa [show '\x00' = c from Char.toNat_inj.mp zero.symm]
  · intro member
    exact ⟨_, member, rfl⟩

/-- The marker does not cut a message, and neither does a tag without U+0000. -/
theorem messageChars?_of_clean {tag : List Char} (clean : '\x00' ∉ tag) (argument : List Char) :
    messageChars? tag argument
      = if '\x00' ∈ argument then none else some (marker.toList ++ tag ++ ':' :: ' ' :: argument) := by
  have front : '\x00' ∉ marker.toList := by decide
  have cut : '\x00' ∈ marker.toList ++ tag ++ ':' :: ' ' :: argument ↔ '\x00' ∈ argument := by
    simp [clean, front]
  simp only [messageChars?, any_nul_iff, cut]

theorem messageChars?_overflow (width : Nat) (argument : List Char) :
    messageChars? (RaiseKind.overflow width).tag.toList argument
      = if '\x00' ∈ argument then none
        else some (marker.toList ++ (RaiseKind.overflow width).tag.toList ++ ':' :: ' ' :: argument) := by
  have digits : '\x00' ∉ Text.decimalDigits width :=
    fun member => Segment.ne_of_isDigit (Segment.isDigit_of_mem_decimalDigits member) rfl rfl
  have tag : '\x00' ∉ RaiseKind.overflowTag.toList := by decide
  exact messageChars?_of_clean (by simp [RaiseKind.toList_tag_overflow, digits, tag]) argument

end Raised

namespace Failure

/-- What stands behind an overflow tag is a width and a value. -/
theorem overflow_eq (width : Nat) (argument : List Char) :
    overflow (':' :: (Text.decimalDigits width ++ ':' :: ' ' :: argument))
      = .encodingOverflow (.raised (String.ofList (Text.trimChars argument)))
        (if width < SegmentKind.widthBound then width else 0) := by
  have clean : ':' ∉ Text.decimalDigits width :=
    fun member => Segment.ne_of_isDigit (Segment.isDigit_of_mem_decimalDigits member) rfl rfl
  have plain : ∀ c ∈ Text.decimalDigits width, Text.isBlank c = false := by
    intro c member
    obtain ⟨d, value⟩ := Option.isSome_iff_exists.mp (Segment.isDigit_of_mem_decimalDigits member)
    exact Text.isBlank_of_digitValue? value
  -- The value may have colons of its own: the width ends at the first one, and no digit is a colon.
  have front := Text.afterBeginning?_append [':'] (Text.decimalDigits width ++ ':' :: ' ' :: argument)
  have trimmed : Text.trimChars (' ' :: argument) = Text.trimChars argument := by
    rw [Text.trimChars, List.dropWhile_cons_of_pos (by decide)]
    rfl
  rw [List.singleton_append] at front
  rw [overflow, front, Option.getD_some]
  simp only [Text.splitFirst?_append clean, Option.getD_some, trimmed, Text.trimChars_of_no_blank plain]
  rw [Text.decimalDigits_eq, Segment.unsigned?_zeroPadded]
  split
  · rename_i small
    rw [Option.filter_some_pos (by simpa using small), Option.getD_some]
  · rename_i large
    rw [Option.filter_some_neg (by simpa using large), Option.getD_none]

/-- What stands behind the marker of an overflow. -/
theorem raised?_overflow (maxDepth width : Nat) (argument : List Char) :
    raised? maxDepth ((RaiseKind.overflow width).tag.toList ++ ':' :: ' ' :: argument)
      = some (.encodingOverflow (.raised (String.ofList (Text.trimChars argument)))
        (if width < SegmentKind.widthBound then width else 0)) := by
  have tagged : (RaiseKind.overflow width).tag.toList ++ ':' :: ' ' :: argument
      = RaiseKind.overflowTag.toList ++ ':' :: (Text.decimalDigits width ++ ':' :: ' ' :: argument) := by
    rw [RaiseKind.toList_tag_overflow, List.append_assoc, List.cons_append]
  have other : ∀ rest, RaiseKind.depthTag.toList.isPrefixOf (RaiseKind.overflowTag.toList ++ rest) = false := fun _ => rfl
  rw [raised?, tagged, other, if_neg (by decide), Text.afterBeginning?_append, Option.map_some, overflow_eq]

theorem raised?_depthExceeded (maxDepth : Nat) (rest : List Char) :
    raised? maxDepth (RaiseKind.depthExceeded.tag.toList ++ rest) = some (.depthExceeded maxDepth) := by
  rw [RaiseKind.tag, raised?, if_pos (List.isPrefixOf_iff_prefix.mpr (List.prefix_append _ rest))]

/-- A failure that an expression asks for is found behind the first marker, whatever else the message says. -/
theorem ofMessage?_of_raised {maxDepth : Nat} {cs rest : List Char} {e : Error}
    (found : Text.afterFirst? Raised.marker.toList cs = some rest) (asked : raised? maxDepth rest = some e) :
    ofMessage? maxDepth (String.ofList cs) = some e := by
  rw [ofMessage?]
  simp only [String.toList_ofList, found, Option.bind_some, asked]

/-- The message of an overflow starts with its tag. -/
theorem ofMessage?_overflow (maxDepth width : Nat) (argument : List Char) :
    ofMessage? maxDepth (String.ofList (Raised.marker.toList ++ (RaiseKind.overflow width).tag.toList ++ ':' :: ' ' :: argument))
      = some (.encodingOverflow (.raised (String.ofList (Text.trimChars argument)))
        (if width < SegmentKind.widthBound then width else 0)) := by
  rw [List.append_assoc]
  exact ofMessage?_of_raised (Text.afterFirst?_append _ _) (raised?_overflow maxDepth width argument)

variable (maxDepth width : Nat) {argument : List Char}

/-- An overflow is reported with its width and its value. -/
theorem ofRaised_overflow (clean : '\x00' ∉ argument) :
    ofRaised maxDepth ⟨.overflow width, argument⟩
      = .encodingOverflow (.raised (String.ofList (Text.trimChars argument)))
        (if width < SegmentKind.widthBound then width else 0) := by
  rw [ofRaised, ofRaise, Raised.messageChars?_overflow]
  simp only [if_neg clean, ofMessage?_overflow, Option.getD_some]

/-- A value with U+0000 cuts the message of its failure. -/
theorem ofRaised_overflow_of_nul (cut : '\x00' ∈ argument) : ofRaised maxDepth ⟨.overflow width, argument⟩ = .store := by
  rw [ofRaised, ofRaise, Raised.messageChars?_overflow]
  simp only [if_pos cut]

/-- The depth limit is reported as such. -/
theorem ofRaised_depthExceeded (clean : '\x00' ∉ argument) :
    ofRaised maxDepth ⟨.depthExceeded, argument⟩ = .depthExceeded maxDepth := by
  have tag : '\x00' ∉ RaiseKind.depthExceeded.tag.toList := by decide
  rw [ofRaised, ofRaise, Raised.messageChars?_of_clean tag, if_neg clean, List.append_assoc]
  simp only [ofMessage?_of_raised (Text.afterFirst?_append _ _) (raised?_depthExceeded maxDepth _), Option.getD_some]

end Failure

end ForestQuery
