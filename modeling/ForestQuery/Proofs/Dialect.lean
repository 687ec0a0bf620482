import ForestQuery.Dialect.Spelling
import ForestQuery.Identifier
import ForestQuery.Proofs.Text.Marks
/-!
What the texts that a dialect spells are composed of.
-/

namespace ForestQuery

open Text Text.Mark

theorem Identifier.isWords_of_isIdentifier {name : String} (identifier : isIdentifier name = true) :
    isWords name = true :=
  isWords_iff.mpr fun c member => clean_of_all (by decide) (all_isPart_of_wellFormed identifier c member)

theorem isDigit_of_mem_toString {n : Nat} {c : Char} (member : c ∈ (toString n).toList) : c.isDigit = true := by
  rw [Nat.toString_eq_repr, Nat.toList_repr] at member
  exact Nat.isDigit_of_mem_toDigits (by decide) (by decide) member

theorem isWords_toString (n : Nat) : isWords (toString n) = true :=
  isWords_iff.mpr fun _ member => clean_of_isDigit (isDigit_of_mem_toString member)

namespace Dialect

variable {d : Dialect} {quoting : Bool} {allowed : Char → List Char → Prop}

/-- So many placeholders behind the first `bound` ones. -/
def placeholdersBehind (d : Dialect) (bound count : Nat) : List (List Char) :=
  (List.range' (bound + 1) count).map fun i => (d.placeholder i).toList

theorem placeholdersBehind_append (d : Dialect) (bound first rest : Nat) :
    d.placeholdersBehind bound first ++ d.placeholdersBehind (bound + first) rest =
      d.placeholdersBehind bound (first + rest) := by
  rw [placeholdersBehind, placeholdersBehind, placeholdersBehind, ← List.map_append, Nat.add_right_comm,
    List.range'_append_1]

theorem written_placeholder (d : Dialect) (index : Nat) :
    Written quoting allowed (d.placeholder index).toList [(d.placeholder index).toList] := by
  have sign (c : Char) {digits : List Char} (isSign : isSign c = true) (all : ∀ d ∈ digits, d.isDigit = true) :
      Written quoting allowed (c :: digits) [c :: digits] := by
    have written : Written quoting allowed (c :: (digits ++ [])) [c :: digits] :=
      .placeholder isSign all isApart_nil .nil
    rwa [List.append_nil] at written
  cases d with
  | sqlite | mysql =>
    have text : (sqlite.placeholder index).toList = ['?'] := by simp [placeholder]
    exact text ▸ sign '?' (by decide) (List.forall_mem_nil _)
  | postgres =>
    have text : (postgres.placeholder index).toList = '$' :: (toString index).toList := by simp [placeholder]
    rw [text]
    exact sign '$' (by decide) fun d member => isDigit_of_mem_toString member

theorem exists_quote (d : Dialect) (name : String) :
    ∃ q, isQuote q = true ∧ (d.quote name).toList = q :: (name.toList ++ [q]) := by
  cases d with
  | sqlite | postgres => exact ⟨'"', by decide, by simp [Dialect.quote]⟩
  | mysql => exact ⟨Char.ofNat 96, by decide, by simp [Dialect.quote]⟩

/-- A name without quotes and signs stands in its quotes as it is. -/
theorem written_quote {name : String} (clean : isWords name = true)
    (allows : ∀ q, isQuote q = true → allowed q name.toList) : Written quoting allowed (d.quote name).toList [] := by
  obtain ⟨q, quote, text⟩ := d.exists_quote name
  rw [isWords_iff] at clean
  rw [text]
  cases quoting with
  | false =>
    refine written_of_plain fun c member => ⟨fun impossible => absurd impossible Bool.false_ne_true, ?_⟩
    rcases List.mem_cons.mp member with rfl | rest
    · exact isSign_of_isQuote quote
    · rcases List.mem_append.mp rest with inside | last
      · exact (clean c inside).2
      · rw [List.mem_singleton.mp last]
        exact isSign_of_isQuote quote
  | true =>
    refine .quoted quote (fun member => ?_) (allows q quote) isApart_nil .nil
    rw [(clean q member).1] at quote
    cases quote

end Dialect

end ForestQuery
