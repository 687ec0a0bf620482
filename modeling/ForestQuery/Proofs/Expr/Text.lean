import ForestQuery.Expr
import ForestQuery.Proofs.Dialect
/-!
What the text of an expression is composed of. Main statement: an expression that refers to columns only is written as
words, texts, and the names of its columns, each in its quotes, in every dialect.
-/

namespace ForestQuery

open Text Text.Mark

/-- The names that may stand in quotes: texts without quotes and placeholders, and names from a list. -/
def IsQuotable (names : List String) (q : Char) (content : List Char) : Prop :=
  (∀ c ∈ content, isQuote c = false ∧ isSign c = false) ∧ (q = '\'' ∨ ∃ name ∈ names, name.toList = content)

/-- Whether a text is composed of words, quoted texts and quoted names from a list, without placeholders. -/
def IsSpelled (names : List String) (s : String) : Prop := Written true (IsQuotable names) s.toList []

/-- A text in its quotes. -/
def quotedText (s : String) : String := String.join ["'", s, "'"]

section Pieces

variable {names : List String} {d : Dialect}

theorem isSpelled_quotedText {s : String} (clean : isWords s = true) : IsSpelled names (quotedText s) := by
  have text : (quotedText s).toList = '\'' :: (s.toList ++ ['\'']) := by simp [quotedText]
  rw [isWords_iff] at clean
  rw [IsSpelled, text]
  refine .quoted (by decide) (fun member => ?_) ⟨clean, Or.inl rfl⟩ isApart_nil .nil
  exact absurd (clean _ member).1 (by decide)

theorem isSpelled_quote {name : String} (known : name ∈ names) (clean : isWords name = true) :
    IsSpelled names (d.quote name) :=
  Dialect.written_quote clean fun _ _ => ⟨isWords_iff.mp clean, Or.inr ⟨name, known, rfl⟩⟩

theorem isSpelled_words {w : String} (clean : isWords w = true) : IsSpelled names w := written_words clean

theorem isSpelled_between {before x after : String} (clean : isWords before = true) (spelled : IsSpelled names x)
    (separate : separates after = true) : IsSpelled names (String.join [before, x, after]) :=
  (Joined.words clean (.text spelled separate .nil)).written

theorem isSpelled_list {sep : String} {xs : List String} (separate : separates sep = true)
    (each : ∀ x ∈ xs, IsSpelled names x) : IsSpelled names (String.intercalate sep xs) :=
  written_intercalate_nil separate each

theorem isWords_replicate {c : Char} (clean : isQuote c = false ∧ isSign c = false) (n : Nat) :
    isWords (String.ofList (List.replicate n c)) = true := by
  rw [isWords_iff, String.toList_ofList]
  intro x member
  rw [List.eq_of_mem_replicate member]
  exact clean

theorem isWords_join (ws : List String) : isWords (String.join ws) = ws.all isWords := by
  rw [isWords, String.toList_join, List.all_flatMap]
  rfl

end Pieces

namespace Dialect

variable {names : List String} {d : Dialect} {expr : String} {parts : List String}

theorem isSpelled_concat (each : ∀ part ∈ parts, IsSpelled names part) : IsSpelled names (d.concat parts) := by
  cases d with
  | mysql => exact isSpelled_between (by decide) (isSpelled_list (by decide) each) (by decide)
  | sqlite | postgres => exact isSpelled_list (by decide) each

theorem isSpelled_charLength (spelled : IsSpelled names expr) : IsSpelled names (d.charLength expr) := by
  cases d <;> exact isSpelled_between (by decide) spelled (by decide)

/-- A call that pads an expression to a width. -/
theorem isSpelled_padding {before between fill : String} (clean : isWords before = true)
    (spelled : IsSpelled names expr) (separate : separates between = true) (width : Nat) (single : isWords fill = true) :
    IsSpelled names (String.join [before, expr, between, toString width, ", ", quotedText fill, ")"]) :=
  (Joined.words clean (.text spelled separate (.words (isWords_toString width) (.words (by decide)
    (.text (isSpelled_quotedText single) (by decide) .nil))))).written

-- What a dialect writes in quotes of its own is taken out of the words around it.

theorem isSpelled_padInteger (spelled : IsSpelled names expr) (width : Nat) :
    IsSpelled names (d.padInteger expr width) := by
  cases d with
  | sqlite =>
    have format : isWords (String.join ["%0", toString width, "d"]) = true := by
      rw [isWords_join, List.all_cons, List.all_cons, isWords_toString]
      decide
    have text : sqlite.padInteger expr width =
        String.join ["printf(", quotedText (String.join ["%0", toString width, "d"]), ", ", expr, ")"] := by
      apply String.toList_injective
      simp [padInteger, quotedText]
    rw [text]
    exact (Joined.words (by decide) (.text (isSpelled_quotedText format) (by decide)
      (.text spelled (by decide) .nil))).written
  | postgres =>
    have text : postgres.padInteger expr width =
        String.join ["lpad((", expr, ")::text, ", toString width, ", ", quotedText "0", ")"] := by
      apply String.toList_injective
      simp [padInteger, quotedText]
    rw [text]
    exact isSpelled_padding (by decide) spelled (by decide) width (by decide)
  | mysql =>
    have text : mysql.padInteger expr width =
        String.join ["LPAD(CAST(", expr, " AS CHAR), ", toString width, ", ", quotedText "0", ")"] := by
      apply String.toList_injective
      simp [padInteger, quotedText]
    rw [text]
    exact isSpelled_padding (by decide) spelled (by decide) width (by decide)

theorem isSpelled_padText (spelled : IsSpelled names expr) (width : Nat) {fill : Char}
    (clean : isQuote fill = false ∧ isSign fill = false) : IsSpelled names (d.padText expr width fill) := by
  have single : isWords fill.toString = true := by
    rw [isWords_iff]
    simpa using clean
  cases d with
  | sqlite =>
    have text : sqlite.padText expr width fill = String.join ["substr(", expr, " || ",
        quotedText (String.ofList (List.replicate width fill)), ", 1, ", toString width, ")"] := by
      apply String.toList_injective
      simp [padText, quotedText]
    rw [text]
    have filling : IsSpelled names (quotedText (String.ofList (List.replicate width fill))) :=
      isSpelled_quotedText (isWords_replicate clean width)
    exact (Joined.words (by decide) (.text spelled (by decide) (.text filling (by decide)
      (.words (isWords_toString width) (.words (by decide) .nil))))).written
  | postgres =>
    have text : postgres.padText expr width fill =
        String.join ["rpad(", expr, ", ", toString width, ", ", quotedText fill.toString, ")"] := by
      apply String.toList_injective
      simp [padText, quotedText]
    rw [text]
    exact isSpelled_padding (by decide) spelled (by decide) width single
  | mysql =>
    have text : mysql.padText expr width fill =
        String.join ["RPAD(", expr, ", ", toString width, ", ", quotedText fill.toString, ")"] := by
      apply String.toList_injective
      simp [padText, quotedText]
    rw [text]
    exact isSpelled_padding (by decide) spelled (by decide) width single

theorem isSpelled_hex (spelled : IsSpelled names expr) : IsSpelled names (d.hex expr) := by
  cases d with
  | sqlite => exact isSpelled_between (by decide) spelled (by decide)
  | postgres =>
    have text : postgres.hex expr = String.join ["upper(encode(convert_to(coalesce((", expr, ")::text, ", quotedText "",
        "), ", quotedText "UTF8", "), ", quotedText "hex", "))"] := by
      apply String.toList_injective
      simp [hex, quotedText]
    rw [text]
    exact (Joined.words (by decide) (.text spelled (by decide) (.text (isSpelled_quotedText (by decide)) (by decide)
      (.text (isSpelled_quotedText (by decide)) (by decide) (.text (isSpelled_quotedText (by decide)) (by decide)
        .nil))))).written
  | mysql =>
    have text : mysql.hex expr = String.join ["HEX(COALESCE(", expr, ", ", quotedText "", "))"] := by
      apply String.toList_injective
      simp [hex, quotedText]
    rw [text]
    exact (Joined.words (by decide) (.text spelled (by decide) (.text (isSpelled_quotedText (by decide)) (by decide)
      .nil))).written

theorem isSpelled_complement? (spelled : IsSpelled names expr) : IsSpelled names ((d.complement? expr).getD expr) := by
  cases d with
  | sqlite =>
    exact (Joined.words (w := complementFunction) (by decide) (.words (by decide) (.text spelled (by decide)
      .nil))).written
  | postgres =>
    have text : (postgres.complement? expr).getD expr = String.join ["translate(", expr, ", ",
        quotedText "0123456789ABCDEF", ", ", quotedText "FEDCBA9876543210", ")"] := by
      apply String.toList_injective
      simp [complement?, quotedText]
    rw [text]
    exact (Joined.words (by decide) (.text spelled (by decide) (.text (isSpelled_quotedText (by decide)) (by decide)
      (.text (isSpelled_quotedText (by decide)) (by decide) .nil)))).written
  | mysql => exact spelled

theorem isSpelled_lowerUuid (spelled : IsSpelled names expr) : IsSpelled names (d.lowerUuid expr) := by
  cases d <;> exact isSpelled_between (by decide) spelled (by decide)

theorem isSpelled_textValue (spelled : IsSpelled names expr) : IsSpelled names (d.textValue expr) := by
  cases d with
  | postgres => exact isSpelled_between (by decide) spelled (by decide)
  | sqlite | mysql => exact spelled

theorem isWords_tag (kind : RaiseKind) : isWords kind.tag = true := by
  cases kind with
  | depthExceeded => decide
  | overflow width =>
    rw [RaiseKind.tag, isWords_join, List.all_cons, List.all_cons, List.all_cons, isWords_toString]
    decide

theorem isSpelled_raise? {kind : RaiseKind} {raise : String} (spelled : IsSpelled names expr)
    (raises : d.raise? kind expr = some raise) : IsSpelled names raise := by
  rw [raise?] at raises
  split at raises
  · cases raises
    have text : String.join [raiseFunction, "('", kind.tag, "', ", expr, ")"] =
        String.join [raiseFunction, "(", quotedText kind.tag, ", ", expr, ")"] := by
      apply String.toList_injective
      simp [quotedText]
    rw [text]
    exact (Joined.words (by decide) (.words (by decide) (.text (isSpelled_quotedText (isWords_tag kind)) (by decide)
      (.text spelled (by decide) .nil)))).written
  · cases raises

theorem isSpelled_guard {condition value : String} {kind : RaiseKind} (ofCondition : IsSpelled names condition)
    (ofArg : IsSpelled names expr) (ofValue : IsSpelled names value) :
    IsSpelled names (d.guard condition kind expr value) := by
  rw [guard]
  split
  · rename_i raise raises
    exact (Joined.words (by decide) (.text ofCondition (by decide) (.text (isSpelled_raise? ofArg raises) (by decide)
      (.text ofValue (by decide) .nil)))).written
  · exact ofValue

theorem isSpelled_widen (spelled : IsSpelled names expr) (chars : Nat) : IsSpelled names (d.widen expr chars) := by
  cases d with
  | mysql =>
    exact (Joined.words (w := "CAST(") (by decide) (.text (w := " AS CHAR(") spelled (by decide)
      (.words (isWords_toString chars) (.words (w := "))") (by decide) .nil)))).written
  | sqlite | postgres => exact spelled

theorem isSpelled_byteOrder (collated : "C" ∈ names) (spelled : IsSpelled names expr) :
    IsSpelled names (d.byteOrder expr) := by
  cases d with
  | sqlite => exact spelled
  | postgres =>
    have text : postgres.byteOrder expr = String.join [expr, " COLLATE ", postgres.quote "C"] := by
      apply String.toList_injective
      simp [byteOrder, quote]
    rw [text]
    exact (Joined.text spelled (by decide) (.last (isSpelled_quote collated (by decide)))).written
  | mysql => exact isSpelled_between (by decide) spelled (by decide)

end Dialect

theorem separates_test (test : Test) : separates test.text = true := by
  have number (sign : String) (separate : separates sign = true) (n : Nat) :
      separates (String.join [sign, toString n]) = true := by
    have words := isWords_of_separates separate
    obtain ⟨c, rest, first⟩ : ∃ c rest, sign.toList = c :: rest := by
      cases shape : sign.toList with
      | nil => simp [separates, shape] at separate
      | cons c rest => exact ⟨c, rest, rfl⟩
    rw [separates, Bool.and_eq_true] at separate ⊢
    refine ⟨?_, ?_⟩
    · rw [isWords_join, List.all_cons, List.all_cons, words, isWords_toString]
      rfl
    · simpa [first] using separate.2
  cases test with
  | isNull => decide
  | exceeds n => exact number _ (by decide) n
  | differs n => exact number _ (by decide) n
  | atLeast n => exact number _ (by decide) n

namespace Expr

variable {names : List String} {d : Dialect} {e : Expr}

/-- Whether an expression refers to columns of these names only, and has no quotes or placeholders in its texts. -/
def RefersTo (names : List String) : Expr → Prop
  | reference (.verbatim _) => False
  | reference (.column source name) => isWords source = true ∧ name ∈ names
  | reference (.generated source name) => isWords source = true ∧ isWords name = true
  | literal s => isWords s = true
  | successor e | mirrored e | offset e | charLength e | hex e | complement e | lowerUuid e | textValue e =>
    e.RefersTo names
  | padInteger e _ => e.RefersTo names
  | padText e _ fill => e.RefersTo names ∧ isQuote fill = false ∧ isSign fill = false
  | concat a b => a.RefersTo names ∧ b.RefersTo names
  | raise _ arg => arg.RefersTo names
  | choose subject _ yes no => subject.RefersTo names ∧ yes.RefersTo names ∧ no.RefersTo names
  | bySign subject null negative other =>
    subject.RefersTo names ∧ null.RefersTo names ∧ negative.RefersTo names ∧ other.RefersTo names

theorem isSpelled_reference (clean : ∀ name ∈ names, isWords name = true) {r : Reference}
    (refers : (reference r).RefersTo names) : IsSpelled names (r.text d) := by
  cases r with
  | verbatim sql => exact refers.elim
  | column source name =>
    obtain ⟨source, known⟩ := refers
    exact (Joined.words source (.words (by decide) (.last (isSpelled_quote known (clean name known))))).written
  | generated source name =>
    exact (Joined.words refers.1 (.words (by decide) (.words refers.2 .nil))).written

theorem isSpelled_text (clean : ∀ name ∈ names, isWords name = true) (refers : e.RefersTo names) :
    IsSpelled names (e.text d) := by
  induction e with
  | reference r => exact isSpelled_reference clean refers
  | literal s => exact isSpelled_quotedText refers
  | successor e ih => exact (Joined.text (ih refers) (by decide) .nil).written
  | mirrored e ih => exact isSpelled_between (by decide) (ih refers) (by decide)
  | offset e ih => exact isSpelled_between (by decide) (ih refers) (by decide)
  | concat a b first second =>
    refine Dialect.isSpelled_concat fun part member => ?_
    rcases List.mem_cons.mp member with rfl | rest
    · exact first refers.1
    · rw [List.mem_singleton.mp rest]
      exact second refers.2
  | charLength e ih => exact Dialect.isSpelled_charLength (ih refers)
  | padInteger e width ih => exact Dialect.isSpelled_padInteger (ih refers) width
  | padText e width fill ih => exact Dialect.isSpelled_padText (ih refers.1) width refers.2
  | hex e ih => exact Dialect.isSpelled_hex (ih refers)
  | complement e ih => exact Dialect.isSpelled_complement? (ih refers)
  | lowerUuid e ih => exact Dialect.isSpelled_lowerUuid (ih refers)
  | textValue e ih => exact Dialect.isSpelled_textValue (ih refers)
  | raise kind arg ih =>
    rw [text]
    cases raises : d.raise? kind (arg.text d) with
    | none => exact ih refers
    | some raise => exact Dialect.isSpelled_raise? (ih refers) raises
  | choose subject test yes no ofSubject ofYes ofNo =>
    exact (Joined.words (by decide) (.text (ofSubject refers.1) (separates_test test) (.words (by decide)
      (.text (ofYes refers.2.1) (by decide) (.text (ofNo refers.2.2) (by decide) .nil))))).written
  | bySign subject null negative other ofSubject ofNull ofNegative ofOther =>
    exact (Joined.words (by decide) (.text (ofSubject refers.1) (by decide) (.text (ofNull refers.2.1) (by decide)
      (.text (ofSubject refers.1) (by decide) (.text (ofNegative refers.2.2.1) (by decide)
        (.text (ofOther refers.2.2.2) (by decide) .nil)))))).written

theorem refersTo_guarded {subject arg value : Expr} {test : Test} {kind : RaiseKind}
    (ofSubject : subject.RefersTo names) (ofArg : arg.RefersTo names) (ofValue : value.RefersTo names) :
    (guarded d subject test kind arg value).RefersTo names := by
  unfold guarded
  split
  · exact ⟨ofSubject, ofArg, ofValue⟩
  · exact ofValue

theorem refersTo_literal {s : String} (words : isWords s = true) : (literal s).RefersTo names := words

/-- The expression of a segment refers to the columns of its value. -/
theorem refersTo_segment? {kind : SegmentKind} {expr : Expr} (refers : e.RefersTo names)
    (made : segment? d e kind = some expr) : expr.RefersTo names := by
  have blank : isQuote ' ' = false ∧ isSign ' ' = false := by decide
  have blanks (count : Nat) : (blanks count).RefersTo names := isWords_replicate blank count
  cases kind with
  | integer =>
    cases made
    exact ⟨refers, blanks _, ⟨refersTo_literal (by decide), refers⟩, refers⟩
  | uuid =>
    cases made
    exact ⟨refers, blanks _, refersTo_guarded refers refers refers⟩
  | text width =>
    cases made
    have null : isWords (String.ofList (SegmentKind.nullMark ++ List.replicate width ' ')) = true := by
      rw [isWords, String.toList_ofList, List.all_append, Bool.and_eq_true]
      refine ⟨by decide, ?_⟩
      rw [← String.toList_ofList (l := List.replicate width ' ')]
      exact isWords_replicate blank width
    exact ⟨refers, null, refersTo_guarded refers refers ⟨⟨refers, refersTo_literal (by decide), refers⟩, refers, blank⟩⟩
  | textKey bytes descending =>
    have key : (guarded d (charLength (hex e)) (.exceeds (bytes * 2)) (.overflow (bytes * 2)) (hex e)
        (padText (hex e) (bytes * 2) '0')).RefersTo names :=
      refersTo_guarded refers refers ⟨refers, by decide⟩
    simp only [segment?, textKeySegment?] at made
    split at made
    · cases made
      exact ⟨⟨refers, refersTo_literal (by decide), refersTo_literal (by decide)⟩, key⟩
    · split at made
      · cases made
        exact ⟨⟨refers, refersTo_literal (by decide), refersTo_literal (by decide)⟩, key⟩
      · cases made

end Expr

end ForestQuery
