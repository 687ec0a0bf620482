import ForestQuery.Text.Marks
import Mathlib.Data.List.Forall2
/-!
Texts that are composed of words, quoted names and placeholders. Main statements: the marks of such a text are the
names and placeholders that it is composed of, and its signs are those of its placeholders.
-/

namespace ForestQuery.Text

open Mark

theorem clean_of_all {p : Char → Bool} (none : "'\"`?$".toList.any p = false) {c : Char} (holds : p c = true) :
    isQuote c = false ∧ isSign c = false := by
  have absent : c ∉ "'\"`?$".toList := fun member => List.any_eq_false.mp none c member holds
  simpa [isQuote, isSign, and_assoc] using absent

theorem clean_of_isDigit {c : Char} (digit : c.isDigit = true) : isQuote c = false ∧ isSign c = false :=
  clean_of_all (by decide) digit

/-- Whether a text begins neither with a quote nor with a digit, so that it goes on with nothing in front of it. -/
def IsApart (cs : List Char) : Prop := ∀ c, cs.head? = some c → isQuote c = false ∧ c.isDigit = false

theorem isApart_nil : IsApart [] := by
  intro c head
  cases head

theorem IsApart.append {a b : List Char} (first : IsApart a) (rest : IsApart b) : IsApart (a ++ b) := by
  cases a with
  | nil => exact rest
  | cons c cs => exact first

theorem IsApart.cons {a : List Char} {c : Char} (apart : IsApart (c :: a)) : isQuote c = false ∧ c.isDigit = false :=
  apart c rfl

/-- Texts composed of words, quoted names and placeholders, with their placeholders. Where quotes are not read they are
characters of words. -/
inductive Written (quoting : Bool) (allowed : Char → List Char → Prop) : List Char → List (List Char) → Prop
  | nil : Written quoting allowed [] []
  | word {c cs ps} : (quoting = true → isQuote c = false) → isSign c = false → Written quoting allowed cs ps →
      Written quoting allowed (c :: cs) ps
  | quoted {q name cs ps} : isQuote q = true → q ∉ name → allowed q name → IsApart cs → Written quoting allowed cs ps →
      Written quoting allowed (q :: (name ++ q :: cs)) ps
  | placeholder {c digits cs ps} : isSign c = true → (∀ d ∈ digits, d.isDigit = true) → IsApart cs →
      Written quoting allowed cs ps → Written quoting allowed (c :: (digits ++ cs)) ((c :: digits) :: ps)

section Reading

variable {quoting : Bool} {allowed : Char → List Char → Prop} {cs : List Char} {ps : List (List Char)}

theorem marks?_cons (c : Char) (cs : List Char) : marks? (c :: cs) = scan (enter c) cs := rfl

theorem scan_inside_cons (q c : Char) (content cs : List Char) : scan (.inside q content) (c :: cs) =
    scan (if c = q then .behind q content else .inside q (content ++ [c])) cs := rfl

theorem scan_behind_cons (q c : Char) (content cs : List Char) : scan (.behind q content) (c :: cs) =
    if c = q then scan (.inside q (content ++ [c])) cs
    else (marks? (c :: cs)).map (.quoted q content :: ·) := rfl

theorem scan_sign_cons (c : Char) (text cs : List Char) : scan (.sign text) (c :: cs) =
    if c.isDigit then scan (.sign (text ++ [c])) cs
    else (marks? (c :: cs)).map (.placeholder text :: ·) := rfl

theorem placeholders_cons (c : Char) (cs : List Char) : placeholders (c :: cs) =
    if isSign c then (c :: cs.takeWhile Char.isDigit) :: placeholders cs else placeholders cs := rfl

theorem scan_inside {q : Char} {name : List Char} (fresh : q ∉ name) (content : List Char) :
    scan (.inside q content) (name ++ q :: cs) = scan (.behind q (content ++ name)) cs := by
  induction name generalizing content with
  | nil => rw [List.nil_append, scan_inside_cons, if_pos rfl, List.append_nil]
  | cons c name ih =>
    rw [List.mem_cons, not_or] at fresh
    rw [List.cons_append, scan_inside_cons, if_neg (Ne.symm fresh.1), ih fresh.2, List.append_assoc, List.singleton_append]

theorem scan_behind {q : Char} (quote : isQuote q = true) (apart : IsApart cs) (content : List Char) :
    scan (.behind q content) cs = (marks? cs).map (.quoted q content :: ·) := by
  cases cs with
  | nil => rfl
  | cons c cs =>
    have other : c ≠ q := by
      rintro rfl
      rw [apart.cons.1] at quote
      cases quote
    rw [scan_behind_cons, if_neg other]

theorem scan_sign {digits : List Char} (all : ∀ d ∈ digits, d.isDigit = true) (apart : IsApart cs) (text : List Char) :
    scan (.sign text) (digits ++ cs) = (marks? cs).map (.placeholder (text ++ digits) :: ·) := by
  induction digits generalizing text with
  | nil =>
    rw [List.nil_append, List.append_nil]
    cases cs with
    | nil => rfl
    | cons c cs =>
      have other : ¬ c.isDigit = true := by
        rw [apart.cons.2]
        exact Bool.false_ne_true
      rw [scan_sign_cons, if_neg other]
  | cons d digits ih =>
    rw [List.forall_mem_cons] at all
    rw [List.cons_append, scan_sign_cons, if_pos all.1, ih all.2, List.append_assoc, List.singleton_append]

theorem isQuote_of_isSign {c : Char} (sign : isSign c = true) : isQuote c = false := by
  rw [isSign, Bool.or_eq_true, beq_iff_eq, beq_iff_eq] at sign
  rcases sign with rfl | rfl <;> decide

theorem isSign_of_isQuote {c : Char} (quote : isQuote c = true) : isSign c = false := by
  by_contra sign
  rw [isQuote_of_isSign (Bool.not_eq_false _ ▸ sign)] at quote
  cases quote

/-- Where quotes are read, a composed text has its placeholders and the names that it may have as its marks. -/
theorem Written.marks (written : Written true allowed cs ps) :
    ∃ ms, marks? cs = some ms ∧ ms.filterMap placeholder? = ps ∧ ∀ q name, .quoted q name ∈ ms → allowed q name := by
  induction written with
  | nil => exact ⟨[], rfl, rfl, fun _ _ member => by cases member⟩
  | @word c cs ps plain unsigned _ ih =>
    obtain ⟨ms, scanned, ofPlaceholders, ofNames⟩ := ih
    refine ⟨ms, ?_, ofPlaceholders, ofNames⟩
    rw [marks?_cons, enter, plain rfl, unsigned]
    exact scanned
  | @quoted q name cs ps quote fresh allows apart _ ih =>
    obtain ⟨ms, scanned, ofPlaceholders, ofNames⟩ := ih
    refine ⟨.quoted q name :: ms, ?_, ofPlaceholders, fun q' name' member => ?_⟩
    · rw [marks?_cons, enter, if_pos quote, scan_inside fresh, scan_behind quote apart, scanned]
      rfl
    · rcases List.mem_cons.mp member with same | later
      · cases same
        exact allows
      · exact ofNames q' name' later
  | @placeholder c digits cs ps sign all apart _ ih =>
    obtain ⟨ms, scanned, rfl, ofNames⟩ := ih
    refine ⟨.placeholder (c :: digits) :: ms, ?_, rfl, fun q' name' member => ?_⟩
    · rw [marks?_cons, enter, isQuote_of_isSign sign, if_neg Bool.false_ne_true, if_pos sign, scan_sign all apart,
        scanned]
      rfl
    · rcases List.mem_cons.mp member with same | later
      · cases same
      · exact ofNames q' name' later

theorem placeholders_append_of_unsigned {a b : List Char} (unsigned : ∀ c ∈ a, isSign c = false) :
    placeholders (a ++ b) = placeholders b := by
  induction a with
  | nil => rfl
  | cons c a ih =>
    rw [List.forall_mem_cons] at unsigned
    rw [List.cons_append, placeholders_cons, unsigned.1, if_neg Bool.false_ne_true, ih unsigned.2]

/-- The signs of a composed text are those of its placeholders, if no name has any. -/
theorem Written.placeholders (written : Written quoting allowed cs ps)
    (unsigned : ∀ q name, allowed q name → ∀ c ∈ name, isSign c = false) : placeholders cs = ps := by
  induction written with
  | nil => rfl
  | word _ plain _ ih =>
    rw [placeholders_cons, plain, if_neg Bool.false_ne_true, ih]
  | @quoted q name cs ps quote _ allows _ _ ih =>
    rw [← List.cons_append, placeholders_append_of_unsigned, placeholders_cons, isSign_of_isQuote quote,
      if_neg Bool.false_ne_true, ih]
    exact List.forall_mem_cons.mpr ⟨isSign_of_isQuote quote, unsigned q name allows⟩
  | @placeholder c digits cs ps sign all apart _ ih =>
    have none : cs.takeWhile Char.isDigit = [] := by
      cases cs with
      | nil => rfl
      | cons x cs => rw [List.takeWhile_cons, apart.cons.2, if_neg Bool.false_ne_true]
    rw [placeholders_cons, if_pos sign, List.takeWhile_append_of_pos all, none, List.append_nil,
      placeholders_append_of_unsigned fun d member => (clean_of_isDigit (all d member)).2, ih]

end Reading

/-- Whether a text is made of characters that neither quote nor begin a placeholder. -/
def isWords (w : String) : Bool := w.toList.all fun c => !isQuote c && !isSign c

/-- Whether words go on with nothing in front of them. -/
def separates (w : String) : Bool := isWords w && w.toList.head?.any fun c => !c.isDigit

/-- Whether characters begin nothing, where quotes may not be read. -/
def IsPlain (quoting : Bool) (cs : List Char) : Prop :=
  ∀ c ∈ cs, (quoting = true → isQuote c = false) ∧ isSign c = false

section Composing

variable {quoting : Bool} {allowed : Char → List Char → Prop} {a b : List Char} {ps qs : List (List Char)}

theorem isWords_iff {w : String} : isWords w = true ↔ ∀ c ∈ w.toList, isQuote c = false ∧ isSign c = false := by
  simp [isWords]

theorem isWords_of_separates {w : String} (separate : separates w = true) : isWords w = true :=
  (Bool.and_eq_true_iff.mp separate).1

theorem isApart_of_separates {w : String} (separate : separates w = true) (cs : List Char) :
    IsApart (w.toList ++ cs) := by
  rw [separates, Bool.and_eq_true, isWords_iff] at separate
  obtain ⟨plain, first⟩ := separate
  cases shape : w.toList with
  | nil =>
    rw [shape] at first
    cases first
  | cons c rest =>
    rw [shape] at plain first
    rintro _ ⟨⟩
    exact ⟨(plain c List.mem_cons_self).1, by simpa using first⟩

theorem Written.append (first : Written quoting allowed a ps) (rest : Written quoting allowed b qs)
    (apart : IsApart b) : Written quoting allowed (a ++ b) (ps ++ qs) := by
  induction first with
  | nil => exact rest
  | word plain unsigned _ ih => exact .word plain unsigned ih
  | @quoted q name cs ps quote fresh allows behind _ ih =>
    have text : q :: (name ++ q :: cs) ++ b = q :: (name ++ q :: (cs ++ b)) := by simp
    rw [text]
    exact .quoted quote fresh allows (behind.append apart) ih
  | @placeholder c digits cs ps sign all behind _ ih =>
    have text : c :: (digits ++ cs) ++ b = c :: (digits ++ (cs ++ b)) := by simp
    rw [text]
    exact .placeholder sign all (behind.append apart) ih

theorem isPlain_of_clean (clean : ∀ c ∈ a, isQuote c = false ∧ isSign c = false) : IsPlain quoting a :=
  fun c member => ⟨fun _ => (clean c member).1, (clean c member).2⟩

/-- Characters that begin nothing may stand in front of every composed text. -/
theorem Written.plain_append (plain : IsPlain quoting a) (rest : Written quoting allowed b qs) :
    Written quoting allowed (a ++ b) qs := by
  induction a with
  | nil => exact rest
  | cons c a ih =>
    obtain ⟨first, others⟩ := List.forall_mem_cons.mp plain
    exact .word first.1 first.2 (ih others)

theorem written_of_plain (plain : IsPlain quoting a) : Written quoting allowed a [] := by
  rw [← List.append_nil a]
  exact .plain_append plain .nil

theorem Written.words_append {w : String} (plain : isWords w = true) (rest : Written quoting allowed b qs) :
    Written quoting allowed (w.toList ++ b) qs :=
  .plain_append (isPlain_of_clean (isWords_iff.1 plain)) rest

theorem written_words {w : String} (plain : isWords w = true) : Written quoting allowed w.toList [] := by
  rw [← List.append_nil w.toList]
  exact .words_append plain .nil

/-- Texts one after the other, with words between those that are not words themselves. -/
inductive Joined (quoting : Bool) (allowed : Char → List Char → Prop) : List String → List (List Char) → Prop
  | nil : Joined quoting allowed [] []
  | words {w ws ps} : isWords w = true → Joined quoting allowed ws ps → Joined quoting allowed (w :: ws) ps
  | text {x w ws ps qs} : Written quoting allowed x.toList ps → separates w = true → Joined quoting allowed ws qs →
      Joined quoting allowed (x :: w :: ws) (ps ++ qs)
  | last {x ps} : Written quoting allowed x.toList ps → Joined quoting allowed [x] ps

theorem Joined.written {xs : List String} (joined : Joined quoting allowed xs ps) :
    Written quoting allowed (String.join xs).toList ps := by
  rw [String.toList_join]
  induction joined with
  | nil => exact .nil
  | words plain _ ih => exact ih.words_append plain
  | text written separate _ ih =>
    exact written.append (ih.words_append (isWords_of_separates separate)) (isApart_of_separates separate _)
  | last written =>
    rw [List.flatMap_singleton]
    exact written

end Composing

/-- Whether a text consists of others, in their order, with words before, between and behind them. -/
inductive Interspersed : List String → List Char → Prop
  | words {w} : (∀ c ∈ w, isQuote c = false ∧ isSign c = false) → Interspersed [] w
  | text {w t ts cs} : (∀ c ∈ w, isQuote c = false ∧ isSign c = false) → IsApart cs → Interspersed ts cs →
      Interspersed (t :: ts) (w ++ (t.toList ++ cs))

namespace Interspersed

variable {ts us : List String} {a b : List Char}

theorem self (t : String) : Interspersed [t] t.toList := by
  have text : [] ++ (t.toList ++ []) = t.toList := by simp
  rw [← text]
  exact .text (by simp) isApart_nil (.words (by simp))

theorem plain_append (plain : ∀ c ∈ a, isQuote c = false ∧ isSign c = false) (rest : Interspersed us b) :
    Interspersed us (a ++ b) := by
  cases rest with
  | words more => exact .words (List.forall_mem_append.mpr ⟨plain, more⟩)
  | text more apart rest =>
    rw [← List.append_assoc]
    exact .text (List.forall_mem_append.mpr ⟨plain, more⟩) apart rest

theorem append (first : Interspersed ts a) (rest : Interspersed us b) (apart : IsApart b) :
    Interspersed (ts ++ us) (a ++ b) := by
  induction first with
  | words plain => exact rest.plain_append plain
  | text plain behind _ ih =>
    rw [List.append_assoc, List.append_assoc]
    exact .text plain (behind.append apart) ih

theorem words_append {w : String} (plain : isWords w = true) (rest : Interspersed us b) :
    Interspersed us (w.toList ++ b) :=
  rest.plain_append (isWords_iff.1 plain)

theorem append_words {w : String} (first : Interspersed ts a) (separate : separates w = true) :
    Interspersed ts (a ++ w.toList) := by
  have joined := first.append (.words (isWords_iff.1 (isWords_of_separates separate)))
    (List.append_nil w.toList ▸ isApart_of_separates separate [])
  rwa [List.append_nil] at joined

theorem intercalate {sep : String} (separate : separates sep = true) {xs : List String} {tss : List (List String)}
    (each : List.Forall₂ (fun x ts => Interspersed ts x.toList) xs tss) :
    Interspersed tss.flatten (String.intercalate sep xs).toList := by
  rw [String.toList_intercalate]
  induction each with
  | nil => exact .words (by simp)
  | @cons x ts xs tss first rest ih =>
    cases rest with
    | nil =>
      rw [List.map_singleton, List.intercalate_singleton, List.flatten_singleton]
      exact first
    | cons =>
      rw [List.map_cons, List.map_cons, List.intercalate_cons_cons, List.append_assoc]
      exact first.append (ih.words_append (isWords_of_separates separate)) (isApart_of_separates separate _)

/-- The items of a list stand in it in their order. -/
theorem list {sep : String} (separate : separates sep = true) (xs : List String) :
    Interspersed xs (String.intercalate sep xs).toList := by
  have items : Interspersed (xs.map fun x => [x]).flatten (String.intercalate sep xs).toList :=
    .intercalate separate (List.forall₂_map_right_iff.mpr (List.forall₂_same.mpr fun x _ => .self x))
  rwa [← List.flatMap_def, List.flatMap_singleton'] at items

/-- A text among words has the placeholders of the texts that it consists of. -/
theorem written {quoting : Bool} {allowed : Char → List Char → Prop} {pss : List (List (List Char))}
    (interspersed : Interspersed ts a)
    (each : List.Forall₂ (fun t ps => Written quoting allowed t.toList ps) ts pss) :
    Written quoting allowed a pss.flatten := by
  induction interspersed generalizing pss with
  | words plain =>
    cases each
    exact written_of_plain (isPlain_of_clean plain)
  | text plain apart _ ih =>
    cases each with
    | cons first rest =>
      exact .plain_append (isPlain_of_clean plain) (first.append (ih rest) apart)

end Interspersed

section Lists

variable {quoting : Bool} {allowed : Char → List Char → Prop} {sep : String} {xs : List String}

theorem written_intercalate (separate : separates sep = true) {pss : List (List (List Char))}
    (each : List.Forall₂ (fun x ps => Written quoting allowed x.toList ps) xs pss) :
    Written quoting allowed (String.intercalate sep xs).toList pss.flatten :=
  (Interspersed.list separate xs).written each

/-- Without placeholders in the items there are none in the list. -/
theorem written_intercalate_nil (separate : separates sep = true)
    (each : ∀ x ∈ xs, Written quoting allowed x.toList []) :
    Written quoting allowed (String.intercalate sep xs).toList [] := by
  have none : (xs.map fun _ => ([] : List (List Char))).flatten = [] := by simp
  rw [← none]
  exact written_intercalate separate (List.forall₂_map_right_iff.mpr (List.forall₂_same.mpr each))

end Lists

end ForestQuery.Text
