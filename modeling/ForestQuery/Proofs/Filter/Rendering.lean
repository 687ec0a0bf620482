import ForestQuery.Filter.Rendering
import ForestQuery.Proofs.Dialect
import ForestQuery.Proofs.Filter
/-!
What a filter is written as. Main statements: writing it in one pass and checking it first come to the same, and its
text is that of its conditions in their order, with words between.
-/

namespace ForestQuery

namespace Rendering

variable {α β : Type} {d : Dialect}

@[simp] theorem after_pure (a : α) (bound : List Value) : (pure a : Rendering α).after bound = (.ok a, bound) := rfl

@[simp] theorem after_throw (e : Error) (bound : List Value) :
    (throw e : Rendering α).after bound = (.error e, bound) := rfl

@[simp] theorem after_liftExcept (x : Except Error α) (bound : List Value) :
    (liftExcept x : Rendering α).after bound = (x, bound) := by
  cases x <;> rfl

theorem after_bind (first : Rendering α) (rest : α → Rendering β) (bound : List Value) :
    (first >>= rest).after bound =
      match first.after bound with
      | (.ok a, later) => (rest a).after later
      | (.error e, later) => (.error e, later) := by
  simp only [after, ExceptT.run_bind, StateT.run_bind]
  change Id.run (match first.run.run bound with | (x, later) => _) = _
  cases first.run.run bound with
  | mk x later => cases x <;> rfl

@[simp] theorem after_bindValue (v : Value) (bound : List Value) :
    (bindValue d v).after bound = (.ok (d.placeholder (bound.length + 1)), bound ++ [v]) := by
  rw [← List.length_singleton (a := v), ← List.length_append]
  rfl

theorem after_mapM_bindValue (vs bound : List Value) :
    (vs.mapM (bindValue d)).after bound = (.ok (Term.placeholders d bound.length vs.length), bound ++ vs) := by
  simp only [Term.placeholders_eq_map]
  induction vs generalizing bound with
  | nil => simp
  | cons v vs ih =>
    simp only [List.mapM_cons, after_bind, after_bindValue, ih, after_pure]
    simp [List.range'_succ]

/-- What a checked thing is written as, with its values bound; or its failure, with those that were bound before it. -/
def ofChecked (text : Nat → α → β) (values : α → List Value) (x : Except Refusal α) (bound : List Value) :
    Except Error β × List Value :=
  match x with
  | .ok a => (.ok (text bound.length a), bound ++ values a)
  | .error refusal => (.error refusal.error, bound ++ refusal.bound)

end Rendering

variable {r : Relation} {d : Dialect} {source : String}

open Rendering

theorem Condition.after_render (c : Condition) (bound : List Value) :
    (c.render r d source).after bound =
      match c.check r with
      | .ok t => (.ok (t.text d source bound.length), bound ++ t.values)
      | .error e => (.error e, bound) := by
  obtain ⟨field, operator, values⟩ := c
  simp only [render, check, after_bind, after_liftExcept]
  cases r.requireField field with
  | error e => rfl
  | ok type =>
    simp only [Outcome.ok_bind]
    cases operator with
    | isNull => exact congrArg (Prod.mk _) (List.append_nil bound).symm
    | notNull => exact congrArg (Prod.mk _) (List.append_nil bound).symm
    | member =>
      by_cases absent : values.any Value.isNull = true
      · simp only [absent, if_true, after_bind, after_throw, Outcome.throw_bind]
      · cases values with
        | nil => exact congrArg (Prod.mk _) (List.append_nil bound).symm
        | cons first rest =>
          simp only [absent, if_false, Bool.false_eq_true, List.isEmpty_cons, after_bind,
            after_mapM_bindValue, after_pure]
          rfl
    | compare comparison =>
      cases values with
      | nil => rfl
      | cons value rest =>
        cases rest with
        | nil =>
          by_cases absent : value.isNull = true
          · simp only [absent, if_true, after_bind, after_throw, Outcome.throw_bind]
          · simp only [absent, if_false, Bool.false_eq_true, after_bind, after_bindValue, after_pure]
            rfl
        | cons second rest => rfl

theorem Condition.after_mapM_render (cs : List Condition) (bound : List Value) :
    (cs.mapM (Condition.render r d source)).after bound =
      ofChecked (Clause.termTexts d source) Clause.values (checkAll r cs) bound := by
  induction cs generalizing bound with
  | nil => simp [checkAll, ofChecked, Clause.termTexts, Clause.values]
  | cons c cs ih =>
    simp only [List.mapM_cons, after_bind, after_pure, after_render, ih, checkAll]
    cases c.check r with
    | error e => simp [ofChecked]
    | ok t =>
      cases checkAll r cs with
      | error refusal => simp [ofChecked]
      | ok ts => simp [ofChecked, Clause.termTexts, Clause.values]

theorem Clause.after_render (cs : List Condition) (bound : List Value) :
    (render r d source cs).after bound = ofChecked (text d source) values (check r cs) bound := by
  rw [render, check]
  by_cases empty : cs.isEmpty = true
  · simp [empty, ofChecked]
  · simp only [empty, if_false, Bool.false_eq_true, after_bind, Condition.after_mapM_render]
    cases Condition.checkAll r cs <;> rfl

/-- Clauses that are written as they are checked, each in the same frame, are written so one after the other. -/
theorem Clause.after_mapM {f : List Condition → Rendering String} (frame : String → String)
    (each : ∀ cs bound, (f cs).after bound =
      ofChecked (fun bound c => frame (text d source bound c)) values (check r cs) bound)
    (lists : List (List Condition)) (bound : List Value) :
    (lists.mapM f).after bound =
      ofChecked (fun bound cs => (texts d source bound cs).map frame) (List.flatMap values) (checkAll r lists)
        bound := by
  induction lists generalizing bound with
  | nil => simp [checkAll, ofChecked, texts]
  | cons cs lists ih =>
    simp only [List.mapM_cons, after_bind, after_pure, each, ih, checkAll]
    cases check r cs with
    | error refusal => simp [ofChecked]
    | ok c =>
      cases checkAll r lists with
      | error refusal => simp [ofChecked]
      | ok clauses => simp [ofChecked, texts]

/-- A filter is written as its clauses are, if it passes its check. -/
theorem PreFilter.after_render (f : PreFilter) (bound : List Value) :
    (f.render r d source).after bound =
      ofChecked (fun bound c => Clauses.text d source bound c) Clauses.values (f.check r) bound := by
  have keep (bound : List Value) : (f.keep.mapM (Clause.render r d source)).after bound =
      ofChecked (Clause.texts d source) (List.flatMap Clause.values) (Clause.checkAll r f.keep) bound := by
    simpa using Clause.after_mapM id Clause.after_render f.keep bound
  have framed (cs : List Condition) (bound : List Value) :
      (do return String.join ["NOT COALESCE(", ← Clause.render r d source cs, ", FALSE)"] : Rendering String).after
        bound = ofChecked (fun bound c => String.join ["NOT COALESCE(", Clause.text d source bound c, ", FALSE)"])
          Clause.values (Clause.check r cs) bound := by
    simp only [after_bind, Clause.after_render]
    cases Clause.check r cs <;> rfl
  have drop (bound : List Value) :=
    Clause.after_mapM (fun body => String.join ["NOT COALESCE(", body, ", FALSE)"]) framed f.drop bound
  simp only [render, check, after_bind, keep]
  cases Clause.checkAll r f.keep with
  | error refusal => rfl
  | ok kept =>
    simp only [ofChecked, drop]
    cases Clause.checkAll r f.drop with
    | error refusal => simp
    | ok dropped => simp [Clauses.text, Clauses.values]

/-- The text of a filter, and the values bound with it. -/
theorem PreFilter.after_render_eq_ok_iff {f : PreFilter} {bound params : List Value} {sql : String} :
    (f.render r d source).after bound = (.ok sql, params) ↔
      f.IsAskable r ∧ f.clauses.text d source bound.length = sql ∧ bound ++ f.clauses.values = params := by
  rw [after_render]
  cases checked : f.check r with
  | error refusal => simp [ofChecked, Outcome.not_of_eq_error check_eq_ok_iff checked]
  | ok clauses =>
    obtain ⟨askable, rfl⟩ := check_eq_ok_iff.mp checked
    simp [ofChecked, askable]

namespace PreFilter

/-- The conditions of a filter in the order in which they are written. -/
def conditions (f : PreFilter) : List Condition := f.keep.flatten ++ f.drop.flatten

theorem IsAskable.conditions {f : PreFilter} (askable : f.IsAskable r) : ∀ c ∈ f.conditions, c.IsAskable r := by
  intro c member
  rw [PreFilter.conditions, ← List.flatten_append, List.mem_flatten] at member
  obtain ⟨cs, inFilter, inClause⟩ := member
  exact (askable cs inFilter).2 c inClause

end PreFilter

section Composition

open Text Text.Mark

variable {quoting : Bool} {allowed : Char → List Char → Prop}

/-- The terms of a filter in the order in which they are written. -/
def Clauses.terms (c : Clauses) : List Term := c.keep.flatten ++ c.drop.flatten

theorem Clause.values_flatten (cs : List Clause) : values cs.flatten = cs.flatMap values := by
  simp only [values, List.flatten_eq_flatMap, List.flatMap_assoc, id_eq]
  rfl

theorem PreFilter.terms_clauses (f : PreFilter) : f.clauses.terms = f.conditions.map Condition.term := by
  rw [clauses, Clauses.terms, conditions, List.map_append, List.map_flatten, List.map_flatten]

theorem Clauses.values_eq (c : Clauses) : c.values = Clause.values c.terms := by
  rw [Clauses.values, terms, ← Clause.values_flatten, ← Clause.values_flatten]
  exact List.flatMap_append.symm

theorem Clause.termTexts_append (bound : Nat) (ts us : List Term) :
    termTexts d source bound (ts ++ us) =
      termTexts d source bound ts ++ termTexts d source (bound + (values ts).length) us := by
  induction ts generalizing bound with
  | nil => rfl
  | cons t ts ih =>
    rw [List.cons_append, termTexts, termTexts, ih, List.cons_append]
    simp only [values, List.flatMap_cons, List.length_append, Nat.add_assoc]

theorem Clause.interspersed_text (bound : Nat) (c : Clause) :
    Interspersed (termTexts d source bound c) (text d source bound c).toList := by
  have terms : Interspersed (termTexts d source bound c)
      (String.intercalate " AND " (termTexts d source bound c)).toList := .list (by decide) _
  have framed := (terms.append_words (w := ")") (by decide)).words_append (w := "(") (by decide)
  simpa [text] using framed

theorem Clause.interspersed_texts (d : Dialect) (source : String) (bound : Nat) (cs : List Clause)
    (frame : String → String) (framed : ∀ ts body, Interspersed ts body.toList → Interspersed ts (frame body).toList) :
    ∃ tss, List.Forall₂ (fun x ts => Interspersed ts x.toList) ((texts d source bound cs).map frame) tss ∧
      tss.flatten = termTexts d source bound cs.flatten := by
  induction cs generalizing bound with
  | nil => exact ⟨[], .nil, rfl⟩
  | cons c cs ih =>
    obtain ⟨tss, rest, all⟩ := ih (bound + (values c).length)
    refine ⟨_ :: tss, .cons (framed _ _ (interspersed_text bound c)) rest, ?_⟩
    rw [List.flatten_cons, List.flatten_cons, all, termTexts_append]

/-- The text of a filter consists of the texts of its terms, each behind the placeholders of those before it. -/
theorem Clauses.interspersed_text (bound : Nat) (c : Clauses) :
    Interspersed (Clause.termTexts d source bound c.terms) (c.text d source bound).toList := by
  have inverted (ts : List String) (body : String) (inside : Interspersed ts body.toList) :
      Interspersed ts (String.join ["NOT COALESCE(", body, ", FALSE)"]).toList := by
    have framed := (inside.append_words (w := ", FALSE)") (by decide)).words_append (w := "NOT COALESCE(") (by decide)
    simpa using framed
  obtain ⟨kept, ofKeep, first⟩ := Clause.interspersed_texts d source bound c.keep id fun _ _ inside => inside
  obtain ⟨dropped, ofDrop, rest⟩ :=
    Clause.interspersed_texts d source (bound + (c.keep.flatMap Clause.values).length) c.drop _ inverted
  have all : (kept ++ dropped).flatten = Clause.termTexts d source bound c.terms := by
    rw [List.flatten_append, first, rest, terms, Clause.termTexts_append, Clause.values_flatten]
  rw [List.map_id] at ofKeep
  have parts : List.Forall₂ (fun (x : String) ts => Interspersed ts x.toList) (_ ++ _) (kept ++ dropped) :=
    List.rel_append ofKeep ofDrop
  rw [← all, text]
  by_cases empty : (Clause.texts d source bound c.keep ++
      (Clause.texts d source (bound + (c.keep.flatMap Clause.values).length) c.drop).map
        fun body => String.join ["NOT COALESCE(", body, ", FALSE)"]).isEmpty = true
  · rw [if_pos empty]
    rw [List.isEmpty_iff.mp empty] at parts
    rw [List.forall₂_nil_left_iff.mp parts]
    exact .words (isWords_iff.mp (by decide))
  · rw [if_neg empty]
    exact .intercalate (by decide) parts

/-- The column that a term asks about. -/
def Term.column? : Term → Option String
  | compare column _ _ | member column _ _ | isNull column | notNull column => some column
  | never => none

theorem Condition.column?_term {c : Condition} {name : String} (column : c.term.column? = some name) :
    c.field = name := by
  obtain ⟨field, operator, values⟩ := c
  cases operator with
  | isNull | notNull | compare => exact Option.some.inj column
  | member =>
    cases values with
    | nil => cases column
    | cons => exact Option.some.inj column

theorem Term.written_text (plain : IsPlain quoting source.toList) {t : Term}
    (named : ∀ name, t.column? = some name → Written quoting allowed (d.quote name).toList []) (bound : Nat) :
    Written quoting allowed (t.text d source bound).toList (d.placeholdersBehind bound t.values.length) := by
  have column {name : String} (known : t.column? = some name) :
      Written quoting allowed ((Reference.column source name).text d).toList [] := by
    have dotted : Written quoting allowed (source.toList ++ (".".toList ++ (d.quote name).toList)) [] :=
      .plain_append plain ((named name known).words_append (by decide))
    simpa [Reference.text] using dotted
  cases t with
  | compare name c value =>
    have symbol : isWords c.symbol = true := by cases c <;> decide
    exact (Joined.text (column rfl) (by decide) (.words symbol (.words (by decide)
      (.last (d.written_placeholder (bound + 1)))))).written
  | member name first rest =>
    have list : Written quoting allowed (String.intercalate ", " (placeholders d bound (rest.length + 1))).toList
        (d.placeholdersBehind bound (rest.length + 1)) := by
      have items : Written quoting allowed (String.intercalate ", " (placeholders d bound (rest.length + 1))).toList
          (((List.range' (bound + 1) (rest.length + 1)).map fun i => [(d.placeholder i).toList]).flatten) := by
        rw [placeholders_eq_map]
        refine written_intercalate (by decide) ?_
        rw [List.forall₂_map_left_iff, List.forall₂_map_right_iff]
        exact List.forall₂_same.mpr fun i _ => d.written_placeholder i
      rwa [← List.flatMap_def, ← List.map_eq_flatMap] at items
    have text := (Joined.text (w := " IN (") (column rfl) (by decide) (.text (w := ")") list (by decide) .nil)).written
    rwa [List.nil_append, List.append_nil] at text
  | never => exact written_words (w := "1 = 0") (by decide)
  | isNull name => exact (Joined.text (w := " IS NULL") (column rfl) (by decide) .nil).written
  | notNull name => exact (Joined.text (w := " IS NOT NULL") (column rfl) (by decide) .nil).written

theorem Clause.written_termTexts (plain : IsPlain quoting source.toList)
    {ts : List Term}
    (named : ∀ t ∈ ts, ∀ name, t.column? = some name → Written quoting allowed (d.quote name).toList [])
    (bound : Nat) :
    ∃ pss, List.Forall₂ (fun t ps => Written quoting allowed t.toList ps) (termTexts d source bound ts) pss ∧
      pss.flatten = d.placeholdersBehind bound (values ts).length := by
  induction ts generalizing bound with
  | nil => exact ⟨[], .nil, rfl⟩
  | cons t ts ih =>
    rw [List.forall_mem_cons] at named
    obtain ⟨pss, rest, all⟩ := ih named.2 (bound + t.values.length)
    refine ⟨_ :: pss, .cons (t.written_text plain named.1 bound) rest, ?_⟩
    rw [List.flatten_cons, all, Dialect.placeholdersBehind_append, values, values, List.flatMap_cons,
      List.length_append]

/-- The placeholders of the text of a filter are those of its values. -/
theorem Clauses.written_text (plain : IsPlain quoting source.toList)
    {c : Clauses}
    (named : ∀ t ∈ c.terms, ∀ name, t.column? = some name → Written quoting allowed (d.quote name).toList [])
    (bound : Nat) :
    Written quoting allowed (c.text d source bound).toList (d.placeholdersBehind bound c.values.length) := by
  obtain ⟨pss, each, all⟩ := Clause.written_termTexts plain named bound
  rw [Clauses.values_eq, ← all]
  exact (c.interspersed_text bound).written each

end Composition

end ForestQuery
