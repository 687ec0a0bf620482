import ForestQuery.Proofs.Statement
/-!
The placeholders of filters and statements, and the values bound to them. Main statement: there are as many
placeholders as bound values, numbered through, in the order of the conditions that ask with them, and all of them in
the part of a statement that filters.
-/

namespace ForestQuery

open Text Text.Mark

namespace Condition

/-- The values that a condition binds: those of comparisons and of lists. -/
def boundValues (c : Condition) : List Value :=
  match c.operator with
  | .compare _ | .member => c.values
  | .isNull | .notNull => []

theorem values_term {r : Relation} {c : Condition} (askable : c.IsAskable r) : c.term.values = c.boundValues := by
  obtain ⟨field, operator, values⟩ := c
  obtain ⟨-, given⟩ := askable
  cases operator with
  | isNull | notNull => rfl
  | member => cases values <;> rfl
  | compare comparison =>
    obtain ⟨value, rfl, -⟩ := given
    rfl

end Condition

namespace PreFilter

variable {r : Relation} {f : PreFilter}

/-- The values that a filter binds, condition by condition. -/
def boundValues (f : PreFilter) : List Value := f.conditions.flatMap Condition.boundValues

theorem values_clauses (askable : f.IsAskable r) : f.clauses.values = f.boundValues := by
  rw [Clauses.values_eq, terms_clauses, Clause.values, List.flatMap_map, boundValues]
  exact List.flatMap_congr fun c member => Condition.values_term (askable.conditions c member)

/-- The columns of a filter can be written in quotes if the names of the relation are identifiers. -/
theorem IsAskable.written_quote (askable : f.IsAskable r)
    (identifiers : ∀ name ∈ r.names, Identifier.isIdentifier name = true) (quoting : Bool) (d : Dialect) :
    ∀ t ∈ f.clauses.terms, ∀ name, t.column? = some name →
      Written quoting (IsQuotable r.names) (d.quote name).toList [] := by
  intro t member name column
  have known := askable.mem_names member column
  have clean := Identifier.isWords_of_isIdentifier (identifiers name known)
  exact Dialect.written_quote clean fun _ _ => ⟨isWords_iff.mp clean, Or.inr ⟨name, known, rfl⟩⟩

end PreFilter

theorem IsQuotable.unsigned {names : List String} {q : Char} {content : List Char}
    (quotable : IsQuotable names q content) : ∀ c ∈ content, isSign c = false :=
  fun c member => (quotable.1 c member).2

theorem isPlain_of_unsigned {cs : List Char} (noMark : '?' ∉ cs) (noDollar : '$' ∉ cs) : IsPlain false cs := by
  refine fun c member => ⟨fun impossible => absurd impossible Bool.false_ne_true, ?_⟩
  rw [isSign, Bool.or_eq_false_iff, beq_eq_false_iff_ne, beq_eq_false_iff_ne]
  exact ⟨fun same => noMark (same ▸ member), fun same => noDollar (same ▸ member)⟩

namespace Compiler

variable {c : Compiler} {q : Request} {out : Compiled} {order : SiblingOrder} {ancestors : List AncestorField}
  {key : KeySource}

theorem params_of_simple (compiles : c.Compiles q out order ancestors key) (simple : out.strategy = .simple) :
    out.statement.params = [] := by
  obtain ⟨-, table⟩ | ⟨general, -⟩ := scope_cases compiles
  · rw [Statement.params, table]
  · rw [simple] at general
    cases general

/-- The filter of a request is written into the first part of the statement of a general plan, if it has clauses. -/
theorem baseText_of_general (compiles : c.Compiles q out order ancestors key) (general : out.strategy = .general) :
    ∃ filter rank condition, out.statement.scope = .filtered filter rank ∧
      out.statement.baseText filter = String.join [Statement.baseName, " AS (\n    SELECT ", Statement.base, ".* FROM ",
        c.config.dialect.quote c.relation.table, " ", Statement.base, condition, "\n)"] ∧
      (q.isFiltered = false ∧ condition = "" ∧ out.statement.params = [] ∨
        ∃ f sql, q.filter = some f ∧ condition = String.join ["\n    WHERE ", sql] ∧
          (f.render c.relation c.config.dialect Statement.base).after [] = (.ok sql, out.statement.params)) := by
  obtain ⟨simple, -⟩ | ⟨-, filter, checked, shape⟩ := scope_cases compiles
  · rw [general] at simple
    cases simple
  have bound : out.statement.params = filter.values := by rw [Statement.params, shape]
  refine ⟨filter, _, if filter.keep.isEmpty && filter.drop.isEmpty then ""
    else String.join ["\n    WHERE ", filter.text c.config.dialect Statement.base 0], shape, ?_, ?_⟩
  · rw [Statement.baseText, Statement.quote, compiles.encoding, compiles.relation]
  · rw [bound]
    obtain ⟨askable, rfl⟩ := checkFilter_eq_ok_iff.mp checked
    cases given : q.filter with
    | none => exact Or.inl ⟨by rw [Request.isFiltered, given, Option.any_none], rfl, rfl⟩
    | some f =>
      rw [Option.map_some, Option.getD_some]
      have same : (f.clauses.keep.isEmpty && f.clauses.drop.isEmpty) = f.isEmpty := by
        rw [PreFilter.clauses, List.isEmpty_map, List.isEmpty_map, PreFilter.isEmpty]
      rw [same]
      by_cases empty : f.isEmpty = true
      · refine Or.inl ⟨by rw [Request.isFiltered, given, Option.any_some, empty, Bool.not_true], if_pos empty, ?_⟩
        rw [PreFilter.isEmpty, Bool.and_eq_true, List.isEmpty_iff, List.isEmpty_iff] at empty
        rw [Clauses.values, PreFilter.clauses, empty.1, empty.2]
        rfl
      · exact Or.inr ⟨f, _, rfl, if_neg empty, PreFilter.after_render_eq_ok_iff.mpr ⟨askable f given, rfl, rfl⟩⟩

end Compiler

/-- In a declared relation, a filter binds the values of its comparisons and lists, those of clauses to keep by first,
behind the values that are bound already. Its text has one placeholder for each, numbered on, and consists of the texts
of its conditions in the same order, each with the placeholders of its own values, and words between. A statement has
one placeholder for each of its values, none of them in quotes, and all of them in the condition of its first part;
without a filter it has none. -/
theorem Relation.IsDeclared.placeholders_match {r : Relation} (declared : r.IsDeclared) :
    (∀ (f : PreFilter) (d : Dialect) (source sql : String) (bound params : List Value),
      '?' ∉ source.toList → '$' ∉ source.toList → (f.render r d source).after bound = (.ok sql, params) →
      params = bound ++ f.boundValues ∧
      placeholders sql.toList = d.placeholdersBehind bound.length f.boundValues.length ∧
      Interspersed (Clause.termTexts d source bound.length (f.conditions.map Condition.term)) sql.toList ∧
      ∀ c ∈ f.conditions, ∀ before,
        placeholders (c.term.text d source before).toList = d.placeholdersBehind before c.boundValues.length) ∧
    ∀ (c : Compiler) (q : Request) (out : Compiled), c.relation = r → c.compile q = .ok out →
      placeholders out.statement.text.toList = c.config.dialect.placeholdersBehind 0 out.statement.params.length ∧
      (∃ ms, marks? out.statement.text.toList = some ms ∧
        ms.filterMap placeholder? = c.config.dialect.placeholdersBehind 0 out.statement.params.length) ∧
      (out.strategy = .simple → out.statement.params = []) ∧
      (out.strategy = .general → ∃ condition rest,
        out.statement.text = String.join ["WITH RECURSIVE ", Statement.baseName, " AS (\n    SELECT ", Statement.base,
          ".* FROM ", c.config.dialect.quote r.table, " ", Statement.base, condition, "\n)", rest] ∧
        placeholders rest.toList = [] ∧
        (q.isFiltered = false ∧ condition = "" ∧ out.statement.params = [] ∨
          ∃ f sql, q.filter = some f ∧ condition = String.join ["\n    WHERE ", sql] ∧
            (f.render r c.config.dialect Statement.base).after [] = (.ok sql, out.statement.params))) := by
  have identifiers := declared.isIdentifier
  refine ⟨fun f d source sql bound params noMark noDollar rendered => ?_, ?_⟩
  · obtain ⟨askable, rfl, rfl⟩ := PreFilter.after_render_eq_ok_iff.mp rendered
    have plain := isPlain_of_unsigned noMark noDollar
    have named := askable.written_quote identifiers false d
    have values := PreFilter.values_clauses askable
    refine ⟨by rw [values], ?_, ?_, fun c asked before => ?_⟩
    · rw [← values]
      exact (Clauses.written_text plain named bound.length).placeholders fun _ _ => IsQuotable.unsigned
    · rw [← PreFilter.terms_clauses]
      exact Clauses.interspersed_text bound.length f.clauses
    · have inTerms : c.term ∈ f.clauses.terms := PreFilter.terms_clauses f ▸ List.mem_map_of_mem asked
      rw [← Condition.values_term (askable.conditions c asked)]
      exact (Term.written_text plain (named c.term inTerms) before).placeholders fun _ _ => IsQuotable.unsigned
  · rintro c q out rfl compiled
    obtain ⟨order, ancestors, key, compiles⟩ := Compiler.compile_eq_ok compiled
    have named := Compiler.isNamed_of_compiles compiles fun name member =>
      Identifier.isWords_of_isIdentifier (identifiers name member)
    have dialect : out.statement.encoding.dialect = c.config.dialect := by rw [compiles.encoding]
    have written := named.written_text
    rw [dialect] at written
    obtain ⟨ms, scanned, marks, -⟩ := written.marks
    refine ⟨written.placeholders fun _ _ => IsQuotable.unsigned, ⟨ms, scanned, marks⟩,
      Compiler.params_of_simple compiles, fun general => ?_⟩
    obtain ⟨filter, rank, condition, scope, base, filtered⟩ := Compiler.baseText_of_general compiles general
    refine ⟨condition, _, ?_, (named.isSpelled_rest scope).placeholders fun _ _ => IsQuotable.unsigned, filtered⟩
    rw [Statement.IsNamed.text_eq_of_filtered scope, base]
    apply String.toList_injective
    simp

/-- A filter for two of the names of children. -/
def namedChildren : PreFilter where
  keep := [[⟨"name", .compare .notEqual, [.text "c"]⟩, ⟨"name", .member, [.text "a", .text "b"]⟩]]
  drop := [[⟨"parent_id", .isNull, []⟩]]

theorem Relation.IsDeclared.placeholders_match_children : ∃ r : Relation, r.IsDeclared ∧
    (∃ sql, (namedChildren.render r .postgres "B").after [.integer 7] =
        (.ok sql, [.integer 7, .text "c", .text "a", .text "b"]) ∧
      placeholders sql.toList = ["$2", "$3", "$4"].map String.toList) ∧
    ∃ out, (Compiler.mk r .default false).compile ⟨some namedChildren, [], .empty, none⟩ = .ok out ∧
      placeholders out.statement.text.toList = ["?", "?", "?"].map String.toList ∧
      ∃ sql, (namedChildren.render r .sqlite "B").after [] = (.ok sql, out.statement.params) := by
  have declared : (Relation.mk "nodes" "id" .integer "parent_id" [⟨"name", .text⟩]).IsDeclared :=
    ⟨"nodes", "id", .integer, [.field "name" .text], by decide +kernel⟩
  obtain ⟨ofFilter, ofStatement⟩ := placeholders_match declared
  have rendered : (namedChildren.render ⟨"nodes", "id", .integer, "parent_id", [⟨"name", .text⟩]⟩ .postgres "B").after
      [.integer 7] =
      (.ok "(B.\"name\" <> $2 AND B.\"name\" IN ($3, $4)) AND NOT COALESCE((B.\"parent_id\" IS NULL), FALSE)",
        [.integer 7, .text "c", .text "a", .text "b"]) := by
    decide
  obtain ⟨-, numbered, -⟩ := ofFilter namedChildren .postgres "B" _ _ _ (by decide) (by decide) rendered
  have checks : ((Compiler.mk ⟨"nodes", "id", .integer, "parent_id", [⟨"name", .text⟩]⟩ .default false).compile
      ⟨some namedChildren, [], .empty, none⟩).toOption.any (fun out =>
        out.strategy = .general ∧ out.statement.params.length = 3) = true := by
    decide
  obtain ⟨out, compiled, planned⟩ := Outcome.exists_of_any checks
  obtain ⟨general, count⟩ := of_decide_eq_true planned
  obtain ⟨marked, -, -, split⟩ := ofStatement _ _ out rfl compiled
  rw [count] at marked
  obtain ⟨_, _, -, -, ⟨free, -⟩ | ⟨f, sql, given, -, bound⟩⟩ := split general
  · cases free
  · cases given
    exact ⟨_, declared, ⟨_, rendered, numbered.trans (by decide)⟩, out, compiled,
      marked.trans (by decide), sql, bound⟩

end ForestQuery
