import ForestQuery.Proofs.Acceptance
import ForestQuery.Proofs.Expr.Text
import ForestQuery.Proofs.Filter.Rendering
import ForestQuery.Proofs.Relation
/-!
What the text of a statement is composed of. Main statement: it consists of words, texts and names in their quotes,
and the placeholders of its filter.
-/

namespace ForestQuery

open Text Text.Mark

variable {names : List String}

/-- Whether what a level adds refers to columns of these names only. -/
def Element.RefersTo (names : List String) : Element → Prop
  | item expr _ => expr.RefersTo names
  | segments exprs _ => ∀ e ∈ exprs, e.RefersTo names

theorem Element.isSpelled_text (clean : ∀ name ∈ names, isWords name = true) {d : Dialect} {el : Element}
    (refers : el.RefersTo names) : IsSpelled names (el.text d) := by
  have each {exprs : List Expr} (all : ∀ e ∈ exprs, e.RefersTo names) :
      ∀ part ∈ exprs.map fun e => e.text d, IsSpelled names part := by
    rw [List.forall_mem_map]
    exact fun e member => Expr.isSpelled_text clean (all e member)
  unfold text
  split
  · rename_i expr type
    have typed : separates (String.join [" AS ", Dialect.arrayElementType type, ")"]) = true := by
      cases type <;> decide
    have whole : String.join ["CAST(", expr.text d, " AS ", Dialect.arrayElementType type, ")"] =
        String.join ["CAST(", expr.text d, String.join [" AS ", Dialect.arrayElementType type, ")"]] := by
      apply String.toList_injective
      simp
    rw [whole]
    exact isSpelled_between (by decide) (Expr.isSpelled_text clean refers) typed
  · exact Expr.isSpelled_text clean (refers _ (List.mem_singleton_self _))
  · exact Dialect.isSpelled_concat (each refers)

namespace Encoding

variable {enc : Encoding} {el : Element}

theorem refersTo_element {parts : List Part} (made : enc.element parts = .ok el)
    (refers : ∀ p ∈ parts, p.expr.RefersTo names) : el.RefersTo names := by
  unfold element at made
  split at made
  · split at made
    · cases made
    · cases made
      exact refers _ List.mem_cons_self
    · cases made
  · obtain ⟨exprs, segmentsOk, rfl⟩ := Outcome.map_eq_ok_iff.mp made
    intro expr member
    obtain ⟨p, inParts, segment⟩ := Outcome.exists_of_mem_right (segments_eq_ok_iff.mp segmentsOk) member
    exact Expr.refersTo_segment? (refers p inParts) segment

theorem isSpelled_start (clean : ∀ name ∈ names, isWords name = true) (refers : el.RefersTo names) :
    IsSpelled names (enc.start el) := by
  have text : IsSpelled names (el.text enc.dialect) := Element.isSpelled_text clean refers
  cases el with
  | item expr type => exact isSpelled_between (by decide) text (by decide)
  | segments exprs width => exact Dialect.isSpelled_widen text _

theorem isSpelled_extend (clean : ∀ name ∈ names, isWords name = true) (refers : el.RefersTo names) {column : String}
    (words : isWords column = true) : IsSpelled names (enc.extend column el) := by
  have text : IsSpelled names (el.text enc.dialect) := Element.isSpelled_text clean refers
  cases el with
  | item expr type => exact (Joined.words words (.words (by decide) (.last text))).written
  | segments exprs width =>
    refine Dialect.isSpelled_concat fun part member => ?_
    rcases List.mem_cons.mp member with rfl | rest
    · exact isSpelled_words words
    · rw [List.mem_singleton.mp rest]
      exact text

theorem isSpelled_depthGuard {depth value : String} (words : isWords depth = true) (spelled : IsSpelled names value) :
    IsSpelled names (enc.depthGuard depth value) := by
  rw [depthGuard]
  split
  · exact spelled
  · have condition : isWords (depth ++ (Test.atLeast enc.maxDepth).text) = true := by
      rw [isWords, String.toList_append, List.all_append, Bool.and_eq_true]
      exact ⟨words, isWords_of_separates (separates_test _)⟩
    exact Dialect.isSpelled_guard (isSpelled_words condition) (isSpelled_words words) spelled

end Encoding

/-- Whether a criterion refers to columns of these names only. -/
def SortTerm.RefersTo (names : List String) : SortTerm → Prop
  | absentFirst column | value column _ => (Expr.reference column).RefersTo names

theorem SiblingOrder.isSpelled_termsText (clean : ∀ name ∈ names, isWords name = true) {d : Dialect}
    {terms : List SortTerm} (refers : ∀ t ∈ terms, t.RefersTo names) : IsSpelled names (termsText d terms) := by
  refine isSpelled_list (by decide) (List.forall_mem_map.mpr fun t member => ?_)
  have column := refers t member
  cases t with
  | absentFirst column' => exact isSpelled_between (by decide) (Expr.isSpelled_reference clean column) (by decide)
  | value column' direction =>
    have keyword : isWords direction.keyword = true := by cases direction <;> decide
    exact (Joined.text (Expr.isSpelled_reference clean column) (by decide) (.words keyword .nil)).written

namespace Statement

/-- Whether a statement refers to tables and columns of these names only. -/
structure IsNamed (names : List String) (s : Statement) : Prop where
  clean : ∀ name ∈ names, isWords name = true
  collation : "C" ∈ names
  relation : ∀ name ∈ s.relation.names, name ∈ names
  path : s.path.RefersTo names
  ordering : s.ordering.RefersTo names
  ancestors : ∀ a ∈ s.ancestors, isWords a.1.column = true ∧ a.2.RefersTo names
  filter : ∀ filter rank, s.scope = .filtered filter rank → ∀ t ∈ filter.terms, ∀ name, t.column? = some name →
    name ∈ names
  rank : ∀ filter terms, s.scope = .filtered filter (some terms) → ∀ t ∈ terms, t.RefersTo names

namespace IsNamed

variable {s : Statement}

theorem isSpelled_quote (named : s.IsNamed names) {name : String} (known : name ∈ s.relation.names) :
    IsSpelled names (s.quote name) :=
  ForestQuery.isSpelled_quote (named.relation name known) (named.clean name (named.relation name known))

theorem isSpelled_table (named : s.IsNamed names) : IsSpelled names (s.quote s.relation.table) :=
  named.isSpelled_quote (by simp [Relation.names])

theorem isSpelled_key (named : s.IsNamed names) : IsSpelled names (s.quote s.relation.key) :=
  named.isSpelled_quote (by simp [Relation.names, Relation.columns])

theorem isSpelled_parent (named : s.IsNamed names) : IsSpelled names (s.quote s.relation.parent) :=
  named.isSpelled_quote (by simp [Relation.names, Relation.columns])

theorem isSpelled_sourceKey (named : s.IsNamed names) : IsSpelled names s.sourceKey :=
  (Joined.words (by decide) (.words (by decide) (.last named.isSpelled_key))).written

theorem isSpelled_effectiveParent (named : s.IsNamed names) : IsSpelled names s.effectiveParent :=
  (Joined.words (by decide) (.text named.isSpelled_key (by decide) (.words (by decide) (.words (by decide)
    (.text named.isSpelled_parent (by decide) .nil))))).written

theorem isWords_scopeTableName (rank : Option (List SortTerm)) : isWords (scopeTableName rank) = true := by
  unfold scopeTableName
  split <;> decide

/-- The placeholders of the filter are those of the part that filters. -/
theorem written_baseText (named : s.IsNamed names) {filter : Clauses} {rank : Option (List SortTerm)}
    (scope : s.scope = .filtered filter rank) :
    Written true (IsQuotable names) (s.baseText filter).toList
      (s.encoding.dialect.placeholdersBehind 0 filter.values.length) := by
  have condition : Written true (IsQuotable names) (filter.text s.encoding.dialect base 0).toList
      (s.encoding.dialect.placeholdersBehind 0 filter.values.length) := by
    refine filter.written_text (isPlain_of_clean (isWords_iff.mp (by decide))) (fun t member name known => ?_) 0
    have inNames := named.filter filter rank scope t member name known
    exact ForestQuery.isSpelled_quote inNames (named.clean name inNames)
  have framed {x : String} {ps : List (List Char)} (inside : Written true (IsQuotable names) x.toList ps) :
      Written true (IsQuotable names) (String.join [baseName, " AS (\n    SELECT ", base, ".* FROM ",
        s.quote s.relation.table, " ", base, x, "\n)"]).toList ps := by
    have whole := (Joined.words (w := baseName) (by decide) (.words (w := " AS (\n    SELECT ") (by decide)
      (.words (w := base) (by decide) (.words (w := ".* FROM ") (by decide) (.text (w := " ") named.isSpelled_table
        (by decide) (.words (w := base) (by decide) (.text (w := "\n)") inside (by decide) .nil))))))).written
    rwa [List.nil_append, List.append_nil] at whole
  rw [baseText]
  by_cases free : (filter.keep.isEmpty && filter.drop.isEmpty) = true
  · have none : filter.values = [] := by
      rw [Bool.and_eq_true, List.isEmpty_iff, List.isEmpty_iff] at free
      rw [Clauses.values, free.1, free.2]
      rfl
    rw [if_pos free, none]
    exact framed .nil
  · rw [if_neg free]
    exact framed (Joined.words (by decide) (.last condition)).written

theorem isSpelled_scopeText (named : s.IsNamed names) {filter : Clauses} {rank : Option (List SortTerm)}
    (scope : s.scope = .filtered filter rank) : IsSpelled names (s.scopeText rank) := by
  have framed {number : String} (inside : IsSpelled names number) :
      IsSpelled names (String.join [scopeTableName rank, " AS (\n    SELECT ", base, ".*,\n        ", s.effectiveParent,
        " AS ", parentColumn, number, "\n    FROM ", baseName, " ", base, "\n    LEFT JOIN ", baseName, " P ON P.",
        s.quote s.relation.key, " = ", base, ".", s.quote s.relation.parent, "\n)"]) :=
    (Joined.words (isWords_scopeTableName rank) (.words (by decide) (.words (by decide) (.words (by decide)
      (.text named.isSpelled_effectiveParent (by decide) (.words (by decide) (.text inside (by decide)
        (.words (by decide) (.words (by decide) (.words (by decide) (.words (by decide) (.words (by decide)
          (.words (by decide) (.text named.isSpelled_key (by decide) (.words (by decide) (.words (by decide)
            (.text named.isSpelled_parent (by decide) .nil))))))))))))))))).written
  cases rank with
  | none => exact framed (isSpelled_words (w := "") (by decide))
  | some terms =>
    exact framed (Joined.words (by decide) (.text named.isSpelled_effectiveParent (by decide)
      (.text (SiblingOrder.isSpelled_termsText named.clean (named.rank filter terms scope)) (by decide)
        (.words (by decide) .nil)))).written

theorem isSpelled_sourceText (named : s.IsNamed names) : IsSpelled names s.sourceText := by
  unfold sourceText
  split
  · exact named.isSpelled_table
  · exact isSpelled_words (isWords_scopeTableName _)

theorem isSpelled_parentText (named : s.IsNamed names) : IsSpelled names s.parentText := by
  unfold parentText
  split
  · exact named.isSpelled_parent
  · exact isSpelled_words (by decide)

theorem isSpelled_rootText (named : s.IsNamed names) : IsSpelled names s.rootText := by
  unfold rootText
  split
  · have parent : IsSpelled names (String.join [source, ".", s.quote s.relation.parent]) :=
      (Joined.words (by decide) (.words (by decide) (.last named.isSpelled_parent))).written
    exact (Joined.text parent (by decide) (.text named.isSpelled_table (by decide) (.words (by decide)
      (.words (by decide) (.words (by decide) (.words (by decide) (.text named.isSpelled_key (by decide)
        (.text parent (by decide) .nil)))))))).written
  · exact isSpelled_words (by decide)

theorem isWords_ofTree {column : String} (words : isWords column = true) : isWords (ofTree column) = true := by
  rw [ofTree, isWords_join, List.all_cons, List.all_cons, List.all_cons, words]
  decide

theorem isSpelled_columns (named : s.IsNamed names) : ∀ column ∈ s.columns, IsSpelled names column := by
  rw [columns, List.forall_mem_append, List.forall_mem_map]
  refine ⟨?_, fun a member => isSpelled_words (named.ancestors a member).1⟩
  simp only [List.forall_mem_cons]
  exact ⟨isSpelled_words (by decide), isSpelled_words (by decide), isSpelled_words (by decide),
    isSpelled_words (by decide), List.forall_mem_nil _⟩

theorem isSpelled_anchor (named : s.IsNamed names) : ∀ column ∈ s.anchor, IsSpelled names column := by
  rw [anchor, List.forall_mem_append, List.forall_mem_map]
  refine ⟨?_, fun a member => Encoding.isSpelled_start named.clean (named.ancestors a member).2⟩
  simp only [List.forall_mem_cons]
  exact ⟨isSpelled_words (by decide), Encoding.isSpelled_start named.clean named.path,
    Encoding.isSpelled_start named.clean named.ordering, named.isSpelled_sourceKey, List.forall_mem_nil _⟩

theorem isSpelled_step (named : s.IsNamed names) : ∀ column ∈ s.step, IsSpelled names column := by
  rw [step, List.forall_mem_append, List.forall_mem_map]
  have depth : isWords (String.join [ofTree depthColumn, " + 1"]) = true := by decide
  refine ⟨?_, fun a member => Encoding.isSpelled_extend named.clean (named.ancestors a member).2
    (isWords_ofTree (named.ancestors a member).1)⟩
  simp only [List.forall_mem_cons]
  exact ⟨isSpelled_words depth,
    Encoding.isSpelled_depthGuard depth (Encoding.isSpelled_extend named.clean named.path (by decide)),
    Encoding.isSpelled_extend named.clean named.ordering (by decide), named.isSpelled_sourceKey, List.forall_mem_nil _⟩

theorem isSpelled_treeText (named : s.IsNamed names) : IsSpelled names s.treeText := by
  have body {columns : List String} (each : ∀ column ∈ columns, IsSpelled names column) :
      IsSpelled names (String.join ["    SELECT\n        ", String.intercalate ",\n        " columns, "\n    FROM ",
        s.sourceText, " ", source]) :=
    (Joined.words (by decide) (.text (isSpelled_list (by decide) each) (by decide)
      (.text named.isSpelled_sourceText (by decide) (.words (by decide) .nil)))).written
  exact (Joined.words (by decide) (.words (by decide) (.text (isSpelled_list (by decide) named.isSpelled_columns)
    (by decide) (.text (body named.isSpelled_anchor) (by decide) (.text named.isSpelled_rootText (by decide)
      (.text (body named.isSpelled_step) (by decide) (.words (by decide) (.words (by decide) (.words (by decide)
        (.words (by decide) (.text named.isSpelled_parentText (by decide) (.words (by decide) (.words (by decide)
          (.words (by decide) (.words (by decide) (.words (isWords_toString _) (.words (by decide)
            .nil))))))))))))))))).written

theorem isSpelled_selected (named : s.IsNamed names) : ∀ column ∈ s.selected, IsSpelled names column := by
  rw [selected, List.forall_mem_append, List.forall_mem_append, List.forall_mem_map, List.forall_mem_map]
  refine ⟨⟨?_, fun a member => isSpelled_words (isWords_ofTree (named.ancestors a member).1)⟩, fun f member => ?_⟩
  · simp only [List.forall_mem_cons]
    exact ⟨isSpelled_words (by decide), isSpelled_words (by decide), isSpelled_words (by decide), List.forall_mem_nil _⟩
  · have known : f.name ∈ s.relation.names := List.mem_cons_of_mem _ (List.mem_map_of_mem member)
    exact (Joined.words (by decide) (.words (by decide) (.last (named.isSpelled_quote known)))).written

theorem isSpelled_sortText (named : s.IsNamed names) {column : String} (words : isWords column = true) :
    IsSpelled names (s.sortText column) := by
  rw [sortText]
  split
  · exact isSpelled_words words
  · exact Dialect.isSpelled_byteOrder named.collation (isSpelled_words words)

theorem isSpelled_resultText (named : s.IsNamed names) : IsSpelled names s.resultText := by
  have sorted {column : String} (words : isWords column = true) := named.isSpelled_sortText words
  rw [resultText]
  exact (Joined.words (by decide) (.text (isSpelled_list (by decide) named.isSpelled_selected) (by decide)
    (.text named.isSpelled_table (by decide) (.words (by decide) (.words (by decide) (.words (by decide)
      (.words (by decide) (.words (by decide) (.words (by decide) (.words (by decide) (.words (by decide)
        (.text named.isSpelled_key (by decide) (.text (sorted (by decide)) (by decide)
          (.last (sorted (by decide)))))))))))))))).written

/-- A statement with a filter has its placeholders in the part that filters. -/
theorem text_eq_of_filtered {filter : Clauses} {rank : Option (List SortTerm)}
    (scope : s.scope = .filtered filter rank) :
    s.text = String.join ["WITH RECURSIVE ", s.baseText filter,
      String.join [",\n", s.scopeText rank, ",\n", s.treeText, "\n", s.resultText]] := by
  apply String.toList_injective
  simp [text, parts, scope]

theorem isSpelled_rest (named : s.IsNamed names) {filter : Clauses} {rank : Option (List SortTerm)}
    (scope : s.scope = .filtered filter rank) :
    IsSpelled names (String.join [",\n", s.scopeText rank, ",\n", s.treeText, "\n", s.resultText]) :=
  (Joined.words (by decide) (.text (named.isSpelled_scopeText scope) (by decide) (.text named.isSpelled_treeText
    (by decide) (.last named.isSpelled_resultText)))).written

/-- The placeholders of a statement are those of its values. -/
theorem written_text (named : s.IsNamed names) : Written true (IsQuotable names) s.text.toList
    (s.encoding.dialect.placeholdersBehind 0 s.params.length) := by
  cases scope : s.scope with
  | table =>
    have none : s.params = [] := by simp only [params, scope]
    have single : s.parts = [s.treeText] := by simp only [parts, scope]
    rw [none, text, single]
    exact (Joined.words (by decide) (.text (isSpelled_list (by decide) (List.forall_mem_singleton.mpr
      named.isSpelled_treeText)) (by decide) (.last named.isSpelled_resultText))).written
  | filtered filter rank =>
    have bound : s.params = filter.values := by simp only [params, scope]
    have base := named.written_baseText scope
    have rest := named.isSpelled_rest scope
    have apart : IsApart (String.join [",\n", s.scopeText rank, ",\n", s.treeText, "\n", s.resultText]).toList := by
      rw [String.toList_join]
      exact isApart_of_separates (w := ",\n") (by decide) _
    have whole := (base.append rest apart).words_append (w := "WITH RECURSIVE ") (by decide)
    rw [text_eq_of_filtered scope, bound]
    simpa [String.toList_join] using whole

end IsNamed

end Statement

namespace SiblingOrder

variable {o : SiblingOrder} {source : String}

/-- Whether an order sorts by columns of these names. -/
structure IsNamed (names : List String) (o : SiblingOrder) : Prop where
  key : o.key ∈ names
  fields : ∀ f ∈ o.fields, f.field ∈ names

theorem refersTo_rankTerms (named : o.IsNamed names) (words : isWords source = true) :
    ∀ t ∈ o.rankTerms source, t.RefersTo names := by
  rw [rankTerms, List.forall_mem_append]
  refine ⟨fun t member => ?_, fun t member => ?_⟩
  · obtain ⟨f, inFields, inTerms⟩ := List.mem_flatMap.mp member
    have column : (Expr.reference (.column source f.field)).RefersTo names := ⟨words, named.fields f inFields⟩
    rw [fieldTerms] at inTerms
    split at inTerms
    · rw [List.mem_singleton.mp inTerms]
      exact column
    · rcases List.mem_pair.mp inTerms with rfl | rfl <;> exact column
  · split at member
    · cases member
    · rw [List.mem_singleton.mp member]
      exact ⟨words, named.key⟩

theorem refersTo_levelExpr {f : SortField} (known : f.field ∈ names) (words : isWords source = true) :
    (f.levelExpr source).RefersTo names := by
  have column : (Expr.reference (.column source f.field)).RefersTo names := ⟨words, known⟩
  rcases f.levelExpr_cases source with plain | ⟨-, mirrored⟩
  · rw [plain]
    exact column
  · rw [mirrored]
    exact column

end SiblingOrder

theorem AncestorField.isWords_column {r : Relation} {index : Nat} {request : List (String × String)}
    {as : List AncestorField} (checked : checkAll r index request = .ok as) : ∀ a ∈ as, isWords a.column = true := by
  intro a member
  have numbered : a.column ∈ as.map column := List.mem_map_of_mem member
  rw [map_column_of_checkAll checked, List.mem_map] at numbered
  obtain ⟨i, -, named⟩ := numbered
  rw [← named, columnName, isWords_join, List.all_cons, List.all_cons, isWords_toString]
  decide

/-- A filter that can be asked asks about columns of the relation. -/
theorem PreFilter.IsAskable.mem_names {r : Relation} {f : PreFilter} (askable : f.IsAskable r) {t : Term}
    {name : String} (member : t ∈ f.clauses.terms) (column : t.column? = some name) : name ∈ r.names := by
  rw [terms_clauses, List.mem_map] at member
  obtain ⟨c, asked, rfl⟩ := member
  rw [← Condition.column?_term column]
  exact Relation.mem_names_of_fieldType? (askable.conditions c asked).1

/-- A checked filter asks about columns of its relation. -/
theorem Compiler.mem_names_of_checkFilter {r : Relation} {filter : Option PreFilter} {clauses : Clauses}
    (checked : checkFilter r filter = .ok clauses) {t : Term} {name : String} (member : t ∈ clauses.terms)
    (column : t.column? = some name) : name ∈ r.names := by
  obtain ⟨askable, rfl⟩ := checkFilter_eq_ok_iff.mp checked
  cases given : filter with
  | none =>
    rw [given] at member
    cases member
  | some f =>
    rw [given] at member
    exact (askable f given).mem_names member column

namespace Compiler

variable {c : Compiler} {q : Request} {out : Compiled} {order : SiblingOrder} {ancestors : List AncestorField}
  {key : KeySource}

/-- Siblings are sorted by columns of the relation. -/
theorem isNamed_order (compiles : c.Compiles q out order ancestors key) : order.IsNamed c.relation.names := by
  have resolves := SiblingOrder.resolves compiles.resolved
  refine ⟨by simp [resolves.key, Relation.names, Relation.columns], fun f member => ?_⟩
  have known := Relation.requireField_eq_ok_iff.mp (resolves.typed f member)
  exact Relation.mem_names_of_fieldType? (by rw [known]; rfl)

theorem refersTo_keySource {ranked : Bool} (named : order.IsNamed names) (made : c.keySource order ranked = .ok key) :
    ∀ p ∈ key.parts, p.expr.RefersTo names :=
  forall_parts_of_keySource made ⟨by decide, by decide⟩ ⟨by decide, named.key⟩ fun f member _ =>
    SiblingOrder.refersTo_levelExpr (named.fields f member) (by decide)

/-- What is walked over below a filter comes from the checked filter and the order of siblings. -/
theorem filtered_cases (compiles : c.Compiles q out order ancestors key) {filter : Clauses}
    {rank : Option (List SortTerm)} (scope : out.statement.scope = .filtered filter rank) :
    checkFilter c.relation q.filter = .ok filter ∧
      rank = if out.ranked then some (order.rankTerms Statement.base) else none := by
  obtain ⟨-, table⟩ | ⟨-, clauses, checked, shape⟩ := scope_cases compiles
  · rw [table] at scope
    cases scope
  · rw [shape] at scope
    cases scope
    exact ⟨checked, rfl⟩

/-- A compiled statement refers to the names of its relation only. -/
theorem isNamed_of_compiles (compiles : c.Compiles q out order ancestors key)
    (clean : ∀ name ∈ c.relation.names, isWords name = true) : out.statement.IsNamed ("C" :: c.relation.names) := by
  have own : c.relation.key ∈ "C" :: c.relation.names := by simp [Relation.names, Relation.columns]
  have known {name : String} (inRelation : name ∈ c.relation.names) : name ∈ "C" :: c.relation.names :=
    List.mem_cons_of_mem _ inRelation
  have sorts : order.IsNamed ("C" :: c.relation.names) :=
    ⟨known (isNamed_order compiles).key, fun f member => known ((isNamed_order compiles).fields f member)⟩
  exact {
    clean := List.forall_mem_cons.mpr ⟨by decide, clean⟩
    collation := List.mem_cons_self
    relation := fun name member => by
      rw [compiles.relation] at member
      exact known member
    path := Encoding.refersTo_element compiles.path (List.forall_mem_singleton.mpr ⟨by decide, own⟩)
    ordering := Encoding.refersTo_element compiles.ordering (refersTo_keySource sorts compiles.keyed)
    ancestors := fun a member => by
      obtain ⟨_, asked, rfl, made⟩ := Outcome.exists_of_mem_right compiles.elements member
      obtain ⟨-, -, -, typed, -⟩ :=
        Outcome.exists_of_mem_right (AncestorField.forall₂_of_checkAll compiles.collected) asked
      have source : a.1.source ∈ c.relation.names := Relation.mem_names_of_fieldType? (by rw [typed]; rfl)
      exact ⟨AncestorField.isWords_column compiles.collected _ asked,
        Encoding.refersTo_element made (List.forall_mem_singleton.mpr ⟨by decide, known source⟩)⟩
    filter := fun filter rank scope t member name column =>
      known (mem_names_of_checkFilter (filtered_cases compiles scope).1 member column)
    rank := fun filter terms scope t member => by
      obtain ⟨-, shape⟩ := filtered_cases compiles scope
      split at shape
      · cases shape
        exact SiblingOrder.refersTo_rankTerms sorts (by decide) t member
      · cases shape }

end Compiler

end ForestQuery
