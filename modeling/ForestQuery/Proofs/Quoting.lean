import ForestQuery.Proofs.Json.RoundTrip
import ForestQuery.Proofs.Statement
/-!
Names in statements. Main statement: a statement has each name of its relation in quotes, and if all of them are
identifiers it has nothing else in quotes than these and texts without quotes; relations that are declared have
identifiers only, while relations that are read may have any names.
-/

namespace ForestQuery

open Text Text.Mark

theorem infix_join {part : String} {parts : List String} (member : part ∈ parts) :
    part.toList <:+: (String.join parts).toList := by
  rw [String.toList_join, List.flatMap_def]
  exact List.infix_of_mem_flatten (List.mem_map_of_mem member)

theorem infix_intercalate {part sep : String} {parts : List String} (member : part ∈ parts) :
    part.toList <:+: (String.intercalate sep parts).toList := by
  rw [String.toList_intercalate]
  induction parts with
  | nil => cases member
  | cons first rest ih =>
    cases rest with
    | nil =>
      obtain rfl := List.mem_singleton.mp member
      exact List.intercalate_singleton.symm ▸ List.infix_rfl
    | cons second others =>
      rw [List.map_cons, List.map_cons, List.intercalate_cons_cons, List.append_assoc]
      rcases List.mem_cons.mp member with rfl | later
      · exact (List.prefix_append _ _).isInfix
      · exact ((ih later).trans (List.suffix_append _ _).isInfix).trans (List.suffix_append _ _).isInfix

/-- A statement has each name of its relation in quotes. -/
theorem Statement.infix_quote (s : Statement) {name : String} (known : name ∈ s.relation.names) :
    (s.quote name).toList <:+: s.text.toList := by
  have inResult : (s.quote name).toList <:+: s.resultText.toList := by
    rw [resultText]
    rcases List.mem_cons.mp known with rfl | isColumn
    · exact infix_join (by simp only [List.mem_cons, true_or, or_true])
    · obtain ⟨f, member, rfl⟩ := List.mem_map.mp isColumn
      have column : (s.quote f.name).toList <:+: (String.join [result, ".", s.quote f.name]).toList :=
        infix_join (by simp only [List.mem_cons, true_or, or_true])
      have selected : String.join [result, ".", s.quote f.name] ∈ s.selected := by
        rw [selected, List.mem_append, List.mem_map]
        exact Or.inr ⟨f, member, rfl⟩
      have list : (s.quote f.name).toList <:+: (String.intercalate ", " s.selected).toList :=
        column.trans (infix_intercalate selected)
      exact list.trans (infix_join (by simp only [List.mem_cons, true_or, or_true]))
  rw [text]
  exact inResult.trans (infix_join (by simp only [List.mem_cons, true_or, or_true]))

namespace Compiler

/-- A statement has each name of its relation in quotes, whatever the name is. If the names are identifiers, the quotes
of the statement can be read, there are no quotes inside of them, and in quotes for names there is nothing but these
names and that of the collation. The names of a declared relation are identifiers. But every relation is read from
some text, whether or not its names are. -/
theorem names_in_quotes {c : Compiler} {q : Request} {out : Compiled} (compiled : c.compile q = .ok out) :
    (∀ name ∈ c.relation.names, (c.config.dialect.quote name).toList <:+: out.statement.text.toList) ∧
    ((∀ name ∈ c.relation.names, Identifier.isIdentifier name = true) →
      ∃ ms, marks? out.statement.text.toList = some ms ∧ ∀ quote content, .quoted quote content ∈ ms →
        (∀ x ∈ content, isQuote x = false) ∧
          (quote = '\'' ∨
            ∃ name ∈ "C" :: c.relation.names, Identifier.isIdentifier name = true ∧ name.toList = content)) ∧
    (c.relation.IsDeclared → ∀ name ∈ c.relation.names, Identifier.isIdentifier name = true) ∧
    ∃ document, (Json.ofText? document).bind Relation.ofJson? = some c.relation := by
  obtain ⟨order, ancestors, key, compiles⟩ := compile_eq_ok compiled
  refine ⟨fun name known => ?_, fun identifiers => ?_, fun declared => declared.isIdentifier,
    _, c.relation.ofJson?_ofText?⟩
  · have spliced := out.statement.infix_quote (compiles.relation.symm ▸ known)
    rwa [Statement.quote, compiles.encoding] at spliced
  · have named := isNamed_of_compiles compiles fun name known =>
      Identifier.isWords_of_isIdentifier (identifiers name known)
    obtain ⟨ms, scanned, -, quotable⟩ := named.written_text.marks
    refine ⟨ms, scanned, fun quote content member => ?_⟩
    obtain ⟨clean, isText | ⟨name, known, same⟩⟩ := quotable quote content member
    · exact ⟨fun x inside => (clean x inside).1, Or.inl isText⟩
    · refine ⟨fun x inside => (clean x inside).1, Or.inr ⟨name, known, ?_, same⟩⟩
      rcases List.mem_cons.mp known with rfl | ofRelation
      · decide
      · exact identifiers name ofRelation

theorem names_in_quotes_nodes : ∃ r out, r.IsDeclared ∧ (Compiler.mk r .default false).compile .empty = .ok out ∧
    "\"nodes\"".toList <:+: out.statement.text.toList ∧
    ∃ ms, marks? out.statement.text.toList = some ms ∧ ∀ content, .quoted '"' content ∈ ms →
      Identifier.isIdentifier (String.ofList content) = true := by
  have declared : (Relation.mk "nodes" "id" .integer "parent_id" []).IsDeclared :=
    ⟨"nodes", "id", .integer, [], by decide +kernel⟩
  have checks : ((Compiler.mk ⟨"nodes", "id", .integer, "parent_id", []⟩ .default false).compile
      .empty).toOption.any (fun _ => true) = true := by
    decide
  obtain ⟨out, compiled, -⟩ := Outcome.exists_of_any checks
  obtain ⟨spliced, quoted, identifiers, -⟩ := names_in_quotes compiled
  obtain ⟨ms, read, known⟩ := quoted (identifiers declared)
  refine ⟨_, out, declared, compiled, spliced "nodes" List.mem_cons_self, ms, read, fun content member => ?_⟩
  obtain ⟨-, isText | ⟨name, -, identifier, rfl⟩⟩ := known _ content member
  · cases isText
  · rwa [String.ofList_toList]

/-- A table whose name closes the quotes that it is put in. -/
def closingTable : Relation := ⟨"x\"; DROP TABLE y; --", "id", .integer, "parent_id", []⟩

/-- A compiler of a relation that is read puts names into statements that are no identifiers, and whose quotes end
before they do. -/
theorem closed_quotes : ∃ document r c out, (Json.ofText? document).bind Relation.ofJson? = some r ∧
    Compiler.new r .default = .ok c ∧ c.compile .empty = .ok out ∧ Identifier.isIdentifier r.table = false ∧
    (c.config.dialect.quote r.table).toList <:+: out.statement.text.toList ∧
    marks? (c.config.dialect.quote r.table).toList = none := by
  have checks : ((Compiler.mk closingTable .default false).compile .empty).toOption.any (fun _ => true) = true := by
    decide
  obtain ⟨out, compiled, -⟩ := Outcome.exists_of_any checks
  obtain ⟨order, ancestors, key, compiles⟩ := compile_eq_ok compiled
  have known : closingTable.table ∈ out.statement.relation.names := compiles.relation.symm ▸ List.mem_cons_self
  have spliced := out.statement.infix_quote known
  rw [Statement.quote, compiles.encoding] at spliced
  exact ⟨_, closingTable, _, out, closingTable.ofJson?_ofText?, rfl, compiled, by decide, spliced, by decide⟩

end Compiler

end ForestQuery
