import ForestQuery.Proofs.Relation
import ForestQuery.Proofs.Result
import ForestQuery.Store
/-!
Names that statements make up beside the names that they are given. Main statement: no column of a declared relation has
the name of a column that a statement adds to its rows, so that both are found by their names; but a table may have the
name of a part of the statement, which then hides it.
-/

namespace ForestQuery

open Identifier

theorem Identifier.sameName_self (name : String) : sameName name name = true := beq_self_eq_true _

theorem Identifier.prefix_lower {beginning name : String} (begins : beginning.toList <+: name.toList) :
    (lower beginning).toList <+: (lower name).toList := by
  rw [toList_lower, toList_lower]
  exact begins.map _

/-- A column has no name that begins like those that statements keep for themselves. -/
theorem Relation.IsColumnName.sameName_eq_false {name other : String} (column : IsColumnName name) (beginning : String)
    (reserved : beginning ∈ reservedBeginnings) (begins : beginning.toList <+: other.toList) :
    sameName name other = false := by
  rw [sameName, beq_eq_false_iff_ne]
  intro same
  exact column.apart beginning reserved (same ▸ prefix_lower begins)

/-- A row of the scope as a row source: the columns of the table, and behind them those that the statement adds. -/
def ScopeRow.cells (r : ScopeRow) : List (String × Value) :=
  (r.record.cells.map fun c => (c.1.name, c.2)) ++
    [(Statement.parentColumn, r.parent), (SiblingOrder.rankColumn, r.rank)]

/-- What a name stands for in a row source. -/
def ScopeRow.lookup? (r : ScopeRow) (name : String) : Option Value :=
  (r.cells.find? fun c => sameName c.1 name).map Prod.snd

namespace Statement

/-- The columns that statements add to the rows they read, but for those of ancestor fields. -/
def ownColumns : List String :=
  [SiblingOrder.rankColumn, parentColumn, depthColumn, pathColumn, orderingColumn, keyColumn]

/-- The columns that a statement adds to the rows it reads. -/
def addedColumns (s : Statement) : List String :=
  (match s.scope with
    | .table => []
    | .filtered _ none => [parentColumn]
    | .filtered _ (some _) => [parentColumn, SiblingOrder.rankColumn]) ++ s.columns

/-- Whether a part of the statement hides a table. -/
def Hides (s : Statement) (table : String) : Prop := ∃ name ∈ s.partNames, sameName table name = true

end Statement

section Columns

variable {relation : Relation} (declared : relation.IsDeclared)

include declared

theorem Relation.IsDeclared.isColumnName : ∀ f ∈ relation.columns, IsColumnName f.name := by
  obtain ⟨table, key, keyType, steps, built⟩ := declared
  exact (isWellNamed_of_build built).columns

theorem Relation.IsDeclared.ownColumns_apart {f : Field} (member : f ∈ relation.columns) :
    ∀ name ∈ Statement.ownColumns, sameName f.name name = false := by
  have column := declared.isColumnName f member
  have begins : ∀ name ∈ Statement.ownColumns.tail, "tree_".toList <+: name.toList := by decide
  rintro name (_ | ⟨_, generated⟩)
  · exact column.unreserved SiblingOrder.rankColumn (by decide)
  · exact column.sameName_eq_false "tree_" (by decide) (begins name generated)

theorem Relation.IsDeclared.columnName_apart {f : Field} (member : f ∈ relation.columns) (i : Nat) :
    sameName f.name (AncestorField.columnName i) = false := by
  refine (declared.isColumnName f member).sameName_eq_false "tf_" (by decide) ?_
  rw [AncestorField.toList_columnName]
  exact List.prefix_append _ _

variable {r : ScopeRow} (shape : r.record.cells.map (fun cell => cell.1.name) = relation.columns.map Field.name)

include shape

/-- A column that the statement adds is found under its name. -/
theorem ScopeRow.lookup?_generated (source : String) {name : String}
    (generated : name ∈ [Statement.parentColumn, SiblingOrder.rankColumn]) :
    r.lookup? name = some (r.env (.generated source name)) := by
  have own : name ∈ Statement.ownColumns := by
    revert name
    decide
  have absent : ((r.record.cells.map fun c => (c.1.name, c.2)).find? fun c => sameName c.1 name) = none := by
    rw [List.find?_eq_none, List.forall_mem_map]
    intro cell member
    have known : cell.1.name ∈ relation.columns.map Field.name := shape ▸ List.mem_map_of_mem member
    obtain ⟨f, inRelation, same⟩ := List.mem_map.mp known
    rw [← same, declared.ownColumns_apart inRelation name own]
    exact Bool.false_ne_true
  rw [lookup?, cells, List.find?_append, absent, Option.none_or]
  simp only [List.mem_cons, List.not_mem_nil, or_false] at generated
  rcases generated with rfl | rfl
  · simp only [List.find?_cons, sameName_self, Option.map_some]
    rfl
  · have other : sameName Statement.parentColumn SiblingOrder.rankColumn = false :=
      sameName_eq_false_iff.mpr (by decide)
    simp only [List.find?_cons, other, sameName_self, Option.map_some]
    rfl

omit declared in
/-- A column of the relation is found under its name. -/
theorem ScopeRow.lookup?_column (source : String) {f : Field} (member : f ∈ relation.columns) :
    r.lookup? f.name = some (r.env (.column source f.name)) := by
  have known : f.name ∈ r.record.cells.map fun cell => cell.1.name := shape ▸ List.mem_map_of_mem member
  obtain ⟨cell, inRow, same⟩ := List.mem_map.mp known
  have isSome : (r.record.cell? f.name).isSome := by
    rw [Record.cell?, List.find?_isSome]
    exact ⟨cell, inRow, same ▸ sameName_self _⟩
  obtain ⟨found, foundOk⟩ := Option.isSome_iff_exists.mp isSome
  have front : ((r.record.cells.map fun c => (c.1.name, c.2)).find? fun c => sameName c.1 f.name) =
      some (found.1.name, found.2) := by
    rw [List.find?_map]
    exact congrArg (Option.map _) foundOk
  rw [lookup?, cells, List.find?_append, front, Option.some_or, Option.map_some, env, Record.value, foundOk]

end Columns

namespace Store

variable {s : Store} {out : Compiled}

theorem canRead_iff {t : Table} : canRead out.statement t = true ↔
    (∀ f ∈ out.statement.relation.columns, canReadName out.statement t f.name = true) ∧
      ¬ out.statement.Hides out.statement.relation.table := by
  rw [canRead, Bool.and_eq_true, List.all_eq_true, Bool.not_eq_true', Bool.eq_false_iff, ne_eq, List.any_eq_true,
    Statement.Hides]

theorem run_of_hides (hides : out.statement.Hides out.statement.relation.table) : s.run out = .error .store := by
  rw [run]
  cases s.database.readable? s.relation.table with
  | none => rfl
  | some t => exact if_neg fun read => (canRead_iff.mp read).2 hides

theorem run_of_not_hides {t : Table} (visible : ¬ out.statement.Hides out.statement.relation.table)
    (readable : s.database.readable? s.relation.table = some t)
    (columns : ∀ f ∈ out.statement.relation.columns, canReadName out.statement t f.name = true) :
    s.run out = (out.statement.run t.records).mapError (Failure.ofRaised out.maxDepth) := by
  rw [run, readable]
  simp only [canRead_iff.mpr ⟨columns, visible⟩, if_true]
  cases out.statement.run t.records <;> rfl

end Store

namespace Compiler

variable {c : Compiler} {q : Request} {out : Compiled} {order : SiblingOrder} {ancestors : List AncestorField}
  {key : KeySource}

theorem mem_addedColumns (compiles : c.Compiles q out order ancestors key) {name : String}
    (added : name ∈ out.statement.addedColumns) :
    name ∈ Statement.ownColumns ∨ ∃ i < q.ancestorFields.toList.length, name = AncestorField.columnName i := by
  rw [Statement.addedColumns, Statement.columns, map_column_ancestors compiles, List.mem_append, List.mem_append] at added
  rcases added with ofScope | first | ofAncestor
  · left
    revert ofScope
    split
    · exact fun absurdly => absurd absurdly List.not_mem_nil
    · rw [List.mem_singleton]
      rintro rfl
      decide
    · simp only [List.mem_cons, List.not_mem_nil, or_false]
      rintro (rfl | rfl) <;> decide
  · exact Or.inl (List.mem_cons_of_mem _ (List.mem_cons_of_mem _ first))
  · obtain ⟨i, inRange, rfl⟩ := List.mem_map.mp ofAncestor
    exact Or.inr ⟨i, List.mem_range.mp inRange, rfl⟩

/-- The parts that a plan is made of. -/
theorem partNames_eq (compiles : c.Compiles q out order ancestors key) : out.statement.partNames =
    match out.strategy with
    | .simple => [Statement.treeName]
    | .general =>
      [Statement.baseName, if out.ranked then Statement.rankName else Statement.scopeName, Statement.treeName] := by
  obtain ⟨simple, shape⟩ | ⟨general, filter, -, shape⟩ := scope_cases compiles
  · rw [simple, Statement.partNames, shape]
  · rw [general, Statement.partNames, shape]
    cases out.ranked <;> rfl

theorem hides_iff (compiles : c.Compiles q out order ancestors key) (table : String) :
    out.statement.Hides table ↔ lower table = Statement.treeName ∨ (out.strategy = .general ∧
      (lower table = Statement.baseName ∨
        lower table = if out.ranked then Statement.rankName else Statement.scopeName)) := by
  have lowered : lower Statement.treeName = Statement.treeName ∧ lower Statement.baseName = Statement.baseName ∧
      ∀ ranked : Bool, lower (if ranked then Statement.rankName else Statement.scopeName) =
        if ranked then Statement.rankName else Statement.scopeName := by
    simp only [lower_eq_iff]
    decide
  obtain ⟨tree, base, scope⟩ := lowered
  rw [Statement.Hides, partNames_eq compiles]
  cases out.strategy with
  | simple => simp [sameName, tree]
  | general =>
    simp only [List.exists_mem_cons_iff, List.not_mem_nil, false_and, exists_const, or_false, sameName, beq_iff_eq, tree,
      base, scope, true_and]
    tauto

/-- No column of a declared relation has, in any case of its letters, the name of a column that statements add to rows,
whatever the number of ancestor fields; columns of either kind are found by their names. The table of a relation has the
name of a part of the statement exactly if it is called like one of those of the plan. A store fails then; else it reads
the table. -/
theorem names_apart (declared : c.relation.IsDeclared) (compiled : c.compile q = .ok out) :
    (∀ f ∈ c.relation.columns, (∀ name ∈ Statement.ownColumns, sameName f.name name = false) ∧
      ∀ i, sameName f.name (AncestorField.columnName i) = false) ∧
    (∀ name ∈ out.statement.addedColumns,
      name ∈ Statement.ownColumns ∨ ∃ i < q.ancestorFields.toList.length, name = AncestorField.columnName i) ∧
    (∀ r : ScopeRow, r.record.cells.map (fun cell => cell.1.name) = c.relation.columns.map Field.name → ∀ source,
      (∀ f ∈ c.relation.columns, r.lookup? f.name = some (r.env (.column source f.name))) ∧
      ∀ name ∈ [Statement.parentColumn, SiblingOrder.rankColumn],
        r.lookup? name = some (r.env (.generated source name))) ∧
    (out.statement.partNames = match out.strategy with
      | .simple => [Statement.treeName]
      | .general =>
        [Statement.baseName, if out.ranked then Statement.rankName else Statement.scopeName, Statement.treeName]) ∧
    (out.statement.Hides c.relation.table ↔ lower c.relation.table = Statement.treeName ∨ (out.strategy = .general ∧
      (lower c.relation.table = Statement.baseName ∨
        lower c.relation.table = if out.ranked then Statement.rankName else Statement.scopeName))) ∧
    ∀ s : Store, s.compiler = c →
      (out.statement.Hides c.relation.table → s.run out = .error .store) ∧
      (¬ out.statement.Hides c.relation.table → ∀ t, s.database.readable? c.relation.table = some t →
        (∀ f ∈ c.relation.columns, Store.canReadName out.statement t f.name = true) →
        s.run out = (out.statement.run t.records).mapError (Failure.ofRaised out.maxDepth)) := by
  obtain ⟨order, ancestors, key, compiles⟩ := compile_eq_ok compiled
  refine ⟨fun f member => ⟨declared.ownColumns_apart member, declared.columnName_apart member⟩,
    fun name added => mem_addedColumns compiles added,
    fun r shape source => ⟨fun f member => ScopeRow.lookup?_column shape source member,
      fun name generated => ScopeRow.lookup?_generated declared shape source generated⟩,
    partNames_eq compiles, hides_iff compiles _, fun s same => ?_⟩
  subst same
  have own : out.statement.relation = s.relation := compiles.relation
  exact ⟨fun hides => Store.run_of_hides (own ▸ hides), fun visible t readable columns =>
    Store.run_of_not_hides (own ▸ visible) readable (own ▸ columns)⟩

theorem names_apart_filtered : ∃ r out, r.IsDeclared ∧ (Compiler.mk r .default false).compile
      (Request.empty.keeping [⟨"NAME", .notNull, []⟩]) = .ok out ∧
    (∀ f ∈ r.columns, sameName f.name (AncestorField.columnName 1000) = false) ∧
    out.statement.partNames = ["__tree_base", "__rank_table", "__tree"] ∧ ¬ out.statement.Hides r.table := by
  have declared : (Relation.mk "__Tree_Scope" "id" .integer "parent_id" [⟨"NAME", .text⟩]).IsDeclared :=
    ⟨"__Tree_Scope", "id", .integer, [.field "NAME" .text], by decide +kernel⟩
  have checks : ((Compiler.mk ⟨"__Tree_Scope", "id", .integer, "parent_id", [⟨"NAME", .text⟩]⟩ .default false).compile
      (Request.empty.keeping [⟨"NAME", .notNull, []⟩])).toOption.any
      (fun out => out.strategy == .general && out.ranked) = true := by
    decide
  obtain ⟨out, compiled, plan⟩ := Outcome.exists_of_any checks
  rw [Bool.and_eq_true, beq_iff_eq] at plan
  obtain ⟨columns, -, -, parts, hides, -⟩ := names_apart declared compiled
  rw [plan.1, plan.2] at parts hides
  refine ⟨_, out, declared, compiled, fun f member => (columns f member).2 1000, parts, ?_⟩
  rw [hides]
  simp only [lower_eq_iff]
  decide

/-- A table may have the name of the recursion, and is then never read. -/
theorem table_hidden : ∃ r out, Relation.build "__tree" "id" .integer [] = .ok r ∧
    (Compiler.mk r .default false).compile .empty = .ok out ∧
    (∃ name ∈ out.statement.partNames, sameName r.table name = true) ∧ ∀ s : Store, s.run out = .error .store := by
  have checks : ((Compiler.mk ⟨"__tree", "id", .integer, "parent_id", []⟩ .default false).compile .empty).toOption.any
      (fun out => out.statement.relation.table == "__tree" && out.statement.partNames == ["__tree"]) = true := by
    decide
  obtain ⟨out, compiled, plan⟩ := Outcome.exists_of_any checks
  rw [Bool.and_eq_true, beq_iff_eq, beq_iff_eq] at plan
  have hides : out.statement.Hides "__tree" :=
    ⟨"__tree", plan.2 ▸ List.mem_cons_self, sameName_self "__tree"⟩
  exact ⟨_, out, by decide +kernel, compiled, hides, fun s => Store.run_of_hides (plan.1.symm ▸ hides)⟩

end Compiler

end ForestQuery
