import ForestQuery.AncestorField
import ForestQuery.Filter
import ForestQuery.SiblingOrder
/-!
A traversal as one recursive statement: what it reads, what it accumulates along each path, and its
text in the dialect. The text is made of parts that are also given meaning as data.
-/

namespace ForestQuery

/-- The rows that a traversal walks over. -/
inductive Scope where
  /-- The table itself. -/
  | table
  /-- The rows that pass a filter, with their parents among these, and numbered among their siblings
  if there are criteria. -/
  | filtered (filter : Clauses) (rank : Option (List SortTerm))
deriving DecidableEq

/-- A traversal of a relation. -/
structure Statement where
  relation : Relation
  encoding : Encoding
  scope : Scope
  /-- What each level adds to the path. -/
  path : Element
  /-- What each level adds to the ordering. -/
  ordering : Element
  /-- What each level adds to each ancestor field. -/
  ancestors : List (AncestorField × Element)
deriving DecidableEq

namespace Statement

/-- The row source of the recursion. -/
def source : String := "S"

/-- The row source of filter and criteria. -/
def base : String := "B"

/-- The row source of the result. -/
def result : String := "T"

/-- The row source in which parents are looked for. -/
def lookup : String := "X"

/-- The generated column that holds the parent within the scope. -/
def parentColumn : String := "tree_parent"

def treeName : String := "__tree"

def baseName : String := "__tree_base"

def rankName : String := "__rank_table"

def scopeName : String := "__tree_scope"

/-- The columns of the recursion in front of the ancestor fields. -/
def depthColumn : String := "tree_depth"

def pathColumn : String := "tree_path"

def orderingColumn : String := "tree_ordering"

def keyColumn : String := "tree_pk"

/-- A column of the recursion as later parts of the statement see it. -/
def ofTree (column : String) : String := String.join [treeName, ".", column]

def quote (s : Statement) (name : String) : String := s.encoding.dialect.quote name

/-- The key of a row of the source. -/
def sourceKey (s : Statement) : String := String.join [source, ".", s.quote s.relation.key]

/-- The part of the statement that filters. -/
def baseText (s : Statement) (filter : Clauses) : String :=
  let condition :=
    if filter.keep.isEmpty && filter.drop.isEmpty then ""
    else String.join ["\n    WHERE ", filter.text s.encoding.dialect base 0]
  String.join [baseName, " AS (\n    SELECT ", base, ".* FROM ", s.quote s.relation.table, " ", base,
    condition, "\n)"]

/-- The parent of a row within the scope. -/
def effectiveParent (s : Statement) : String :=
  String.join ["CASE WHEN P.", s.quote s.relation.key, " IS NULL THEN NULL ELSE ", base, ".",
    s.quote s.relation.parent, " END"]

/-- The name of the part that finds parents within the scope. -/
def scopeTableName (rank : Option (List SortTerm)) : String :=
  if rank.isSome then rankName else scopeName

/-- The part of the statement that finds parents within the scope and numbers siblings. -/
def scopeText (s : Statement) (rank : Option (List SortTerm)) : String :=
  let number := match rank with
    | none => ""
    | some terms =>
      String.join [",\n        ROW_NUMBER() OVER (PARTITION BY ", s.effectiveParent, " ORDER BY ",
        SiblingOrder.termsText s.encoding.dialect terms, ") AS ", SiblingOrder.rankColumn]
  String.join [scopeTableName rank, " AS (\n    SELECT ", base, ".*,\n        ", s.effectiveParent, " AS ",
    parentColumn, number, "\n    FROM ", baseName, " ", base, "\n    LEFT JOIN ", baseName, " P ON P.",
    s.quote s.relation.key, " = ", base, ".", s.quote s.relation.parent, "\n)"]

/-- The row source of the recursion. -/
def sourceText (s : Statement) : String :=
  match s.scope with
  | .table => s.quote s.relation.table
  | .filtered _ rank => scopeTableName rank

/-- The column that leads from a row of the source to its parent. -/
def parentText (s : Statement) : String :=
  match s.scope with
  | .table => s.quote s.relation.parent
  | .filtered _ _ => parentColumn

/-- The condition that holds of roots. -/
def rootText (s : Statement) : String :=
  match s.scope with
  | .table =>
    let parent := String.join [source, ".", s.quote s.relation.parent]
    String.join [parent, " IS NULL OR NOT EXISTS (SELECT 1 FROM ", s.quote s.relation.table, " ", lookup,
      " WHERE ", lookup, ".", s.quote s.relation.key, " = ", parent, ")"]
  | .filtered _ _ => String.join [source, ".", parentColumn, " IS NULL"]

/-- The columns of the recursion. -/
def columns (s : Statement) : List String :=
  [depthColumn, pathColumn, orderingColumn, keyColumn] ++ s.ancestors.map fun a => a.1.column

/-- What a root has in the columns. -/
def anchor (s : Statement) : List String :=
  ["0", s.encoding.start s.path, s.encoding.start s.ordering, s.sourceKey] ++
    s.ancestors.map fun a => s.encoding.start a.2

/-- What a child of a row has in the columns. -/
def step (s : Statement) : List String :=
  let depth := String.join [ofTree depthColumn, " + 1"]
  [depth, s.encoding.depthGuard depth (s.encoding.extend (ofTree pathColumn) s.path),
    s.encoding.extend (ofTree orderingColumn) s.ordering, s.sourceKey] ++
    s.ancestors.map fun a => s.encoding.extend (ofTree a.1.column) a.2

/-- The recursive part of the statement. -/
def treeText (s : Statement) : String :=
  let body (columns : List String) : String :=
    String.join ["    SELECT\n        ", String.intercalate ",\n        " columns, "\n    FROM ",
      s.sourceText, " ", source]
  String.join [treeName, "(", String.intercalate ", " s.columns, ") AS (\n", body s.anchor, "\n    WHERE ",
    s.rootText, "\n\n    UNION ALL\n\n", body s.step, "\n    JOIN ", treeName, " ON ", source, ".",
    s.parentText, " = ", ofTree keyColumn, "\n    WHERE ", ofTree depthColumn, " < ",
    toString s.encoding.maxDepth, "\n)"]

/-- The columns of the result. -/
def selected (s : Statement) : List String :=
  [ofTree depthColumn, ofTree pathColumn, ofTree orderingColumn] ++
    (s.ancestors.map fun a => ofTree a.1.column) ++
    (s.relation.columns.map fun f => String.join [result, ".", s.quote f.name])

/-- An accumulated column as the result is sorted by it. -/
def sortText (s : Statement) (column : String) : String :=
  if s.encoding.native then column else s.encoding.dialect.byteOrder column

/-- The part of the statement that gives the result. -/
def resultText (s : Statement) : String :=
  String.join ["SELECT ", String.intercalate ", " s.selected, "\nFROM ", s.quote s.relation.table, " ",
    result, "\nJOIN ", treeName, " ON ", ofTree keyColumn, " = ", result, ".", s.quote s.relation.key,
    "\nORDER BY ", s.sortText (ofTree orderingColumn), ", ", s.sortText (ofTree pathColumn)]

/-- The named parts in front of the result. -/
def parts (s : Statement) : List String :=
  match s.scope with
  | .table => [s.treeText]
  | .filtered filter rank => [s.baseText filter, s.scopeText rank, s.treeText]

/-- The names that the statement gives to its parts. -/
def partNames (s : Statement) : List String :=
  match s.scope with
  | .table => [treeName]
  | .filtered _ rank => [baseName, scopeTableName rank, treeName]

/-- The text of the statement. -/
def text (s : Statement) : String :=
  String.join ["WITH RECURSIVE ", String.intercalate ",\n" s.parts, "\n", s.resultText]

/-- The values bound to the placeholders of the statement. -/
def params (s : Statement) : List Value :=
  match s.scope with
  | .table => []
  | .filtered filter _ => filter.values

theorem length_anchor (s : Statement) : s.anchor.length = s.columns.length := by
  simp [anchor, columns]

theorem length_step (s : Statement) : s.step.length = s.columns.length := by
  simp [step, columns]

end Statement

end ForestQuery
