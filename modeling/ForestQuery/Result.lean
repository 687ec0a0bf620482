import ForestQuery.Traversal
/-!
The result of a statement cell by cell: which columns it has, what a node has in them, and how a row is read from its
cells by their places alone.
-/

namespace ForestQuery

/-- A cell of a row of the result. -/
inductive Cell where
  | value (v : Value)
  /-- An accumulated text. -/
  | text (t : StoredText)
deriving DecidableEq

namespace Cell

def integer? : Cell → Option Int64
  | value v => v.integer?
  | text _ => none

/-- The cell as a column of fixed-width levels, if it is a text at all. -/
def column? : Cell → Option Column
  | value v => v.text?.map .encoded
  | text t => Statement.encodedColumn? t

/-- The cell as a value; bytes that are no text are replaced. -/
def toValue : Cell → Value
  | value v => v
  | text t => .text (String.ofList t.lossyChars)

end Cell

/-- The cells of a row by what they are read for. -/
structure Placed (α : Type) where
  depth : α
  path : α
  ordering : α
  /-- A cell for each ancestor field of the layout. -/
  ancestors : List ((String × SegmentKind) × α)
  id : α
  parent : α
  /-- A cell for each field of the layout. -/
  fields : List ((String × FieldType) × α)

namespace Placed

/-- The cells in the order in which they are read. -/
def cells {α : Type} (p : Placed α) : List α :=
  [p.depth, p.path, p.ordering] ++ p.ancestors.map Prod.snd ++ [p.id, p.parent] ++ p.fields.map Prod.snd

/-- The row of placed cells; none if a cell is not of the kind that is asked for. -/
def rawRow? (p : Placed Cell) : Option RawRow := do
  let depth ← p.depth.integer?
  let path ← p.path.column?
  let ordering ← p.ordering.column?
  let ancestors ← p.ancestors.mapM fun a => a.2.column?
  return {
    depth
    id := p.id.toValue
    parent := p.parent.toValue
    path, ordering, ancestors
    fields := p.fields.map fun f => (f.1.1, f.2.toValue) }

end Placed

namespace Layout

/-- The cells from a place on, one for each label. -/
def labelled {α β : Type} (cells : List α) (start : Nat) : List β → Option (List (β × α))
  | [] => some []
  | label :: labels => do
    let cell ← cells[start]?
    return (label, cell) :: (← labelled cells (start + 1) labels)

/-- Finds the cells of a row: depth, path and ordering, one for each ancestor field, identifier and parent, and one for
each field. Cells behind these are not looked at. -/
def place {α : Type} (l : Layout) (cells : List α) : Option (Placed α) := do
  let depth ← cells[0]?
  let path ← cells[1]?
  let ordering ← cells[2]?
  let ancestors ← labelled cells 3 l.ancestors
  let next := 3 + l.ancestors.length
  let id ← cells[next]?
  let parent ← cells[next + 1]?
  return ⟨depth, path, ordering, ancestors, id, parent, ← labelled cells (next + 2) l.fields⟩

/-- Reads a row from its cells. -/
def rawRow? (l : Layout) (cells : List Cell) : Option RawRow := (l.place cells).bind Placed.rawRow?

end Layout

/-- A column of the result. -/
inductive Output where
  /-- A column of the recursion. -/
  | tree (column : String)
  /-- A column of the table. -/
  | table (column : String)
deriving DecidableEq

namespace Statement

def outputs (s : Statement) : List Output :=
  [.tree depthColumn, .tree pathColumn, .tree orderingColumn] ++ (s.ancestors.map fun a => .tree a.1.column) ++
    s.relation.columns.map fun f => .table f.name

def outputText (s : Statement) : Output → String
  | .tree column => ofTree column
  | .table column => String.join [result, ".", s.quote column]

/-- What a node has in the columns of the recursion, in their order. -/
def treeCells (n : Node) : List Cell :=
  [.value (.integer (Int64.ofNat n.depth)), .text n.path, .text n.ordering, .value n.key] ++ n.ancestors.map .text

/-- What a node has in a column of the result. Columns of the recursion are found by their names. -/
def outputCell (s : Statement) (n : Node) : Output → Cell
  | .tree column => ((s.columns.zip (treeCells n)).lookup column).getD (.value .null)
  | .table column => .value (n.record.value column)

/-- The row of the result for a node. -/
def cells (s : Statement) (n : Node) : List Cell := s.outputs.map (s.outputCell n)

end Statement

end ForestQuery
