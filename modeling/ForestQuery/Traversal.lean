import ForestQuery.Compiler
import ForestQuery.Expr.Evaluation
import ForestQuery.Filter.Evaluation
import ForestQuery.Table
/-!
What a statement means: the rows that it returns for the rows of a table. Roots and then, level by
level, children are given their depth, path, ordering and ancestor fields; the result is sorted by the
accumulated texts. Only statements with fixed-width columns are run here.
-/

namespace ForestQuery

/-- A row that a traversal may walk over. -/
structure ScopeRow where
  record : Record
  /-- The value by which the row is found below its parent. -/
  parent : Value
  /-- The place among the siblings. -/
  rank : Value
deriving DecidableEq

namespace ScopeRow

/-- The value of a reference to the row source of the recursion. -/
def env (r : ScopeRow) : Reference → Value
  | .column _ name => r.record.value name
  | .generated _ name =>
    if name = SiblingOrder.rankColumn then r.rank
    else if name = Statement.parentColumn then r.parent
    else .null
  | .verbatim _ => .null

end ScopeRow

/-- The value of a reference to a row of the table. -/
def Record.env (r : Record) : Reference → Value
  | .column _ name => r.value name
  | .generated _ _ | .verbatim _ => .null

namespace SortTerm

/-- The order of two rows by one criterion. -/
def compare (a b : Record) : SortTerm → Ordering
  | absentFirst column =>
    let place (r : Record) : Nat := if (r.env column).isNull then 0 else 1
    Ord.compare (place a) (place b)
  | value column direction =>
    let o := Value.compare (a.env column) (b.env column)
    match direction with
    | .ascending => o
    | .descending => o.swap

/-- The order of two rows by criteria, the first that tells them apart. -/
def compareAll (a b : Record) : List SortTerm → Ordering
  | [] => .eq
  | t :: ts => (t.compare a b).then (compareAll a b ts)

end SortTerm

/-- A node that a traversal has reached. -/
structure Node where
  depth : Nat
  path : StoredText
  ordering : StoredText
  key : Value
  ancestors : List StoredText
  record : Record
deriving DecidableEq

namespace Element

/-- The text that one level adds to an accumulated column. -/
def evalText (d : Dialect) (env : Reference → Value) : Element → Except Raised StoredText
  | item expr _ => expr.evalText d env
  | segments exprs _ => (exprs.mapM fun (e : Expr) => e.evalText d env).map List.flatten

end Element

namespace Statement

/-- What the filter sees of a row. -/
def view (r : Record) : RowView := ⟨r.value, r.affinity⟩

/-- The key of a row. -/
def keyOf (s : Statement) (r : Record) : Value := r.value s.relation.key

/-- The parent of a row as it is stored. -/
def parentOf (s : Statement) (r : Record) : Value := r.value s.relation.parent

/-- Whether a value is the key of a row. An absent value is none. -/
def isKeyOf (s : Statement) (v : Value) (r : Record) : Bool := !v.isNull && Value.same (s.keyOf r) v

/-- The parent of a row if it is the key of one of the rows, else nothing. -/
def effectiveParentOf (s : Statement) (rows : List Record) (r : Record) : Value :=
  if rows.any (s.isKeyOf (s.parentOf r)) then s.parentOf r else .null

/-- Rows with their parents among themselves. -/
def withParents (s : Statement) (rows : List Record) : List ScopeRow :=
  rows.map fun r => ⟨r, s.effectiveParentOf rows r, .null⟩

/-- The place of a row among those with the same parent: one more than the rows in front of it. -/
def rankIn (rows : List ScopeRow) (terms : List SortTerm) (r : ScopeRow) : Value :=
  let before := rows.filter fun other =>
    Value.same other.parent r.parent && SortTerm.compareAll other.record r.record terms == .lt
  .ofCount (before.length + 1)

/-- Rows with their places. -/
def ranked (terms : List SortTerm) (rows : List ScopeRow) : List ScopeRow :=
  rows.map fun r => { r with rank := rankIn rows terms r }

/-- The rows that take part. -/
def kept (s : Statement) (records : List Record) : List Record :=
  match s.scope with
  | .table => records
  | .filtered filter _ => records.filter fun r => filter.admits (view r)

/-- The rows that the recursion walks over. -/
def scopeRows (s : Statement) (records : List Record) : List ScopeRow :=
  let rows := s.kept records
  match s.scope with
  | .table => rows.map fun r => ⟨r, s.parentOf r, .null⟩
  | .filtered _ none => s.withParents rows
  | .filtered _ (some terms) => ranked terms (s.withParents rows)

/-- Whether a row of the scope starts a tree: it has no parent, or none among the rows. -/
def isRoot (s : Statement) (rows : List ScopeRow) (r : ScopeRow) : Bool :=
  match s.scope with
  | .table => !rows.any fun other => s.isKeyOf r.parent other.record
  | .filtered _ _ => r.parent.isNull

/-- What the ancestor fields gain by a row. -/
def ancestorTexts (s : Statement) (env : Reference → Value) : Except Raised (List StoredText) :=
  s.ancestors.mapM fun a => a.2.evalText s.encoding.dialect env

/-- A root as a node. -/
def rootNode (s : Statement) (r : ScopeRow) : Except Raised Node := do
  let path ← s.path.evalText s.encoding.dialect r.env
  let ordering ← s.ordering.evalText s.encoding.dialect r.env
  return ⟨0, path, ordering, s.keyOf r.record, ← s.ancestorTexts r.env, r.record⟩

/-- Fails at the depth limit, where the encoding does. -/
def checkDepth (s : Statement) (depth : Nat) : Except Raised Unit :=
  if s.encoding.failsAtLimit ∧ s.encoding.maxDepth ≤ depth then
    .error ⟨.depthExceeded, Text.decimalDigits depth⟩
  else .ok ()

/-- A child of a node as a node. -/
def childNode (s : Statement) (n : Node) (r : ScopeRow) : Except Raised Node := do
  s.checkDepth (n.depth + 1)
  let path ← s.path.evalText s.encoding.dialect r.env
  let ordering ← s.ordering.evalText s.encoding.dialect r.env
  let ancestors ← s.ancestorTexts r.env
  return ⟨n.depth + 1, n.path ++ path, n.ordering ++ ordering, s.keyOf r.record,
    (n.ancestors.zip ancestors).map fun p => p.1 ++ p.2, r.record⟩

/-- Whether a row of the scope lies directly below a node. -/
def isChild (n : Node) (r : ScopeRow) : Bool := !r.parent.isNull && Value.same r.parent n.key

/-- The nodes directly below those of a level, in order. -/
def nextLevel (s : Statement) (rows : List ScopeRow) : List Node → Except Raised (List Node)
  | [] => .ok []
  | n :: ns => do
    let below ← (rows.filter (isChild n)).mapM (s.childNode n)
    return below ++ (← nextLevel s rows ns)

/-- The nodes of a level and of at most `limit` levels below it. -/
def levelsFrom (s : Statement) (rows : List ScopeRow) : Nat → List Node → Except Raised (List Node)
  | 0, level => .ok level
  | limit + 1, level =>
    if level.isEmpty then .ok []
    else do
      let next ← s.nextLevel rows level
      return level ++ (← levelsFrom s rows limit next)

/-- All nodes that are reached from the roots. -/
def nodes (s : Statement) (records : List Record) : Except Raised (List Node) := do
  let rows := s.scopeRows records
  let roots ← (rows.filter (s.isRoot rows)).mapM s.rootNode
  s.levelsFrom rows s.encoding.maxDepth roots

/-- The order of the result: by the ordering, then by the path, then by the number of the row. -/
def compareNodes (a b : Node) : Ordering :=
  ((Text.compareBytes a.ordering.toBytes b.ordering.toBytes).then
    (Text.compareBytes a.path.toBytes b.path.toBytes)).then
      (compare a.record.number.toInt b.record.number.toInt)

def inOrder (a b : Node) : Bool := compareNodes a b != .gt

/-- A text of the recursion as a column of the result, if it is a text at all. -/
def encodedColumn? (t : StoredText) : Option Column := t.chars?.map fun cs => .encoded (String.ofList cs)

/-- A node as a row of the result; none if a column cannot be read as text. -/
def rawRow? (s : Statement) (n : Node) : Option RawRow := do
  let path ← encodedColumn? n.path
  let ordering ← encodedColumn? n.ordering
  let ancestors ← n.ancestors.mapM encodedColumn?
  return {
    depth := Int64.ofNat n.depth
    id := s.keyOf n.record
    parent := s.parentOf n.record
    path, ordering, ancestors
    fields := s.relation.fields.map fun f => (f.name, n.record.value f.name) }

/-- The rows that the statement returns, in order. -/
def run (s : Statement) (records : List Record) : Except Raised (List (Option RawRow)) := do
  return ((← s.nodes records).mergeSort inOrder).map s.rawRow?

end Statement

end ForestQuery
