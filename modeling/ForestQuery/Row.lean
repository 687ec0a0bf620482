import ForestQuery.Column
import ForestQuery.NameMap
/-!
Rows of a traversal: as a store returns them, the layout that tells how to read them, and as they are
delivered. A row whose columns contradict each other is refused.
-/

namespace ForestQuery

/-- A row as a store returns it. -/
structure RawRow where
  depth : Int64
  id : Value
  parent : Value
  path : Column
  ordering : Column
  ancestors : List Column
  fields : List (String × Value)
deriving DecidableEq

/-- How the columns of a statement are read. -/
structure Layout where
  keyType : FieldType
  path : SegmentKind
  /-- The segments of one level of the ordering column. -/
  ordering : List SegmentKind
  /-- Name and segment of each ancestor field. -/
  ancestors : List (String × SegmentKind)
  fields : List (String × FieldType)
deriving DecidableEq

/-- A node with its place in the forest. -/
structure TreeRow where
  id : NodeId
  /-- The parent as it is stored, which may be no node of the traversal. -/
  parent : Option NodeId
  depth : Nat
  /-- The nodes from the root down to this one. -/
  path : List NodeId
  ordering : List Value
  /-- For each ancestor field, the values along the path. -/
  ancestorFields : NameMap (List Value)
  fields : NameMap Value
deriving DecidableEq

/-- The identifier that a value of a key column stands for. -/
def NodeId.ofValue (type : FieldType) (v : Value) : Except Error NodeId :=
  match type, v with
  | .integer, .integer i => .ok (.int i)
  | .integer, .text s =>
    match Text.signed64? (Text.trimChars s.toList) with
    | some i => .ok (.int i)
    | none => .error (.decode (.notAnInteger s))
  | .uuid, .text s =>
    match Uuid.ofChars? (Text.trimChars s.toList) with
    | some u => .ok (.uuid u)
    | none => .error (.decode (.notAUuid s))
  | .uuid, .blob bytes =>
    match Uuid.ofBytes? bytes with
    | some u => .ok (.uuid u)
    | none => .error (.decode (.uuidBytes bytes.length))
  | _, _ => .error (.decode (.keyTypeMismatch v type))

/-- The identifiers of values up to the first that is none. -/
def NodeId.ofValues (type : FieldType) : List Value → Except Error (List NodeId)
  | [] => .ok []
  | v :: vs => do
    let id ← ofValue type v
    return id :: (← ofValues type vs)

namespace TreeRow

/-- Whether the other row lies strictly below this one: its path goes on where this one ends. -/
def isAncestorOf (r other : TreeRow) : Bool :=
  r.path.length < other.path.length && r.path.isPrefixOf other.path

def field? (r : TreeRow) (name : String) : Option Value := r.fields.get? name

end TreeRow

namespace Layout

/-- Names of the accumulated columns in messages. -/
def pathColumn : String := "tree_path"

def orderingColumn : String := "tree_ordering"

/-- Refuses a column that has not one value per level. -/
def checkLevels (column : String) (got expected : Nat) : Except Error Unit :=
  if got = expected then .ok () else .error (.decode (.levels column got expected))

/-- The ancestor fields of a row with so many levels. -/
def decodeAncestors (isNative : Bool) (expected : Nat) (m : NameMap (List Value)) :
    List (String × SegmentKind) → List Column → Except Error (NameMap (List Value))
  | (name, kind) :: kinds, c :: cs => do
    let values ← c.decode isNative [kind]
    checkLevels name values.length expected
    decodeAncestors isNative expected (m.insert name values) kinds cs
  | _, _ => .ok m

/-- The parent that a row refers to, if any. -/
def decodeParent (type : FieldType) (v : Value) : Except Error (Option NodeId) :=
  if v.isNull then .ok none else (NodeId.ofValue type v).map some

/-- One more than the largest depth that a row can have: two to the 32nd power. -/
def depthBound : Int := 4294967296

/-- Reads a row. Depth, path, ordering, ancestor fields, identifier and parent are checked in turn. -/
def decode (l : Layout) (isNative : Bool) (maxDepth : Nat) (raw : RawRow) : Except Error TreeRow := do
  let depth := raw.depth.toInt
  if depth < 0 ∨ depthBound ≤ depth then throw (.decode (.depthOutOfRange raw.depth))
  let depth := depth.toNat
  if maxDepth ≤ depth then throw (.depthExceeded maxDepth)
  let path ← NodeId.ofValues l.keyType (← raw.path.decode isNative [l.path])
  checkLevels pathColumn path.length (depth + 1)
  let ordering ← raw.ordering.decode isNative l.ordering
  checkLevels orderingColumn ordering.length (depth + 1)
  if raw.ancestors.length ≠ l.ancestors.length then
    throw (.decode (.ancestorColumns l.ancestors.length raw.ancestors.length))
  let ancestorFields ← decodeAncestors isNative (depth + 1) .empty l.ancestors raw.ancestors
  let id ← NodeId.ofValue l.keyType raw.id
  if path.getLast? ≠ some id then throw (.decode (.pathEnd id))
  let parent ← decodeParent l.keyType raw.parent
  return ⟨id, parent, depth, path, ordering, ancestorFields, NameMap.ofList raw.fields⟩

end Layout

end ForestQuery
