import ForestQuery.Encoding
import ForestQuery.NameMap
import ForestQuery.Relation
/-!
Fields that collect the values of a column along the path of each node.
-/

namespace ForestQuery

/-- A checked ancestor field. -/
structure AncestorField where
  /-- The name of the collected values in a row. -/
  output : String
  source : String
  sourceType : FieldType
  /-- The generated column that collects them. -/
  column : String
deriving DecidableEq

namespace AncestorField

/-- Beginning of the generated columns. -/
def columnName (index : Nat) : String := String.join ["tf_", toString index]

def kind (a : AncestorField) (textWidth : Nat) : SegmentKind := .ofFieldType textWidth a.sourceType

/-- What each level adds. -/
def part (a : AncestorField) (source : String) (textWidth : Nat) : Part :=
  ⟨.reference (.column source a.source), a.kind textWidth⟩

/-- Types whose values can be collected. -/
def isCollectable : FieldType → Bool
  | .text | .integer => true
  | .uuid | .real | .boolean | .blob => false

/-- Checks one request: the output is an identifier and the source a column of a collectable type. -/
def check (r : Relation) (index : Nat) (output source : String) : Except Error AncestorField := do
  Identifier.check output
  let type ← r.requireField source
  if isCollectable type then return ⟨output, source, type, columnName index⟩
  else throw (.unsupportedFieldType source type)

/-- Checks requests one by one, numbering the columns from `index`. -/
def checkAll (r : Relation) (index : Nat) : List (String × String) → Except Error (List AncestorField)
  | [] => .ok []
  | (output, source) :: rest => do
    let field ← check r index output source
    return field :: (← checkAll r (index + 1) rest)

/-- The fields for a request, in the order of their outputs. -/
def resolve (r : Relation) (request : NameMap String) : Except Error (List AncestorField) :=
  checkAll r 0 request.toList

end AncestorField

end ForestQuery
