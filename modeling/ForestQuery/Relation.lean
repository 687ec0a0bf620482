import ForestQuery.Identifier
/-!
A table whose rows refer to a parent row of the same table: its names, checked as they are declared,
and the types of its columns.
-/

namespace ForestQuery

/-- A column beside the key and the parent. -/
structure Field where
  name : String
  type : FieldType
deriving DecidableEq

/-- A table of nodes. -/
structure Relation where
  table : String
  /-- The column that identifies a row. -/
  key : String
  keyType : FieldType
  /-- The column that refers to another row, with the type of the key. -/
  parent : String
  fields : List Field
deriving DecidableEq

namespace Relation

/-- The parent column unless another one is named. -/
def defaultParent : String := "parent_id"

/-- Column names that statements use for themselves. -/
def reservedNames : List String := ["rank_order"]

/-- Beginnings of column names that statements use for themselves. -/
def reservedBeginnings : List String := ["tree_", "tf_", "__"]

/-- Refuses a name that cannot be a column: no identifier, or reserved in any case of its letters. -/
def checkColumn (name : String) : Except Error Unit := do
  Identifier.check name
  let lower := Identifier.lower name
  if reservedNames.contains lower then throw (.configuration (.reservedColumn name))
  match reservedBeginnings.find? fun b => b.toList.isPrefixOf lower.toList with
  | some beginning => throw (.configuration (.reservedBeginning name beginning))
  | none => pure ()

/-- Types that can identify a row. -/
def isKeyType : FieldType → Bool
  | .integer | .uuid => true
  | .text | .real | .boolean | .blob => false

/-- A relation without fields, with the default parent column. -/
def new (table key : String) (keyType : FieldType) : Except Error Relation := do
  Identifier.check table
  checkColumn key
  if isKeyType keyType then return ⟨table, key, keyType, defaultParent, []⟩
  else throw (.configuration (.unsupportedKeyType key keyType))

/-- The relation with another parent column. -/
def withParent (r : Relation) (parent : String) : Except Error Relation := do
  checkColumn parent
  if parent = r.key then throw (.configuration .parentIsKey) else return { r with parent }

/-- The relation with one more field. -/
def withField (r : Relation) (name : String) (type : FieldType) : Except Error Relation := do
  checkColumn name
  if name = r.key ∨ name = r.parent ∨ r.fields.any (fun f => f.name == name) then
    throw (.configuration (.fieldDeclaredTwice name))
  else return { r with fields := r.fields ++ [⟨name, type⟩] }

/-- The type of a column: key and parent share one, then the fields. -/
def fieldType? (r : Relation) (name : String) : Option FieldType :=
  if name = r.key ∨ name = r.parent then some r.keyType
  else (r.fields.find? fun f => f.name == name).map Field.type

def requireField (r : Relation) (name : String) : Except Error FieldType :=
  match r.fieldType? name with
  | some type => .ok type
  | none => .error (.configuration (.unknownField name r.table))

/-- The columns in the order of declaration. -/
def columns (r : Relation) : List Field :=
  ⟨r.key, r.keyType⟩ :: ⟨r.parent, r.keyType⟩ :: r.fields

theorem fieldType?_key (r : Relation) : r.fieldType? r.key = some r.keyType := by
  simp [fieldType?]

theorem fieldType?_parent (r : Relation) : r.fieldType? r.parent = some r.keyType := by
  simp [fieldType?]

end Relation

end ForestQuery
