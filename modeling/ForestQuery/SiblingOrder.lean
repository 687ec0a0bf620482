import ForestQuery.Encoding
import ForestQuery.Relation
/-!
The order of siblings, and what each level of the ordering column is made of. Siblings are sorted by
the fields asked for, absent values first in either direction, and at last by the key.
-/

namespace ForestQuery

inductive Direction where
  | ascending
  | descending
deriving DecidableEq

namespace Direction

def name : Direction → String
  | ascending => "asc"
  | descending => "desc"

def ofName? (s : String) : Option Direction :=
  [ascending, descending].find? fun d => d.name == s

/-- The direction in an `ORDER BY` list. -/
def keyword : Direction → String
  | ascending => "ASC"
  | descending => "DESC"

end Direction

/-- A field to sort by. -/
structure OrderField where
  field : String
  direction : Direction
deriving DecidableEq

namespace OrderField

/-- A name, descending behind a minus sign; blanks around it do not count. -/
def ofText (spec : String) : OrderField :=
  match Text.trimChars spec.toList with
  | '-' :: name => ⟨String.ofList name, .descending⟩
  | name => ⟨String.ofList name, .ascending⟩

end OrderField

/-- A field to sort by, with its type. -/
structure SortField where
  field : String
  direction : Direction
  type : FieldType
deriving DecidableEq

/-- One criterion of a sorted list of rows. -/
inductive SortTerm where
  /-- Rows without a value in the column come first. -/
  | absentFirst (column : Reference)
  | value (column : Reference) (direction : Direction)
deriving DecidableEq

def SortTerm.text (d : Dialect) : SortTerm → String
  | absentFirst column => String.join ["CASE WHEN ", column.text d, " IS NULL THEN 0 ELSE 1 END"]
  | value column direction => String.join [column.text d, " ", direction.keyword]

/-- What each level of the ordering column is made of. -/
inductive KeySource where
  /-- The key itself. -/
  | field (part : Part)
  /-- The place among the siblings. -/
  | rank (part : Part)
  /-- The values of several columns. -/
  | composite (parts : List Part)
deriving DecidableEq

namespace KeySource

def name : KeySource → String
  | field _ => "field"
  | rank _ => "rank"
  | composite _ => "composite"

def parts : KeySource → List Part
  | field p | rank p => [p]
  | composite ps => ps

def kinds (k : KeySource) : List SegmentKind := k.parts.map Part.kind

end KeySource

/-- A checked order of siblings in a relation. -/
structure SiblingOrder where
  fields : List SortField
  key : String
  keyType : FieldType
deriving DecidableEq

namespace SiblingOrder

/-- Looks up each field; one that was listed before is refused. -/
def resolveFields (r : Relation) (seen : List String) : List OrderField → Except Error (List SortField)
  | [] => .ok []
  | f :: fs => do
    let type ← r.requireField f.field
    if seen.contains f.field then throw (.configuration (.orderingFieldTwice f.field))
    let rest ← resolveFields r (f.field :: seen) fs
    return ⟨f.field, f.direction, type⟩ :: rest

/-- The order that the fields describe. Without fields siblings are sorted by their key. -/
def resolve (r : Relation) (ordering : List OrderField) : Except Error SiblingOrder := do
  let requested := if ordering.isEmpty then [⟨r.key, .ascending⟩] else ordering
  return ⟨← resolveFields r [] requested, r.key, r.keyType⟩

/-- The only field, if there is one and it is ascending. -/
def singleAscending? (o : SiblingOrder) : Option SortField :=
  match o.fields with
  | [f] => if f.direction = .ascending then some f else none
  | _ => none

/-- Whether siblings are sorted by the key alone, ascending. -/
def isKeyOnly (o : SiblingOrder) : Bool := o.singleAscending?.any fun f => f.field == o.key

def usesKey (o : SiblingOrder) : Bool := o.fields.any fun f => f.field == o.key

/-- The criteria for one field. The key is never absent. -/
def fieldTerms (o : SiblingOrder) (source : String) (f : SortField) : List SortTerm :=
  let column := Reference.column source f.field
  if f.field = o.key then [.value column f.direction]
  else [.absentFirst column, .value column f.direction]

/-- The criteria by which siblings get their places; the key decides at last. -/
def rankTerms (o : SiblingOrder) (source : String) : List SortTerm :=
  o.fields.flatMap (o.fieldTerms source) ++
    (if o.usesKey then [] else [.value (.column source o.key) .ascending])

/-- The criteria as a list of a statement. -/
def termsText (d : Dialect) (terms : List SortTerm) : String :=
  String.intercalate ", " (terms.map (SortTerm.text d))

/-- The generated column that holds the place among the siblings. -/
def rankColumn : String := "rank_order"

/-- The place among the siblings as the key of a level. -/
def rankKey (source : String) : KeySource :=
  .rank ⟨.reference (.generated source rankColumn), .integer⟩

def keyPart (o : SiblingOrder) (source : String) : Part :=
  ⟨.reference (.column source o.key), .ofFieldType 0 o.keyType⟩

/-- A text as a key segment; descending ones need a dialect that complements digits. -/
def textKeyPart (d : Dialect) (f : SortField) (column : Expr) (bytes : Nat) : Except Error Part :=
  let descending := f.direction = .descending
  if descending ∧ ¬ d.capabilities.hexComplement then
    .error (.configuration (.noDescendingText d f.field))
  else .ok ⟨column, .textKey bytes descending⟩

/-- The segment whose order is the order of the field in its direction. -/
def fieldPart (d : Dialect) (keyBytes : Nat) (source : String) (f : SortField) : Except Error Part :=
  let column := Expr.reference (.column source f.field)
  match f.type, f.direction with
  | .integer, .descending => .ok ⟨.mirrored column, .integer⟩
  | .integer, .ascending => .ok ⟨column, .integer⟩
  | .uuid, .ascending => .ok ⟨column, .uuid⟩
  | .uuid, .descending => textKeyPart d f column SegmentKind.uuidWidth
  | .text, _ => textKeyPart d f column keyBytes
  | .real, _ | .boolean, _ | .blob, _ => .error (.configuration (.noKeyEncoding f.field f.type))

def fieldParts (d : Dialect) (keyBytes : Nat) (source : String) :
    List SortField → Except Error (List Part)
  | [] => .ok []
  | f :: fs => do
    let part ← fieldPart d keyBytes source f
    return part :: (← fieldParts d keyBytes source fs)

/-- The key of a level made of column values. Arrays have room for the key of the table only. -/
def rawKey (o : SiblingOrder) (d : Dialect) (native : Bool) (keyBytes : Nat) (source : String) :
    Except Error KeySource :=
  if o.isKeyOnly then .ok (.field (o.keyPart source))
  else if native then .error (.configuration .nativeOrderingNeedsKey)
  else do
    let parts ← fieldParts d keyBytes source o.fields
    return .composite (parts ++ (if o.usesKey then [] else [o.keyPart source]))

end SiblingOrder

end ForestQuery
