import ForestQuery.Config
import ForestQuery.Json
import ForestQuery.Request
import ForestQuery.Row
/-!
The JSON forms of values, identifiers, requests, settings, relations and rows. What is absent from a
request or from settings is left out.
-/

namespace ForestQuery

def Value.json : Value → Json
  | null => .null
  | integer i => .ofInt i.toInt
  | real x => .ofReal x
  | text s => .string s
  | blob bytes => .array (bytes.map fun b => .ofNat b.toNat)

def NodeId.json : NodeId → Json
  | int i => .ofInt i.toInt
  | uuid u => .string u.text

/-- A member that is left out when it is absent. -/
def Json.member {α : Type} (name : String) (write : α → Json) : Option α → List (String × Json)
  | none => []
  | some x => [(name, write x)]

def NameMap.json {α : Type} (write : α → Json) (m : NameMap α) : Json :=
  .object (m.toList.map fun e => (e.1, write e.2))

def Condition.json (c : Condition) : Json :=
  .object [("field", .string c.field), ("op", .string c.operator.name),
    ("values", .array (c.values.map Value.json))]

def PreFilter.json (f : PreFilter) : Json :=
  let clauses (cs : List (List Condition)) : Json := .array (cs.map fun c => .array (c.map Condition.json))
  .object [("include", clauses f.keep), ("exclude", clauses f.drop)]

def OrderField.json (f : OrderField) : Json :=
  .object [("field", .string f.field), ("direction", .string f.direction.name)]

def Request.json (q : Request) : Json :=
  .object (Json.member "pre_filter" PreFilter.json q.filter ++
    [("ordering", .array (q.ordering.map OrderField.json)),
     ("ancestor_fields", q.ancestorFields.json .string)] ++
    Json.member "max_depth" Json.ofNat q.maxDepth)

def Config.json (c : Config) : Json :=
  .object ([("dialect", .string c.dialect.name), ("max_depth", .ofNat c.maxDepth),
    ("encoding", .string c.encoding.name)] ++
    Json.member "window_functions" Json.bool c.windowFunctions ++
    [("text_width", .ofNat c.textWidth), ("key_bytes", .ofNat c.keyBytes),
     ("warn_multi_field_ordering", .bool c.warnMultiFieldOrdering)])

def Field.json (f : Field) : Json :=
  .object [("name", .string f.name), ("field_type", .string f.type.name)]

def Relation.json (r : Relation) : Json :=
  .object [("table", .string r.table), ("pk", .string r.key), ("pk_type", .string r.keyType.name),
    ("parent", .string r.parent), ("fields", .array (r.fields.map Field.json))]

def TreeRow.json (r : TreeRow) : Json :=
  .object [("id", r.id.json), ("parent", (r.parent.map NodeId.json).getD .null), ("depth", .ofNat r.depth),
    ("path", .array (r.path.map NodeId.json)), ("ordering", .array (r.ordering.map Value.json)),
    ("ancestor_fields", r.ancestorFields.json fun vs => .array (vs.map Value.json)),
    ("fields", r.fields.json Value.json)]

end ForestQuery
