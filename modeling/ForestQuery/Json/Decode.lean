import ForestQuery.Config
import ForestQuery.Json.Reader
import ForestQuery.Request
import ForestQuery.Row
/-!
Values, identifiers, requests, settings and relations read from JSON. A structure is read from an
object, in which unknown names are passed over and known ones stand once, or from an array of its
fields in order. Names of relations are not checked here.
-/

namespace ForestQuery

namespace Json

/-- The fields of a structure by their names. A field that is not there is `none`. -/
def fields? (names : List String) : Json → Option (List (Option Json))
  | object members =>
    let known := (members.map Prod.fst).filter names.contains
    if known.eraseDups.length = known.length then
      some (names.map fun n => (members.find? fun m => m.1 == n).map Prod.snd)
    else none
  | array items =>
    if items.length ≤ names.length then
      some (items.map some ++ List.replicate (names.length - items.length) none)
    else none
  | _ => none

/-- A field that must be there. -/
def required {α : Type} (read : Json → Option α) (j : Option Json) : Option α := j.bind read

/-- A field that may be left out. -/
def withDefault {α : Type} (d : α) (read : Json → Option α) : Option Json → Option α
  | none => some d
  | some j => read j

/-- A field that may be left out or null. -/
def optional {α : Type} (read : Json → Option α) : Option Json → Option (Option α)
  | none | some null => some none
  | some j => (read j).map some

def text? : Json → Option String
  | string s => some s
  | _ => none

def bool? : Json → Option Bool
  | bool b => some b
  | _ => none

def int? : Json → Option Int
  | number literal =>
    match numeric? literal with
    | some (.integer i) => some i
    | _ => none
  | _ => none

/-- A number below `bound`. -/
def nat? (bound : Nat) (j : Json) : Option Nat :=
  j.int?.bind fun i => if 0 ≤ i ∧ i < bound then some i.toNat else none

def int64? (j : Json) : Option Int64 := j.int?.bind Text.int64?

def listOf? {α : Type} (read : Json → Option α) : Json → Option (List α)
  | array items => items.mapM read
  | _ => none

/-- A map from names; of two members with one name the later counts. -/
def mapOf? {α : Type} (read : Json → Option α) : Json → Option (NameMap α)
  | object members => (members.mapM fun m => (read m.2).map (m.1, ·)).map NameMap.ofList
  | _ => none

/-- A constant by its name, which may also be the name of the only member of an object, with null. -/
def constant? {α : Type} (ofName? : String → Option α) : Json → Option α
  | string s => ofName? s
  | object [(s, null)] => ofName? s
  | _ => none

end Json

open Json

/-- A column value: integers of 64 bits are integers, other numbers reals, arrays of bytes are byte
sequences. -/
def Value.ofJson? : Json → Option Value
  | .null => some .null
  | .string s => some (.text s)
  | .array items => (items.mapM (Json.nat? 256)).map fun ns => .blob (ns.map UInt8.ofNat)
  | .number literal =>
    match numeric? literal with
    | some (.integer i) =>
      match Text.int64? i with
      | some n => some (.integer n)
      | none => some (.real (Binary64.ofInt i))
    | some (.real x) => some (.real x)
    | none => none
  | .bool _ | .object _ | .broken _ => none

/-- An integer of 64 bits, or the text of a universally unique identifier. -/
def NodeId.ofJson? : Json → Option NodeId
  | .string s => (Uuid.ofText? s).map .uuid
  | j => j.int64?.map .int

def Condition.ofJson? (j : Json) : Option Condition :=
  match fields? ["field", "op", "values"] j with
  | some [field, op, values] => do
    let field ← required text? field
    let operator ← required (constant? Operator.ofName?) op
    let values ← withDefault [] (listOf? Value.ofJson?) values
    return ⟨field, operator, values⟩
  | _ => none

def PreFilter.ofJson? (j : Json) : Option PreFilter :=
  let clauses := withDefault [] (listOf? (listOf? Condition.ofJson?))
  match fields? ["include", "exclude"] j with
  | some [keep, drop] => do return ⟨← clauses keep, ← clauses drop⟩
  | _ => none

def OrderField.ofJson? (j : Json) : Option OrderField :=
  match fields? ["field", "direction"] j with
  | some [field, direction] => do
    let field ← required text? field
    return ⟨field, ← withDefault .ascending (constant? Direction.ofName?) direction⟩
  | _ => none

def Request.ofJson? (j : Json) : Option Request :=
  match fields? ["pre_filter", "ordering", "ancestor_fields", "max_depth"] j with
  | some [filter, ordering, ancestorFields, maxDepth] => do
    let filter ← optional PreFilter.ofJson? filter
    let ordering ← withDefault [] (listOf? OrderField.ofJson?) ordering
    let ancestorFields ← withDefault .empty (mapOf? text?) ancestorFields
    return ⟨filter, ordering, ancestorFields, ← optional (nat? Config.depthBound) maxDepth⟩
  | _ => none

def Config.ofJson? (j : Json) : Option Config :=
  let d := Config.default
  match fields? ["dialect", "max_depth", "encoding", "window_functions", "text_width", "key_bytes",
    "warn_multi_field_ordering"] j with
  | some [dialect, maxDepth, encoding, windowFunctions, textWidth, keyBytes, warn] => do
    let dialect ← withDefault d.dialect (constant? Dialect.ofName?) dialect
    let maxDepth ← withDefault d.maxDepth (nat? Config.depthBound) maxDepth
    let encoding ← withDefault d.encoding (constant? EncodingMode.ofName?) encoding
    let windowFunctions ← optional bool? windowFunctions
    let textWidth ← withDefault d.textWidth (nat? SegmentKind.widthBound) textWidth
    let keyBytes ← withDefault d.keyBytes (nat? SegmentKind.widthBound) keyBytes
    let warn ← withDefault d.warnMultiFieldOrdering bool? warn
    return ⟨dialect, maxDepth, encoding, windowFunctions, textWidth, keyBytes, warn⟩
  | _ => none

def Field.ofJson? (j : Json) : Option Field :=
  match fields? ["name", "field_type"] j with
  | some [name, type] => do
    return ⟨← required text? name, ← required (constant? FieldType.ofName?) type⟩
  | _ => none

def Relation.ofJson? (j : Json) : Option Relation :=
  match fields? ["table", "pk", "pk_type", "parent", "fields"] j with
  | some [table, key, keyType, parent, fields] => do
    let table ← required text? table
    let key ← required text? key
    let keyType ← required (constant? FieldType.ofName?) keyType
    let parent ← required text? parent
    return ⟨table, key, keyType, parent, ← required (listOf? Field.ofJson?) fields⟩
  | _ => none

end ForestQuery
