import ForestQuery.Config
import ForestQuery.Request
import ForestQuery.Row
import ForestQuery.Statement
import ForestQuery.Strategy
/-!
From a request to a statement, with the layout of the rows that it returns. A request that cannot be
answered is refused here, before anything reaches a store.
-/

namespace ForestQuery

/-- A statement with the layout of its rows. -/
structure Compiled where
  statement : Statement
  strategy : Strategy
  /-- Whether siblings are numbered. -/
  ranked : Bool
  layout : Layout
deriving DecidableEq

namespace Compiled

def maxDepth (c : Compiled) : Nat := c.statement.encoding.maxDepth

/-- Reads a row that the statement returned. -/
def decode (c : Compiled) (raw : RawRow) : Except Error TreeRow :=
  c.layout.decode c.statement.encoding.native c.maxDepth raw

end Compiled

/-- Compiles requests on one relation. -/
structure Compiler where
  relation : Relation
  config : Config
  /-- Whether accumulated columns are arrays. -/
  native : Bool
deriving DecidableEq

namespace Compiler

/-- A compiler with settings within their limits. -/
def new (relation : Relation) (config : Config) : Except Error Compiler := do
  config.validate
  return ⟨relation, config, ← config.usesNativeArrays⟩

/-- What each level adds to each ancestor field. -/
def ancestorElements (enc : Encoding) (textWidth : Nat) :
    List AncestorField → Except Error (List (AncestorField × Element))
  | [] => .ok []
  | a :: as => do
    let el ← enc.element [a.part Statement.source textWidth]
    return (a, el) :: (← ancestorElements enc textWidth as)

/-- The checked filter of a request. -/
def checkFilter (relation : Relation) (filter : Option PreFilter) : Except Error Clauses :=
  match filter with
  | none => .ok .none
  | some f =>
    match f.check relation with
    | .ok clauses => .ok clauses
    | .error refusal => .error refusal.error

/-- The segment of a key in a path. -/
def pathKind (relation : Relation) : SegmentKind := .ofFieldType 0 relation.keyType

/-- How the rows of a request are read. -/
def layout (c : Compiler) (key : KeySource) (ancestors : List AncestorField) : Layout where
  keyType := c.relation.keyType
  path := pathKind c.relation
  ordering := key.kinds
  ancestors := ancestors.map fun a => (a.output, a.kind c.config.textWidth)
  fields := c.relation.fields.map fun f => (f.name, f.type)

/-- The depth limit of a request. -/
def depthLimit (c : Compiler) (q : Request) : Except Error Nat :=
  let maxDepth := q.maxDepth.getD c.config.maxDepth
  if maxDepth = 0 then .error (.configuration .depthNotPositive) else .ok maxDepth

/-- The key of a level: a number among the siblings, or column values. -/
def keySource (c : Compiler) (order : SiblingOrder) (ranked : Bool) : Except Error KeySource :=
  if ranked then .ok (SiblingOrder.rankKey Statement.source)
  else order.rawKey c.config.dialect c.native c.config.keyBytes Statement.source

/-- The rows that a request walks over. -/
def scope (c : Compiler) (q : Request) (order : SiblingOrder) (strategy : Strategy) (ranked : Bool) :
    Except Error Scope :=
  match strategy with
  | .simple => .ok .table
  | .general =>
    (checkFilter c.relation q.filter).map fun clauses =>
      .filtered clauses (if ranked then some (order.rankTerms Statement.base) else none)

/-- Compiles a request. Depth limit, ordering, ancestor fields, key and filter are checked in turn. -/
def compile (c : Compiler) (q : Request) : Except Error Compiled := do
  let maxDepth ← c.depthLimit q
  let order ← SiblingOrder.resolve c.relation q.ordering
  let ancestors ← AncestorField.resolve c.relation q.ancestorFields
  let strategy := Strategy.select order q.isFiltered (!ancestors.isEmpty) c.native
  let ranked := strategy == .general && c.config.usesWindowFunctions
  let key ← c.keySource order ranked
  let encoding : Encoding := ⟨c.config.dialect, c.native, maxDepth⟩
  let scope ← c.scope q order strategy ranked
  let path ← encoding.element
    [⟨.reference (.column Statement.source c.relation.key), pathKind c.relation⟩]
  let ordering ← encoding.element key.parts
  let elements ← ancestorElements encoding c.config.textWidth ancestors
  return ⟨⟨c.relation, encoding, scope, path, ordering, elements⟩, strategy, ranked, c.layout key ancestors⟩

end Compiler

end ForestQuery
