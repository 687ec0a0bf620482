import ForestQuery.Filter
import ForestQuery.NameMap
import ForestQuery.SiblingOrder
/-!
What a caller asks of a traversal.
-/

namespace ForestQuery

/-- A request for a traversal. -/
structure Request where
  filter : Option PreFilter
  /-- Without fields siblings are sorted by their key. -/
  ordering : List OrderField
  /-- Source columns by output names. -/
  ancestorFields : NameMap String
  /-- Takes the place of the configured depth limit. -/
  maxDepth : Option Nat
deriving DecidableEq

namespace Request

def empty : Request := ⟨none, [], .empty, none⟩

instance : Inhabited Request := ⟨empty⟩

/-- Sorts siblings by fields written as text. -/
def orderedBy (q : Request) (specs : List String) : Request :=
  { q with ordering := specs.map OrderField.ofText }

/-- Restricts the rows to those that meet all conditions. -/
def keeping (q : Request) (conditions : List Condition) : Request :=
  { q with filter := some ((q.filter.getD .empty).keeping conditions) }

/-- Leaves out the rows that meet all conditions. -/
def dropping (q : Request) (conditions : List Condition) : Request :=
  { q with filter := some ((q.filter.getD .empty).dropping conditions) }

/-- Adds ancestor fields, given as outputs with their sources. -/
def withFields (q : Request) (pairs : List (String × String)) : Request :=
  { q with ancestorFields := pairs.foldl (fun m p => m.insert p.1 p.2) q.ancestorFields }

def limited (q : Request) (maxDepth : Nat) : Request := { q with maxDepth := some maxDepth }

/-- Whether there is a clause that rows have to pass. -/
def isFiltered (q : Request) : Bool := q.filter.any fun f => !f.isEmpty

end Request

end ForestQuery
