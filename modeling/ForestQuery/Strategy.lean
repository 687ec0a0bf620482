import ForestQuery.SiblingOrder
/-!
The two plans of a traversal, and when the simpler one is enough.
-/

namespace ForestQuery

/-- How a traversal gets at its rows. -/
inductive Strategy where
  /-- Over the table itself. -/
  | simple
  /-- Over the rows that pass the filter, with their parents among these. -/
  | general
deriving DecidableEq

namespace Strategy

def name : Strategy → String
  | simple => "simple"
  | general => "general"

/-- The simple plan is enough without a filter and without ancestor fields, when siblings are sorted
by one ascending integer or identifier; in arrays that has to be the key, because a level has no
room to tell equal siblings apart. -/
def select (order : SiblingOrder) (filtered aggregated native : Bool) : Strategy :=
  if filtered || aggregated then general
  else
    match order.singleAscending? with
    | none => general
    | some f =>
      if f.type ≠ .integer ∧ f.type ≠ .uuid then general
      else if native && !order.isKeyOnly then general
      else simple

end Strategy

end ForestQuery
