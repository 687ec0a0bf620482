import ForestQuery.Filter
/-!
A filter written in one pass: a value is bound as its placeholder is written, behind the values that are
bound already.
-/

namespace ForestQuery

/-- Writing while values are bound. They stay bound when the rest is refused. -/
abbrev Rendering := ExceptT Error (StateM (List Value))

namespace Rendering

/-- What is written behind bound values, and the values that are bound then. -/
def after {α : Type} (written : Rendering α) (bound : List Value) : Except Error α × List Value :=
  (written.run.run bound).run

/-- Binds a value. Its placeholder has the number of values that are bound then. -/
def bindValue (d : Dialect) (value : Value) : Rendering String := do
  modify fun bound => bound ++ [value]
  return d.placeholder (← get).length

end Rendering

/-- A condition over the row source `source`. -/
def Condition.render (r : Relation) (d : Dialect) (source : String) (c : Condition) : Rendering String := do
  let _ ← liftExcept (r.requireField c.field)
  let column := (Reference.column source c.field).text d
  match c.operator with
  | .isNull => return String.join [column, " IS NULL"]
  | .notNull => return String.join [column, " IS NOT NULL"]
  | .member =>
    if c.values.any Value.isNull then throw (.configuration (.nullInList c.field))
    if c.values.isEmpty then return "1 = 0"
    let placeholders ← c.values.mapM (Rendering.bindValue d)
    return String.join [column, " IN (", String.intercalate ", " placeholders, ")"]
  | .compare comparison =>
    match c.values with
    | [value] =>
      if value.isNull then throw (.configuration (.comparisonWithNull c.field))
      return String.join [column, " ", comparison.symbol, " ", ← Rendering.bindValue d value]
    | _ => throw (.configuration (.valueCount c.field))

/-- The conditions of a clause; a clause without conditions is refused. -/
def Clause.render (r : Relation) (d : Dialect) (source : String) (conditions : List Condition) :
    Rendering String := do
  if conditions.isEmpty then throw (.configuration .emptyClause)
  let terms ← conditions.mapM (Condition.render r d source)
  return String.join ["(", String.intercalate " AND " terms, ")"]

/-- The condition as text: the clauses that rows must meet, then those they must not meet. -/
def PreFilter.render (r : Relation) (d : Dialect) (source : String) (f : PreFilter) : Rendering String := do
  let keep ← f.keep.mapM (Clause.render r d source)
  let drop ← f.drop.mapM fun clause => do
    return String.join ["NOT COALESCE(", ← Clause.render r d source clause, ", FALSE)"]
  let terms := keep ++ drop
  return if terms.isEmpty then "1 = 1" else String.intercalate " AND " terms

end ForestQuery
