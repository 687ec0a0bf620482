import ForestQuery.Dialect.Spelling
import ForestQuery.Relation
import ForestQuery.Expr
/-!
Conditions on the rows that take part in a traversal. A filter is checked against a relation, which
gives clauses; clauses have a text with placeholders, and the values bound to them in the same order.
-/

namespace ForestQuery

inductive Comparison where
  | equal
  | notEqual
  | less
  | lessEqual
  | greater
  | greaterEqual
deriving DecidableEq

namespace Comparison

def name : Comparison → String
  | equal => "eq"
  | notEqual => "ne"
  | less => "lt"
  | lessEqual => "le"
  | greater => "gt"
  | greaterEqual => "ge"

def symbol : Comparison → String
  | equal => "="
  | notEqual => "<>"
  | less => "<"
  | lessEqual => "<="
  | greater => ">"
  | greaterEqual => ">="

def all : List Comparison := [equal, notEqual, less, lessEqual, greater, greaterEqual]

end Comparison

/-- What a condition asks of a column. -/
inductive Operator where
  | compare (c : Comparison)
  | member
  | isNull
  | notNull
deriving DecidableEq

namespace Operator

def name : Operator → String
  | compare c => c.name
  | member => "in"
  | isNull => "is_null"
  | notNull => "not_null"

def all : List Operator := Comparison.all.map compare ++ [member, isNull, notNull]

def ofName? (s : String) : Option Operator := all.find? fun o => o.name == s

end Operator

/-- A condition as it is asked for. -/
structure Condition where
  field : String
  operator : Operator
  values : List Value
deriving DecidableEq

/-- A condition that was checked against a relation. -/
inductive Term where
  | compare (column : String) (c : Comparison) (value : Value)
  /-- Membership in a list that is not empty. -/
  | member (column : String) (first : Value) (rest : List Value)
  /-- Membership in the empty list. -/
  | never
  | isNull (column : String)
  | notNull (column : String)
deriving DecidableEq

namespace Term

/-- The values bound to the placeholders of the term. -/
def values : Term → List Value
  | compare _ _ value => [value]
  | member _ first rest => first :: rest
  | never | isNull _ | notNull _ => []

/-- Placeholders for so many values behind the first `bound` ones. -/
def placeholders (d : Dialect) (bound count : Nat) : List String :=
  (List.range count).map fun i => d.placeholder (bound + i + 1)

/-- The text of a term over the row source `source`, behind `bound` placeholders. -/
def text (d : Dialect) (source : String) (bound : Nat) : Term → String
  | compare column c _ =>
    String.join [(Reference.column source column).text d, " ", c.symbol, " ", d.placeholder (bound + 1)]
  | member column _ rest =>
    String.join [(Reference.column source column).text d, " IN (",
      String.intercalate ", " (placeholders d bound (rest.length + 1)), ")"]
  | never => "1 = 0"
  | isNull column => String.join [(Reference.column source column).text d, " IS NULL"]
  | notNull column => String.join [(Reference.column source column).text d, " IS NOT NULL"]

end Term

/-- Why a filter is refused, and the values that were bound before that. -/
structure Refusal where
  error : Error
  bound : List Value
deriving DecidableEq

namespace Condition

/-- Checks a condition: a known column, and values that can be compared. -/
def check (r : Relation) (c : Condition) : Except Error Term := do
  let _ ← r.requireField c.field
  match c.operator with
  | .isNull => return .isNull c.field
  | .notNull => return .notNull c.field
  | .member =>
    if c.values.any Value.isNull then throw (.configuration (.nullInList c.field))
    match c.values with
    | [] => return .never
    | first :: rest => return .member c.field first rest
  | .compare comparison =>
    match c.values with
    | [value] =>
      if value.isNull then throw (.configuration (.comparisonWithNull c.field))
      return .compare c.field comparison value
    | _ => throw (.configuration (.valueCount c.field))

/-- Checks conditions one by one up to the first that is refused. -/
def checkAll (r : Relation) : List Condition → Except Refusal (List Term)
  | [] => .ok []
  | c :: cs =>
    match c.check r with
    | .error error => .error ⟨error, []⟩
    | .ok term =>
      match checkAll r cs with
      | .error refusal => .error { refusal with bound := term.values ++ refusal.bound }
      | .ok terms => .ok (term :: terms)

end Condition

/-- Terms that must hold together. -/
abbrev Clause := List Term

namespace Clause

def values (c : Clause) : List Value := c.flatMap Term.values

/-- The texts of the terms, each behind the placeholders of those before it. -/
def termTexts (d : Dialect) (source : String) (bound : Nat) : List Term → List String
  | [] => []
  | t :: ts => t.text d source bound :: termTexts d source (bound + t.values.length) ts

def text (d : Dialect) (source : String) (bound : Nat) (c : Clause) : String :=
  String.join ["(", String.intercalate " AND " (termTexts d source bound c), ")"]

/-- Checks the conditions of a clause; a clause without conditions is refused. -/
def check (r : Relation) (conditions : List Condition) : Except Refusal Clause :=
  if conditions.isEmpty then .error ⟨.configuration .emptyClause, []⟩
  else Condition.checkAll r conditions

/-- Checks clauses one by one up to the first that is refused. -/
def checkAll (r : Relation) : List (List Condition) → Except Refusal (List Clause)
  | [] => .ok []
  | c :: cs =>
    match check r c with
    | .error refusal => .error refusal
    | .ok clause =>
      match checkAll r cs with
      | .error refusal => .error { refusal with bound := clause.values ++ refusal.bound }
      | .ok clauses => .ok (clause :: clauses)

/-- The texts of clauses, each behind the placeholders of those before it. -/
def texts (d : Dialect) (source : String) (bound : Nat) : List Clause → List String
  | [] => []
  | c :: cs => c.text d source bound :: texts d source (bound + c.values.length) cs

end Clause

/-- Which rows take part: those that meet every clause of `keep` and no clause of `drop`. -/
structure PreFilter where
  keep : List (List Condition)
  drop : List (List Condition)
deriving DecidableEq

/-- A filter that was checked against a relation. -/
structure Clauses where
  keep : List Clause
  drop : List Clause
deriving DecidableEq

namespace Clauses

/-- All rows take part. -/
def none : Clauses := ⟨[], []⟩

/-- The bound values in the order of their placeholders. -/
def values (c : Clauses) : List Value := c.keep.flatMap Clause.values ++ c.drop.flatMap Clause.values

/-- The condition as text, behind `bound` placeholders. A clause to drop by that is unknown for a row
keeps the row. -/
def text (d : Dialect) (source : String) (bound : Nat) (c : Clauses) : String :=
  let keep := Clause.texts d source bound c.keep
  let drop := Clause.texts d source (bound + (c.keep.flatMap Clause.values).length) c.drop
  let terms := keep ++ drop.map fun body => String.join ["NOT COALESCE(", body, ", FALSE)"]
  if terms.isEmpty then "1 = 1" else String.intercalate " AND " terms

end Clauses

namespace PreFilter

def empty : PreFilter := ⟨[], []⟩

def isEmpty (f : PreFilter) : Bool := f.keep.isEmpty && f.drop.isEmpty

/-- The filter with one more clause that rows must meet. -/
def keeping (f : PreFilter) (conditions : List Condition) : PreFilter :=
  { f with keep := f.keep ++ [conditions] }

/-- The filter with one more clause that rows must not meet. -/
def dropping (f : PreFilter) (conditions : List Condition) : PreFilter :=
  { f with drop := f.drop ++ [conditions] }

/-- Checks the clauses that rows must meet, then those they must not meet. -/
def check (r : Relation) (f : PreFilter) : Except Refusal Clauses :=
  match Clause.checkAll r f.keep with
  | .error refusal => .error refusal
  | .ok keep =>
    match Clause.checkAll r f.drop with
    | .error refusal => .error { refusal with bound := keep.flatMap Clause.values ++ refusal.bound }
    | .ok drop => .ok ⟨keep, drop⟩

end PreFilter

end ForestQuery
