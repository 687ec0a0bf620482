import ForestQuery.Filter.Evaluation
/-!
The condition of a filter as an expression that a database reads and evaluates: tests of columns against
placeholders, groups, negation, and `COALESCE`, joined by `AND`. The expression has a text in each dialect,
and a truth value for whatever a database makes of the columns of a row.
-/

namespace ForestQuery

/-- What a database makes of the columns of a row: which of them are absent, and how the others compare
with a value. Collations and conversions of types are part of this. -/
structure ColumnTests where
  isNull : String → Bool
  accepts : String → Comparison → Value → Bool

namespace ColumnTests

/-- A comparison of a column with a value, unknown when one of them is absent. -/
def compare (row : ColumnTests) (column : String) (c : Comparison) (value : Value) : Truth :=
  if row.isNull column || value.isNull then none else some (row.accepts column c value)

end ColumnTests

/-- The tests of a row as the database that is run here makes them. -/
def RowView.tests (row : RowView) : ColumnTests where
  isNull column := (row.value column).isNull
  accepts column c value := c.accepts (Value.compare (row.value column) ((row.affinity column).operand value))

mutual

/-- What stands on one side of `AND`. Placeholders are counted from one. -/
inductive Operand where
  | compare (column : String) (c : Comparison) (index : Nat)
  | member (column : String) (indices : List Nat)
  | isNull (column : String)
  | notNull (column : String)
  | constant (b : Bool)
  | group (p : Predicate)
  /-- Unknown counts as false. -/
  | coalesce (p : Predicate)
  | not (o : Operand)

/-- Operands joined by `AND`, from left to right. -/
inductive Predicate where
  | single (o : Operand)
  | and (p : Predicate) (o : Operand)

end

mutual

def Operand.text (d : Dialect) (source : String) : Operand → String
  | .compare column c index =>
    String.join [(Reference.column source column).text d, " ", c.symbol, " ", d.placeholder index]
  | .member column indices =>
    String.join [(Reference.column source column).text d, " IN (",
      String.intercalate ", " (indices.map d.placeholder), ")"]
  | .isNull column => String.join [(Reference.column source column).text d, " IS NULL"]
  | .notNull column => String.join [(Reference.column source column).text d, " IS NOT NULL"]
  | .constant b => if b then "1 = 1" else "1 = 0"
  | .group p => String.join ["(", p.text d source, ")"]
  | .coalesce p => String.join ["COALESCE(", p.text d source, ", FALSE)"]
  | .not o => String.join ["NOT ", o.text d source]

def Predicate.text (d : Dialect) (source : String) : Predicate → String
  | .single o => o.text d source
  | .and p o => String.join [p.text d source, " AND ", o.text d source]

end

mutual

/-- The placeholders from left to right. -/
def Operand.placeholders : Operand → List Nat
  | .compare _ _ index => [index]
  | .member _ indices => indices
  | .isNull _ | .notNull _ | .constant _ => []
  | .group p | .coalesce p => p.placeholders
  | .not o => o.placeholders

def Predicate.placeholders : Predicate → List Nat
  | .single o => o.placeholders
  | .and p o => p.placeholders ++ o.placeholders

end

/-- The value that is bound to a placeholder. -/
def boundTo (params : List Value) (index : Nat) : Value := params.getD (index - 1) .null

mutual

/-- The truth value for a row, with values for the placeholders. -/
def Operand.eval (row : ColumnTests) (params : List Value) : Operand → Truth
  | .compare column c index => row.compare column c (boundTo params index)
  | .member column indices =>
    Truth.any (indices.map fun index => row.compare column .equal (boundTo params index))
  | .isNull column => some (row.isNull column)
  | .notNull column => some (!row.isNull column)
  | .constant b => some b
  | .group p => p.eval row params
  | .coalesce p => Truth.known (p.eval row params)
  | .not o => Truth.not (o.eval row params)

def Predicate.eval (row : ColumnTests) (params : List Value) : Predicate → Truth
  | .single o => o.eval row params
  | .and p o => Truth.and (p.eval row params) (o.eval row params)

end

/-- Operands joined by `AND`; without any the expression is true. -/
def Predicate.all : List Operand → Predicate
  | [] => .single (.constant true)
  | o :: os => os.foldl .and (.single o)

/-- A term behind `bound` placeholders. -/
def Term.operand (bound : Nat) : Term → Operand
  | compare column c _ => .compare column c (bound + 1)
  | member column _ rest => .member column (List.range' (bound + 1) (rest.length + 1))
  | never => .constant false
  | isNull column => .isNull column
  | notNull column => .notNull column

/-- The truth value of a term for a row. -/
def Term.truth (row : ColumnTests) : Term → Truth
  | compare column c value => row.compare column c value
  | member column first rest =>
    Truth.any ((first :: rest).map fun value => row.compare column .equal value)
  | never => some false
  | isNull column => some (row.isNull column)
  | notNull column => some (!row.isNull column)

namespace Clause

/-- The terms of a clause, each behind the placeholders of those before it. -/
def termOperands (bound : Nat) : List Term → List Operand
  | [] => []
  | t :: ts => t.operand bound :: termOperands (bound + t.values.length) ts

def operand (bound : Nat) (c : Clause) : Operand := .group (.all (termOperands bound c))

def truth (row : ColumnTests) (c : Clause) : Truth := Truth.all (c.map (Term.truth row))

/-- Clauses, each behind the placeholders of those before it. -/
def operands (bound : Nat) : List Clause → List Operand
  | [] => []
  | c :: cs => c.operand bound :: operands (bound + c.values.length) cs

end Clause

namespace Clauses

/-- The condition behind `bound` placeholders. -/
def predicate (bound : Nat) (c : Clauses) : Predicate :=
  .all (Clause.operands bound c.keep ++
    (Clause.operands (bound + (c.keep.flatMap Clause.values).length) c.drop).map fun o =>
      .not (.coalesce (.single o)))

def truth (row : ColumnTests) (c : Clauses) : Truth :=
  Truth.all (c.keep.map (Clause.truth row) ++
    c.drop.map fun clause => Truth.not (Truth.known (clause.truth row)))

end Clauses

end ForestQuery
