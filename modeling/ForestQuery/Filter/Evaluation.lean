import ForestQuery.Filter
import ForestQuery.Value.Affinity
/-!
What a filter means for a row, with three truth values: true, false and unknown. A comparison with an
absent value is unknown. Main statements: a conjunction is true when all its members are, and a row
takes part exactly when every clause to keep by is true and none to drop by is.
-/

namespace ForestQuery

/-- A truth value; `none` is unknown. -/
abbrev Truth := Option Bool

namespace Truth

/-- False if one side is, else unknown if one side is. -/
def and : Truth → Truth → Truth
  | some false, _ | _, some false => some false
  | some true, some true => some true
  | _, _ => none

def or : Truth → Truth → Truth
  | some true, _ | _, some true => some true
  | some false, some false => some false
  | _, _ => none

def not (t : Truth) : Truth := t.map (!·)

/-- Unknown counts as false. -/
def known (t : Truth) : Truth := some (t.getD false)

def all (ts : List Truth) : Truth := ts.foldr and (some true)

def any (ts : List Truth) : Truth := ts.foldr or (some false)

theorem and_eq_true_iff {a b : Truth} : and a b = some true ↔ a = some true ∧ b = some true := by
  cases a with
  | none => cases b with
    | none => simp [and]
    | some y => cases y <;> simp [and]
  | some x => cases b with
    | none => cases x <;> simp [and]
    | some y => cases x <;> cases y <;> simp [and]

theorem all_eq_true_iff {ts : List Truth} : all ts = some true ↔ ∀ t ∈ ts, t = some true := by
  induction ts with
  | nil => simp [all]
  | cons t r ih =>
    rw [show all (t :: r) = and t (all r) from rfl, and_eq_true_iff, ih]
    simp

theorem not_known_eq_true_iff {t : Truth} : not (known t) = some true ↔ t ≠ some true := by
  cases t with
  | none => simp [not, known]
  | some b => cases b <;> simp [not, known]

end Truth

/-- Whether an order of two values is what the comparison asks for. -/
def Comparison.accepts : Comparison → Ordering → Bool
  | .equal, o => o == .eq
  | .notEqual, o => o != .eq
  | .less, o => o == .lt
  | .lessEqual, o => o != .gt
  | .greater, o => o == .gt
  | .greaterEqual, o => o != .lt

/-- What a filter sees of a row: the value of each column and the leaning of its type. -/
structure RowView where
  value : String → Value
  affinity : String → Affinity

namespace RowView

/-- A comparison of a column with a value, which is unknown when one of them is absent. -/
def compare (row : RowView) (column : String) (c : Comparison) (value : Value) : Truth :=
  let stored := row.value column
  if stored.isNull || value.isNull then none
  else some (c.accepts (Value.compare stored ((row.affinity column).operand value)))

end RowView

namespace Term

def eval (row : RowView) : Term → Truth
  | compare column c value => row.compare column c value
  | member column first rest =>
    Truth.any ((first :: rest).map fun value => row.compare column .equal value)
  | never => some false
  | isNull column => some (row.value column).isNull
  | notNull column => some (!(row.value column).isNull)

end Term

def Clause.eval (row : RowView) (c : Clause) : Truth := Truth.all (c.map (Term.eval row))

namespace Clauses

def eval (row : RowView) (c : Clauses) : Truth :=
  Truth.all (c.keep.map (Clause.eval row) ++
    c.drop.map fun clause => Truth.not (Truth.known (clause.eval row)))

/-- Whether a row takes part. -/
def admits (row : RowView) (c : Clauses) : Bool := c.eval row == some true

end Clauses

end ForestQuery
