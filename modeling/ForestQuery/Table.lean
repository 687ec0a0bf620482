import ForestQuery.Identifier
import ForestQuery.Value.Affinity
/-!
Tables in memory: numbered rows of values under named columns, with at most one column that identifies
rows. Main statement: every row that a table takes has a value for each column.
-/

namespace ForestQuery

/-- A column with its leaning. -/
structure TableColumn where
  name : String
  affinity : Affinity
deriving DecidableEq

namespace RowNumber

/-- Names that stand for the number of a row where no column has them. -/
def names : List String := ["rowid", "oid", "_rowid_"]

def isName (name : String) : Bool := names.contains (Identifier.lower name)

end RowNumber

/-- A row with its columns. -/
structure Record where
  number : Int64
  cells : List (TableColumn × Value)
deriving DecidableEq

namespace Record

def cell? (r : Record) (name : String) : Option (TableColumn × Value) :=
  r.cells.find? fun c => Identifier.sameName c.1.name name

/-- The value under a name: of a column, or the number of the row. -/
def value (r : Record) (name : String) : Value :=
  match r.cell? name with
  | some c => c.2
  | none => if RowNumber.isName name then .integer r.number else .null

/-- The leaning of what a name stands for. -/
def affinity (r : Record) (name : String) : Affinity :=
  match r.cell? name with
  | some c => c.1.affinity
  | none => if RowNumber.isName name then .integer else .none

end Record

/-- A row of a table. -/
structure Row where
  number : Int64
  values : List Value
deriving DecidableEq

/-- A table. -/
structure Table where
  name : String
  /-- The statement that created the table, from the name on. -/
  declaration : String
  columns : List TableColumn
  /-- The column that identifies rows. A column of integers is the number of the row. -/
  key : Option TableColumn
  /-- The rows in the order of their numbers. -/
  rows : List Row
deriving DecidableEq

namespace Table

/-- What a name in a statement on a table stands for. -/
inductive Target where
  | column (c : TableColumn)
  | number
  /-- A name of nothing in the table stands for itself as a text. -/
  | text (name : String)
deriving DecidableEq

def column? (t : Table) (name : String) : Option TableColumn :=
  t.columns.find? fun c => Identifier.sameName c.name name

def target (t : Table) (name : String) : Target :=
  match t.column? name with
  | some c => .column c
  | none => if RowNumber.isName name then .number else .text name

/-- Whether a column is the number of the row. -/
def numbers (t : Table) (c : TableColumn) : Bool := t.key == some c && c.affinity == .integer

/-- Whether a name stands for the number of the row. -/
def isNumber (t : Table) (name : String) : Bool :=
  match t.target name with
  | .column c => t.numbers c
  | .number => true
  | .text _ => false

/-- Whether a name stands for something that a row holds. -/
def holds (t : Table) (name : String) : Bool :=
  match t.target name with
  | .column _ | .number => true
  | .text _ => false

def record (t : Table) (row : Row) : Record := ⟨row.number, t.columns.zip row.values⟩

def records (t : Table) : List Record := t.rows.map t.record

/-- What a name stands for in a row. -/
def valueAt (t : Table) (name : String) (r : Record) : Value :=
  match t.target name with
  | .column _ | .number => r.value name
  | .text s => .text s

/-- The number for a row that was given none: one more than the largest in use. -/
def nextNumber? (t : Table) : Option Int64 :=
  Text.int64? (((t.rows.map fun row => row.number.toInt).max?.getD 0) + 1)

/-- The number that a value is, if no row has it. -/
def freeNumber (rows : List Row) (v : Value) : Except Error Int64 :=
  match (Affinity.integer.store v).integer? with
  | some n => if rows.any fun row => row.number == n then .error .store else .ok n
  | none => .error .store

/-- The number of a new row. -/
def newNumber (t : Table) (given : List (String × Value)) : Except Error Int64 :=
  let v := ((given.find? fun g => t.isNumber g.1).map Prod.snd).getD .null
  if v.isNull then
    match t.nextNumber? with
    | some n => .ok n
    | none => .error .store
  else freeNumber t.rows v

/-- The values in a column, row by row. -/
def valuesOf (t : Table) (c : TableColumn) : List Value := t.records.map fun r => r.value c.name

/-- Refuses a key value: absent, or in use. -/
def checkKey (used : List Value) (v : Value) : Except Error Unit :=
  if v.isNull || used.any (Value.same v) then .error .store else .ok ()

/-- The value for a column in a new row. -/
def newCell (t : Table) (given : List (String × Value)) (number : Int64) (c : TableColumn) :
    Except Error Value :=
  let v := c.affinity.store (((given.find? fun g => Identifier.sameName g.1 c.name).map Prod.snd).getD .null)
  if t.numbers c then .ok (.integer number)
  else if t.key = some c then (checkKey (t.valuesOf c) v).map fun _ => v
  else .ok v

/-- The values for columns in a new row. -/
def newCells (t : Table) (given : List (String × Value)) (number : Int64) :
    List TableColumn → Except Error (List Value)
  | [] => .ok []
  | c :: cs => do
    let v ← t.newCell given number c
    return v :: (← newCells t given number cs)

/-- Puts a row in its place among rows in the order of their numbers. -/
def place (row : Row) : List Row → List Row
  | [] => [row]
  | r :: rs => if row.number < r.number then row :: r :: rs else r :: place row rs

/-- The table with one more row, whose values are given by name; others are absent. -/
def insert (t : Table) (given : List (String × Value)) : Except Error Table := do
  if given.all fun g => t.holds g.1 then
    let number ← t.newNumber given
    let values ← newCells t given number t.columns
    return { t with rows := place ⟨number, values⟩ t.rows }
  else throw .store

/-- Whether a row has this value under a name. -/
def hasValue (t : Table) (name : String) (v : Value) (row : Row) : Bool :=
  let r := t.record row
  let operand := match t.target name with
    | .column _ | .number => (r.affinity name).operand v
    | .text _ => v
  !v.isNull && Value.same (t.valueAt name r) operand

/-- A row with another value in a column. -/
def setCell (t : Table) (c : TableColumn) (v : Value) (row : Row) : Row :=
  { row with values := (t.columns.zip row.values).map fun p => if p.1 = c then v else p.2 }

/-- A row with another number. -/
def setNumber (t : Table) (n : Int64) (row : Row) : Row :=
  let values := (t.columns.zip row.values).map fun p => if t.numbers p.1 then .integer n else p.2
  ⟨n, values⟩

/-- Gives rows another number, which only one row can have. -/
def renumber (t : Table) (hit : Row → Bool) (v : Value) : Except Error Table := do
  let (hits, others) := t.rows.partition hit
  let n ← freeNumber others v
  match hits with
  | [row] => return { t with rows := place (t.setNumber n row) others }
  | _ => throw .store

/-- Gives rows another value in a column; a key value only one row can have. -/
def assign (t : Table) (hit : Row → Bool) (c : TableColumn) (v : Value) : Except Error Table := do
  let stored := c.affinity.store v
  let (hits, others) := t.rows.partition hit
  if t.key = some c then
    checkKey (others.map fun row => (t.record row).value c.name) stored
    if 1 < hits.length then throw .store
  return { t with rows := t.rows.map fun row => if hit row then t.setCell c stored row else row }

/-- Changes what a name stands for in the rows with a value under another name; tells how many rows
were changed. -/
def update (t : Table) (keyName : String) (id : Value) (name : String) (v : Value) :
    Except Error (Table × Nat) := do
  let hit := t.hasValue keyName id
  let count := (t.rows.filter hit).length
  match t.target name with
  | .text _ => throw .store
  | .number => if count = 0 then return (t, 0) else return (← t.renumber hit v, count)
  | .column c =>
    if count = 0 then return (t, 0)
    else if t.numbers c then return (← t.renumber hit v, count)
    else return (← t.assign hit c v, count)

/-- Removes the rows with a value under a name; tells how many rows were removed. -/
def delete (t : Table) (keyName : String) (id : Value) : Table × Nat :=
  let (gone, kept) := t.rows.partition (t.hasValue keyName id)
  ({ t with rows := kept }, gone.length)

/-- Puts a value into the first group of its equals, or into a group of its own. -/
def addToGroups (v : Value) : List (Value × Nat) → List (Value × Nat)
  | [] => [(v, 1)]
  | (w, n) :: gs => if Value.same v w then (w, n + 1) :: gs else (w, n) :: addToGroups v gs

/-- The values under a name with their numbers, absent ones left out, in the order of the values. -/
def groups (t : Table) (name : String) : List (Value × Nat) :=
  let values := (t.records.map (t.valueAt name)).filter fun v => !v.isNull
  let sorted := values.mergeSort fun v w => Value.compare v w != .gt
  sorted.foldl (fun gs v => addToGroups v gs) []

theorem length_newCells {t : Table} {given : List (String × Value)} {number : Int64}
    {cs : List TableColumn} {values : List Value} (h : t.newCells given number cs = .ok values) :
    values.length = cs.length := by
  induction cs generalizing values with
  | nil => cases h; rfl
  | cons c r ih =>
    simp only [newCells] at h
    cases hv : t.newCell given number c with
    | error e => simp [hv, bind, Except.bind] at h
    | ok v =>
      cases hr : t.newCells given number r with
      | error e => simp [hv, hr, bind, Except.bind] at h
      | ok vs =>
        simp only [hv, hr, bind, Except.bind, pure, Except.pure, Except.ok.injEq] at h
        subst h
        simp [ih hr]

end Table

end ForestQuery
