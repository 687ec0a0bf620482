import ForestQuery.Database.Catalogue
import ForestQuery.Failure
import ForestQuery.Traversal
/-!
A database with a compiler for one of its tables. Requests are compiled and run; rows are delivered
one by one, so a row that cannot be read fails only after the rows before it.
-/

namespace ForestQuery

/-- A store of the rows of one relation. -/
structure Store where
  compiler : Compiler
  database : Database
deriving DecidableEq

namespace Store

/-- A store over an empty database. It runs statements of one dialect only, and numbers siblings
unless the settings say otherwise. -/
def new (relation : Relation) (config : Config) : Except Error Store := do
  if config.dialect ≠ .sqlite then throw (.configuration (.storeDialect config.dialect))
  let config := { config with windowFunctions := some (config.windowFunctions.getD true) }
  return ⟨← Compiler.new relation config, .empty⟩

def relation (s : Store) : Relation := s.compiler.relation

/-- The store after a change of its database, with what else the change gave. -/
def change {α : Type} (s : Store) (r : Except Error (Database × α)) : Except Error (Store × α) :=
  r.map fun p => ({ s with database := p.1 }, p.2)

/-- Creates the table of the relation and its index where they are missing. -/
def create (s : Store) : Store × Except Error Unit :=
  let (d, r) := s.database.createTree s.relation
  ({ s with database := d }, r)

/-- The values of a row by the columns of the relation; missing ones are absent. -/
def rowOf (s : Store) (values : List Value) : Except Error (List (String × Value)) :=
  let names := s.relation.columns.map Field.name
  if values.length ≤ names.length then
    .ok (names.zip (values ++ List.replicate (names.length - values.length) .null))
  else .error .store

/-- Adds a row, its values in the order of the columns. -/
def insert (s : Store) (values : List Value) : Except Error (Store × Nat) := do
  s.change (s.database.insert s.relation.table (← s.rowOf values))

/-- Adds rows one by one. -/
def insertAll (s : Store) : List (List Value) → Except Error Store
  | [] => .ok s
  | row :: rows => do
    let (s, _) ← s.insert row
    s.insertAll rows

/-- Changes a column of the row with a key. -/
def update (s : Store) (id : Value) (column : String) (v : Value) : Except Error (Store × Nat) := do
  Identifier.check column
  s.change (s.database.modify s.relation.table fun t => t.update s.relation.key id column v)

/-- Removes the row with a key. -/
def delete (s : Store) (id : Value) : Except Error (Store × Nat) :=
  s.change (s.database.modify s.relation.table fun t => .ok (t.delete s.relation.key id))

/-- Adds values to a table that refers to the nodes. -/
def addRelated (s : Store) (table column : String) (values : List Value) : Store × Except Error Nat :=
  let (d, r) := s.database.addRelated table column values
  ({ s with database := d }, r)

def compile (s : Store) (q : Request) : Except Error Compiled := s.compiler.compile q

/-- Whether a name of the relation can be read in a statement: it is a column of the table, or it
stands for the number of the row and the statement reads the table itself. -/
def canReadName (c : Statement) (t : Table) (name : String) : Bool :=
  match t.target name with
  | .column _ => true
  | .number => c.scope == .table
  | .text _ => false

/-- Whether the store can read a statement: its table has the columns, and none of the names that the
statement gives to its parts hides the table. -/
def canRead (c : Statement) (t : Table) : Bool :=
  (c.relation.columns.all fun f => canReadName c t f.name) &&
    !c.partNames.any (Identifier.sameName c.relation.table)

/-- The rows that a compiled request returns. -/
def run (s : Store) (c : Compiled) : Except Error (List (Option RawRow)) :=
  match s.database.readable? s.relation.table with
  | none => .error .store
  | some t =>
    if canRead c.statement t then
      match c.statement.run t.records with
      | .ok rows => .ok rows
      | .error raised => .error (Failure.ofRaised c.maxDepth raised)
    else .error .store

/-- Hands rows to `f` one by one, up to the first failure; counts those that were taken. -/
def deliver {σ : Type} (c : Compiled) (f : σ → TreeRow → Except Error σ) (x : σ) (count : Nat) :
    List (Option RawRow) → σ × Except Error Nat
  | [] => (x, .ok count)
  | none :: _ => (x, .error .store)
  | some raw :: rest =>
    match c.decode raw with
    | .error e => (x, .error e)
    | .ok row =>
      match f x row with
      | .error e => (x, .error e)
      | .ok y => deliver c f y (count + 1) rest

/-- Runs a request and hands its rows to `f`, starting from `x`. -/
def forEach {σ : Type} (s : Store) (q : Request) (x : σ) (f : σ → TreeRow → Except Error σ) :
    σ × Except Error Nat :=
  match s.compile q with
  | .error e => (x, .error e)
  | .ok c =>
    match s.run c with
    | .error e => (x, .error e)
    | .ok rows => deliver c f x 0 rows

/-- The rows of a request in the order of the traversal. -/
def query (s : Store) (q : Request) : Except Error (List TreeRow) :=
  match s.forEach q [] fun rows row => .ok (row :: rows) with
  | (rows, .ok _) => .ok rows.reverse
  | (_, .error e) => .error e

/-- Takes rows until `limit` of them were seen, and fails at the next one. -/
def takeUpTo (limit : Nat) (seen : List NodeId) (row : TreeRow) : Except Error (List NodeId) :=
  if seen.length = limit then .error (.configuration (.stopped "stop")) else .ok (row.id :: seen)

/-- The nodes that a request delivers to a receiver with a limit, and how the delivery ended. -/
def visit (s : Store) (q : Request) (limit : Nat) : List NodeId × Except Error Nat :=
  let r := s.forEach q [] (takeUpTo limit)
  (r.1.reverse, r.2)

/-- Fails as an expression of a statement would. -/
def raise (s : Store) (tag : String) (argument : Value) : Error :=
  Failure.ofRaise s.compiler.config.maxDepth tag.toList argument.scalar.raisedChars

/-- Complements the hexadecimal digits of a text; an absent value stays absent. -/
def complement : Value → Except Error (Option String)
  | .null => .ok none
  | .text t => .ok (some (String.ofList (Text.complementHex t.toList)))
  | .integer _ | .real _ | .blob _ => .error .store

/-- The spelling of a constant in descriptions. -/
def dialectWord : Dialect → String
  | .sqlite => "Sqlite"
  | .postgres => "Postgres"
  | .mysql => "Mysql"

def encodingWord : EncodingMode → String
  | .auto => "Auto"
  | .native => "Native"
  | .fixedWidth => "FixedWidth"

def optionWord : Option Bool → String
  | none => "None"
  | some b => String.join ["Some(", toString b, ")"]

/-- A description of settings. -/
def configText (c : Config) : String :=
  String.join ["TreeQueryConfig \x7b dialect: ", dialectWord c.dialect, ", max_depth: ",
    toString c.maxDepth, ", encoding: ", encodingWord c.encoding, ", window_functions: ",
    optionWord c.windowFunctions, ", text_width: ", toString c.textWidth, ", key_bytes: ",
    toString c.keyBytes, ", warn_multi_field_ordering: ", toString c.warnMultiFieldOrdering, " \x7d"]

/-- A description of the store. -/
def describe (s : Store) : String :=
  String.join ["TreeStore \x7b table: ", Text.quoted s.relation.table, ", config: ",
    configText s.compiler.config, ", .. \x7d"]

end Store

end ForestQuery
