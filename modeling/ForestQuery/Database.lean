import ForestQuery.Relation.Declaration
import ForestQuery.Table
/-!
A collection of tables and of indexes on them, in the order of their creation. Names of tables, of
indexes and of columns are the same in any case of their letters, and a table and an index never
share one.
-/

namespace ForestQuery

/-- An index on a table. -/
structure Index where
  name : String
  table : String
  /-- The statement that created the index, from the name on. -/
  declaration : String
deriving DecidableEq

/-- What a database holds. -/
inductive DatabaseObject where
  | table (t : Table)
  | index (i : Index)
deriving DecidableEq

namespace DatabaseObject

def table? : DatabaseObject → Option Table
  | table t => some t
  | index _ => none

def index? : DatabaseObject → Option Index
  | index i => some i
  | table _ => none

end DatabaseObject

structure Database where
  objects : List DatabaseObject
deriving DecidableEq

namespace Database

/-- Beginning of names that the store keeps for itself. -/
def ownBeginning : String := "sqlite_"

def empty : Database := ⟨[]⟩

def table? (d : Database) (name : String) : Option Table :=
  (d.objects.filterMap DatabaseObject.table?).find? fun t => Identifier.sameName t.name name

def index? (d : Database) (name : String) : Option Index :=
  (d.objects.filterMap DatabaseObject.index?).find? fun i => Identifier.sameName i.name name

/-- The database with a changed table in its place. -/
def replace (d : Database) (t : Table) : Database :=
  ⟨d.objects.map fun
    | .table u => .table (if Identifier.sameName u.name t.name then t else u)
    | .index i => .index i⟩

/-- Adds a table if there is none of its name. A name that the store keeps for itself is refused, the
name of an index, and two columns of one name. -/
def create (d : Database) (t : Table) : Except Error Database :=
  let names := t.columns.map fun c => Identifier.lower c.name
  if ownBeginning.toList.isPrefixOf (Identifier.lower t.name).toList then .error .store
  else if (d.table? t.name).isSome then .ok d
  else if (d.index? t.name).isSome then .error .store
  else if names.eraseDups.length ≠ names.length then .error .store
  else .ok ⟨d.objects ++ [.table t]⟩

/-- Adds an index to a table that is there, if there is none of its name. The name of a table is
refused. -/
def createIndex (d : Database) (i : Index) : Except Error Database :=
  match d.table? i.table with
  | none => .error .store
  | some t =>
    if (d.table? i.name).isSome then .error .store
    else if (d.index? i.name).isSome then .ok d
    else .ok ⟨d.objects ++ [.index { i with table := t.name }]⟩

/-- The empty table of a relation. -/
def tableOf (r : Relation) : Table where
  name := r.table
  declaration := r.tableText
  columns := r.columns.map fun f => ⟨f.name, f.type.affinity⟩
  key := some ⟨r.key, r.keyType.affinity⟩
  rows := []

/-- The index on the parent column of a relation. -/
def indexOf (r : Relation) : Index := ⟨r.indexName, r.table, r.indexText⟩

/-- Adds the table of a relation and the index on its parent column, where they are missing. A table
that was added stays even if the index is refused. -/
def createTree (d : Database) (r : Relation) : Database × Except Error Unit :=
  match d.create (tableOf r) with
  | .error e => (d, .error e)
  | .ok d =>
    match d.createIndex (indexOf r) with
    | .error e => (d, .error e)
    | .ok d => (d, .ok ())

/-- Changes a table that is there. -/
def modify (d : Database) (name : String) (f : Table → Except Error (Table × Nat)) :
    Except Error (Database × Nat) :=
  match d.table? name with
  | none => .error .store
  | some t => (f t).map fun p => (d.replace p.1, p.2)

/-- Adds a row to a table, its values given by name. -/
def insert (d : Database) (name : String) (given : List (String × Value)) : Except Error (Database × Nat) :=
  d.modify name fun t => (t.insert given).map fun t => (t, 1)

/-- Adds rows with a value under one name each; tells how far it came. -/
def insertEach (d : Database) (name column : String) : List Value → Database × Except Error Unit
  | [] => (d, .ok ())
  | v :: vs =>
    match d.insert name [(column, v)] with
    | .ok (d, _) => insertEach d name column vs
    | .error e => (d, .error e)

/-- A table with a single column, which stores what it is given. -/
def relatedTable (name column : String) : Table where
  name := name
  declaration := String.join [Relation.quoted name, " (", Relation.quoted column, ")"]
  columns := [⟨column, .none⟩]
  key := none
  rows := []

/-- Adds rows with one value each to a table, which is created with a single column if it is missing. -/
def addRelated (d : Database) (name column : String) (values : List Value) : Database × Except Error Nat :=
  match d.create (relatedTable name column) with
  | .error e => (d, .error e)
  | .ok d =>
    match d.insertEach name column values with
    | (d, .ok ()) => (d, .ok values.length)
    | (d, .error e) => (d, .error e)

end Database

end ForestQuery
