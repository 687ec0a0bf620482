import ForestQuery.Database
/-!
The tables in which a database describes itself: one row for each table and index, with the page where
its contents start. They can be read and not changed.
-/

namespace ForestQuery

/-- A row of the catalogue. -/
structure CatalogueEntry where
  kind : String
  name : String
  table : String
  /-- The statement that created the object; an index that a table brings along has none. -/
  sql : Option String
deriving DecidableEq

namespace Catalogue

/-- Names of the catalogue. -/
def names : List String := ["sqlite_master", "sqlite_schema"]

/-- Names of the catalogue of temporary objects, of which there are none. -/
def temporaryNames : List String := ["sqlite_temp_master", "sqlite_temp_schema"]

def columns : List TableColumn :=
  [⟨"type", .text⟩, ⟨"name", .text⟩, ⟨"tbl_name", .text⟩, ⟨"rootpage", .integer⟩, ⟨"sql", .text⟩]

/-- The entries for an object. A table brings an index along for a key that is no integer. -/
def entriesOf : DatabaseObject → List CatalogueEntry
  | .table t =>
    let entry : CatalogueEntry := ⟨"table", t.name, t.name, some (String.join ["CREATE TABLE ", t.declaration])⟩
    match t.key with
    | none => [entry]
    | some key =>
      if t.numbers key then [entry]
      else [entry, ⟨"index", String.join ["sqlite_autoindex_", t.name, "_1"], t.name, none⟩]
  | .index i => [⟨"index", i.name, i.table, some (String.join ["CREATE INDEX ", i.declaration])⟩]

/-- The rows for entries, from a number on. The first page belongs to the catalogue itself. -/
def rowsFrom (number : Nat) : List CatalogueEntry → List Row
  | [] => []
  | e :: es =>
    ⟨Int64.ofNat number,
      [.text e.kind, .text e.name, .text e.table, .integer (Int64.ofNat (number + 1)),
       (e.sql.map Value.text).getD .null]⟩ :: rowsFrom (number + 1) es

/-- The catalogue of objects under one of its names. -/
def table (name : String) (objects : List DatabaseObject) : Table where
  name := name
  declaration := ""
  columns := columns
  key := none
  rows := rowsFrom 1 (objects.flatMap entriesOf)

end Catalogue

namespace Database

/-- The table of a name that can be read. -/
def readable? (d : Database) (name : String) : Option Table :=
  match d.table? name with
  | some t => some t
  | none =>
    if Catalogue.names.contains (Identifier.lower name) then some (Catalogue.table name d.objects)
    else if Catalogue.temporaryNames.contains (Identifier.lower name) then some (Catalogue.table name [])
    else none

end Database

end ForestQuery
