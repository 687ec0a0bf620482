import ForestQuery.Dialect.Spelling
import ForestQuery.Relation
import ForestQuery.Value.Affinity
/-!
The statements that create the table of a relation and the index on its parent column.
-/

namespace ForestQuery

/-- The declared type of a column with this leaning. -/
def Affinity.declared : Affinity → String
  | .integer => "INTEGER"
  | .real => "REAL"
  | .text => "TEXT"
  | .none => "BLOB"

namespace Relation

/-- A name in the quotes of table declarations. -/
def quoted (name : String) : String := Dialect.sqlite.quote name

def declaredType (type : FieldType) : String := type.affinity.declared

/-- The declarations of the columns, the key first and the parent second. -/
def columnDeclarations (r : Relation) : List String :=
  (String.join [quoted r.key, " ", declaredType r.keyType, " PRIMARY KEY NOT NULL"]) ::
  (String.join [quoted r.parent, " ", declaredType r.keyType, " REFERENCES ", quoted r.table, "(",
    quoted r.key, ")"]) ::
  r.fields.map fun f => String.join [quoted f.name, " ", declaredType f.type]

/-- The declaration of the table from its name on. -/
def tableText (r : Relation) : String :=
  String.join [quoted r.table, " (\n  ", String.intercalate ",\n  " r.columnDeclarations, "\n)"]

def createTable (r : Relation) : String := String.join ["CREATE TABLE IF NOT EXISTS ", r.tableText]

/-- Name of the index on the parent column. -/
def indexName (r : Relation) : String := String.join ["idx_", r.table, "_", r.parent]

/-- The declaration of the index from its name on. -/
def indexText (r : Relation) : String :=
  String.join [quoted r.indexName, " ON ", quoted r.table, "(", quoted r.parent, ")"]

def createIndex (r : Relation) : String := String.join ["CREATE INDEX IF NOT EXISTS ", r.indexText]

/-- The statements that create the table and its index where they are missing. -/
def declarations (r : Relation) : List String := [r.createTable, r.createIndex]

end Relation

end ForestQuery
