import ForestQuery.Text.Blank
/-!
The declared types of columns, and the names under which a type may be asked for.
-/

namespace ForestQuery

/-- Declared type of a column. -/
inductive FieldType where
  | integer
  | text
  | uuid
  | real
  | boolean
  | blob
deriving DecidableEq, Repr

/-- A name as it is looked up: without blanks around it and in lower case. Every accepted name is
ASCII, and no letter outside ASCII has a lower case that occurs in one of them. -/
def looseName (s : String) : String := (Text.trim s).map Char.toLower

namespace FieldType

def name : FieldType → String
  | integer => "integer"
  | text => "text"
  | uuid => "uuid"
  | real => "real"
  | boolean => "boolean"
  | blob => "blob"

def all : List FieldType := [integer, text, uuid, real, boolean, blob]

/-- The type with exactly this name. -/
def ofName? (s : String) : Option FieldType := all.find? fun t => t.name == s

/-- The names that other systems give the type, besides its own. -/
def aliases : FieldType → List String
  | integer => ["int", "bigint", "smallint"]
  | text => ["varchar", "char", "string"]
  | uuid => []
  | real => ["float", "double"]
  | boolean => ["bool"]
  | blob => ["bytea", "binary"]

/-- The type that a loosely written name means. -/
def ofLooseName? (s : String) : Option FieldType :=
  all.find? fun t => (t.name :: t.aliases).contains (looseName s)

theorem ofName?_name (t : FieldType) : ofName? t.name = some t := by cases t <;> rfl

end FieldType

end ForestQuery
