import ForestQuery.FieldType
/-!
The SQL dialects that a statement can be written for, and the features that planning depends on.
-/

namespace ForestQuery

/-- A target of compiled statements. -/
inductive Dialect where
  | sqlite
  | postgres
  | mysql
deriving DecidableEq, Repr

/-- What a dialect can do. -/
structure Capabilities where
  /-- Arrays with an append operator and lexicographic comparison. -/
  arrays : Bool
  /-- Row numbers within partitions. -/
  windowFunctions : Bool
  /-- Aborting a running statement from inside an expression. -/
  inlineRaise : Bool
  /-- Complementing hexadecimal digits, which descending text keys need. -/
  hexComplement : Bool
deriving DecidableEq

namespace Dialect

def name : Dialect → String
  | sqlite => "sqlite"
  | postgres => "postgres"
  | mysql => "mysql"

def all : List Dialect := [sqlite, postgres, mysql]

/-- The dialect with exactly this name. -/
def ofName? (s : String) : Option Dialect := all.find? fun d => d.name == s

/-- Other names of the dialect. -/
def aliases : Dialect → List String
  | sqlite => ["sqlite3"]
  | postgres => ["postgresql", "pg"]
  | mysql => ["mariadb"]

/-- The dialect that a loosely written name means. -/
def ofLooseName? (s : String) : Option Dialect :=
  all.find? fun d => (d.name :: d.aliases).contains (looseName s)

def capabilities : Dialect → Capabilities
  | sqlite => ⟨false, true, true, true⟩
  | postgres => ⟨true, true, false, true⟩
  | mysql => ⟨false, true, false, false⟩

theorem ofName?_name (d : Dialect) : ofName? d.name = some d := by cases d <;> rfl

end Dialect

end ForestQuery
