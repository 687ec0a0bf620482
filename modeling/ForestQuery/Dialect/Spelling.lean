import ForestQuery.Dialect
import ForestQuery.Segment
/-!
How a dialect spells names, placeholders and the string primitives that encoded columns are built
from. Everything here maps expression texts to expression texts.
-/

namespace ForestQuery

/-- What a statement can be made to fail with while it runs. -/
inductive RaiseKind where
  | depthExceeded
  /-- A value did not fit into a segment of `width` characters. -/
  | overflow (width : Nat)
deriving DecidableEq

namespace RaiseKind

def depthTag : String := "depth_exceeded"

def overflowTag : String := "encoding_overflow"

/-- First argument of the function that fails a statement. -/
def tag : RaiseKind → String
  | depthExceeded => depthTag
  | overflow width => String.join [overflowTag, ":", toString width]

end RaiseKind

namespace Dialect

/-- Name of the function that fails a statement. -/
def raiseFunction : String := "treecte_raise"

/-- Name of the function that complements every hexadecimal digit. -/
def complementFunction : String := "treecte_complement_hex"

/-- A name in the dialect's quotes. -/
def quote (d : Dialect) (name : String) : String :=
  match d with
  | mysql => String.join ["`", name, "`"]
  | sqlite | postgres => String.join ["\"", name, "\""]

/-- Placeholder of the bound parameter with this number, counted from one. -/
def placeholder (d : Dialect) (index : Nat) : String :=
  match d with
  | postgres => String.join ["$", toString index]
  | sqlite | mysql => "?"

def concat (d : Dialect) (parts : List String) : String :=
  match d with
  | mysql => String.join ["CONCAT(", String.intercalate ", " parts, ")"]
  | sqlite | postgres => String.intercalate " || " parts

/-- Number of characters of a text expression. -/
def charLength (d : Dialect) (expr : String) : String :=
  match d with
  | sqlite => String.join ["length(", expr, ")"]
  | postgres => String.join ["char_length(", expr, ")"]
  | mysql => String.join ["CHAR_LENGTH(", expr, ")"]

/-- The decimal text of an integer expression behind zeros. -/
def padInteger (d : Dialect) (expr : String) (width : Nat) : String :=
  match d with
  | sqlite => String.join ["printf('%0", toString width, "d', ", expr, ")"]
  | postgres => String.join ["lpad((", expr, ")::text, ", toString width, ", '0')"]
  | mysql => String.join ["LPAD(CAST(", expr, " AS CHAR), ", toString width, ", '0')"]

/-- A text expression cut or filled to `width` characters. -/
def padText (d : Dialect) (expr : String) (width : Nat) (fill : Char) : String :=
  match d with
  | sqlite =>
    String.join ["substr(", expr, " || '", String.ofList (List.replicate width fill), "', 1, ",
      toString width, ")"]
  | postgres => String.join ["rpad(", expr, ", ", toString width, ", '", fill.toString, "')"]
  | mysql => String.join ["RPAD(", expr, ", ", toString width, ", '", fill.toString, "')"]

/-- Upper-case hexadecimal digits of the bytes of a text expression; none for an absent text. -/
def hex (d : Dialect) (expr : String) : String :=
  match d with
  | sqlite => String.join ["hex(", expr, ")"]
  | postgres => String.join ["upper(encode(convert_to(coalesce((", expr, ")::text, ''), 'UTF8'), 'hex'))"]
  | mysql => String.join ["HEX(COALESCE(", expr, ", ''))"]

/-- Complements every hexadecimal digit, where the dialect can. -/
def complement? (d : Dialect) (expr : String) : Option String :=
  match d with
  | sqlite => some (String.join [complementFunction, "(", expr, ")"])
  | postgres => some (String.join ["translate(", expr, ", '0123456789ABCDEF', 'FEDCBA9876543210')"])
  | mysql => none

/-- Fails the statement, where the dialect can. The argument names a column of the row, so that the
call is evaluated row by row. -/
def raise? (d : Dialect) (kind : RaiseKind) (arg : String) : Option String :=
  if d.capabilities.inlineRaise then some (String.join [raiseFunction, "('", kind.tag, "', ", arg, ")"]) else none

/-- Fails the statement when a condition holds. A dialect that cannot keeps the value. -/
def guard (d : Dialect) (condition : String) (kind : RaiseKind) (arg value : String) : String :=
  match d.raise? kind arg with
  | some raise => String.join ["CASE WHEN ", condition, " THEN ", raise, " ELSE ", value, " END"]
  | none => value

/-- Gives the first value of a growing column a type of `chars` characters, where types are narrow. -/
def widen (d : Dialect) (expr : String) (chars : Nat) : String :=
  match d with
  | mysql => String.join ["CAST(", expr, " AS CHAR(", toString chars, "))"]
  | sqlite | postgres => expr

/-- Compares a text expression byte by byte. -/
def byteOrder (d : Dialect) (expr : String) : String :=
  match d with
  | sqlite => expr
  | postgres => String.join [expr, " COLLATE \"C\""]
  | mysql => String.join ["CAST(", expr, " AS BINARY)"]

/-- Lower-case text of an identifier expression. -/
def lowerUuid (d : Dialect) (expr : String) : String :=
  match d with
  | sqlite => String.join ["lower(", expr, ")"]
  | postgres => String.join ["(", expr, ")::text"]
  | mysql => String.join ["LOWER(", expr, ")"]

/-- A text column as text. -/
def textValue (d : Dialect) (expr : String) : String :=
  match d with
  | postgres => String.join ["(", expr, ")::text"]
  | sqlite | mysql => expr

/-- Element type of an array of values of a column type. -/
def arrayElementType : FieldType → String
  | .integer | .boolean => "bigint"
  | .uuid => "uuid"
  | .text | .real | .blob => "text"

end Dialect

end ForestQuery
