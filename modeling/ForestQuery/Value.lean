import ForestQuery.Binary64.Layout
import ForestQuery.Text.Quoted
import ForestQuery.Uuid
/-!
Column values and node identifiers, and their texts in messages.
-/

namespace ForestQuery

/-- A single column value. -/
inductive Value where
  | null
  | integer (i : Int64)
  | real (x : Binary64)
  | text (s : String)
  | blob (bytes : List UInt8)
deriving DecidableEq

namespace Value

def integer? : Value → Option Int64
  | integer i => some i
  | _ => none

def text? : Value → Option String
  | text s => some s
  | _ => none

def isNull : Value → Bool
  | null => true
  | _ => false

/-- The integer for a count. -/
def ofCount (n : Nat) : Value := ((Text.int64? n).map integer).getD null

/-- The decimal text of an integer. -/
def integerText (i : Int64) : String := String.ofList (Text.integerChars i.toInt)

/-- The value as messages show it. -/
def messageText : Value → String
  | null => "Null"
  | integer i => String.join ["Integer(", integerText i, ")"]
  | real x => String.join ["Real(", x.messageText, ")"]
  | text s => String.join ["Text(", Text.quoted s, ")"]
  | blob bytes => String.join ["Blob([",
    String.intercalate ", " (bytes.map fun b => String.ofList (Text.decimalDigits b.toNat)), "])"]

end Value

/-- Identifier of a node. -/
inductive NodeId where
  | int (i : Int64)
  | uuid (u : Uuid)
deriving DecidableEq

namespace NodeId

def toValue : NodeId → Value
  | int i => .integer i
  | uuid u => .text u.text

def display : NodeId → String
  | int i => Value.integerText i
  | uuid u => u.text

/-- Integers come before universally unique identifiers; each kind in its own order. -/
def compare : NodeId → NodeId → Ordering
  | int i, int j => Ord.compare i.toInt j.toInt
  | int _, uuid _ => .lt
  | uuid _, int _ => .gt
  | uuid u, uuid v => Uuid.compareDigits u.digits v.digits

end NodeId

end ForestQuery
