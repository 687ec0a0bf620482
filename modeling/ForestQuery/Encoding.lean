import ForestQuery.Error
import ForestQuery.Expr
/-!
How the values along a chain of nodes are accumulated in one column: as an array with one item per
level, or as a text with one fixed-width element per level.
-/

namespace ForestQuery

/-- One component of a level: an expression and the format that its value is kept in. -/
structure Part where
  expr : Expr
  kind : SegmentKind
deriving DecidableEq

/-- What one level adds to an accumulated column. -/
inductive Element where
  /-- An item of an array, with the type of the array. -/
  | item (expr : Expr) (type : FieldType)
  /-- Segments that are written one after the other, all of them `width` characters. -/
  | segments (exprs : List Expr) (width : Nat)
deriving DecidableEq

namespace Element

/-- A single segment stands as it is; several are concatenated. -/
def text (d : Dialect) : Element → String
  | item expr type => String.join ["CAST(", expr.text d, " AS ", Dialect.arrayElementType type, ")"]
  | segments [expr] _ => expr.text d
  | segments exprs _ => d.concat (exprs.map fun e => e.text d)

end Element

/-- The representation of accumulated columns in one statement. -/
structure Encoding where
  dialect : Dialect
  /-- Whether columns are arrays. -/
  native : Bool
  /-- The depth at which a traversal fails. -/
  maxDepth : Nat
deriving DecidableEq

namespace Encoding

/-- The expressions that write the parts as segments, if the dialect can write each of them. -/
def segments (d : Dialect) : List Part → Except Error (List Expr)
  | [] => .ok []
  | p :: ps =>
    match Expr.segment? d p.expr p.kind with
    | none => .error (.configuration (.noDescendingSegment d))
    | some e => (segments d ps).map (e :: ·)

/-- What the parts add per level. An array takes one value per level and no descending key. -/
def element (enc : Encoding) (parts : List Part) : Except Error Element :=
  if enc.native then
    match parts with
    | [⟨_, .textKey _ true⟩] => .error (.configuration .descendingArrayKey)
    | [p] => .ok (.item p.expr p.kind.arrayType)
    | _ => .error (.configuration (.compositeArrayElement parts.length))
  else
    (segments enc.dialect parts).map fun es =>
      .segments es (SegmentKind.levelWidth (parts.map Part.kind))

/-- The characters of a column that holds one level more than may be returned. -/
def columnWidth (enc : Encoding) (width : Nat) : Nat := width * (enc.maxDepth + 1)

/-- The first value of an accumulated column. -/
def start (enc : Encoding) (el : Element) : String :=
  match el with
  | .item _ _ => String.join ["ARRAY[", el.text enc.dialect, "]"]
  | .segments _ width => enc.dialect.widen (el.text enc.dialect) (enc.columnWidth width)

/-- An accumulated column with one more level. -/
def extend (enc : Encoding) (column : String) (el : Element) : String :=
  match el with
  | .item _ _ => String.join [column, " || ", el.text enc.dialect]
  | .segments _ _ => enc.dialect.concat [column, el.text enc.dialect]

/-- Whether a statement fails at the depth limit: its columns are texts and the dialect can fail. Where
it does not, rows at the limit are returned, and reading them fails. -/
def failsAtLimit (enc : Encoding) : Bool := !enc.native && enc.dialect.capabilities.inlineRaise

/-- Fails the statement at the depth limit, where it can fail there. -/
def depthGuard (enc : Encoding) (depth value : String) : String :=
  if enc.native then value
  else enc.dialect.guard (depth ++ (Test.atLeast enc.maxDepth).text) .depthExceeded depth value

end Encoding

end ForestQuery
