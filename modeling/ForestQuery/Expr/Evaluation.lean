import ForestQuery.Expr
import ForestQuery.Value.Scalar
/-!
What scalar expressions mean in each dialect. An expression is evaluated under an assignment of
values to references; it has a value, or it fails the statement. Absent operands make arithmetic and
text operations absent.
-/

namespace ForestQuery

/-- A failure that an expression asked for, with the text of the value that caused it. -/
structure Raised where
  kind : RaiseKind
  argument : List Char
deriving DecidableEq

namespace Dialect

/-- The part of a text that the dialect's text functions see. In one dialect a text ends before its
first U+0000. -/
def seen (d : Dialect) (t : StoredText) : StoredText :=
  match d with
  | sqlite => t.beforeNul
  | postgres | mysql => t

/-- The number of characters of a value; bytes count one each where they are no text. -/
def lengthOf (d : Dialect) : Scalar → Scalar
  | .null => .null
  | .blob bytes => .ofCount bytes.length
  | v => .ofCount (d.seen (v.asText?.getD [])).length

/-- A number as decimal digits behind zeros. One dialect writes all digits of a longer number, and
takes any value for a number. -/
def padIntegerOf (d : Dialect) (width : Nat) (v : Scalar) : Scalar :=
  match d with
  | sqlite =>
    let i := v.asInteger.toInt
    if i < 0 then .ofChars ('-' :: Text.zeroPadded (width - 1) i.natAbs)
    else .ofChars (Text.zeroPadded width i.natAbs)
  | postgres | mysql =>
    match v with
    | .integer i => .ofChars ((Text.padLeft width '0' (Text.integerChars i.toInt)).take width)
    | _ => .null

/-- A text filled and cut to a width. -/
def padTextOf (d : Dialect) (width : Nat) (fill : Char) (v : Scalar) : Scalar :=
  v.mapText fun t => (d.seen (t ++ .ofChars (List.replicate width fill))).take width

/-- The hexadecimal digits of a value's bytes; an absent value has none. -/
def hexOf (v : Scalar) : Scalar :=
  match v with
  | .blob bytes => .ofChars (Text.hexOfBytes bytes)
  | _ => .ofChars (Text.hexOfBytes (v.asText?.getD []).toBytes)

end Dialect

namespace Test

/-- Whether a test holds of a value. A text or a byte sequence exceeds every number. -/
def holds : Test → Scalar → Bool
  | isNull, v => v.isNull
  | exceeds n, v => !v.isNull && v.compareInt n == .gt
  | differs n, v => !v.isNull && v.compareInt n != .eq
  | atLeast n, v => !v.isNull && v.compareInt n != .lt

end Test

namespace Expr

/-- The value of an expression under an assignment `env` of values to references. -/
def eval (d : Dialect) (env : Reference → Value) : Expr → Except Raised Scalar
  | reference r => .ok (env r).scalar
  | literal s => .ok (.ofChars s.toList)
  | successor e => do return (← e.eval d env).addTo 1 false
  | mirrored e => do return (← e.eval d env).addTo (-1) true
  | offset e => do return ((← e.eval d env).addTo 1 false).addTo 9223372036854775807 false
  | concat a b => do
    match (← a.eval d env).asText?, (← b.eval d env).asText? with
    | some s, some t => return .text (s ++ t)
    | _, _ => return .null
  | charLength e => do return d.lengthOf (← e.eval d env)
  | padInteger e width => do return d.padIntegerOf width (← e.eval d env)
  | padText e width fill => do return d.padTextOf width fill (← e.eval d env)
  | hex e => do return Dialect.hexOf (← e.eval d env)
  | complement e => do return (← e.eval d env).mapText fun t => .ofChars (Text.complementHex t.lossyChars)
  | lowerUuid e => do return (← e.eval d env).mapText fun t => t.map StoredChar.toLower
  | textValue e => do
    match d with
    | .postgres => return (← e.eval d env).mapText id
    | .sqlite | .mysql => e.eval d env
  | raise kind arg => do throw ⟨kind, (← arg.eval d env).raisedChars⟩
  | choose subject test yes no => do
    if test.holds (← subject.eval d env) then yes.eval d env else no.eval d env
  | bySign subject null negative other => do
    let v ← subject.eval d env
    if v.isNull then null.eval d env
    else if v.compareInt 0 == .lt then negative.eval d env
    else other.eval d env

/-- The text of an expression's value; an absent value has none. -/
def evalText (d : Dialect) (env : Reference → Value) (e : Expr) : Except Raised StoredText := do
  return (← e.eval d env).asText?.getD []

end Expr

end ForestQuery
