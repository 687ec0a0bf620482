import ForestQuery.Error
import ForestQuery.Expr.Evaluation
import ForestQuery.Text.Search
/-!
What a failure of a running statement means: one that an expression asked for, a limit of the store
itself, or anything else.
-/

namespace ForestQuery

namespace Raised

/-- Stands in front of every failure that an expression asks for. -/
def marker : String := "treecte:"

/-- The message of a failure with this tag and argument. Messages end before a U+0000, and a failure
whose message would be cut has none of its own. -/
def messageChars? (tag : List Char) (argument : List Char) : Option (List Char) :=
  let message := marker.toList ++ tag ++ ':' :: ' ' :: argument
  if message.any fun c => c.toNat == 0 then none else some message

end Raised

namespace Failure

/-- Beginnings of messages in which stores report their own limits on recursion. -/
def recursionLimits : List String :=
  ["Recursive query aborted", "cte_max_recursion_depth", "stack depth limit exceeded"]

/-- The failure that the text behind an overflow tag describes: a width, a colon and a value. -/
def overflow (rest : List Char) : Error :=
  let body := (Text.afterBeginning? [':'] rest).getD rest
  let (width, value) := (Text.splitFirst? ':' body).getD (['0'], body)
  .encodingOverflow (.raised (String.ofList (Text.trimChars value)))
    ((Text.unsigned? SegmentKind.widthBound (Text.trimChars width)).getD 0)

/-- The failure that the text behind the marker asks for. -/
def raised? (maxDepth : Nat) (cs : List Char) : Option Error :=
  if RaiseKind.depthTag.toList.isPrefixOf cs then some (.depthExceeded maxDepth)
  else (Text.afterBeginning? RaiseKind.overflowTag.toList cs).map overflow

/-- What a message says, if it is about the traversal. -/
def ofMessage? (maxDepth : Nat) (message : String) : Option Error :=
  let cs := message.toList
  match (Text.afterFirst? Raised.marker.toList cs).bind (raised? maxDepth) with
  | some e => some e
  | none =>
    if recursionLimits.any fun limit => Text.contains limit.toList cs then some (.traversalLimit message)
    else none

/-- Result code of an interrupted statement. -/
def interruptedCode : Nat := 9

/-- What a failure with a result code means; the low byte of the code tells its kind. -/
def ofCode (maxDepth : Nat) (code : Int) (message : String) : Error :=
  if code % 256 = interruptedCode then .traversalLimit message
  else (ofMessage? maxDepth message).getD .store

/-- What a failure with this tag and argument means. -/
def ofRaise (maxDepth : Nat) (tag argument : List Char) : Error :=
  match Raised.messageChars? tag argument with
  | some message => (ofMessage? maxDepth (String.ofList message)).getD .store
  | none => .store

/-- What a failure of an expression means. -/
def ofRaised (maxDepth : Nat) (r : Raised) : Error := ofRaise maxDepth r.kind.tag.toList r.argument

end Failure

end ForestQuery
