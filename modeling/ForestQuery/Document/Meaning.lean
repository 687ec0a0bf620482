import ForestQuery.Document.Node
/-!
What scalars mean: nothing, truth values, numbers and the names of constants. Text between quotes means
itself alone. A core tag makes a literal block mean what plain text would.
-/

namespace ForestQuery.Document

/-- The full tag of a type that every document knows. -/
def coreTag (type : String) : List UInt8 := Text.utf8 (String.append "tag:yaml.org,2002:" type).toList

def nullWords : List String := ["~", "null", "Null", "NULL"]

def trueWords : List String := ["true", "True", "TRUE"]

def falseWords : List String := ["false", "False", "FALSE"]

/-- The number that digits of a base denote. -/
def ofBase? (base : Nat) (cs : List Char) : Option Nat :=
  if cs.isEmpty then none
  else
    (cs.mapM fun c => (Text.hexValue? c).filter (· < base)).map fun ds =>
      ds.foldl (fun n d => n * base + d) 0

/-- An unsigned number: decimal, or in base 16, 8 or 2 behind `0x`, `0o` or `0b`. Decimal digits
behind a zero are no number. -/
def natOfChars? (cs : List Char) : Option Nat :=
  let unsigned := match cs with
    | '+' :: r => r
    | _ => cs
  match unsigned with
  | '0' :: 'x' :: r => ofBase? 16 r
  | '0' :: 'o' :: r => ofBase? 8 r
  | '0' :: 'b' :: r => ofBase? 2 r
  | '0' :: _ :: _ => none
  | _ => ofBase? 10 unsigned

namespace Scalar

/-- Whether the text may mean more than itself, as a value of a core type. -/
def isBare (s : Scalar) (type : String) : Bool :=
  s.style == .plain || (s.style == .literal && s.tag == some (coreTag type))

def word (s : Scalar) : String := String.ofList s.text

def bool? (s : Scalar) : Option Bool :=
  if !s.isBare "bool" then none
  else if trueWords.contains s.word then some true
  else if falseWords.contains s.word then some false
  else none

/-- A number below `bound`. -/
def nat? (bound : Nat) (s : Scalar) : Option Nat :=
  if s.isBare "int" then (natOfChars? s.text).filter (· < bound) else none

/-- Whether plain text means nothing, whatever its tag. -/
def isBlank (s : Scalar) : Bool := s.style == .plain && (s.text.isEmpty || nullWords.contains s.word)

/-- Nothing or a truth value. Under the core tag of nothing there has to be a word for it. -/
def optionalBool? (s : Scalar) : Option (Option Bool) :=
  if s.style == .plain && s.tag == some (coreTag "null") then
    if nullWords.contains s.word then some none else none
  else if s.isBlank && s.tag.isNone then some none
  else s.bool?.map some

/-- The name in a tag that is not a full one. -/
def tagName? (s : Scalar) : Option String :=
  match s.tag with
  | none => none
  | some bytes =>
    match Text.ofUtf8? bytes with
    | some ['!'] => some "!"
    | some ('!' :: name) => some (String.ofList name)
    | _ => none

/-- The name of a constant: the text, or the name in the tag, with no text then. -/
def constant? (s : Scalar) : Option String :=
  match s.tagName? with
  | some name => if s.isBlank then some name else none
  | none => some s.word

end Scalar

end ForestQuery.Document
