import ForestQuery.Document.Scalar
import ForestQuery.Text.Utf8
/-!
The tokens of documents, and how those with names are read: anchors, tags and directives. A tag is a
handle, which stands for the beginning of the full tag, and what follows it.
-/

namespace ForestQuery.Document

/-- A token. Where a block collection starts and ends is seen from the indentation. -/
inductive Token where
  | version (major minor : Nat)
  | tagHandle (handle : List Char) (beginning : List UInt8)
  | documentStart
  | documentEnd
  | blockSequenceStart
  | blockMappingStart
  | blockEnd
  | flowSequenceStart
  | flowSequenceEnd
  | flowMappingStart
  | flowMappingEnd
  | blockEntry
  | flowEntry
  | key
  | value
  | anchor (name : List Char)
  | alias (name : List Char)
  | tag (handle : List Char) (ending : List UInt8)
  | scalar (style : Style) (text : List Char)
deriving DecidableEq

namespace Token

/-! ## Anchors -/

/-- Marks that may follow the name of an anchor without a gap. -/
def nameEnds : List Char := ['?', ':', ',', ']', '\x7d', '%', '@', '\x60']

/-- A name of an anchor, and the rest. -/
def name? (cs : List Char) : Option (List Char × List Char) :=
  let name := cs.takeWhile isWord
  let rest := cs.dropWhile isWord
  if !name.isEmpty && (atGap rest || startsWith nameEnds.contains rest) then some (name, rest) else none

/-! ## Tags -/

/-- Marks that tags may hold besides letters and digits. -/
def uriMarks : List Char :=
  [';', '/', '?', ':', '@', '&', '=', '+', '$', '.', '!', '~', '*', '\'', '(', ')']

/-- Marks that only tags between angle brackets and directives may hold. -/
def verbatimMarks : List Char := [',', '[', ']']

def isUriChar (verbatim : Bool) (c : Char) : Bool :=
  isWord c || uriMarks.contains c || (verbatim && verbatimMarks.contains c)

/-- A byte as two hexadecimal digits behind a percent sign, and the rest. -/
def octet? : List Char → Option (Nat × List Char)
  | '%' :: a :: b :: cs =>
    match Text.hexValue? a, Text.hexValue? b with
    | some x, some y => some (x * 16 + y, cs)
    | _, _ => none
  | _ => none

/-- Escaped bytes that go on with a character, in number. -/
def continuations? : Nat → List Char → Option (List UInt8 × List Char)
  | 0, cs => some ([], cs)
  | count + 1, cs =>
    match octet? cs with
    | none => none
    | some (n, rest) =>
      if n / 64 = 2 then (continuations? count rest).map fun r => (UInt8.ofNat n :: r.1, r.2) else none

/-- How many bytes follow the first byte of a character. -/
def continuationCount? (n : Nat) : Option Nat :=
  if n < 0x80 then some 0
  else if n / 32 = 6 then some 1
  else if n / 16 = 14 then some 2
  else if n / 8 = 30 then some 3
  else none

/-- The bytes of an escaped character, and the rest. -/
def escapedChar? (cs : List Char) : Option (List UInt8 × List Char) := do
  let (n, rest) ← octet? cs
  let (bytes, rest) ← continuations? (← continuationCount? n) rest
  return (UInt8.ofNat n :: bytes, rest)

/-- The bytes of a tag up to what it cannot hold, and the rest; at most `fuel` characters. -/
def uri? (verbatim : Bool) : Nat → List Char → Option (List UInt8 × List Char)
  | 0, cs => some ([], cs)
  | _, [] => some ([], [])
  | fuel + 1, c :: cs =>
    if c == '%' then
      match escapedChar? (c :: cs) with
      | none => none
      | some (bytes, rest) => (uri? verbatim fuel rest).map fun r => (bytes ++ r.1, r.2)
    else if isUriChar verbatim c then
      (uri? verbatim fuel cs).map fun r => (String.utf8EncodeChar c ++ r.1, r.2)
    else some ([], c :: cs)

/-- What counts of the bytes of a tag: an escaped null byte ends it. -/
def counted (bytes : List UInt8) : List UInt8 := bytes.takeWhile (· != 0)

/-- One or more bytes of a tag, and the rest. -/
def uriSome? (verbatim : Bool) (cs : List Char) : Option (List UInt8 × List Char) :=
  ((uri? verbatim cs.length cs).filter fun r => !r.1.isEmpty).map fun r => (counted r.1, r.2)

/-- An exclamation mark, word characters, and perhaps another exclamation mark, and the rest. -/
def handle? : List Char → Option (List Char × List Char)
  | '!' :: cs =>
    let word := '!' :: cs.takeWhile isWord
    match cs.dropWhile isWord with
    | '!' :: rest => some (word ++ ['!'], rest)
    | rest => some (word, rest)
  | _ => none

/-- Whether the handle of a tag stands for more than itself. -/
def isNamedHandle (handle : List Char) : Bool := 1 < handle.length && handle.getLast? == some '!'

/-- A tag up to its end. One between angle brackets has no handle, nor has a lone exclamation mark. -/
def tagBody? (cs : List Char) : Option (Token × List Char) :=
  match cs with
  | '!' :: '<' :: r =>
    match uriSome? true r with
    | some (bytes, '>' :: rest) => some (tag [] bytes, rest)
    | _ => none
  | _ =>
    match handle? cs with
    | none => none
    | some (handle, r) =>
      if isNamedHandle handle then (uriSome? false r).map fun p => (tag handle p.1, p.2)
      else
        (uri? false r.length r).map fun p =>
          let ending := counted (Text.utf8 handle.tail ++ p.1)
          (if ending.isEmpty then tag [] (Text.utf8 handle) else tag ['!'] ending, p.2)

/-- A tag, and the rest; between brackets (`flow`) a comma may follow it. -/
def tag? (flow : Bool) (cs : List Char) : Option (Token × List Char) :=
  (tagBody? cs).filter fun r => atGap r.2 || (flow && startsWith (· == ',') r.2)

/-! ## Directives -/

/-- The most digits of a version number. -/
def maxVersionDigits : Nat := 9

def versionNumber? (cs : List Char) : Option (Nat × List Char) :=
  let digits := cs.takeWhile Char.isDigit
  if digits.length ≤ maxVersionDigits then
    (Text.natOfDigits? digits).map fun n => (n, cs.dropWhile Char.isDigit)
  else none

/-- The version behind its directive: two numbers with a point between them. -/
def version? (cs : List Char) : Option (Token × List Char) := do
  let (major, rest) ← versionNumber? (cs.dropWhile isBlank)
  match rest with
  | '.' :: r =>
    let (minor, rest) ← versionNumber? r
    return (version major minor, rest)
  | _ => none

/-- A handle and what it stands for, behind their directive. -/
def tagHandle? (cs : List Char) : Option (Token × List Char) := do
  let (handle, rest) ← handle? (cs.dropWhile isBlank)
  if handle != ['!'] && !isNamedHandle handle then none
  if !startsWith isBlank rest then none
  let (beginning, rest) ← uriSome? true (rest.dropWhile isBlank)
  if !atGap rest then none
  return (tagHandle handle beginning, rest)

/-- A directive, given what is behind its percent sign, and the rest of the line. -/
def directive? (cs : List Char) : Option (Token × List Char) :=
  let name := cs.takeWhile isWord
  let rest := cs.dropWhile isWord
  if !atGap rest then none
  else if name = "YAML".toList then version? rest
  else if name = "TAG".toList then tagHandle? rest
  else none

end Token

end ForestQuery.Document
