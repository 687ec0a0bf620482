import ForestQuery.Json.Number
/-!
Reading JSON text.
-/

namespace ForestQuery.Json

def isSpace (c : Char) : Bool := c == ' ' || c == '\n' || c == '\r' || c == '\t'

def skipSpaces (cs : List Char) : List Char := cs.dropWhile isSpace

/-- The code unit of four hexadecimal digits. -/
def unit? (a b c d : Char) : Option Nat :=
  match Text.hexValue? a, Text.hexValue? b, Text.hexValue? c, Text.hexValue? d with
  | some w, some x, some y, some z => some (((w * 16 + x) * 16 + y) * 16 + z)
  | _, _, _, _ => none

def isHighSurrogate (n : Nat) : Bool := 0xD800 ≤ n && n < 0xDC00

def isLowSurrogate (n : Nat) : Bool := 0xDC00 ≤ n && n < 0xE000

/-- The character of a code unit that is no half of a surrogate pair. -/
def unitChar? (n : Nat) : Option Char :=
  if isHighSurrogate n || isLowSurrogate n then none else some (Char.ofNat n)

/-- What a letter behind a backslash stands for. -/
def escapes : List (Char × Char) :=
  [('"', '"'), ('\\', '\\'), ('/', '/'), ('b', '\x08'), ('f', '\x0c'), ('n', '\n'), ('r', '\r'), ('t', '\t')]

/-- The character of two halves of a surrogate pair. -/
def pairChar (high low : Nat) : Char := Char.ofNat (0x10000 + (high - 0xD800) * 0x400 + (low - 0xDC00))

/-- The characters up to the closing quote, and the rest. Half of a surrogate pair is no character. -/
def stringBody : List Char → Option (List (Option Char) × List Char)
  | [] => none
  | '"' :: cs => some ([], cs)
  | '\\' :: 'u' :: a :: b :: c :: d :: '\\' :: 'u' :: e :: f :: g :: h :: cs =>
    let next := '\\' :: 'u' :: e :: f :: g :: h :: cs
    match unit? a b c d, unit? e f g h with
    | some high, some low =>
      if isHighSurrogate high && isLowSurrogate low then
        (stringBody cs).map fun r => (some (pairChar high low) :: r.1, r.2)
      else (stringBody next).map fun r => (unitChar? high :: r.1, r.2)
    | _, _ => none
  | '\\' :: 'u' :: a :: b :: c :: d :: cs =>
    match unit? a b c d with
    | none => none
    | some code => (stringBody cs).map fun r => (unitChar? code :: r.1, r.2)
  | '\\' :: c :: cs =>
    match escapes.lookup c with
    | some x => (stringBody cs).map fun r => (some x :: r.1, r.2)
    | none => none
  | c :: cs => if c.toNat < 0x20 then none else (stringBody cs).map fun r => (some c :: r.1, r.2)

/-- The part of a text in front of its rest. -/
def consumed (cs rest : List Char) : List Char := cs.take (cs.length - rest.length)

/-- The text between quotes behind the opening one, and the rest. -/
def stringToken? (cs : List Char) : Option (Json × List Char) :=
  (stringBody cs).map fun p =>
    match p.1.mapM id with
    | some text => (string (String.ofList text), p.2)
    | none => (broken ('"' :: consumed cs p.2), p.2)

/-- A number at the start of a text, as it is written, and the rest. -/
def numberToken? (cs : List Char) : Option (Json × List Char) :=
  (literal? cs).map fun p => (number (consumed cs p.2), p.2)

/-- A word at the start of a text, and the rest. -/
def word? (word : String) (j : Json) (cs : List Char) : Option (Json × List Char) :=
  if word.toList.isPrefixOf cs then some (j, cs.drop word.length) else none

/-- The object of members, if each name is a text; else what is written. -/
def objectOf (literal : List Char) (members : List (Json × Json)) : Json :=
  let named : Json × Json → Option (String × Json)
    | (string s, j) => some (s, j)
    | _ => none
  match members.mapM named with
  | some ms => object ms
  | none => broken literal

mutual

/-- The value at the start of a text, and the rest; nested at most `fuel` deep and long. -/
def value? : Nat → List Char → Option (Json × List Char)
  | 0, _ => none
  | fuel + 1, cs =>
    match skipSpaces cs with
    | '"' :: r => stringToken? r
    | '[' :: r =>
      match skipSpaces r with
      | ']' :: rest => some (array [], rest)
      | r' => (items? fuel r').map fun p => (array p.1, p.2)
    | '\x7b' :: r =>
      match skipSpaces r with
      | '\x7d' :: rest => some (object [], rest)
      | r' => (members? fuel r').map fun p => (objectOf ('\x7b' :: consumed r p.2) p.1, p.2)
    | 't' :: r => word? "rue" (bool true) r
    | 'f' :: r => word? "alse" (bool false) r
    | 'n' :: r => word? "ull" null r
    | r => numberToken? r

/-- The items up to the closing bracket, and the rest. -/
def items? : Nat → List Char → Option (List Json × List Char)
  | 0, _ => none
  | fuel + 1, cs =>
    match value? fuel cs with
    | none => none
    | some (j, rest) =>
      match skipSpaces rest with
      | ',' :: r => (items? fuel r).map fun p => (j :: p.1, p.2)
      | ']' :: r => some ([j], r)
      | _ => none

/-- The members up to the closing brace, and the rest. -/
def members? : Nat → List Char → Option (List (Json × Json) × List Char)
  | 0, _ => none
  | fuel + 1, cs =>
    match skipSpaces cs with
    | '"' :: r =>
      match stringToken? r with
      | none => none
      | some (name, rest) =>
        match skipSpaces rest with
        | ':' :: r' =>
          match value? fuel r' with
          | none => none
          | some (j, rest') =>
            match skipSpaces rest' with
            | ',' :: r'' => (members? fuel r'').map fun p => ((name, j) :: p.1, p.2)
            | '\x7d' :: r'' => some ([(name, j)], r'')
            | _ => none
        | _ => none
    | _ => none

end

/-- The value of a text, with blanks around it and nothing else. -/
def ofText? (s : String) : Option Json :=
  let cs := s.toList
  match value? (cs.length + 1) cs with
  | some (j, rest) => if (skipSpaces rest).isEmpty then some j else none
  | none => none

end ForestQuery.Json
