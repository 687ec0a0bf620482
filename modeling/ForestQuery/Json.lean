import ForestQuery.Binary64.Layout
/-!
JSON values and their compact text. Numbers are kept as they are written, and so is what is well
formed but denotes no text.
-/

namespace ForestQuery

/-- A JSON value. -/
inductive Json where
  | null
  | bool (b : Bool)
  | number (literal : List Char)
  | string (s : String)
  | array (items : List Json)
  /-- Members in the order of the text; a name may occur more than once. -/
  | object (members : List (String × Json))
  /-- A text with half of a surrogate pair, or an object with such a name. It may stand where values are
  passed over, and nothing is read from it. -/
  | broken (literal : List Char)

namespace Json

def ofInt (i : Int) : Json := number (Text.integerChars i)

def ofNat (n : Nat) : Json := number (Text.decimalDigits n)

/-- Only finite numbers have a text; others are written as null. -/
def ofReal (x : Binary64) : Json := if x.isFinite then number x.jsonText.toList else null

/-- A code unit as four hexadecimal digits. -/
def unitDigits (n : Nat) : List Char :=
  [n / 4096 % 16, n / 256 % 16, n / 16 % 16, n % 16].map Text.lowerHexDigit

/-- A character between quotes: quotes, backslashes and control characters are escaped. -/
def escapeChar (c : Char) : List Char :=
  if c = '"' then ['\\', '"']
  else if c = '\\' then ['\\', '\\']
  else if c = '\n' then ['\\', 'n']
  else if c = '\r' then ['\\', 'r']
  else if c = '\t' then ['\\', 't']
  else if c.toNat = 0x8 then ['\\', 'b']
  else if c.toNat = 0xC then ['\\', 'f']
  else if c.toNat < 0x20 then '\\' :: 'u' :: unitDigits c.toNat
  else [c]

/-- A text between quotes. -/
def stringChars (s : String) : List Char := '"' :: (s.toList.flatMap escapeChar ++ ['"'])

mutual

/-- The compact text of a value. -/
def chars : Json → List Char
  | null => ['n', 'u', 'l', 'l']
  | bool true => ['t', 'r', 'u', 'e']
  | bool false => ['f', 'a', 'l', 's', 'e']
  | number literal => literal
  | string s => stringChars s
  | array items => '[' :: (itemsChars items ++ [']'])
  | object members => '\x7b' :: (membersChars members ++ ['\x7d'])
  | broken literal => literal

/-- Values with commas between them. -/
def itemsChars : List Json → List Char
  | [] => []
  | [j] => j.chars
  | j :: js => j.chars ++ ',' :: itemsChars js

/-- Members with commas between them. -/
def membersChars : List (String × Json) → List Char
  | [] => []
  | [(name, j)] => stringChars name ++ ':' :: j.chars
  | (name, j) :: ms => stringChars name ++ ':' :: (j.chars ++ ',' :: membersChars ms)

end

def text (j : Json) : String := String.ofList j.chars

/-- The value of the last member with a name. -/
def member? : Json → String → Option Json
  | object members, name => (members.reverse.find? fun m => m.1 == name).map Prod.snd
  | _, _ => none

end Json

end ForestQuery
