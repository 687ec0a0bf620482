/-!
What stands out in the text of a statement: texts in quotes, and placeholders.
-/

namespace ForestQuery.Text

/-- What stands out in the text of a statement. -/
inductive Mark where
  /-- A text between quotes; a quote inside is written twice. -/
  | quoted (quote : Char) (content : List Char)
  | placeholder (text : List Char)
deriving DecidableEq

namespace Mark

def isQuote (c : Char) : Bool := "'\"`".toList.contains c

/-- Whether a placeholder may begin with the character. Digits may follow. -/
def isSign (c : Char) : Bool := c == '?' || c == '$'

def placeholder? : Mark → Option (List Char)
  | placeholder text => some text
  | quoted _ _ => none

/-- Where in a text a reader stands. -/
inductive Place where
  | outside
  | inside (quote : Char) (content : List Char)
  /-- Behind a quote, which ends the content unless it stands there again. -/
  | behind (quote : Char) (content : List Char)
  /-- Behind a sign and digits. -/
  | sign (text : List Char)

/-- The place behind a character that does not go on with anything. -/
def enter (c : Char) : Place :=
  if isQuote c then .inside c [] else if isSign c then .sign [c] else .outside

/-- The marks of a text from a place on, unless a quote stays open. -/
def scan : Place → List Char → Option (List Mark)
  | .outside, [] => some []
  | .outside, c :: cs => scan (enter c) cs
  | .inside _ _, [] => none
  | .inside q content, c :: cs => scan (if c = q then .behind q content else .inside q (content ++ [c])) cs
  | .behind q content, [] => some [.quoted q content]
  | .behind q content, c :: cs =>
    if c = q then scan (.inside q (content ++ [c])) cs
    else (scan (enter c) cs).map (.quoted q content :: ·)
  | .sign text, [] => some [.placeholder text]
  | .sign text, c :: cs =>
    if c.isDigit then scan (.sign (text ++ [c])) cs
    else (scan (enter c) cs).map (.placeholder text :: ·)

end Mark

/-- The marks of a text, unless a quote stays open. -/
def marks? (cs : List Char) : Option (List Mark) := Mark.scan .outside cs

/-- The signs of a text with their digits, those between quotes too. -/
def placeholders : List Char → List (List Char)
  | [] => []
  | c :: cs =>
    if Mark.isSign c then (c :: cs.takeWhile Char.isDigit) :: placeholders cs else placeholders cs

example : marks? "S.\"a\"\"b\" = $12 AND '?'".toList =
    some [.quoted '"' ['a', '"', 'b'], .placeholder ['$', '1', '2'], .quoted '\'' ['?']] := by decide

end ForestQuery.Text
