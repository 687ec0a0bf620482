import ForestQuery.Document.Token
/-!
The tokens of a text. Deeper lines open block collections and less deep ones close them. What stands in
front of a colon is known to be a key only then, so each place where a key may have started is kept until
the end of its line.
-/

namespace ForestQuery.Document

/-- A place where a key may have started. -/
structure PossibleKey where
  /-- Whether nothing but a key can start there. -/
  required : Bool
  /-- The number of tokens in front of it. -/
  number : Nat
  index : Nat
  line : Nat
  column : Nat

/-- The most characters from the start of a key to its colon. -/
def maxKeyLength : Nat := 1024

/-- A text that was read up to a place. -/
structure Scanner where
  cursor : Cursor
  tokens : Array Token
  /-- One more than the column of the innermost block collection; zero outside of any. -/
  margin : Nat
  /-- The margins of the block collections around it. -/
  outer : List Nat
  /-- Where a key may have started between the innermost brackets. -/
  key : Option PossibleKey
  /-- Where keys may have started between the brackets around them. -/
  outerKeys : List (Option PossibleKey)
  /-- Whether a key may start at the place. -/
  keyAllowed : Bool

namespace Scanner

def start (cs : List Char) : Scanner := ⟨.start cs, #[], 0, [], none, [], true⟩

/-- Whether the place lies between brackets. -/
def flow (s : Scanner) : Bool := !s.outerKeys.isEmpty

def emit (s : Scanner) (t : Token) : Scanner := { s with tokens := s.tokens.push t }

/-- Adds a token behind the first `number` ones. -/
def insertAt (s : Scanner) (number : Nat) (t : Token) : Scanner :=
  { s with tokens := s.tokens.insertIdxIfInBounds number t }

/-- Moves the place behind a token and adds it. -/
def take (s : Scanner) (count : Nat) (t : Token) : Scanner :=
  { s.emit t with cursor := s.cursor.advance count }

/-- Closes the block collections that lie deeper than `margin`, given those around them. -/
def closeTo (margin : Nat) (s : Scanner) : List Nat → Scanner
  | [] => if margin < s.margin then { s.emit .blockEnd with margin := 0, outer := [] } else { s with outer := [] }
  | m :: ms =>
    if margin < s.margin then closeTo margin { s.emit .blockEnd with margin := m } ms
    else { s with outer := m :: ms }

/-- Closes the block collections that cannot hold what starts at a column. -/
def close (s : Scanner) (column : Nat) : Scanner := if s.flow then s else closeTo (column + 1) s s.outer

/-- Closes all block collections. -/
def closeAll (s : Scanner) : Scanner := if s.flow then s else closeTo 0 s s.outer

/-- Opens a block collection at a column that lies deeper; its token goes behind the first `number`. -/
def deepen (s : Scanner) (column number : Nat) (t : Token) : Scanner :=
  if !s.flow && s.margin ≤ column then
    { s.insertAt number t with margin := column + 1, outer := s.margin :: s.outer }
  else s

/-- Whether a key that may have started can have its colon no more. -/
def isStale (c : Cursor) (k : PossibleKey) : Bool :=
  k.line < c.line || k.index + maxKeyLength < c.index

/-- Gives up a place where a key may have started, if it must. -/
def refresh? (c : Cursor) : Option PossibleKey → Option (Option PossibleKey)
  | none => some none
  | some k => if isStale c k then (if k.required then none else some none) else some (some k)

def refreshAll? (s : Scanner) : Option Scanner := do
  let key ← refresh? s.cursor s.key
  return { s with key, outerKeys := ← s.outerKeys.mapM (refresh? s.cursor) }

/-- Gives up the place where a key may have started. -/
def dropKey? (s : Scanner) : Option Scanner :=
  if s.key.any PossibleKey.required then none else some { s with key := none }

/-- Keeps the place in case a key starts there. -/
def saveKey? (s : Scanner) : Option Scanner :=
  if s.keyAllowed then do
    let c := s.cursor
    let required := !s.flow && s.margin == c.column + 1
    let s ← s.dropKey?
    return { s with key := some ⟨required, s.tokens.size, c.index, c.line, c.column⟩ }
  else some s

/-- Skips blanks, comments and line ends; at most `fuel` lines. A tab counts as a blank only where no key
may start. -/
def skipGaps : Nat → Scanner → Scanner
  | 0, s => s
  | fuel + 1, s =>
    let c := s.cursor
    let c := if c.column = 0 && startsWith (· == byteOrderMark) c.rest then c.advance 1 else c
    let c := c.skipWhile fun x => x == ' ' || ((s.flow || !s.keyAllowed) && x == '\t')
    let c := c.skipComment
    match c.break? with
    | some (_, next) => skipGaps fuel { s with cursor := next, keyAllowed := s.keyAllowed || !s.flow }
    | none => { s with cursor := c }

/-- Adds a token between two documents. -/
def takeMark? (s : Scanner) (t : Token) : Option Scanner := do
  let s ← s.closeAll.dropKey?
  return { s.take 3 t with keyAllowed := false }

def takeDirective? (s : Scanner) : Option Scanner := do
  let s ← s.closeAll.dropKey?
  let c := s.cursor.advance 1
  let (t, rest) ← Token.directive? c.rest
  let lineEnd := ((c.moveTo rest).skipWhile isBlank).skipComment
  if !atLineEnd lineEnd.rest then none
  return { s.emit t with cursor := lineEnd.skipBreak, keyAllowed := false }

def takeFlowStart? (s : Scanner) (t : Token) : Option Scanner := do
  let s ← s.saveKey?
  return { s.take 1 t with key := none, outerKeys := s.key :: s.outerKeys, keyAllowed := true }

def takeFlowEnd? (s : Scanner) (t : Token) : Option Scanner := do
  let s ← s.dropKey?
  let s := match s.outerKeys with
    | [] => s
    | k :: ks => { s with key := k, outerKeys := ks }
  return { s.take 1 t with keyAllowed := false }

def takeFlowEntry? (s : Scanner) : Option Scanner := do
  let s ← s.dropKey?
  return { s.take 1 .flowEntry with keyAllowed := true }

/-- An item of a block sequence. Between brackets its token is added all the same, and refused later. -/
def takeBlockEntry? (s : Scanner) : Option Scanner := do
  if !s.flow && !s.keyAllowed then none
  let s ← (s.deepen s.cursor.column s.tokens.size .blockSequenceStart).dropKey?
  return { s.take 1 .blockEntry with keyAllowed := true }

/-- A key that is marked as one. -/
def takeKey? (s : Scanner) : Option Scanner := do
  if !s.flow && !s.keyAllowed then none
  let s ← (s.deepen s.cursor.column s.tokens.size .blockMappingStart).dropKey?
  return { s.take 1 .key with keyAllowed := !s.flow }

/-- The colon behind a key. What started where a key may have started was one. -/
def takeValue? (s : Scanner) : Option Scanner :=
  match s.key with
  | some k =>
    let s := (s.insertAt k.number .key).deepen k.column k.number .blockMappingStart
    some { s.take 1 .value with key := none, keyAllowed := false }
  | none =>
    if !s.flow && !s.keyAllowed then none
    else
      let s := s.deepen s.cursor.column s.tokens.size .blockMappingStart
      some { s.take 1 .value with keyAllowed := !s.flow }

/-- A token that a key may start with. -/
def takeProperty? (s : Scanner) (read : List Char → Option (Token × List Char)) : Option Scanner := do
  let s ← s.saveKey?
  let (t, rest) ← read s.cursor.rest
  return { s.emit t with cursor := s.cursor.moveTo rest, keyAllowed := false }

def takePlain? (s : Scanner) : Option Scanner := do
  let s ← s.saveKey?
  let r ← plain? s.flow s.margin s.cursor
  return { s.emit (.scalar .plain r.text) with cursor := r.next, keyAllowed := r.broken }

def takeQuoted? (s : Scanner) (single : Bool) : Option Scanner := do
  let s ← s.saveKey?
  let r ← quoted? single s.cursor
  let style : Style := if single then .singleQuoted else .doubleQuoted
  return { s.emit (.scalar style r.text) with cursor := r.next, keyAllowed := false }

def takeBlock? (s : Scanner) (literal : Bool) : Option Scanner := do
  let s ← s.dropKey?
  let r ← block? literal s.margin s.cursor
  let style : Style := if literal then .literal else .folded
  return { s.emit (.scalar style r.text) with cursor := r.next, keyAllowed := true }

/-- Marks that no plain text starts with. -/
def reservedStarts : List Char :=
  [',', '[', ']', '\x7b', '\x7d', '#', '&', '*', '!', '|', '>', '\'', '"', '%', '@', '\x60']

/-- Whether plain text may start with a character in front of others. A dash may, unless a blank follows;
a question mark and a colon outside brackets, unless a gap follows. -/
def startsPlain (flow : Bool) (c : Char) (cs : List Char) : Bool :=
  if c == '-' then !startsWith isBlank cs
  else if c == '?' || c == ':' then !flow && !atGap cs
  else !reservedStarts.contains c && !isBlank c && !isBreak c

/-- Reads the token that starts with a character. -/
def takeAt? (s : Scanner) (c : Char) (cs : List Char) : Option Scanner :=
  if s.cursor.column = 0 && c == '%' then s.takeDirective?
  else if s.cursor.atMark '-' then s.takeMark? .documentStart
  else if s.cursor.atMark '.' then s.takeMark? .documentEnd
  else if c == '[' then s.takeFlowStart? .flowSequenceStart
  else if c == '\x7b' then s.takeFlowStart? .flowMappingStart
  else if c == ']' then s.takeFlowEnd? .flowSequenceEnd
  else if c == '\x7d' then s.takeFlowEnd? .flowMappingEnd
  else if c == ',' then s.takeFlowEntry?
  else if c == '-' && atGap cs then s.takeBlockEntry?
  else if c == '?' && (s.flow || atGap cs) then s.takeKey?
  else if c == ':' && (s.flow || atGap cs) then s.takeValue?
  else if c == '*' then s.takeProperty? fun cs => (Token.name? cs.tail).map fun r => (.alias r.1, r.2)
  else if c == '&' then s.takeProperty? fun cs => (Token.name? cs.tail).map fun r => (.anchor r.1, r.2)
  else if c == '!' then s.takeProperty? (Token.tag? s.flow)
  else if c == '|' && !s.flow then s.takeBlock? true
  else if c == '>' && !s.flow then s.takeBlock? false
  else if c == '\'' then s.takeQuoted? true
  else if c == '"' then s.takeQuoted? false
  else if startsPlain s.flow c cs then s.takePlain?
  else none

/-- Reads to the end of the text, at most `fuel` tokens. -/
def finish? : Nat → Scanner → Option Scanner
  | 0, _ => none
  | fuel + 1, s => do
    let s ← (skipGaps (s.cursor.rest.length + 1) s).refreshAll?
    let s := s.close s.cursor.column
    match s.cursor.rest with
    | [] => s.closeAll.dropKey?
    | c :: cs => finish? fuel (← s.takeAt? c cs)

end Scanner

/-- The tokens of a text; none if it holds a character that no document may hold, or cannot be divided
into tokens. -/
def tokens? (cs : List Char) : Option (List Token) :=
  if cs.all isAllowed then
    ((Scanner.start cs).finish? (cs.length + 1)).map fun s => s.tokens.toList
  else none

end ForestQuery.Document
