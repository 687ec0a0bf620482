import ForestQuery.Document.Cursor
import ForestQuery.Text.Digits
/-!
Scalars: plain text, text between quotes and blocks of lines. A single line end inside plain or quoted
text counts as a space, and of several the first does not count.
-/

namespace ForestQuery.Document

/-- How a scalar is written. -/
inductive Style where
  | plain
  | singleQuoted
  | doubleQuoted
  /-- A block whose line ends are kept. -/
  | literal
  /-- A block whose line ends may become spaces. -/
  | folded
deriving DecidableEq

/-! ## Gaps -/

/-- Blanks and line ends between two pieces of a scalar. -/
structure Gap where
  /-- The blanks on the line where the gap starts. -/
  blanks : List Char
  /-- The first line end; an escaped one is empty. -/
  first : Option (List Char)
  /-- The other line ends. -/
  more : List Char

namespace Gap

def empty : Gap := ⟨[], none, []⟩

/-- A gap behind an escaped line end. -/
def escaped : Gap := ⟨[], some [], []⟩

def isBroken (g : Gap) : Bool := g.first.isSome

/-- What a gap adds to the text. -/
def text (g : Gap) : List Char :=
  match g.first with
  | none => g.blanks
  | some ['\n'] => if g.more.isEmpty then [' '] else g.more
  | some first => first ++ g.more

/-- Reads on a gap; at most `fuel` characters. A tab in front of the column `margin` of a further line is
refused. -/
def read? (margin : Nat) : Nat → Cursor → Gap → Option (Gap × Cursor)
  | 0, c, g => some (g, c)
  | fuel + 1, c, g =>
    match c.break? with
    | some (b, next) =>
      if g.isBroken then read? margin fuel next { g with more := g.more ++ [b] }
      else read? margin fuel next { g with first := some [b] }
    | none =>
      match c.rest with
      | [] => some (g, c)
      | x :: _ =>
        if !isBlank x then some (g, c)
        else if !g.isBroken then read? margin fuel (c.advance 1) { g with blanks := g.blanks ++ [x] }
        else if x == '\t' && c.column < margin then none
        else read? margin fuel (c.advance 1) g

end Gap

/-! ## Plain text -/

/-- The characters up to what ends a piece of plain text, and the rest. A colon ends it in front of a
gap; between brackets (`flow`) a mark ends it too, and a colon in front of one is refused. -/
def plainRun? (flow : Bool) : List Char → Option (List Char × List Char)
  | [] => some ([], [])
  | c :: cs =>
    if isBlank c || isBreak c then some ([], c :: cs)
    else if flow && c == ':' && startsWith (fun x => isFlowMark x || x == '?') cs then none
    else if c == ':' && atGap cs then some ([], c :: cs)
    else if flow && isFlowMark c then some ([], c :: cs)
    else (plainRun? flow cs).map fun r => (c :: r.1, r.2)

/-- A scalar that was read, with the place behind it. -/
structure ScalarText where
  text : List Char
  /-- Whether a line end was passed behind the last piece. -/
  broken : Bool
  next : Cursor

/-- Plain text behind a gap, in at most `fuel` pieces. Outside brackets it ends in front of the column
`margin` of a further line, and everywhere at a comment. -/
def plainFrom? (flow : Bool) (margin : Nat) : Nat → Cursor → Gap → Option ScalarText
  | 0, _, _ => none
  | fuel + 1, c, gap =>
    if c.atDocumentMark || startsWith (· == '#') c.rest then some ⟨[], gap.isBroken, c⟩
    else
      match plainRun? flow c.rest with
      | none => none
      | some (run, rest) =>
        let here := c.moveTo rest
        let text := if run.isEmpty then [] else gap.text ++ run
        let pending := if run.isEmpty then gap else .empty
        if rest.isEmpty || !atGap rest then some ⟨text, pending.isBroken, here⟩
        else
          match Gap.read? margin rest.length here .empty with
          | none => none
          | some (g, next) =>
            if !flow && next.column < margin then some ⟨text, g.isBroken, next⟩
            else (plainFrom? flow margin fuel next g).map fun r => { r with text := text ++ r.text }

/-- Plain text at a place. -/
def plain? (flow : Bool) (margin : Nat) (c : Cursor) : Option ScalarText :=
  plainFrom? flow margin (c.rest.length + 1) c .empty

/-! ## Quoted text -/

/-- What a character behind a backslash stands for. -/
def escapes : List (Char × Char) :=
  [('0', '\x00'), ('a', '\x07'), ('b', '\x08'), ('t', '\t'), ('\t', '\t'), ('n', '\n'), ('v', '\x0b'),
   ('f', '\x0c'), ('r', '\r'), ('e', '\x1b'), (' ', ' '), ('"', '"'), ('/', '/'), ('\\', '\\'),
   ('N', '\u0085'), ('_', '\u00a0'), ('L', '\u2028'), ('P', '\u2029')]

/-- The number of digits that a letter behind a backslash announces. -/
def escapeDigits : List (Char × Nat) := [('x', 2), ('u', 4), ('U', 8)]

/-- The character whose code point the hexadecimal digits give. -/
def charOfHex? (cs : List Char) : Option Char :=
  (cs.mapM Text.hexValue?).bind fun ds =>
    let code := ds.foldl (fun n d => n * 16 + d) 0
    if code.isValidChar then some (Char.ofNat code) else none

/-- The character that an escape stands for, given what is behind the backslash, and the rest. -/
def escape? : List Char → Option (Char × List Char)
  | [] => none
  | c :: cs =>
    match escapes.lookup c, escapeDigits.lookup c with
    | some x, _ => some (x, cs)
    | none, some count =>
      if cs.length < count then none else (charOfHex? (cs.take count)).map fun x => (x, cs.drop count)
    | none, none => none

/-- The characters up to a gap or a single quote, where a doubled quote stands for one. -/
def singleRun : List Char → List Char × List Char
  | [] => ([], [])
  | '\'' :: '\'' :: cs =>
    let r := singleRun cs
    ('\'' :: r.1, r.2)
  | c :: cs =>
    if c == '\'' || isBlank c || isBreak c then ([], c :: cs)
    else
      let r := singleRun cs
      (c :: r.1, r.2)

/-- The characters up to a gap, a double quote or an escaped line end; at most `fuel` of them. -/
def doubleRun? : Nat → List Char → Option (List Char × List Char)
  | 0, cs => some ([], cs)
  | _, [] => some ([], [])
  | fuel + 1, c :: cs =>
    if c == '"' || isBlank c || isBreak c then some ([], c :: cs)
    else if c != '\\' then (doubleRun? fuel cs).map fun r => (c :: r.1, r.2)
    else if startsWith isBreak cs then some ([], c :: cs)
    else
      match escape? cs with
      | none => none
      | some (x, rest) => (doubleRun? fuel rest).map fun r => (x :: r.1, r.2)

/-- A piece of text between quotes, and the rest. -/
def quotedRun? (single : Bool) (cs : List Char) : Option (List Char × List Char) :=
  if single then some (singleRun cs) else doubleRun? cs.length cs

/-- The text up to the closing quote, in at most `fuel` pieces. -/
def quotedFrom? (single : Bool) : Nat → Cursor → Option ScalarText
  | 0, _ => none
  | fuel + 1, c =>
    if c.atDocumentMark || c.rest.isEmpty then none
    else
      match quotedRun? single c.rest with
      | none => none
      | some (run, rest) =>
        let here := c.moveTo rest
        let skips := !single && startsWith (· == '\\') rest
        let there := if skips then (here.advance 1).skipBreak else here
        if startsWith (· == if single then '\'' else '"') there.rest then some ⟨run, false, there.advance 1⟩
        else
          match Gap.read? 0 there.rest.length there (if skips then .escaped else .empty) with
          | none => none
          | some (g, next) => (quotedFrom? single fuel next).map fun r => { r with text := run ++ g.text ++ r.text }

/-- Quoted text, given the place of its opening quote. -/
def quoted? (single : Bool) (c : Cursor) : Option ScalarText :=
  quotedFrom? single (c.rest.length + 1) (c.advance 1)

/-! ## Blocks -/

/-- What becomes of the line ends at the end of a block. -/
inductive Chomping where
  | strip
  | clip
  | keep
deriving DecidableEq

/-- What stands behind the mark of a block: a sign for the line ends, and a digit for the indentation, in
either order. -/
structure BlockHeader where
  chomping : Chomping
  /-- By how many columns the lines are indented; zero if it is not said. -/
  increment : Nat

namespace BlockHeader

def sign? : List Char → Option (Chomping × List Char)
  | '+' :: cs => some (.keep, cs)
  | '-' :: cs => some (.strip, cs)
  | _ => none

/-- The indentation, if there is a digit; zero is refused. -/
def digit? : List Char → Option (Nat × List Char)
  | c :: cs =>
    match Text.digitValue? c with
    | some 0 => none
    | some n => some (n, cs)
    | none => some (0, c :: cs)
  | [] => some (0, [])

def read? (cs : List Char) : Option (BlockHeader × List Char) :=
  match sign? cs with
  | some (chomping, rest) => (digit? rest).map fun r => (⟨chomping, r.1⟩, r.2)
  | none =>
    (digit? cs).map fun r =>
      match if r.1 = 0 then none else sign? r.2 with
      | some (chomping, rest) => (⟨chomping, r.1⟩, rest)
      | none => (⟨.clip, r.1⟩, r.2)

end BlockHeader

/-- The line ends in front of the next line of a block, with the deepest indentation that was met. An
indentation of zero is not known yet; a tab where it is looked for is refused. -/
def blockBreaks? (indent : Nat) : Nat → Cursor → Nat → Option (List Char × Nat × Cursor)
  | 0, _, _ => none
  | fuel + 1, c, deepest =>
    let spaces := (c.rest.takeWhile (· == ' ')).length
    let c := c.advance (if indent = 0 then spaces else min spaces (indent - c.column))
    let deepest := max deepest c.column
    if (indent = 0 || c.column < indent) && startsWith (· == '\t') c.rest then none
    else
      match c.break? with
      | none => some ([], deepest, c)
      | some (b, next) => (blockBreaks? indent fuel next deepest).map fun r => (b :: r.1, r.2)

/-- A block that is being read: the end of its last line, and the empty lines behind it. -/
structure BlockState where
  ending : List Char
  breaks : List Char
  /-- Whether the last line starts with a blank. -/
  indented : Bool

/-- What joins a line of a block to the text before it. -/
def BlockState.joint (s : BlockState) (literal indented : Bool) : List Char :=
  if !literal && s.ending == ['\n'] && !s.indented && !indented then
    (if s.breaks.isEmpty then [' '] else []) ++ s.breaks
  else s.ending ++ s.breaks

/-- The lines of a block from a place on, at most `fuel`, and what follows the last one. -/
def blockLines? (literal : Bool) (indent : Nat) :
    Nat → Cursor → BlockState → Option (List Char × BlockState × Cursor)
  | 0, _, _ => none
  | fuel + 1, c, s =>
    if c.column = indent && !c.rest.isEmpty then
      let indented := startsWith isBlank c.rest
      let line := c.rest.takeWhile fun x => !isBreak x
      let lineEnd := c.advance line.length
      let (ending, next) := match lineEnd.break? with
        | some (b, next) => ([b], next)
        | none => ([], lineEnd)
      match blockBreaks? indent (next.rest.length + 1) next 0 with
      | none => none
      | some (breaks, _, next) =>
        (blockLines? literal indent fuel next ⟨ending, breaks, indented⟩).map fun r =>
          (s.joint literal indented ++ line ++ r.1, r.2)
    else some ([], s, c)

/-- A block, given the place of its mark, in a collection whose entries are indented by less than `margin`
columns. -/
def block? (literal : Bool) (margin : Nat) (c : Cursor) : Option ScalarText := do
  let header := c.advance 1
  let (h, rest) ← BlockHeader.read? header.rest
  let lineEnd := ((header.moveTo rest).skipWhile isBlank).skipComment
  if !atLineEnd lineEnd.rest then none
  let c := lineEnd.skipBreak
  let given := if h.increment = 0 then 0 else margin - 1 + h.increment
  let (breaks, deepest, c) ← blockBreaks? given (c.rest.length + 1) c 0
  let indent := if given = 0 then max deepest (max margin 1) else given
  let (text, s, next) ← blockLines? literal indent (c.rest.length + 1) c ⟨[], breaks, false⟩
  let tail := match h.chomping with
    | .strip => []
    | .clip => s.ending
    | .keep => s.ending ++ s.breaks
  return ⟨text ++ tail, false, next⟩

end ForestQuery.Document
