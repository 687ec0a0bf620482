import ForestQuery.Document.Tokens
/-!
The nodes of a document, read from its tokens. An anchor names the node behind it, and an alias further on
stands for that node. A document holds at most one root.
-/

namespace ForestQuery

namespace Document

structure Scalar where
  /-- The full tag, if there is one. -/
  tag : Option (List UInt8)
  style : Style
  text : List Char
deriving DecidableEq

inductive Node where
  | scalar (s : Scalar)
  /-- Stands for the node with this number. -/
  | alias (number : Nat)
  | sequence (items : List Node)
  | mapping (entries : List (Node × Node))

/-- What is left out is an empty plain scalar. -/
def Node.empty : Node := .scalar ⟨none, .plain, []⟩

end Document

/-- The nodes of a text. -/
structure Document where
  /-- There is none if the text holds no token. -/
  root : Option Document.Node
  /-- The nodes that aliases stand for, by number, the latest one first; collections are not kept. -/
  targets : List (Nat × Option Document.Scalar)

namespace Document

/-- The scalar that a node is, or stands for. -/
def scalar? (d : Document) : Node → Option Scalar
  | .scalar s => some s
  | .alias number => (d.targets.lookup number).join
  | .sequence _ => none
  | .mapping _ => none

/-! ## Reading on -/

/-- The tokens ahead, and what was read of tags and anchors. -/
structure Feed where
  tokens : List Token
  /-- What the handles of tags stand for. -/
  handles : List (List Char × List UInt8)
  /-- The anchors, each once, with the numbers of their latest nodes. -/
  anchors : List (List Char × Nat)
  targets : List (Nat × Option Scalar)

abbrev Reader := StateT Feed Option

namespace Reader

def next? : Reader (Option Token) := return (← get).tokens.head?

def drop : Reader Unit := modify fun f => { f with tokens := f.tokens.tail }

/-- Whether a token is next; it is passed then. -/
def skip (t : Token) : Reader Bool := do
  if (← next?) == some t then
    drop
    return true
  else return false

/-- Passes a token that has to be next. -/
def expect (t : Token) : Reader Unit := do
  if !(← skip t) then failure

/-- Whether one of some tokens is next. -/
def atAny (ts : List Token) : Reader Bool := return (← next?).any ts.contains

def anchor? : Reader (Option (List Char)) := do
  match ← next? with
  | some (.anchor name) =>
    drop
    return some name
  | _ => return none

/-- The full tag of a handle and an ending; the handle has to be known. -/
def fullTag (handle : List Char) (ending : List UInt8) : Reader (List UInt8) := do
  if handle.isEmpty then return ending
  else
    match (← get).handles.lookup handle with
    | some beginning => return beginning ++ ending
    | none => failure

def tag? : Reader (Option (List UInt8)) := do
  match ← next? with
  | some (.tag handle ending) =>
    drop
    return some (← fullTag handle ending)
  | _ => return none

/-- An anchor and a tag, in either order. -/
def properties : Reader (Option (List Char) × Option (List UInt8)) := do
  let first ← anchor?
  let tag ← tag?
  let anchor ← if first.isSome then pure first else anchor?
  return (anchor, tag)

/-- Numbers the node behind an anchor by how many anchors there were. -/
def name (anchor : Option (List Char)) (target : Option Scalar) : Reader Unit :=
  match anchor with
  | none => return
  | some name => modify fun f =>
    let number := f.anchors.length
    { f with anchors := (name, number) :: f.anchors.filter (·.1 != name), targets := (number, target) :: f.targets }

/-- The alias of an anchor, which has to be known. -/
def aliasOf (name : List Char) : Reader Node := do
  match (← get).anchors.lookup name with
  | some number => return .alias number
  | none => failure

/-! ## Collections, given how their nodes are read -/

/-- A node, which is left out in front of some tokens. -/
def nodeBefore (ends : List Token) (node : Reader Node) : Reader Node := do
  if ← atAny ends then return .empty else node

/-- The node behind a colon; it is left out with its colon, and in front of some tokens. -/
def behindColon (ends : List Token) (node : Reader Node) : Reader Node := do
  if ← skip .value then nodeBefore ends node else return .empty

def blockItems (node : Reader Node) : Nat → Reader (List Node)
  | 0 => failure
  | fuel + 1 => do
    if ← skip .blockEnd then return []
    else
      expect .blockEntry
      let item ← nodeBefore [.blockEntry, .blockEnd] node
      return item :: (← blockItems node fuel)

/-- The items of a sequence that lies no deeper than the mapping around it, and has no end of its own. -/
def levelItems (node : Reader Node) : Nat → Reader (List Node)
  | 0 => failure
  | fuel + 1 => do
    if ← skip .blockEntry then
      let item ← nodeBefore [.blockEntry, .key, .value, .blockEnd] node
      return item :: (← levelItems node fuel)
    else return []

def blockEntries (node : Reader Node) : Nat → Reader (List (Node × Node))
  | 0 => failure
  | fuel + 1 => do
    if ← skip .blockEnd then return []
    else
      expect .key
      let ends : List Token := [.key, .value, .blockEnd]
      let key ← nodeBefore ends node
      let value ← behindColon ends node
      return (key, value) :: (← blockEntries node fuel)

/-- The key of a pair in a sequence between brackets. A mark that shows it to be left out is passed. -/
def pairKey (node : Reader Node) : Reader Node := do
  if ← atAny [.value, .flowEntry, .flowSequenceEnd] then
    drop
    return .empty
  else node

/-- An item between brackets; a pair makes a mapping. -/
def flowItem (node : Reader Node) : Reader Node := do
  if ← skip .key then
    let key ← pairKey node
    let value ← behindColon [.flowEntry, .flowSequenceEnd] node
    return .mapping [(key, value)]
  else node

/-- The items up to the closing bracket, behind the opening one or further on. -/
def flowItems (node : Reader Node) : Nat → Bool → Reader (List Node)
  | 0, _ => failure
  | fuel + 1, first => do
    if ← skip .flowSequenceEnd then return []
    if !first then expect .flowEntry
    if !first && (← skip .flowSequenceEnd) then return []
    let item ← flowItem node
    return item :: (← flowItems node fuel false)

/-- An entry between braces; a node that is not marked as a key has no value. -/
def flowEntry (node : Reader Node) : Reader (Node × Node) := do
  if ← skip .key then
    let key ← nodeBefore [.value, .flowEntry, .flowMappingEnd] node
    let value ← behindColon [.flowEntry, .flowMappingEnd] node
    return (key, value)
  else return (← node, .empty)

/-- The entries up to the closing brace, behind the opening one or further on. -/
def flowEntries (node : Reader Node) : Nat → Bool → Reader (List (Node × Node))
  | 0, _ => failure
  | fuel + 1, first => do
    if ← skip .flowMappingEnd then return []
    if !first then expect .flowEntry
    if !first && (← skip .flowMappingEnd) then return []
    let entry ← flowEntry node
    return entry :: (← flowEntries node fuel false)

/-! ## Nodes -/

/-- Where a node stands. -/
inductive Place where
  /-- Between brackets. -/
  | flow
  /-- As an item of a block sequence, or as the root. -/
  | item
  /-- In an entry of a block mapping. -/
  | entry
deriving DecidableEq

/-- A lone exclamation mark says of a scalar that it has no tag. -/
def noTag : List UInt8 := Text.utf8 ['!']

/-- A node without its properties; `node` reads those in it, and there are at most `count` tokens. -/
def content (node : Place → Reader Node) (count : Nat) (place : Place) (anchor : Option (List Char))
    (tag : Option (List UInt8)) : Reader Node := do
  match ← next? with
  | some (.scalar style text) =>
    drop
    let s : Scalar := ⟨tag.filter (· != noTag), style, text⟩
    name anchor (some s)
    return .scalar s
  | some t =>
    if t = .flowSequenceStart then
      drop
      name anchor none
      return .sequence (← flowItems (node .flow) count true)
    else if t = .flowMappingStart then
      drop
      name anchor none
      return .mapping (← flowEntries (node .flow) count true)
    else if t = .blockEntry ∧ place = .entry then
      name anchor none
      return .sequence (← levelItems (node .item) count)
    else if t = .blockSequenceStart ∧ place ≠ .flow then
      drop
      name anchor none
      return .sequence (← blockItems (node .item) count)
    else if t = .blockMappingStart ∧ place ≠ .flow then
      drop
      name anchor none
      return .mapping (← blockEntries (node .entry) count)
    else leftOut
  | none => leftOut
where
  leftOut : Reader Node := do
    if anchor.isNone && tag.isNone then failure
    let s : Scalar := ⟨tag, .plain, []⟩
    name anchor (some s)
    return .scalar s

/-- A node with its properties, at most `depth` collections deep. -/
def node (count : Nat) : Nat → Place → Reader Node
  | 0, _ => failure
  | depth + 1, place => do
    match ← next? with
    | some (.alias name) =>
      drop
      aliasOf name
    | _ =>
      let (anchor, tag) ← properties
      content (node count depth) count place anchor tag

/-- The root of a document. -/
def root : Reader Node := do
  let count := (← get).tokens.length + 1
  node count count .item

end Reader

/-! ## Documents -/

/-- What handles stand for unless a directive says otherwise. -/
def defaultHandles : List (List Char × List UInt8) :=
  [(['!'], Text.utf8 ['!']), (['!', '!'], Text.utf8 "tag:yaml.org,2002:".toList)]

/-- What the handles stand for after directives, and the tokens behind them. The version may be given
once, and each handle once. -/
def directives? (versioned : Bool) (handles : List (List Char × List UInt8)) :
    List Token → Option (List (List Char × List UInt8) × List Token)
  | [] => some (handles, [])
  | .version major minor :: ts =>
    if versioned || major != 1 || !(minor == 1 || minor == 2) then none else directives? true handles ts
  | .tagHandle handle beginning :: ts =>
    if (handles.lookup handle).isSome then none
    else directives? versioned (handles ++ [(handle, beginning)]) ts
  | t :: ts => some (handles, t :: ts)

/-- Whether a token starts or ends a document, or is a directive. -/
def isBorder : Token → Bool
  | .version _ _ => true
  | .tagHandle _ _ => true
  | t => t = .documentStart || t = .documentEnd

/-- A document whose root is read from some tokens. Nothing but marks of its end may follow. -/
def withRoot? (handles : List (List Char × List UInt8)) (tokens : List Token) (root : Reader Node) :
    Option Document := do
  let (node, f) ← root.run ⟨tokens, handles ++ defaultHandles, [], []⟩
  if !(f.tokens.all (· == .documentEnd)) then none
  return ⟨some node, f.targets⟩

def ofTokens? : List Token → Option Document
  | [] => some ⟨none, []⟩
  | t :: ts =>
    if isBorder t && t != .documentEnd then
      match directives? false [] (t :: ts) with
      | some (handles, .documentStart :: rest) =>
        withRoot? handles rest (if rest.head?.all isBorder then pure .empty else Reader.root)
      | _ => none
    else withRoot? [] (t :: ts) Reader.root

/-- The document that a text is. -/
def ofText? (cs : List Char) : Option Document := (tokens? cs).bind ofTokens?

end Document

end ForestQuery
