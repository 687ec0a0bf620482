import ForestQuery.Error
/-!
The settings of a compiler: their defaults, their limits, what follows from them, and overrides from
an environment.
-/

namespace ForestQuery

/-- How accumulated columns are asked to be represented. -/
inductive EncodingMode where
  /-- Arrays where the dialect has them. -/
  | auto
  | native
  | fixedWidth
deriving DecidableEq

namespace EncodingMode

def name : EncodingMode → String
  | auto => "auto"
  | native => "native"
  | fixedWidth => "fixed_width"

def all : List EncodingMode := [auto, native, fixedWidth]

def ofName? (s : String) : Option EncodingMode := all.find? fun m => m.name == s

/-- Other names of the mode. -/
def aliases : EncodingMode → List String
  | auto => []
  | native => ["array", "arrays"]
  | fixedWidth => ["fixedwidth", "fixed"]

/-- The mode that a loosely written name means; a hyphen may stand for the underscore. -/
def ofLooseName? (s : String) : Option EncodingMode :=
  let name := (looseName s).map fun c => if c = '-' then '_' else c
  all.find? fun m => (m.name :: m.aliases).contains name

theorem ofName?_name (m : EncodingMode) : ofName? m.name = some m := by cases m <;> rfl

end EncodingMode

/-- The settings of a compiler. -/
structure Config where
  dialect : Dialect
  /-- Depth at which a traversal fails, unless a request gives its own. -/
  maxDepth : Nat
  encoding : EncodingMode
  /-- Whether general plans may number siblings; by default, where the dialect can. -/
  windowFunctions : Option Bool
  /-- Characters of a text in an ancestor field. -/
  textWidth : Nat
  /-- Bytes of a text in an ordering key. -/
  keyBytes : Nat
  /-- Whether siblings sorted by several fields are worth a warning. -/
  warnMultiFieldOrdering : Bool
deriving DecidableEq

namespace Config

/-- One more than the largest depth that can be set: two to the 32nd power. -/
def depthBound : Nat := 4294967296

def forDialect (dialect : Dialect) : Config := ⟨dialect, 50, .auto, none, 64, 32, true⟩

def default : Config := forDialect .sqlite

instance : Inhabited Config := ⟨default⟩

/-- Whether accumulated columns are arrays. -/
def usesNativeArrays (c : Config) : Except Error Bool :=
  match c.encoding with
  | .auto => .ok c.dialect.capabilities.arrays
  | .fixedWidth => .ok false
  | .native =>
    if c.dialect.capabilities.arrays then .ok true
    else .error (.configuration (.noArrayType c.dialect))

/-- Whether general plans number siblings. -/
def usesWindowFunctions (c : Config) : Bool :=
  c.windowFunctions.getD c.dialect.capabilities.windowFunctions

/-- Refuses settings outside their limits. -/
def validate (c : Config) : Except Error Unit := do
  if c.maxDepth = 0 then throw (.configuration .depthNotPositive)
  if c.textWidth = 0 ∨ maxTextWidth < c.textWidth then
    throw (.configuration (.textWidthOutOfRange c.textWidth))
  if c.keyBytes = 0 then throw (.configuration .keyBytesNotPositive)
  let _ ← c.usesNativeArrays

/-- Settings within their limits. -/
def checked (c : Config) : Except Error Config := do
  c.validate
  return c

/-- Overrides the dialect, by one of its loose names. -/
def overrideDialect (c : Config) : Option String → Except Error Config
  | none => .ok c
  | some raw =>
    match Dialect.ofLooseName? raw with
    | some dialect => .ok { c with dialect }
    | none => .error (.configuration (.unknownDialectOverride raw))

/-- Overrides the depth limit, by a decimal number with blanks around it. -/
def overrideDepth (c : Config) : Option String → Except Error Config
  | none => .ok c
  | some raw =>
    match Text.unsigned? depthBound (Text.trimChars raw.toList) with
    | some maxDepth => .ok { c with maxDepth }
    | none => .error (.configuration (.badDepthOverride raw))

/-- Overrides settings by the variables of an environment and checks what results. -/
def applyOverrides (c : Config) (lookup : String → Option String) : Except Error Config := do
  let c ← c.overrideDialect (lookup dialectVariable)
  let c ← c.overrideDepth (lookup maxDepthVariable)
  c.checked

theorem validate_default : default.validate = .ok () := rfl

end Config

end ForestQuery
