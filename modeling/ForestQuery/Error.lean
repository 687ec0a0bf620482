import ForestQuery.Dialect
import ForestQuery.Segment
import ForestQuery.Value
/-!
Everything that can go wrong, as causes, and the wording of each in one place.
-/

namespace ForestQuery

/-- Why a relation, a configuration or a request is refused before any statement exists. -/
inductive Fault where
  | depthNotPositive
  | textWidthOutOfRange (width : Nat)
  | keyBytesNotPositive
  | noArrayType (dialect : Dialect)
  | unknownDialectOverride (raw : String)
  | badDepthOverride (raw : String)
  | invalidIdentifier (name : String)
  | reservedColumn (name : String)
  | reservedBeginning (name beginning : String)
  | unsupportedKeyType (key : String) (type : FieldType)
  | parentIsKey
  | fieldDeclaredTwice (name : String)
  | unknownField (name table : String)
  | orderingFieldTwice (field : String)
  | nativeOrderingNeedsKey
  | noDescendingText (dialect : Dialect) (field : String)
  | noKeyEncoding (field : String) (type : FieldType)
  | compositeArrayElement (components : Nat)
  | descendingArrayKey
  | noDescendingSegment (dialect : Dialect)
  | nullInList (field : String)
  | valueCount (field : String)
  | comparisonWithNull (field : String)
  | emptyClause
  | notEncodable (value : Value) (kind : SegmentKind)
  | storeDialect (dialect : Dialect)
  /-- A receiver of rows asked to stop. -/
  | stopped (reason : String)
deriving DecidableEq

/-- Why an encoded column, an identifier or a row cannot be decoded. -/
inductive DecodeFault where
  | depthOutOfRange (depth : Int64)
  | levels (column : String) (got expected : Nat)
  | ancestorColumns (expected got : Nat)
  | pathEnd (id : NodeId)
  | notAnInteger (text : String)
  | notAUuid (text : String)
  | uuidBytes (count : Nat)
  | keyTypeMismatch (value : Value) (type : FieldType)
  | expectedArray
  | expectedText
  | notWholeLevels (chars width : Nat)
  | badUuidSegment (segment : String)
  | badKeySegment (segment : String)
  | badIntegerSegment (segment : String)
  | badLength (text : String)
deriving DecidableEq

/-- What did not fit into a segment. -/
inductive Overflow where
  | textChars (count : Nat)
  | keyBytes (count : Nat)
  /-- A stored segment says that its text was cut. -/
  | storedText
  /-- A running statement failed on this value. -/
  | raised (value : String)
deriving DecidableEq

/-- A failure of any operation. -/
inductive Error where
  | configuration (fault : Fault)
  | unsupportedFieldType (field : String) (type : FieldType)
  | depthExceeded (maxDepth : Nat)
  | encodingOverflow (what : Overflow) (width : Nat)
  | traversalLimit (text : String)
  | decode (fault : DecodeFault)
  | store
  | file
  | document
deriving DecidableEq

/-- Environment variable that overrides the dialect. -/
def dialectVariable : String := "TREECTE_DIALECT"

/-- Environment variable that overrides the depth limit. -/
def maxDepthVariable : String := "TREECTE_MAX_DEPTH"

/-- Largest width of a text segment: one less than the length that marks an overflow. -/
def maxTextWidth : Nat := 9998

namespace Fault

def message : Fault → String
  | depthNotPositive => "max_depth must be at least 1"
  | textWidthOutOfRange width =>
    String.join ["text_width must be between 1 and ", toString maxTextWidth, ", got ", toString width]
  | keyBytesNotPositive => "key_bytes must be at least 1"
  | noArrayType d => String.join [d.name, " has no array type; use fixed_width encoding"]
  | unknownDialectOverride raw => String.join [dialectVariable, ": unknown dialect ", Text.quoted raw]
  | badDepthOverride raw => String.join [maxDepthVariable, ": not a depth: ", Text.quoted raw]
  | invalidIdentifier name => String.join ["`", name, "` is not a valid SQL identifier"]
  | reservedColumn name => String.join ["column name `", name, "` is reserved"]
  | reservedBeginning name beginning => String.join ["column `", name, "` uses the reserved prefix `",
    beginning, "`"]
  | unsupportedKeyType key type =>
    String.join ["identifier column `", key, "` has type ", type.name,
      "; only integer and uuid keys are supported"]
  | parentIsKey => "parent column must differ from the identifier column"
  | fieldDeclaredTwice name => String.join ["field `", name, "` declared twice"]
  | unknownField name table => String.join ["unknown field `", name, "` on relation `", table, "`"]
  | orderingFieldTwice field => String.join ["ordering field `", field, "` listed twice"]
  | nativeOrderingNeedsKey =>
    String.join ["native array encoding without window functions can only order siblings by the identifier; ",
      "enable window functions or use fixed_width encoding"]
  | noDescendingText d field =>
    String.join [d.name, " cannot order `", field, "` descending without window functions"]
  | noKeyEncoding field type =>
    String.join ["field `", field, "` of type ", type.name,
      " has no order-preserving key encoding; enable window functions to order by it"]
  | compositeArrayElement components =>
    String.join ["native arrays carry one value per level, got ", toString components,
      " ordering components; use fixed_width encoding for composite sibling keys"]
  | descendingArrayKey => "descending text sibling keys need a rank table or fixed_width encoding"
  | noDescendingSegment d =>
    String.join [d.name, " cannot encode descending text sibling keys without a rank table"]
  | nullInList field => String.join ["IN list on `", field, "` contains NULL; use is_null instead"]
  | valueCount field => String.join ["condition on `", field, "` needs exactly one value"]
  | comparisonWithNull field => String.join ["comparison of `", field,
    "` with NULL; use is_null or not_null"]
  | emptyClause => "empty filter clause"
  | notEncodable value kind => String.join ["value ", value.messageText, " cannot be encoded as ",
    kind.messageText]
  | storeDialect d => String.join ["TreeStore executes against SQLite, config targets ", d.name]
  | stopped reason => reason

end Fault

namespace DecodeFault

def message : DecodeFault → String
  | depthOutOfRange depth => String.join ["negative depth ", Value.integerText depth]
  | levels column got expected =>
    String.join [column, " has ", toString got, " levels, expected ", toString expected]
  | ancestorColumns expected got =>
    String.join ["expected ", toString expected, " ancestor columns, got ", toString got]
  | pathEnd id => String.join ["path of node ", id.display, " does not end in the node itself"]
  | notAnInteger text => String.join ["not an integer identifier: ", Text.quoted text]
  | notAUuid text => String.join ["not a uuid identifier ", Text.quoted text]
  | uuidBytes count =>
    String.join ["not a uuid identifier: invalid length: expected 16 bytes, found ", toString count]
  | keyTypeMismatch value type =>
    String.join ["identifier value ", value.messageText, " does not match key type ", type.name]
  | expectedArray => "expected a native array column, got an encoded string"
  | expectedText => "expected an encoded string column, got a native array"
  | notWholeLevels chars width =>
    String.join ["encoded column of ", toString chars, " chars is not a whole number of ", toString width,
      "-char levels"]
  | badUuidSegment segment => String.join ["bad uuid segment ", Text.quoted segment]
  | badKeySegment segment => String.join ["bad key segment ", Text.quoted segment]
  | badIntegerSegment segment => String.join ["bad integer segment ", Text.quoted segment]
  | badLength text => String.join ["bad text length prefix ", Text.quoted text]

end DecodeFault

namespace Overflow

def message : Overflow → String
  | textChars count => String.join ["text of ", toString count, " chars"]
  | keyBytes count => String.join ["key of ", toString count, " bytes"]
  | storedText => "text value longer than its segment"
  | raised value => String.join ["value ", Text.quoted value, " does not fit its segment"]

end Overflow

namespace Error

/-- The wording of a failure. Failures of the store itself, of files and of documents have none. -/
def message? : Error → Option String
  | configuration fault => some (String.join ["configuration error: ", fault.message])
  | unsupportedFieldType field type =>
    some (String.join ["unsupported field type for ancestor aggregation: field `", field, "` has type ",
      type.name])
  | depthExceeded maxDepth => some (String.join ["tree depth exceeded: max_depth is ", toString maxDepth])
  | encodingOverflow what width =>
    some (String.join ["encoding overflow: ", what.message, " (segment width ", toString width, ")"])
  | traversalLimit text => some (String.join ["traversal limit reached: ", text])
  | decode fault => some (String.join ["decode error: ", fault.message])
  | store | file | document => none

/-- Whether the failure arises while a statement is built, before anything runs. -/
def isConstruction : Error → Bool
  | configuration _ | unsupportedFieldType _ _ => true
  | _ => false

end Error

end ForestQuery
