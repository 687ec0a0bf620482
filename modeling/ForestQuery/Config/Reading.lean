import ForestQuery.Config
import ForestQuery.Document.Meaning
/-!
Settings read from a document. Every setting may be left out; names that are no setting are passed
over; a setting given twice or in a wrong form makes the document unreadable.
-/

namespace ForestQuery.Config

/-- The names of the settings. -/
def settingNames : List String :=
  ["dialect", "max_depth", "encoding", "window_functions", "text_width", "key_bytes", "warn_multi_field_ordering"]

/-- The settings with the one of this name set to what a scalar means. -/
def set? (c : Config) (name : String) (s : Document.Scalar) : Option Config :=
  match name with
  | "dialect" => (s.constant?.bind Dialect.ofName?).map fun dialect => { c with dialect }
  | "max_depth" => (s.nat? depthBound).map fun maxDepth => { c with maxDepth }
  | "encoding" => (s.constant?.bind EncodingMode.ofName?).map fun encoding => { c with encoding }
  | "window_functions" => s.optionalBool?.map fun windowFunctions => { c with windowFunctions }
  | "text_width" => (s.nat? SegmentKind.widthBound).map fun textWidth => { c with textWidth }
  | "key_bytes" => (s.nat? SegmentKind.widthBound).map fun keyBytes => { c with keyBytes }
  | "warn_multi_field_ordering" => s.bool?.map fun b => { c with warnMultiFieldOrdering := b }
  | _ => none

/-- Sets one entry of a document after the other; `seen` holds the settings that were given already. -/
def setAll? (d : Document) (c : Config) (seen : List String) :
    List (Document.Node × Document.Node) → Option Config
  | [] => some c
  | (key, value) :: rest =>
    match d.scalar? key with
    | none => none
    | some k =>
      if !settingNames.contains k.word then setAll? d c seen rest
      else if seen.contains k.word then none
      else
        match (d.scalar? value).bind (c.set? k.word) with
        | none => none
        | some c' => setAll? d c' (k.word :: seen) rest

/-- The settings that a document gives: those in a mapping, or none in a document without text. -/
def ofRoot? (d : Document) : Option Config :=
  match d.root with
  | none => some default
  | some (.scalar s) => if s.style == .plain && s.text.isEmpty then some default else none
  | some (.alias _) => none
  | some (.sequence _) => none
  | some (.mapping entries) => setAll? d default [] entries

/-- The settings in a document; a blank one leaves all defaults. -/
def ofDocument (text : String) : Except Error Config :=
  if (Text.trimChars text.toList).isEmpty then default.checked
  else
    match (Document.ofText? text.toList).bind ofRoot? with
    | some c => c.checked
    | none => .error .document

end ForestQuery.Config
