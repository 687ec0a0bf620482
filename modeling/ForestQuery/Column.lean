import ForestQuery.Segment.Decode
/-!
Accumulated columns as a store returns them, and the values of their levels. Main statement: splitting
a text into levels of one width loses nothing.
-/

namespace ForestQuery

/-- An accumulated column. -/
inductive Column where
  /-- Fixed-width levels one after the other. -/
  | encoded (text : String)
  /-- The items of an array. -/
  | native (values : List Value)
deriving DecidableEq

namespace Column

/-- Cuts a text into pieces of one width; the last one may be shorter. -/
def levels (width : Nat) (cs : List Char) : List (List Char) :=
  if width = 0 ∨ cs = [] then [] else cs.take width :: levels width (cs.drop width)
termination_by cs.length
decreasing_by
  rename_i h
  have := List.length_pos_iff.mpr fun e => h (Or.inr e)
  simp only [List.length_drop]
  omega

/-- The values of the segments of one level. -/
def decodeSegments : List SegmentKind → List Char → Except Error (List Value)
  | [], _ => .ok []
  | kind :: kinds, cs => do
    let v ← Segment.decode (cs.take kind.width) kind
    return v :: (← decodeSegments kinds (cs.drop kind.width))

/-- The value of a level. A level of several segments is checked and kept as text, which compares as
the segments do. -/
def decodeLevel (kinds : List SegmentKind) (level : List Char) : Except Error Value := do
  match ← decodeSegments kinds level with
  | [v] => return v
  | _ => return .text (String.ofList level)

/-- The values of levels up to the first that cannot be decoded. -/
def decodeLevels (kinds : List SegmentKind) : List (List Char) → Except Error (List Value)
  | [] => .ok []
  | l :: ls => do
    let v ← decodeLevel kinds l
    return v :: (← decodeLevels kinds ls)

/-- The values in a text, which must be one or more whole levels. -/
def decodeChars (kinds : List SegmentKind) (cs : List Char) : Except Error (List Value) :=
  let width := SegmentKind.levelWidth kinds
  if width = 0 ∨ cs = [] ∨ cs.length % width ≠ 0 then
    .error (.decode (.notWholeLevels cs.length width))
  else decodeLevels kinds (levels width cs)

/-- The values of a column of fixed-width levels. -/
def decodeFixedWidth (kinds : List SegmentKind) : Column → Except Error (List Value)
  | encoded text => decodeChars kinds text.toList
  | native _ => .error (.decode .expectedText)

/-- The values of an array. -/
def decodeNative : Column → Except Error (List Value)
  | native values => .ok values
  | encoded _ => .error (.decode .expectedArray)

/-- The values of a column in the representation that a statement asked for. -/
def decode (isNative : Bool) (kinds : List SegmentKind) (c : Column) : Except Error (List Value) :=
  if isNative then c.decodeNative else c.decodeFixedWidth kinds

theorem flatten_levels {width : Nat} (h : 0 < width) (cs : List Char) :
    (levels width cs).flatten = cs := by
  fun_induction levels width cs with
  | case1 cs stop =>
    rcases stop with zero | empty
    · omega
    · simp [empty]
  | case2 cs _ ih => simp [ih]

end Column

end ForestQuery
