import ForestQuery.Proofs.Column
import ForestQuery.Proofs.Segment.Comparison
/-!
The order of columns that are written level by level. Main statement: where the kinds of the segments keep the
order of values, comparing two columns byte by byte is comparing the levels in turn, each of them component by
component, and equal columns come from equal levels, identifiers up to their spelling.
-/

namespace ForestQuery.Column

variable {kinds : List SegmentKind} {vs ws : List Value} {as bs : List (List Value)} {cs ds : List Char}

/-- The order of two levels: that of the first components that differ. -/
def compareLevel : List SegmentKind → List Value → List Value → Ordering
  | kind :: kinds, v :: vs, w :: ws => (Segment.compareValues kind v w).then (compareLevel kinds vs ws)
  | _, _, _ => .eq

/-- The order of two sequences of levels: that of the first levels that differ. A proper beginning of a sequence
comes before it. -/
def compareLevels (kinds : List SegmentKind) : List (List Value) → List (List Value) → Ordering :=
  List.compareLex (compareLevel kinds)

/-- A level of one spelling for each of its components. -/
def canonicalLevel (kinds : List SegmentKind) (vs : List Value) : List Value := List.zipWith Segment.canonical kinds vs

theorem canonicalLevel_cons (kind : SegmentKind) (kinds : List SegmentKind) (v : Value) (vs : List Value) :
    canonicalLevel (kind :: kinds) (v :: vs) = Segment.canonical kind v :: canonicalLevel kinds vs := rfl

/-- Levels with one value for each kind, none of which its segment confuses with another. -/
def IsToldLevel (kinds : List SegmentKind) (vs : List Value) : Prop := List.Forall₂ Segment.IsTold kinds vs

/-- Segments of one width decide in turn. -/
theorem compare_encodeLevel (ordered : ∀ kind ∈ kinds, kind.IsOrdered) (told : IsToldLevel kinds vs)
    (told' : IsToldLevel kinds ws) (first : encodeLevel kinds vs = .ok cs) (second : encodeLevel kinds ws = .ok ds) :
    compare (Text.codes cs) (Text.codes ds) = compareLevel kinds vs ws := by
  induction told generalizing ws cs ds with
  | nil =>
    cases told'
    cases first
    cases second
    rfl
  | @cons kind v kinds vs held _ ih =>
    obtain ⟨w, ws, held', rest', rfl⟩ := List.forall₂_cons_left_iff.mp told'
    obtain ⟨segment, tail, segmentOk, tailOk, rfl⟩ := encodeLevel_cons_eq_ok first
    obtain ⟨segment', tail', segmentOk', tailOk', rfl⟩ := encodeLevel_cons_eq_ok second
    have kindOrdered := ordered kind (by simp)
    have width : (Text.codes segment).length = (Text.codes segment').length := by
      rw [Text.length_codes, Text.length_codes, Segment.length_encode kindOrdered.isBounded segmentOk,
        Segment.length_encode kindOrdered.isBounded segmentOk']
    rw [Text.codes_append, Text.codes_append, Text.compare_append width,
      Segment.compare_encode kindOrdered segmentOk segmentOk' held held',
      ih (fun k member => ordered k (by simp [member])) rest' tailOk tailOk', compareLevel]

theorem compareLevel_eq_eq_iff (ordered : ∀ kind ∈ kinds, kind.IsOrdered) (full : vs.length = kinds.length)
    (full' : ws.length = kinds.length) (first : encodeLevel kinds vs = .ok cs) (second : encodeLevel kinds ws = .ok ds) :
    compareLevel kinds vs ws = .eq ↔ canonicalLevel kinds vs = canonicalLevel kinds ws := by
  induction kinds generalizing vs ws cs ds with
  | nil => exact iff_of_true rfl rfl
  | cons kind kinds ih =>
    obtain ⟨v, vs, rfl⟩ := List.exists_cons_of_length_eq_add_one full
    obtain ⟨w, ws, rfl⟩ := List.exists_cons_of_length_eq_add_one full'
    obtain ⟨segment, tail, segmentOk, tailOk, -⟩ := encodeLevel_cons_eq_ok first
    obtain ⟨segment', tail', segmentOk', tailOk', -⟩ := encodeLevel_cons_eq_ok second
    have components := Segment.compareValues_eq_eq_iff (ordered kind (by simp)) segmentOk segmentOk'
    have others := ih (fun k member => ordered k (by simp [member])) (by simpa using full) (by simpa using full')
      tailOk tailOk'
    rw [compareLevel, Ordering.then_eq_eq, components, others, canonicalLevel_cons, canonicalLevel_cons, List.cons.injEq]

theorem length_codes_encodeLevel (ordered : ∀ kind ∈ kinds, kind.IsOrdered) (told : IsToldLevel kinds vs)
    (written : encodeLevel kinds vs = .ok cs) : (Text.codes cs).length = SegmentKind.levelWidth kinds := by
  rw [Text.length_codes, length_encodeLevel (fun kind member => (ordered kind member).isBounded) told.length_eq.symm
    written]

/-- The text of a sequence of levels is empty only where the sequence is. -/
theorem exists_codes_encodeLevels (segmented : kinds ≠ []) (ordered : ∀ kind ∈ kinds, kind.IsOrdered)
    (told : IsToldLevel kinds vs) (written : encodeLevels kinds (vs :: as) = .ok cs) :
    ∃ c rest, Text.codes cs = c :: rest := by
  obtain ⟨level, rest, levelOk, -, rfl⟩ := encodeLevels_cons_eq_ok written
  have positive := levelWidth_pos segmented
  have width := length_codes_encodeLevel ordered told levelOk
  refine List.exists_cons_of_ne_nil (List.ne_nil_of_length_pos ?_)
  rw [Text.codes_append, List.length_append]
  omega

/-- Levels of one width decide in turn, and where one column ends it comes first. -/
theorem compare_encodeLevels (segmented : kinds ≠ []) (ordered : ∀ kind ∈ kinds, kind.IsOrdered)
    (told : ∀ vs ∈ as, IsToldLevel kinds vs) (told' : ∀ ws ∈ bs, IsToldLevel kinds ws)
    (first : encodeLevels kinds as = .ok cs) (second : encodeLevels kinds bs = .ok ds) :
    compare (Text.codes cs) (Text.codes ds) = compareLevels kinds as bs := by
  induction as generalizing bs cs ds with
  | nil =>
    cases first
    cases bs with
    | nil =>
      cases second
      rfl
    | cons ws bs =>
      obtain ⟨c, r, shape⟩ := exists_codes_encodeLevels segmented ordered (told' ws (by simp)) second
      rw [shape]
      rfl
  | cons vs as ih =>
    cases bs with
    | nil =>
      cases second
      obtain ⟨c, r, shape⟩ := exists_codes_encodeLevels segmented ordered (told vs (by simp)) first
      rw [shape]
      rfl
    | cons ws bs =>
      obtain ⟨level, rest, levelOk, restOk, rfl⟩ := encodeLevels_cons_eq_ok first
      obtain ⟨level', rest', levelOk', restOk', rfl⟩ := encodeLevels_cons_eq_ok second
      have held := told vs (by simp)
      have held' := told' ws (by simp)
      have width : (Text.codes level).length = (Text.codes level').length := by
        rw [length_codes_encodeLevel ordered held levelOk, length_codes_encodeLevel ordered held' levelOk']
      have rests := ih (fun us member => told us (by simp [member])) (fun us member => told' us (by simp [member]))
        restOk restOk'
      rw [Text.codes_append, Text.codes_append, Text.compare_append width,
        compare_encodeLevel ordered held held' levelOk levelOk', rests, compareLevels, List.compareLex_cons_cons]

theorem compareLevels_eq_eq_iff (ordered : ∀ kind ∈ kinds, kind.IsOrdered)
    (full : ∀ vs ∈ as, vs.length = kinds.length) (full' : ∀ ws ∈ bs, ws.length = kinds.length)
    (first : encodeLevels kinds as = .ok cs) (second : encodeLevels kinds bs = .ok ds) :
    compareLevels kinds as bs = .eq ↔ as.map (canonicalLevel kinds) = bs.map (canonicalLevel kinds) := by
  induction as generalizing bs cs ds with
  | nil => cases bs <;> simp [compareLevels, List.compareLex_nil_cons, List.compareLex_nil_nil]
  | cons vs as ih =>
    cases bs with
    | nil => simp [compareLevels, List.compareLex_cons_nil]
    | cons ws bs =>
      obtain ⟨level, rest, levelOk, restOk, -⟩ := encodeLevels_cons_eq_ok first
      obtain ⟨level', rest', levelOk', restOk', -⟩ := encodeLevels_cons_eq_ok second
      have heads := compareLevel_eq_eq_iff ordered (full vs (by simp)) (full' ws (by simp)) levelOk levelOk'
      have others := ih (fun us member => full us (by simp [member])) (fun us member => full' us (by simp [member]))
        restOk restOk'
      rw [compareLevels] at others
      rw [compareLevels, List.compareLex_cons_cons, Ordering.then_eq_eq, heads, others, List.map_cons, List.map_cons,
        List.cons.injEq]

theorem isAscii_encodeLevel {kinds : List SegmentKind} {values : List Value} {level : List Char}
    (plain : ∀ kind ∈ kinds, ∀ width, kind ≠ .text width) (written : encodeLevel kinds values = .ok level) :
    Text.IsAscii level := by
  induction kinds generalizing values level with
  | nil =>
    cases written
    exact fun c member => by cases member
  | cons kind kinds ih =>
    cases values with
    | nil =>
      cases written
      exact fun c member => by cases member
    | cons v vs =>
      obtain ⟨segment, tail, first, others, rfl⟩ := encodeLevel_cons_eq_ok written
      refine List.forall_mem_append.mpr ⟨Segment.isAscii_encode first (plain kind (by simp)), ?_⟩
      exact ih (fun k member => plain k (by simp [member])) others

theorem isAscii_encodeLevels (plain : ∀ kind ∈ kinds, ∀ width, kind ≠ .text width)
    (written : encodeLevels kinds as = .ok cs) : Text.IsAscii cs := by
  induction as generalizing cs with
  | nil =>
    cases written
    exact fun c member => by cases member
  | cons vs as ih =>
    obtain ⟨level, rest, levelOk, restOk, rfl⟩ := encodeLevels_cons_eq_ok written
    exact List.forall_mem_append.mpr ⟨isAscii_encodeLevel plain levelOk, ih restOk⟩

/-- Columns of levels compare byte by byte as the sequences of their levels do, and equal columns are those of one
sequence, up to the spelling of identifiers. -/
theorem compareText_encodeLevels (segmented : kinds ≠ []) (ordered : ∀ kind ∈ kinds, kind.IsOrdered)
    (told : ∀ vs ∈ as, IsToldLevel kinds vs) (told' : ∀ ws ∈ bs, IsToldLevel kinds ws)
    (first : encodeLevels kinds as = .ok cs) (second : encodeLevels kinds bs = .ok ds) :
    Text.compareText (String.ofList cs) (String.ofList ds) = compareLevels kinds as bs ∧
      (cs = ds ↔ as.map (canonicalLevel kinds) = bs.map (canonicalLevel kinds)) := by
  have plain : ∀ kind ∈ kinds, ∀ width, kind ≠ .text width := fun kind member => (ordered kind member).ne_text
  have order : Text.compareText (String.ofList cs) (String.ofList ds) = compareLevels kinds as bs := by
    rw [Text.compareText, Text.compareBytes_eq_compare, String.toList_ofList, String.toList_ofList,
      Text.compare_utf8 (isAscii_encodeLevels plain first) (isAscii_encodeLevels plain second),
      compare_encodeLevels segmented ordered told told' first second]
  refine ⟨order, ?_⟩
  rw [← compareLevels_eq_eq_iff ordered (fun vs member => (told vs member).length_eq.symm)
    (fun ws member => (told' ws member).length_eq.symm) first second, ← order, Text.compareText_eq_eq_iff]
  exact ⟨congrArg String.ofList, fun same => String.ofList_injective same⟩

/-- A descending key turns the order of texts round. -/
theorem compareText_encodeLevels_sample :
    ∃ cs ds, encodeLevels [.integer, .textKey 1 true] [[.integer (-1), .text "b"]] = .ok cs ∧
      encodeLevels [.integer, .textKey 1 true] [[.integer (-1), .text "a"], [.null, .null]] = .ok ds ∧
      Text.compareText (String.ofList cs) (String.ofList ds) = .lt := by
  have ordered : ∀ kind ∈ [SegmentKind.integer, .textKey 1 true], kind.IsOrdered := by simp [SegmentKind.IsOrdered]
  have told : ∀ s : String, s.toList.getLast? ≠ some '\x00' →
      IsToldLevel [.integer, .textKey 1 true] [.integer (-1), .text s] :=
    fun s clean => .cons trivial (.cons clean .nil)
  have absent : IsToldLevel [.integer, .textKey 1 true] [.null, .null] := .cons trivial (.cons trivial .nil)
  have order := compareText_encodeLevels (by simp) ordered (List.forall_mem_singleton.mpr (told "b" (by decide)))
    (List.forall_mem_cons.mpr ⟨told "a" (by decide), List.forall_mem_singleton.mpr absent⟩) rfl rfl
  exact ⟨_, _, rfl, rfl, order.1⟩

end ForestQuery.Column
