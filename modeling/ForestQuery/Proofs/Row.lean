import ForestQuery.Proofs.Column
import ForestQuery.Row
import Mathlib.Data.List.Nodup
/-!
Rows written from the values along a path. Main statement: a written row is read as the node that it
was written for, with each ancestor field and each level of the ordering.
-/

namespace ForestQuery

namespace NodeId

/-- The column type of the identifier. -/
def type : NodeId → FieldType
  | int _ => .integer
  | uuid _ => .uuid

/-- The segment of the identifier in a path. -/
def chars : NodeId → List Char
  | int i => Segment.encodeInteger i
  | uuid u => u.chars

theorem ofValue_toValue (id : NodeId) : ofValue id.type id.toValue = .ok id := by
  cases id with
  | int i => rfl
  | uuid u =>
    have trimmed : Text.trimChars u.text.toList = u.chars := by
      rw [Uuid.text, String.toList_ofList, u.trimChars_chars]
    simp only [type, toValue, ofValue, trimmed, u.ofChars?_chars]

theorem encode_toValue (id : NodeId) :
    Segment.encode id.toValue (.ofFieldType 0 id.type) = .ok id.chars := by
  cases id with
  | int i => rfl
  | uuid u => exact Segment.encode_uuid_text u

theorem isKept_toValue (id : NodeId) : Segment.IsKept id.toValue (.ofFieldType 0 id.type) := by
  cases id with
  | int i => exact trivial
  | uuid u => exact Or.inr ⟨u, rfl⟩

theorem isNull_toValue (id : NodeId) : id.toValue.isNull = false := by
  cases id <;> rfl

theorem ofValues_eq_mapM (type : FieldType) (vs : List Value) :
    ofValues type vs = vs.mapM (ofValue type) := by
  induction vs with
  | nil => rfl
  | cons v r ih => rw [ofValues, ih, List.mapM_cons]

theorem ofValues_toValue {type : FieldType} {ids : List NodeId} (typed : ∀ id ∈ ids, id.type = type) :
    ofValues type (ids.map toValue) = .ok ids := by
  rw [ofValues_eq_mapM, Outcome.mapM_eq_ok_iff]
  refine List.forall₂_map_left_iff.mpr (List.forall₂_same.mpr fun id member => ?_)
  rw [← typed id member, ofValue_toValue]

/-- The text of a path. -/
theorem encodeLevels_toValue {type : FieldType} {ids : List NodeId} (typed : ∀ id ∈ ids, id.type = type) :
    Column.encodeLevels [.ofFieldType 0 type] (ids.map fun id => [id.toValue]) = .ok (ids.flatMap chars) := by
  refine Column.encodeLevels_eq_ok_iff.mpr ⟨ids.map chars, ?_, List.flatMap_def⟩
  refine List.forall₂_map_left_iff.mpr (List.forall₂_map_right_iff.mpr (List.forall₂_same.mpr fun id member => ?_))
  rw [Column.encodeLevel_single, ← typed id member, id.encode_toValue]

/-- A path is read as its identifiers. -/
theorem decode_path {type : FieldType} {ids : List NodeId} (nonempty : ids ≠ []) (typed : ∀ id ∈ ids, id.type = type) :
    (Column.encoded (String.ofList (ids.flatMap chars))).decode false [.ofFieldType 0 type] = .ok (ids.map toValue) := by
  have kept : ∀ v ∈ ids.map toValue, Segment.IsKept v (.ofFieldType 0 type) := by
    intro v member
    obtain ⟨id, inIds, rfl⟩ := List.mem_map.mp member
    rw [← typed id inIds]
    exact id.isKept_toValue
  have bounded : (SegmentKind.ofFieldType 0 type).IsBounded := by
    obtain ⟨id, rest, rfl⟩ := List.exists_cons_of_ne_nil nonempty
    rw [← typed id (by simp)]
    cases id <;> trivial
  refine Column.decode_encodeLevels_single bounded (by simpa using nonempty) kept ?_
  rw [List.map_map]
  exact encodeLevels_toValue typed

end NodeId

namespace NameMap

variable {α : Type}

theorem get?_foldl_insert_of_not_mem {entries : List (String × α)} {name : String} (m : NameMap α)
    (absent : name ∉ entries.map Prod.fst) :
    (entries.foldl (fun m e => m.insert e.1 e.2) m).get? name = m.get? name := by
  induction entries generalizing m with
  | nil => rfl
  | cons e rest ih =>
    simp only [List.map_cons, List.mem_cons, not_or] at absent
    rw [List.foldl_cons, ih _ absent.2, get?_insert_of_ne m e.2 (Ne.symm absent.1)]

/-- Of distinct names each one has its own value. -/
theorem get?_ofList {entries : List (String × α)} {name : String} {x : α}
    (distinct : (entries.map Prod.fst).Nodup) (member : (name, x) ∈ entries) :
    (ofList entries).get? name = some x := by
  have from_any : ∀ m : NameMap α, (entries.foldl (fun m e => m.insert e.1 e.2) m).get? name = some x := by
    induction entries with
    | nil => cases member
    | cons e rest ih =>
      intro m
      rw [List.map_cons, List.nodup_cons] at distinct
      rcases List.mem_cons.mp member with rfl | later
      · rw [List.foldl_cons, get?_foldl_insert_of_not_mem _ distinct.1, get?_insert_self]
      · exact ih distinct.2 later _
  exact from_any empty

theorem nodup_names (m : NameMap α) : (m.entries.map Prod.fst).Nodup := by
  refine List.pairwise_map.mpr (m.sorted.imp fun {a b} less same => ?_)
  rw [same] at less
  exact String.lt_irrefl _ less

theorem get?_eq_some_iff {m : NameMap α} {name : String} {x : α} : m.get? name = some x ↔ (name, x) ∈ m.entries := by
  rw [get?, Option.map_eq_some_iff]
  constructor
  · rintro ⟨e, found, rfl⟩
    have named := List.find?_some found
    rw [← beq_iff_eq.mp named]
    exact List.mem_of_find?_eq_some found
  · intro member
    cases found : m.entries.find? fun e => e.1 == name with
    | none =>
      have absent := List.find?_eq_none.mp found _ member
      simp at absent
    | some e =>
      have named := List.find?_some found
      refine ⟨e, rfl, ?_⟩
      exact congrArg Prod.snd (List.inj_on_of_nodup_map m.nodup_names (List.mem_of_find?_eq_some found) member
        (beq_iff_eq.mp named))

/-- The map of changed values has the changed value under each name. -/
theorem get?_ofList_map (m : NameMap α) {β : Type} (g : α → β) (name : String) :
    (ofList (m.entries.map fun e => (e.1, g e.2))).get? name = (m.get? name).map g := by
  have names : (m.entries.map fun e => (e.1, g e.2)).map Prod.fst = m.entries.map Prod.fst := by
    rw [List.map_map]
    rfl
  cases found : m.get? name with
  | some x =>
    refine get?_ofList (names ▸ m.nodup_names) ?_
    exact List.mem_map.mpr ⟨(name, x), get?_eq_some_iff.mp found, rfl⟩
  | none =>
    have absent : name ∉ m.entries.map Prod.fst := by
      intro member
      obtain ⟨e, inEntries, rfl⟩ := List.mem_map.mp member
      rw [get?_eq_some_iff.mpr inEntries] at found
      cases found
    rw [ofList, get?_foldl_insert_of_not_mem _ (names ▸ absent)]
    rfl

end NameMap

/-- A node with what its row is written from. -/
structure Chain where
  /-- The nodes above it, the root first. -/
  above : List NodeId
  id : NodeId
  parent : Option NodeId
  /-- For each level the values that the ordering is made of. -/
  ordering : List (List Value)
  /-- For each ancestor field the values along the path. -/
  ancestors : List (List Value)
  fields : List (String × Value)

namespace Chain

def path (c : Chain) : List NodeId := c.above ++ [c.id]

def depth (c : Chain) : Nat := c.above.length

/-- The row of the node, its columns made of the segments of the levels. -/
def write (l : Layout) (c : Chain) : Except Error RawRow := do
  let path ← Column.encodeLevels [l.path] (c.path.map fun id => [id.toValue])
  let ordering ← Column.encodeLevels l.ordering c.ordering
  let ancestors ← (l.ancestors.zip c.ancestors).mapM fun p => Column.encodeLevels [p.1.2] (p.2.map ([·]))
  return {
    depth := Int64.ofNat c.depth
    id := c.id.toValue
    parent := (c.parent.map NodeId.toValue).getD .null
    path := .encoded (String.ofList path)
    ordering := .encoded (String.ofList ordering)
    ancestors := ancestors.map fun cs => .encoded (String.ofList cs)
    fields := c.fields }

/-- One value for each segment of each level, all of them with a segment of their kind. -/
structure Fits (l : Layout) (c : Chain) : Prop where
  keyed : ∀ id ∈ c.path, id.type = l.keyType
  parentKeyed : ∀ id, c.parent = some id → id.type = l.keyType
  levels : c.ordering.length = c.path.length
  full : ∀ values ∈ c.ordering, values.length = l.ordering.length
  ordered : ∀ values ∈ c.ordering, ∀ p ∈ values.zip l.ordering, ∃ cs, Segment.encode p.1 p.2 = .ok cs
  columns : c.ancestors.length = l.ancestors.length
  collected : ∀ values ∈ c.ancestors, values.length = c.path.length
  gathered : ∀ p ∈ l.ancestors.zip c.ancestors, ∀ v ∈ p.2, ∃ cs, Segment.encode v p.1.2 = .ok cs

end Chain

/-- Fixed-width layouts with a key in the path, segments in each level, and ancestor fields of their
own names that hold integers or texts. -/
structure Layout.IsFixedWidth (l : Layout) : Prop where
  path : l.path = .ofFieldType 0 l.keyType
  segmented : l.ordering ≠ []
  bounded : ∀ kind ∈ l.ordering, kind.IsBounded
  collectable : ∀ a ∈ l.ancestors, a.2 = .integer ∨ ∃ width ≤ maxTextWidth, a.2 = .text width
  distinct : (l.ancestors.map Prod.fst).Nodup

namespace Chain

theorem path_ne_nil (c : Chain) : c.path ≠ [] := by simp [path]

theorem length_path (c : Chain) : c.path.length = c.depth + 1 := by simp [path, depth]

theorem getLast?_path (c : Chain) : c.path.getLast? = some c.id := by simp [path]

end Chain

namespace Layout

theorem decodeAncestors_eq {isNative : Bool} {expected : Nat} {kinds : List (String × SegmentKind)}
    {values : List (List Value)} {columns : List Column} (m : NameMap (List Value))
    (full : values.length = kinds.length)
    (read : List.Forall₂ (fun p c => c.decode isNative [p.1.2] = .ok p.2 ∧ p.2.length = expected)
      (kinds.zip values) columns) :
    decodeAncestors isNative expected m kinds columns
      = .ok (((kinds.map Prod.fst).zip values).foldl (fun m e => m.insert e.1 e.2) m) := by
  induction kinds generalizing values columns m with
  | nil => rfl
  | cons kind kinds ih =>
    obtain ⟨v, vs, rfl⟩ := List.exists_cons_of_length_eq_add_one full
    rw [List.zip_cons_cons, List.forall₂_cons_left_iff] at read
    obtain ⟨c, cs, ⟨decoded, length⟩, rest, rfl⟩ := read
    obtain ⟨name, kind⟩ := kind
    rw [decodeAncestors, decoded]
    simp only [bind, Except.bind, checkLevels, if_pos length]
    rw [ih (m.insert name v) (by simpa using full) rest]
    rfl

theorem decodeParent_toValue {type : FieldType} {parent : Option NodeId}
    (keyed : ∀ id, parent = some id → id.type = type) :
    decodeParent type ((parent.map NodeId.toValue).getD .null) = .ok parent := by
  cases parent with
  | none => rfl
  | some id =>
    simp only [Option.map_some, Option.getD_some]
    rw [decodeParent, if_neg (by simp [NodeId.isNull_toValue]), ← keyed id rfl, NodeId.ofValue_toValue]
    rfl

theorem toInt_depth {n : Nat} (bounded : (n : Int) < depthBound) : (Int64.ofNat n).toInt = n := by
  rw [depthBound] at bounded
  exact Int64.toInt_ofNat_of_lt (by omega)

/-- What the checks of a row that is read have found. -/
structure Reads (l : Layout) (isNative : Bool) (maxDepth : Nat) (raw : RawRow) (row : TreeRow) : Prop where
  depth : raw.depth.toInt = (row.depth : Int)
  bounded : (row.depth : Int) < depthBound
  shallow : row.depth < maxDepth
  path : ∃ values, raw.path.decode isNative [l.path] = .ok values ∧
    NodeId.ofValues l.keyType values = .ok row.path
  levels : row.path.length = row.depth + 1
  ordering : raw.ordering.decode isNative l.ordering = .ok row.ordering
  ordered : row.ordering.length = row.depth + 1
  columns : raw.ancestors.length = l.ancestors.length
  ancestors : decodeAncestors isNative (row.depth + 1) .empty l.ancestors raw.ancestors = .ok row.ancestorFields
  id : NodeId.ofValue l.keyType raw.id = .ok row.id
  last : row.path.getLast? = some row.id
  parent : decodeParent l.keyType raw.parent = .ok row.parent
  fields : row.fields = NameMap.ofList raw.fields

theorem checkLevels_eq_ok_iff {column : String} {got expected : Nat} {u : Unit} :
    checkLevels column got expected = .ok u ↔ got = expected := by
  unfold checkLevels
  split
  · rename_i same
    exact ⟨fun _ => same, fun _ => rfl⟩
  · rename_i other
    exact ⟨fun h => (by cases h), fun same => absurd same other⟩

/-- A row is read exactly when every check passes. -/
theorem decode_eq_ok_iff {l : Layout} {isNative : Bool} {maxDepth : Nat} {raw : RawRow} {row : TreeRow} :
    l.decode isNative maxDepth raw = .ok row ↔ l.Reads isNative maxDepth raw row := by
  simp only [decode, Outcome.check_eq_ok_iff, Outcome.bind_eq_ok_iff, Outcome.pure_eq_ok_iff,
    checkLevels_eq_ok_iff, Decidable.not_not]
  constructor
  · rintro ⟨inRange, shallow, values, pathOk, path, ids, -, levels, ordering, orderingOk, -, ordered, columns,
      ancestors, ancestorsOk, id, idOk, last, parent, parentOk, rfl⟩
    have depth : raw.depth.toInt = (raw.depth.toInt.toNat : Int) := by omega
    have bounded : (raw.depth.toInt.toNat : Int) < depthBound := by omega
    have below : raw.depth.toInt.toNat < maxDepth := by omega
    exact ⟨depth, bounded, below, ⟨values, pathOk, ids⟩, levels, orderingOk, ordered, columns, ancestorsOk,
      idOk, last, parentOk, rfl⟩
  · intro read
    have depth : raw.depth.toInt.toNat = row.depth := by rw [read.depth, Int.toNat_natCast]
    have bounded := read.bounded
    have shallow := read.shallow
    obtain ⟨values, pathOk, ids⟩ := read.path
    refine ⟨by rw [read.depth]; omega, by omega, values, pathOk, row.path, ids, (), by rw [depth, read.levels],
      row.ordering, read.ordering, (), by rw [depth, read.ordered], read.columns, row.ancestorFields,
      by rw [depth, read.ancestors], row.id, read.id, read.last, row.parent, read.parent, ?_⟩
    rw [depth, ← read.fields]

end Layout

namespace Chain

variable {l : Layout} {c : Chain}

theorem exists_write (fits : c.Fits l) (fixed : l.IsFixedWidth) : ∃ raw, c.write l = .ok raw := by
  have pathOk : Column.encodeLevels [l.path] (c.path.map fun id => [id.toValue]) = .ok (c.path.flatMap NodeId.chars) := by
    rw [fixed.path]
    exact NodeId.encodeLevels_toValue fits.keyed
  obtain ⟨ordering, orderingOk⟩ := Column.exists_encodeLevels fun values member =>
    Column.exists_encodeLevel (fits.ordered values member)
  have columns : ∀ p ∈ l.ancestors.zip c.ancestors,
      ∃ cs, Column.encodeLevels [p.1.2] (p.2.map ([·])) = .ok cs := by
    intro p member
    refine Column.exists_encodeLevels fun values inColumn => ?_
    obtain ⟨v, inValues, rfl⟩ := List.mem_map.mp inColumn
    rw [Column.encodeLevel_single]
    exact fits.gathered p member v inValues
  obtain ⟨ancestors, ancestorsOk⟩ := Outcome.exists_mapM_eq_ok columns
  exact ⟨_, by rw [write, pathOk, orderingOk, ancestorsOk]; rfl⟩

theorem bounded_of_collectable {kind : SegmentKind}
    (h : kind = .integer ∨ ∃ width ≤ maxTextWidth, kind = .text width) : kind.IsBounded := by
  rcases h with rfl | ⟨width, bound, rfl⟩
  · trivial
  · exact bound

theorem isKept_of_collectable {kind : SegmentKind} (v : Value)
    (h : kind = .integer ∨ ∃ width ≤ maxTextWidth, kind = .text width) : Segment.IsKept v kind := by
  rcases h with rfl | ⟨width, -, rfl⟩ <;> trivial

/-- The ordering of a written row. -/
theorem decode_ordering {cs : List Char} (fits : c.Fits l) (fixed : l.IsFixedWidth)
    (written : Column.encodeLevels l.ordering c.ordering = .ok cs) :
    ∃ read, (Column.encoded (String.ofList cs)).decode false l.ordering = .ok read ∧
      List.Forall₂ (fun values v => ∃ level, Column.encodeLevel l.ordering values = .ok level ∧
        v = Column.levelReading l.ordering values level) c.ordering read := by
  have nonempty : c.ordering ≠ [] :=
    List.ne_nil_of_length_pos (by rw [fits.levels, c.length_path]; omega)
  have whole := Column.decode_encodeLevels fixed.bounded fixed.segmented nonempty fits.full written
  have each : ∀ values ∈ c.ordering, ∃ v,
      (Column.encodeLevel l.ordering values).map (Column.levelReading l.ordering values) = .ok v := by
    intro values member
    obtain ⟨level, levelOk⟩ := Column.exists_encodeLevel (fits.ordered values member)
    exact ⟨_, by rw [levelOk]; rfl⟩
  obtain ⟨read, readOk⟩ := Outcome.exists_mapM_eq_ok each
  refine ⟨read, whole.trans readOk, (Outcome.mapM_eq_ok_iff.mp readOk).imp fun values v level => ?_⟩
  obtain ⟨text, levelOk, same⟩ := Outcome.map_eq_ok_iff.mp level
  exact ⟨text, levelOk, same.symm⟩

/-- The ancestor fields of a written row. -/
theorem decode_ancestors {columns : List (List Char)} (fits : c.Fits l) (fixed : l.IsFixedWidth)
    (written : (l.ancestors.zip c.ancestors).mapM (fun p => Column.encodeLevels [p.1.2] (p.2.map ([·])))
      = .ok columns) :
    Layout.decodeAncestors false (c.depth + 1) .empty l.ancestors
        (columns.map fun cs => .encoded (String.ofList cs))
      = .ok (NameMap.ofList ((l.ancestors.map Prod.fst).zip c.ancestors)) := by
  refine Layout.decodeAncestors_eq .empty fits.columns ?_
  have each := Outcome.mapM_eq_ok_iff.mp written
  refine List.forall₂_map_right_iff.mpr (List.forall₂_iff_zip.mpr ⟨each.length_eq, fun {p cs} member => ?_⟩)
  have columnOk := List.forall₂_zip each member
  have inZip := (List.of_mem_zip member).1
  have collectable := fixed.collectable p.1 (List.of_mem_zip inZip).1
  have length := fits.collected p.2 (List.of_mem_zip inZip).2
  rw [c.length_path] at length
  have nonempty : p.2 ≠ [] := List.ne_nil_of_length_pos (by omega)
  exact ⟨Column.decode_encodeLevels_single (bounded_of_collectable collectable) nonempty
    (fun v _ => isKept_of_collectable v collectable) columnOk, length⟩

/-- Levels of a single segment that keeps its values are read as these values. -/
theorem ordering_eq_of_isKept {kind : SegmentKind} {rows : List (List Value)} {read : List Value}
    (single : ∀ values ∈ rows, values.length = 1)
    (kept : ∀ values ∈ rows, ∀ v ∈ values, Segment.IsKept v kind)
    (levels : List.Forall₂ (fun values v => ∃ level, Column.encodeLevel [kind] values = .ok level ∧
      v = Column.levelReading [kind] values level) rows read) : read = rows.flatten := by
  induction levels with
  | nil => rfl
  | @cons values v rest read first _ ih =>
    obtain ⟨x, rfl⟩ := List.length_eq_one_iff.mp (single values (by simp))
    obtain ⟨level, written, rfl⟩ := first
    rw [Column.encodeLevel_single] at written
    have same : Column.levelReading [kind] [x] level = x :=
      Segment.reading_of_isKept (kept [x] (by simp) x (by simp)) written
    rw [same, ih (fun values member => single values (by simp [member]))
      (fun values member => kept values (by simp [member]))]
    rfl

/-- A row is read as the node that it was written for: identifier, parent, depth and path, the values of
each ancestor field, and for each level of the ordering its value if it is a single segment that keeps
values, and its text otherwise. -/
theorem decode_write {maxDepth : Nat} (fits : c.Fits l) (fixed : l.IsFixedWidth) (shallow : c.depth < maxDepth)
    (limit : (maxDepth : Int) < Layout.depthBound) :
    ∃ raw row, c.write l = .ok raw ∧ l.decode false maxDepth raw = .ok row ∧
      row.id = c.id ∧ row.parent = c.parent ∧ row.depth = c.depth ∧ row.path = c.path ∧
      row.ancestorFields = NameMap.ofList ((l.ancestors.map Prod.fst).zip c.ancestors) ∧
      (∀ name values, (name, values) ∈ (l.ancestors.map Prod.fst).zip c.ancestors →
        row.ancestorFields.get? name = some values) ∧
      List.Forall₂ (fun values v => ∃ level, Column.encodeLevel l.ordering values = .ok level ∧
        v = Column.levelReading l.ordering values level) c.ordering row.ordering ∧
      (∀ kind, l.ordering = [kind] → (∀ values ∈ c.ordering, ∀ v ∈ values, Segment.IsKept v kind) →
        row.ordering = c.ordering.flatten) ∧
      row.fields = NameMap.ofList c.fields := by
  obtain ⟨raw, rawOk⟩ := exists_write fits fixed
  have steps := rawOk
  rw [write] at steps
  obtain ⟨path, pathOk, steps⟩ := Outcome.bind_eq_ok_iff.mp steps
  obtain ⟨ordering, orderingOk, steps⟩ := Outcome.bind_eq_ok_iff.mp steps
  obtain ⟨ancestors, ancestorsOk, steps⟩ := Outcome.bind_eq_ok_iff.mp steps
  have shape := Outcome.pure_eq_ok_iff.mp steps
  obtain ⟨read, readOk, levels⟩ := decode_ordering fits fixed orderingOk
  have names : ((l.ancestors.map Prod.fst).zip c.ancestors).map Prod.fst = l.ancestors.map Prod.fst :=
    List.map_fst_zip (by simp [fits.columns])
  refine ⟨raw, ⟨c.id, c.parent, c.depth, c.path, read,
    NameMap.ofList ((l.ancestors.map Prod.fst).zip c.ancestors), NameMap.ofList c.fields⟩,
    rawOk, ?_, rfl, rfl, rfl, rfl, rfl, ?_, levels, ?_, rfl⟩
  · have bound : Layout.depthBound = 4294967296 := rfl
    have bounded : (c.depth : Int) < Layout.depthBound := by omega
    have count : ancestors.length = l.ancestors.length := by
      rw [← (Outcome.mapM_eq_ok_iff.mp ancestorsOk).length_eq, List.length_zip, fits.columns, Nat.min_self]
    have ordered : read.length = c.depth + 1 := by
      rw [← levels.length_eq, fits.levels, c.length_path]
    subst shape
    exact Layout.decode_eq_ok_iff.mpr {
      depth := Int64.toInt_ofNat_of_lt (by omega)
      bounded, shallow
      path := by
        rw [fixed.path, NodeId.encodeLevels_toValue fits.keyed] at pathOk
        cases pathOk
        rw [fixed.path]
        exact ⟨_, NodeId.decode_path c.path_ne_nil fits.keyed, NodeId.ofValues_toValue fits.keyed⟩
      levels := c.length_path
      ordering := readOk
      ordered
      columns := by rw [List.length_map, count]
      ancestors := decode_ancestors fits fixed ancestorsOk
      id := by rw [← fits.keyed c.id (by simp [Chain.path]), NodeId.ofValue_toValue]
      last := c.getLast?_path
      parent := Layout.decodeParent_toValue fits.parentKeyed
      fields := rfl }
  · intro name values member
    exact NameMap.get?_ofList (by rw [names]; exact fixed.distinct) member
  · intro kind single kept
    rw [single] at levels
    exact ordering_eq_of_isKept (fun values member => by rw [fits.full values member, single]; rfl) kept levels

/-- A layout with one ancestor field. -/
def sampleLayout : Layout := ⟨.integer, .integer, [.uuid], [("names", .text 5)], []⟩

/-- A node below another one, with blanks and an accent in the ancestor field. -/
def sample : Chain where
  above := [.int 1]
  id := .int (-7)
  parent := some (.int 1)
  ordering := [[.null], [.text "0a1b2c3d-0a1b-0a1b-0a1b-0a1b2c3d4e5f"]]
  ancestors := [[.text "é ", .null]]
  fields := [("names", .null)]

theorem decode_write_sample :
    ∃ raw row, sample.write sampleLayout = .ok raw ∧ sampleLayout.decode false 2 raw = .ok row ∧
      row.path = [.int 1, .int (-7)] ∧ row.ancestorFields.get? "names" = some [.text "é ", .null] := by
  have fits : sample.Fits sampleLayout := {
    keyed := by decide
    parentKeyed := by rintro id ⟨⟩; rfl
    levels := rfl
    full := by decide
    ordered := by
      intro values member p pair
      have written : ∀ values ∈ sample.ordering, ∀ p ∈ values.zip sampleLayout.ordering,
          (Segment.encode p.1 p.2).toBool = true := by decide
      exact Outcome.exists_of_toBool (written values member p pair)
    columns := rfl
    collected := by decide
    gathered := by
      intro p pair v member
      have written : ∀ p ∈ sampleLayout.ancestors.zip sample.ancestors, ∀ v ∈ p.2,
          (Segment.encode v p.1.2).toBool = true := by decide
      exact Outcome.exists_of_toBool (written p pair v member) }
  have fixed : sampleLayout.IsFixedWidth := {
    path := rfl
    segmented := by decide
    bounded := by rintro kind member; cases List.mem_singleton.mp member; trivial
    collectable := by
      intro a member
      cases List.mem_singleton.mp member
      exact Or.inr ⟨5, by decide, rfl⟩
    distinct := by decide }
  have shallow : sample.depth < 2 := by decide
  obtain ⟨raw, row, written, read, -, -, -, path, -, collected, -⟩ :=
    decode_write fits fixed shallow (by decide)
  exact ⟨raw, row, written, read, path, collected "names" _ (by decide)⟩

end Chain

end ForestQuery
