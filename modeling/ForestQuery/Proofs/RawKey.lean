import ForestQuery.Proofs.Column.Order
import ForestQuery.Proofs.Preorder
/-!
The order of raw keys. Main statements: where the ordering columns hold values that keys tell apart, the raw
keys of two rows are in the order of siblings, and the rows of a statement with raw keys stand in the order of the
depth-first walk.
-/

namespace ForestQuery

namespace FieldType

/-- Whether a column holds nothing, or a value of its type that its key tells from every other one: zeros are
filled in behind a text, so it must not end in one, and an identifier must be canonical. -/
def HasKey : FieldType → Value → Prop
  | _, .null => True
  | .integer, .integer _ => True
  | .text, .text s => s.toList.getLast? ≠ some '\x00'
  | .uuid, .text s => ∃ u : Uuid, s = u.text
  | _, _ => False

variable {v : Value}

theorem hasKey_integer_iff : integer.HasKey v ↔ v = .null ∨ ∃ i, v = .integer i := by
  cases v <;> simp [HasKey]

theorem hasKey_text_iff : text.HasKey v ↔ v = .null ∨ ∃ s, v = .text s ∧ s.toList.getLast? ≠ some '\x00' := by
  cases v <;> simp [HasKey]

theorem hasKey_uuid_iff : uuid.HasKey v ↔ v = .null ∨ ∃ u : Uuid, v = .text u.text := by
  cases v <;> simp [HasKey]

theorem HasKey.holds {type : FieldType} (keyed : type.HasKey v) : type.Holds v := by
  cases v with
  | null => cases type <;> trivial
  | integer i => cases type <;> trivial
  | real x => cases type <;> exact keyed.elim
  | blob bytes => cases type <;> exact keyed.elim
  | text s =>
    cases type with
    | uuid =>
      obtain ⟨u, rfl⟩ := keyed
      exact holds_toValue (.uuid u)
    | text => trivial
    | integer | real | boolean | blob => exact keyed.elim

end FieldType

theorem Uuid.getLast?_text (u : Uuid) : u.text.toList.getLast? ≠ some '\x00' := by
  rw [Uuid.text, String.toList_ofList]
  intro last
  exact u.nul_not_mem_chars (List.mem_of_getLast? last)

theorem Segment.canonical_text (u : Uuid) : canonical .uuid (.text u.text) = .text u.text := by
  refine canonical_uuid ?_
  rw [Uuid.ofText?, Uuid.text, String.toList_ofList, u.ofChars?_chars]

namespace SortField

variable {f : SortField} {keyBytes : Nat} {v w : Value}

theorem levelValue_null (f : SortField) : f.levelValue .null = .null := by
  obtain ⟨name, direction, type⟩ := f
  cases type <;> cases direction <;> rfl

theorem isNull_levelValue (f : SortField) (v : Value) : (f.levelValue v).isNull = v.isNull := by
  unfold levelValue
  split <;> rfl

/-- The integer that stands for an integer in a key. -/
def levelInteger (f : SortField) (i : Int64) : Int64 :=
  if f.direction = .descending then Int64.ofInt (-1 - i.toInt) else i

theorem levelValue_integer (type : f.type = .integer) (i : Int64) :
    f.levelValue (.integer i) = .integer (f.levelInteger i) := by
  obtain ⟨name, direction, type'⟩ := f
  obtain rfl : type' = .integer := type
  cases direction <;> rfl

/-- Mirrored integers are in the order against that of the integers. -/
theorem compare_levelInteger (f : SortField) (i j : Int64) :
    Ord.compare (f.levelInteger i).toInt (f.levelInteger j).toInt = f.direction.apply (Ord.compare i.toInt j.toInt) := by
  rw [levelInteger, levelInteger]
  cases f.direction with
  | ascending => rfl
  | descending =>
    rw [if_pos rfl, if_pos rfl, toInt_mirrored, toInt_mirrored, Segment.compare_mirrored]
    rfl

theorem levelValue_of_hasKey (other : f.type ≠ .integer) (keyed : f.type.HasKey v) : f.levelValue v = v := by
  obtain ⟨name, direction, type⟩ := f
  cases type with
  | integer => exact absurd rfl other
  | uuid | text | real | boolean | blob => cases direction <;> cases v <;> rfl

theorem isOrdered_kind (f : SortField) (keyBytes : Nat) : (f.kind keyBytes).IsOrdered := by
  unfold kind
  split <;> trivial

/-- Values that keys tell apart are told apart by their segments. -/
theorem isTold_levelValue (keyed : f.IsKeyed) (keys : f.type.HasKey v) :
    Segment.IsTold (f.kind keyBytes) (f.levelValue v) := by
  obtain ⟨name, direction, type⟩ := f
  rcases keyed with rfl | rfl | rfl
  · trivial
  · rw [levelValue_of_hasKey (by simp) keys]
    rcases FieldType.hasKey_uuid_iff.1 keys with rfl | ⟨u, rfl⟩
    · cases direction <;> trivial
    · cases direction with
      | ascending => trivial
      | descending => exact u.getLast?_text
  · rw [levelValue_of_hasKey (by simp) keys]
    rcases FieldType.hasKey_text_iff.1 keys with rfl | ⟨s, rfl, clean⟩
    · trivial
    · exact clean

/-- The order of the segments of present values is that of the field. -/
theorem compare_canonical_levelValue (keyed : f.IsKeyed) (present : v.isNull = false) (present' : w.isNull = false)
    (keys : f.type.HasKey v) (keys' : f.type.HasKey w) :
    (f.kind keyBytes).direction.apply (Value.compare (Segment.canonical (f.kind keyBytes) (f.levelValue v))
      (Segment.canonical (f.kind keyBytes) (f.levelValue w))) = f.direction.apply (Value.compare v w) := by
  obtain ⟨name, direction, type⟩ := f
  rcases keyed with rfl | rfl | rfl
  · rcases FieldType.hasKey_integer_iff.1 keys with rfl | ⟨i, rfl⟩
    · cases present
    rcases FieldType.hasKey_integer_iff.1 keys' with rfl | ⟨j, rfl⟩
    · cases present'
    rw [levelValue_integer rfl, levelValue_integer rfl]
    exact compare_levelInteger ⟨name, direction, .integer⟩ i j
  · rw [levelValue_of_hasKey (by simp) keys, levelValue_of_hasKey (by simp) keys']
    cases direction with
    | descending => rfl
    | ascending =>
      rcases FieldType.hasKey_uuid_iff.1 keys with rfl | ⟨u, rfl⟩
      · cases present
      rcases FieldType.hasKey_uuid_iff.1 keys' with rfl | ⟨x, rfl⟩
      · cases present'
      rw [show kind ⟨name, .ascending, .uuid⟩ keyBytes = .uuid from rfl, Segment.canonical_text, Segment.canonical_text]
      rfl
  · rw [levelValue_of_hasKey (by simp) keys, levelValue_of_hasKey (by simp) keys']
    cases direction <;> rfl

/-- The segments of a field are in its order. -/
theorem compareValues_levelValue (keyed : f.IsKeyed) (keys : f.type.HasKey v) (keys' : f.type.HasKey w) :
    Segment.compareValues (f.kind keyBytes) (f.levelValue v) (f.levelValue w) = f.compare v w := by
  have absent := f.levelValue_null
  have same := f.isNull_levelValue
  rcases Segment.null_or_present v with rfl | present
  · rcases Segment.null_or_present w with rfl | present'
    · rw [absent]
      rfl
    · rw [absent, compare_null_left present', Segment.compareValues_null_left _ ((same w).trans present')]
  · rcases Segment.null_or_present w with rfl | present'
    · rw [absent, compare_null_right present, Segment.compareValues_null_right _ ((same v).trans present)]
    · rw [compare_of_present present present',
        Segment.compareValues_of_present _ ((same v).trans present) ((same w).trans present'),
        compare_canonical_levelValue keyed present present' keys keys']

end SortField

namespace SiblingOrder

variable {o : SiblingOrder} {keyBytes : Nat} {r p : Record} {cs ds : List Char}

/-- Whether the ordering columns of a row hold values that keys tell apart. -/
def HasKeys (o : SiblingOrder) (r : Record) : Prop := ∀ f ∈ o.fields, f.type.HasKey (r.value f.field)

theorem HasKeys.isTyped (keys : o.HasKeys r) : o.IsTyped r := fun f member => (keys f member).holds

/-- The fields decide in turn, and then what stands behind them. -/
theorem compareLevel_fields {fields : List SortField} (keyed : ∀ f ∈ fields, f.IsKeyed)
    (keys : ∀ f ∈ fields, f.type.HasKey (r.value f.field)) (keys' : ∀ f ∈ fields, f.type.HasKey (p.value f.field))
    (kinds : List SegmentKind) (vs ws : List Value) :
    Column.compareLevel (fields.map (fun f => f.kind keyBytes) ++ kinds)
        (fields.map (fun f => f.levelValue (r.value f.field)) ++ vs)
        (fields.map (fun f => f.levelValue (p.value f.field)) ++ ws)
      = (compareFields r p fields).then (Column.compareLevel kinds vs ws) := by
  induction fields with
  | nil => rfl
  | cons f fs ih =>
    have field : Segment.compareValues (f.kind keyBytes) (f.levelValue (r.value f.field)) (f.levelValue (p.value f.field))
        = f.compare (r.value f.field) (p.value f.field) :=
      SortField.compareValues_levelValue (keyed f (by simp)) (keys f (by simp)) (keys' f (by simp))
    have others := ih (fun g member => keyed g (by simp [member])) (fun g member => keys g (by simp [member]))
      (fun g member => keys' g (by simp [member]))
    simp only [List.map_cons, List.cons_append, Column.compareLevel]
    rw [field, others, compareFields, Ordering.then_assoc]

/-- Keys are in the order of their segments. -/
theorem compareValues_toValue {id other : NodeId} (type : id.type = o.keyType) (type' : other.type = o.keyType) :
    Segment.compareValues (.ofFieldType 0 o.keyType) id.toValue other.toValue
      = Value.compare id.toValue other.toValue := by
  rw [Segment.compareValues_of_present _ id.isNull_toValue other.isNull_toValue, ← type]
  rw [← type] at type'
  cases id with
  | int i =>
    cases other with
    | int j => rfl
    | uuid x => cases type'
  | uuid u =>
    cases other with
    | int j => cases type'
    | uuid x =>
      rw [show SegmentKind.ofFieldType 0 (NodeId.uuid u).type = .uuid from rfl, NodeId.toValue, NodeId.toValue,
        Segment.canonical_text, Segment.canonical_text]
      rfl

/-- The raw keys of two rows stand for their order as siblings. -/
theorem compareLevel_levelValues {id other : NodeId} (keyed : ∀ f ∈ o.fields, f.IsKeyed) (type : id.type = o.keyType)
    (type' : other.type = o.keyType) (key : r.value o.key = id.toValue) (key' : p.value o.key = other.toValue)
    (keys : o.HasKeys r) (keys' : o.HasKeys p) :
    Column.compareLevel (o.levelKinds keyBytes) (o.levelValues r) (o.levelValues p) = o.compare r p := by
  rw [levelKinds, levelValues, levelValues, compareLevel_fields keyed keys keys', compare, key, key']
  cases uses : o.usesKey with
  | true =>
    simp only [if_true, Column.compareLevel, Ordering.then_eq]
    cases fields : compareFields r p o.fields with
    | lt => rfl
    | gt => rfl
    | eq =>
      have last := compare_key uses fields
      rw [key, key'] at last
      rw [last, Ordering.eq_then]
  | false =>
    simp only [Bool.false_eq_true, if_false, Column.compareLevel, Ordering.then_eq, compareValues_toValue type type']

theorem isOrdered_levelKinds {id : NodeId} (type : id.type = o.keyType) (keyBytes : Nat) :
    ∀ kind ∈ o.levelKinds keyBytes, kind.IsOrdered := by
  intro kind member
  rcases List.mem_append.mp member with field | key
  · obtain ⟨f, -, rfl⟩ := List.mem_map.mp field
    exact f.isOrdered_kind keyBytes
  · split at key
    · cases key
    · rw [List.mem_singleton.mp key, ← type]
      cases id <;> trivial

theorem isToldLevel_levelValues {id : NodeId} (keyed : ∀ f ∈ o.fields, f.IsKeyed) (type : id.type = o.keyType)
    (key : r.value o.key = id.toValue) (keys : o.HasKeys r) :
    Column.IsToldLevel (o.levelKinds keyBytes) (o.levelValues r) := by
  refine List.rel_append ?_ ?_
  · rw [List.forall₂_map_left_iff, List.forall₂_map_right_iff, List.forall₂_same]
    exact fun f member => SortField.isTold_levelValue (keyed f member) (keys f member)
  · split
    · exact .nil
    · refine .cons ?_ .nil
      rw [key, ← type]
      cases id <;> trivial

/-- The raw keys of two rows are in the order of siblings. -/
theorem compare_encodeLevel {id other : NodeId} (keyed : ∀ f ∈ o.fields, f.IsKeyed) (type : id.type = o.keyType)
    (type' : other.type = o.keyType) (key : r.value o.key = id.toValue) (key' : p.value o.key = other.toValue)
    (keys : o.HasKeys r) (keys' : o.HasKeys p)
    (first : Column.encodeLevel (o.levelKinds keyBytes) (o.levelValues r) = .ok cs)
    (second : Column.encodeLevel (o.levelKinds keyBytes) (o.levelValues p) = .ok ds) :
    Ord.compare (Text.codes cs) (Text.codes ds) = o.compare r p := by
  rw [Column.compare_encodeLevel (isOrdered_levelKinds type keyBytes) (isToldLevel_levelValues keyed type key keys)
    (isToldLevel_levelValues keyed type' key' keys') first second,
    compareLevel_levelValues keyed type type' key key' keys keys']

theorem plain_levelKinds {id : NodeId} (type : id.type = o.keyType) (keyBytes : Nat) :
    ∀ kind ∈ o.levelKinds keyBytes, ∀ width, kind ≠ .text width :=
  fun kind member => (isOrdered_levelKinds type keyBytes kind member).ne_text

/-- No text that stands for a row in a raw key is longer than a store can count. -/
theorem isCountable_levelValues {id : NodeId} (key : r.value o.key = id.toValue)
    (countable : ∀ f ∈ o.fields, (r.value f.field).IsCountable) : ∀ v ∈ o.levelValues r, v.IsCountable := by
  intro v member
  rcases List.mem_append.mp member with field | last
  · obtain ⟨f, inFields, rfl⟩ := List.mem_map.mp field
    have held := countable f inFields
    unfold SortField.levelValue
    split
    · trivial
    · exact held
  · split at last
    · cases last
    · rw [List.mem_singleton.mp last, key]
      cases id with
      | int i => trivial
      | uuid u =>
        have length : (Text.utf8 u.text.toList).length = 36 := by
          rw [Uuid.text, String.toList_ofList, Text.length_utf8_of_isAscii u.isAscii_chars, u.length_chars]
        change (Text.utf8 u.text.toList).length < 4611686018427387904
        omega

end SiblingOrder

namespace Compiler

variable {k : Compiler} {q : Request} {c : Compiled} {order : SiblingOrder} {ancestors : List AncestorField}
  {key : KeySource} {f : Forest} {r : Record} {as : List Record}

/-- The raw key of a row. -/
def rawLevel (k : Compiler) (order : SiblingOrder) (r : Record) : List Char :=
  Outcome.getD (Column.encodeLevel (order.levelKinds k.config.keyBytes) (order.levelValues r)) []

/-- A row that is written has a raw key. -/
theorem encodeLevel_of_raw (compiles : k.Compiles q c order ancestors key) (runnable : k.IsRunnable)
    (same : f.relation = k.relation) (unranked : c.ranked = false) (row : r ∈ f.rows) (keys : order.HasKeys r)
    (countable : ∀ g ∈ order.fields, (r.value g.field).IsCountable) (writes : c.statement.CanWrite f.rows r) :
    key.kinds = order.levelKinds k.config.keyBytes ∧ (∀ g ∈ order.fields, g.IsKeyed) ∧
      Column.encodeLevel (order.levelKinds k.config.keyBytes) (order.levelValues r) = .ok (k.rawLevel order r) := by
  rcases key_cases compiles runnable with ⟨ranked, -⟩ | ⟨-, raw⟩
  · rw [unranked] at ranked
    cases ranked
  · obtain ⟨id, keyType, keyed⟩ := exists_id compiles same row
    obtain ⟨kinds, fields⟩ := raw_kinds compiles same row raw
    have held := raw_held compiles same row raw keys.isTyped
    have encoding := encoding_eq compiles runnable
    have made := compiles.ordering
    obtain ⟨-, ⟨t, text⟩, -⟩ := writes
    rw [Encoding.element_eq_ok_iff (by rw [encoding])] at made
    obtain ⟨exprs, segments, shape⟩ := made
    rw [shape, encoding] at text
    rw [encoding] at segments
    have bounded : ∀ p ∈ key.parts, p.kind.IsBounded := by
      intro p member
      refine SiblingOrder.isBounded_levelKinds keyType k.config.keyBytes p.kind ?_
      rw [← kinds]
      exact List.mem_map_of_mem member
    obtain ⟨level, written, -⟩ := Element.exists_level_of_evalText segments held
      (SiblingOrder.isCountable_levelValues keyed countable) bounded text
    rw [← KeySource.kinds, kinds] at written
    refine ⟨kinds, fields, ?_⟩
    rw [rawLevel, written]
    rfl

/-- Where levels are raw keys, they increase along siblings. -/
theorem hasLevels_of_raw (compiles : k.Compiles q c order ancestors key) (runnable : k.IsRunnable)
    (same : f.relation = k.relation) (unranked : c.ranked = false) (keys : ∀ r ∈ f.rows, order.HasKeys r)
    (countable : ∀ r ∈ f.rows, ∀ g ∈ order.fields, (r.value g.field).IsCountable)
    (traverses : c.statement.CanTraverse f) :
    c.statement.HasLevels f order (k.rawLevel order) (SegmentKind.levelWidth (order.levelKinds k.config.keyBytes)) := by
  have written : ∀ r as, f.Lineage r as → key.kinds = order.levelKinds k.config.keyBytes ∧
      (∀ g ∈ order.fields, g.IsKeyed) ∧
      Column.encodeLevel (order.levelKinds k.config.keyBytes) (order.levelValues r) = .ok (k.rawLevel order r) :=
    fun r as lineage => encodeLevel_of_raw compiles runnable same unranked lineage.mem (keys r lineage.mem)
      (countable r lineage.mem) (traverses r as lineage).2
  refine ⟨fun r as lineage => ?_, ⟨Column.levelWidth_pos (order.levelKinds_ne_nil _), fun r as lineage => ?_,
    fun r p as bs first second _ less => ?_⟩, fun r as lineage => ?_⟩
  · obtain ⟨id, keyType, -⟩ := exists_id compiles same lineage.mem
    exact Column.isAscii_encodeLevel (SiblingOrder.plain_levelKinds keyType _) (written r as lineage).2.2
  · obtain ⟨id, keyType, -⟩ := exists_id compiles same lineage.mem
    rw [Text.length_codes]
    exact Column.length_encodeLevel (SiblingOrder.isBounded_levelKinds keyType _)
      (order.length_levelValues k.config.keyBytes r) (written r as lineage).2.2
  · obtain ⟨id, type, idKey⟩ := exists_id compiles same first.mem
    obtain ⟨other, type', otherKey⟩ := exists_id compiles same second.mem
    obtain ⟨-, keyed, level⟩ := written r as first
    obtain ⟨-, -, level'⟩ := written p bs second
    rw [SiblingOrder.compare_encodeLevel keyed type type' idKey otherKey (keys r first.mem) (keys p second.mem) level
      level', less]
  · refine ordering_eq compiles runnable same lineage (fun _ q row => (keys q row).isTyped) fun q onPath => ?_
    obtain ⟨bs, above⟩ := lineage.exists_of_mem_pathTo onPath
    obtain ⟨kinds, -, level⟩ := written q bs above
    rw [kinds, Compiled.levelValues, unranked, if_neg (by decide), level]

end Compiler

end ForestQuery
