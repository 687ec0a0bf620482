import ForestQuery.Proofs.Compiler
import ForestQuery.Proofs.KeySource
import ForestQuery.Proofs.Row
import ForestQuery.Proofs.Value.Order
/-!
The keys by which siblings are sorted. Main statements: where the ordering columns hold values of their types,
the parts of a raw key are held by its segments; and where no text is longer than its key, each of them has
its segment.
-/

namespace ForestQuery

namespace FieldType

/-- Whether a column holds nothing, or a value of its type. An identifier may be in either case. -/
def Holds : FieldType → Value → Prop
  | _, .null => True
  | .integer, .integer _ | .boolean, .integer _ | .text, .text _ | .real, .real _ | .blob, .blob _ => True
  | .uuid, .text s => s.toList.length = SegmentKind.uuidWidth ∧ (Uuid.ofText? s).isSome
  | _, _ => False

theorem holds_integer_iff {v : Value} : integer.Holds v ↔ v = .null ∨ ∃ i, v = .integer i := by
  cases v with
  | null => exact iff_of_true trivial (Or.inl rfl)
  | integer i => exact iff_of_true trivial (Or.inr ⟨i, rfl⟩)
  | real _ | text _ | blob _ => exact iff_of_false id (by simp)

theorem holds_text_iff {v : Value} : text.Holds v ↔ v = .null ∨ ∃ s, v = .text s := by
  cases v with
  | null => exact iff_of_true trivial (Or.inl rfl)
  | text s => exact iff_of_true trivial (Or.inr ⟨s, rfl⟩)
  | integer _ | real _ | blob _ => exact iff_of_false id (by simp)

theorem holds_uuid_iff {v : Value} : uuid.Holds v ↔
    v = .null ∨ ∃ s u, v = .text s ∧ s.toList.length = SegmentKind.uuidWidth ∧ Uuid.ofText? s = some u := by
  cases v with
  | null => exact iff_of_true trivial (Or.inl rfl)
  | text s =>
    change s.toList.length = SegmentKind.uuidWidth ∧ (Uuid.ofText? s).isSome ↔ _
    simp [Option.isSome_iff_exists]
  | integer _ | real _ | blob _ => exact iff_of_false id (by simp)

theorem holds_toValue (id : NodeId) : id.type.Holds id.toValue := by
  cases id with
  | int i => trivial
  | uuid u =>
    refine holds_uuid_iff.2 (Or.inr ⟨u.text, u, rfl, ?_, ?_⟩)
    · rw [Uuid.text, String.toList_ofList, u.length_chars]
      rfl
    · rw [Uuid.ofText?, Uuid.text, String.toList_ofList, u.ofChars?_chars]

end FieldType

namespace SortField

/-- The value that stands for the value of the column in a key: integers are mirrored when descending. -/
def levelValue (f : SortField) (v : Value) : Value :=
  match f.type, f.direction, v with
  | .integer, .descending, .integer i => .integer (Int64.ofInt (-1 - i.toInt))
  | _, _, v => v

/-- Whether a text has room in the key. -/
def HasRoom (f : SortField) (keyBytes : Nat) (v : Value) : Prop :=
  f.type = .text → v.bytes.length ≤ keyBytes

variable {f : SortField} {keyBytes : Nat} {source : String} {env : Reference → Value} {v : Value}

theorem isBounded_kind (f : SortField) (keyBytes : Nat) : (f.kind keyBytes).IsBounded := by
  unfold kind
  split <;> trivial

theorem toInt_mirrored (i : Int64) : (Int64.ofInt (-1 - i.toInt)).toInt = -1 - i.toInt := by
  have lower := i.le_toInt
  have upper := i.toInt_lt
  exact Int64.toInt_ofInt_of_le (by omega) (by omega)

theorem eval_mirrored {d : Dialect} {e : Expr} {i : Int64} (value : e.eval d env = .ok (.integer i)) :
    e.mirrored.eval d env = .ok (.integer (Int64.ofInt (-1 - i.toInt))) := by
  have lower := i.le_toInt
  have upper := i.toInt_lt
  have range : Int64.minValue.toInt ≤ -1 - i.toInt ∧ -1 - i.toInt ≤ Int64.maxValue.toInt := by
    rw [Segment.minValue_toInt, Segment.maxValue_toInt]
    omega
  rw [Expr.eval, value]
  simp only [bind, Except.bind, pure, Except.pure, Scalar.addTo, Scalar.asInteger, Text.int64?, if_true, if_pos range]

/-- What is made of a column in a key is the value that stands for the value of the column. -/
theorem eval_levelExpr {d : Dialect} (column : env (.column source f.field) = v) (typed : f.type.Holds v) :
    (f.levelExpr source).eval d env = .ok (f.levelValue v).scalar := by
  have value : (Expr.reference (.column source f.field)).eval d env = .ok v.scalar := by
    rw [Expr.eval, column]
  obtain ⟨name, direction, type⟩ := f
  cases type with
  | integer =>
    cases direction with
    | ascending => exact value
    | descending =>
      rcases FieldType.holds_integer_iff.1 typed with rfl | ⟨i, rfl⟩
      · rw [levelExpr, Expr.eval, value]
        rfl
      · exact eval_mirrored value
  | uuid | text | real | boolean | blob => exact value

/-- The value that stands for the value of a column is held by the segment of the field. -/
theorem isHeld_levelValue (keyed : f.IsKeyed) (typed : f.type.Holds v) (keyBytes : Nat) :
    Segment.IsHeld (f.levelValue v) (f.kind keyBytes) := by
  obtain ⟨name, direction, type⟩ := f
  rcases keyed with rfl | rfl | rfl
  · rcases FieldType.holds_integer_iff.1 typed with rfl | ⟨i, rfl⟩
    · cases direction <;> exact Or.inl rfl
    · cases direction <;> exact Or.inr ⟨_, rfl⟩
  · cases direction with
    | ascending => exact FieldType.holds_uuid_iff.1 typed
    | descending => exact (FieldType.holds_uuid_iff.1 typed).imp_right fun ⟨s, u, text, _⟩ => ⟨s, text⟩
  · exact FieldType.holds_text_iff.1 typed

theorem exists_encodeKey {bytes : Nat} {descending : Bool} (fits : v.bytes.length ≤ bytes)
    (text : v = .null ∨ ∃ s, v = .text s) : ∃ cs, Segment.encode v (.textKey bytes descending) = .ok cs := by
  rcases text with rfl | ⟨s, rfl⟩
  · rw [Segment.encode, Segment.encodeKeyBytes, if_pos (show ([] : List UInt8).length ≤ bytes from Nat.zero_le _)]
    exact ⟨_, rfl⟩
  · rw [Segment.encode, Segment.encodeKeyBytes, if_pos (show (Text.utf8 s.toList).length ≤ bytes from fits)]
    exact ⟨_, rfl⟩

/-- A value of the type with room in the key has its segment. -/
theorem exists_encode (keyed : f.IsKeyed) (typed : f.type.Holds v) (room : f.HasRoom keyBytes v) :
    ∃ cs, Segment.encode (f.levelValue v) (f.kind keyBytes) = .ok cs := by
  obtain ⟨name, direction, type⟩ := f
  rcases keyed with rfl | rfl | rfl
  · rcases FieldType.holds_integer_iff.1 typed with rfl | ⟨i, rfl⟩
    · cases direction <;> exact ⟨_, rfl⟩
    · cases direction <;> exact ⟨_, rfl⟩
  · rcases FieldType.holds_uuid_iff.1 typed with rfl | ⟨s, u, rfl, length, read⟩
    · cases direction
      · exact ⟨_, rfl⟩
      · exact exists_encodeKey (Nat.zero_le _) (Or.inl rfl)
    · cases direction
      · refine ⟨u.chars, ?_⟩
        change Segment.encode (.text s) .uuid = .ok u.chars
        simp only [Segment.encode, read]
      · have bytes : (Text.utf8 s.toList).length = SegmentKind.uuidWidth := by
          rw [Text.length_utf8_of_isAscii (Uuid.isAscii_of_ofChars? length read), length]
        exact exists_encodeKey (Nat.le_of_eq bytes) (Or.inr ⟨s, rfl⟩)
  · have fits := room rfl
    have text := FieldType.holds_text_iff.1 typed
    cases direction <;> exact exists_encodeKey fits text

end SortField

namespace SiblingOrder

variable {o : SiblingOrder} {relation : Relation} {ordering : List OrderField} {d : Dialect} {native : Bool}
  {keyBytes : Nat} {source : String} {env : Reference → Value} {r : Record}

/-- The values that stand for a row in a raw key. -/
def levelValues (o : SiblingOrder) (r : Record) : List Value :=
  (o.fields.map fun f => f.levelValue (r.value f.field)) ++ if o.usesKey then [] else [r.value o.key]

/-- The kinds of the segments of a raw key. -/
def levelKinds (o : SiblingOrder) (keyBytes : Nat) : List SegmentKind :=
  (o.fields.map fun f => f.kind keyBytes) ++ if o.usesKey then [] else [.ofFieldType 0 o.keyType]

/-- Whether the ordering columns of a row hold values of their types. -/
def IsTyped (o : SiblingOrder) (r : Record) : Prop := ∀ f ∈ o.fields, f.type.Holds (r.value f.field)

/-- Whether the texts in the ordering columns of a row have room in the key. -/
def HasRoom (o : SiblingOrder) (keyBytes : Nat) (r : Record) : Prop :=
  ∀ f ∈ o.fields, f.HasRoom keyBytes (r.value f.field)

theorem resolveFields_type {seen : List String} {fields : List SortField}
    (resolved : resolveFields relation seen ordering = .ok fields) :
    ∀ f ∈ fields, relation.requireField f.field = .ok f.type := by
  induction ordering generalizing seen fields with
  | nil =>
    cases resolved
    intro f member
    cases member
  | cons g rest ih =>
    simp only [resolveFields, Outcome.bind_eq_ok_iff, Outcome.check_eq_ok_iff, Outcome.pure_eq_ok_iff] at resolved
    obtain ⟨type, typeOk, -, fields', others, rfl⟩ := resolved
    exact List.forall_mem_cons.mpr ⟨typeOk, ih others⟩

/-- What resolving an ordering has found. -/
structure Resolves (o : SiblingOrder) (relation : Relation) : Prop where
  key : o.key = relation.key
  keyType : o.keyType = relation.keyType
  typed : ∀ f ∈ o.fields, relation.requireField f.field = .ok f.type

theorem resolves (resolved : resolve relation ordering = .ok o) : o.Resolves relation := by
  rw [resolve] at resolved
  obtain ⟨fields, fieldsOk, shape⟩ := Outcome.bind_eq_ok_iff.mp resolved
  cases shape
  exact ⟨rfl, rfl, resolveFields_type fieldsOk⟩

/-- The key column has the type of the key. -/
theorem Resolves.type_of_key (resolves : o.Resolves relation) {f : SortField} (member : f ∈ o.fields)
    (key : f.field = o.key) : f.type = o.keyType := by
  have type := resolves.typed f member
  rw [key, resolves.key, Relation.requireField, relation.fieldType?_key] at type
  rw [resolves.keyType]
  exact (Except.ok.inj type).symm

/-- A key ascending is a field like any other. -/
theorem part_key {f : SortField} {id : NodeId} (type : f.type = id.type) (keyType : id.type = o.keyType)
    (key : f.field = o.key) (ascending : f.direction = .ascending) :
    f.IsWritable d ∧ f.part keyBytes source = o.keyPart source := by
  obtain ⟨name, direction, type'⟩ := f
  obtain rfl : name = o.key := key
  obtain rfl : direction = .ascending := ascending
  obtain rfl : type' = id.type := type
  rw [keyPart, ← keyType]
  cases id with
  | int i => exact ⟨⟨Or.inl rfl, nofun⟩, rfl⟩
  | uuid u => exact ⟨⟨Or.inr (Or.inl rfl), nofun⟩, rfl⟩

/-- A raw key is made of the fields, and of the key of the table where it is not among them. -/
theorem rawKey_parts {key : KeySource} {id : NodeId} (made : o.rawKey d native keyBytes source = .ok key)
    (resolves : o.Resolves relation) (keyType : id.type = o.keyType) :
    (∀ f ∈ o.fields, f.IsWritable d) ∧ key.parts = o.rawParts keyBytes source := by
  rcases rawKey_eq_ok_iff.mp made with ⟨keyOnly, rfl⟩ | ⟨-, ⟨-, writable⟩, rfl⟩
  · obtain ⟨f, ⟨single, ascending⟩, named⟩ := isKeyOnly_iff.mp keyOnly
    have type : f.type = o.keyType := resolves.type_of_key (by rw [single]; exact List.mem_singleton_self f) named
    obtain ⟨writable, same⟩ := part_key (type.trans keyType.symm) keyType named ascending (d := d)
    have uses : o.usesKey = true := by
      rw [usesKey, single, List.any_cons, named, beq_self_eq_true, Bool.true_or]
    rw [rawParts, single, if_pos uses, List.map_singleton, same]
    exact ⟨List.forall_mem_singleton.mpr writable, rfl⟩
  · exact ⟨writable, rfl⟩

theorem map_kind_rawParts (o : SiblingOrder) (keyBytes : Nat) (source : String) :
    (o.rawParts keyBytes source).map Part.kind = o.levelKinds keyBytes := by
  rw [rawParts, levelKinds, List.map_append, List.map_map]
  congr 1
  split <;> rfl

/-- The parts of a raw key have the kinds of its fields, each of which can be a key. -/
theorem rawKey_kinds {key : KeySource} {id : NodeId} (made : o.rawKey .sqlite false keyBytes source = .ok key)
    (resolves : o.Resolves relation) (keyType : id.type = o.keyType) :
    key.parts.map Part.kind = o.levelKinds keyBytes ∧ ∀ f ∈ o.fields, f.IsKeyed := by
  obtain ⟨writable, parts⟩ := rawKey_parts made resolves keyType
  exact ⟨by rw [parts, map_kind_rawParts], fun f member => (writable f member).1⟩

/-- The parts of a raw key are held by their segments in a row whose ordering columns hold values of their
types. -/
theorem rawKey_held {key : KeySource} {id : NodeId} (made : o.rawKey .sqlite false keyBytes source = .ok key)
    (resolves : o.Resolves relation) (keyType : id.type = o.keyType) (keyed : r.value o.key = id.toValue)
    (columns : ∀ name, env (.column source name) = r.value name) (typed : o.IsTyped r) :
    Element.AreHeld env key.parts (o.levelValues r) := by
  obtain ⟨writable, parts⟩ := rawKey_parts made resolves keyType
  rw [parts, rawParts, levelValues]
  refine List.rel_append ?_ ?_
  · rw [List.forall₂_map_left_iff, List.forall₂_map_right_iff, List.forall₂_same]
    exact fun f member => ⟨SortField.eval_levelExpr (columns f.field) (typed f member),
      SortField.isHeld_levelValue (writable f member).1 (typed f member) keyBytes⟩
  · split
    · exact .nil
    · refine .cons ⟨?_, ?_⟩ .nil
      · rw [keyPart, Expr.eval, columns]
      · rw [keyPart, keyed, ← keyType]
        have holds := FieldType.holds_toValue id
        cases id with
        | int i => exact FieldType.holds_integer_iff.1 holds
        | uuid u => exact FieldType.holds_uuid_iff.1 holds

theorem length_levelValues (o : SiblingOrder) (keyBytes : Nat) (r : Record) :
    (o.levelValues r).length = (o.levelKinds keyBytes).length := by
  rw [levelValues, levelKinds, List.length_append, List.length_append, List.length_map, List.length_map]
  split <;> rfl

/-- A row has a raw key where its ordering columns hold values of their types with room in it. -/
theorem exists_levelText {id : NodeId} (fields : ∀ f ∈ o.fields, f.IsKeyed) (keyType : id.type = o.keyType)
    (keyed : r.value o.key = id.toValue) (typed : o.IsTyped r) (room : o.HasRoom keyBytes r) :
    ∃ level, Column.encodeLevel (o.levelKinds keyBytes) (o.levelValues r) = .ok level := by
  refine Column.exists_encodeLevel fun p pair => ?_
  have each : ∀ p ∈ (o.fields.map fun f => f.levelValue (r.value f.field)).zip
      (o.fields.map fun f => f.kind keyBytes), ∃ cs, Segment.encode p.1 p.2 = .ok cs := by
    intro p pair
    rw [List.zip_map', List.mem_map] at pair
    obtain ⟨f, member, rfl⟩ := pair
    exact SortField.exists_encode (fields f member) (typed f member) (room f member)
  rw [levelValues, levelKinds, List.zip_append (by rw [List.length_map, List.length_map])] at pair
  rcases List.mem_append.mp pair with field | last
  · exact each p field
  · split at last
    · cases last
    · cases List.mem_singleton.mp last
      exact ⟨id.chars, by rw [keyed, ← keyType, id.encode_toValue]⟩

end SiblingOrder

end ForestQuery
