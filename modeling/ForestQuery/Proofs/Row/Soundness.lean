import ForestQuery.Proofs.Row
import ForestQuery.Proofs.Row.Checked
/-!
What a row that is read can be relied on for, whatever the store has returned. Main statement: a row is read as one
whose depth, path, ordering, ancestor fields, identifier and parent agree with each other and with the layout, or it
is refused for its depth, as unreadable or as an overflow; no operation of the reading fails by itself.
-/

namespace ForestQuery

/-- The failures of reading. -/
inductive Error.IsOfReading (maxDepth : Nat) : Error → Prop where
  | tooDeep : IsOfReading maxDepth (.depthExceeded maxDepth)
  | unreadable (fault : DecodeFault) : IsOfReading maxDepth (.decode fault)
  | overflow (detail : Overflow) (width : Nat) : IsOfReading maxDepth (.encodingOverflow detail width)

section Failures

variable {p : Error → Prop} (unreadable : ∀ fault, p (.decode fault))

include unreadable

/-- A segment is refused as unreadable, or, if it is a text, as an overflow. -/
theorem Segment.fails_decode {kind : SegmentKind}
    (overflow : ∀ width, kind = .text width → ∀ detail, p (.encodingOverflow detail width)) (cs : List Char) :
    Outcome.Fails p (Segment.decode cs kind) := by
  cases kind with
  | integer =>
    rw [decode]
    unfold decodeInteger
    split
    · exact Outcome.fails_ok
    · dsimp only
      split
      · exact Outcome.fails_ok
      · exact Outcome.fails_error (unreadable _)
  | uuid =>
    rw [decode, decodeUuid]
    split
    · exact Outcome.fails_ok
    · split
      · exact Outcome.fails_ok
      · exact Outcome.fails_error (unreadable _)
  | text width =>
    rw [decode, decodeText]
    split
    · exact Outcome.fails_ok
    · split
      · exact Outcome.fails_error (overflow width rfl _)
      · split
        · exact Outcome.fails_error (unreadable _)
        · split
          · exact Outcome.fails_error (overflow width rfl _)
          · exact Outcome.fails_ok
  | textKey bytes descending =>
    rw [decode, decodeKey]
    split
    · exact Outcome.fails_ok
    · exact Outcome.fails_error (unreadable _)

namespace Column

variable {kinds : List SegmentKind}

theorem fails_decodeSegments
    (overflow : ∀ width, .text width ∈ kinds → ∀ detail, p (.encodingOverflow detail width)) (cs : List Char) :
    Outcome.Fails p (decodeSegments kinds cs) := by
  induction kinds generalizing cs with
  | nil => exact Outcome.fails_ok
  | cons kind kinds ih =>
    refine Outcome.fails_bind (Segment.fails_decode unreadable (fun width same => overflow width (by simp [same])) _)
      fun v => Outcome.fails_bind (ih (fun width member => overflow width (by simp [member])) _)
      fun vs => Outcome.fails_ok

theorem fails_decodeLevel
    (overflow : ∀ width, .text width ∈ kinds → ∀ detail, p (.encodingOverflow detail width)) (level : List Char) :
    Outcome.Fails p (decodeLevel kinds level) := by
  refine Outcome.fails_bind (fails_decodeSegments unreadable overflow level) fun values => ?_
  split <;> exact Outcome.fails_ok

theorem fails_decode (overflow : ∀ width, .text width ∈ kinds → ∀ detail, p (.encodingOverflow detail width))
    (isNative : Bool) (c : Column) : Outcome.Fails p (c.decode isNative kinds) := by
  unfold decode
  split
  · cases c with
    | encoded text => exact Outcome.fails_error (unreadable _)
    | native values => exact Outcome.fails_ok
  · cases c with
    | native values => exact Outcome.fails_error (unreadable _)
    | encoded text =>
      rw [decodeFixedWidth, decodeChars]
      split
      · exact Outcome.fails_error (unreadable _)
      · rw [decodeLevels_eq_mapM]
        exact Outcome.fails_mapM fun level _ => fails_decodeLevel unreadable overflow level

end Column

theorem NodeId.fails_ofValue (type : FieldType) (v : Value) : Outcome.Fails p (ofValue type v) := by
  unfold ofValue
  split
  · exact Outcome.fails_ok
  · split
    · exact Outcome.fails_ok
    · exact Outcome.fails_error (unreadable _)
  · split
    · exact Outcome.fails_ok
    · exact Outcome.fails_error (unreadable _)
  · split
    · exact Outcome.fails_ok
    · exact Outcome.fails_error (unreadable _)
  · exact Outcome.fails_error (unreadable _)

namespace Layout

theorem fails_checkLevels (column : String) (got expected : Nat) : Outcome.Fails p (checkLevels column got expected) := by
  unfold checkLevels
  split
  · exact Outcome.fails_ok
  · exact Outcome.fails_error (unreadable _)

theorem fails_decodeAncestors {isNative : Bool} {kinds : List (String × SegmentKind)} {columns : List Column}
    (each : ∀ e ∈ kinds.zip columns, Outcome.Fails p (e.2.decode isNative [e.1.2])) (expected : Nat)
    (m : NameMap (List Value)) : Outcome.Fails p (decodeAncestors isNative expected m kinds columns) := by
  induction kinds generalizing columns m with
  | nil => exact Outcome.fails_ok
  | cons kind kinds ih =>
    cases columns with
    | nil => exact Outcome.fails_ok
    | cons c cs =>
      rw [List.zip_cons_cons, List.forall_mem_cons] at each
      exact Outcome.fails_bind each.1 fun values => Outcome.fails_bind (fails_checkLevels unreadable _ _ _) fun _ =>
        ih each.2 _

theorem fails_decodeParent (type : FieldType) (v : Value) : Outcome.Fails p (decodeParent type v) := by
  unfold decodeParent
  split
  · exact Outcome.fails_ok
  · exact Outcome.fails_map (NodeId.fails_ofValue unreadable type v)

/-- A row is refused for its depth, for one of its ancestor fields, as unreadable, or as an overflow of a text in its
path or its ordering. -/
theorem fails_decode_of_ancestors {l : Layout} {isNative : Bool} {maxDepth : Nat} {raw : RawRow}
    (tooDeep : p (.depthExceeded maxDepth))
    (overflow : ∀ width, .text width ∈ l.path :: l.ordering → ∀ detail, p (.encodingOverflow detail width))
    (ancestors : ∀ e ∈ l.ancestors.zip raw.ancestors, Outcome.Fails p (e.2.decode isNative [e.1.2])) :
    Outcome.Fails p (l.decode isNative maxDepth raw) := by
  have path : ∀ width, .text width ∈ [l.path] → ∀ detail, p (.encodingOverflow detail width) := fun width member =>
    overflow width (by rw [List.mem_singleton.mp member]; simp)
  have ordering : ∀ width, .text width ∈ l.ordering → ∀ detail, p (.encodingOverflow detail width) :=
    fun width member => overflow width (List.mem_cons_of_mem _ member)
  refine Outcome.fails_check (unreadable _) (Outcome.fails_check tooDeep ?_)
  refine Outcome.fails_bind (Column.fails_decode unreadable path isNative _) fun values => ?_
  refine Outcome.fails_bind ?_ fun path => ?_
  · rw [NodeId.ofValues_eq_mapM]
    exact Outcome.fails_mapM fun v _ => NodeId.fails_ofValue unreadable l.keyType v
  refine Outcome.fails_bind (fails_checkLevels unreadable _ _ _) fun _ => ?_
  refine Outcome.fails_bind (Column.fails_decode unreadable ordering isNative _) fun values => ?_
  refine Outcome.fails_bind (fails_checkLevels unreadable _ _ _) fun _ => Outcome.fails_check (unreadable _) ?_
  refine Outcome.fails_bind (fails_decodeAncestors unreadable ancestors _ _) fun fields => ?_
  refine Outcome.fails_bind (NodeId.fails_ofValue unreadable _ _) fun id => Outcome.fails_check (unreadable _) ?_
  exact Outcome.fails_bind (fails_decodeParent unreadable _ _) fun parent => Outcome.fails_ok

omit unreadable in
/-- A row is refused for its depth, as unreadable or as an overflow. -/
theorem fails_decode (l : Layout) (isNative : Bool) (maxDepth : Nat) (raw : RawRow) :
    Outcome.Fails (Error.IsOfReading maxDepth) (l.decode isNative maxDepth raw) :=
  fails_decode_of_ancestors .unreadable .tooDeep (fun width _ detail => .overflow detail width)
    fun e _ => Column.fails_decode .unreadable (fun width _ detail => .overflow detail width) isNative e.2

end Layout

end Failures

/-- The identifier that a value is read as is of the type that was asked for. -/
theorem NodeId.type_of_ofValue {type : FieldType} {v : Value} {id : NodeId} (read : ofValue type v = .ok id) :
    id.type = type := by
  unfold ofValue at read
  split at read
  · cases read
    rfl
  · split at read <;> cases read
    rfl
  · split at read <;> cases read
    rfl
  · split at read <;> cases read
    rfl
  · cases read

namespace Layout

/-- The ancestor fields that are read are those of the layout, besides those that were there before. -/
theorem isSome_get?_of_decodeAncestors {isNative : Bool} {expected : Nat} {m fields : NameMap (List Value)}
    {kinds : List (String × SegmentKind)} {columns : List Column} (full : columns.length = kinds.length)
    (read : decodeAncestors isNative expected m kinds columns = .ok fields) (name : String) :
    (fields.get? name).isSome = true ↔ (m.get? name).isSome = true ∨ name ∈ kinds.map Prod.fst := by
  induction kinds generalizing columns m with
  | nil =>
    obtain rfl : m = fields := by
      cases columns <;> exact Except.ok.inj read
    simp
  | cons kind kinds ih =>
    obtain ⟨c, cs, rfl⟩ := List.exists_cons_of_length_eq_add_one full
    obtain ⟨values, -, checked⟩ := Outcome.bind_eq_ok_iff.mp read
    obtain ⟨_, -, rest⟩ := Outcome.bind_eq_ok_iff.mp checked
    rw [ih (by simpa using full) rest, List.map_cons, List.mem_cons]
    by_cases same : kind.1 = name
    · rw [same, NameMap.get?_insert_self]
      simp
    · rw [NameMap.get?_insert_of_ne m values same]
      simp [Ne.symm same]

/-- The ancestor fields that are read have one value for each level. -/
theorem length_of_decodeAncestors {isNative : Bool} {expected : Nat} {m fields : NameMap (List Value)}
    {kinds : List (String × SegmentKind)} {columns : List Column}
    (full : ∀ name values, m.get? name = some values → values.length = expected)
    (read : decodeAncestors isNative expected m kinds columns = .ok fields) :
    ∀ name values, fields.get? name = some values → values.length = expected := by
  induction kinds generalizing columns m with
  | nil =>
    obtain rfl : m = fields := by
      cases columns <;> exact Except.ok.inj read
    exact full
  | cons kind kinds ih =>
    cases columns with
    | nil =>
      cases read
      exact full
    | cons c cs =>
      obtain ⟨values, -, checked⟩ := Outcome.bind_eq_ok_iff.mp read
      obtain ⟨_, length, rest⟩ := Outcome.bind_eq_ok_iff.mp checked
      refine ih (fun name others found => ?_) rest
      by_cases same : kind.1 = name
      · rw [same, NameMap.get?_insert_self, Option.some.injEq] at found
        rw [← found, checkLevels_eq_ok_iff.mp length]
      · rw [NameMap.get?_insert_of_ne m values same] at found
        exact full name others found

theorem decodeParent_eq_none_iff {type : FieldType} {v : Value} {parent : Option NodeId}
    (read : decodeParent type v = .ok parent) : parent = none ↔ v = .null := by
  unfold decodeParent at read
  split at read
  · rename_i absent
    cases read
    cases v <;> simp [Value.isNull] at absent ⊢
  · rename_i present
    obtain ⟨id, -, rfl⟩ := Outcome.map_eq_ok_iff.mp read
    refine iff_of_false (by simp) ?_
    rintro rfl
    exact present rfl

theorem type_of_decodeParent {type : FieldType} {v : Value} {id : NodeId}
    (read : decodeParent type v = .ok (some id)) : id.type = type := by
  unfold decodeParent at read
  split at read
  · cases read
  · obtain ⟨other, value, same⟩ := Outcome.map_eq_ok_iff.mp read
    cases same
    exact NodeId.type_of_ofValue value

/-- A row that agrees with itself, with the layout and with what the store has returned. -/
structure IsConsistent (l : Layout) (maxDepth : Nat) (raw : RawRow) (row : TreeRow) : Prop where
  nonneg : 0 ≤ raw.depth.toInt
  depth : raw.depth.toInt = (row.depth : Int)
  shallow : row.depth < maxDepth
  path : row.path.length = row.depth + 1
  ordering : row.ordering.length = row.depth + 1
  levels : ∀ name values, row.ancestorFields.get? name = some values → values.length = row.depth + 1
  last : row.path.getLast? = some row.id
  id : NodeId.ofValue l.keyType raw.id = .ok row.id
  root : row.parent = none ↔ raw.parent = .null
  keys : ∀ id ∈ row.path, id.type = l.keyType
  parentKey : ∀ id, row.parent = some id → id.type = l.keyType
  names : ∀ name, (row.ancestorFields.get? name).isSome = true ↔ name ∈ l.ancestors.map Prod.fst

theorem Reads.isConsistent {l : Layout} {isNative : Bool} {maxDepth : Nat} {raw : RawRow} {row : TreeRow}
    (read : l.Reads isNative maxDepth raw row) : l.IsConsistent maxDepth raw row where
  nonneg := by
    rw [read.depth]
    exact Int.natCast_nonneg _
  depth := read.depth
  shallow := read.shallow
  path := read.levels
  ordering := read.ordered
  levels := length_of_decodeAncestors (fun name values found => by cases found) read.ancestors
  last := read.last
  id := read.id
  root := decodeParent_eq_none_iff read.parent
  keys := by
    obtain ⟨values, -, ids⟩ := read.path
    rw [NodeId.ofValues_eq_mapM, Outcome.mapM_eq_ok_iff] at ids
    intro id member
    obtain ⟨v, -, value⟩ := Outcome.exists_of_mem_right ids member
    exact NodeId.type_of_ofValue value
  parentKey := by
    intro id same
    have parent := read.parent
    rw [same] at parent
    exact type_of_decodeParent parent
  names := by
    intro name
    rw [isSome_get?_of_decodeAncestors read.columns read.ancestors name]
    exact or_iff_right (by simp [NameMap.get?, NameMap.empty])

/-- Whatever a store returns is read as a row that agrees with itself, or refused; the operations that reading is
made of do not fail. -/
theorem decode_sound {l : Layout} (countable : l.IsCountable) (isNative : Bool) (maxDepth : Nat) (raw : RawRow) :
    Checked.row l isNative maxDepth raw = Checked.lift (l.decode isNative maxDepth raw) ∧
      (∀ row, l.decode isNative maxDepth raw = .ok row → l.IsConsistent maxDepth raw row) ∧
      ∀ e, l.decode isNative maxDepth raw = .error e → e.IsOfReading maxDepth :=
  ⟨Checked.row_eq countable isNative maxDepth raw, fun _ read => (decode_eq_ok_iff.mp read).isConsistent,
    fails_decode l isNative maxDepth raw⟩

/-- One character outside of ASCII is no level. -/
theorem decode_sound_sample :
    ∃ e, Checked.row Chain.sampleLayout false 64 ⟨0, .integer 1, .null, .encoded "\u00e9", .encoded "", [], []⟩
      = .error (.refused e) ∧ e.IsOfReading 64 := by
  have countable : Chain.sampleLayout.IsCountable := ⟨by decide, by decide, by decide⟩
  obtain ⟨checked, -, failures⟩ :=
    decode_sound countable false 64 ⟨0, .integer 1, .null, .encoded "\u00e9", .encoded "", [], []⟩
  have refused : Chain.sampleLayout.decode false 64 ⟨0, .integer 1, .null, .encoded "\u00e9", .encoded "", [], []⟩
      = .error (.decode (.notWholeLevels 1 20)) := by decide
  refine ⟨_, ?_, failures _ refused⟩
  rw [checked, refused, Checked.lift_error]

end Layout

end ForestQuery
