import ForestQuery.Compiler
import ForestQuery.Proofs.Outcome
/-!
What the key of a level consists of. Main statements: a field has one part, which is made exactly when a key can be
made of the field; a key made of column values has the parts of its fields, and the key of the table where it is not
among them; so what holds of these parts holds of every part of a key.
-/

namespace ForestQuery

namespace SortField

/-- Fields that a key can be made of. -/
def IsKeyed (f : SortField) : Prop := f.type = .integer ∨ f.type = .uuid ∨ f.type = .text

/-- Whether a key can be made of a field: of an integer, and of an identifier or a text in a direction for which
the dialect has an expression. -/
def IsWritable (d : Dialect) (f : SortField) : Prop :=
  f.IsKeyed ∧ (f.direction = .descending → f.type ≠ .integer → d.capabilities.hexComplement = true)

/-- The kind of the segment in a key. -/
def kind (f : SortField) (keyBytes : Nat) : SegmentKind :=
  match f.type, f.direction with
  | .integer, _ => .integer
  | .uuid, .ascending => .uuid
  | .uuid, .descending => .textKey SegmentKind.uuidWidth true
  | _, direction => .textKey keyBytes (direction = .descending)

/-- What a segment in a key is made of: the column, mirrored where integers are descending. -/
def levelExpr (f : SortField) (source : String) : Expr :=
  match f.type, f.direction with
  | .integer, .descending => .mirrored (.reference (.column source f.field))
  | _, _ => .reference (.column source f.field)

/-- The part of a field in a key. -/
def part (f : SortField) (keyBytes : Nat) (source : String) : Part := ⟨f.levelExpr source, f.kind keyBytes⟩

theorem levelExpr_cases (f : SortField) (source : String) :
    f.levelExpr source = .reference (.column source f.field) ∨
      (f.type = .integer ∧ f.direction = .descending) ∧
        f.levelExpr source = .mirrored (.reference (.column source f.field)) := by
  unfold levelExpr
  split
  · rename_i integer descending
    exact Or.inr ⟨⟨integer, descending⟩, rfl⟩
  · exact Or.inl rfl

end SortField

namespace SiblingOrder

variable {o : SiblingOrder} {d : Dialect} {native : Bool} {keyBytes : Nat} {source : String} {f : SortField} {p : Part}
  {key : KeySource}

theorem singleAscending?_eq_some_iff :
    o.singleAscending? = some f ↔ o.fields = [f] ∧ f.direction = .ascending := by
  obtain ⟨fields, key, keyType⟩ := o
  rcases fields with _ | ⟨g, _ | ⟨h, rest⟩⟩
  · simp [singleAscending?]
  · change (if g.direction = .ascending then some g else none) = some f ↔ [g] = [f] ∧ f.direction = .ascending
    rw [Option.ite_none_right_eq_some, Option.some.injEq, List.singleton_inj]
    constructor
    · rintro ⟨ascending, rfl⟩
      exact ⟨rfl, ascending⟩
    · rintro ⟨rfl, ascending⟩
      exact ⟨ascending, rfl⟩
  · simp [singleAscending?]

theorem isKeyOnly_iff : o.isKeyOnly = true ↔ ∃ f, (o.fields = [f] ∧ f.direction = .ascending) ∧ f.field = o.key := by
  simp only [isKeyOnly, Option.any_eq_true, singleAscending?_eq_some_iff, beq_iff_eq]

theorem textKeyPart_eq_ok_iff {column : Expr} {bytes : Nat} :
    textKeyPart d f column bytes = .ok p ↔ (f.direction = .descending → d.capabilities.hexComplement = true) ∧
      ⟨column, .textKey bytes (f.direction = .descending)⟩ = p := by
  rw [textKeyPart]
  split
  · rename_i refused
    simp [refused]
  · rename_i accepted
    rw [not_and, Decidable.not_not] at accepted
    rw [Except.ok.injEq, and_iff_right accepted]

/-- A field has its part exactly when a key can be made of it. -/
theorem fieldPart_eq_ok_iff :
    fieldPart d keyBytes source f = .ok p ↔ f.IsWritable d ∧ f.part keyBytes source = p := by
  obtain ⟨name, direction, type⟩ := f
  cases type with
  | integer | uuid =>
    cases direction <;> simp [fieldPart, textKeyPart_eq_ok_iff, SortField.IsWritable, SortField.IsKeyed,
      SortField.part, SortField.levelExpr, SortField.kind]
  | text =>
    simp [fieldPart, textKeyPart_eq_ok_iff, SortField.IsWritable, SortField.IsKeyed, SortField.part,
      SortField.levelExpr, SortField.kind]
  | real | boolean | blob => simp [fieldPart, SortField.IsWritable, SortField.IsKeyed]

theorem fieldParts_eq_ok_iff {fields : List SortField} {parts : List Part} :
    fieldParts d keyBytes source fields = .ok parts ↔
      (∀ f ∈ fields, f.IsWritable d) ∧ (fields.map fun f => f.part keyBytes source) = parts := by
  induction fields generalizing parts with
  | nil => simp [fieldParts]
  | cons f fields ih =>
    simp only [fieldParts, Outcome.bind_eq_ok_iff, Outcome.pure_eq_ok_iff, fieldPart_eq_ok_iff, ih,
      List.forall_mem_cons, List.map_cons]
    constructor
    · rintro ⟨_, ⟨first, rfl⟩, _, ⟨others, rfl⟩, rfl⟩
      exact ⟨⟨first, others⟩, rfl⟩
    · rintro ⟨⟨first, others⟩, rfl⟩
      exact ⟨_, ⟨first, rfl⟩, _, ⟨others, rfl⟩, rfl⟩

/-- The parts of the fields, and the key of the table where it is not among them. -/
def rawParts (o : SiblingOrder) (keyBytes : Nat) (source : String) : List Part :=
  (o.fields.map fun f => f.part keyBytes source) ++ if o.usesKey then [] else [o.keyPart source]

/-- A key is made of column values when it is the key of the table, or when columns are texts and a key can be made of
each field. -/
theorem rawKey_eq_ok_iff : o.rawKey d native keyBytes source = .ok key ↔
    o.isKeyOnly = true ∧ .field (o.keyPart source) = key ∨
      o.isKeyOnly = false ∧ (native = false ∧ ∀ f ∈ o.fields, f.IsWritable d) ∧
        .composite (o.rawParts keyBytes source) = key := by
  rw [rawKey]
  by_cases keyOnly : o.isKeyOnly = true
  · simp [keyOnly]
  · rw [if_neg keyOnly]
    rw [Bool.not_eq_true] at keyOnly
    simp only [keyOnly, Bool.false_eq_true, false_and, false_or, true_and]
    cases native with
    | true => simp
    | false =>
      simp only [Bool.false_eq_true, if_false, Outcome.bind_eq_ok_iff, Outcome.pure_eq_ok_iff, fieldParts_eq_ok_iff,
        true_and]
      constructor
      · rintro ⟨_, ⟨writable, rfl⟩, made⟩
        exact ⟨writable, made⟩
      · rintro ⟨writable, made⟩
        exact ⟨_, ⟨writable, rfl⟩, made⟩

/-- What holds of the key of the table and of what is made of each field holds of all parts of a key. -/
theorem forall_parts_of_rawKey {P : Part → Prop} (made : o.rawKey d native keyBytes source = .ok key)
    (ofKey : P (o.keyPart source)) (ofField : ∀ f ∈ o.fields, f.IsWritable d → P (f.part keyBytes source)) :
    ∀ p ∈ key.parts, P p := by
  rcases rawKey_eq_ok_iff.mp made with ⟨-, rfl⟩ | ⟨-, ⟨-, writable⟩, rfl⟩
  · exact List.forall_mem_singleton.mpr ofKey
  · rw [KeySource.parts, rawParts, List.forall_mem_append, List.forall_mem_map]
    refine ⟨fun f member => ofField f member (writable f member), ?_⟩
    split
    · exact List.forall_mem_nil _
    · exact List.forall_mem_singleton.mpr ofKey

end SiblingOrder

/-- A level has the place among the siblings, or parts made of column values. -/
theorem Compiler.forall_parts_of_keySource {c : Compiler} {order : SiblingOrder} {ranked : Bool} {key : KeySource}
    {P : Part → Prop} (made : c.keySource order ranked = .ok key)
    (ofRank : P ⟨.reference (.generated Statement.source SiblingOrder.rankColumn), .integer⟩)
    (ofKey : P (order.keyPart Statement.source))
    (ofField : ∀ f ∈ order.fields, f.IsWritable c.config.dialect → P (f.part c.config.keyBytes Statement.source)) :
    ∀ p ∈ key.parts, P p := by
  rw [keySource] at made
  split at made
  · cases made
    exact List.forall_mem_singleton.mpr ofRank
  · exact SiblingOrder.forall_parts_of_rawKey made ofKey ofField

end ForestQuery
