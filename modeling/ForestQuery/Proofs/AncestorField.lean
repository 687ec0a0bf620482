import ForestQuery.Proofs.Refusal
import ForestQuery.Proofs.SiblingOrder
/-!
Checked ancestor fields, and the values that they take. Main statements: a request for ancestor fields is accepted
exactly when its outputs are identifiers and its sources columns of types that can be collected, and the fields are
then those of the request; and a value of the type of its source has a segment in the field, or is too wide for it.
-/

namespace ForestQuery.AncestorField

section Checking

variable {r : Relation} {index : Nat} {request : List (String × String)} {as : List AncestorField}

/-- Whether an ancestor field can be collected: its output is an identifier, and its source a column of a type
that can be collected. -/
def IsAskable (r : Relation) (e : String × String) : Prop :=
  Identifier.isIdentifier e.1 = true ∧ ∃ type, r.fieldType? e.2 = some type ∧ isCollectable type = true

theorem check_eq_ok_iff {e : String × String} {a : AncestorField} : check r index e.1 e.2 = .ok a ↔
    Identifier.isIdentifier e.1 = true ∧ ∃ type, r.fieldType? e.2 = some type ∧ isCollectable type = true ∧
      a = ⟨e.1, e.2, type, columnName index⟩ := by
  have shape : check r index e.1 e.2 = (Identifier.check e.1 >>= fun _ => r.requireField e.2 >>= fun type =>
    if isCollectable type then .ok ⟨e.1, e.2, type, columnName index⟩
    else .error (.unsupportedFieldType e.2 type)) := rfl
  simp only [shape, Outcome.bind_eq_ok_iff, Relation.requireField_eq_ok_iff]
  constructor
  · rintro ⟨_, identifier, type, known, made⟩
    split at made
    · rename_i collectable
      cases made
      exact ⟨Identifier.check_eq_ok_iff.mp identifier, type, known, collectable, rfl⟩
    · cases made
  · rintro ⟨identifier, type, known, collectable, rfl⟩
    exact ⟨(), Identifier.check_eq_ok_iff.mpr identifier, type, known, if_pos collectable⟩

theorem exists_checkAll_iff :
    (∃ as, checkAll r index request = .ok as) ↔ ∀ e ∈ request, IsAskable r e := by
  induction request generalizing index with
  | nil => simp [checkAll]
  | cons e rest ih =>
    rw [List.forall_mem_cons, ← @ih (index + 1)]
    simp only [checkAll, Outcome.bind_eq_ok_iff, Outcome.pure_eq_ok_iff]
    constructor
    · rintro ⟨_, a, first, as, others, rfl⟩
      obtain ⟨identifier, type, known, collectable, -⟩ := check_eq_ok_iff.1 first
      exact ⟨⟨identifier, type, known, collectable⟩, as, others⟩
    · rintro ⟨⟨identifier, type, known, collectable⟩, as, others⟩
      exact ⟨_, _, check_eq_ok_iff.2 ⟨identifier, type, known, collectable, rfl⟩, as, others, rfl⟩

/-- The checked fields are those of the request, one by one, with sources of types that can be collected. -/
theorem forall₂_of_checkAll (checked : checkAll r index request = .ok as) :
    List.Forall₂ (fun e a => (a.output, a.source) = e ∧ r.fieldType? a.source = some a.sourceType ∧
      isCollectable a.sourceType = true) request as := by
  induction request generalizing index as with
  | nil =>
    cases checked
    exact .nil
  | cons e rest ih =>
    obtain ⟨a, first, made⟩ := Outcome.bind_eq_ok_iff.mp checked
    obtain ⟨others, othersOk, same⟩ := Outcome.bind_eq_ok_iff.mp made
    cases same
    obtain ⟨-, type, known, collectable, rfl⟩ := check_eq_ok_iff.1 first
    exact .cons ⟨rfl, known, collectable⟩ (ih othersOk)

theorem isEmpty_of_checkAll (checked : checkAll r index request = .ok as) : as.isEmpty = request.isEmpty := by
  cases forall₂_of_checkAll checked with
  | nil => rfl
  | cons => rfl

theorem isCollectable_of_checkAll (checked : checkAll r index request = .ok as) :
    ∀ a ∈ as, isCollectable a.sourceType = true := by
  intro a member
  obtain ⟨e, -, -, -, collectable⟩ := Outcome.exists_of_mem_right (forall₂_of_checkAll checked) member
  exact collectable

theorem map_of_checkAll (checked : checkAll r index request = .ok as) :
    as.map (fun a => (a.output, a.source)) = request := by
  rw [← List.map_id request]
  exact Outcome.map_eq_map ((forall₂_of_checkAll checked).flip.imp fun a e found => found.1)

/-- The columns of checked fields are numbered. -/
theorem map_column_of_checkAll (checked : checkAll r index request = .ok as) :
    as.map column = (List.range' index request.length).map columnName := by
  induction request generalizing index as with
  | nil =>
    cases checked
    rfl
  | cons e rest ih =>
    obtain ⟨a, first, made⟩ := Outcome.bind_eq_ok_iff.mp checked
    obtain ⟨others, othersOk, same⟩ := Outcome.bind_eq_ok_iff.mp made
    cases same
    obtain ⟨-, type, -, -, rfl⟩ := check_eq_ok_iff.1 first
    rw [List.map_cons, ih othersOk, List.length_cons, List.range'_succ, List.map_cons]

/-- Each output is asked for with its source, and nothing else is. -/
theorem get?_eq_some_iff {request : NameMap String} (resolved : resolve r request = .ok as) {output source : String} :
    request.get? output = some source ↔ ∃ a ∈ as, a.output = output ∧ a.source = source := by
  rw [NameMap.get?_eq_some_iff]
  change (output, source) ∈ request.toList ↔ _
  rw [← map_of_checkAll resolved, List.mem_map]
  simp only [Prod.mk.injEq]

end Checking

variable {a : AncestorField} {textWidth : Nat} {v : Value}

/-- Whether a value of the source has room in the field. Text functions end at U+0000. -/
def Takes (a : AncestorField) (textWidth : Nat) (v : Value) : Prop :=
  a.sourceType.Holds v ∧ ∀ s, v = .text s → '\x00' ∉ s.toList ∧ s.toList.length ≤ textWidth

/-- A value that a field can take has room in it, or it is a text that is too wide. -/
theorem takes_or_overlong (typed : a.sourceType.Holds v) (clean : ∀ s, v = .text s → '\x00' ∉ s.toList)
    (textWidth : Nat) : a.Takes textWidth v ∨ ∃ s, v = .text s ∧ textWidth < s.toList.length := by
  by_cases fits : ∀ s, v = .text s → s.toList.length ≤ textWidth
  · exact Or.inl ⟨typed, fun s value => ⟨clean s value, fits s value⟩⟩
  · simp only [not_forall, Nat.not_le] at fits
    obtain ⟨s, value, long⟩ := fits
    exact Or.inr ⟨s, value, long⟩

/-- Only a field of texts takes texts. -/
theorem sourceType_of_text {s : String} (collectable : isCollectable a.sourceType = true)
    (typed : a.sourceType.Holds (.text s)) : a.sourceType = .text := by
  cases type : a.sourceType with
  | text => rfl
  | integer =>
    rw [type] at typed
    exact typed.elim
  | uuid | real | boolean | blob =>
    rw [type] at collectable
    cases collectable

theorem kind_of_isCollectable (collectable : isCollectable a.sourceType = true) (bound : textWidth ≤ maxTextWidth) :
    a.kind textWidth = .integer ∨ ∃ width ≤ maxTextWidth, a.kind textWidth = .text width := by
  rw [kind]
  cases type : a.sourceType with
  | integer => exact Or.inl rfl
  | text => exact Or.inr ⟨textWidth, bound, rfl⟩
  | uuid | real | boolean | blob =>
    rw [type] at collectable
    cases collectable

/-- A value with room in the field has its segment there. -/
theorem Takes.exists_encode (collectable : isCollectable a.sourceType = true) (takes : a.Takes textWidth v) :
    Segment.IsHeld v (a.kind textWidth) ∧ ∃ cs, Segment.encode v (a.kind textWidth) = .ok cs := by
  obtain ⟨typed, room⟩ := takes
  rw [kind]
  cases type : a.sourceType with
  | integer =>
    rw [type, FieldType.holds_integer_iff] at typed
    rcases typed with rfl | ⟨i, rfl⟩
    · exact ⟨Or.inl rfl, _, rfl⟩
    · exact ⟨Or.inr ⟨i, rfl⟩, _, rfl⟩
  | text =>
    rw [type, FieldType.holds_text_iff] at typed
    rcases typed with rfl | ⟨s, rfl⟩
    · exact ⟨Or.inl rfl, _, rfl⟩
    · obtain ⟨clean, fits⟩ := room s rfl
      refine ⟨Or.inr ⟨s, rfl, clean⟩, ?_⟩
      change ∃ cs, Segment.encodeText textWidth s.toList = .ok cs
      rw [Segment.encodeText, if_pos fits]
      exact ⟨_, rfl⟩
  | uuid | real | boolean | blob =>
    rw [type] at collectable
    cases collectable

end ForestQuery.AncestorField
