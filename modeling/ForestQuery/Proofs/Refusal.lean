import ForestQuery.Compiler
import ForestQuery.Proofs.Outcome
/-!
How a request is refused while it is checked. Main statement: each check fails with a failure that is raised
before anything runs, and none of them with a failure of what writes the levels.
-/

namespace ForestQuery

/-- Failures of writing a level, as opposed to failures of checking a request. -/
def Fault.isWriting : Fault → Bool
  | .compositeArrayElement _ | .descendingArrayKey | .noDescendingSegment _ => true
  | _ => false

/-- Whether a failure is one of checking a request. -/
def Error.IsRefusal : Error → Prop
  | .configuration fault => fault.isWriting = false
  | .unsupportedFieldType _ _ => True
  | _ => False

theorem Error.IsRefusal.isConstruction {e : Error} (refusal : e.IsRefusal) : e.isConstruction = true := by
  cases e with
  | configuration fault => rfl
  | unsupportedFieldType field type => rfl
  | depthExceeded | encodingOverflow | traversalLimit | decode | store | file | document => exact refusal.elim

section

variable {r : Relation}

theorem Relation.requireField_eq_ok_iff {name : String} {type : FieldType} :
    r.requireField name = .ok type ↔ r.fieldType? name = some type := by
  rw [requireField]
  split
  · rename_i found
    simp [found]
  · rename_i none
    simp [none]

theorem Relation.fails_requireField (name : String) : Outcome.Fails Error.IsRefusal (r.requireField name) := by
  rw [requireField]
  split
  · exact Outcome.fails_ok
  · exact Outcome.fails_error rfl

namespace SiblingOrder

variable {d : Dialect} {native : Bool} {keyBytes : Nat} {source : String}

theorem fails_resolveFields {seen : List String} {ordering : List OrderField} :
    Outcome.Fails Error.IsRefusal (resolveFields r seen ordering) := by
  induction ordering generalizing seen with
  | nil => exact Outcome.fails_ok
  | cons f rest ih =>
    rw [resolveFields]
    refine Outcome.fails_bind (r.fails_requireField f.field) fun type => ?_
    exact Outcome.fails_check rfl (Outcome.fails_bind ih fun fields => Outcome.fails_ok)

theorem fails_fieldPart (f : SortField) : Outcome.Fails Error.IsRefusal (fieldPart d keyBytes source f) := by
  have textKey (column : Expr) (bytes : Nat) : Outcome.Fails Error.IsRefusal (textKeyPart d f column bytes) := by
    rw [textKeyPart]
    split
    · exact Outcome.fails_error rfl
    · exact Outcome.fails_ok
  unfold fieldPart
  split
  · exact Outcome.fails_ok
  · exact Outcome.fails_ok
  · exact Outcome.fails_ok
  · exact textKey _ _
  · exact textKey _ _
  · exact Outcome.fails_error rfl
  · exact Outcome.fails_error rfl
  · exact Outcome.fails_error rfl

theorem fieldParts_eq_mapM (fields : List SortField) :
    fieldParts d keyBytes source fields = fields.mapM (fieldPart d keyBytes source) := by
  induction fields with
  | nil => rfl
  | cons f fields ih => rw [fieldParts, ih, List.mapM_cons]

theorem fails_rawKey {o : SiblingOrder} : Outcome.Fails Error.IsRefusal (o.rawKey d native keyBytes source) := by
  rw [rawKey]
  split
  · exact Outcome.fails_ok
  · split
    · exact Outcome.fails_error rfl
    · rw [fieldParts_eq_mapM]
      exact Outcome.fails_bind (Outcome.fails_mapM fun f _ => fails_fieldPart f) fun ps => Outcome.fails_ok

end SiblingOrder

theorem AncestorField.fails_checkAll {index : Nat} {request : List (String × String)} :
    Outcome.Fails Error.IsRefusal (checkAll r index request) := by
  induction request generalizing index with
  | nil => exact Outcome.fails_ok
  | cons e rest ih =>
    rw [checkAll]
    refine Outcome.fails_bind ?_ fun a => Outcome.fails_bind ih fun as => Outcome.fails_ok
    rw [check]
    refine Outcome.fails_bind ?_ fun _ => Outcome.fails_bind (r.fails_requireField e.2) fun type => ?_
    · rw [Identifier.check]
      split
      · exact Outcome.fails_ok
      · exact Outcome.fails_error rfl
    · split
      · exact Outcome.fails_ok
      · exact Outcome.fails_error trivial

theorem Condition.fails_check (c : Condition) : Outcome.Fails Error.IsRefusal (c.check r) := by
  obtain ⟨field, operator, values⟩ := c
  rw [check]
  refine Outcome.fails_bind (r.fails_requireField field) fun type => ?_
  cases operator with
  | isNull => exact Outcome.fails_ok
  | notNull => exact Outcome.fails_ok
  | member =>
    refine Outcome.fails_check rfl ?_
    cases values with
    | nil => exact Outcome.fails_ok
    | cons first rest => exact Outcome.fails_ok
  | compare comparison =>
    rcases values with _ | ⟨value, _ | ⟨second, rest⟩⟩
    · exact Outcome.fails_error rfl
    · exact Outcome.fails_check rfl Outcome.fails_ok
    · exact Outcome.fails_error rfl

theorem Condition.fails_checkAll (cs : List Condition) :
    Outcome.Fails (fun refusal => refusal.error.IsRefusal) (checkAll r cs) := by
  induction cs with
  | nil => exact Outcome.fails_ok
  | cons c cs ih =>
    rw [checkAll]
    cases first : c.check r with
    | error e => exact Outcome.fails_error (c.fails_check e first)
    | ok t =>
      cases rest : checkAll r cs with
      | error refusal => exact Outcome.fails_error (ih refusal rest)
      | ok ts => exact Outcome.fails_ok

theorem Clause.fails_checkAll (lists : List (List Condition)) :
    Outcome.Fails (fun refusal => refusal.error.IsRefusal) (checkAll r lists) := by
  induction lists with
  | nil => exact Outcome.fails_ok
  | cons cs lists ih =>
    rw [checkAll]
    cases first : check r cs with
    | error refusal =>
      refine Outcome.fails_error ?_
      rw [check] at first
      split at first
      · cases first
        exact rfl
      · exact Condition.fails_checkAll cs refusal first
    | ok clause =>
      cases rest : checkAll r lists with
      | error refusal => exact Outcome.fails_error (ih refusal rest)
      | ok clauses => exact Outcome.fails_ok

theorem PreFilter.fails_check (f : PreFilter) :
    Outcome.Fails (fun refusal => refusal.error.IsRefusal) (f.check r) := by
  rw [check]
  cases first : Clause.checkAll r f.keep with
  | error refusal => exact Outcome.fails_error (Clause.fails_checkAll f.keep refusal first)
  | ok keep =>
    cases second : Clause.checkAll r f.drop with
    | error refusal => exact Outcome.fails_error (Clause.fails_checkAll f.drop refusal second)
    | ok drop => exact Outcome.fails_ok

theorem Compiler.fails_checkFilter (filter : Option PreFilter) :
    Outcome.Fails Error.IsRefusal (checkFilter r filter) := by
  cases filter with
  | none => exact Outcome.fails_ok
  | some f =>
    rw [checkFilter]
    cases checked : f.check r with
    | error refusal => exact Outcome.fails_error (f.fails_check refusal checked)
    | ok clauses => exact Outcome.fails_ok

end

theorem Compiler.fails_keySource {c : Compiler} {order : SiblingOrder} {ranked : Bool} :
    Outcome.Fails Error.IsRefusal (c.keySource order ranked) := by
  rw [keySource]
  split
  · exact Outcome.fails_ok
  · exact SiblingOrder.fails_rawKey

end ForestQuery
