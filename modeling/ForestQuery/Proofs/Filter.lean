import ForestQuery.Filter
import ForestQuery.Proofs.Outcome
/-!
Which filters are accepted. Main statement: a filter is checked exactly when each of its clauses has conditions
and each of these can be asked of the relation, and the clauses are then the conditions as they are written.
-/

namespace ForestQuery

theorem Term.placeholders_eq_map (d : Dialect) (bound count : Nat) :
    placeholders d bound count = (List.range' (bound + 1) count).map d.placeholder := by
  rw [placeholders, List.range'_eq_map_range, List.map_map]
  exact List.map_congr_left fun i _ => congrArg d.placeholder (Nat.add_right_comm bound i 1)

namespace Condition

/-- Whether a condition can be asked of a relation: of a column that it has, with one present value for a
comparison and with present values for membership. -/
def IsAskable (r : Relation) (c : Condition) : Prop :=
  (r.fieldType? c.field).isSome ∧
    match c.operator with
    | .compare _ => ∃ value, c.values = [value] ∧ value.isNull = false
    | .member => ∀ value ∈ c.values, value.isNull = false
    | .isNull | .notNull => True

/-- The condition as it is written. -/
def term (c : Condition) : Term :=
  match c.operator, c.values with
  | .isNull, _ => .isNull c.field
  | .notNull, _ => .notNull c.field
  | .member, [] => .never
  | .member, first :: rest => .member c.field first rest
  | .compare comparison, values => .compare c.field comparison (values.headD .null)

variable {r : Relation} {c : Condition}

theorem check_eq_ok_iff {t : Term} : c.check r = .ok t ↔ c.IsAskable r ∧ c.term = t := by
  obtain ⟨field, operator, values⟩ := c
  rw [check, IsAskable, Outcome.bind_eq_ok_iff, Relation.requireField]
  cases known : r.fieldType? field with
  | none => simp
  | some type =>
    cases operator with
    | isNull => simp [term, Outcome.pure_eq_ok_iff]
    | notNull => simp [term, Outcome.pure_eq_ok_iff]
    | member =>
      cases values with
      | nil => simp [term, Outcome.pure_eq_ok_iff]
      | cons first rest =>
        simp only [Outcome.check_eq_ok_iff]
        simp [term, Outcome.pure_eq_ok_iff]
    | compare comparison =>
      cases values with
      | nil => simp [throw, throwThe, MonadExceptOf.throw]
      | cons first rest =>
        cases rest with
        | nil =>
          simp only [Outcome.check_eq_ok_iff]
          simp [term, Outcome.pure_eq_ok_iff]
        | cons second rest => simp [throw, throwThe, MonadExceptOf.throw]

theorem checkAll_eq_ok_iff {cs : List Condition} {ts : List Term} :
    checkAll r cs = .ok ts ↔ (∀ c ∈ cs, c.IsAskable r) ∧ cs.map term = ts := by
  induction cs generalizing ts with
  | nil => simp [checkAll]
  | cons c cs ih =>
    rw [checkAll, List.forall_mem_cons, List.map_cons]
    cases first : c.check r with
    | error e =>
      simp [Outcome.not_of_eq_error check_eq_ok_iff first]
    | ok t =>
      obtain ⟨askable, rfl⟩ := check_eq_ok_iff.mp first
      cases rest : checkAll r cs with
      | error refusal =>
        simp [Outcome.not_of_eq_error ih rest]
      | ok terms =>
        obtain ⟨all, rfl⟩ := ih.mp rest
        simp [askable, and_iff_right all]

end Condition

namespace Clause

variable {r : Relation}

/-- Whether a clause can be asked: it has conditions, and each can be asked. -/
def IsAskable (r : Relation) (conditions : List Condition) : Prop :=
  conditions ≠ [] ∧ ∀ c ∈ conditions, c.IsAskable r

theorem check_eq_ok_iff {conditions : List Condition} {clause : Clause} :
    check r conditions = .ok clause ↔ IsAskable r conditions ∧ conditions.map Condition.term = clause := by
  rw [check, IsAskable]
  cases conditions with
  | nil => simp
  | cons c cs =>
    rw [List.isEmpty_cons, if_neg Bool.false_ne_true, Condition.checkAll_eq_ok_iff]
    simp

theorem checkAll_eq_ok_iff {lists : List (List Condition)} {clauses : List Clause} :
    checkAll r lists = .ok clauses ↔
      (∀ cs ∈ lists, IsAskable r cs) ∧ lists.map (List.map Condition.term) = clauses := by
  induction lists generalizing clauses with
  | nil => simp [checkAll]
  | cons cs lists ih =>
    rw [checkAll, List.forall_mem_cons, List.map_cons]
    cases first : check r cs with
    | error refusal =>
      simp [Outcome.not_of_eq_error check_eq_ok_iff first]
    | ok clause =>
      obtain ⟨askable, rfl⟩ := check_eq_ok_iff.mp first
      cases rest : checkAll r lists with
      | error refusal =>
        simp [Outcome.not_of_eq_error ih rest]
      | ok clauses =>
        obtain ⟨all, rfl⟩ := ih.mp rest
        simp [askable, and_iff_right all]

end Clause

/-- Whether a filter can be asked of a relation. -/
def PreFilter.IsAskable (r : Relation) (f : PreFilter) : Prop := ∀ cs ∈ f.keep ++ f.drop, Clause.IsAskable r cs

/-- The clauses as they are written. -/
def PreFilter.clauses (f : PreFilter) : Clauses where
  keep := f.keep.map (List.map Condition.term)
  drop := f.drop.map (List.map Condition.term)

theorem PreFilter.check_eq_ok_iff {r : Relation} {f : PreFilter} {clauses : Clauses} :
    f.check r = .ok clauses ↔ f.IsAskable r ∧ f.clauses = clauses := by
  rw [check, IsAskable, List.forall_mem_append, PreFilter.clauses]
  cases first : Clause.checkAll r f.keep with
  | error refusal =>
    simp [Outcome.not_of_eq_error Clause.checkAll_eq_ok_iff first]
  | ok keep =>
    obtain ⟨kept, rfl⟩ := Clause.checkAll_eq_ok_iff.mp first
    cases second : Clause.checkAll r f.drop with
    | error refusal =>
      simp [Outcome.not_of_eq_error Clause.checkAll_eq_ok_iff second]
    | ok drop =>
      obtain ⟨dropped, rfl⟩ := Clause.checkAll_eq_ok_iff.mp second
      simp [and_iff_right kept, and_iff_right dropped]

end ForestQuery
