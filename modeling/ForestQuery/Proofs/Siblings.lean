import ForestQuery.Proofs.Sorting
import ForestQuery.Proofs.Value.Order
import ForestQuery.Traversal
/-!
The order of siblings: by the fields in turn, absent values first in either direction and the others in the
order of values or against it, and at last by the key. Main statements: it is a linear preorder, and the
criteria by which siblings are numbered describe it.
-/

namespace ForestQuery

namespace Direction

/-- An order, or the order against it. -/
def apply : Direction → Ordering → Ordering
  | ascending, o => o
  | descending, o => o.swap

theorem apply_eq_eq_iff {d : Direction} {o : Ordering} : d.apply o = .eq ↔ o = .eq := by
  cases d <;> cases o <;> simp [apply]

instance {α : Type} {cmp : α → α → Ordering} [Std.TransCmp cmp] (d : Direction) :
    Std.TransCmp fun v w => d.apply (cmp v w) := by
  cases d with
  | ascending => exact inferInstanceAs (Std.TransCmp cmp)
  | descending =>
    have opposite : (fun v w => descending.apply (cmp v w)) = fun v w => cmp w v := by
      funext v w
      exact Std.OrientedCmp.eq_swap.symm
    rw [opposite]
    infer_instance

end Direction

namespace SortField

/-- The order of two values of a field. Absent ones come first in either direction. -/
def compare (f : SortField) : Value → Value → Ordering
  | .null, .null => .eq
  | .null, _ => .lt
  | _, .null => .gt
  | v, w => f.direction.apply (Value.compare v w)

/-- The place of absent values before the others. -/
def presence (v : Value) : Nat := if v.isNull then 0 else 1

theorem compare_eq_then (f : SortField) (v w : Value) :
    f.compare v w = (Ord.compare (presence v) (presence w)).then (f.direction.apply (Value.compare v w)) := by
  cases v <;> cases w <;> first | rfl | (cases f.direction <;> rfl)

theorem compare_null_left {f : SortField} {w : Value} (present : w.isNull = false) : f.compare .null w = .lt := by
  cases w with
  | null => cases present
  | integer | real | text | blob => rfl

theorem compare_null_right {f : SortField} {v : Value} (present : v.isNull = false) : f.compare v .null = .gt := by
  cases v with
  | null => cases present
  | integer | real | text | blob => rfl

theorem compare_of_present {f : SortField} {v w : Value} (first : v.isNull = false) (second : w.isNull = false) :
    f.compare v w = f.direction.apply (Value.compare v w) := by
  rw [compare_eq_then, presence, presence, first, second]
  rfl

instance (f : SortField) : Std.TransCmp f.compare := by
  have lexical : f.compare = compareLex (compareOn presence) fun v w => f.direction.apply (Value.compare v w) := by
    funext v w
    exact f.compare_eq_then v w
  rw [lexical]
  infer_instance

theorem compare_eq_eq_iff {f : SortField} {v w : Value} : f.compare v w = .eq ↔ Value.compare v w = .eq := by
  rw [compare_eq_then, Ordering.then_eq_eq, Direction.apply_eq_eq_iff]
  constructor
  · rintro ⟨-, same⟩
    exact same
  · intro same
    have rank := (Value.same_iff.mp (show Value.same v w = true by rw [Value.same, same]; rfl)).1
    refine ⟨?_, same⟩
    cases v <;> cases w <;> first | rfl | cases rank

end SortField

namespace SiblingOrder

/-- The order of two rows by some fields, the first that tells them apart. -/
def compareFields (a b : Record) : List SortField → Ordering
  | [] => .eq
  | f :: fs => (f.compare (a.value f.field) (b.value f.field)).then (compareFields a b fs)

/-- The order of siblings: by the fields, and where they agree in all of these by the key. -/
def compare (o : SiblingOrder) (a b : Record) : Ordering :=
  (compareFields a b o.fields).then (Value.compare (a.value o.key) (b.value o.key))

variable {o : SiblingOrder} {a b : Record}

instance (fields : List SortField) : Std.TransCmp fun a b => compareFields a b fields := by
  induction fields with
  | nil => exact { eq_swap := rfl, isLE_trans := fun _ _ => rfl }
  | cons f fs ih =>
    have first : Std.TransCmp fun a b : Record => f.compare (a.value f.field) (b.value f.field) :=
      transCmp_on f.compare fun r : Record => r.value f.field
    exact inferInstanceAs (Std.TransCmp (compareLex (fun a b : Record => f.compare (a.value f.field) (b.value f.field))
      fun a b => compareFields a b fs))

instance (o : SiblingOrder) : Std.TransCmp o.compare := by
  have last : Std.TransCmp fun a b : Record => Value.compare (a.value o.key) (b.value o.key) :=
    transCmp_on Value.compare fun r : Record => r.value o.key
  exact inferInstanceAs (Std.TransCmp (compareLex (fun a b : Record => compareFields a b o.fields)
    fun a b : Record => Value.compare (a.value o.key) (b.value o.key)))

theorem compareAll_append (a b : Record) (ts us : List SortTerm) :
    SortTerm.compareAll a b (ts ++ us) = (SortTerm.compareAll a b ts).then (SortTerm.compareAll a b us) := by
  induction ts with
  | nil => rfl
  | cons t ts ih => rw [List.cons_append, SortTerm.compareAll, SortTerm.compareAll, ih, Ordering.then_assoc]

/-- The criteria for one field. -/
theorem compareAll_fieldTerms {f : SortField} {source : String} (present : (a.value o.key).isNull = false)
    (present' : (b.value o.key).isNull = false) :
    SortTerm.compareAll a b (o.fieldTerms source f) = f.compare (a.value f.field) (b.value f.field) := by
  rw [SortField.compare_eq_then, fieldTerms]
  have value : SortTerm.compare a b (.value (.column source f.field) f.direction)
      = f.direction.apply (Value.compare (a.value f.field) (b.value f.field)) := by
    cases direction : f.direction <;> rfl
  split
  · rename_i key
    rw [SortTerm.compareAll, SortTerm.compareAll, value, Ordering.then_eq, key, SortField.presence, SortField.presence,
      present, present']
    rfl
  · rw [SortTerm.compareAll, SortTerm.compareAll, SortTerm.compareAll, value, Ordering.then_eq]
    rfl

theorem compare_of_compareFields {fs : List SortField} {f : SortField} (member : f ∈ fs)
    (same : compareFields a b fs = .eq) : Value.compare (a.value f.field) (b.value f.field) = .eq := by
  induction fs with
  | nil => cases member
  | cons g fs ih =>
    obtain ⟨first, rest⟩ := Ordering.then_eq_eq.mp same
    rcases List.mem_cons.mp member with rfl | later
    · exact SortField.compare_eq_eq_iff.mp first
    · exact ih later rest

/-- Rows that agree in all fields have the same key where it is one of them. -/
theorem compare_key (uses : o.usesKey = true) (same : compareFields a b o.fields = .eq) :
    Value.compare (a.value o.key) (b.value o.key) = .eq := by
  obtain ⟨f, member, key⟩ := List.any_eq_true.mp uses
  rw [beq_iff_eq] at key
  rw [← key]
  exact compare_of_compareFields member same

/-- The criteria by which siblings are numbered describe their order. -/
theorem compareAll_rankTerms (source : String) (present : (a.value o.key).isNull = false)
    (present' : (b.value o.key).isNull = false) :
    SortTerm.compareAll a b (o.rankTerms source) = o.compare a b := by
  have fields : ∀ fs : List SortField,
      SortTerm.compareAll a b (fs.flatMap (o.fieldTerms source)) = compareFields a b fs := by
    intro fs
    induction fs with
    | nil => rfl
    | cons f fs ih => rw [List.flatMap_cons, compareAll_append, compareAll_fieldTerms present present', ih, compareFields]
  rw [rankTerms, compareAll_append, fields, compare]
  split
  · rename_i uses
    rw [SortTerm.compareAll, Ordering.then_eq]
    cases first : compareFields a b o.fields with
    | lt => rfl
    | gt => rfl
    | eq => rw [compare_key uses first, Ordering.eq_then]
  · rw [SortTerm.compareAll, SortTerm.compareAll, Ordering.then_eq]
    rfl

end SiblingOrder

end ForestQuery
