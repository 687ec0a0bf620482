import ForestQuery.Proofs.Expr
import ForestQuery.Proofs.Siblings
import ForestQuery.Proofs.Traversal
/-!
The places that a store gives to rows with the same parent, with no condition on their keys. Main statement: rows with
the same parent and the same place are equal for the criteria, and so are their keys.
-/

namespace ForestQuery

namespace SortTerm

variable {a b : Record} {t : SortTerm} {terms : List SortTerm}

theorem compare_value (a b : Record) (column : Reference) (direction : Direction) :
    (value column direction).compare a b = direction.apply (Value.compare (a.env column) (b.env column)) := by
  cases direction <;> rfl

instance (t : SortTerm) : Std.TransCmp fun a b : Record => t.compare a b := by
  cases t with
  | absentFirst column =>
    exact inferInstanceAs (Std.TransCmp (compareOn fun r : Record => if (r.env column).isNull then 0 else 1))
  | value column direction =>
    have values : Std.TransCmp fun a b : Record => Value.compare (a.env column) (b.env column) :=
      transCmp_on Value.compare fun r : Record => r.env column
    simp only [compare_value]
    infer_instance

instance (terms : List SortTerm) : Std.TransCmp fun a b : Record => compareAll a b terms := by
  induction terms with
  | nil => exact { eq_swap := rfl, isLE_trans := fun _ _ => rfl }
  | cons t terms ih =>
    exact inferInstanceAs (Std.TransCmp (compareLex (fun a b : Record => t.compare a b)
      fun a b => compareAll a b terms))

theorem compareAll_self (a : Record) (terms : List SortTerm) : compareAll a a terms = .eq :=
  @Std.ReflCmp.compare_self Record (fun a b => compareAll a b terms) _ a

theorem compareAll_lt_trans {c : Record} (first : compareAll a b terms = .lt) (second : compareAll b c terms = .lt) :
    compareAll a c terms = .lt :=
  @Std.TransCmp.lt_trans Record (fun a b => compareAll a b terms) _ a b c first second

theorem compareAll_lt_of_gt (greater : compareAll a b terms = .gt) : compareAll b a terms = .lt :=
  @Std.OrientedCmp.lt_of_gt Record (fun a b => compareAll a b terms) _ a b greater

/-- Rows that are equal for some criteria are equal for each of them. -/
theorem compare_eq_of_compareAll (same : compareAll a b terms = .eq) (member : t ∈ terms) : t.compare a b = .eq := by
  induction terms with
  | nil => cases member
  | cons u terms ih =>
    obtain ⟨first, rest⟩ := Ordering.then_eq_eq.mp same
    rcases List.mem_cons.mp member with rfl | later
    · exact first
    · exact ih rest later

end SortTerm

namespace SiblingOrder

variable {o : SiblingOrder} {a b : Record} {source : String}

/-- The key is among the criteria, in one direction or the other. -/
theorem exists_keyTerm (o : SiblingOrder) (source : String) :
    ∃ direction, SortTerm.value (.column source o.key) direction ∈ o.rankTerms source := by
  rw [rankTerms]
  cases uses : o.usesKey with
  | false => exact ⟨.ascending, by simp⟩
  | true =>
    obtain ⟨f, member, key⟩ := List.any_eq_true.mp uses
    rw [beq_iff_eq] at key
    refine ⟨f.direction, List.mem_append_left _ (List.mem_flatMap.mpr ⟨f, member, ?_⟩)⟩
    rw [fieldTerms, if_pos key, key]
    exact List.mem_singleton_self _

/-- Rows that are equal for the criteria have keys that are equal for the store. -/
theorem same_key_of_compareAll (same : SortTerm.compareAll a b (o.rankTerms source) = .eq) :
    Value.same (a.value o.key) (b.value o.key) = true := by
  obtain ⟨direction, member⟩ := o.exists_keyTerm source
  have equal := SortTerm.compare_eq_of_compareAll same member
  rw [SortTerm.compare_value, Direction.apply_eq_eq_iff] at equal
  rw [Value.same, show Value.compare (a.value o.key) (b.value o.key) = .eq from equal]
  rfl

end SiblingOrder

namespace Statement

variable {s : Statement} {rows : List ScopeRow} {records : List Record} {terms : List SortTerm} {filter : Clauses}
  {r p : ScopeRow}

/-- The rows with the same parent that come before a row. -/
def ahead (rows : List ScopeRow) (terms : List SortTerm) (r : ScopeRow) : List ScopeRow :=
  rows.filter fun other => Value.same other.parent r.parent && SortTerm.compareAll other.record r.record terms == .lt

theorem mem_ahead {x : ScopeRow} : x ∈ ahead rows terms r ↔
    x ∈ rows ∧ Value.same x.parent r.parent = true ∧ SortTerm.compareAll x.record r.record terms = .lt := by
  rw [ahead, List.mem_filter, Bool.and_eq_true, beq_iff_eq]

theorem length_ahead_lt (terms : List SortTerm) (row : r ∈ rows) : (ahead rows terms r).length < rows.length := by
  refine List.length_filter_lt_length_iff_exists.mpr ⟨r, row, fun self => ?_⟩
  rw [SortTerm.compareAll_self, Bool.and_eq_true] at self
  cases self.2

theorem rankIn_eq (few : rows.length < 9223372036854775808) (row : r ∈ rows) :
    rankIn rows terms r = .integer (Int64.ofInt ((ahead rows terms r).length + 1 : Nat)) := by
  have shorter := length_ahead_lt terms row
  exact Value.ofCount_of_lt (show (ahead rows terms r).length + 1 < _ by omega)

/-- A row that comes before another one with the same parent has fewer rows ahead. -/
theorem length_ahead_lt_of_compareAll (row : r ∈ rows) (parents : Value.same r.parent p.parent = true)
    (less : SortTerm.compareAll r.record p.record terms = .lt) :
    (ahead rows terms r).length < (ahead rows terms p).length := by
  have passed : ∀ x ∈ ahead rows terms r, x ∈ ahead rows terms p := by
    intro x member
    obtain ⟨inRows, parent, before⟩ := mem_ahead.mp member
    exact mem_ahead.mpr ⟨inRows, Value.same_trans parent parents, SortTerm.compareAll_lt_trans before less⟩
  have among : ahead (ahead rows terms p) terms r = ahead rows terms r := by
    rw [ahead, ahead, List.filter_filter]
    refine List.filter_congr fun x inRows => ?_
    rw [Bool.and_eq_left_iff_imp]
    intro before
    exact (List.mem_filter.mp (passed x (List.mem_filter.mpr ⟨inRows, before⟩))).2
  rw [← among]
  exact length_ahead_lt terms (mem_ahead.mpr ⟨row, parents, less⟩)

/-- Rows with the same parent and the same place are equal for the criteria. -/
theorem compareAll_of_rankIn (few : rows.length < 9223372036854775808) (first : r ∈ rows) (second : p ∈ rows)
    (parents : Value.same r.parent p.parent = true) (same : rankIn rows terms r = rankIn rows terms p) :
    SortTerm.compareAll r.record p.record terms = .eq := by
  have small := length_ahead_lt terms first
  have small' := length_ahead_lt terms second
  rw [rankIn_eq few first, rankIn_eq few second, Value.integer.injEq] at same
  have counts := congrArg Int64.toInt same
  rw [Int64.toInt_ofInt_of_le (by omega) (by omega), Int64.toInt_ofInt_of_le (by omega) (by omega)] at counts
  cases order : SortTerm.compareAll r.record p.record terms with
  | eq => rfl
  | lt =>
    have fewer := length_ahead_lt_of_compareAll first parents order
    omega
  | gt =>
    have fewer := length_ahead_lt_of_compareAll second (Value.same_symm parents) (SortTerm.compareAll_lt_of_gt order)
    omega

/-- Where siblings are numbered, a row of the scope is one without a number that was given its place. -/
theorem exists_of_ranked (scope : s.scope = .filtered filter (some terms)) (row : r ∈ s.scopeRows records) :
    ∃ x ∈ s.withParents (s.kept records),
      r = ⟨x.record, x.parent, rankIn (s.withParents (s.kept records)) terms x⟩ := by
  simp only [scopeRows, scope, ranked] at row
  obtain ⟨x, member, rfl⟩ := List.mem_map.mp row
  exact ⟨x, member, rfl⟩

theorem length_withParents_le (s : Statement) (records : List Record) :
    (s.withParents (s.kept records)).length ≤ records.length := by
  rw [withParents, List.length_map, kept]
  split
  · exact Nat.le_refl _
  · exact List.length_filter_le _ _

/-- The place of a row is a number. -/
theorem exists_rank (scope : s.scope = .filtered filter (some terms)) (few : records.length < 9223372036854775808)
    (row : r ∈ s.scopeRows records) : ∃ i : Int64, r.rank = .integer i := by
  obtain ⟨x, member, rfl⟩ := exists_of_ranked scope row
  exact ⟨_, by rw [rankIn_eq (Nat.lt_of_le_of_lt (s.length_withParents_le records) few) member]⟩

/-- Rows with the same parent and the same place have keys that are equal for the store. -/
theorem same_key_of_rank {o : SiblingOrder} {source : String}
    (scope : s.scope = .filtered filter (some (o.rankTerms source))) (few : records.length < 9223372036854775808)
    (first : r ∈ s.scopeRows records) (second : p ∈ s.scopeRows records)
    (parents : Value.same r.parent p.parent = true) (same : r.rank = p.rank) :
    Value.same (r.record.value o.key) (p.record.value o.key) = true := by
  obtain ⟨x, member, rfl⟩ := exists_of_ranked scope first
  obtain ⟨y, member', rfl⟩ := exists_of_ranked scope second
  simp only at parents same
  have equal := compareAll_of_rankIn (Nat.lt_of_le_of_lt (s.length_withParents_le records) few) member member' parents
    same
  exact SiblingOrder.same_key_of_compareAll equal

end Statement

end ForestQuery
