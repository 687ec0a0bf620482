import ForestQuery.Proofs.Sorting
import ForestQuery.Proofs.Value.Order
import ForestQuery.Table
/-!
Values grouped as a store groups them: one group for the values that are equal for the store, in the order of
the values. Main statement: the groups of a column are in strict order, each with the number of rows whose value
is equal to its own, and every value that is present is in one.
-/

namespace ForestQuery

namespace Value

theorem same_comm (v w : Value) : same v w = same w v := by
  rw [Bool.eq_iff_iff]
  exact ⟨same_symm, same_symm⟩

theorem same_eq_of_same {v w : Value} (equal : same v w = true) (x : Value) : same v x = same w x := by
  rw [Bool.eq_iff_iff]
  exact ⟨same_trans (same_symm equal), same_trans equal⟩

theorem isNull_of_same {v w : Value} (equal : same v w = true) : v.isNull = w.isNull := by
  have rank := (same_iff.mp equal).1
  cases v <;> cases w <;> simp_all [Value.rank, Value.isNull]

end Value

namespace Table

variable {t : Table} {gs : List (Value × Nat)} {vs : List Value} {v w : Value}

/-- Groups of values: in strict order, each with the number of values equal to its own, and with each value that
is present in one of them. -/
structure IsGrouping (gs : List (Value × Nat)) (vs : List Value) : Prop where
  increasing : gs.Pairwise fun g h => Value.compare g.1 h.1 = .lt
  counted : ∀ g ∈ gs, g.1 ∈ vs ∧ g.1.isNull = false ∧ g.2 = vs.countP (Value.same g.1)
  covered : ∀ v ∈ vs, v.isNull = false → ∃ g ∈ gs, Value.same g.1 v = true

/-- A value that is equal to that of a group raises the number of the group. -/
theorem addToGroups_of_same {front later : List (Value × Nat)} {n : Nat} (equal : Value.same w v = true)
    (others : ∀ g ∈ front, Value.same g.1 v = false) :
    addToGroups v (front ++ (w, n) :: later) = front ++ (w, n + 1) :: later := by
  induction front with
  | nil => rw [List.nil_append, addToGroups, if_pos (Value.same_symm equal), List.nil_append]
  | cons g front ih =>
    have other : ¬ Value.same v g.1 = true := by
      rw [Value.same_comm, others g (by simp)]
      decide
    rw [List.cons_append, addToGroups, if_neg other, ih fun h member => others h (by simp [member]), List.cons_append]

/-- A value that is equal to that of no group opens a group at the end. -/
theorem addToGroups_of_new (others : ∀ g ∈ gs, Value.same g.1 v = false) : addToGroups v gs = gs ++ [(v, 1)] := by
  induction gs with
  | nil => rfl
  | cons g gs ih =>
    have other : ¬ Value.same v g.1 = true := by
      rw [Value.same_comm, others g (by simp)]
      decide
    rw [addToGroups, if_neg other, ih fun h member => others h (by simp [member]), List.cons_append]

theorem not_same_of_lt (less : Value.compare v w = .lt) : Value.same v w = false := by
  rw [Value.same, less]
  rfl

theorem countP_concat (w : Value) :
    (vs ++ [v]).countP (Value.same w) = vs.countP (Value.same w) + (if Value.same w v then 1 else 0) := by
  rw [List.countP_append, List.countP_singleton]

/-- At most one group has a value that is equal to a given one. -/
theorem IsGrouping.others {front later : List (Value × Nat)} {n : Nat}
    (grouping : IsGrouping (front ++ (w, n) :: later) vs) (equal : Value.same w v = true) :
    (∀ g ∈ front, Value.same g.1 v = false) ∧ ∀ g ∈ later, Value.same g.1 v = false := by
  obtain ⟨-, fromHere, apart⟩ := List.pairwise_append.mp grouping.increasing
  have behind := (List.pairwise_cons.mp fromHere).1
  constructor
  · intro g member
    have other := not_same_of_lt (apart g member (w, n) (by simp))
    rw [Value.same_comm, ← Value.same_eq_of_same equal, Value.same_comm]
    exact other
  · intro g member
    have other := not_same_of_lt (behind g member)
    rw [Value.same_comm, ← Value.same_eq_of_same equal]
    exact other

theorem IsGrouping.add_of_same {front later : List (Value × Nat)} {n : Nat}
    (grouping : IsGrouping (front ++ (w, n) :: later) vs) (equal : Value.same w v = true) :
    IsGrouping (front ++ (w, n + 1) :: later) (vs ++ [v]) := by
  obtain ⟨inFront, inLater⟩ := grouping.others equal
  obtain ⟨before, fromHere, apart⟩ := List.pairwise_append.mp grouping.increasing
  have behind := List.pairwise_cons.mp fromHere
  have unchanged : ∀ g ∈ front ++ (w, n) :: later, Value.same g.1 v = false →
      g.1 ∈ vs ++ [v] ∧ g.1.isNull = false ∧ g.2 = (vs ++ [v]).countP (Value.same g.1) := by
    intro g member other
    obtain ⟨found, present, number⟩ := grouping.counted g member
    rw [countP_concat, other, ← number]
    exact ⟨List.mem_append_left _ found, present, rfl⟩
  refine ⟨?_, fun g member => ?_, fun x member present => ?_⟩
  · refine List.pairwise_append.mpr ⟨before, List.pairwise_cons.mpr behind, fun g inside h there => ?_⟩
    rcases List.mem_cons.mp there with rfl | there
    · exact apart g inside (w, n) (by simp)
    · exact apart g inside h (by simp [there])
  · rcases List.mem_append.mp member with inside | there
    · exact unchanged g (by simp [inside]) (inFront g inside)
    · rcases List.mem_cons.mp there with rfl | inside
      · obtain ⟨found, present, number⟩ := grouping.counted (w, n) (by simp)
        rw [countP_concat, if_pos equal, ← number]
        exact ⟨List.mem_append_left _ found, present, rfl⟩
      · exact unchanged g (by simp [inside]) (inLater g inside)
  · have covered : ∃ g ∈ front ++ (w, n) :: later, Value.same g.1 x = true := by
      rcases List.mem_append.mp member with old | new
      · exact grouping.covered x old present
      · exact ⟨(w, n), by simp, by rwa [List.mem_singleton.mp new]⟩
    obtain ⟨g, there, equal'⟩ := covered
    rcases List.mem_append.mp there with inside | there
    · exact ⟨g, by simp [inside], equal'⟩
    · rcases List.mem_cons.mp there with rfl | inside
      · exact ⟨(w, n + 1), by simp, equal'⟩
      · exact ⟨g, by simp [inside], equal'⟩

theorem IsGrouping.add_of_new (grouping : IsGrouping gs vs) (present : v.isNull = false)
    (last : ∀ w ∈ vs, (Value.compare w v).isLE = true) (others : ∀ g ∈ gs, Value.same g.1 v = false) :
    IsGrouping (gs ++ [(v, 1)]) (vs ++ [v]) := by
  have alone : vs.countP (Value.same v) = 0 := by
    refine List.countP_eq_zero.mpr fun w member equal => ?_
    have here : w.isNull = false := (Value.isNull_of_same equal).symm.trans present
    obtain ⟨g, inGroups, equal'⟩ := grouping.covered w member here
    have found := Value.same_trans equal' (Value.same_symm equal)
    rw [others g inGroups] at found
    cases found
  refine ⟨?_, fun g inside => ?_, fun x inside here => ?_⟩
  · refine List.pairwise_append.mpr ⟨grouping.increasing, List.pairwise_singleton _ _, fun g inside h there => ?_⟩
    rw [List.mem_singleton.mp there]
    have atMost := last g.1 (grouping.counted g inside).1
    have other := others g inside
    rw [Value.same, beq_eq_false_iff_ne] at other
    cases order : Value.compare g.1 v with
    | lt => rfl
    | eq => exact absurd order other
    | gt =>
      rw [order] at atMost
      cases atMost
  · rcases List.mem_append.mp inside with before | new
    · obtain ⟨found, notNull, number⟩ := grouping.counted g before
      rw [countP_concat, others g before, ← number]
      exact ⟨List.mem_append_left _ found, notNull, rfl⟩
    · rw [List.mem_singleton.mp new, countP_concat, alone, if_pos (Value.same_self v)]
      exact ⟨by simp, present, rfl⟩
  · rcases List.mem_append.mp inside with before | new
    · obtain ⟨g, member, equal⟩ := grouping.covered x before here
      exact ⟨g, by simp [member], equal⟩
    · rw [List.mem_singleton.mp new]
      exact ⟨(v, 1), by simp, Value.same_self v⟩

/-- One value more, which none of the values before it exceeds. -/
theorem IsGrouping.add (grouping : IsGrouping gs vs) (present : v.isNull = false)
    (last : ∀ w ∈ vs, (Value.compare w v).isLE = true) : IsGrouping (addToGroups v gs) (vs ++ [v]) := by
  by_cases old : ∃ g ∈ gs, Value.same g.1 v = true
  · obtain ⟨⟨w, n⟩, member, equal⟩ := old
    obtain ⟨front, later, rfl⟩ := List.append_of_mem member
    rw [addToGroups_of_same equal (grouping.others equal).1]
    exact grouping.add_of_same equal
  · have others : ∀ g ∈ gs, Value.same g.1 v = false := by
      intro g member
      rw [Bool.eq_false_iff]
      exact fun equal => old ⟨g, member, equal⟩
    rw [addToGroups_of_new others]
    exact grouping.add_of_new present last others

theorem isGrouping_foldl (present : ∀ v ∈ vs, v.isNull = false)
    (sorted : vs.Pairwise fun v w => (Value.compare v w).isLE = true) :
    IsGrouping (vs.foldl (fun gs v => addToGroups v gs) []) vs := by
  -- From the front on: what has been grouped is a beginning of the values.
  have each : ∀ later done gs, IsGrouping gs done → done ++ later = vs →
      IsGrouping (later.foldl (fun gs v => addToGroups v gs) gs) vs := by
    intro later
    induction later with
    | nil =>
      intro done gs grouping whole
      rw [List.append_nil] at whole
      exact whole ▸ grouping
    | cons v later ih =>
      intro done gs grouping whole
      rw [← whole] at sorted present
      refine ih (done ++ [v]) _ (grouping.add (present v (by simp)) fun w member => ?_) (by rw [← whole]; simp)
      exact (List.pairwise_append.mp sorted).2.2 w member v (by simp)
  exact each vs [] [] ⟨.nil, by simp, by simp⟩ (List.nil_append vs)

/-- The values that a name stands for, row by row. -/
def valuesAt (t : Table) (name : String) : List Value := t.records.map (t.valueAt name)

/-- The groups of a column are those of its values. -/
theorem isGrouping_groups (t : Table) (name : String) : IsGrouping (t.groups name) (t.valuesAt name) := by
  have order : (fun v w => Value.compare v w != .gt) = fun v w => (Value.compare v w).isLE := by
    funext v w
    cases Value.compare v w <;> rfl
  have perm := List.mergeSort_perm ((t.valuesAt name).filter fun v => !v.isNull) fun v w => Value.compare v w != .gt
  have sorted := pairwise_mergeSort_isLE Value.compare ((t.valuesAt name).filter fun v => !v.isNull)
  have mem_iff : ∀ v, v ∈ ((t.valuesAt name).filter fun v => !v.isNull).mergeSort (fun v w => Value.compare v w != .gt) ↔
      v ∈ t.valuesAt name ∧ v.isNull = false := by
    intro v
    rw [perm.mem_iff, List.mem_filter, Bool.not_eq_true']
  rw [← order] at sorted
  have grouping := isGrouping_foldl (fun v member => ((mem_iff v).mp member).2) sorted
  refine ⟨grouping.increasing, fun g member => ?_, fun v member present => ?_⟩
  · obtain ⟨found, present, number⟩ := grouping.counted g member
    refine ⟨((mem_iff g.1).mp found).1, present, number.trans ?_⟩
    rw [perm.countP_eq, List.countP_filter]
    refine List.countP_congr fun v _ => ?_
    constructor
    · intro both
      exact (Bool.and_eq_true _ _ ▸ both).1
    · intro equal
      rw [equal, ← Value.isNull_of_same equal, present]
      rfl
  · exact grouping.covered v ((mem_iff v).mpr ⟨member, present⟩) present

/-- Values that stand in order already are grouped as they stand. -/
theorem groups_of_sorted {name : String} (sorted : ((t.valuesAt name).filter fun v => !v.isNull).Pairwise
    fun v w => (Value.compare v w != .gt) = true) :
    t.groups name = ((t.valuesAt name).filter fun v => !v.isNull).foldl (fun gs v => addToGroups v gs) [] :=
  congrArg (List.foldl (fun gs v => addToGroups v gs) []) (List.mergeSort_of_pairwise sorted)

end Table

end ForestQuery
