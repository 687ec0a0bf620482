import ForestQuery.Proofs.Row
import ForestQuery.Proofs.Value.Order
import ForestQuery.Relation
import ForestQuery.Table
import Mathlib.Data.List.Nodup
/-!
The forest that rows form: each row lies below the row whose key its parent column holds, and on top where
no row has that key. Main statements: a row has at most one lineage, and the levels of the forest hold each
row that has one, once, with its lineage.
-/

namespace ForestQuery

/-- Rows of a relation, each with a key of its own. -/
structure Forest where
  relation : Relation
  rows : List Record
  identified : ∀ r ∈ rows, ∃ id : NodeId, id.type = relation.keyType ∧ r.value relation.key = id.toValue
  distinct : (rows.map fun r => r.value relation.key).Nodup

namespace Forest

variable {f : Forest} {r p : Record} {as bs : List Record}

def keyOf (f : Forest) (r : Record) : Value := r.value f.relation.key

/-- What the parent column of a row holds. -/
def parentOf (f : Forest) (r : Record) : Value := r.value f.relation.parent

/-- The row that a row lies below. -/
def parent? (f : Forest) (r : Record) : Option Record :=
  f.rows.find? fun p => Value.same (f.keyOf p) (f.parentOf r)

theorem isNull_keyOf (row : r ∈ f.rows) : (f.keyOf r).isNull = false := by
  obtain ⟨id, -, key⟩ := f.identified r row
  rw [keyOf, key, id.isNull_toValue]

theorem eq_of_keyOf (first : r ∈ f.rows) (second : p ∈ f.rows) (same : f.keyOf r = f.keyOf p) : r = p :=
  List.inj_on_of_nodup_map f.distinct first second same

theorem eq_of_same (first : r ∈ f.rows) (second : p ∈ f.rows)
    (same : Value.same (f.keyOf r) (f.keyOf p) = true) : r = p := by
  obtain ⟨a, -, keyA⟩ := f.identified r first
  obtain ⟨b, -, keyB⟩ := f.identified p second
  refine eq_of_keyOf first second ?_
  rw [keyOf, keyOf, keyA, keyB] at same ⊢
  rw [NodeId.same_toValue_iff.mp same]

theorem parent?_eq_some_iff :
    f.parent? r = some p ↔ p ∈ f.rows ∧ Value.same (f.keyOf p) (f.parentOf r) = true := by
  constructor
  · intro found
    have same : Value.same (f.keyOf p) (f.parentOf r) = true :=
      List.find?_some (p := fun p => Value.same (f.keyOf p) (f.parentOf r)) found
    exact ⟨List.mem_of_find?_eq_some found, same⟩
  · rintro ⟨row, same⟩
    cases found : f.parent? r with
    | none => exact absurd same (List.find?_eq_none.mp found p row)
    | some q =>
      have same' : Value.same (f.keyOf q) (f.parentOf r) = true :=
        List.find?_some (p := fun p => Value.same (f.keyOf p) (f.parentOf r)) found
      exact congrArg some (eq_of_same (List.mem_of_find?_eq_some found) row
        (Value.same_trans same' (Value.same_symm same)))

theorem parent?_eq_none_iff :
    f.parent? r = none ↔ ∀ p ∈ f.rows, ¬ Value.same (f.keyOf p) (f.parentOf r) = true :=
  List.find?_eq_none

/-- The rows above a row, the nearest first, up to one on top. -/
inductive Lineage (f : Forest) : Record → List Record → Prop where
  | top {r : Record} (row : r ∈ f.rows) (noParent : f.parent? r = none) : Lineage f r []
  | child {r p : Record} {as : List Record} (row : r ∈ f.rows) (parent : f.parent? r = some p)
      (above : Lineage f p as) : Lineage f r (p :: as)

/-- The rows from the one on top down to a row. -/
def pathTo (r : Record) (as : List Record) : List Record := as.reverse ++ [r]

theorem Lineage.mem (lineage : f.Lineage r as) : r ∈ f.rows := by
  cases lineage with
  | top row _ => exact row
  | child row _ _ => exact row

/-- A row has at most one lineage. -/
theorem Lineage.unique (first : f.Lineage r as) (second : f.Lineage r bs) : as = bs := by
  induction first generalizing bs with
  | top _ noParent =>
    cases second with
    | top => rfl
    | child _ parent _ =>
      rw [noParent] at parent
      cases parent
  | child _ parent _ ih =>
    cases second with
    | top _ noParent =>
      rw [noParent] at parent
      cases parent
    | child _ parent' above' =>
      rw [parent] at parent'
      cases parent'
      rw [ih above']

/-- The lineages of a row on top and one row below it. -/
theorem lineage_iff_of_pair {a b : Record} (rows : f.rows = [a, b]) (top : f.parent? a = none)
    (below : f.parent? b = some a) : f.Lineage r as ↔ r = a ∧ as = [] ∨ r = b ∧ as = [a] := by
  have root : f.Lineage a [] := .top (by rw [rows]; exact List.mem_cons_self) top
  have child : f.Lineage b [a] := .child (by rw [rows]; exact List.mem_cons_of_mem _ List.mem_cons_self) below root
  constructor
  · intro lineage
    have row := lineage.mem
    rw [rows] at row
    rcases List.mem_pair.mp row with rfl | rfl
    · exact Or.inl ⟨rfl, lineage.unique root⟩
    · exact Or.inr ⟨rfl, lineage.unique child⟩
  · rintro (⟨rfl, rfl⟩ | ⟨rfl, rfl⟩)
    · exact root
    · exact child

/-- The rows above a row have shorter lineages. -/
theorem Lineage.exists_shorter (lineage : f.Lineage r as) (member : p ∈ as) :
    ∃ bs, f.Lineage p bs ∧ bs.length < as.length := by
  induction lineage with
  | top => cases member
  | @child _ _ bs _ _ above ih =>
    rcases List.mem_cons.mp member with rfl | later
    · exact ⟨bs, above, Nat.lt_succ_self _⟩
    · obtain ⟨cs, lineageAbove, shorter⟩ := ih later
      exact ⟨cs, lineageAbove, Nat.lt_succ_of_lt shorter⟩

theorem Lineage.exists_of_mem (lineage : f.Lineage r as) (member : p ∈ as) : ∃ bs, f.Lineage p bs := by
  obtain ⟨bs, above, -⟩ := lineage.exists_shorter member
  exact ⟨bs, above⟩

theorem Lineage.mem_above (lineage : f.Lineage r as) (member : p ∈ as) : p ∈ f.rows := by
  obtain ⟨bs, above⟩ := lineage.exists_of_mem member
  exact above.mem

/-- The beginnings of a lineage are the lineages of the rows above. -/
theorem Lineage.exists_of_le (lineage : f.Lineage r as) {n : Nat} (bound : n ≤ as.length) :
    ∃ q bs, f.Lineage q bs ∧ bs.length = n := by
  induction lineage with
  | @top q row noParent =>
    exact ⟨q, [], .top row noParent, (Nat.le_zero.mp bound).symm⟩
  | @child q p bs row parent above ih =>
    by_cases whole : n = (p :: bs).length
    · exact ⟨q, p :: bs, .child row parent above, whole.symm⟩
    · exact ih (by rw [List.length_cons] at bound whole; omega)

/-- The rows on top. -/
def roots (f : Forest) : List Record := f.rows.filter fun r => decide (f.parent? r = none)

/-- The rows directly below a row. -/
def children (f : Forest) (p : Record) : List Record := f.rows.filter fun r => decide (f.parent? r = some p)

/-- The rows with so many rows above them, each with these. -/
def level (f : Forest) : Nat → List (Record × List Record)
  | 0 => f.roots.map fun r => (r, [])
  | n + 1 => (f.level n).flatMap fun c => (f.children c.1).map fun r => (r, c.1 :: c.2)

/-- So many levels of the forest, from one on. -/
def levels (f : Forest) (n : Nat) : Nat → List (Record × List Record)
  | 0 => []
  | count + 1 => f.level n ++ f.levels (n + 1) count

theorem mem_roots_iff : r ∈ f.roots ↔ r ∈ f.rows ∧ f.parent? r = none :=
  List.mem_filter.trans (and_congr_right fun _ => decide_eq_true_iff)

theorem mem_children_iff : r ∈ f.children p ↔ r ∈ f.rows ∧ f.parent? r = some p :=
  List.mem_filter.trans (and_congr_right fun _ => decide_eq_true_iff)

theorem mem_level_iff {n : Nat} {c : Record × List Record} :
    c ∈ f.level n ↔ f.Lineage c.1 c.2 ∧ c.2.length = n := by
  induction n generalizing c with
  | zero =>
    obtain ⟨r, as⟩ := c
    constructor
    · intro member
      obtain ⟨q, top, same⟩ := List.mem_map.mp member
      cases same
      obtain ⟨row, noParent⟩ := mem_roots_iff.1 top
      exact ⟨.top row noParent, rfl⟩
    · rintro ⟨lineage, length⟩
      cases lineage with
      | top row noParent => exact List.mem_map.mpr ⟨r, mem_roots_iff.2 ⟨row, noParent⟩, rfl⟩
      | child => cases length
  | succ n ih =>
    obtain ⟨r, as⟩ := c
    constructor
    · intro member
      obtain ⟨⟨p, bs⟩, above, inChildren⟩ := List.mem_flatMap.mp member
      obtain ⟨q, child, same⟩ := List.mem_map.mp inChildren
      cases same
      obtain ⟨row, parent⟩ := mem_children_iff.1 child
      obtain ⟨lineage, length⟩ := ih.mp above
      exact ⟨.child row parent lineage, congrArg (· + 1) length⟩
    · rintro ⟨lineage, length⟩
      cases lineage with
      | top => cases length
      | @child _ p bs row parent above =>
        exact List.mem_flatMap.mpr ⟨(p, bs), ih.mpr ⟨above, Nat.succ.inj length⟩,
          List.mem_map.mpr ⟨r, mem_children_iff.2 ⟨row, parent⟩, rfl⟩⟩

theorem nodup_rows (f : Forest) : f.rows.Nodup :=
  List.Nodup.of_map (fun r => r.value f.relation.key) f.distinct

theorem nodup_level (f : Forest) (n : Nat) : ((f.level n).map Prod.fst).Nodup := by
  induction n with
  | zero =>
    have same : (f.level 0).map Prod.fst = f.roots := by
      rw [level, List.map_map]
      exact List.map_id _
    rw [same]
    exact f.nodup_rows.filter _
  | succ n ih =>
    rw [level, List.map_flatMap, List.nodup_flatMap]
    constructor
    · intro c _
      have same : ((f.children c.1).map fun r => (r, c.1 :: c.2)).map Prod.fst = f.children c.1 := by
        rw [List.map_map]
        exact List.map_id _
      rw [same]
      exact f.nodup_rows.filter _
    · -- Two rows above have no child in common.
      refine (List.pairwise_map.mp ih).imp fun {c d} different => ?_
      intro r inFirst inSecond
      simp only [List.map_map, List.mem_map, Function.comp] at inFirst inSecond
      obtain ⟨a, child, rfl⟩ := inFirst
      obtain ⟨b, child', same⟩ := inSecond
      cases same
      have parent := (mem_children_iff.1 child).2
      rw [(mem_children_iff.1 child').2] at parent
      exact different (Option.some.inj parent).symm

theorem mem_levels_iff {n count : Nat} {c : Record × List Record} :
    c ∈ f.levels n count ↔ f.Lineage c.1 c.2 ∧ n ≤ c.2.length ∧ c.2.length < n + count := by
  induction count generalizing n with
  | zero =>
    simp only [levels, List.not_mem_nil, false_iff, not_and]
    intro _ lower
    omega
  | succ count ih =>
    rw [levels, List.mem_append, mem_level_iff, ih]
    constructor
    · rintro (⟨lineage, length⟩ | ⟨lineage, lower, upper⟩)
      · exact ⟨lineage, by omega, by omega⟩
      · exact ⟨lineage, by omega, by omega⟩
    · rintro ⟨lineage, lower, upper⟩
      by_cases here : c.2.length = n
      · exact Or.inl ⟨lineage, here⟩
      · exact Or.inr ⟨lineage, by omega, by omega⟩

theorem Lineage.mem_levels {count : Nat} (lineage : f.Lineage r as) (bound : as.length < count) :
    (r, as) ∈ f.levels 0 count :=
  mem_levels_iff.2 ⟨lineage, Nat.zero_le _, by rwa [Nat.zero_add]⟩

/-- Each row with a lineage is in the levels once. -/
theorem nodup_levels (f : Forest) (n count : Nat) : ((f.levels n count).map Prod.fst).Nodup := by
  induction count generalizing n with
  | zero => exact List.nodup_nil
  | succ count ih =>
    rw [levels, List.map_append, List.nodup_append]
    refine ⟨f.nodup_level n, ih (n + 1), ?_⟩
    intro r inFirst q inRest same
    subst same
    obtain ⟨c, first, rfl⟩ := List.mem_map.mp inFirst
    obtain ⟨d, rest, same⟩ := List.mem_map.mp inRest
    obtain ⟨lineage, length⟩ := mem_level_iff.1 first
    obtain ⟨lineage', lower, -⟩ := mem_levels_iff.1 rest
    rw [same] at lineage'
    rw [lineage.unique lineage'] at length
    omega

theorem level_eq_nil_of_le {n m : Nat} (empty : f.level n = []) (bound : n ≤ m) : f.level m = [] := by
  rw [List.eq_nil_iff_forall_not_mem]
  intro c member
  obtain ⟨lineage, length⟩ := mem_level_iff.1 member
  obtain ⟨q, bs, above, length'⟩ := lineage.exists_of_le (by omega : n ≤ c.2.length)
  have inLevel : (q, bs) ∈ f.level n := mem_level_iff.2 ⟨above, length'⟩
  rw [empty] at inLevel
  cases inLevel

theorem levels_eq_nil {n count : Nat} (empty : f.level n = []) : f.levels n count = [] := by
  rw [List.eq_nil_iff_forall_not_mem]
  intro c member
  obtain ⟨lineage, lower, -⟩ := mem_levels_iff.1 member
  have inLevel : c ∈ f.level c.2.length := mem_level_iff.2 ⟨lineage, rfl⟩
  rw [level_eq_nil_of_le empty lower] at inLevel
  cases inLevel

theorem levels_append (f : Forest) (n a b : Nat) : f.levels n (a + b) = f.levels n a ++ f.levels (n + a) b := by
  induction a generalizing n with
  | zero => rw [Nat.zero_add, levels, List.nil_append, Nat.add_zero]
  | succ a ih =>
    have next : n + (a + 1) = n + 1 + a := by omega
    rw [Nat.succ_add, levels, ih, levels, List.append_assoc, next]

/-- Behind the last row there are no more levels. -/
theorem levels_of_shallow {m a : Nat} (shallow : ∀ r as, f.Lineage r as → as.length < m) (bound : m ≤ a) :
    f.levels 0 a = f.levels 0 m := by
  have empty : f.level m = [] := by
    rw [List.eq_nil_iff_forall_not_mem]
    intro c member
    obtain ⟨lineage, length⟩ := mem_level_iff.1 member
    have shorter := shallow c.1 c.2 lineage
    omega
  obtain ⟨more, rfl⟩ := Nat.exists_eq_add_of_le bound
  rw [levels_append, Nat.zero_add, levels_eq_nil empty, List.append_nil]

end Forest

end ForestQuery
