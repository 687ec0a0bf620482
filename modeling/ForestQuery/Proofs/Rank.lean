import ForestQuery.Proofs.Preorder
import ForestQuery.Proofs.Query
import ForestQuery.Proofs.Segment.Order
import Mathlib
/-!
The places of rows among their siblings. Main statement: where siblings are numbered, an answer stands in the
order of the depth-first walk, siblings in their order, and the ordering of a row gives the place of each row
on its path among the siblings of that one, counted from one.
-/

namespace ForestQuery

namespace Statement

variable {s : Statement} {f : Forest} {o : SiblingOrder} {r p : Record} {filter : Clauses} {source : String}

theorem effectiveParentOf_of_none (same : f.relation = s.relation) (top : f.parent? r = none) :
    s.effectiveParentOf f.rows r = .null := by
  rw [effectiveParentOf, if_neg]
  intro found
  exact (any_isKeyOf_iff same r).mp found top

theorem effectiveParentOf_of_some (same : f.relation = s.relation) (parent : f.parent? r = some p) :
    p ∈ f.rows ∧ Value.same (f.keyOf p) (s.effectiveParentOf f.rows r) = true := by
  have found := (any_isKeyOf_iff same r).mpr (by rw [parent]; exact Option.some_ne_none p)
  rw [effectiveParentOf, if_pos found, parentOf_eq same]
  exact Forest.parent?_eq_some_iff.mp parent

/-- Rows have the same parent within the scope when they lie below the same row, or both on top. -/
theorem same_effectiveParentOf_iff (same : f.relation = s.relation) :
    Value.same (s.effectiveParentOf f.rows p) (s.effectiveParentOf f.rows r) = true ↔ f.parent? p = f.parent? r := by
  have apart : ∀ {a b : Record}, f.parent? a = none → f.parent? b ≠ none →
      ¬ Value.same (s.effectiveParentOf f.rows b) (s.effectiveParentOf f.rows a) = true := by
    intro a b top below equal
    obtain ⟨x, parent⟩ := Option.ne_none_iff_exists'.mp below
    obtain ⟨row, key⟩ := effectiveParentOf_of_some same parent
    have absent := isNull_of_same row (Value.same_trans key equal)
    rw [effectiveParentOf_of_none same top] at absent
    cases absent
  cases first : f.parent? p with
  | none =>
    cases second : f.parent? r with
    | none =>
      rw [effectiveParentOf_of_none same first, effectiveParentOf_of_none same second]
      exact iff_of_true (Value.same_self _) rfl
    | some y =>
      refine iff_of_false (fun equal => ?_) (by simp)
      exact apart first (by rw [second]; exact Option.some_ne_none y) (Value.same_symm equal)
  | some x =>
    cases second : f.parent? r with
    | none =>
      refine iff_of_false (fun equal => ?_) (by simp)
      exact apart second (by rw [first]; exact Option.some_ne_none x) equal
    | some y =>
      obtain ⟨row, key⟩ := effectiveParentOf_of_some same first
      obtain ⟨row', key'⟩ := effectiveParentOf_of_some same second
      constructor
      · intro equal
        exact congrArg some (Forest.eq_of_same row row'
          (Value.same_trans (Value.same_trans key equal) (Value.same_symm key')))
      · intro equal
        cases equal
        exact Value.same_trans (Value.same_symm key) key'

/-- The number that a row is given is its place among its siblings. -/
theorem rank_scopeRow (same : f.relation = s.relation) (keyed : o.key = f.relation.key)
    (scope : s.scope = .filtered filter (some (o.rankTerms source))) (row : r ∈ f.rows) :
    (s.scopeRow f.rows r).rank = .ofCount (f.position o r) := by
  have present : ∀ {p : Record}, p ∈ f.rows → (p.value o.key).isNull = false := by
    intro p inRows
    rw [keyed]
    exact Forest.isNull_keyOf inRows
  have before : ∀ p ∈ f.rows,
      (Value.same (s.effectiveParentOf f.rows p) (s.effectiveParentOf f.rows r) &&
        SortTerm.compareAll p r (o.rankTerms source) == .lt)
      = (o.compare p r == .lt && decide (f.parent? p = f.parent? r)) := by
    intro p inRows
    rw [SiblingOrder.compareAll_rankTerms source (present inRows) (present row), Bool.and_comm, Bool.eq_iff_iff,
      Bool.and_eq_true, Bool.and_eq_true, same_effectiveParentOf_iff same, decide_eq_true_eq]
  have counted : ((s.withParents f.rows).filter fun other =>
      Value.same other.parent (s.effectiveParentOf f.rows r) &&
        SortTerm.compareAll other.record r (o.rankTerms source) == .lt).length
      = (f.siblings o (f.parent? r)).idxOf r := by
    rw [withParents, List.filter_map, List.length_map,
      ← length_filter_lt (Forest.pairwise_siblings keyed _) (Forest.mem_siblings_iff.mpr ⟨row, rfl⟩), Forest.siblings,
      ((List.mergeSort_perm _ _).filter _).length_eq, List.filter_filter]
    exact congrArg List.length (List.filter_congr before)
  simp only [scopeRow, scope, rankIn, counted, Forest.position]

end Statement

namespace Forest

variable {f : Forest} {o : SiblingOrder} {r p : Record} {as bs : List Record}

theorem position_le (row : r ∈ f.rows) : f.position o r ≤ f.rows.length := by
  have place : (f.siblings o (f.parent? r)).idxOf r < (f.siblings o (f.parent? r)).length :=
    List.idxOf_lt_length_iff.mpr (mem_siblings_iff.mpr ⟨row, rfl⟩)
  have count : (f.siblings o (f.parent? r)).length ≤ f.rows.length := by
    rw [siblings, (List.mergeSort_perm _ _).length_eq]
    exact List.length_filter_le _ _
  rw [position]
  omega

/-- The places of siblings are all numbers from one up to their number. -/
theorem map_position_siblings (f : Forest) (o : SiblingOrder) (above : Option Record) :
    (f.siblings o above).map (f.position o) = List.range' 1 (f.siblings o above).length := by
  rw [← map_idxOf_add_one (f.nodup_siblings o above)]
  refine List.map_congr_left fun r sibling => ?_
  rw [position, (mem_siblings_iff.mp sibling).2]

/-- A sibling in front has a lesser place. -/
theorem position_lt (keyed : o.key = f.relation.key) (first : r ∈ f.rows) (second : p ∈ f.rows)
    (parent : f.parent? r = f.parent? p) (less : o.compare r p = .lt) : f.position o r < f.position o p := by
  rw [position, position, parent]
  exact Nat.succ_lt_succ (idxOf_lt_of_compare (pairwise_siblings keyed _) (mem_siblings_iff.mpr ⟨first, parent⟩)
    (mem_siblings_iff.mpr ⟨second, rfl⟩) less)

/-- The level of a place. -/
def placeLevel (f : Forest) (o : SiblingOrder) (r : Record) : List Char :=
  Segment.encodeInteger (Int64.ofInt (f.position o r))

theorem toInt_position (countable : f.rows.length < 9223372036854775808) (row : r ∈ f.rows) :
    (Int64.ofInt (f.position o r)).toInt = f.position o r := by
  have bound := position_le (o := o) row
  exact Int64.toInt_ofInt_of_le (by omega) (by omega)

theorem hasCodes_placeLevel (keyed : o.key = f.relation.key) (countable : f.rows.length < 9223372036854775808) :
    f.HasCodes o (fun r => Text.codes (f.placeLevel o r)) SegmentKind.integerWidth where
  positive := by decide
  whole := by
    intro r as _
    rw [Text.length_codes, placeLevel, Segment.length_encodeInteger]
  increasing := by
    intro r p as bs first second parent less
    have places := position_lt keyed first.mem second.mem parent less
    rw [placeLevel, placeLevel, Segment.compare_encodeInteger, toInt_position countable first.mem,
      toInt_position countable second.mem, Int.compare_eq_lt]
    omega

end Forest

namespace Compiler

variable {k : Compiler} {q : Request} {c : Compiled} {order : SiblingOrder} {ancestors : List AncestorField}
  {key : KeySource} {f : Forest} {r : Record} {as : List Record}

/-- The places are what the levels of the ordering are made of. -/
theorem levelValues_of_ranked (compiles : k.Compiles q c order ancestors key) (same : f.relation = k.relation)
    (ranked : c.ranked = true) (countable : f.rows.length < 9223372036854775808) (row : r ∈ f.rows) :
    c.levelValues order f.rows r = [.integer (Int64.ofInt (f.position order r))] := by
  obtain ⟨filter, scope⟩ := scope_of_ranked compiles ranked
  have resolves := SiblingOrder.resolves compiles.resolved
  have bound := Forest.position_le (o := order) row
  rw [Compiled.levelValues, if_pos ranked, Statement.rank_scopeRow (same.trans compiles.relation.symm)
    (resolves.key.trans (congrArg Relation.key same.symm)) scope row, Value.ofCount_of_lt (by omega)]

theorem encodeLevel_of_ranked (compiles : k.Compiles q c order ancestors key) (runnable : k.IsRunnable)
    (same : f.relation = k.relation) (ranked : c.ranked = true) (countable : f.rows.length < 9223372036854775808)
    (row : r ∈ f.rows) :
    Column.encodeLevel key.kinds (c.levelValues order f.rows r) = .ok (f.placeLevel order r) := by
  rcases key_cases compiles runnable with ⟨-, rfl⟩ | ⟨unranked, -⟩
  · rw [levelValues_of_ranked compiles same ranked countable row]
    exact Column.encodeLevel_single .integer _
  · rw [ranked] at unranked
    cases unranked

/-- Where siblings are numbered, the ordering is made of their places. -/
theorem ordering_of_ranked (compiles : k.Compiles q c order ancestors key) (runnable : k.IsRunnable)
    (same : f.relation = k.relation) (ranked : c.ranked = true) (countable : f.rows.length < 9223372036854775808)
    (lineage : f.Lineage r as) :
    (c.statement.nodeAt f.rows r as).ordering = .ofChars ((Forest.pathTo r as).flatMap (f.placeLevel order)) := by
  refine ordering_eq compiles runnable same lineage (fun unranked => ?_) fun p onPath =>
    encodeLevel_of_ranked compiles runnable same ranked countable (lineage.mem_pathTo onPath)
  rw [ranked] at unranked
  cases unranked

theorem hasLevels_of_ranked (compiles : k.Compiles q c order ancestors key) (runnable : k.IsRunnable)
    (same : f.relation = k.relation) (ranked : c.ranked = true) (countable : f.rows.length < 9223372036854775808) :
    c.statement.HasLevels f order (f.placeLevel order) SegmentKind.integerWidth where
  ascii := fun r as _ c member => (Segment.ascii_of_mem_encodeInteger member).2
  codes := by
    have resolves := SiblingOrder.resolves compiles.resolved
    exact Forest.hasCodes_placeLevel (resolves.key.trans (congrArg Relation.key same.symm)) countable
  ordering := fun r as lineage => ordering_of_ranked compiles runnable same ranked countable lineage

/-- The places that a row is read with. -/
theorem places_of_decode {raw : RawRow} {row : TreeRow} (compiles : k.Compiles q c order ancestors key)
    (runnable : k.IsRunnable) (same : f.relation = k.relation) (ranked : c.ranked = true)
    (countable : f.rows.length < 9223372036854775808) (lineage : f.Lineage r as)
    (columns : c.statement.rawRow? (c.statement.nodeAt f.rows r as) = some raw) (decoded : c.decode raw = .ok row) :
    row.ordering = (Forest.pathTo r as).map fun p => .integer (Int64.ofInt (f.position order p)) := by
  obtain ⟨_, _, _, -, orderingOk, -, rfl⟩ := Statement.rawRow?_eq_some_iff.mp columns
  rw [ordering_of_ranked compiles runnable same ranked countable lineage, Statement.encodedColumn?_ofChars] at orderingOk
  cases orderingOk
  rw [Compiled.decode, compiles.layout, encoding_eq compiles runnable, Layout.decode_eq_ok_iff] at decoded
  have read := decoded.ordering
  have kinds : key.kinds = [.integer] := by
    rcases key_cases compiles runnable with ⟨-, rfl⟩ | ⟨unranked, -⟩
    · rfl
    · rw [ranked] at unranked
      cases unranked
  have levels : Column.encodeLevels [.integer] (((Forest.pathTo r as).map fun p =>
      Value.integer (Int64.ofInt (f.position order p))).map ([·])) = .ok ((Forest.pathTo r as).flatMap (f.placeLevel order)) := by
    rw [List.map_map]
    exact Column.encodeLevels_map fun p _ => Column.encodeLevel_single .integer _
  have bounded : SegmentKind.integer.IsBounded := trivial
  have back := Column.decode_encodeLevels_single bounded (by simp [Forest.pathTo]) (fun _ _ => trivial) levels
  change (Column.encoded _).decode false key.kinds = .ok row.ordering at read
  rw [kinds, back] at read
  exact (Except.ok.inj read).symm

end Compiler

/-- Whether a value is the number of some items. -/
def Value.IsCount (v : Value) (n : Nat) : Prop := ∃ i : Int64, v = .integer i ∧ i.toInt = n

namespace Store

variable {s : Store} {relation : Relation} {config : Config} {q : Request} {c : Compiled} {t : Table}
  {order : SiblingOrder} {rows : List TreeRow}

/-- Siblings against the order of what they refer to, which takes places. -/
def sampleRanking : Request := { Request.empty with ordering := [⟨"ref", .descending⟩] }

end Store

end ForestQuery
