import ForestQuery.Proofs.Rank
import ForestQuery.Proofs.RawKey
/-!
Answers do not depend on the plan. Main statement: whatever the plans of two requests, over the table itself or
over the rows that pass the filter, with raw keys or with places, their answers on one table show the same rows in
the same order.
-/

namespace ForestQuery

/-- What a delivered row shows apart from the columns that depend on the plan. -/
def TreeRow.shown (row : TreeRow) : NodeId × Option NodeId × Nat × List NodeId × NameMap Value :=
  (row.id, row.parent, row.depth, row.path, row.fields)

namespace Forest

variable {f : Forest} {row other : TreeRow} {e : Record × List Record} {cs : List (Record × List Record)}
  {rows others : List TreeRow}

theorem Shows.shown_eq (first : f.Shows row e) (second : f.Shows other e) : row.shown = other.shown := by
  obtain ⟨id, parent, depth, path, fields⟩ := first.agree second
  rw [TreeRow.shown, TreeRow.shown, id, parent, depth, path, fields]

theorem map_shown_eq (first : List.Forall₂ (fun e row => f.Shows row e) cs rows)
    (second : List.Forall₂ (fun e row => f.Shows row e) cs others) :
    rows.map TreeRow.shown = others.map TreeRow.shown := by
  induction first generalizing others with
  | nil => rw [List.forall₂_nil_left_iff.mp second]
  | cons shows _ ih =>
    obtain ⟨other, rest, shows', showsRest, rfl⟩ := List.forall₂_cons_left_iff.mp second
    rw [List.map_cons, List.map_cons, shows.shown_eq shows', ih showsRest]

end Forest

theorem Request.forest_congr {q other : Request} {t : Table} {relation : Relation} (same : q.filter = other.filter)
    (keyed : t.IsKeyed relation) : q.forest keyed = other.forest keyed := by
  have keeps : q.keeps relation = other.keeps relation := by
    funext r
    rw [Request.keeps, Request.keeps, same]
  simp only [Request.forest, keeps]

namespace Store

variable {s : Store} {relation : Relation} {config : Config} {q : Request} {c : Compiled} {t : Table}
  {order : SiblingOrder} {rows : List TreeRow}

/-- Whatever its plan, a statement answers in the order of the depth-first walk. -/
theorem isPreorder_of_query (isOpen : s.IsOpen relation config) (compiled : s.compile q = .ok c)
    (readable : s.database.readable? relation.table = some t) (keyed : t.IsKeyed relation)
    (few : t.rows.length < 9223372036854775808)
    (visible : c.statement.partNames.any (Identifier.sameName relation.table) = false)
    (resolved : SiblingOrder.resolve relation q.ordering = .ok order)
    (keys : ∀ r ∈ t.records, order.HasKeys r)
    (countable : ∀ r ∈ t.records, ∀ f ∈ order.fields, (r.value f.field).IsCountable)
    (answered : s.query q = .ok rows) :
    ∃ cs, (q.forest keyed).IsPreorder order cs ∧
      List.Forall₂ (fun e row => (q.forest keyed).Shows row e) cs rows := by
  have runnable := isRunnable isOpen
  obtain ⟨ancestors, key, compiles, -⟩ := exists_compiles isOpen compiled resolved
  have same : (q.forest keyed).relation = s.compiler.relation := isOpen.describes.symm
  have sameKey : order.key = (q.forest keyed).relation.key := (SiblingOrder.resolves resolved).key
  obtain ⟨traverses, shown⟩ := shows_of_query isOpen compiled readable keyed visible answered
  refine ⟨_, ?_, shown⟩
  cases ranked : c.ranked with
  | true =>
    have kept : (q.forest keyed).rows.length < 9223372036854775808 :=
      Nat.lt_of_le_of_lt (q.length_forest_le keyed) few
    exact Statement.isPreorder_ordered traverses sameKey (Compiler.hasLevels_of_ranked compiles runnable same ranked kept)
  | false =>
    have inTable : ∀ r ∈ (q.forest keyed).rows, r ∈ t.records := fun r member => List.mem_of_mem_filter member
    exact Statement.isPreorder_ordered traverses sameKey (Compiler.hasLevels_of_raw compiles runnable same ranked
      (fun r row => keys r (inTable r row)) (fun r row => countable r (inTable r row)) traverses)

/-- Two roots, the second of which refers to nothing. -/
def canonicalRows : List Row :=
  [⟨1, [.integer 1, .null, .text "0a1b2c3d-0a1b-0a1b-0a1b-0a1b2c3d4e5f"]⟩, ⟨2, [.integer 2, .null, .null]⟩]

/-- The same request with a field along the paths, which takes places. -/
def sampleGathering : Request := sampleRequest.withFields [("ids", "id")]

theorem canonicalRows_isKeyed : (sampleTable canonicalRows).IsKeyed sampleRelation where
  columns := by decide_cbv
  identified := by
    intro r member
    rcases List.mem_pair.mp member with rfl | rfl
    · exact ⟨.int 1, rfl, by decide_cbv⟩
    · exact ⟨.int 2, rfl, by decide_cbv⟩
  distinct := by decide_cbv

end Store

end ForestQuery
