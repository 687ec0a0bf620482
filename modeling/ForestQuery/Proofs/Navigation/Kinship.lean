import ForestQuery.Proofs.Navigation.Order
import ForestQuery.Proofs.Navigation.Rollup
/-!
What lies above and below a node of a traversal. Main statements: the rows above a node are those on the path of its
row; and where the rows have identifiers of their own, a row lies below another one exactly when that one lies above
it, and the rows below a row are the block behind it.
-/

namespace ForestQuery.Store

open Navigation

variable {s : Store} {relation : Relation} {config : Config} {q : Request} {t : Table} {rows : List TreeRow}

theorem ancestors_eq (answered : s.query q = .ok rows) (node : NodeId) (withSelf : Bool) :
    s.ancestors q node withSelf = .ok (ancestorsIn node withSelf rows) := by
  rw [ancestors, answered]
  rfl

theorem sampleRows_isCountable : (sampleTable sampleRows).IsCountable sampleRelation where
  rows := by decide
  texts := by decide_cbv

theorem sampleStore_answers : ∃ root child, (sampleStore sampleRows).query .empty = .ok [root, child] ∧
    root.id = .int 1 ∧ child.id = .int 2 ∧ root.path = [.int 1] ∧ child.path = [.int 1, .int 2] :=
  exists_pair_of_queryInPlace (by decide_cbv)

/-- Where the rows of a request are in the order of a depth-first walk, the ancestors of a node are rows of the request
in their order, the identifiers of which are the path of the row of the node, without the last one unless it is asked
for; and there are none where the node has no row. Where rows have identifiers of their own, these are all rows whose
identifiers are on the path. -/
theorem ancestors_on_path (answered : s.query q = .ok rows) (walk : TreeRow.Walk [] rows) (node : NodeId)
    (withSelf : Bool) :
    ∃ found, s.ancestors q node withSelf = .ok found ∧ ((∀ r ∈ rows, r.id ≠ node) → found = []) ∧
      ((∃ r ∈ rows, r.id = node) → ∃ line r, (line ++ [r]).Sublist rows ∧ r.id = node ∧
        (line ++ [r]).map TreeRow.id = r.path ∧ found = if withSelf then line ++ [r] else line) ∧
      ((rows.map TreeRow.id).Nodup → ∀ r ∈ rows, r.id = node →
        found = rows.filter fun p => r.path.contains p.id && (withSelf || p.id != node)) := by
  refine ⟨_, ancestors_eq answered node withSelf, ancestorsIn_of_not_mem walk, ?_, ?_⟩
  · rintro ⟨r, member, rfl⟩
    obtain ⟨line, x, sublist, same, ids, found⟩ := exists_line withSelf walk member
    refine ⟨line, x, sublist, same, ids, ?_⟩
    rw [found]
    cases withSelf with
    | true => rfl
    | false => exact List.append_nil line
  · rintro distinct r member rfl
    exact ancestorsIn_of_mem walk distinct member

theorem ancestors_on_path_sample : ∃ root child, (sampleStore sampleRows).query .empty = .ok [root, child] ∧
    TreeRow.Walk [] [root, child] ∧ (sampleStore sampleRows).ancestors .empty (.int 2) true = .ok [root, child] ∧
    (sampleStore sampleRows).ancestors .empty (.int 2) false = .ok [root] := by
  obtain ⟨root, child, answered, id, id', -, path'⟩ := sampleStore_answers
  have distinct : ([root, child].map TreeRow.id).Nodup := by simp [id, id']
  have walk := (isPreorder_of_distinct (isOpen_of_new (sampleStore_opened sampleRows)) (by decide_cbv)
    sampleRows_isCountable answered distinct).walk
  refine ⟨root, child, answered, walk, ?_, ?_⟩
  · obtain ⟨found, above, -, -, onPath⟩ := ancestors_on_path answered walk (.int 2) true
    rw [above, onPath distinct child (by simp) id', path']
    simp [id, id']
  · obtain ⟨found, above, -, -, onPath⟩ := ancestors_on_path answered walk (.int 2) false
    rw [above, onPath distinct child (by simp) id', path']
    simp [id, id']

end ForestQuery.Store
