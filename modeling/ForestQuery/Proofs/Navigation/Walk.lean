import ForestQuery.Navigation
import Mathlib.Data.List.Nodup
/-!
The rows of a traversal as a walk over a forest: each row is followed by the rows below it, then by its next
sibling, and its depth and its path tell which rows stand above it. Main statement: in such a walk the rows that
are kept while the rows go by are those on the path of the last one, so that the search for the rows above a node
finds the rows on its path.
-/

namespace ForestQuery

namespace TreeRow

variable {above rows : List TreeRow} {r : TreeRow}

/-- Rows below the rows `above`, which are given from the root on: a row, all rows below it, and then what comes after
it. The depth of a row is the number of rows above it, and its path goes through these. -/
inductive Walk : List TreeRow → List TreeRow → Prop where
  | done {above : List TreeRow} : Walk above []
  | visit {above : List TreeRow} {r : TreeRow} {below later : List TreeRow} (depth : r.depth = above.length)
      (path : r.path = above.map TreeRow.id ++ [r.id]) (subtree : Walk (above ++ [r]) below)
      (next : Walk above later) : Walk above (r :: (below ++ later))

/-- Rows in the order of a depth-first walk over a forest, each row once. -/
structure IsPreorder (rows : List TreeRow) : Prop where
  walk : Walk [] rows
  distinct : (rows.map TreeRow.id).Nodup

/-- The rows below others lie deeper than these, and their paths begin with theirs. -/
theorem Walk.beneath (walk : Walk above rows) (member : r ∈ rows) :
    above.length ≤ r.depth ∧ above.map TreeRow.id <+: r.path := by
  induction walk with
  | done => cases member
  | @visit above x below later depth path _ _ ih ih' =>
    rcases List.mem_cons.mp member with rfl | behind
    · exact ⟨Nat.le_of_eq depth.symm, path ▸ List.prefix_append _ _⟩
    · rcases List.mem_append.mp behind with inside | outside
      · obtain ⟨deep, through⟩ := ih inside
        rw [List.length_append, List.length_singleton] at deep
        rw [List.map_append] at through
        exact ⟨by omega, (List.prefix_append _ _).trans through⟩
      · exact ih' outside

theorem Walk.deeper {x : TreeRow} (subtree : Walk (above ++ [x]) rows) (depth : x.depth = above.length)
    (path : x.path = above.map TreeRow.id ++ [x.id]) (member : r ∈ rows) : x.depth < r.depth ∧ x.path <+: r.path := by
  obtain ⟨deep, through⟩ := subtree.beneath member
  rw [List.length_append, List.length_singleton] at deep
  rw [List.map_append, List.map_singleton, ← path] at through
  exact ⟨by omega, through⟩

/-- A path goes through rows of the walk and through the rows above it. -/
theorem Walk.mem_path (walk : Walk above rows) (member : r ∈ rows) {node : NodeId} (onPath : node ∈ r.path) :
    node ∈ above.map TreeRow.id ∨ node ∈ rows.map TreeRow.id := by
  induction walk with
  | done => cases member
  | @visit above x below later _ path _ _ ih ih' =>
    simp only [List.map_cons, List.map_append, List.mem_cons, List.mem_append] at ih ih' ⊢
    rcases List.mem_cons.mp member with rfl | behind
    · rw [path, List.mem_append, List.mem_singleton] at onPath
      exact onPath.imp_right Or.inl
    · rcases List.mem_append.mp behind with inside | outside
      · rcases ih inside with (higher | here) | deeper
        · exact Or.inl higher
        · exact Or.inr (Or.inl (by simpa using here))
        · exact Or.inr (Or.inr (Or.inl deeper))
      · rcases ih' outside with higher | there
        · exact Or.inl higher
        · exact Or.inr (Or.inr (Or.inr there))

/-- The first row of a walk lies directly below the last one above it. -/
theorem Walk.depth_of_head? (walk : Walk above rows) (first : r ∈ rows.head?) : r.depth = above.length := by
  cases walk with
  | done => cases first
  | visit depth =>
    obtain rfl := Option.some.inj first
    exact depth

/-- A row of a walk comes with a block: the rows below it come next, up to one that lies no deeper, and the paths of
all other rows go around the block. -/
theorem Walk.exists_block (walk : Walk above rows) (member : r ∈ rows) :
    r.id ∈ r.path ∧ ∃ front below rest, rows = front ++ r :: (below ++ rest) ∧
      (∀ x ∈ below, r.depth < x.depth ∧ r.path <+: x.path) ∧ (∀ x ∈ rest.head?, x.depth ≤ r.depth) ∧
      ∀ x ∈ front ++ rest, ∀ node ∈ x.path, node ∈ (above ++ (front ++ rest)).map TreeRow.id := by
  induction walk with
  | done => cases member
  | @visit above x below later depth path subtree next ih ih' =>
    rcases List.mem_cons.mp member with rfl | behind
    · refine ⟨by simp [path], [], below, later, rfl, fun y inside => subtree.deeper depth path inside,
        fun y first => ?_, fun y outside node onPath => ?_⟩
      · exact Nat.le_of_eq ((next.depth_of_head? first).trans depth.symm)
      · rw [List.nil_append, List.map_append, List.mem_append]
        exact next.mem_path outside onPath
    rcases List.mem_append.mp behind with inside | outside
    · obtain ⟨self, front, below', rest, rfl, block, ends, around⟩ := ih inside
      refine ⟨self, x :: front, below', rest ++ later, by simp, block, fun y first => ?_, fun y found node onPath => ?_⟩
      · cases rest with
        | nil =>
          rw [next.depth_of_head? first, ← depth]
          exact Nat.le_of_lt (subtree.deeper depth path inside).1
        | cons z zs => exact ends y first
      · simp only [List.map_cons, List.map_append, List.mem_cons, List.mem_append, List.map_nil, List.cons_append,
          List.not_mem_nil, or_false] at found around ⊢
        rcases found with rfl | before | near | far
        · rw [path, List.mem_append, List.mem_singleton] at onPath
          grind
        · have places := around y (Or.inl before) node onPath
          grind
        · have places := around y (Or.inr near) node onPath
          grind
        · have places := next.mem_path far onPath
          grind
    · obtain ⟨self, front, below', rest, rfl, block, ends, around⟩ := ih' outside
      refine ⟨self, x :: (below ++ front), below', rest, by simp, block, ends, fun y found node onPath => ?_⟩
      simp only [List.map_cons, List.map_append, List.mem_cons, List.mem_append, List.cons_append,
        List.append_assoc] at found around ⊢
      rcases found with rfl | inside | found
      · rw [path, List.mem_append, List.mem_singleton] at onPath
        grind
      · have places := subtree.mem_path inside onPath
        simp only [List.map_append, List.map_cons, List.map_nil, List.mem_append, List.mem_singleton] at places
        grind
      · have places := around y found node onPath
        grind

end TreeRow

namespace Navigation

open TreeRow

variable {above chain rows : List TreeRow} {r : TreeRow} {node : NodeId} {withSelf : Bool}

/-- What the search for a node does with a walk below the rows that it has kept. Without the node it goes on with
these rows kept; else it ends with the rows on the path of the node. -/
theorem chainOf_append (node : NodeId) (withSelf : Bool) (walk : Walk above rows)
    (kept : chain.take above.length = above) :
    (∃ chain', chain'.take above.length = above ∧ (∀ r ∈ rows, r.id ≠ node) ∧
      ∀ rest, chainOf node withSelf chain (rows ++ rest) = chainOf node withSelf chain' rest) ∨
    ∃ r ∈ rows, r.id = node ∧ ∃ line : List TreeRow, (line ++ [r]).Sublist (above ++ rows) ∧
      r.path = line.map TreeRow.id ++ [r.id] ∧
      ∀ rest, chainOf node withSelf chain (rows ++ rest) = line ++ if withSelf then [r] else [] := by
  induction walk generalizing chain with
  | done => exact Or.inl ⟨chain, kept, by simp, fun rest => rfl⟩
  | @visit above x below later depth path subtree next ih ih' =>
    have step : ∀ rest, chainOf node withSelf chain (x :: (below ++ later) ++ rest) =
        if x.id = node then above ++ (if withSelf then [x] else [])
        else chainOf node withSelf (above ++ [x]) (below ++ (later ++ rest)) := by
      intro rest
      rw [List.cons_append, chainOf, depth, kept, List.append_assoc]
    by_cases here : x.id = node
    · refine Or.inr ⟨x, by simp, here, above, ?_, path, fun rest => by rw [step, if_pos here]⟩
      exact List.Sublist.append_left ((List.nil_sublist _).cons_cons x) above
    -- What was kept for the rows below is cut to the rows above when the walk goes on behind them.
    · have whole : (above ++ [x]).take (above ++ [x]).length = above ++ [x] := List.take_length
      rcases ih whole with
        ⟨chain', kept', none, goesOn⟩ | ⟨r, inside, found, line, sublist, onPath, ends⟩
      · have kept'' : chain'.take above.length = above := by
          have shorter := congrArg (List.take above.length) kept'
          rw [List.take_take, List.length_append, Nat.min_eq_left (Nat.le_add_right _ _),
            List.take_left] at shorter
          exact shorter
        rcases ih' kept'' with ⟨chain'', kept'', none', goesOn'⟩ | ⟨r, outside, found, line, sublist, onPath, ends⟩
        · refine Or.inl ⟨chain'', kept'', ?_, fun rest => by rw [step, if_neg here, goesOn, goesOn']⟩
          intro r member
          rcases List.mem_cons.mp member with rfl | behind
          · exact here
          · exact (List.mem_append.mp behind).elim (none r) (none' r)
        · refine Or.inr ⟨r, by simp [outside], found, line, sublist.trans ?_, onPath, fun rest => by
            rw [step, if_neg here, goesOn, ends]⟩
          exact List.Sublist.append_left ((List.sublist_append_right _ _).cons x) above
      · refine Or.inr ⟨r, by simp [inside], found, line, sublist.trans ?_, onPath, fun rest => by
          rw [step, if_neg here, ends]⟩
        rw [List.append_assoc, List.singleton_append]
        exact List.Sublist.append_left ((List.sublist_append_left _ _).cons_cons x) above

/-- Where rows have identifiers of their own, some of them in their order are those with these identifiers. -/
theorem filter_mem_ids {line : List TreeRow} (distinct : (rows.map TreeRow.id).Nodup) (sublist : line.Sublist rows) :
    rows.filter (fun p => decide (p.id ∈ line.map TreeRow.id)) = line := by
  induction sublist with
  | slnil => rfl
  | @cons line rows r sublist ih =>
    obtain ⟨new, distinct⟩ := List.nodup_cons.mp distinct
    have outside : r.id ∉ line.map TreeRow.id := fun inside => new ((sublist.map TreeRow.id).mem inside)
    rw [List.filter_cons_of_neg (by simpa using outside), ih distinct]
  | @cons_cons line rows r sublist ih =>
    obtain ⟨new, distinct⟩ := List.nodup_cons.mp distinct
    have others : ∀ p ∈ rows, decide (p.id ∈ (r :: line).map TreeRow.id) = decide (p.id ∈ line.map TreeRow.id) := by
      intro p member
      have apart : p.id ≠ r.id := fun same => new (same ▸ List.mem_map_of_mem member)
      simp [apart]
    rw [List.filter_cons_of_pos (by simp), List.filter_congr others, ih distinct]

/-- The search for a node of a walk ends at a row of the node, with one row for each identifier on its path. -/
theorem exists_line (withSelf : Bool) (walk : Walk [] rows) (member : r ∈ rows) :
    ∃ line x, (line ++ [x]).Sublist rows ∧ x.id = r.id ∧ (line ++ [x]).map TreeRow.id = x.path ∧
      ancestorsIn r.id withSelf rows = line ++ if withSelf then [x] else [] := by
  rcases chainOf_append r.id withSelf walk (List.take_nil) with
    ⟨-, -, none, -⟩ | ⟨x, -, same, line, sublist, onPath, ends⟩
  · exact absurd rfl (none r member)
  · refine ⟨line, x, sublist, same, by rw [List.map_append, onPath]; rfl, ?_⟩
    rw [ancestorsIn, ← List.append_nil rows, ends []]

theorem ancestorsIn_of_not_mem (walk : Walk [] rows) (none : ∀ r ∈ rows, r.id ≠ node) :
    ancestorsIn node withSelf rows = [] := by
  rcases chainOf_append node withSelf walk (List.take_nil) with ⟨chain, -, -, goesOn⟩ | ⟨r, found, same, -⟩
  · rw [ancestorsIn, ← List.append_nil rows, goesOn []]
    rfl
  · exact absurd same (none r found)

/-- Where rows have identifiers of their own, those that are found above a node are the ones on its path. -/
theorem ancestorsIn_of_mem (walk : Walk [] rows) (distinct : (rows.map TreeRow.id).Nodup) (member : r ∈ rows) :
    ancestorsIn r.id withSelf rows = rows.filter fun p => r.path.contains p.id && (withSelf || p.id != r.id) := by
  obtain ⟨line, x, sublist, same, ids, answer⟩ := exists_line withSelf walk member
  obtain rfl : x = r := List.inj_on_of_nodup_map distinct (sublist.mem (by simp)) member same
  rw [answer]
  cases withSelf with
  | true =>
    rw [if_pos rfl, ← filter_mem_ids distinct sublist, ids]
    exact List.filter_congr fun p _ => by simp
  | false =>
    have apart : x.id ∉ line.map TreeRow.id := by
      have once := (sublist.map TreeRow.id).nodup distinct
      rw [List.map_append, List.nodup_append] at once
      exact fun inside => once.2.2 x.id inside x.id (by simp) rfl
    rw [if_neg (by decide), List.append_nil, ← filter_mem_ids distinct ((List.sublist_append_left _ _).trans sublist)]
    refine List.filter_congr fun p _ => ?_
    rw [← ids, List.map_append]
    by_cases here : p.id = x.id
    · simp [here, apart]
    · simp [here]

end Navigation

namespace TreeRow

variable {rows : List TreeRow} {x y : TreeRow}

theorem Walk.length_path {above : List TreeRow} (walk : Walk above rows) (member : x ∈ rows) :
    x.path.length = x.depth + 1 := by
  induction walk with
  | done => cases member
  | visit depth path _ _ ih ih' =>
    rcases List.mem_cons.mp member with rfl | behind
    · rw [path, depth, List.length_append, List.length_map, List.length_singleton]
    · exact (List.mem_append.mp behind).elim ih ih'

/-- The block of a row: the rows below it come next, up to one that lies no deeper, and no other path goes through
it. -/
theorem IsPreorder.exists_block (preorder : IsPreorder rows) (member : x ∈ rows) :
    ∃ front below rest, rows = front ++ x :: (below ++ rest) ∧ (∀ y ∈ below, x.depth < y.depth) ∧
      (∀ y ∈ rest.head?, y.depth ≤ x.depth) ∧ (∀ y ∈ x :: below, x.id ∈ y.path ∧ x.path <+: y.path) ∧
      ∀ y ∈ front ++ rest, x.id ∉ y.path := by
  obtain ⟨self, front, below, rest, rfl, block, ends, around⟩ := preorder.walk.exists_block member
  refine ⟨front, below, rest, rfl, fun y inside => (block y inside).1, ends, ?_, fun y outside onPath => ?_⟩
  · refine List.forall_mem_cons.mpr ⟨⟨self, List.prefix_refl _⟩, fun y inside => ?_⟩
    exact ⟨(block y inside).2.subset self, (block y inside).2⟩
  · have distinct := preorder.distinct
    have elsewhere := around y outside x.id onPath
    simp only [List.map_append, List.map_cons, List.nil_append, List.nodup_append, List.nodup_cons, List.mem_append,
      List.mem_cons, not_or] at distinct elsewhere
    rcases elsewhere with before | after
    · exact distinct.2.2 x.id before x.id (Or.inl rfl) rfl
    · exact distinct.2.1.1.2 after

/-- A path goes through a row exactly when it begins with the path of the row. -/
theorem IsPreorder.mem_path_iff (preorder : IsPreorder rows) (member : x ∈ rows) (member' : y ∈ rows) :
    x.id ∈ y.path ↔ x.path <+: y.path := by
  obtain ⟨front, below, rest, rfl, -, -, block, around⟩ := preorder.exists_block member
  have self := (block x List.mem_cons_self).1
  refine ⟨fun onPath => ?_, fun begins => begins.subset self⟩
  rw [List.mem_append, List.mem_cons, List.mem_append] at member'
  rcases member' with before | rfl | inside | after
  · exact absurd onPath (around y (List.mem_append_left _ before))
  · exact List.prefix_refl _
  · exact (block y (List.mem_cons_of_mem _ inside)).2
  · exact absurd onPath (around y (List.mem_append_right _ after))

/-- A row is above another one exactly when the path of that one goes through it, and it is not that row. -/
theorem IsPreorder.isAncestorOf_iff (preorder : IsPreorder rows) (member : x ∈ rows) (member' : y ∈ rows) :
    x.isAncestorOf y = true ↔ x.id ∈ y.path ∧ y.id ≠ x.id := by
  rw [isAncestorOf, Bool.and_eq_true, decide_eq_true_eq, List.isPrefixOf_iff_prefix, preorder.mem_path_iff member member']
  constructor
  · rintro ⟨shorter, begins⟩
    refine ⟨begins, fun same => ?_⟩
    rw [List.inj_on_of_nodup_map preorder.distinct member' member same] at shorter
    exact Nat.lt_irrefl _ shorter
  · rintro ⟨begins, other⟩
    refine ⟨?_, begins⟩
    have onPath := (preorder.mem_path_iff member member').mpr begins
    rw [preorder.walk.length_path member, preorder.walk.length_path member']
    obtain ⟨front, below, rest, rfl, deeper, -, -, around⟩ := preorder.exists_block member
    rw [List.mem_append, List.mem_cons, List.mem_append] at member'
    rcases member' with before | rfl | inside | after
    · exact absurd onPath (around y (List.mem_append_left _ before))
    · exact absurd rfl other
    · exact Nat.succ_lt_succ (deeper y inside)
    · exact absurd onPath (around y (List.mem_append_right _ after))

end TreeRow

namespace Navigation

open TreeRow

variable {rows : List TreeRow} {x : TreeRow} {node : NodeId} {withSelf : Bool}

/-- What lies below a row is the block behind it, up to the first row that lies no deeper. -/
theorem exists_descendantsIn (preorder : IsPreorder rows) (member : x ∈ rows) :
    ∃ front later, rows = front ++ x :: later ∧
      descendantsIn x.id true rows = x :: later.takeWhile fun y => x.depth < y.depth := by
  obtain ⟨front, below, rest, rfl, deeper, ends, block, around⟩ := preorder.exists_block member
  refine ⟨front, below ++ rest, rfl, ?_⟩
  have outside : ∀ ys : List TreeRow, (∀ y ∈ ys, y ∈ front ++ rest) →
      ys.filter (fun y => y.path.contains x.id && (true || y.id != x.id)) = [] := fun ys others =>
    List.filter_eq_nil_iff.mpr fun y found => by simpa using around y (others y found)
  have inside : (x :: below).filter (fun y => y.path.contains x.id && (true || y.id != x.id)) = x :: below :=
    List.filter_eq_self.mpr fun y found => by simpa using (block y found).1
  have last : rest.takeWhile (fun y => x.depth < y.depth) = [] := by
    cases rest with
    | nil => rfl
    | cons y ys => exact List.takeWhile_cons_of_neg (by simpa using ends y rfl)
  rw [descendantsIn, List.filter_append, ← List.cons_append, List.filter_append, inside,
    outside front fun y => List.mem_append_left _, outside rest fun y => List.mem_append_right _, List.nil_append,
    List.append_nil, List.takeWhile_append_of_pos fun y found => decide_eq_true (deeper y found), last, List.append_nil]

theorem descendantsIn_of_not_mem (walk : Walk [] rows) (none : ∀ r ∈ rows, r.id ≠ node) :
    descendantsIn node withSelf rows = [] := by
  refine List.filter_eq_nil_iff.mpr fun y member kept => ?_
  rw [Bool.and_eq_true, List.contains_iff_mem] at kept
  rcases walk.mem_path member kept.1 with above | inRows
  · cases above
  · obtain ⟨r, found, same⟩ := List.mem_map.mp inRows
    exact none r found same

end Navigation

end ForestQuery
