import ForestQuery.Proofs.Encoding
import ForestQuery.Proofs.Forest
import ForestQuery.Proofs.Node
/-!
Which nodes a statement reaches. Main statements: the nodes are those of the levels of the forest of the
rows that take part, each computed along its lineage; and a node has a value exactly when every row of its
lineage can be written and the depth limit leaves room for it.
-/

namespace ForestQuery.Statement

variable {s : Statement} {f : Forest} {r p : Record} {as : List Record}

/-- A row of the scope with its parent and its place. -/
def scopeRow (s : Statement) (rows : List Record) (r : Record) : ScopeRow :=
  match s.scope with
  | .table => ⟨r, s.parentOf r, .null⟩
  | .filtered _ none => ⟨r, s.effectiveParentOf rows r, .null⟩
  | .filtered _ (some terms) =>
    ⟨r, s.effectiveParentOf rows r, rankIn (s.withParents rows) terms ⟨r, s.effectiveParentOf rows r, .null⟩⟩

theorem record_scopeRow (s : Statement) (rows : List Record) (r : Record) : (s.scopeRow rows r).record = r := by
  unfold scopeRow
  split <;> rfl

theorem parent_scopeRow_of_table (table : s.scope = .table) (rows : List Record) (r : Record) :
    (s.scopeRow rows r).parent = s.parentOf r := by
  simp only [scopeRow, table]

theorem parent_scopeRow_of_filtered {filter : Clauses} {rank : Option (List SortTerm)}
    (filtered : s.scope = .filtered filter rank) (rows : List Record) (r : Record) :
    (s.scopeRow rows r).parent = s.effectiveParentOf rows r := by
  cases rank <;> simp only [scopeRow, filtered]

theorem scopeRows_eq (s : Statement) (records : List Record) :
    s.scopeRows records = (s.kept records).map (s.scopeRow (s.kept records)) := by
  cases scope : s.scope with
  | table =>
    simp only [scopeRows, scope]
    exact List.map_congr_left fun r _ => by simp only [scopeRow, scope]
  | filtered filter rank =>
    cases rank with
    | none =>
      simp only [scopeRows, scope, withParents]
      exact List.map_congr_left fun r _ => by simp only [scopeRow, scope]
    | some terms =>
      simp only [scopeRows, scope, ranked, withParents, List.map_map]
      exact List.map_congr_left fun r _ => by simp only [scopeRow, scope, withParents, Function.comp]

/-- The forest of a statement: its relation, and the rows that take part. -/
def IsForest (s : Statement) (records : List Record) (f : Forest) : Prop :=
  f.relation = s.relation ∧ f.rows = s.kept records

theorem keyOf_eq (same : f.relation = s.relation) (r : Record) : s.keyOf r = f.keyOf r := by
  rw [keyOf, Forest.keyOf, same]

theorem parentOf_eq (same : f.relation = s.relation) (r : Record) : s.parentOf r = f.parentOf r := by
  rw [parentOf, Forest.parentOf, same]

theorem isNull_of_same {v : Value} (row : p ∈ f.rows) (same : Value.same (f.keyOf p) v = true) : v.isNull = false := by
  obtain ⟨id, -, key⟩ := f.identified p row
  rw [Forest.keyOf, key] at same
  cases v with
  | null => cases id <;> cases (Value.same_iff.mp same).1
  | integer | real | text | blob => rfl

theorem isKeyOf_eq (same : f.relation = s.relation) (row : p ∈ f.rows) (v : Value) :
    s.isKeyOf v p = Value.same (f.keyOf p) v := by
  rw [isKeyOf, keyOf_eq same]
  cases found : Value.same (f.keyOf p) v with
  | false => rw [Bool.and_false]
  | true => rw [isNull_of_same row found]; rfl

theorem any_isKeyOf_iff (same : f.relation = s.relation) (r : Record) :
    f.rows.any (s.isKeyOf (s.parentOf r)) = true ↔ f.parent? r ≠ none := by
  rw [List.any_eq_true, ne_eq, Forest.parent?_eq_none_iff, parentOf_eq same]
  constructor
  · rintro ⟨p, row, key⟩ none
    rw [isKeyOf_eq same row] at key
    exact none p row key
  · intro some
    by_contra no
    exact some fun p row key => no ⟨p, row, by rw [isKeyOf_eq same row]; exact key⟩

/-- The parent within the scope leads to the row that the row lies below. -/
theorem same_parent_scopeRow (same : f.relation = s.relation) (row : p ∈ f.rows) (r : Record) :
    (!(s.scopeRow f.rows r).parent.isNull && Value.same (s.scopeRow f.rows r).parent (f.keyOf p)) = true ↔
      f.parent? r = some p := by
  have stored : (!(s.parentOf r).isNull && Value.same (s.parentOf r) (f.keyOf p)) = true ↔ f.parent? r = some p := by
    rw [Forest.parent?_eq_some_iff, parentOf_eq same, Bool.and_eq_true]
    constructor
    · rintro ⟨-, key⟩
      exact ⟨row, Value.same_symm key⟩
    · rintro ⟨-, key⟩
      exact ⟨by rw [isNull_of_same row key]; rfl, Value.same_symm key⟩
  have effective : (!(s.effectiveParentOf f.rows r).isNull &&
      Value.same (s.effectiveParentOf f.rows r) (f.keyOf p)) = true ↔ f.parent? r = some p := by
    rw [effectiveParentOf]
    split
    · exact stored
    · rename_i no
      have top : f.parent? r = none := by
        by_contra some
        exact no ((any_isKeyOf_iff same r).mpr some)
      rw [top]
      simp [Value.isNull]
  cases scope : s.scope with
  | table =>
    rw [parent_scopeRow_of_table scope]
    exact stored
  | filtered filter rank =>
    rw [parent_scopeRow_of_filtered scope]
    exact effective

theorem isRoot_scopeRow (same : f.relation = s.relation) (r : Record) :
    s.isRoot (f.rows.map (s.scopeRow f.rows)) (s.scopeRow f.rows r) = decide (f.parent? r = none) := by
  have found := any_isKeyOf_iff (r := r) same
  have stored : (!f.rows.any (s.isKeyOf (s.parentOf r))) = decide (f.parent? r = none) := by
    rw [Bool.eq_iff_iff, Bool.not_eq_true', decide_eq_true_eq, ← Bool.not_eq_true, not_congr found, not_not]
  have effective : (s.effectiveParentOf f.rows r).isNull = decide (f.parent? r = none) := by
    rw [effectiveParentOf, ← stored]
    split
    · rename_i any
      obtain ⟨p, row, key⟩ := List.any_eq_true.mp any
      rw [isKeyOf_eq same row] at key
      rw [any, isNull_of_same row key]
      rfl
    · rename_i no
      rw [Bool.not_eq_true] at no
      rw [no]
      rfl
  cases scope : s.scope with
  | table =>
    simp only [isRoot, scope, List.any_map, Function.comp_def, record_scopeRow, parent_scopeRow_of_table scope]
    exact stored
  | filtered filter rank =>
    simp only [isRoot, scope]
    rw [parent_scopeRow_of_filtered scope, effective]

/-- The node of a row, computed from the root of its lineage down. -/
def nodeOf (s : Statement) (rows : List Record) (r : Record) : List Record → Except Raised Node
  | [] => s.rootNode (s.scopeRow rows r)
  | p :: as => do
    let n ← nodeOf s rows p as
    s.childNode n (s.scopeRow rows r)

/-- The nodes of rows with their lineages. -/
def nodesOf (s : Statement) (rows : List Record) (cs : List (Record × List Record)) : Except Raised (List Node) :=
  cs.mapM fun c => s.nodeOf rows c.1 c.2

theorem nodesOf_append (rows : List Record) (cs ds : List (Record × List Record)) :
    s.nodesOf rows (cs ++ ds) = do
      let front ← s.nodesOf rows cs
      let rest ← s.nodesOf rows ds
      return front ++ rest := by
  rw [nodesOf, List.mapM_append]
  rfl

theorem key_of_rootNode {row : ScopeRow} {n : Node} (made : s.rootNode row = .ok n) : n.key = s.keyOf row.record := by
  obtain ⟨path, ordering, ancestors, -, -, -, rfl⟩ := exists_texts_of_rootNode made
  rfl

theorem key_of_childNode {above n : Node} {row : ScopeRow} (made : s.childNode above row = .ok n) :
    n.key = s.keyOf row.record := by
  obtain ⟨path, ordering, ancestors, -, -, -, rfl⟩ := exists_texts_of_childNode made
  rfl

theorem key_of_nodeOf {rows : List Record} {n : Node} (made : s.nodeOf rows r as = .ok n) : n.key = s.keyOf r := by
  cases as with
  | nil =>
    have key := key_of_rootNode made
    rwa [record_scopeRow] at key
  | cons p as =>
    obtain ⟨above, -, made⟩ := Outcome.bind_eq_ok_iff.mp made
    have key := key_of_childNode made
    rwa [record_scopeRow] at key

/-- The rows found below a node are the children of its row. -/
theorem filter_isChild {n : Node} (same : f.relation = s.relation) (row : p ∈ f.rows) (key : n.key = s.keyOf p) :
    (f.rows.map (s.scopeRow f.rows)).filter (isChild n) = (f.children p).map (s.scopeRow f.rows) := by
  rw [List.filter_map, Forest.children]
  congr 1
  refine List.filter_congr fun r _ => ?_
  rw [Function.comp, isChild, key, keyOf_eq same, Bool.eq_iff_iff, same_parent_scopeRow same row, decide_eq_true_eq]

/-- One step of the recursion leads from the nodes of some rows to those of their children. -/
theorem nextLevel_eq {cs : List (Record × List Record)} {ns : List Node} (same : f.relation = s.relation)
    (rows : ∀ c ∈ cs, c.1 ∈ f.rows) (made : s.nodesOf f.rows cs = .ok ns) :
    s.nextLevel (f.rows.map (s.scopeRow f.rows)) ns
      = s.nodesOf f.rows (cs.flatMap fun c => (f.children c.1).map fun r => (r, c.1 :: c.2)) := by
  have each := Outcome.mapM_eq_ok_iff.mp made
  clear made
  induction each with
  | nil => rfl
  | @cons c n cs ns first _ ih =>
    have row := rows c (by simp)
    have below : ((f.rows.map (s.scopeRow f.rows)).filter (isChild n)).mapM (s.childNode n)
        = s.nodesOf f.rows ((f.children c.1).map fun r => (r, c.1 :: c.2)) := by
      rw [filter_isChild same row (key_of_nodeOf first), nodesOf, List.mapM_map, List.mapM_map]
      refine congrArg (fun g => (f.children c.1).mapM g) (funext fun r => ?_)
      rw [Function.comp, Function.comp, nodeOf, first]
      rfl
    rw [nextLevel, below, ih fun d hd => rows d (by simp [hd]), List.flatMap_cons, nodesOf_append]

theorem rows_of_level {n : Nat} {c : Record × List Record} (member : c ∈ f.level n) : c.1 ∈ f.rows :=
  (Forest.mem_level_iff.mp member).1.mem

theorem eq_nil_of_nodesOf {rows : List Record} {cs : List (Record × List Record)}
    (made : s.nodesOf rows cs = .ok []) : cs = [] :=
  List.forall₂_nil_right_iff.mp (Outcome.mapM_eq_ok_iff.mp made)

/-- From the nodes of one level the recursion reaches those of the levels behind it. -/
theorem levelsFrom_eq {n : Nat} {ns : List Node} (same : f.relation = s.relation) (limit : Nat)
    (made : s.nodesOf f.rows (f.level n) = .ok ns) :
    s.levelsFrom (f.rows.map (s.scopeRow f.rows)) limit ns = s.nodesOf f.rows (f.levels n (limit + 1)) := by
  induction limit generalizing n ns with
  | zero =>
    rw [levelsFrom, Forest.levels, Forest.levels, List.append_nil, made]
  | succ limit ih =>
    rw [levelsFrom]
    by_cases empty : ns = []
    · subst empty
      rw [Forest.levels_eq_nil (eq_nil_of_nodesOf made)]
      rfl
    · have next : s.nextLevel (f.rows.map (s.scopeRow f.rows)) ns = s.nodesOf f.rows (f.level (n + 1)) :=
        nextLevel_eq same (fun _ => rows_of_level) made
      rw [if_neg (by simpa using empty), next, Forest.levels, nodesOf_append, made]
      cases reached : s.nodesOf f.rows (f.level (n + 1)) with
      | error failure =>
        have failed : s.nodesOf f.rows (f.levels (n + 1) (limit + 1)) = .error failure := by
          rw [Forest.levels]
          exact Outcome.mapM_append_of_error reached
        rw [failed]
        rfl
      | ok nodes =>
        rw [← ih reached]
        rfl

/-- The nodes of a statement are those of the levels of its forest. -/
theorem nodes_eq {records : List Record} (forest : s.IsForest records f) :
    s.nodes records = s.nodesOf f.rows (f.levels 0 (s.encoding.maxDepth + 1)) := by
  obtain ⟨same, rows⟩ := forest
  have roots : ((f.rows.map (s.scopeRow f.rows)).filter (s.isRoot (f.rows.map (s.scopeRow f.rows)))).mapM s.rootNode
      = s.nodesOf f.rows (f.level 0) := by
    have top : (f.rows.map (s.scopeRow f.rows)).filter (s.isRoot (f.rows.map (s.scopeRow f.rows)))
        = f.roots.map (s.scopeRow f.rows) := by
      rw [List.filter_map, Forest.roots]
      congr 1
      exact List.filter_congr fun r _ => isRoot_scopeRow same r
    rw [top, Forest.level, nodesOf, List.mapM_map, List.mapM_map]
    rfl
  rw [nodes, scopeRows_eq, ← rows, roots]
  cases made : s.nodesOf f.rows (f.level 0) with
  | error failure =>
    rw [Forest.levels, nodesOf]
    exact (Outcome.mapM_append_of_error made).symm
  | ok ns => exact levelsFrom_eq same s.encoding.maxDepth made

/-- What an element adds for a row. -/
def elementText (s : Statement) (rows : List Record) (el : Element) (r : Record) : StoredText :=
  Outcome.getD (el.evalText s.encoding.dialect (s.scopeRow rows r).env) []

theorem elementText_eq {rows : List Record} {el : Element} {t : StoredText}
    (text : el.evalText s.encoding.dialect (s.scopeRow rows r).env = .ok t) : s.elementText rows el r = t :=
  (Outcome.eq_ok_iff_getD.mp text).2.symm

/-- What an element adds along a lineage, from the root down. -/
def chainText (s : Statement) (rows : List Record) (el : Element) (r : Record) (as : List Record) : StoredText :=
  (Forest.pathTo r as).flatMap (s.elementText rows el)

/-- Whether every element has a text for a row. -/
def CanWrite (s : Statement) (rows : List Record) (r : Record) : Prop :=
  (∃ t, s.path.evalText s.encoding.dialect (s.scopeRow rows r).env = .ok t) ∧
    (∃ t, s.ordering.evalText s.encoding.dialect (s.scopeRow rows r).env = .ok t) ∧
    ∀ a ∈ s.ancestors, ∃ t, a.2.evalText s.encoding.dialect (s.scopeRow rows r).env = .ok t

/-- The node of a row whose lineage can be written. -/
def nodeAt (s : Statement) (rows : List Record) (r : Record) (as : List Record) : Node where
  depth := as.length
  path := s.chainText rows s.path r as
  ordering := s.chainText rows s.ordering r as
  key := s.keyOf r
  ancestors := s.ancestors.map fun a => s.chainText rows a.2 r as
  record := r

theorem chainText_nil (rows : List Record) (el : Element) (r : Record) :
    s.chainText rows el r [] = s.elementText rows el r := by
  rw [chainText, Forest.pathTo, List.reverse_nil, List.nil_append, List.flatMap_singleton]

theorem chainText_cons (rows : List Record) (el : Element) (r p : Record) (as : List Record) :
    s.chainText rows el r (p :: as) = s.chainText rows el p as ++ s.elementText rows el r := by
  rw [chainText, chainText, Forest.pathTo, Forest.pathTo, List.reverse_cons, List.flatMap_append,
    List.flatMap_singleton]

theorem ancestorTexts_eq_ok_iff {rows : List Record} {ts : List StoredText} :
    s.ancestorTexts (s.scopeRow rows r).env = .ok ts ↔
      (∀ a ∈ s.ancestors, ∃ t, a.2.evalText s.encoding.dialect (s.scopeRow rows r).env = .ok t) ∧
        ts = s.ancestors.map fun a => s.elementText rows a.2 r :=
  Outcome.mapM_eq_ok_iff_getD

theorem rootNode_eq_ok_iff {rows : List Record} {n : Node} :
    s.rootNode (s.scopeRow rows r) = .ok n ↔ s.CanWrite rows r ∧ n = s.nodeAt rows r [] := by
  simp only [rootNode, Outcome.bind_eq_ok_iff, Outcome.pure_eq_ok_iff, ancestorTexts_eq_ok_iff, record_scopeRow,
    nodeAt, chainText_nil, List.length_nil]
  constructor
  · rintro ⟨path, pathOk, ordering, orderingOk, _, ⟨ancestors, rfl⟩, rfl⟩
    refine ⟨⟨⟨path, pathOk⟩, ⟨ordering, orderingOk⟩, ancestors⟩, ?_⟩
    rw [elementText_eq pathOk, elementText_eq orderingOk]
  · rintro ⟨⟨⟨path, pathOk⟩, ⟨ordering, orderingOk⟩, ancestors⟩, rfl⟩
    refine ⟨path, pathOk, ordering, orderingOk, _, ⟨ancestors, rfl⟩, ?_⟩
    rw [elementText_eq pathOk, elementText_eq orderingOk]

theorem checkDepth_eq_ok_iff {depth : Nat} {u : Unit} :
    s.checkDepth depth = .ok u ↔ (s.encoding.failsAtLimit = true → depth < s.encoding.maxDepth) := by
  rw [checkDepth]
  split
  · rename_i limit
    constructor
    · intro failed
      cases failed
    · intro room
      have below := room limit.1
      omega
  · rename_i free
    constructor
    · intro _ fails
      by_contra reached
      exact free ⟨fails, by omega⟩
    · intro _
      rfl

theorem childNode_eq_ok_iff {rows : List Record} {n : Node} :
    s.childNode (s.nodeAt rows p as) (s.scopeRow rows r) = .ok n ↔
      (s.encoding.failsAtLimit = true → as.length + 1 < s.encoding.maxDepth) ∧ s.CanWrite rows r ∧
        n = s.nodeAt rows r (p :: as) := by
  simp only [childNode, Outcome.bind_eq_ok_iff, Outcome.pure_eq_ok_iff, ancestorTexts_eq_ok_iff, record_scopeRow,
    nodeAt, chainText_cons, List.length_cons, checkDepth_eq_ok_iff]
  constructor
  · rintro ⟨-, room, path, pathOk, ordering, orderingOk, _, ⟨ancestors, rfl⟩, rfl⟩
    refine ⟨room, ⟨⟨path, pathOk⟩, ⟨ordering, orderingOk⟩, ancestors⟩, ?_⟩
    rw [elementText_eq pathOk, elementText_eq orderingOk, List.zip_map', List.map_map]
    rfl
  · rintro ⟨room, ⟨⟨path, pathOk⟩, ⟨ordering, orderingOk⟩, ancestors⟩, rfl⟩
    refine ⟨(), room, path, pathOk, ordering, orderingOk, _, ⟨ancestors, rfl⟩, ?_⟩
    rw [elementText_eq pathOk, elementText_eq orderingOk, List.zip_map', List.map_map]
    rfl

/-- A node has a value exactly when its lineage can be written and the depth limit leaves room for it. -/
theorem nodeOf_eq_ok_iff {rows : List Record} {n : Node} :
    s.nodeOf rows r as = .ok n ↔
      (∀ q ∈ r :: as, s.CanWrite rows q) ∧
        (as ≠ [] → s.encoding.failsAtLimit = true → as.length < s.encoding.maxDepth) ∧
        n = s.nodeAt rows r as := by
  induction as generalizing r n with
  | nil =>
    rw [nodeOf, rootNode_eq_ok_iff]
    simp
  | cons p as ih =>
    rw [nodeOf, Outcome.bind_eq_ok_iff]
    constructor
    · rintro ⟨above, aboveOk, made⟩
      obtain ⟨writable, -, rfl⟩ := ih.mp aboveOk
      obtain ⟨room, writes, rfl⟩ := childNode_eq_ok_iff.1 made
      exact ⟨List.forall_mem_cons.mpr ⟨writes, writable⟩, fun _ => room, rfl⟩
    · rintro ⟨writable, room, rfl⟩
      obtain ⟨writes, others⟩ := List.forall_mem_cons.mp writable
      have bound := room (List.cons_ne_nil p as)
      have above := ih.mpr ⟨others, fun _ fails => Nat.lt_of_succ_lt (bound fails), rfl⟩
      exact ⟨_, above, childNode_eq_ok_iff.2 ⟨bound, writes, rfl⟩⟩

/-- Whether every row with a lineage can be written, and lies above the depth limit. -/
def CanTraverse (s : Statement) (f : Forest) : Prop :=
  ∀ r as, f.Lineage r as → as.length < s.encoding.maxDepth ∧ s.CanWrite f.rows r

theorem CanTraverse.nodeOf_eq (traverses : s.CanTraverse f) (lineage : f.Lineage r as) :
    s.nodeOf f.rows r as = .ok (s.nodeAt f.rows r as) := by
  obtain ⟨room, writes⟩ := traverses r as lineage
  refine nodeOf_eq_ok_iff.2 ⟨List.forall_mem_cons.mpr ⟨writes, fun q above => ?_⟩, fun _ _ => room, rfl⟩
  obtain ⟨bs, lineageAbove⟩ := lineage.exists_of_mem above
  exact (traverses q bs lineageAbove).2

/-- Nodes of all rows down to the limit are made only where no row lies at the limit. -/
theorem canTraverse_of_nodeOf (fails : s.encoding.failsAtLimit = true) (positive : 0 < s.encoding.maxDepth)
    (made : ∀ c ∈ f.levels 0 (s.encoding.maxDepth + 1), ∃ n, s.nodeOf f.rows c.1 c.2 = .ok n) : s.CanTraverse f := by
  have each : ∀ c ∈ f.levels 0 (s.encoding.maxDepth + 1), c.2.length < s.encoding.maxDepth ∧ s.CanWrite f.rows c.1 := by
    intro c member
    obtain ⟨n, node⟩ := made c member
    obtain ⟨writable, room, -⟩ := nodeOf_eq_ok_iff.1 node
    refine ⟨?_, writable c.1 (by simp)⟩
    by_cases top : c.2 = []
    · rw [top]
      exact positive
    · exact room top fails
  -- A row at the limit would have been reached.
  have shallow : ∀ r as, f.Lineage r as → as.length < s.encoding.maxDepth := by
    intro r as lineage
    by_contra deep
    obtain ⟨q, bs, above, length⟩ := lineage.exists_of_le (Nat.not_lt.mp deep)
    have room : bs.length < s.encoding.maxDepth := (each (q, bs) (above.mem_levels (by omega))).1
    omega
  intro r as lineage
  have bound := shallow r as lineage
  exact ⟨bound, (each (r, as) (lineage.mem_levels (by omega))).2⟩

theorem nodes_eq_ok_iff {records : List Record} {ns : List Node} (forest : s.IsForest records f)
    (fails : s.encoding.failsAtLimit = true) (positive : 0 < s.encoding.maxDepth) :
    s.nodes records = .ok ns ↔
      s.CanTraverse f ∧ ns = (f.levels 0 (s.encoding.maxDepth + 1)).map fun c => s.nodeAt f.rows c.1 c.2 := by
  rw [nodes_eq forest, nodesOf, Outcome.mapM_eq_ok_iff]
  constructor
  · intro made
    refine ⟨canTraverse_of_nodeOf fails positive fun c member => ?_, ?_⟩
    · obtain ⟨n, -, node⟩ := Outcome.exists_of_mem_left made member
      exact ⟨n, node⟩
    · rw [← List.map_id ns]
      exact (Outcome.map_eq_map (made.imp fun c n node => (nodeOf_eq_ok_iff.1 node).2.2.symm)).symm
  · rintro ⟨traverses, rfl⟩
    refine List.forall₂_map_right_iff.mpr (List.forall₂_same.mpr fun c member => ?_)
    exact traverses.nodeOf_eq (Forest.mem_levels_iff.mp member).1

/-- The rows with a lineage, in the order of the result. -/
def ordered (s : Statement) (f : Forest) : List (Record × List Record) :=
  (f.levels 0 (s.encoding.maxDepth + 1)).mergeSort fun c d =>
    inOrder (s.nodeAt f.rows c.1 c.2) (s.nodeAt f.rows d.1 d.2)

/-- A statement returns a row for each row with a lineage, or fails. -/
theorem run_eq_ok_iff {records : List Record} {raws : List (Option RawRow)} (forest : s.IsForest records f)
    (fails : s.encoding.failsAtLimit = true) (positive : 0 < s.encoding.maxDepth) :
    s.run records = .ok raws ↔
      s.CanTraverse f ∧ raws = (s.ordered f).map fun c => s.rawRow? (s.nodeAt f.rows c.1 c.2) := by
  have sorted : ((f.levels 0 (s.encoding.maxDepth + 1)).map fun c => s.nodeAt f.rows c.1 c.2).mergeSort inOrder
      = (s.ordered f).map fun c => s.nodeAt f.rows c.1 c.2 := by
    rw [ordered, List.map_mergeSort]
    intro c _ d _
    rfl
  rw [run, Outcome.bind_eq_ok_iff]
  constructor
  · rintro ⟨ns, made, shape⟩
    obtain ⟨traverses, rfl⟩ := (nodes_eq_ok_iff forest fails positive).mp made
    rw [sorted, List.map_map] at shape
    exact ⟨traverses, (Outcome.pure_eq_ok_iff.mp shape).symm⟩
  · rintro ⟨traverses, rfl⟩
    refine ⟨_, (nodes_eq_ok_iff forest fails positive).mpr ⟨traverses, rfl⟩, ?_⟩
    rw [sorted, List.map_map]
    rfl

theorem mem_ordered_iff {c : Record × List Record} (traverses : s.CanTraverse f) :
    c ∈ s.ordered f ↔ f.Lineage c.1 c.2 := by
  rw [ordered, List.mem_mergeSort, Forest.mem_levels_iff]
  constructor
  · rintro ⟨lineage, -, -⟩
    exact lineage
  · intro lineage
    have bound := (traverses c.1 c.2 lineage).1
    exact ⟨lineage, Nat.zero_le _, by omega⟩

theorem nodup_ordered (s : Statement) (f : Forest) : ((s.ordered f).map Prod.fst).Nodup :=
  ((List.mergeSort_perm _ _).map Prod.fst).nodup_iff.mpr (f.nodup_levels 0 (s.encoding.maxDepth + 1))

end ForestQuery.Statement
