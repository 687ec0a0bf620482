import ForestQuery.Proofs.Failure
import ForestQuery.Proofs.Query
/-!
What the depth limit does. The recursion of a statement goes on from rows above the limit only, so it reaches the
limit exactly when some row lies there or below; and then there is no answer, whether the statement fails at the
limit or the row is refused when it is read. Main statements: a forest that reaches the limit is not answered, one
that does not is answered as under any greater limit, and what is answered under a limit is answered under each
greater one with the same rows.
-/

namespace ForestQuery

namespace Statement

variable {s : Statement} {f : Forest} {r p : Record} {as : List Record}

/-- The row source of the recursion, where the rows of a forest take part. -/
def sourceRows (s : Statement) (f : Forest) : List ScopeRow := f.rows.map (s.scopeRow f.rows)

/-- What the recursion produces from a row source, with depths: the roots, and below each row above the limit the rows
that have its key as their parent. -/
inductive Produces (s : Statement) (rows : List ScopeRow) : ScopeRow → Nat → Prop
  | anchor {row : ScopeRow} (member : row ∈ rows) (root : s.isRoot rows row = true) : Produces s rows row 0
  | step {above row : ScopeRow} {n : Nat} (produced : Produces s rows above n) (room : n < s.encoding.maxDepth)
      (member : row ∈ rows) (present : row.parent.isNull = false)
      (joined : Value.same row.parent (s.keyOf above.record) = true) : Produces s rows row (n + 1)

/-- The recursion produces the rows of the forest with their depths, down to the limit. -/
theorem produces_iff (same : f.relation = s.relation) {row : ScopeRow} {n : Nat} :
    s.Produces (s.sourceRows f) row n ↔
      n ≤ s.encoding.maxDepth ∧ ∃ r as, row = s.scopeRow f.rows r ∧ f.Lineage r as ∧ as.length = n := by
  constructor
  · -- A step from a row above the limit is the last step of a lineage.
    intro produced
    induction produced with
    | anchor member root =>
      obtain ⟨r, inRows, rfl⟩ := List.mem_map.mp member
      rw [sourceRows, isRoot_scopeRow same, decide_eq_true_eq] at root
      exact ⟨Nat.zero_le _, r, [], rfl, .top inRows root, rfl⟩
    | @step above row n _ room member present joined ih =>
      obtain ⟨-, p, as, rfl, lineage, length⟩ := ih
      obtain ⟨r, inRows, rfl⟩ := List.mem_map.mp member
      rw [record_scopeRow, keyOf_eq same] at joined
      have parent : f.parent? r = some p :=
        (same_parent_scopeRow same lineage.mem r).mp (by rw [present, joined]; rfl)
      exact ⟨room, r, p :: as, rfl, .child inRows parent lineage, congrArg (· + 1) length⟩
  · -- The rows of a lineage lie above its end, so each of them lets the recursion go on.
    rintro ⟨bound, r, as, rfl, lineage, rfl⟩
    induction lineage with
    | @top r inRows noParent =>
      refine .anchor (List.mem_map_of_mem inRows) ?_
      rw [sourceRows, isRoot_scopeRow same, decide_eq_true_eq]
      exact noParent
    | @child r p as inRows parent lineage ih =>
      have below := (same_parent_scopeRow same lineage.mem r).mpr parent
      rw [Bool.and_eq_true, Bool.not_eq_true'] at below
      refine .step (ih (Nat.le_of_succ_le bound)) bound (List.mem_map_of_mem inRows) below.1 ?_
      rw [record_scopeRow, keyOf_eq same]
      exact below.2

theorem exists_produces_iff (same : f.relation = s.relation) :
    (∃ row n, s.Produces (s.sourceRows f) row n ∧ s.encoding.maxDepth ≤ n) ↔
      ∃ r as, f.Lineage r as ∧ s.encoding.maxDepth ≤ as.length := by
  simp only [produces_iff same]
  constructor
  · rintro ⟨row, n, ⟨-, r, as, -, lineage, rfl⟩, deep⟩
    exact ⟨r, as, lineage, deep⟩
  · rintro ⟨r, as, lineage, deep⟩
    obtain ⟨q, bs, above, length⟩ := lineage.exists_of_le deep
    exact ⟨_, _, ⟨Nat.le_of_eq length, q, bs, rfl, above, rfl⟩, Nat.le_of_eq length.symm⟩

/-- What a statement computes are the rows that the recursion produces, with their depths. -/
theorem mem_nodes_iff {records : List Record} {ns : List Node} (forest : s.IsForest records f)
    (made : s.nodes records = .ok ns) {n : Nat} :
    (∃ node ∈ ns, node.record = r ∧ node.depth = n) ↔ s.Produces (s.sourceRows f) (s.scopeRow f.rows r) n := by
  rw [nodes_eq forest, nodesOf] at made
  have each := Outcome.mapM_eq_ok_iff.mp made
  rw [produces_iff forest.1]
  constructor
  · rintro ⟨node, member, rfl, rfl⟩
    obtain ⟨⟨p, as⟩, inLevels, nodeOk⟩ := Outcome.exists_of_mem_right each member
    obtain ⟨-, -, rfl⟩ := nodeOf_eq_ok_iff.mp nodeOk
    obtain ⟨lineage, -, bound⟩ := Forest.mem_levels_iff.mp inLevels
    exact ⟨by simp only [nodeAt] at bound ⊢; omega, p, as, rfl, lineage, rfl⟩
  · rintro ⟨bound, p, as, row, lineage, rfl⟩
    have record := congrArg ScopeRow.record row
    rw [record_scopeRow, record_scopeRow] at record
    subst record
    obtain ⟨node, member, nodeOk⟩ := Outcome.exists_of_mem_left each (lineage.mem_levels (by omega))
    obtain ⟨-, -, rfl⟩ := nodeOf_eq_ok_iff.mp nodeOk
    exact ⟨_, member, rfl, rfl⟩

theorem childNode_of_limit (fails : s.encoding.failsAtLimit = true) {n : Node} (deep : s.encoding.maxDepth ≤ n.depth + 1)
    (row : ScopeRow) : s.childNode n row = .error ⟨.depthExceeded, Text.decimalDigits (n.depth + 1)⟩ := by
  have checked : s.checkDepth (n.depth + 1) = .error ⟨.depthExceeded, Text.decimalDigits (n.depth + 1)⟩ := by
    rw [checkDepth, if_pos ⟨fails, deep⟩]
  rw [childNode, checked]
  rfl

/-- Whether every row that lies above the limit can be written. -/
def WritesAbove (s : Statement) (f : Forest) : Prop :=
  ∀ r as, f.Lineage r as → as.length < s.encoding.maxDepth → s.CanWrite f.rows r

theorem nodeOf_of_writesAbove (writes : s.WritesAbove f) (lineage : f.Lineage r as)
    (shallow : as.length < s.encoding.maxDepth) : s.nodeOf f.rows r as = .ok (s.nodeAt f.rows r as) := by
  refine nodeOf_eq_ok_iff.mpr ⟨List.forall_mem_cons.mpr ⟨writes r as lineage shallow, fun q above => ?_⟩,
    fun _ _ => shallow, rfl⟩
  obtain ⟨bs, lineageAbove, shorter⟩ := lineage.exists_shorter above
  exact writes q bs lineageAbove (by omega)

theorem nodeOf_of_limit (fails : s.encoding.failsAtLimit = true) (positive : 0 < s.encoding.maxDepth)
    (writes : s.WritesAbove f) (lineage : f.Lineage r as) (limit : as.length = s.encoding.maxDepth) :
    s.nodeOf f.rows r as = .error ⟨.depthExceeded, Text.decimalDigits s.encoding.maxDepth⟩ := by
  cases lineage with
  | top => exact absurd limit (Nat.ne_of_lt positive)
  | @child _ p as row parent above =>
    rw [List.length_cons] at limit
    have node := nodeOf_of_writesAbove writes above (by omega)
    have failed := childNode_of_limit fails (n := s.nodeAt f.rows p as)
      (Nat.le_of_eq limit.symm) (s.scopeRow f.rows r)
    rw [nodeOf, node, ← limit]
    exact failed

/-- A statement that fails at the limit fails with it where a row lies there and all rows above it can be written. -/
theorem run_of_limit {records : List Record} (forest : s.IsForest records f) (fails : s.encoding.failsAtLimit = true)
    (positive : 0 < s.encoding.maxDepth) (writes : s.WritesAbove f)
    (deep : ∃ r as, f.Lineage r as ∧ s.encoding.maxDepth ≤ as.length) :
    s.run records = .error ⟨.depthExceeded, Text.decimalDigits s.encoding.maxDepth⟩ := by
  have nodes : s.nodes records = .error ⟨.depthExceeded, Text.decimalDigits s.encoding.maxDepth⟩ := by
    rw [nodes_eq forest, nodesOf]
    -- Rows above the limit have nodes, rows at the limit fail alike, and there is one of these.
    refine Outcome.mapM_eq_error (fun c member => ?_) ?_
    · obtain ⟨lineage, -, bound⟩ := Forest.mem_levels_iff.mp member
      by_cases shallow : c.2.length < s.encoding.maxDepth
      · exact Or.inl ⟨_, nodeOf_of_writesAbove writes lineage shallow⟩
      · exact Or.inr (nodeOf_of_limit fails positive writes lineage (by omega))
    · obtain ⟨r, as, lineage, below⟩ := deep
      obtain ⟨q, bs, above, length⟩ := lineage.exists_of_le below
      exact ⟨(q, bs), above.mem_levels (by omega), nodeOf_of_limit fails positive writes above length⟩
  rw [run, nodes]
  rfl

def withLimit (s : Statement) (limit : Nat) : Statement :=
  { s with encoding := { s.encoding with maxDepth := limit } }

/-- Where all rows lie above the limit, a greater one changes nothing that a statement returns. -/
theorem ordered_withLimit {limit : Nat} (shallow : ∀ r as, f.Lineage r as → as.length < s.encoding.maxDepth)
    (greater : s.encoding.maxDepth ≤ limit) : (s.withLimit limit).ordered f = s.ordered f := by
  have levels : f.levels 0 (limit + 1) = f.levels 0 (s.encoding.maxDepth + 1) := by
    rw [Forest.levels_of_shallow shallow (Nat.le_succ_of_le greater), Forest.levels_of_shallow shallow (Nat.le_succ _)]
  change (f.levels 0 (limit + 1)).mergeSort _ = (f.levels 0 (s.encoding.maxDepth + 1)).mergeSort _
  rw [levels]
  rfl

theorem canTraverse_withLimit {limit : Nat} (shallow : ∀ r as, f.Lineage r as → as.length < s.encoding.maxDepth)
    (greater : s.encoding.maxDepth ≤ limit) : (s.withLimit limit).CanTraverse f ↔ s.CanTraverse f := by
  refine forall₃_congr fun r as lineage => and_congr_left fun _ => ?_
  have above := shallow r as lineage
  exact ⟨fun _ => above, fun _ => Nat.lt_of_lt_of_le above greater⟩

end Statement

namespace Compiled

variable {c : Compiled}

/-- A row at the limit is refused when it is read, whatever else it holds. -/
theorem decode_of_limit {raw : RawRow} {n : Nat} (deep : c.maxDepth ≤ n) (bound : n < Config.depthBound)
    (depth : raw.depth = Int64.ofNat n) : c.decode raw = .error (.depthExceeded c.maxDepth) := by
  have bounded := Layout.natCast_lt_depthBound bound
  have value : raw.depth.toInt = (n : Int) := by rw [depth, Layout.toInt_depth bounded]
  -- The depth is checked before any column is read.
  rw [decode, Layout.decode]
  simp only [value, Int.toNat_natCast]
  rw [if_neg (by omega), if_pos deep]
  rfl

def withLimit (c : Compiled) (limit : Nat) : Compiled := { c with statement := c.statement.withLimit limit }

theorem decode_withLimit {raw : RawRow} {row : TreeRow} {limit n : Nat} (greater : c.maxDepth ≤ limit)
    (shallow : n < c.maxDepth) (bound : n < Config.depthBound) (depth : raw.depth = Int64.ofNat n) :
    (c.withLimit limit).decode raw = .ok row ↔ c.decode raw = .ok row := by
  have value : raw.depth.toInt = (n : Int) := by
    rw [depth, Layout.toInt_depth (Layout.natCast_lt_depthBound bound)]
  rw [decode, decode, Layout.decode_eq_ok_iff, Layout.decode_eq_ok_iff]
  constructor
  · intro reads
    have same := reads.depth
    rw [value] at same
    exact { reads with shallow := by omega }
  · intro reads
    exact { reads with shallow := Nat.lt_of_lt_of_le reads.shallow greater }

theorem decode_rawRow_withLimit {rows as : List Record} {r : Record} {raw : RawRow} {row : TreeRow} {limit : Nat}
    (greater : c.maxDepth ≤ limit) (shallow : as.length < c.maxDepth) (bounded : c.maxDepth < Config.depthBound)
    (columns : c.statement.rawRow? (c.statement.nodeAt rows r as) = some raw) :
    (c.withLimit limit).decode raw = .ok row ↔ c.decode raw = .ok row := by
  obtain ⟨_, _, _, -, -, -, rfl⟩ := Statement.rawRow?_eq_some_iff.mp columns
  exact decode_withLimit greater shallow (Nat.lt_trans shallow bounded) rfl

end Compiled

namespace Compiler

variable {k : Compiler} {q : Request} {c : Compiled}

theorem ancestorElements_withLimit (enc : Encoding) (limit textWidth : Nat) (as : List AncestorField) :
    ancestorElements { enc with maxDepth := limit } textWidth as = ancestorElements enc textWidth as := by
  induction as with
  | nil => rfl
  | cons a as ih =>
    have first : ({ enc with maxDepth := limit } : Encoding).element [a.part Statement.source textWidth]
        = enc.element [a.part Statement.source textWidth] := rfl
    rw [ancestorElements, ancestorElements, ih, first]

/-- A request with another limit is compiled to the same statement with this limit. -/
theorem compile_limited {limit : Nat} (positive : 0 < limit) (compiled : k.compile q = .ok c) :
    k.compile (q.limited limit) = .ok (c.withLimit limit) := by
  rw [compile] at compiled
  obtain ⟨maxDepth, limitOk, compiled⟩ := Outcome.bind_eq_ok_iff.mp compiled
  obtain ⟨order, orderOk, compiled⟩ := Outcome.bind_eq_ok_iff.mp compiled
  obtain ⟨ancestors, ancestorsOk, compiled⟩ := Outcome.bind_eq_ok_iff.mp compiled
  obtain ⟨key, keyOk, compiled⟩ := Outcome.bind_eq_ok_iff.mp compiled
  obtain ⟨scope, scopeOk, compiled⟩ := Outcome.bind_eq_ok_iff.mp compiled
  obtain ⟨path, pathOk, compiled⟩ := Outcome.bind_eq_ok_iff.mp compiled
  obtain ⟨ordering, orderingOk, compiled⟩ := Outcome.bind_eq_ok_iff.mp compiled
  obtain ⟨elements, elementsOk, compiled⟩ := Outcome.bind_eq_ok_iff.mp compiled
  cases compiled
  have limitOk' : k.depthLimit (q.limited limit) = .ok limit := depthLimit_eq_ok_iff.mpr ⟨positive, rfl⟩
  have elementsOk' := (ancestorElements_withLimit ⟨k.config.dialect, k.native, maxDepth⟩ limit k.config.textWidth
    ancestors).trans elementsOk
  rw [compile, limitOk']
  refine Outcome.bind_eq_ok_iff.mpr ⟨_, rfl, Outcome.bind_eq_ok_iff.mpr ⟨order, orderOk,
    Outcome.bind_eq_ok_iff.mpr ⟨ancestors, ancestorsOk, Outcome.bind_eq_ok_iff.mpr ⟨key, keyOk,
    Outcome.bind_eq_ok_iff.mpr ⟨scope, scopeOk, Outcome.bind_eq_ok_iff.mpr ⟨path, pathOk,
    Outcome.bind_eq_ok_iff.mpr ⟨ordering, orderingOk, Outcome.bind_eq_ok_iff.mpr ⟨elements, elementsOk', rfl⟩⟩⟩⟩⟩⟩⟩⟩

end Compiler

namespace Store

variable {s : Store} {relation : Relation} {config : Config} {q : Request} {c : Compiled} {t : Table}
  {rows : List TreeRow}

theorem visible_of_run {raws : List (Option RawRow)} (ran : s.run c = .ok raws) :
    c.statement.partNames.any (Identifier.sameName c.statement.relation.table) = false := by
  rw [run] at ran
  split at ran
  · cases ran
  · split at ran
    · rename_i read
      rw [canRead, Bool.and_eq_true, Bool.not_eq_true'] at read
      exact read.2
    · cases ran

theorem visible_of_query (isOpen : s.IsOpen relation config) (compiled : s.compile q = .ok c)
    (answered : s.query q = .ok rows) : c.statement.partNames.any (Identifier.sameName relation.table) = false := by
  rw [query_eq, compiled] at answered
  obtain ⟨_, same, delivered⟩ := Outcome.bind_eq_ok_iff.mp answered
  cases same
  obtain ⟨raws, ran, -⟩ := Outcome.bind_eq_ok_iff.mp delivered
  rw [← relation_eq isOpen compiled]
  exact visible_of_run ran

/-- A forest that does not reach the limit is answered as under any greater limit. -/
theorem query_limited_iff (isOpen : s.IsOpen relation config) (compiled : s.compile q = .ok c)
    (readable : s.database.readable? relation.table = some t) (keyed : t.IsKeyed relation)
    (bounded : c.maxDepth < Config.depthBound)
    (shallow : ∀ r as, (q.forest keyed).Lineage r as → as.length < c.maxDepth) {limit : Nat}
    (greater : c.maxDepth ≤ limit) : s.query (q.limited limit) = .ok rows ↔ s.query q = .ok rows := by
  obtain ⟨order, ancestors, key, compiles⟩ := Compiler.compile_eq_ok compiled
  have compiled' : s.compile (q.limited limit) = .ok (c.withLimit limit) :=
    Compiler.compile_limited (Nat.lt_of_lt_of_le compiles.positive greater) compiled
  by_cases visible : c.statement.partNames.any (Identifier.sameName relation.table) = false
  · rw [query_eq_ok_iff isOpen compiled' readable keyed visible, query_eq_ok_iff isOpen compiled readable keyed visible]
    refine and_congr (Statement.canTraverse_withLimit shallow greater) ?_
    change List.Forall₂ _ ((c.statement.withLimit limit).ordered (q.forest keyed)) rows ↔ _
    rw [Statement.ordered_withLimit shallow greater, List.forall₂_iff_zip, List.forall₂_iff_zip]
    refine and_congr_right fun _ => forall₃_congr fun e row pair => exists_congr fun raw =>
      and_congr_right fun columns => ?_
    have member := (List.of_mem_zip pair).1
    rw [Statement.ordered, List.mem_mergeSort] at member
    exact Compiled.decode_rawRow_withLimit greater (shallow e.1 e.2 (Forest.mem_levels_iff.mp member).1) bounded columns
  · -- A hidden table is read under no limit.
    have hidden : ∀ p d, s.compile p = .ok d → d.statement.partNames = c.statement.partNames → s.query p ≠ .ok rows := by
      intro p d compiles parts answered
      have seen := visible_of_query isOpen compiles answered
      rw [parts] at seen
      exact visible seen
    exact iff_of_false (hidden _ _ compiled' rfl) (hidden _ _ compiled rfl)

/-- A forest that reaches the limit is refused with it, where the rows above the limit can be written. -/
theorem query_of_limit (isOpen : s.IsOpen relation config) (compiled : s.compile q = .ok c)
    (readable : s.database.readable? relation.table = some t) (keyed : t.IsKeyed relation)
    (visible : c.statement.partNames.any (Identifier.sameName relation.table) = false)
    (deep : ∃ r as, (q.forest keyed).Lineage r as ∧ c.maxDepth ≤ as.length)
    (writes : c.statement.WritesAbove (q.forest keyed)) : s.query q = .error (.depthExceeded c.maxDepth) := by
  obtain ⟨order, ancestors, key, compiles⟩ := Compiler.compile_eq_ok compiled
  have failed := Statement.run_of_limit (isForest isOpen compiled keyed) (failsAtLimit isOpen compiled)
    compiles.positive writes deep
  have digits : '\x00' ∉ Text.decimalDigits c.statement.encoding.maxDepth :=
    fun member => Segment.ne_of_isDigit (Segment.isDigit_of_mem_decimalDigits member) rfl rfl
  have ran : s.run c = .error (.depthExceeded c.maxDepth) := by
    rw [run_eq isOpen compiled readable keyed visible, failed, Except.mapError, Failure.ofRaised_depthExceeded _ digits]
  rw [query_eq, compiled]
  change (s.run c >>= fun raws => raws.mapM c.read) = _
  rw [ran]
  rfl

end Store

/-- The recursion reaches the limit exactly when some row of the forest lies there or below; a row that it produces
there is refused when it is read, so that no rows with such a one among them are read together. -/
theorem Compiler.limit_reached {k : Compiler} {q : Request} {c : Compiled} {f : Forest} (compiled : k.compile q = .ok c)
    (bounded : c.maxDepth < Config.depthBound) (same : f.relation = k.relation) :
    ((∃ row n, c.statement.Produces (c.statement.sourceRows f) row n ∧ c.maxDepth ≤ n) ↔
      ∃ r as, f.Lineage r as ∧ c.maxDepth ≤ as.length) ∧
    (∀ row n, c.statement.Produces (c.statement.sourceRows f) row n → c.maxDepth ≤ n →
      ∀ raw : RawRow, raw.depth = Int64.ofNat n → c.decode raw = .error (.depthExceeded c.maxDepth)) ∧
    ((∃ r as, f.Lineage r as ∧ c.maxDepth ≤ as.length) → ∀ raws : List RawRow,
      (∀ row n, c.statement.Produces (c.statement.sourceRows f) row n → ∃ raw ∈ raws, raw.depth = Int64.ofNat n) →
      ∀ rows, raws.mapM c.decode ≠ .ok rows) := by
  obtain ⟨order, ancestors, key, compiles⟩ := compile_eq_ok compiled
  have relation : f.relation = c.statement.relation := by rw [same, compiles.relation]
  have reached := Statement.exists_produces_iff relation
  have refused : ∀ row n, c.statement.Produces (c.statement.sourceRows f) row n → c.maxDepth ≤ n →
      ∀ raw : RawRow, raw.depth = Int64.ofNat n → c.decode raw = .error (.depthExceeded c.maxDepth) := by
    intro row n produced deep raw depth
    have bound := ((Statement.produces_iff relation).mp produced).1
    exact Compiled.decode_of_limit deep (Nat.lt_of_le_of_lt bound bounded) depth
  refine ⟨reached, refused, fun deep raws covered rows read => ?_⟩
  obtain ⟨row, n, produced, below⟩ := reached.mpr deep
  obtain ⟨raw, member, depth⟩ := covered row n produced
  obtain ⟨_, -, decoded⟩ := Outcome.exists_of_mem_left (Outcome.mapM_eq_ok_iff.mp read) member
  rw [refused row n produced below raw depth] at decoded
  cases decoded

namespace Store

variable {s : Store} {relation : Relation} {config : Config} {q : Request} {c : Compiled} {t : Table}

end Store

end ForestQuery
