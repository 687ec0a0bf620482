import ForestQuery.Proofs.Column.Levels
import ForestQuery.Proofs.Node
import ForestQuery.Proofs.Preorder
/-!
The rows that a traversal over any table delivers, with no condition on its keys. Main statements: each row of an
answer is that of a node, a root has a path of its own identifier only, and any other row lies one level below the
row of the node above it, whose path it continues with its identifier.
-/

namespace ForestQuery

namespace Compiled

variable {c : Compiled} {n p : Node} {r : ScopeRow} {row other : TreeRow} {rows : List ScopeRow}

/-- Whether a node is delivered as a row. -/
def Delivers (c : Compiled) (n : Node) (row : TreeRow) : Prop :=
  ∃ raw, c.statement.rawRow? n = some raw ∧ c.decode raw = .ok row

/-- What a node is read as: its texts as levels, one for each row from the root on. -/
structure Spelling (c : Compiled) (n : Node) (row : TreeRow) (paths levels : List (List Char)) (values : List Value) :
    Prop where
  depth : (Int64.ofNat n.depth).toInt = (row.depth : Int)
  bounded : row.depth < 4294967296
  path : Column.Spells [c.layout.path] n.path paths values
  ids : NodeId.ofValues c.layout.keyType values = .ok row.path
  ordering : Column.Spells c.layout.ordering n.ordering levels row.ordering
  pathLength : row.path.length = row.depth + 1
  orderingLength : row.ordering.length = row.depth + 1
  id : NodeId.ofValue c.layout.keyType (c.statement.keyOf n.record) = .ok row.id
  last : row.path.getLast? = some row.id

theorem Delivers.exists_spelling (fixed : c.statement.encoding.native = false) (delivers : c.Delivers n row) :
    ∃ paths levels values, c.Spelling n row paths levels values := by
  obtain ⟨raw, made, read⟩ := delivers
  simp only [Statement.rawRow?, Option.bind_eq_bind, Option.pure_def, Option.bind_eq_some_iff, Option.some.injEq] at made
  obtain ⟨path, pathColumn, ordering, orderingColumn, ancestors, -, rfl⟩ := made
  rw [decode, fixed, Layout.decode_eq_ok_iff] at read
  obtain ⟨values, decoded, ids⟩ := read.path
  obtain ⟨paths, spells⟩ := Column.exists_spells pathColumn decoded
  obtain ⟨levels, spells'⟩ := Column.exists_spells orderingColumn read.ordering
  exact ⟨paths, levels, values, {
    depth := read.depth
    bounded := by
      have bound := read.bounded
      rw [Layout.depthBound] at bound
      omega
    path := spells
    ids
    ordering := spells'
    pathLength := read.levels
    orderingLength := read.ordered
    id := read.id
    last := read.last }⟩

/-- What a row adds to the path of the one above it: one level, which is read as its identifier; and a level of the
ordering as well. -/
structure Adds (c : Compiled) (n : Node) (row : TreeRow) (upper : List NodeId) (segment level : StoredText) : Prop where
  depth : row.depth = upper.length
  path : row.path = upper ++ [row.id]
  readSegment : ∃ l v, Text.utf8 l = segment.toBytes ∧ l.length = SegmentKind.levelWidth [c.layout.path] ∧
    Column.decodeLevel [c.layout.path] l = .ok v ∧ NodeId.ofValue c.layout.keyType v = .ok row.id
  readLevel : ∃ l v, Text.utf8 l = level.toBytes ∧ l.length = SegmentKind.levelWidth c.layout.ordering ∧
    Column.decodeLevel c.layout.ordering l = .ok v
  id : NodeId.ofValue c.layout.keyType (c.statement.keyOf n.record) = .ok row.id

/-- A node that continues texts which are read as one value less each. -/
theorem Spelling.adds {paths levels ls ms : List (List Char)} {values vs ws : List Value} {upper : List NodeId}
    {t u segment level : StoredText} (spelling : c.Spelling n row paths levels values)
    (path : n.path = t ++ segment) (ordering : n.ordering = u ++ level) (front : Column.Spells [c.layout.path] t ls vs)
    (ids : NodeId.ofValues c.layout.keyType vs = .ok upper) (front' : Column.Spells c.layout.ordering u ms ws)
    (depth : row.depth = upper.length) (count : ws.length = upper.length) : c.Adds n row upper segment level := by
  have spells := spelling.path
  have spells' := spelling.ordering
  have whole := spelling.ids
  have last := spelling.last
  rw [NodeId.ofValues_eq_mapM] at ids whole
  have length := (Outcome.mapM_eq_ok_iff.mp ids).length_eq
  have length' := (Outcome.mapM_eq_ok_iff.mp whole).length_eq
  rw [path] at spells
  rw [ordering] at spells'
  obtain ⟨l, v, -, rfl, bytes, width, read⟩ := front.exists_last spells
    (by rw [length', length, spelling.pathLength, depth])
  obtain ⟨l', v', -, -, bytes', width', read'⟩ := front'.exists_last spells'
    (by rw [spelling.orderingLength, count, depth])
  rw [List.mapM_append, ids, Outcome.ok_bind] at whole
  obtain ⟨own, single, same⟩ := Outcome.bind_eq_ok_iff.mp whole
  rw [List.mapM_cons] at single
  obtain ⟨id, found, none⟩ := Outcome.bind_eq_ok_iff.mp single
  cases none
  have shape : row.path = upper ++ [id] := (Except.ok.inj same).symm
  rw [shape, List.getLast?_append, List.getLast?_singleton, Option.some_or, Option.some.injEq] at last
  subst last
  exact ⟨depth, shape, ⟨l, v, bytes, width, read, found⟩, ⟨l', v', bytes', width', read'⟩, spelling.id⟩

variable {segment level : StoredText}

theorem adds_of_root (fixed : c.statement.encoding.native = false) (delivers : c.Delivers n row)
    (extension : c.statement.Extends rows none n r segment level) : c.Adds n row [] segment level := by
  obtain ⟨paths, levels, values, spelling⟩ := delivers.exists_spelling fixed
  have depth := spelling.depth
  rw [extension.depth] at depth
  exact spelling.adds extension.path extension.ordering (Column.spells_nil spelling.path.positive) rfl
    (Column.spells_nil spelling.ordering.positive) (Int.ofNat_inj.mp depth.symm) rfl

theorem adds_of_child (fixed : c.statement.encoding.native = false) (delivers : c.Delivers n row)
    (extension : c.statement.Extends rows (some p) n r segment level) (delivers' : c.Delivers p other)
    (deeper : row.depth = other.depth + 1) : c.Adds n row other.path segment level := by
  obtain ⟨paths, levels, values, spelling⟩ := delivers.exists_spelling fixed
  obtain ⟨paths', levels', values', spelling'⟩ := delivers'.exists_spelling fixed
  exact spelling.adds extension.path extension.ordering spelling'.path spelling'.ids spelling'.ordering
    (by rw [spelling'.pathLength, deeper]) (by rw [spelling'.pathLength, spelling'.orderingLength])

/-- Nodes in the order of the result, with the rows that they are delivered as. -/
structure Answers (c : Compiled) (rows : List ScopeRow) (ns : List Node) (answer : List TreeRow) : Prop where
  fixed : c.statement.encoding.native = false
  delivered : List.Forall₂ c.Delivers ns answer
  reached : ∀ n ∈ ns, ∃ above r segment level, (∀ p ∈ above, p ∈ ns) ∧
    c.statement.Extends rows above n r segment level
  sorted : ns.Pairwise fun a b => (Statement.compareNodes a b).isLE = true

variable {ns : List Node} {answer : List TreeRow}

/-- No node lies so deep that its depth could not be delivered: the first one of that depth would be refused. -/
theorem Answers.depth_lt (answers : c.Answers rows ns answer) :
    ∀ n ∈ ns, n.depth < 4294967296 ∧ ∀ row, c.Delivers n row → row.depth = n.depth := by
  have bounded : ∀ n, n.depth < 9223372036854775808 → ∀ row, c.Delivers n row →
      row.depth = n.depth ∧ row.depth < 4294967296 := by
    intro n small row delivers
    obtain ⟨paths, levels, values, spelling⟩ := delivers.exists_spelling answers.fixed
    have depth := spelling.depth
    rw [Int64.toInt_ofNat_of_lt small] at depth
    exact ⟨(Int.ofNat_inj.mp depth).symm, spelling.bounded⟩
  have each : ∀ d, ∀ n ∈ ns, n.depth = d → n.depth < 4294967296 := by
    intro d
    induction d with
    | zero => omega
    | succ d ih =>
      intro n member depth
      obtain ⟨above, r, segment, level, found, extension⟩ := answers.reached n member
      obtain ⟨row, -, delivers⟩ := Outcome.exists_of_mem_left answers.delivered member
      have deeper := extension.depth
      cases above with
      | none =>
        rw [deeper]
        exact Nat.zero_lt_of_lt (show 0 < 4294967296 by decide)
      | some p =>
        change n.depth = p.depth + 1 at deeper
        have upper := ih p (found p rfl) (by omega)
        obtain ⟨same, bound⟩ := bounded n (by omega) row delivers
        omega
  intro n member
  have small := each n.depth n member rfl
  exact ⟨small, fun row delivers => (bounded n (by omega) row delivers).1⟩

/-- A node that is delivered is a root, or lies below another node that is delivered. -/
theorem Answers.exists_adds (answers : c.Answers rows ns answer) {z : Node × TreeRow} (member : z ∈ ns.zip answer) :
    ∃ (above : Option (Node × TreeRow)) (r : ScopeRow) (segment level : StoredText), (∀ a ∈ above, a ∈ ns.zip answer) ∧
      c.statement.Extends rows (above.map Prod.fst) z.1 r segment level ∧
      c.Adds z.1 z.2 (above.elim [] fun a => a.2.path) segment level := by
  obtain ⟨inNodes, -⟩ := List.of_mem_zip member
  have delivers := List.forall₂_zip answers.delivered member
  obtain ⟨above, r, segment, level, found, extension⟩ := answers.reached z.1 inNodes
  cases above with
  | none =>
    exact ⟨none, r, segment, level, fun a absent => absurd absent (Option.not_mem_none a), extension,
      adds_of_root answers.fixed delivers extension⟩
  | some p =>
    have nodes : (ns.zip answer).map Prod.fst = ns := List.map_fst_zip (Nat.le_of_eq answers.delivered.length_eq)
    have upper := found p rfl
    rw [← nodes] at upper
    obtain ⟨a, inPairs, rfl⟩ := List.mem_map.mp upper
    have delivers' := List.forall₂_zip answers.delivered inPairs
    have deeper : z.2.depth = a.2.depth + 1 := by
      rw [(answers.depth_lt z.1 inNodes).2 z.2 delivers, (answers.depth_lt a.1 (found a.1 rfl)).2 a.2 delivers']
      exact extension.depth
    refine ⟨some a, r, segment, level, fun b same => ?_, extension,
      adds_of_child answers.fixed delivers extension delivers' deeper⟩
    rwa [← Option.mem_some_iff.mp same]

end Compiled

namespace TreeRow

/-- Whether each of some rows is a root, or lies one level below another one and continues its path. -/
def AreClosed (rows : List TreeRow) : Prop :=
  ∀ r ∈ rows, r.depth = 0 ∧ r.path = [r.id] ∨ ∃ p ∈ rows, r.depth = p.depth + 1 ∧ r.path = p.path ++ [r.id]

end TreeRow

namespace Compiled

variable {c : Compiled} {rows : List ScopeRow} {ns : List Node} {answer : List TreeRow}

theorem Answers.length_path (answers : c.Answers rows ns answer) {z : Node × TreeRow} (member : z ∈ ns.zip answer) :
    z.2.path.length = z.2.depth + 1 := by
  obtain ⟨paths, levels, values, spelling⟩ :=
    (List.forall₂_zip answers.delivered member).exists_spelling answers.fixed
  exact spelling.pathLength

theorem Answers.areClosed (answers : c.Answers rows ns answer) : TreeRow.AreClosed answer := by
  intro row member
  have pairs : (ns.zip answer).map Prod.snd = answer := List.map_snd_zip (Nat.le_of_eq answers.delivered.length_eq.symm)
  rw [← pairs] at member
  obtain ⟨z, inPairs, rfl⟩ := List.mem_map.mp member
  obtain ⟨above, r, segment, level, found, -, adds⟩ := answers.exists_adds inPairs
  cases above with
  | none => exact Or.inl ⟨adds.depth, adds.path⟩
  | some a =>
    have upper := found a rfl
    exact Or.inr ⟨a.2, (List.of_mem_zip upper).2, adds.depth.trans (answers.length_path upper), adds.path⟩

end Compiled

namespace Store

variable {s : Store} {relation : Relation} {config : Config} {q : Request} {answer : List TreeRow}

/-- An answer is made of the nodes of the statement. -/
theorem exists_answers (isOpen : s.IsOpen relation config) (answered : s.query q = .ok answer) :
    ∃ c t ns, s.compile q = .ok c ∧ s.database.readable? relation.table = some t ∧
      c.Answers (c.statement.scopeRows t.records) ns answer := by
  rw [query_eq] at answered
  obtain ⟨c, compiled, answered⟩ := Outcome.bind_eq_ok_iff.mp answered
  obtain ⟨raws, ran, answered⟩ := Outcome.bind_eq_ok_iff.mp answered
  obtain ⟨order, ancestors, key, compiles⟩ := Compiler.compile_eq_ok compiled
  rw [run, Store.relation, isOpen.describes] at ran
  split at ran
  · cases ran
  rename_i t readable
  split at ran
  · split at ran
    · rename_i rows run
      cases ran
      obtain ⟨ns, walked, same⟩ := Outcome.bind_eq_ok_iff.mp run
      cases same
      have members : ∀ n, n ∈ ns.mergeSort Statement.inOrder ↔ n ∈ ns := fun n => List.mem_mergeSort
      refine ⟨c, t, ns.mergeSort Statement.inOrder, compiled, readable, ?_, ?_, fun n member => ?_, ?_⟩
      · rw [Compiler.encoding_eq compiles (isRunnable isOpen)]
      · refine (List.forall₂_map_left_iff.mp (Outcome.mapM_eq_ok_iff.mp answered)).imp fun n row read => ?_
        exact Compiled.read_eq_ok_iff.mp read
      · obtain ⟨above, r, segment, level, found, extension⟩ :=
          Statement.exists_extends walked ((members n).mp member)
        exact ⟨above, r, segment, level, fun p upper => (members p).mpr (found p upper), extension⟩
      · rw [show Statement.inOrder = fun a b => (Statement.compareNodes a b).isLE from funext₂ Statement.inOrder_eq]
        exact pairwise_mergeSort_isLE Statement.compareNodes ns
    · cases ran
  · cases ran

/-- The rows of an answer are closed under what stands above them. -/
theorem areClosed_of_query (isOpen : s.IsOpen relation config) (answered : s.query q = .ok answer) :
    TreeRow.AreClosed answer := by
  obtain ⟨c, t, ns, -, -, answers⟩ := exists_answers isOpen answered
  exact answers.areClosed

/-- The rows of a request whose nodes are reached in the order of the result, so that nothing has to be sorted. -/
def queryInPlace (s : Store) (q : Request) : Except Error (List TreeRow) := do
  let c ← s.compile q
  match s.database.readable? s.relation.table with
  | none => throw .store
  | some t =>
    match c.statement.nodes t.records with
    | .error _ => throw .store
    | .ok ns =>
      if canRead c.statement t ∧ ns.Pairwise fun a b => Statement.inOrder a b = true then
        (ns.map c.statement.rawRow?).mapM c.read
      else throw .store

theorem query_of_queryInPlace (answered : s.queryInPlace q = .ok answer) : s.query q = .ok answer := by
  obtain ⟨c, compiled, answered⟩ := Outcome.bind_eq_ok_iff.mp answered
  rw [query_eq, compiled, Outcome.ok_bind, run]
  cases readable : s.database.readable? s.relation.table with
  | none =>
    rw [readable] at answered
    cases answered
  | some t =>
    rw [readable] at answered
    cases walked : c.statement.nodes t.records with
    | error _ =>
      simp only [walked] at answered
      cases answered
    | ok ns =>
      simp only [walked] at answered
      split at answered
      · rename_i checks
        obtain ⟨reads, sorted⟩ := checks
        have run : c.statement.run t.records = .ok (ns.map c.statement.rawRow?) := by
          rw [Statement.run, walked, Outcome.ok_bind, List.mergeSort_of_pairwise sorted]
          rfl
        simp only [reads, if_true, run, Outcome.ok_bind]
        exact answered
      · cases answered

/-- A root and a row below it, where the rows of a request are these in place. -/
theorem exists_pair_of_queryInPlace {a b : NodeId} (answers : (s.queryInPlace q).toOption.any
    (fun rows => rows.map (fun r => (r.id, r.path)) == [(a, [a]), (b, [a, b])]) = true) :
    ∃ root child, s.query q = .ok [root, child] ∧ root.id = a ∧ child.id = b ∧ root.path = [a] ∧ child.path = [a, b] := by
  obtain ⟨rows, inPlace, shape⟩ := Outcome.exists_of_any answers
  obtain ⟨root, _, rfl, first, others⟩ := List.map_eq_cons_iff.mp (beq_iff_eq.mp shape)
  obtain ⟨child, rfl, second⟩ := List.map_eq_singleton_iff.mp others
  obtain ⟨id, path⟩ := Prod.mk.inj first
  obtain ⟨id', path'⟩ := Prod.mk.inj second
  exact ⟨root, child, query_of_queryInPlace inPlace, id, id', path, path'⟩

end Store

end ForestQuery
