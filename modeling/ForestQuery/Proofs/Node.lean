import ForestQuery.Proofs.Outcome
import ForestQuery.Traversal
import Mathlib.Data.List.Basic
/-!
The nodes that a statement reaches over any rows of a table, with no condition on their keys. Main statements: each
node is a root of the rows, or lies directly below another node that is reached, and adds one level to the texts of
that node; and what goes on from level to level holds of all nodes down to the limit.
-/

namespace ForestQuery.Statement

variable {s : Statement} {rows : List ScopeRow} {n p : Node} {r : ScopeRow} {ns level : List Node}

/-- How a node comes from a row of the scope: as a root, or below another node, whose texts it continues. -/
structure Extends (s : Statement) (rows : List ScopeRow) (above : Option Node) (n : Node) (r : ScopeRow)
    (path level : StoredText) : Prop where
  row : r ∈ rows
  record : n.record = r.record
  key : n.key = s.keyOf r.record
  linked : above.elim (s.isRoot rows r) (fun p => isChild p r) = true
  depth : n.depth = above.elim 0 fun p => p.depth + 1
  pathText : s.path.evalText s.encoding.dialect r.env = .ok path
  levelText : s.ordering.evalText s.encoding.dialect r.env = .ok level
  path : n.path = above.elim [] Node.path ++ path
  ordering : n.ordering = above.elim [] Node.ordering ++ level

/-- A root has the texts of its row. -/
theorem exists_texts_of_rootNode (made : s.rootNode r = .ok n) : ∃ path ordering ancestors,
    s.path.evalText s.encoding.dialect r.env = .ok path ∧ s.ordering.evalText s.encoding.dialect r.env = .ok ordering ∧
      s.ancestorTexts r.env = .ok ancestors ∧ n = ⟨0, path, ordering, s.keyOf r.record, ancestors, r.record⟩ := by
  obtain ⟨path, pathOk, made⟩ := Outcome.bind_eq_ok_iff.mp made
  obtain ⟨ordering, orderingOk, made⟩ := Outcome.bind_eq_ok_iff.mp made
  obtain ⟨ancestors, ancestorsOk, made⟩ := Outcome.bind_eq_ok_iff.mp made
  cases made
  exact ⟨path, ordering, ancestors, pathOk, orderingOk, ancestorsOk, rfl⟩

/-- A child has the texts of its parent, each with that of its row behind it. -/
theorem exists_texts_of_childNode (made : s.childNode p r = .ok n) : ∃ path ordering ancestors,
    s.path.evalText s.encoding.dialect r.env = .ok path ∧ s.ordering.evalText s.encoding.dialect r.env = .ok ordering ∧
      s.ancestorTexts r.env = .ok ancestors ∧ n = ⟨p.depth + 1, p.path ++ path, p.ordering ++ ordering,
        s.keyOf r.record, (p.ancestors.zip ancestors).map fun p => p.1 ++ p.2, r.record⟩ := by
  obtain ⟨_, -, made⟩ := Outcome.bind_eq_ok_iff.mp made
  obtain ⟨path, pathOk, made⟩ := Outcome.bind_eq_ok_iff.mp made
  obtain ⟨ordering, orderingOk, made⟩ := Outcome.bind_eq_ok_iff.mp made
  obtain ⟨ancestors, ancestorsOk, made⟩ := Outcome.bind_eq_ok_iff.mp made
  cases made
  exact ⟨path, ordering, ancestors, pathOk, orderingOk, ancestorsOk, rfl⟩

theorem exists_extends_of_rootNode (row : r ∈ rows) (top : s.isRoot rows r = true) (made : s.rootNode r = .ok n) :
    ∃ path level, s.Extends rows none n r path level := by
  obtain ⟨path, level, ancestors, pathText, levelText, -, rfl⟩ := exists_texts_of_rootNode made
  exact ⟨path, level, {
    row
    record := rfl
    key := rfl
    linked := top
    depth := rfl
    pathText
    levelText
    path := rfl
    ordering := rfl }⟩

theorem exists_extends_of_childNode (row : r ∈ rows) (below : isChild p r = true) (made : s.childNode p r = .ok n) :
    ∃ path level, s.Extends rows (some p) n r path level := by
  obtain ⟨path, level, ancestors, pathText, levelText, -, rfl⟩ := exists_texts_of_childNode made
  exact ⟨path, level, {
    row
    record := rfl
    key := rfl
    linked := below
    depth := rfl
    pathText
    levelText
    path := rfl
    ordering := rfl }⟩

/-- A node of the next level is made of a row below a node of the level. -/
theorem exists_of_mem_nextLevel (next : s.nextLevel rows level = .ok ns) (member : n ∈ ns) :
    ∃ p ∈ level, ∃ r ∈ rows, isChild p r = true ∧ s.childNode p r = .ok n := by
  induction level generalizing ns with
  | nil =>
    cases next
    cases member
  | cons p level ih =>
    obtain ⟨below, belowOk, next⟩ := Outcome.bind_eq_ok_iff.mp next
    obtain ⟨others, othersOk, same⟩ := Outcome.bind_eq_ok_iff.mp next
    cases same
    rcases List.mem_append.mp member with here | there
    · obtain ⟨r, child, made⟩ := Outcome.exists_of_mem_right (Outcome.mapM_eq_ok_iff.mp belowOk) here
      obtain ⟨row, linked⟩ := List.mem_filter.mp child
      exact ⟨p, by simp, r, row, linked, made⟩
    · obtain ⟨p', inLevel, found⟩ := ih othersOk there
      exact ⟨p', by simp [inLevel], found⟩

/-- A node of the next level lies directly below a node of the level. -/
theorem exists_extends_of_nextLevel (next : s.nextLevel rows level = .ok ns) (member : n ∈ ns) :
    ∃ p ∈ level, ∃ r path text, s.Extends rows (some p) n r path text := by
  obtain ⟨p, inLevel, r, row, linked, made⟩ := exists_of_mem_nextLevel next member
  obtain ⟨path, text, extension⟩ := exists_extends_of_childNode row linked made
  exact ⟨p, inLevel, r, path, text, extension⟩

/-- The levels from one on hold the nodes of that level, and others that lie below nodes of theirs. -/
theorem exists_extends_of_levelsFrom {limit : Nat} (run : s.levelsFrom rows limit level = .ok ns) :
    (∀ n ∈ level, n ∈ ns) ∧
      ∀ n ∈ ns, n ∈ level ∨ ∃ p ∈ ns, ∃ r path text, s.Extends rows (some p) n r path text := by
  induction limit generalizing level ns with
  | zero =>
    cases run
    exact ⟨fun n member => member, fun n member => Or.inl member⟩
  | succ limit ih =>
    rw [levelsFrom] at run
    split at run
    · rename_i empty
      cases run
      rw [List.isEmpty_iff.mp empty]
      simp
    · obtain ⟨next, nextOk, run⟩ := Outcome.bind_eq_ok_iff.mp run
      obtain ⟨rest, restOk, same⟩ := Outcome.bind_eq_ok_iff.mp run
      cases same
      obtain ⟨-, below⟩ := ih restOk
      refine ⟨fun n member => List.mem_append_left _ member, fun n member => ?_⟩
      rcases List.mem_append.mp member with here | deeper
      · exact Or.inl here
      · rcases below n deeper with inNext | ⟨p, found, extension⟩
        · obtain ⟨p, inLevel, extension⟩ := exists_extends_of_nextLevel nextOk inNext
          exact Or.inr ⟨p, List.mem_append_left _ inLevel, extension⟩
        · exact Or.inr ⟨p, List.mem_append_right _ found, extension⟩

/-- Each node comes from a row of the scope, as a root or below another node. -/
theorem exists_extends {records : List Record} (run : s.nodes records = .ok ns) (member : n ∈ ns) :
    ∃ above r path level, (∀ p ∈ above, p ∈ ns) ∧ s.Extends (s.scopeRows records) above n r path level := by
  obtain ⟨roots, rootsOk, run⟩ := Outcome.bind_eq_ok_iff.mp run
  rcases (exists_extends_of_levelsFrom run).2 n member with top | ⟨p, found, r, path, level, extension⟩
  · obtain ⟨r, root, made⟩ := Outcome.exists_of_mem_right (Outcome.mapM_eq_ok_iff.mp rootsOk) top
    obtain ⟨row, linked⟩ := List.mem_filter.mp root
    obtain ⟨path, level, extension⟩ := exists_extends_of_rootNode row linked made
    exact ⟨none, r, path, level, fun p absent => absurd absent (Option.not_mem_none p), extension⟩
  · refine ⟨some p, r, path, level, fun p' same => ?_, extension⟩
    rwa [← Option.mem_some_iff.mp same]

section Levels

variable {P : Nat → Node → Prop} {bound : Nat}
  (children : ∀ k < bound, ∀ p r m, r ∈ rows → P k p → s.childNode p r = .ok m → P (k + 1) m)

include children

theorem forall_mem_nextLevel {k : Nat} (room : k < bound) (above : ∀ n ∈ level, P k n)
    (next : s.nextLevel rows level = .ok ns) : ∀ n ∈ ns, P (k + 1) n := by
  intro n member
  obtain ⟨p, inLevel, r, row, -, made⟩ := exists_of_mem_nextLevel next member
  exact children k room p r n row (above p inLevel) made

theorem exists_level_of_mem_levelsFrom {k limit : Nat} (room : k + limit ≤ bound) (above : ∀ n ∈ level, P k n)
    (run : s.levelsFrom rows limit level = .ok ns) : ∀ n ∈ ns, ∃ j ≤ bound, P j n := by
  induction limit generalizing k level ns with
  | zero =>
    cases run
    exact fun n member => ⟨k, room, above n member⟩
  | succ limit ih =>
    rw [levelsFrom] at run
    split at run
    · cases run
      exact List.forall_mem_nil _
    · obtain ⟨next, nextOk, run⟩ := Outcome.bind_eq_ok_iff.mp run
      obtain ⟨rest, restOk, same⟩ := Outcome.bind_eq_ok_iff.mp run
      cases same
      have below := forall_mem_nextLevel children (show k < bound by omega) above nextOk
      refine List.forall_mem_append.mpr ⟨fun n member => ⟨k, by omega, above n member⟩, ?_⟩
      exact ih (by omega) below restOk

end Levels

/-- What holds of roots on level 0, and goes on from a node to its children on the next level, holds of each node on
some level up to the limit. -/
theorem exists_level_of_mem_nodes {P : Nat → Node → Prop} {records : List Record}
    (children : ∀ k < s.encoding.maxDepth, ∀ p r m, r ∈ s.scopeRows records → P k p → s.childNode p r = .ok m →
      P (k + 1) m)
    (roots : ∀ r ∈ s.scopeRows records, ∀ n, s.rootNode r = .ok n → P 0 n) (run : s.nodes records = .ok ns) :
    ∀ n ∈ ns, ∃ k ≤ s.encoding.maxDepth, P k n := by
  obtain ⟨level, levelOk, run⟩ := Outcome.bind_eq_ok_iff.mp run
  refine exists_level_of_mem_levelsFrom children (Nat.le_of_eq (Nat.zero_add _)) (fun n member => ?_) run
  obtain ⟨r, root, made⟩ := Outcome.exists_of_mem_right (Outcome.mapM_eq_ok_iff.mp levelOk) member
  exact roots r (List.mem_of_mem_filter root) n made

theorem exists_nextLevel (children : ∀ p, ∀ r ∈ rows, ∃ n, s.childNode p r = .ok n) (level : List Node) :
    ∃ ns, s.nextLevel rows level = .ok ns := by
  induction level with
  | nil => exact ⟨[], rfl⟩
  | cons p level ih =>
    obtain ⟨below, belowOk⟩ := Outcome.exists_mapM_eq_ok fun r member => children p r (List.mem_of_mem_filter member)
    obtain ⟨others, othersOk⟩ := ih
    exact ⟨below ++ others, Outcome.bind_eq_ok_iff.mpr ⟨below, belowOk, Outcome.bind_eq_ok_iff.mpr ⟨others, othersOk, rfl⟩⟩⟩

theorem exists_levelsFrom (children : ∀ p, ∀ r ∈ rows, ∃ n, s.childNode p r = .ok n) (limit : Nat) (level : List Node) :
    ∃ ns, s.levelsFrom rows limit level = .ok ns := by
  induction limit generalizing level with
  | zero => exact ⟨level, rfl⟩
  | succ limit ih =>
    rw [levelsFrom]
    split
    · exact ⟨[], rfl⟩
    · obtain ⟨next, nextOk⟩ := exists_nextLevel children level
      obtain ⟨rest, restOk⟩ := ih next
      exact ⟨level ++ rest, Outcome.bind_eq_ok_iff.mpr ⟨next, nextOk, Outcome.bind_eq_ok_iff.mpr ⟨rest, restOk, rfl⟩⟩⟩

/-- Where each row of the scope makes a root and a child, the nodes are reached without a failure. -/
theorem exists_nodes {records : List Record} (roots : ∀ r ∈ s.scopeRows records, ∃ n, s.rootNode r = .ok n)
    (children : ∀ p, ∀ r ∈ s.scopeRows records, ∃ n, s.childNode p r = .ok n) : ∃ ns, s.nodes records = .ok ns := by
  obtain ⟨level, levelOk⟩ := Outcome.exists_mapM_eq_ok fun r member => roots r (List.mem_of_mem_filter member)
  obtain ⟨ns, run⟩ := exists_levelsFrom children s.encoding.maxDepth level
  exact ⟨ns, Outcome.bind_eq_ok_iff.mpr ⟨level, levelOk, run⟩⟩

end ForestQuery.Statement
