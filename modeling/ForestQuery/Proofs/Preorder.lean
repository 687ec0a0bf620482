import ForestQuery.Proofs.Reading
import ForestQuery.Proofs.Walk
/-!
The order of the rows that a statement returns. Main statement: where the ordering of each node is made of levels
of one width in ASCII that increase along siblings, the rows stand in the order of the depth-first walk.
-/

namespace ForestQuery

namespace Text

theorem isAscii_flatMap {α : Type} {level : α → List Char} {xs : List α} (ascii : ∀ x ∈ xs, IsAscii (level x)) :
    IsAscii (xs.flatMap level) := by
  intro c member
  obtain ⟨x, inList, inLevel⟩ := List.mem_flatMap.mp member
  exact ascii x inList c inLevel

theorem codes_flatMap {α : Type} (level : α → List Char) (xs : List α) :
    codes (xs.flatMap level) = xs.flatMap fun x => codes (level x) :=
  List.map_flatMap

end Text

namespace Statement

variable {s : Statement} {f : Forest} {o : SiblingOrder} {level : Record → List Char} {width : Nat}

theorem compareNodes_eq_compareLex : compareNodes = compareLex (compareLex
    (compareOn fun n : Node => n.ordering.toBytes) (compareOn fun n : Node => n.path.toBytes))
    (compareOn fun n : Node => n.record.number.toInt) := by
  funext a b
  rw [compareNodes, Text.compareBytes_eq_compare, Text.compareBytes_eq_compare]
  rfl

instance : Std.TransCmp compareNodes := by
  rw [compareNodes_eq_compareLex]
  infer_instance

theorem inOrder_eq (a b : Node) : inOrder a b = (compareNodes a b).isLE := by
  rw [inOrder]
  cases compareNodes a b <;> rfl

/-- The order of rows in the result, by their nodes. -/
def compareRows (s : Statement) (f : Forest) (c d : Record × List Record) : Ordering :=
  compareNodes (s.nodeAt f.rows c.1 c.2) (s.nodeAt f.rows d.1 d.2)

instance (s : Statement) (f : Forest) : Std.TransCmp (s.compareRows f) :=
  transCmp_on compareNodes fun c : Record × List Record => s.nodeAt f.rows c.1 c.2

theorem pairwise_ordered (s : Statement) (f : Forest) :
    (s.ordered f).Pairwise fun c d => (s.compareRows f c d).isLE = true := by
  simp only [ordered, inOrder_eq]
  exact pairwise_mergeSort_isLE (s.compareRows f) _

/-- What the levels of an ordering have to be for the rows to stand in depth-first order. -/
structure HasLevels (s : Statement) (f : Forest) (o : SiblingOrder) (level : Record → List Char) (width : Nat) :
    Prop where
  ascii : ∀ r as, f.Lineage r as → Text.IsAscii (level r)
  codes : f.HasCodes o (fun r => Text.codes (level r)) width
  ordering : ∀ r as, f.Lineage r as →
    (s.nodeAt f.rows r as).ordering = .ofChars ((Forest.pathTo r as).flatMap level)

theorem compareRows_of_codes {c d : Record × List Record} (levels : s.HasLevels f o level width)
    (first : f.Lineage c.1 c.2) (second : f.Lineage d.1 d.2)
    (less : compare (Forest.codesTo (fun r => Text.codes (level r)) c)
      (Forest.codesTo (fun r => Text.codes (level r)) d) = .lt) : s.compareRows f c d = .lt := by
  have ascii : ∀ e : Record × List Record, f.Lineage e.1 e.2 →
      Text.IsAscii ((Forest.pathTo e.1 e.2).flatMap level) := by
    intro e lineage
    refine Text.isAscii_flatMap fun r onPath => ?_
    obtain ⟨bs, above⟩ := lineage.exists_of_mem_pathTo onPath
    exact levels.ascii r bs above
  have ordering : Text.compareBytes (s.nodeAt f.rows c.1 c.2).ordering.toBytes
      (s.nodeAt f.rows d.1 d.2).ordering.toBytes = .lt := by
    rw [levels.ordering c.1 c.2 first, levels.ordering d.1 d.2 second, StoredText.toBytes_ofChars,
      StoredText.toBytes_ofChars, Text.compareBytes_eq_compare, Text.compare_utf8 (ascii c first) (ascii d second),
      Text.codes_flatMap, Text.codes_flatMap]
    exact less
  rw [compareRows, compareNodes, ordering]
  rfl

/-- The rows of the statement stand in the order of the depth-first walk. -/
theorem isPreorder_ordered (traverses : s.CanTraverse f) (keyed : o.key = f.relation.key)
    (levels : s.HasLevels f o level width) : f.IsPreorder o (s.ordered f) := by
  obtain ⟨out, preorder⟩ := Forest.exists_walk (o := o) fun r as lineage => (traverses r as lineage).1
  have increasing := preorder.pairwise levels.codes keyed
  have strict : out.Pairwise fun c d => s.compareRows f c d = .lt :=
    increasing.imp_of_mem fun {c d} first second less =>
      compareRows_of_codes levels (preorder.mem_iff.mp first) (preorder.mem_iff.mp second) less
  have members : ∀ c, c ∈ s.ordered f ↔ c ∈ out := by
    intro c
    rw [mem_ordered_iff traverses, preorder.mem_iff]
  have distinct : (s.ordered f).Nodup := List.Nodup.of_map Prod.fst (s.nodup_ordered f)
  rw [eq_of_pairwise_lt (s.pairwise_ordered f) strict members distinct]
  exact preorder

end Statement

namespace Compiler

variable {k : Compiler} {q : Request} {c : Compiled} {order : SiblingOrder} {ancestors : List AncestorField}
  {key : KeySource} {f : Forest} {r : Record} {as : List Record} {level : Record → List Char}

/-- The ordering of a node is made of the levels along its lineage. -/
theorem ordering_eq (compiles : k.Compiles q c order ancestors key) (runnable : k.IsRunnable)
    (same : f.relation = k.relation) (lineage : f.Lineage r as)
    (typed : c.ranked = false → ∀ q ∈ f.rows, order.IsTyped q)
    (written : ∀ q ∈ Forest.pathTo r as, Column.encodeLevel key.kinds (c.levelValues order f.rows q) = .ok (level q)) :
    (c.statement.nodeAt f.rows r as).ordering = .ofChars ((Forest.pathTo r as).flatMap level) := by
  have held : ∀ q ∈ Forest.pathTo r as,
      Element.AreHeld (c.statement.scopeRow f.rows q).env key.parts (c.levelValues order f.rows q) ∧
        (∀ kind ∈ key.kinds, kind.IsBounded) ∧ key.kinds ≠ [] := by
    intro q onPath
    have row := lineage.mem_pathTo onPath
    exact ordering_held compiles runnable same row fun unranked => typed unranked q row
  have bounded := (held r (by simp [Forest.pathTo])).2.1
  obtain ⟨cs, levels, text⟩ := Statement.chainText_eq f.rows (encoding_eq compiles runnable) compiles.ordering
    (fun p member => bounded p.kind (List.mem_map_of_mem member)) (fun q onPath => (held q onPath).1)
    fun q onPath => ⟨level q, written q onPath⟩
  have same : cs = (Forest.pathTo r as).flatMap level :=
    Except.ok.inj (levels.symm.trans (Column.encodeLevels_map written))
  rw [← same]
  exact text

end Compiler

end ForestQuery
