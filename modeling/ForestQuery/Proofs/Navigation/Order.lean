import ForestQuery.Proofs.Apart
import ForestQuery.Proofs.Navigation.Sorted
/-!
The order of the rows of an answer, with no condition on the keys of the table. Main statement: where the rows of an
answer have identifiers of their own, they stand in the order of a depth-first walk.
-/

namespace ForestQuery

/-- The text by which a node is sorted. -/
def Node.text (n : Node) : List Char := n.ordering.chars?.getD []

namespace Compiled

variable {k : Compiler} {q : Request} {c : Compiled} {order : SiblingOrder} {ancestors : List AncestorField}
  {key : KeySource} {t : Table} {rows : List ScopeRow} {ns : List Node} {answer : List TreeRow} {n : Node}
  {row : TreeRow} {z z' : Node × TreeRow}

/-- The text of a node that is delivered has one part for each level. -/
theorem Delivers.text (fixed : c.statement.encoding.native = false) (delivers : c.Delivers n row) :
    Text.utf8 n.text = n.ordering.toBytes ∧ 0 < SegmentKind.levelWidth c.layout.ordering ∧
      n.text.length = (row.depth + 1) * SegmentKind.levelWidth c.layout.ordering := by
  obtain ⟨paths, levels, values, spelling⟩ := delivers.exists_spelling fixed
  obtain ⟨raw, made, -⟩ := delivers
  obtain ⟨_, _, _, -, column, -⟩ := Statement.rawRow?_eq_some_iff.mp made
  obtain ⟨cs, chars, -⟩ := Option.map_eq_some_iff.mp column
  have bytes := StoredText.utf8_of_chars? chars
  have same : n.text = cs := by rw [Node.text, chars, Option.getD_some]
  have spelled : cs = levels.flatten := Text.utf8_injective (bytes.trans spelling.ordering.bytes.symm)
  refine ⟨by rw [same, bytes], spelling.ordering.positive, ?_⟩
  rw [same, spelled, spelling.ordering.length_flatten, spelling.orderingLength]

namespace Answers

/-- Rows with identifiers of their own are those of nodes of their own. -/
theorem eq_of_id (answers : c.Answers rows ns answer) (distinct : (answer.map TreeRow.id).Nodup)
    (member : z ∈ ns.zip answer) (member' : z' ∈ ns.zip answer) (same : z.2.id = z'.2.id) : z = z' := by
  have pairs : (ns.zip answer).map Prod.snd = answer := List.map_snd_zip (Nat.le_of_eq answers.delivered.length_eq.symm)
  rw [← pairs, List.map_map] at distinct
  exact List.inj_on_of_nodup_map distinct member member' same

/-- The text of a node of an answer has one part for each level. -/
theorem text (answers : c.Answers rows ns answer) (member : z ∈ ns.zip answer) :
    Text.utf8 z.1.text = z.1.ordering.toBytes ∧ 0 < SegmentKind.levelWidth c.layout.ordering ∧
      z.1.text.length = (z.2.depth + 1) * SegmentKind.levelWidth c.layout.ordering :=
  (List.forall₂_zip answers.delivered member).text answers.fixed

/-- The path of a row ends in the row. -/
theorem getLast?_path (answers : c.Answers (c.statement.scopeRows t.records) ns answer) (member : z ∈ ns.zip answer) :
    z.2.path.getLast? = some z.2.id := by
  obtain ⟨_, _, _, _, -, -, adds⟩ := answers.exists_adds member
  rw [adds.path, List.getLast?_concat]

/-- Two rows, or nothing above the top, are the same where their paths are. -/
theorem eq_of_path {above above' : Option (Node × TreeRow)} (answers : c.Answers (c.statement.scopeRows t.records) ns answer)
    (distinct : (answer.map TreeRow.id).Nodup) (found : ∀ a ∈ above, a ∈ ns.zip answer)
    (found' : ∀ a ∈ above', a ∈ ns.zip answer)
    (same : (above.elim [] fun a => a.2.path) = above'.elim [] fun a => a.2.path) : above = above' := by
  have nonempty : ∀ a ∈ ns.zip answer, a.2.path ≠ [] := by
    intro a member none
    have last := answers.getLast?_path member
    rw [none] at last
    cases last
  match above, above' with
  | none, none => rfl
  | none, some b => exact absurd same.symm (nonempty b (found' b rfl))
  | some a, none => exact absurd same (nonempty a (found a rfl))
  | some a, some b =>
    have ids := congrArg List.getLast? same
    simp only [Option.elim_some, answers.getLast?_path (found a rfl), answers.getLast?_path (found' b rfl)] at ids
    rw [answers.eq_of_id distinct (found a rfl) (found' b rfl) (Option.some.inj ids)]

/-- Rows with the same text below the same one, or both on top, are one row. -/
theorem eq_of_text (answers : c.Answers (c.statement.scopeRows t.records) ns answer)
    (compiles : k.Compiles q c order ancestors key) (runnable : k.IsRunnable) (countable : t.IsCountable k.relation)
    (distinct : (answer.map TreeRow.id).Nodup) (member : z ∈ ns.zip answer) (member' : z' ∈ ns.zip answer)
    (texts : z.1.text = z'.1.text) (upper : z.2.path.dropLast = z'.2.path.dropLast) : z = z' := by
  obtain ⟨above, r, segment, level, found, extension, adds⟩ := answers.exists_adds member
  obtain ⟨above', r', segment', level', found', extension', adds'⟩ := answers.exists_adds member'
  rw [adds.path, adds'.path, List.dropLast_concat, List.dropLast_concat] at upper
  cases answers.eq_of_path distinct found found' upper
  obtain ⟨bytes, -⟩ := answers.text member
  obtain ⟨bytes', -⟩ := answers.text member'
  rw [extension.ordering, StoredText.toBytes_append] at bytes
  rw [← texts, extension'.ordering, StoredText.toBytes_append, bytes] at bytes'
  exact answers.eq_of_id distinct member member' (Compiler.id_eq_of_level compiles runnable countable extension extension'
    adds adds' (List.append_cancel_left bytes'))

/-- Rows with identifiers of their own are sorted by their texts. -/
theorem areSorted (answers : c.Answers (c.statement.scopeRows t.records) ns answer)
    (compiles : k.Compiles q c order ancestors key) (runnable : k.IsRunnable) (countable : t.IsCountable k.relation)
    (distinct : (answer.map TreeRow.id).Nodup) (positive : 0 < SegmentKind.levelWidth c.layout.ordering) :
    TreeRow.AreSorted (SegmentKind.levelWidth c.layout.ordering) ((ns.zip answer).map fun z => (z.1.text, z.2)) where
  positive
  sorted := by
    have nodes : (ns.zip answer).map Prod.fst = ns := List.map_fst_zip (Nat.le_of_eq answers.delivered.length_eq)
    have sorted := answers.sorted
    rw [← nodes, List.pairwise_map] at sorted
    refine List.pairwise_map.mpr (sorted.imp_of_mem fun {z z'} member member' le => ?_)
    obtain ⟨bytes, -⟩ := answers.text member
    obtain ⟨bytes', -⟩ := answers.text member'
    rw [Statement.compareNodes, Ordering.isLE_then_iff_and, Ordering.isLE_then_iff_and] at le
    rw [bytes, bytes']
    exact le.1.1
  length := by
    refine List.forall_mem_map.mpr fun z member => ?_
    exact (answers.text member).2.2
  closed := by
    refine List.forall_mem_map.mpr fun z member => ?_
    obtain ⟨above, r, segment, level, found, extension, adds⟩ := answers.exists_adds member
    cases above with
    | none => exact Or.inl ⟨adds.depth, adds.path⟩
    | some a =>
      have upper := found a rfl
      refine Or.inr ⟨_, List.mem_map_of_mem upper, adds.depth.trans (answers.length_path upper), adds.path, ?_⟩
      obtain ⟨bytes, -⟩ := answers.text member
      obtain ⟨bytes', -⟩ := answers.text upper
      refine Text.prefix_of_utf8 ⟨level.toBytes, ?_⟩
      rw [bytes, bytes', extension.ordering, StoredText.toBytes_append]
      rfl
  apart := by
    refine List.forall_mem_map.mpr fun z member => List.forall_mem_map.mpr fun z' member' texts upper => ?_
    rw [answers.eq_of_text compiles runnable countable distinct member member' texts upper]

end Answers

end Compiled

namespace Store

variable {s : Store} {relation : Relation} {config : Config} {q : Request} {t : Table} {answer : List TreeRow}

/-- Where the rows of an answer have identifiers of their own, they are in the order of a depth-first walk. -/
theorem isPreorder_of_distinct (isOpen : s.IsOpen relation config)
    (readable : s.database.readable? relation.table = some t) (countable : t.IsCountable relation)
    (answered : s.query q = .ok answer) (distinct : (answer.map TreeRow.id).Nodup) : TreeRow.IsPreorder answer := by
  obtain ⟨c, t', ns, compiled, readable', answers⟩ := exists_answers isOpen answered
  cases readable.symm.trans readable'
  obtain ⟨order, ancestors, key, compiles⟩ := Compiler.compile_eq_ok compiled
  refine ⟨?_, distinct⟩
  cases pairs : ns.zip answer with
  | nil =>
    have none : answer = [] := by
      rw [← List.map_snd_zip (Nat.le_of_eq answers.delivered.length_eq.symm), pairs, List.map_nil]
    rw [none]
    exact .done
  | cons z zs =>
    have member : z ∈ ns.zip answer := by rw [pairs]; exact List.mem_cons_self
    obtain ⟨-, positive, -⟩ := answers.text member
    rw [← isOpen.describes] at countable
    have walk := (answers.areSorted compiles (isRunnable isOpen) countable distinct positive).walk
    rw [List.map_map] at walk
    have same : (ns.zip answer).map (Prod.snd ∘ fun z => (z.1.text, z.2)) = answer :=
      List.map_snd_zip (Nat.le_of_eq answers.delivered.length_eq.symm)
    rwa [same] at walk

end Store

end ForestQuery
