import ForestQuery.Proofs.AncestorField
import ForestQuery.Proofs.Compiler
import ForestQuery.Proofs.Node
import ForestQuery.Proofs.Text.Decimal
import ForestQuery.Result
/-!
The columns of a compiled request. Main statement: the recursion declares and fills one column for each ancestor field
behind its own four, the result lists them with those of the relation, and a row that is read by places alone has each
of them where the layout expects it, so that what a store returns is what is read from the cells of the nodes.
-/

namespace ForestQuery

namespace Layout

variable {α β : Type}

theorem labelled_eq_zip (front rest : List α) {cells values : List α} {start : Nat} {labels : List β}
    (shape : cells = front ++ values ++ rest) (before : front.length = start) (same : values.length = labels.length) :
    labelled cells start labels = some (labels.zip values) := by
  induction labels generalizing front values start with
  | nil => rfl
  | cons label labels ih =>
    obtain ⟨v, vs, rfl⟩ := List.exists_cons_of_length_eq_add_one same
    have first : cells[start]? = some v := by simp [shape, ← before]
    have next := ih (front ++ [v]) (by simp [shape] : cells = front ++ [v] ++ vs ++ rest)
      (by simp [before] : (front ++ [v]).length = start + 1) (Nat.succ.inj same)
    simp only [labelled, first, next, Option.bind_eq_bind, Option.bind_some, Option.pure_def, List.zip_cons_cons]

variable (l : Layout) {depth path ordering id parent : α} {as fs cells : List α}

/-- Cells are found where they were put. -/
theorem place_eq (shape : cells = [depth, path, ordering] ++ as ++ [id, parent] ++ fs)
    (ancestors : as.length = l.ancestors.length) (fields : fs.length = l.fields.length) :
    l.place cells = some ⟨depth, path, ordering, l.ancestors.zip as, id, parent, l.fields.zip fs⟩ := by
  have start : cells[0]? = some depth ∧ cells[1]? = some path ∧ cells[2]? = some ordering := by simp [shape]
  have middle : labelled cells 3 l.ancestors = some (l.ancestors.zip as) :=
    labelled_eq_zip [depth, path, ordering] ([id, parent] ++ fs) (by simp [shape]) rfl ancestors
  have atId : cells[3 + l.ancestors.length]? = some id := by simp [shape, ← ancestors, Nat.add_comm 3]
  have atParent : cells[3 + l.ancestors.length + 1]? = some parent := by simp [shape, ← ancestors, Nat.add_comm 3]
  have last : labelled cells (3 + l.ancestors.length + 2) l.fields = some (l.fields.zip fs) :=
    labelled_eq_zip ([depth, path, ordering] ++ as ++ [id, parent]) [] (by simp [shape])
      (by simp [← ancestors, Nat.add_comm 3]) fields
  simp only [place, start, middle, atId, atParent, last, Option.bind_eq_bind, Option.bind_some, Option.pure_def]

theorem exists_split {m n : Nat} {xs : List α} (length : xs.length = m + n) :
    ∃ front back, xs = front ++ back ∧ front.length = m ∧ back.length = n :=
  ⟨xs.take m, xs.drop m, (List.take_append_drop m xs).symm, by simp [length], by simp [length]⟩

/-- A row of as many cells as the layout has places is read whole, each cell once. -/
theorem exists_place (whole : cells.length = 3 + (l.ancestors.length + (2 + l.fields.length))) :
    ∃ p, l.place cells = some p ∧ p.cells = cells := by
  obtain ⟨front, behind, rfl, three, length⟩ := exists_split whole
  obtain ⟨as, behind, rfl, ancestors, length⟩ := exists_split length
  obtain ⟨middle, fs, rfl, two, fields⟩ := exists_split length
  obtain ⟨depth, path, ordering, rfl⟩ := List.length_eq_three.mp three
  obtain ⟨id, parent, rfl⟩ := List.length_eq_two.mp two
  have shape : [depth, path, ordering] ++ (as ++ ([id, parent] ++ fs)) =
      [depth, path, ordering] ++ as ++ [id, parent] ++ fs := by
    simp only [List.append_assoc]
  refine ⟨_, l.place_eq shape ancestors fields, ?_⟩
  rw [Placed.cells, List.map_snd_zip ancestors.le, List.map_snd_zip fields.le, shape]

end Layout

namespace AncestorField

theorem toList_columnName (index : Nat) : (columnName index).toList = ['t', 'f', '_'] ++ Text.decimalDigits index := by
  rw [columnName, String.toList_join]
  simp [Text.decimalDigits]

theorem columnName_injective : Function.Injective columnName := by
  intro m n same
  have digits := congrArg String.toList same
  rw [toList_columnName, toList_columnName, List.append_cancel_left_eq] at digits
  have number := congrArg Text.natOfDigits? digits
  rw [Text.natOfDigits?_decimalDigits, Text.natOfDigits?_decimalDigits] at number
  exact Option.some.inj number

end AncestorField

namespace Statement

variable {s : Statement}

/-- What stands under distinct names is found there. -/
theorem map_lookup_zip {keys : List String} {values : List Cell} (distinct : keys.Nodup)
    (same : values.length = keys.length) :
    keys.map (fun key => ((keys.zip values).lookup key).getD (.value .null)) = values := by
  induction keys generalizing values with
  | nil => exact (List.length_eq_zero_iff.mp same).symm
  | cons key keys ih =>
    obtain ⟨v, vs, rfl⟩ := List.exists_cons_of_length_eq_add_one same
    obtain ⟨apart, others⟩ := List.nodup_cons.mp distinct
    have rest : keys.map (fun k => (((key, v) :: keys.zip vs).lookup k).getD (.value .null)) = vs := by
      refine (List.map_congr_left fun k member => ?_).trans (ih others (Nat.succ.inj same))
      have other : (k == key) = false := beq_eq_false_iff_ne.mpr fun equal => apart (equal ▸ member)
      rw [List.lookup_cons, other]
    rw [List.zip_cons_cons, List.map_cons, rest, List.lookup_cons_self, Option.getD_some]

theorem nodup_columns {n : Nat}
    (numbered : s.ancestors.map (fun a => a.1.column) = (List.range n).map AncestorField.columnName) :
    s.columns.Nodup := by
  rw [columns, numbered, List.nodup_append]
  refine ⟨by decide, List.nodup_range.map AncestorField.columnName_injective, fun name own other generated => ?_⟩
  obtain ⟨i, -, rfl⟩ := List.mem_map.mp generated
  rintro rfl
  have second : (AncestorField.columnName i).toList[1]? = some 'f' := by
    rw [AncestorField.toList_columnName]
    rfl
  simp only [List.mem_cons, List.not_mem_nil, or_false] at own
  rcases own with same | same | same | same
  all_goals
    rw [same] at second
    revert second
    decide

theorem length_ancestorTexts {env : Reference → Value} {ts : List StoredText} (written : s.ancestorTexts env = .ok ts) :
    ts.length = s.ancestors.length :=
  (Outcome.mapM_eq_ok_iff.mp written).length_eq.symm

/-- A node has a text for each ancestor field. -/
theorem length_ancestors {records : List Record} {ns : List Node} (run : s.nodes records = .ok ns) :
    ∀ n ∈ ns, n.ancestors.length = s.ancestors.length := by
  have counted := exists_level_of_mem_nodes (P := fun _ n => n.ancestors.length = s.ancestors.length)
    (fun k _ p r n _ width made => ?_) (fun r _ n made => ?_) run
  · intro n member
    obtain ⟨-, -, width⟩ := counted n member
    exact width
  · obtain ⟨_, _, ts, -, -, written, rfl⟩ := exists_texts_of_childNode made
    rw [List.length_map, List.length_zip, width, length_ancestorTexts written, Nat.min_self]
  · obtain ⟨_, _, ts, -, -, written, rfl⟩ := exists_texts_of_rootNode made
    exact length_ancestorTexts written

variable {l : Layout} {n : Node}

theorem cells_eq (distinct : s.columns.Nodup) (width : n.ancestors.length = s.ancestors.length) :
    s.cells n = [.value (.integer (Int64.ofNat n.depth)), .text n.path, .text n.ordering] ++ n.ancestors.map .text ++
      [.value (s.keyOf n.record), .value (s.parentOf n.record)] ++
      s.relation.fields.map fun f => .value (n.record.value f.name) := by
  have found : s.columns.map (fun column => s.outputCell n (.tree column)) = treeCells n :=
    map_lookup_zip distinct (by simp [treeCells, columns, width])
  simp only [columns, treeCells, List.cons_append, List.nil_append, List.map_cons, List.map_map, List.cons.injEq] at found
  obtain ⟨depth, path, ordering, -, ancestors⟩ := found
  simp only [cells, outputs, List.map_append, List.map_cons, List.map_nil, List.map_map, depth, path, ordering,
    ← ancestors, List.append_assoc]
  rfl

theorem mapM_column?_zip {β : Type} {labels : List β} {ts : List StoredText} (same : ts.length = labels.length) :
    (labels.zip (ts.map Cell.text)).mapM (fun a => a.2.column?) = ts.mapM encodedColumn? := by
  induction labels generalizing ts with
  | nil =>
    rw [List.length_eq_zero_iff.mp same]
    rfl
  | cons label labels ih =>
    obtain ⟨t, ts, rfl⟩ := List.exists_cons_of_length_eq_add_one same
    rw [List.map_cons, List.zip_cons_cons, List.mapM_cons, List.mapM_cons, ih (Nat.succ.inj same)]
    rfl

/-- Reading a row by places gives what the statement returns for the node. -/
theorem rawRow?_cells (distinct : s.columns.Nodup) (width : n.ancestors.length = s.ancestors.length)
    (ancestors : l.ancestors.length = s.ancestors.length)
    (fields : l.fields = s.relation.fields.map fun f => (f.name, f.type)) : l.rawRow? (s.cells n) = s.rawRow? n := by
  have placed := l.place_eq (cells_eq distinct width) (by rw [List.length_map, width, ancestors]) (by simp [fields])
  rw [Layout.rawRow?, placed, Option.bind_some, Placed.rawRow?]
  simp only [mapM_column?_zip (width.trans ancestors.symm), fields, List.zip_map', List.map_map]
  rfl

end Statement

section Agreement

open Statement

/-- The columns of a request for `n` ancestor fields, from the recursion to the rows that are read. -/
structure Compiled.ColumnsAgree (c : Compiler) (q : Request) (out : Compiled) (key : KeySource) (n : Nat) : Prop where
  counted : out.statement.columns.length = 4 + n ∧ out.statement.anchor.length = 4 + n ∧
    out.statement.step.length = 4 + n
  declared : out.statement.columns.take 4 = [depthColumn, pathColumn, orderingColumn, keyColumn]
  started : out.statement.anchor.take 4 = ["0", out.statement.encoding.start out.statement.path,
    out.statement.encoding.start out.statement.ordering, out.statement.sourceKey]
  extended : ∃ depth, depth = String.join [ofTree depthColumn, " + 1"] ∧ out.statement.step.take 4 = [depth,
    out.statement.encoding.depthGuard depth
      (out.statement.encoding.extend (ofTree pathColumn) out.statement.path),
    out.statement.encoding.extend (ofTree orderingColumn) out.statement.ordering, out.statement.sourceKey]
  path : out.statement.encoding.element [⟨.reference (.column source c.relation.key), out.layout.path⟩] =
    .ok out.statement.path
  ordering : out.statement.encoding.element key.parts = .ok out.statement.ordering ∧
    out.layout.ordering = key.parts.map Part.kind
  /-- The `i`-th output in the order of the names is the `i`-th ancestor of the layout, and its segment is what the
  expressions for the column `tf_i` are built with. -/
  ancestor : ∀ i output column, q.ancestorFields.toList[i]? = some (output, column) → ∃ kind el,
    out.layout.ancestors[i]? = some (output, kind) ∧
    out.statement.encoding.element [⟨.reference (.column source column), kind⟩] = .ok el ∧
    out.statement.columns[4 + i]? = some (AncestorField.columnName i) ∧
    out.statement.anchor[4 + i]? = some (out.statement.encoding.start el) ∧
    out.statement.step[4 + i]? = some (out.statement.encoding.extend (ofTree (AncestorField.columnName i)) el)
  selected : out.statement.selected = [ofTree depthColumn, ofTree pathColumn, ofTree orderingColumn] ++
    (List.range n).map (fun i => ofTree (AncestorField.columnName i)) ++
    [out.statement.outputText (.table c.relation.key), out.statement.outputText (.table c.relation.parent)] ++
    c.relation.fields.map fun f => out.statement.outputText (.table f.name)
  /-- What the reader takes the columns of the result for. -/
  placed : out.layout.ancestors.length = n ∧ out.layout.place out.statement.selected = some {
    depth := ofTree depthColumn
    path := ofTree pathColumn
    ordering := ofTree orderingColumn
    ancestors := out.layout.ancestors.zip ((List.range n).map fun i => ofTree (AncestorField.columnName i))
    id := out.statement.outputText (.table c.relation.key)
    parent := out.statement.outputText (.table c.relation.parent)
    fields := c.relation.fields.map fun f => ((f.name, f.type), out.statement.outputText (.table f.name)) }
  /-- The reader looks at each place of the result once, in order. -/
  covered : ∃ p, out.layout.place (List.range out.statement.selected.length) = some p ∧
    p.cells = List.range out.statement.selected.length

namespace Compiler

variable {c : Compiler} {q : Request} {out : Compiled} {order : SiblingOrder} {ancestors : List AncestorField}
  {key : KeySource}

theorem map_fst_ancestors (compiles : c.Compiles q out order ancestors key) :
    out.statement.ancestors.map Prod.fst = ancestors := by
  have same := Outcome.map_eq_map (f := id) (g := Prod.fst) (compiles.elements.imp fun a el built => built.1.symm)
  rw [← same, List.map_id]

theorem map_column_ancestors (compiles : c.Compiles q out order ancestors key) :
    out.statement.ancestors.map (fun a => a.1.column) =
      (List.range q.ancestorFields.toList.length).map AncestorField.columnName := by
  have numbered := AncestorField.map_column_of_checkAll compiles.collected
  rw [← List.range_eq_range', ← map_fst_ancestors compiles, List.map_map] at numbered
  exact numbered

theorem length_statement_ancestors (compiles : c.Compiles q out order ancestors key) :
    out.statement.ancestors.length = q.ancestorFields.toList.length := by
  have numbered := congrArg List.length (map_column_ancestors compiles)
  rwa [List.length_map, List.length_map, List.length_range] at numbered

theorem length_layout_ancestors (compiles : c.Compiles q out order ancestors key) :
    out.layout.ancestors.length = out.statement.ancestors.length := by
  rw [compiles.layout, layout, List.length_map, ← map_fst_ancestors compiles, List.length_map]

theorem layout_fields (compiles : c.Compiles q out order ancestors key) :
    out.layout.fields = out.statement.relation.fields.map fun f => (f.name, f.type) := by
  rw [compiles.layout, compiles.relation, layout]

/-- The ancestor field of an output, with what it adds to its column. -/
theorem exists_ancestor (compiles : c.Compiles q out order ancestors key) {i : Nat} {output column : String}
    (asked : q.ancestorFields.toList[i]? = some (output, column)) :
    ∃ a el, out.statement.ancestors[i]? = some (a, el) ∧ a.output = output ∧ a.source = column ∧
      a.column = AncestorField.columnName i ∧
      out.statement.encoding.element [a.part source c.config.textWidth] = .ok el := by
  have pairs := AncestorField.map_of_checkAll compiles.collected
  rw [← map_fst_ancestors compiles, List.map_map] at pairs
  rw [← pairs, List.getElem?_map, Option.map_eq_some_iff] at asked
  obtain ⟨⟨a, el⟩, found, same⟩ := asked
  obtain ⟨rfl, rfl⟩ := Prod.mk.inj same
  have numbered : (out.statement.ancestors.map fun a => a.1.column)[i]? = some a.column := by
    rw [List.getElem?_map, found, Option.map_some]
  rw [map_column_ancestors compiles, List.getElem?_map, Option.map_eq_some_iff] at numbered
  obtain ⟨j, inRange, named⟩ := numbered
  obtain ⟨bound, place⟩ := List.getElem?_eq_some_iff.mp inRange
  rw [List.getElem_range] at place
  subst place
  obtain ⟨_, -, rfl, built⟩ := Outcome.exists_of_mem_right compiles.elements (List.mem_of_getElem? found)
  exact ⟨a, el, found, rfl, rfl, named.symm, built⟩

theorem selected_eq (compiles : c.Compiles q out order ancestors key) :
    out.statement.selected = [ofTree depthColumn, ofTree pathColumn, ofTree orderingColumn] ++
      (List.range q.ancestorFields.toList.length).map (fun i => ofTree (AncestorField.columnName i)) ++
      [out.statement.outputText (.table c.relation.key), out.statement.outputText (.table c.relation.parent)] ++
      c.relation.fields.map fun f => out.statement.outputText (.table f.name) := by
  have numbered := congrArg (List.map ofTree) (map_column_ancestors compiles)
  rw [List.map_map, List.map_map] at numbered
  have named : (out.statement.ancestors.map fun a => ofTree a.1.column) = _ := numbered
  rw [selected, named, ← compiles.relation]
  simp only [Relation.columns, List.map_cons, List.append_assoc]
  rfl

theorem columnsAgree (compiles : c.Compiles q out order ancestors key) :
    out.ColumnsAgree c q key q.ancestorFields.toList.length := by
  have width := length_statement_ancestors compiles
  have ofLayout := (length_layout_ancestors compiles).trans width
  have shape := selected_eq compiles
  have fields : out.layout.fields.length = c.relation.fields.length := by
    rw [layout_fields compiles, compiles.relation, List.length_map]
  have declared : out.statement.columns.length = 4 + q.ancestorFields.toList.length := by
    rw [columns, List.length_append, List.length_map, width]
    rfl
  exact {
    counted := ⟨declared, by rw [length_anchor, declared], by rw [length_step, declared]⟩
    declared := rfl
    started := rfl
    extended := ⟨_, rfl, rfl⟩
    path := by
      rw [compiles.layout]
      exact compiles.path
    ordering := ⟨compiles.ordering, by rw [compiles.layout]; rfl⟩
    ancestor := by
      intro i output column asked
      obtain ⟨a, el, found, rfl, rfl, named, built⟩ := exists_ancestor compiles asked
      have ofField : ancestors[i]? = some a := by
        rw [← map_fst_ancestors compiles, List.getElem?_map, found, Option.map_some]
      refine ⟨_, el, ?_, built, ?_, ?_, ?_⟩
      · rw [compiles.layout, layout, List.getElem?_map, ofField, Option.map_some]
      · simp [columns, Nat.add_comm 4, found, named]
      · simp [anchor, Nat.add_comm 4, found]
      · simp [step, Nat.add_comm 4, found, named]
    selected := shape
    placed := ⟨ofLayout, by
      rw [out.layout.place_eq shape (by simp [ofLayout]) (by simp [fields]), layout_fields compiles,
        compiles.relation, List.zip_map']⟩
    covered := by
      refine out.layout.exists_place ?_
      rw [List.length_range, shape, ofLayout, fields]
      simp
      omega }

/-- The recursion, the result and the reader agree on the columns of a compiled request, and the rows that a store
returns are read from the cells of the result by their places. -/
theorem columns_agree (compiled : c.compile q = .ok out) :
    (∃ order key, SiblingOrder.resolve c.relation q.ordering = .ok order ∧ c.keySource order out.ranked = .ok key ∧
      out.ColumnsAgree c q key q.ancestorFields.toList.length) ∧
    out.statement.selected = out.statement.outputs.map out.statement.outputText ∧
    ∀ records, out.statement.run records = (out.statement.nodes records).map fun nodes =>
      (nodes.mergeSort inOrder).map fun n => out.layout.rawRow? (out.statement.cells n) := by
  obtain ⟨order, ancestors, key, compiles⟩ := compile_eq_ok compiled
  refine ⟨⟨order, key, compiles.resolved, compiles.keyed, columnsAgree compiles⟩, ?_, fun records => ?_⟩
  · simp only [selected, outputs, List.map_append, List.map_map]
    rfl
  · have distinct := nodup_columns (map_column_ancestors compiles)
    cases walked : out.statement.nodes records with
    | error raised =>
      rw [run, walked]
      rfl
    | ok ns =>
      have read : ∀ n ∈ ns.mergeSort inOrder, out.statement.rawRow? n = out.layout.rawRow? (out.statement.cells n) := by
        intro n member
        have width := length_ancestors walked n (List.mem_mergeSort.mp member)
        exact (rawRow?_cells distinct width (length_layout_ancestors compiles) (layout_fields compiles)).symm
      rw [run, walked]
      exact congrArg Except.ok (List.map_congr_left read)

theorem columns_agree_two_fields : ∃ r out, (Compiler.mk r .default false).compile
      (Request.empty.withFields [("b", "name"), ("a", "position")]) = .ok out ∧
    (out.statement.columns.length = 6 ∧ out.statement.anchor.length = 6 ∧ out.statement.step.length = 6) ∧
    out.layout.ancestors = [("a", .integer), ("b", .text 64)] ∧
    out.layout.ancestors.length = 2 ∧
    out.statement.selected = ["__tree.tree_depth", "__tree.tree_path", "__tree.tree_ordering", "__tree.tf_0",
      "__tree.tf_1", "T.\"id\"", "T.\"parent_id\"", "T.\"name\"", "T.\"position\""] := by
  have checks : ((Compiler.mk ⟨"nodes", "id", .integer, "parent_id", [⟨"name", .text⟩, ⟨"position", .integer⟩]⟩
      .default false).compile (Request.empty.withFields [("b", "name"), ("a", "position")])).toOption.any
      (fun out => out.layout.ancestors == [("a", .integer), ("b", .text 64)] && out.statement.selected ==
        ["__tree.tree_depth", "__tree.tree_path", "__tree.tree_ordering", "__tree.tf_0", "__tree.tf_1", "T.\"id\"",
          "T.\"parent_id\"", "T.\"name\"", "T.\"position\""]) = true := by
    decide
  obtain ⟨out, compiled, holds⟩ := Outcome.exists_of_any checks
  obtain ⟨⟨order, key, -, -, agree⟩, -, -⟩ := columns_agree compiled
  rw [Bool.and_eq_true, beq_iff_eq, beq_iff_eq] at holds
  exact ⟨_, out, compiled, agree.counted, holds.1, agree.placed.1, holds.2⟩

end Compiler

end Agreement

end ForestQuery
