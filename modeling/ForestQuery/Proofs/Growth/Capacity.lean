import ForestQuery.Proofs.Acceptance
import ForestQuery.Proofs.Depth
import ForestQuery.Proofs.Expr.Width
import ForestQuery.Proofs.Growth
import ForestQuery.Proofs.Result
/-!
The room for accumulated columns where the first value of a column settles its type. Main statement: every such column
is declared with exactly the characters of the longest value that the recursion can accumulate in it, so that none is
cut before a row at the limit is refused.
-/

namespace ForestQuery

/-- The first value of a column, declared as a text of so many characters. -/
def Growing.declared (g : Growing) (chars : Nat) : String :=
  String.join ["CAST(", g.element.text .mysql, " AS CHAR(", toString chars, "))"]

/-- Whether a value fills the segments of columns of a type, where these have any. -/
def FieldType.Fills (type : FieldType) (v : Value) : Prop :=
  match type with
  | .integer | .uuid | .text => Segment.Fills v (.ofFieldType 0 type)
  | .real | .boolean | .blob => True

/-- Whether references to a relation stand for values that fill the segments of their columns. -/
structure Relation.Fills (relation : Relation) (env : Reference → Value) : Prop where
  key : ∀ source, Segment.Fills (env (.column source relation.key)) (.ofFieldType 0 relation.keyType)
  columns : ∀ source name type, relation.fieldType? name = some type → type.Fills (env (.column source name))
  rank : ∀ source, Segment.Fills (env (.generated source SiblingOrder.rankColumn)) .integer

/-- Absent values fill every segment. -/
theorem Relation.fills_null (relation : Relation) : relation.Fills fun _ => .null where
  key _ := Segment.fills_null _
  columns _ _ type _ := by
    cases type with
    | integer | uuid | text => exact Or.inl rfl
    | real | boolean | blob => trivial
  rank _ := Segment.fills_null _

section Parts

variable {relation : Relation} {env : Reference → Value} {d : Dialect} {p : Part} {source : String} {keyBytes : Nat}

theorem Relation.Fills.isFilled_key (fills : relation.Fills env) :
    Part.IsFilled d env ⟨.reference (.column source relation.key), .ofFieldType 0 relation.keyType⟩ :=
  ⟨env (.column source relation.key), rfl, fills.key source⟩

theorem Relation.Fills.isFilled_ancestor (fills : relation.Fills env) {a : AncestorField} (textWidth : Nat)
    (known : relation.fieldType? a.source = some a.sourceType)
    (collectable : AncestorField.isCollectable a.sourceType = true) : (a.part source textWidth).IsFilled d env := by
  have filled := fills.columns source a.source a.sourceType known
  refine ⟨env (.column source a.source), rfl, ?_⟩
  rw [AncestorField.part, AncestorField.kind]
  cases type : a.sourceType with
  | integer | text =>
    rw [type] at filled
    exact filled
  | uuid | real | boolean | blob =>
    rw [type] at collectable
    cases collectable

namespace SiblingOrder

theorem isFilled_part {f : SortField} (keyed : f.IsKeyed) (known : relation.fieldType? f.field = some f.type)
    (fills : relation.Fills env) (keyBytes : Nat) (source : String) : (f.part keyBytes source).IsFilled d env := by
  have value : (Expr.reference (.column source f.field)).eval d env = .ok (env (.column source f.field)).scalar := rfl
  have filled := fills.columns source f.field f.type known
  obtain ⟨name, direction, type⟩ := f
  rcases keyed with rfl | rfl | rfl
  · cases direction with
    | ascending => exact ⟨_, value, filled⟩
    | descending =>
      -- The only value that is changed on its way into a segment is an integer to be sorted from above.
      rcases filled with absent | ⟨i, integer⟩
      · refine ⟨.null, ?_, Segment.fills_null _⟩
        rw [absent] at value
        rw [SortField.part, SortField.levelExpr, Expr.eval, value]
        rfl
      · rw [integer] at value
        exact ⟨.integer (Int64.ofInt (-1 - i.toInt)), SortField.eval_mirrored value, Or.inr ⟨_, rfl⟩⟩
  · cases direction with
    | ascending => exact ⟨_, value, filled⟩
    | descending => exact ⟨_, value, Segment.Fills.textKey filled _ _⟩
  · exact ⟨_, value, filled⟩

theorem isFilled_keyPart {o : SiblingOrder} (resolves : o.Resolves relation) (fills : relation.Fills env)
    (source : String) : (o.keyPart source).IsFilled d env := by
  rw [keyPart, resolves.key, resolves.keyType]
  exact fills.isFilled_key

end SiblingOrder

end Parts

namespace Compiler

variable {c : Compiler} {q : Request} {out : Compiled} {order : SiblingOrder} {ancestors : List AncestorField}
  {key : KeySource} {g : Growing} {env : Reference → Value} {relation : Relation} {config : Config}

theorem isFilled_of_keySource (compiles : c.Compiles q out order ancestors key) (fills : c.relation.Fills env) :
    ∀ p ∈ key.parts, p.IsFilled c.config.dialect env := by
  have resolves := SiblingOrder.resolves compiles.resolved
  exact forall_parts_of_keySource compiles.keyed ⟨_, rfl, fills.rank Statement.source⟩
    (SiblingOrder.isFilled_keyPart resolves fills Statement.source) fun f member writable =>
      SiblingOrder.isFilled_part writable.1 (Relation.requireField_eq_ok_iff.mp (resolves.typed f member)) fills _ _

theorem map_element_growing (compiles : c.Compiles q out order ancestors key) :
    out.growing.map Growing.element = out.statement.elements := by
  have paired : (List.zipWith (fun a kind => (⟨a.2, [kind.2]⟩ : Growing)) out.statement.ancestors
      out.layout.ancestors).map Growing.element = out.statement.ancestors.map Prod.snd := by
    refine List.ext_getElem (by simp [length_layout_ancestors compiles]) fun i _ _ => ?_
    rw [List.getElem_map, List.getElem_zipWith, List.getElem_map]
  rw [Compiled.growing, Statement.elements, List.map_cons, List.map_cons, paired]

/-- A column is made of parts, each of which a row fills with values of its types. -/
structure IsMadeOf (c : Compiler) (enc : Encoding) (g : Growing) (parts : List Part) : Prop where
  element : enc.element parts = .ok g.element
  kinds : g.kinds = parts.map Part.kind
  filled : ∀ env, c.relation.Fills env → ∀ p ∈ parts, p.IsFilled c.config.dialect env

theorem exists_isMadeOf (compiles : c.Compiles q out order ancestors key) :
    ∀ g ∈ out.growing, ∃ parts, c.IsMadeOf out.statement.encoding g parts := by
  have layout := compiles.layout
  -- The reader has its kinds from the layout, the writer from the parts; both come from the same sources.
  refine List.forall_mem_cons.mpr ⟨⟨_, compiles.path, ?_, fun env fills => ?_⟩,
    List.forall_mem_cons.mpr ⟨⟨_, compiles.ordering, ?_, fun env => isFilled_of_keySource compiles⟩, fun g member => ?_⟩⟩
  · rw [layout]
    rfl
  · exact List.forall_mem_singleton.mpr fills.isFilled_key
  · rw [layout]
    rfl
  · rw [layout, Compiler.layout, List.zipWith_map_right, ← List.map_uncurry_zip_eq_zipWith] at member
    obtain ⟨⟨el, a⟩, pair, rfl⟩ := List.mem_map.mp member
    obtain ⟨-, made⟩ := List.forall₂_zip compiles.elements.flip pair
    have checked := AncestorField.forall₂_of_checkAll compiles.collected
    obtain ⟨_, -, -, known, collectable⟩ := Outcome.exists_of_mem_right checked (List.of_mem_zip pair).2
    exact ⟨_, made, rfl, fun env fills => List.forall_mem_singleton.mpr (fills.isFilled_ancestor _ known collectable)⟩

/-- Values of the types of the columns make full elements. -/
theorem isFull_of_fills (compiles : c.Compiles q out order ancestors key)
    (encoding : out.statement.encoding = ⟨.mysql, false, out.maxDepth⟩) (member : g ∈ out.growing)
    (fills : c.relation.Fills env) : g.IsFull .mysql env := by
  obtain ⟨parts, madeOf⟩ := exists_isMadeOf compiles g member
  have dialect : c.config.dialect = .mysql := congrArg Encoding.dialect (compiles.encoding.symm.trans encoding)
  have element := madeOf.element
  rw [Encoding.element_eq_ok_iff (by rw [encoding]), encoding] at element
  obtain ⟨exprs, segments, shape⟩ := element
  have filled := madeOf.filled env fills
  rw [dialect] at filled
  obtain ⟨cs, text, length⟩ := Element.exists_evalText rfl segments filled
  rw [Growing.IsFull, shape, Growing.width, madeOf.kinds]
  exact ⟨cs, text, length⟩

/-- A column is declared with the characters of as many elements as there are levels down to the limit. -/
theorem start_eq_declared (compiles : c.Compiles q out order ancestors key)
    (encoding : out.statement.encoding = ⟨.mysql, false, out.maxDepth⟩) (member : g ∈ out.growing) :
    out.statement.encoding.start g.element = g.declared (g.width * (out.maxDepth + 1)) := by
  obtain ⟨parts, madeOf⟩ := exists_isMadeOf compiles g member
  obtain ⟨exprs, -, shape⟩ := (Encoding.element_eq_ok_iff (by rw [encoding])).mp madeOf.element
  rw [Growing.declared, Growing.width, madeOf.kinds, shape, encoding]
  rfl

/-- The recursion starts with one declared value for each column. -/
theorem anchor_eq_declared (compiles : c.Compiles q out order ancestors key)
    (encoding : out.statement.encoding = ⟨.mysql, false, out.maxDepth⟩) :
    ∃ path ordering others, out.growing = path :: ordering :: others ∧
      out.statement.anchor = ["0", path.declared (path.width * (out.maxDepth + 1)),
        ordering.declared (ordering.width * (out.maxDepth + 1)), out.statement.sourceKey] ++
        others.map fun g => g.declared (g.width * (out.maxDepth + 1)) := by
  have starts : ∀ g ∈ out.growing, _ := fun g => start_eq_declared compiles encoding
  have elements := map_element_growing compiles
  obtain ⟨path, ordering, others, shape⟩ : ∃ path ordering others, out.growing = path :: ordering :: others :=
    ⟨_, _, _, rfl⟩
  rw [shape, Statement.elements, List.map_cons, List.map_cons] at elements
  obtain ⟨ofPath, elements⟩ := List.cons.inj elements
  obtain ⟨ofOrdering, ofOthers⟩ := List.cons.inj elements
  refine ⟨path, ordering, others, shape, ?_⟩
  rw [shape, List.forall_mem_cons, List.forall_mem_cons] at starts
  obtain ⟨first, second, rest⟩ := starts
  rw [Statement.anchor, ← first, ← second, ← List.map_congr_left rest, ← ofPath, ← ofOrdering]
  have split := congrArg (List.map out.statement.encoding.start) ofOthers
  rw [List.map_map, List.map_map] at split
  exact congrArg (_ ++ ·) split.symm

/-- A node of the limit is delivered, and refused when it is read. -/
theorem refused_of_limit {n : Node} (deep : n.depth = out.maxDepth) (bounded : out.maxDepth < Config.depthBound)
    (texts : Statement.AreAccumulated .mysql out.maxDepth n.depth out.growing n.texts) :
    ∃ raw, out.statement.rawRow? n = some raw ∧ out.decode raw = .error (.depthExceeded out.maxDepth) := by
  have each : List.Forall₂ (fun _ t => ∃ column, Statement.encodedColumn? (id t) = some column ∧ True)
      out.growing n.texts := by
    refine texts.imp fun g t accumulated => ?_
    obtain ⟨cs, -, rfl⟩ := accumulated
    exact ⟨_, Statement.encodedColumn?_ofChars cs, trivial⟩
  obtain ⟨columns, columnsOk, -⟩ := Statement.exists_encodedColumns each
  rw [List.map_id, Node.texts, List.mapM_cons, List.mapM_cons] at columnsOk
  simp only [bind, pure, Option.bind_eq_some_iff, Option.some.injEq] at columnsOk
  obtain ⟨path, pathOk, _, ⟨ordering, orderingOk, ancestors, ancestorsOk, -⟩, -⟩ := columnsOk
  refine ⟨_, Statement.rawRow?_eq_some_iff.mpr ⟨path, ordering, ancestors, pathOk, orderingOk, ancestorsOk, rfl⟩, ?_⟩
  exact Compiled.decode_of_limit (Nat.le_of_eq deep.symm) (by omega) rfl

theorem settings_of_new (made : Compiler.new relation config = .ok c) (dialect : config.dialect = .mysql) :
    c.relation = relation ∧ c.config = config ∧ c.native = false := by
  obtain ⟨-, -, made⟩ := Outcome.bind_eq_ok_iff.mp made
  obtain ⟨native, nativeOk, made⟩ := Outcome.bind_eq_ok_iff.mp made
  cases made
  refine ⟨rfl, rfl, Config.eq_false_of_usesNativeArrays ?_ nativeOk⟩
  rw [dialect]
  rfl

/-- Each accumulated column is declared with the characters of the longest value that the recursion can accumulate in
it from full elements, which a row at the limit has. So no such value is cut, and where rows reach the limit, one of
them comes to be read and is refused for its depth. -/
theorem anchor_widths (made : Compiler.new relation config = .ok c) (dialect : config.dialect = .mysql)
    (compiled : c.compile q = .ok out) (bounded : out.maxDepth < Config.depthBound) :
    (∃ path ordering others, out.growing = path :: ordering :: others ∧
      out.statement.anchor = ["0", path.declared (path.width * (out.maxDepth + 1)),
        ordering.declared (ordering.width * (out.maxDepth + 1)), out.statement.sourceKey] ++
        others.map fun g => g.declared (g.width * (out.maxDepth + 1))) ∧
    (∀ g ∈ out.growing, (∀ env, relation.Fills env → g.IsFull .mysql env) ∧
      IsGreatest {k | ∃ n cs, g.Accumulates .mysql out.maxDepth n cs ∧ cs.length = k} (g.width * (out.maxDepth + 1))) ∧
    ∀ records, (∀ r ∈ out.statement.scopeRows records, ∀ g ∈ out.growing, g.IsFull .mysql r.env) →
      ∃ ns, out.statement.nodes records = .ok ns ∧
        (∀ n ∈ ns, n.depth ≤ out.maxDepth ∧
          Statement.AreAccumulated .mysql out.maxDepth n.depth out.growing n.texts ∧
          (n.depth = out.maxDepth → ∃ raw, out.statement.rawRow? n = some raw ∧
            out.decode raw = .error (.depthExceeded out.maxDepth))) ∧
        ∀ f, out.statement.IsForest records f → (∃ r as, f.Lineage r as ∧ out.maxDepth ≤ as.length) →
          ∃ n ∈ ns, n.depth = out.maxDepth := by
  obtain ⟨order, ancestors, key, compiles⟩ := compile_eq_ok compiled
  obtain ⟨rfl, rfl, fixed⟩ := settings_of_new made dialect
  have encoding : out.statement.encoding = ⟨.mysql, false, out.maxDepth⟩ := by
    rw [compiles.encoding, dialect, fixed]
  refine ⟨anchor_eq_declared compiles encoding, fun g member => ?_, fun records full => ?_⟩
  · have full : ∀ env, c.relation.Fills env → g.IsFull .mysql env :=
      fun env => isFull_of_fills compiles encoding member
    exact ⟨full, Growing.isGreatest_length (full _ c.relation.fills_null)⟩
  · have silent : out.statement.encoding.failsAtLimit = false := by
      rw [encoding]
      rfl
    rw [← show out.statement.encoding.dialect = .mysql by rw [encoding]] at full
    obtain ⟨ns, run, nodes⟩ := Statement.areAccumulated_of_full silent (map_element_growing compiles) full
    rw [encoding] at nodes
    refine ⟨ns, run, fun n member => ?_, fun f forest deep => ?_⟩
    · obtain ⟨bound, accumulated⟩ := nodes n member
      exact ⟨bound, accumulated, fun limit => refused_of_limit limit bounded accumulated⟩
    · obtain ⟨row, k, produced, limit⟩ := (Statement.exists_produces_iff forest.1).mpr deep
      obtain ⟨within, r, as, rfl, lineage, -⟩ := (Statement.produces_iff forest.1).mp produced
      obtain ⟨n, member, -, depth⟩ := (Statement.mem_nodes_iff forest run).mpr produced
      exact ⟨n, member, depth.trans (Nat.le_antisymm within limit)⟩

theorem anchor_widths_three_columns : ∃ relation config c out path ordering names,
    Compiler.new relation config = .ok c ∧ config.dialect = .mysql ∧
    c.compile ((Request.empty.orderedBy ["-position"]).withFields [("names", "name")]) = .ok out ∧ out.maxDepth = 3 ∧
    out.growing = [path, ordering, names] ∧
    out.statement.anchor = ["0", path.declared 80, ordering.declared 160, out.statement.sourceKey,
      names.declared 272] ∧
    IsGreatest {k | ∃ n cs, names.Accumulates .mysql 3 n cs ∧ cs.length = k} 272 := by
  have made : Compiler.new ⟨"nodes", "id", .integer, "parent_id", [⟨"name", .text⟩, ⟨"position", .integer⟩]⟩
      ⟨.mysql, 3, .auto, some false, 64, 32, true⟩ = .ok ⟨_, _, false⟩ := rfl
  have checks : ((Compiler.mk ⟨"nodes", "id", .integer, "parent_id", [⟨"name", .text⟩, ⟨"position", .integer⟩]⟩
      ⟨.mysql, 3, .auto, some false, 64, 32, true⟩ false).compile
      ((Request.empty.orderedBy ["-position"]).withFields [("names", "name")])).toOption.any
      (fun out => out.maxDepth == 3 && out.growing.map Growing.width == [20, 40, 68]) = true := by
    decide
  obtain ⟨out, compiled, holds⟩ := Outcome.exists_of_any checks
  rw [Bool.and_eq_true, beq_iff_eq, beq_iff_eq] at holds
  obtain ⟨limit, widths⟩ := holds
  obtain ⟨⟨path, ordering, others, shape, anchor⟩, longest, -⟩ := anchor_widths made rfl compiled (by
    rw [limit]
    decide)
  simp only [shape, List.map_cons, List.cons.injEq, List.map_eq_cons_iff, List.map_eq_nil_iff] at widths
  obtain ⟨pathWidth, orderingWidth, names, _, rfl, namesWidth, rfl⟩ := widths
  obtain ⟨-, last⟩ := longest names (by simp [shape])
  simp only [limit, pathWidth, orderingWidth, namesWidth, List.map_cons, List.map_nil, List.cons_append,
    List.nil_append] at anchor last
  exact ⟨_, _, _, out, path, ordering, names, made, rfl, compiled, limit, shape, anchor, last⟩

end Compiler

end ForestQuery
