import ForestQuery.Proofs.Store
/-!
What delivered rows show. Main statements: the texts along a lineage are those of the levels of its values,
and every row that a statement returns shows the identifier, the parent, the depth, the path and the fields
of a row of the forest.
-/

namespace ForestQuery

/-- Depths that a request can ask for are depths that a row can have. -/
theorem Layout.natCast_lt_depthBound {n : Nat} (bound : n < Config.depthBound) : (n : Int) < depthBound := by
  rw [Config.depthBound] at bound
  rw [depthBound]
  omega

/-- A delivered row shows a row of the forest below the rows above it. -/
structure Forest.Shows (f : Forest) (row : TreeRow) (c : Record × List Record) : Prop where
  id : row.id.toValue = f.keyOf c.1
  parent : Layout.decodeParent f.relation.keyType (f.parentOf c.1) = .ok row.parent
  depth : row.depth = c.2.length
  path : row.path.map NodeId.toValue = (Forest.pathTo c.1 c.2).map f.keyOf
  fields : row.fields = NameMap.ofList (f.relation.fields.map fun g => (g.name, c.1.value g.name))

namespace Forest

variable {f : Forest} {r p : Record} {as : List Record}

theorem mem_pathTo : p ∈ pathTo r as ↔ p ∈ r :: as := by
  rw [pathTo, List.mem_append, List.mem_reverse, List.mem_singleton, List.mem_cons, or_comm]

theorem length_pathTo (r : Record) (as : List Record) : (pathTo r as).length = as.length + 1 := by
  rw [pathTo, List.length_append, List.length_reverse, List.length_singleton]

theorem Lineage.mem_pathTo (lineage : f.Lineage r as) (member : p ∈ pathTo r as) : p ∈ f.rows := by
  rcases List.mem_cons.mp (Forest.mem_pathTo.mp member) with rfl | above
  · exact lineage.mem
  · exact lineage.mem_above above

theorem Lineage.exists_of_mem_pathTo (lineage : f.Lineage r as) (member : p ∈ pathTo r as) :
    ∃ bs, f.Lineage p bs := by
  rcases List.mem_cons.mp (Forest.mem_pathTo.mp member) with rfl | above
  · exact ⟨as, lineage⟩
  · exact lineage.exists_of_mem above

/-- The identifiers along a path. -/
theorem exists_ids {rs : List Record} (rows : ∀ q ∈ rs, q ∈ f.rows) :
    ∃ ids : List NodeId, (∀ id ∈ ids, id.type = f.relation.keyType) ∧ ids.map NodeId.toValue = rs.map f.keyOf := by
  induction rs with
  | nil => exact ⟨[], by simp, rfl⟩
  | cons q rs ih =>
    obtain ⟨id, type, key⟩ := f.identified q (rows q (by simp))
    obtain ⟨ids, typed, keys⟩ := ih fun p member => rows p (by simp [member])
    refine ⟨id :: ids, List.forall_mem_cons.mpr ⟨type, typed⟩, ?_⟩
    rw [List.map_cons, List.map_cons, keys, keyOf, key]

theorem length_ids {ids : List NodeId} (keys : ids.map NodeId.toValue = (pathTo r as).map f.keyOf) :
    ids.length = as.length + 1 := by
  have counted := congrArg List.length keys
  rwa [List.length_map, List.length_map, length_pathTo] at counted

theorem getLast?_ids {ids : List NodeId} {id : NodeId} (keys : ids.map NodeId.toValue = (pathTo r as).map f.keyOf)
    (key : id.toValue = f.keyOf r) : ids.getLast? = some id := by
  have values := congrArg List.getLast? keys
  rw [List.getLast?_map, List.getLast?_map, pathTo, List.getLast?_append, List.getLast?_singleton] at values
  obtain ⟨last, found, same⟩ := Option.map_eq_some_iff.mp values
  rw [found, NodeId.toValue_injective (same.trans key.symm)]

/-- The identifier of a row is read from its key. -/
theorem exists_ofValue_keyOf (row : r ∈ f.rows) :
    ∃ id, NodeId.ofValue f.relation.keyType (f.keyOf r) = .ok id ∧ id.toValue = f.keyOf r := by
  obtain ⟨id, type, key⟩ := f.identified r row
  exact ⟨id, by rw [keyOf, key, ← type, id.ofValue_toValue], key.symm⟩

/-- Rows that show the same row of the forest agree in all that they show. -/
theorem Shows.agree {row other : TreeRow} {c : Record × List Record} (first : f.Shows row c)
    (second : f.Shows other c) :
    row.id = other.id ∧ row.parent = other.parent ∧ row.depth = other.depth ∧ row.path = other.path ∧
      row.fields = other.fields := by
  have injective : Function.Injective NodeId.toValue := fun _ _ => NodeId.toValue_injective
  refine ⟨injective (by rw [first.id, second.id]), ?_, by rw [first.depth, second.depth],
    List.map_injective_iff.mpr injective (by rw [first.path, second.path]), by rw [first.fields, second.fields]⟩
  have parent := first.parent
  rw [second.parent] at parent
  exact (Except.ok.inj parent).symm

end Forest

namespace Statement

variable {s : Statement} {f : Forest} {r : Record} {as : List Record} {parts : List Part} {exprs : List Expr}
  {values : Record → List Value} {width : Nat}

/-- The texts of an element along some rows are the levels of their values. -/
theorem flatMap_elementText {rows rs : List Record} (dialect : s.encoding.dialect = .sqlite)
    (made : Encoding.segments .sqlite parts = .ok exprs) (bounded : ∀ p ∈ parts, p.kind.IsBounded)
    (held : ∀ q ∈ rs, Element.AreHeld (s.scopeRow rows q).env parts (values q))
    (written : ∀ q ∈ rs, ∃ level, Column.encodeLevel (parts.map Part.kind) (values q) = .ok level) :
    ∃ cs, Column.encodeLevels (parts.map Part.kind) (rs.map values) = .ok cs ∧
      rs.flatMap (s.elementText rows (.segments exprs width)) = StoredText.ofChars cs := by
  induction rs with
  | nil => exact ⟨[], rfl, rfl⟩
  | cons q rs ih =>
    obtain ⟨tail, tailOk, rest⟩ := ih (fun p member => held p (by simp [member]))
      (fun p member => written p (by simp [member]))
    obtain ⟨level, levelOk⟩ := written q (by simp)
    have text : (Element.segments exprs width).evalText .sqlite (s.scopeRow rows q).env = .ok (.ofChars level) :=
      Element.evalText_segments made (held q (by simp)) bounded levelOk
    refine ⟨level ++ tail, ?_, ?_⟩
    · rw [List.map_cons, Column.encodeLevels, levelOk, tailOk]
      rfl
    · rw [List.flatMap_cons, rest, elementText, dialect, text, StoredText.ofChars_append]
      rfl

/-- What an element adds along a lineage are the levels of its values. -/
theorem chainText_eq (rows : List Record) {el : Element} {maxDepth : Nat}
    (encoding : s.encoding = ⟨.sqlite, false, maxDepth⟩) (made : s.encoding.element parts = .ok el)
    (bounded : ∀ p ∈ parts, p.kind.IsBounded)
    (held : ∀ q ∈ Forest.pathTo r as, Element.AreHeld (s.scopeRow rows q).env parts (values q))
    (written : ∀ q ∈ Forest.pathTo r as, ∃ level, Column.encodeLevel (parts.map Part.kind) (values q) = .ok level) :
    ∃ cs, Column.encodeLevels (parts.map Part.kind) ((Forest.pathTo r as).map values) = .ok cs ∧
      s.chainText rows el r as = StoredText.ofChars cs := by
  have dialect : s.encoding.dialect = .sqlite := by rw [encoding]
  rw [Encoding.element_eq_ok_iff (by rw [encoding]), dialect] at made
  obtain ⟨exprs, segments, rfl⟩ := made
  exact flatMap_elementText dialect segments bounded held written

theorem encodedColumn?_ofChars (cs : List Char) :
    encodedColumn? (.ofChars cs) = some (.encoded (String.ofList cs)) := by
  rw [encodedColumn?, StoredText.chars?_ofChars]
  rfl

theorem rawRow?_eq_some_iff {n : Node} {raw : RawRow} :
    s.rawRow? n = some raw ↔ ∃ path ordering ancestors, encodedColumn? n.path = some path ∧
      encodedColumn? n.ordering = some ordering ∧ n.ancestors.mapM encodedColumn? = some ancestors ∧
      raw = {
        depth := Int64.ofNat n.depth
        id := s.keyOf n.record
        parent := s.parentOf n.record
        path, ordering, ancestors
        fields := s.relation.fields.map fun f => (f.name, n.record.value f.name) } := by
  simp only [rawRow?, bind, pure, Option.bind_eq_some_iff, Option.some.injEq]
  constructor
  · rintro ⟨path, pathOk, ordering, orderingOk, ancestors, ancestorsOk, rfl⟩
    exact ⟨path, ordering, ancestors, pathOk, orderingOk, ancestorsOk, rfl⟩
  · rintro ⟨path, ordering, ancestors, pathOk, orderingOk, ancestorsOk, rfl⟩
    exact ⟨path, pathOk, ordering, orderingOk, ancestors, ancestorsOk, rfl⟩

/-- The key of a row, as the path takes it. -/
theorem areHeld_key {rows : List Record} {q : Record} (row : q ∈ f.rows) :
    Element.AreHeld (s.scopeRow rows q).env
      [⟨.reference (.column source f.relation.key), Compiler.pathKind f.relation⟩] [f.keyOf q] := by
  obtain ⟨id, type, key⟩ := f.identified q row
  refine .cons ⟨?_, ?_⟩ .nil
  · rw [Expr.eval, ScopeRow.env, record_scopeRow, Forest.keyOf]
  · rw [Forest.keyOf, key, Compiler.pathKind, ← type]
    cases id with
    | int i => exact Or.inr ⟨i, rfl⟩
    | uuid u =>
      refine Or.inr ⟨u.text, u, rfl, ?_, ?_⟩
      · rw [Uuid.text, String.toList_ofList, u.length_chars]
        rfl
      · rw [Uuid.ofText?, Uuid.text, String.toList_ofList, u.ofChars?_chars]

end Statement

namespace Compiler

variable {k : Compiler} {q : Request} {c : Compiled} {order : SiblingOrder} {ancestors : List AncestorField}
  {key : KeySource} {f : Forest} {r : Record} {as : List Record}

/-- The path of a node is made of the identifiers along its lineage. -/
theorem exists_path (compiles : k.Compiles q c order ancestors key) (runnable : k.IsRunnable)
    (same : f.relation = k.relation)
    (lineage : f.Lineage r as) :
    ∃ ids : List NodeId, (∀ id ∈ ids, id.type = f.relation.keyType) ∧
      ids.map NodeId.toValue = (Forest.pathTo r as).map f.keyOf ∧
      (c.statement.nodeAt f.rows r as).path = .ofChars (ids.flatMap NodeId.chars) := by
  obtain ⟨ids, typed, keys⟩ := Forest.exists_ids fun q member => lineage.mem_pathTo member
  have path := compiles.path
  rw [← same] at path
  have written : ∀ q ∈ Forest.pathTo r as,
      ∃ level, Column.encodeLevel [pathKind f.relation] [f.keyOf q] = .ok level := by
    intro q member
    obtain ⟨id, type, key⟩ := f.identified q (lineage.mem_pathTo member)
    exact ⟨id.chars, by rw [Column.encodeLevel_single, Forest.keyOf, key, pathKind, ← type, id.encode_toValue]⟩
  have bounded : (pathKind f.relation).IsBounded := by
    obtain ⟨id, type, -⟩ := f.identified r lineage.mem
    rw [pathKind, ← type]
    cases id <;> trivial
  obtain ⟨cs, levels, text⟩ := Statement.chainText_eq f.rows (encoding_eq compiles runnable) path
    (by simpa using bounded)
    (fun q member => Statement.areHeld_key (lineage.mem_pathTo member)) written
  have known := NodeId.encodeLevels_toValue typed
  have rows : ids.map (fun id => [id.toValue]) = (Forest.pathTo r as).map fun q => [f.keyOf q] := by
    have singles := congrArg (List.map fun v => [v]) keys
    rwa [List.map_map, List.map_map] at singles
  rw [rows] at known
  have chars : cs = ids.flatMap NodeId.chars := Except.ok.inj (levels.symm.trans known)
  refine ⟨ids, typed, keys, ?_⟩
  rw [Statement.nodeAt, ← chars]
  exact text

/-- A row that is read shows the row of the forest that its node was made of. -/
theorem shows_of_decode {raw : RawRow} {row : TreeRow} (compiles : k.Compiles q c order ancestors key)
    (runnable : k.IsRunnable) (same : f.relation = k.relation) (lineage : f.Lineage r as)
    (columns : c.statement.rawRow? (c.statement.nodeAt f.rows r as) = some raw)
    (decoded : c.decode raw = .ok row) : f.Shows row (r, as) := by
  obtain ⟨ids, typed, keys, path⟩ := exists_path compiles runnable same lineage
  obtain ⟨_, ordering, texts, pathOk, -, -, rfl⟩ := Statement.rawRow?_eq_some_iff.mp columns
  rw [path, Statement.encodedColumn?_ofChars] at pathOk
  cases pathOk
  rw [Compiled.decode, compiles.layout, encoding_eq compiles runnable, Layout.decode_eq_ok_iff] at decoded
  have relation : f.relation = c.statement.relation := by rw [same, compiles.relation]
  have length : ids.length = as.length + 1 := Forest.length_ids keys
  have found : row.path = ids := by
    obtain ⟨values, valuesOk, ids'⟩ := decoded.path
    have nonempty : ids ≠ [] := List.ne_nil_of_length_pos (by omega)
    have back := NodeId.decode_path nonempty typed
    rw [same] at back typed
    have values_eq : ids.map NodeId.toValue = values := Except.ok.inj (back.symm.trans valuesOk)
    rw [← values_eq] at ids'
    exact (Except.ok.inj ((NodeId.ofValues_toValue typed).symm.trans ids')).symm
  obtain ⟨id, identified, key⟩ := Forest.exists_ofValue_keyOf lineage.mem
  have identifier : id = row.id := by
    have read := decoded.id
    change NodeId.ofValue k.relation.keyType (c.statement.keyOf r) = .ok row.id at read
    rw [Statement.keyOf_eq relation, ← same, identified] at read
    exact Except.ok.inj read
  exact {
    id := by rw [← identifier, key]
    parent := by
      rw [same, ← Statement.parentOf_eq relation]
      exact decoded.parent
    depth := by
      have levels := decoded.levels
      rw [found, length] at levels
      exact (Nat.succ.inj levels).symm
    path := by rw [found, keys]
    fields := by
      rw [relation]
      exact decoded.fields }

end Compiler

end ForestQuery
