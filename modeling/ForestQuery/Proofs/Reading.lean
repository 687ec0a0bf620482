import ForestQuery.Proofs.AncestorField
import ForestQuery.Proofs.Delivery
/-!
When the rows of a statement can be read. Main statement: a row of the forest whose lineage lies above the depth
limit and holds values of the types of the ordering columns and of the sources of the ancestor fields, with
room for the texts among them, is written and read.
-/

namespace ForestQuery

namespace SiblingOrder

theorem isBounded_levelKinds {o : SiblingOrder} {id : NodeId} (keyType : id.type = o.keyType) (keyBytes : Nat) :
    ∀ kind ∈ o.levelKinds keyBytes, kind.IsBounded := by
  intro kind member
  rcases List.mem_append.mp member with field | key
  · obtain ⟨f, -, rfl⟩ := List.mem_map.mp field
    exact f.isBounded_kind keyBytes
  · split at key
    · cases key
    · rw [List.mem_singleton.mp key, ← keyType]
      cases id <;> trivial

theorem levelKinds_ne_nil (o : SiblingOrder) (keyBytes : Nat) : o.levelKinds keyBytes ≠ [] := by
  intro empty
  obtain ⟨fields, last⟩ := List.append_eq_nil_iff.mp empty
  have uses : o.usesKey = false := by rw [usesKey, List.map_eq_nil_iff.mp fields, List.any_nil]
  rw [uses, if_neg (by decide)] at last
  exact List.cons_ne_nil _ _ last

end SiblingOrder

namespace Statement

variable {s : Statement} {parts : List Part} {el : Element}

/-- An element has a text where each of its parts has a segment. -/
theorem exists_evalText {env : Reference → Value} {values : List Value} {maxDepth : Nat}
    (encoding : s.encoding = ⟨.sqlite, false, maxDepth⟩) (made : s.encoding.element parts = .ok el)
    (bounded : ∀ p ∈ parts, p.kind.IsBounded) (held : Element.AreHeld env parts values)
    (written : ∃ level, Column.encodeLevel (parts.map Part.kind) values = .ok level) :
    ∃ t, el.evalText s.encoding.dialect env = .ok t := by
  have dialect : s.encoding.dialect = .sqlite := by rw [encoding]
  rw [Encoding.element_eq_ok_iff (by rw [encoding]), dialect] at made
  obtain ⟨exprs, segments, rfl⟩ := made
  obtain ⟨level, levelOk⟩ := written
  exact ⟨_, by rw [dialect]; exact Element.evalText_segments segments held bounded levelOk⟩

/-- Columns that can be read one by one can be read together. -/
theorem exists_encodedColumns {α β : Type} {P : α → Column → Prop} {text : β → StoredText} {as : List α}
    {bs : List β} (each : List.Forall₂ (fun a b => ∃ c, encodedColumn? (text b) = some c ∧ P a c) as bs) :
    ∃ cs, (bs.map text).mapM encodedColumn? = some cs ∧ List.Forall₂ P as cs := by
  induction each with
  | nil => exact ⟨[], rfl, .nil⟩
  | cons first _ ih =>
    obtain ⟨c, read, holds⟩ := first
    obtain ⟨cs, others, rest⟩ := ih
    refine ⟨c :: cs, ?_, .cons holds rest⟩
    rw [List.map_cons, List.mapM_cons, read, others]
    rfl

end Statement

/-- The values that a level of the ordering is made of: the place among the siblings, or a raw key. -/
def Compiled.levelValues (c : Compiled) (order : SiblingOrder) (rows : List Record) (r : Record) : List Value :=
  if c.ranked then [(c.statement.scopeRow rows r).rank] else order.levelValues r

namespace Compiler

variable {k : Compiler} {q : Request} {c : Compiled} {order : SiblingOrder} {ancestors : List AncestorField}
  {key : KeySource} {f : Forest} {r : Record} {as : List Record}

/-- The place of a row is an integer, or absent where the store cannot count so far. -/
theorem isHeld_rank (s : Statement) (rows : List Record) (r : Record) :
    Segment.IsHeld (s.scopeRow rows r).rank .integer := by
  unfold Statement.scopeRow
  split
  · exact Or.inl rfl
  · exact Or.inl rfl
  · simp only [Statement.rankIn, Value.ofCount]
    cases Text.int64? _ with
    | none => exact Or.inl rfl
    | some i => exact Or.inr ⟨i, rfl⟩

/-- The key of a level is the place among the siblings, or it is a raw key. -/
theorem key_cases (compiles : k.Compiles q c order ancestors key) (runnable : k.IsRunnable) :
    c.ranked = true ∧ key = SiblingOrder.rankKey Statement.source ∨
      c.ranked = false ∧ order.rawKey .sqlite false k.config.keyBytes Statement.source = .ok key := by
  have made := compiles.keyed
  rw [keySource, runnable.dialect, runnable.native] at made
  split at made
  · rename_i ranked
    exact Or.inl ⟨ranked, (Except.ok.inj made).symm⟩
  · rename_i raw
    exact Or.inr ⟨Bool.not_eq_true _ ▸ raw, made⟩

/-- The identifier of a row, as the order of siblings takes it. -/
theorem exists_id (compiles : k.Compiles q c order ancestors key) (same : f.relation = k.relation)
    (row : r ∈ f.rows) : ∃ id : NodeId, id.type = order.keyType ∧ r.value order.key = id.toValue := by
  obtain ⟨id, type, keyValue⟩ := f.identified r row
  have resolves := SiblingOrder.resolves compiles.resolved
  exact ⟨id, by rw [type, same, resolves.keyType], by rw [resolves.key, ← same, keyValue]⟩

/-- The parts of a raw key have the kinds of its fields. -/
theorem raw_kinds (compiles : k.Compiles q c order ancestors key) (same : f.relation = k.relation)
    (row : r ∈ f.rows) (raw : order.rawKey .sqlite false k.config.keyBytes Statement.source = .ok key) :
    key.kinds = order.levelKinds k.config.keyBytes ∧ ∀ f ∈ order.fields, f.IsKeyed := by
  obtain ⟨id, keyType, -⟩ := exists_id compiles same row
  exact SiblingOrder.rawKey_kinds raw (SiblingOrder.resolves compiles.resolved) keyType

/-- The parts of a raw key are held by their segments. -/
theorem raw_held (compiles : k.Compiles q c order ancestors key) (same : f.relation = k.relation)
    (row : r ∈ f.rows) (raw : order.rawKey .sqlite false k.config.keyBytes Statement.source = .ok key)
    (typed : order.IsTyped r) :
    Element.AreHeld (c.statement.scopeRow f.rows r).env key.parts (order.levelValues r) := by
  obtain ⟨id, keyType, keyed⟩ := exists_id compiles same row
  have columns : ∀ name, (c.statement.scopeRow f.rows r).env (.column Statement.source name) = r.value name := by
    intro name
    rw [ScopeRow.env, Statement.record_scopeRow]
  exact SiblingOrder.rawKey_held raw (SiblingOrder.resolves compiles.resolved) keyType keyed columns typed

/-- The kinds of the ordering: a place among the siblings, or those of a raw key. -/
theorem ordering_kinds (compiles : k.Compiles q c order ancestors key) (runnable : k.IsRunnable)
    (same : f.relation = k.relation) (row : r ∈ f.rows) :
    key.kinds = [.integer] ∨ key.kinds = order.levelKinds k.config.keyBytes := by
  rcases key_cases compiles runnable with ⟨-, rfl⟩ | ⟨-, raw⟩
  · exact Or.inl rfl
  · exact Or.inr (raw_kinds compiles same row raw).1

/-- The parts of the ordering are held by their segments. -/
theorem ordering_held (compiles : k.Compiles q c order ancestors key) (runnable : k.IsRunnable)
    (same : f.relation = k.relation) (row : r ∈ f.rows)
    (typed : c.ranked = false → order.IsTyped r) :
    Element.AreHeld (c.statement.scopeRow f.rows r).env key.parts (c.levelValues order f.rows r) ∧
      (∀ kind ∈ key.kinds, kind.IsBounded) ∧ key.kinds ≠ [] := by
  rw [Compiled.levelValues]
  rcases key_cases compiles runnable with ⟨ranked, rfl⟩ | ⟨unranked, raw⟩
  · rw [if_pos ranked]
    refine ⟨.cons ⟨rfl, isHeld_rank c.statement f.rows r⟩ .nil, ?_, List.cons_ne_nil _ _⟩
    intro kind member
    rw [List.mem_singleton.mp member]
    trivial
  · rw [unranked, if_neg (by decide)]
    obtain ⟨id, keyType, -⟩ := exists_id compiles same row
    rw [(raw_kinds compiles same row raw).1]
    exact ⟨raw_held compiles same row raw (typed unranked), SiblingOrder.isBounded_levelKinds keyType _,
      order.levelKinds_ne_nil _⟩

/-- Whether a row has room in the columns of a statement: its ordering columns hold values of their types with
room in a raw key, where there is one, and the sources of the ancestor fields with room in these. -/
structure HasRoom (k : Compiler) (c : Compiled) (order : SiblingOrder) (ancestors : List AncestorField)
    (r : Record) : Prop where
  typed : c.ranked = false → order.IsTyped r
  fits : c.ranked = false → order.HasRoom k.config.keyBytes r
  takes : ∀ a ∈ ancestors, a.Takes k.config.textWidth (r.value a.source)

/-- A row with room has a level of the ordering. -/
theorem exists_level (compiles : k.Compiles q c order ancestors key) (runnable : k.IsRunnable)
    (same : f.relation = k.relation) (row : r ∈ f.rows)
    (room : k.HasRoom c order ancestors r) :
    ∃ level, Column.encodeLevel key.kinds (c.levelValues order f.rows r) = .ok level := by
  rw [Compiled.levelValues]
  rcases key_cases compiles runnable with ⟨ranked, rfl⟩ | ⟨unranked, raw⟩
  · rw [if_pos ranked]
    change ∃ level, Column.encodeLevel [.integer] [(c.statement.scopeRow f.rows r).rank] = .ok level
    rw [Column.encodeLevel_single]
    rcases isHeld_rank c.statement f.rows r with absent | ⟨i, number⟩
    · rw [absent]
      exact ⟨_, rfl⟩
    · rw [number]
      exact ⟨_, rfl⟩
  · rw [unranked, if_neg (by decide)]
    obtain ⟨id, keyType, keyed⟩ := exists_id compiles same row
    obtain ⟨kinds, fields⟩ := raw_kinds compiles same row raw
    rw [kinds]
    exact SiblingOrder.exists_levelText fields keyType keyed (room.typed unranked) (room.fits unranked)

/-- The elements of the ancestor fields, and the values that they take. -/
theorem ancestor_held (compiles : k.Compiles q c order ancestors key) (runnable : k.IsRunnable)
    {a : AncestorField} (member : a ∈ ancestors) (takes : a.Takes k.config.textWidth (r.value a.source))
    (rows : List Record) :
    Element.AreHeld (c.statement.scopeRow rows r).env [a.part Statement.source k.config.textWidth]
        [r.value a.source] ∧
      (∀ p ∈ [a.part Statement.source k.config.textWidth], p.kind.IsBounded) ∧
      ∃ level, Column.encodeLevel [a.kind k.config.textWidth] [r.value a.source] = .ok level := by
  have collectable := AncestorField.isCollectable_of_checkAll compiles.collected a member
  obtain ⟨held, written⟩ := takes.exists_encode collectable
  refine ⟨.cons ⟨?_, held⟩ .nil, ?_, ?_⟩
  · rw [AncestorField.part, Expr.eval, ScopeRow.env, Statement.record_scopeRow]
  · intro p single
    rw [List.mem_singleton.mp single]
    exact Chain.bounded_of_collectable (AncestorField.kind_of_isCollectable collectable runnable.textWidth)
  · rw [Column.encodeLevel_single]
    exact written

/-- The identifier of a row is written. -/
theorem exists_pathText (compiles : k.Compiles q c order ancestors key) (runnable : k.IsRunnable)
    (same : f.relation = k.relation) (row : r ∈ f.rows) :
    ∃ t, c.statement.path.evalText c.statement.encoding.dialect (c.statement.scopeRow f.rows r).env = .ok t := by
  obtain ⟨id, type, keyValue⟩ := f.identified r row
  have path := compiles.path
  rw [← same] at path
  refine Statement.exists_evalText (encoding_eq compiles runnable) path ?_ (Statement.areHeld_key row) ⟨id.chars, ?_⟩
  · intro p single
    rw [List.mem_singleton.mp single, pathKind, ← type]
    cases id <;> trivial
  · change Column.encodeLevel [pathKind f.relation] [f.keyOf r] = .ok id.chars
    rw [Column.encodeLevel_single, Forest.keyOf, keyValue, pathKind, ← type, id.encode_toValue]

/-- A value with room in an ancestor field is written. -/
theorem exists_ancestorText (compiles : k.Compiles q c order ancestors key) (runnable : k.IsRunnable)
    (takes : ∀ a ∈ ancestors, a.Takes k.config.textWidth (r.value a.source)) (rows : List Record)
    {el : AncestorField × Element} (member : el ∈ c.statement.ancestors) :
    ∃ t, el.2.evalText c.statement.encoding.dialect (c.statement.scopeRow rows r).env = .ok t := by
  obtain ⟨a, inAncestors, -, made⟩ := Outcome.exists_of_mem_right compiles.elements member
  obtain ⟨held, bounded, written⟩ := ancestor_held compiles runnable inAncestors (takes a inAncestors) rows
  exact Statement.exists_evalText (encoding_eq compiles runnable) made bounded held written

/-- A row with room is written. -/
theorem canWrite (compiles : k.Compiles q c order ancestors key) (runnable : k.IsRunnable)
    (same : f.relation = k.relation) (row : r ∈ f.rows) (room : k.HasRoom c order ancestors r) :
    c.statement.CanWrite f.rows r := by
  refine ⟨exists_pathText compiles runnable same row, ?_,
    fun el member => exists_ancestorText compiles runnable room.takes f.rows member⟩
  obtain ⟨held, bounded, -⟩ := ordering_held compiles runnable same row room.typed
  refine Statement.exists_evalText (encoding_eq compiles runnable) compiles.ordering ?_ held
    (exists_level compiles runnable same row room)
  intro p member
  exact bounded p.kind (List.mem_map_of_mem member)

/-- The ancestor fields of a node are read as the values along its lineage. -/
theorem exists_ancestors (compiles : k.Compiles q c order ancestors key) (runnable : k.IsRunnable)
    (takes : ∀ q ∈ Forest.pathTo r as, ∀ a ∈ ancestors, a.Takes k.config.textWidth (q.value a.source)) :
    ∃ columns, (c.statement.nodeAt f.rows r as).ancestors.mapM Statement.encodedColumn? = some columns ∧
      List.Forall₂ (fun a column => column.decode false [a.kind k.config.textWidth]
        = .ok ((Forest.pathTo r as).map fun q => q.value a.source)) ancestors columns := by
  refine Statement.exists_encodedColumns ?_
  refine List.forall₂_iff_zip.mpr ⟨compiles.elements.length_eq, fun {a el} pair => ?_⟩
  obtain ⟨-, made⟩ := List.forall₂_zip compiles.elements pair
  have member := (List.of_mem_zip pair).1
  have collectable := AncestorField.kind_of_isCollectable
    (AncestorField.isCollectable_of_checkAll compiles.collected a member) runnable.textWidth
  obtain ⟨cs, levels, text⟩ := Statement.chainText_eq f.rows (encoding_eq compiles runnable) made
    (ancestor_held compiles runnable member (takes r (by simp [Forest.pathTo]) a member) f.rows).2.1
    (fun q onPath => (ancestor_held compiles runnable member (takes q onPath a member) f.rows).1)
    (fun q onPath => (ancestor_held compiles runnable member (takes q onPath a member) f.rows).2.2)
  refine ⟨.encoded (String.ofList cs), ?_, ?_⟩
  · rw [text, Statement.encodedColumn?_ofChars]
  · refine Column.decode_encodeLevels_single (Chain.bounded_of_collectable collectable)
      (by simp [Forest.pathTo]) (fun v _ => Chain.isKept_of_collectable v collectable) ?_
    rw [List.map_map]
    exact levels

/-- The ordering of a node is read as one value for each level. -/
theorem exists_ordering (compiles : k.Compiles q c order ancestors key) (runnable : k.IsRunnable)
    (same : f.relation = k.relation) (lineage : f.Lineage r as)
    (room : ∀ q ∈ Forest.pathTo r as, k.HasRoom c order ancestors q) :
    ∃ cs read, (c.statement.nodeAt f.rows r as).ordering = .ofChars cs ∧
      (Column.encoded (String.ofList cs)).decode false key.kinds = .ok read ∧ read.length = as.length + 1 := by
  have held : ∀ q ∈ Forest.pathTo r as,
      Element.AreHeld (c.statement.scopeRow f.rows q).env key.parts (c.levelValues order f.rows q) ∧
        (∀ kind ∈ key.kinds, kind.IsBounded) ∧ key.kinds ≠ [] :=
    fun q onPath => ordering_held compiles runnable same (lineage.mem_pathTo onPath) (room q onPath).typed
  have written : ∀ q ∈ Forest.pathTo r as,
      ∃ level, Column.encodeLevel key.kinds (c.levelValues order f.rows q) = .ok level :=
    fun q onPath => exists_level compiles runnable same (lineage.mem_pathTo onPath) (room q onPath)
  obtain ⟨-, bounded, segmented⟩ := held r (by simp [Forest.pathTo])
  obtain ⟨cs, levels, text⟩ := Statement.chainText_eq f.rows (encoding_eq compiles runnable) compiles.ordering
    (fun p member => bounded p.kind (List.mem_map_of_mem member)) (fun q onPath => (held q onPath).1) written
  have full : ∀ values ∈ (Forest.pathTo r as).map (c.levelValues order f.rows), values.length = key.kinds.length := by
    intro values member
    obtain ⟨q, onPath, rfl⟩ := List.mem_map.mp member
    rw [KeySource.kinds, List.length_map]
    exact (held q onPath).1.length_eq.symm
  have whole := Column.decode_encodeLevels bounded segmented (by simp [Forest.pathTo]) full levels
  have each : ∀ values ∈ (Forest.pathTo r as).map (c.levelValues order f.rows), ∃ v,
      (Column.encodeLevel key.kinds values).map (Column.levelReading key.kinds values) = .ok v := by
    intro values member
    obtain ⟨q, onPath, rfl⟩ := List.mem_map.mp member
    obtain ⟨level, levelOk⟩ := written q onPath
    exact ⟨_, by rw [levelOk]; rfl⟩
  obtain ⟨read, readOk⟩ := Outcome.exists_mapM_eq_ok each
  refine ⟨cs, read, text, whole.trans readOk, ?_⟩
  rw [← (Outcome.mapM_eq_ok_iff.mp readOk).length_eq, List.length_map, Forest.length_pathTo]

/-- Ancestor fields that are read each are read together. -/
theorem decodeAncestors_eq_ofList {columns : List Column} {textWidth expected : Nat} {rs : List Record}
    (length : rs.length = expected)
    (gathered : List.Forall₂ (fun a column => column.decode false [AncestorField.kind a textWidth]
      = .ok (rs.map fun q => q.value a.source)) ancestors columns) :
    Layout.decodeAncestors false expected .empty (ancestors.map fun a => (a.output, a.kind textWidth)) columns
      = .ok (NameMap.ofList (ancestors.map fun a => (a.output, rs.map fun q => q.value a.source))) := by
  have full : (ancestors.map fun a => rs.map fun q => q.value a.source).length
      = (ancestors.map fun a => (a.output, a.kind textWidth)).length := by
    rw [List.length_map, List.length_map]
  have each : List.Forall₂ (fun p c => Column.decode false [p.1.2] c = .ok p.2 ∧ p.2.length = expected)
      ((ancestors.map fun a => (a.output, a.kind textWidth)).zip
        (ancestors.map fun a => rs.map fun q => q.value a.source)) columns := by
    rw [List.zip_map']
    refine List.forall₂_map_left_iff.mpr (gathered.imp fun a column read => ⟨read, ?_⟩)
    rw [List.length_map, length]
  rw [Layout.decodeAncestors_eq .empty full each, List.map_map, List.zip_map']
  rfl

/-- A row whose lineage lies above the depth limit and has room in the columns is read. -/
theorem exists_decode (compiles : k.Compiles q c order ancestors key) (runnable : k.IsRunnable)
    (same : f.relation = k.relation) (lineage : f.Lineage r as) (shallow : as.length < c.maxDepth)
    (limit : c.maxDepth < Config.depthBound)
    (room : ∀ q ∈ Forest.pathTo r as, k.HasRoom c order ancestors q)
    (parent : ∃ parent, Layout.decodeParent f.relation.keyType (f.parentOf r) = .ok parent) :
    ∃ raw row, c.statement.rawRow? (c.statement.nodeAt f.rows r as) = some raw ∧ c.decode raw = .ok row := by
  obtain ⟨ids, typed, keys, path⟩ := exists_path compiles runnable same lineage
  obtain ⟨cs, read, ordering, readOk, levels⟩ := exists_ordering compiles runnable same lineage room
  obtain ⟨columns, columnsOk, gathered⟩ := exists_ancestors compiles runnable (f := f)
    fun q onPath => (room q onPath).takes
  obtain ⟨parent, parentOk⟩ := parent
  obtain ⟨id, identified, key⟩ := Forest.exists_ofValue_keyOf lineage.mem
  have relation : f.relation = c.statement.relation := by rw [same, compiles.relation]
  have length : ids.length = as.length + 1 := Forest.length_ids keys
  have bound := Layout.natCast_lt_depthBound (Nat.lt_trans shallow limit)
  have ancestorsOk := decodeAncestors_eq_ofList (Forest.length_pathTo r as) gathered
  refine ⟨_, ⟨id, parent, as.length, ids, read,
      NameMap.ofList (ancestors.map fun a => (a.output, (Forest.pathTo r as).map fun q => q.value a.source)),
      NameMap.ofList (c.statement.relation.fields.map fun g => (g.name, r.value g.name))⟩,
    Statement.rawRow?_eq_some_iff.mpr ⟨.encoded (String.ofList (ids.flatMap NodeId.chars)),
      .encoded (String.ofList cs), columns, ?_, ?_, columnsOk, rfl⟩, ?_⟩
  · rw [path, Statement.encodedColumn?_ofChars]
  · rw [ordering, Statement.encodedColumn?_ofChars]
  · rw [Compiled.decode, compiles.layout, encoding_eq compiles runnable, Layout.decode_eq_ok_iff]
    exact {
      depth := Layout.toInt_depth bound
      bounded := bound
      shallow
      path := by
        rw [same] at typed
        exact ⟨_, NodeId.decode_path (List.ne_nil_of_length_pos (by omega)) typed, NodeId.ofValues_toValue typed⟩
      levels := length
      ordering := readOk
      ordered := levels
      columns := by
        rw [← gathered.length_eq]
        exact (List.length_map _).symm
      ancestors := ancestorsOk
      id := by
        change NodeId.ofValue k.relation.keyType (c.statement.keyOf r) = .ok id
        rw [Statement.keyOf_eq relation, ← same, identified]
      last := Forest.getLast?_ids keys key
      parent := by
        change Layout.decodeParent k.relation.keyType (c.statement.parentOf r) = .ok parent
        rw [Statement.parentOf_eq relation, ← same, parentOk]
      fields := rfl }

end Compiler

end ForestQuery
