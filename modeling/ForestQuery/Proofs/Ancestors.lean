import ForestQuery.Proofs.Depth
import ForestQuery.Proofs.Expr.Raising
import ForestQuery.Proofs.RawKey
import ForestQuery.Proofs.Row.Soundness
/-!
What ancestor fields collect. Main statements: in every row of an answer an ancestor field has the values of its source
along the path, the root first; and where nothing else fails, a request overflows in an ancestor field exactly when
one of the rows that it reaches holds a text that is too wide for the field.
-/

namespace ForestQuery

namespace Request

/-- Whether the sources of the ancestor fields hold nothing or values of their types in a row, texts without U+0000
and no longer than a store can count. -/
def IsCollectable (q : Request) (relation : Relation) (r : Record) : Prop :=
  ∀ output source type, q.ancestorFields.get? output = some source → relation.fieldType? source = some type →
    type.Holds (r.value source) ∧ (r.value source).IsCountable ∧
      ∀ text, r.value source = .text text → '\x00' ∉ text.toList

/-- Whether the source of an ancestor field holds a text with more characters than the field has room for. -/
def IsOverlong (q : Request) (textWidth : Nat) (r : Record) : Prop :=
  ∃ output source text, q.ancestorFields.get? output = some source ∧ r.value source = .text text ∧
    textWidth < text.toList.length

variable {q : Request} {relation : Relation} {ancestors : List AncestorField} {r : Record} {textWidth : Nat}

theorem IsCollectable.keeps (collectable : q.IsCollectable relation r)
    (collected : AncestorField.resolve relation q.ancestorFields = .ok ancestors) {a : AncestorField}
    (member : a ∈ ancestors) : a.sourceType.Holds (r.value a.source) ∧ (r.value a.source).IsCountable ∧
      ∀ text, r.value a.source = .text text → '\x00' ∉ text.toList := by
  obtain ⟨e, -, -, known, -⟩ := Outcome.exists_of_mem_right (AncestorField.forall₂_of_checkAll collected) member
  exact collectable a.output a.source a.sourceType
    ((AncestorField.get?_eq_some_iff collected).mpr ⟨a, member, rfl, rfl⟩) known

/-- A row that can be collected has room in the ancestor fields, unless one of its texts is too wide. -/
theorem IsCollectable.takes (collectable : q.IsCollectable relation r)
    (collected : AncestorField.resolve relation q.ancestorFields = .ok ancestors) (fits : ¬ q.IsOverlong textWidth r) :
    ∀ a ∈ ancestors, a.Takes textWidth (r.value a.source) := by
  intro a member
  obtain ⟨typed, -, clean⟩ := collectable.keeps collected member
  rcases AncestorField.takes_or_overlong typed clean textWidth with takes | ⟨text, value, long⟩
  · exact takes
  · have asked := (AncestorField.get?_eq_some_iff collected).mpr ⟨a, member, rfl, rfl⟩
    exact absurd ⟨a.output, a.source, text, asked, value, long⟩ fits

end Request

namespace Statement

variable {s : Statement} {f : Forest} {r : Record} {as : List Record} {p : Raised → Prop}

/-- The element of an ancestor field fails for a text that is too wide, with the width of the field. -/
theorem evalText_of_overlong {a : AncestorField} {textWidth maxDepth : Nat} {el : Element} {text : String}
    (encoding : s.encoding = ⟨.sqlite, false, maxDepth⟩)
    (made : s.encoding.element [a.part source textWidth] = .ok el) (type : a.sourceType = .text)
    (value : r.value a.source = .text text) (countable : (Value.text text).IsCountable)
    (clean : '\x00' ∉ text.toList) (long : textWidth < text.toList.length) (rows : List Record) :
    el.evalText s.encoding.dialect (s.scopeRow rows r).env = .error ⟨.overflow textWidth, text.toList⟩ := by
  have dialect : s.encoding.dialect = .sqlite := by rw [encoding]
  have column : (Expr.reference (.column source a.source)).eval .sqlite (s.scopeRow rows r).env
      = .ok (Value.text text).scalar := by
    rw [Expr.eval, ScopeRow.env, record_scopeRow, value]
  -- Text functions end at U+0000; without one they see the whole text.
  have seen := Dialect.sqlite.visible_of_clean clean
  have small : text.toList.length < 9223372036854775808 := by
    have bytes : (Text.utf8 text.toList).length < 4611686018427387904 := countable
    have count := Text.length_le_length_utf8 text.toList
    omega
  rw [Encoding.element_eq_ok_iff (by rw [encoding]), dialect] at made
  obtain ⟨exprs, segments, rfl⟩ := made
  obtain ⟨e, es, segment, others, rfl⟩ := List.forall₂_cons_left_iff.mp (Encoding.segments_eq_ok_iff.mp segments)
  have kind : a.kind textWidth = .text textWidth := by
    rw [AncestorField.kind, type]
    rfl
  rw [AncestorField.part, kind] at segment
  cases segment
  have failed := Expr.evalText_of_eval_error (Expr.eval_textSegment_overflow column (by rwa [seen]) (by rwa [seen]))
  rw [dialect, Element.evalText, List.mapM_cons, failed]
  rfl

/-- Whether all failures of the elements of a statement in a row have a property. -/
structure FailsOnly (s : Statement) (p : Raised → Prop) (rows : List Record) (r : Record) : Prop where
  path : Outcome.Fails p (s.path.evalText s.encoding.dialect (s.scopeRow rows r).env)
  ordering : Outcome.Fails p (s.ordering.evalText s.encoding.dialect (s.scopeRow rows r).env)
  ancestors : ∀ a ∈ s.ancestors, Outcome.Fails p (a.2.evalText s.encoding.dialect (s.scopeRow rows r).env)

theorem fails_rootNode {rows : List Record} (only : s.FailsOnly p rows r) :
    Outcome.Fails p (s.rootNode (s.scopeRow rows r)) :=
  Outcome.fails_bind only.path fun _ => Outcome.fails_bind only.ordering fun _ =>
    Outcome.fails_bind (Outcome.fails_mapM only.ancestors) fun _ => Outcome.fails_ok

theorem fails_childNode {rows : List Record} {n : Node} (room : n.depth + 1 < s.encoding.maxDepth)
    (only : s.FailsOnly p rows r) : Outcome.Fails p (s.childNode n (s.scopeRow rows r)) := by
  have checked : s.checkDepth (n.depth + 1) = .ok () := checkDepth_eq_ok_iff.mpr fun _ => room
  refine Outcome.fails_bind (Outcome.fails_of_eq_ok checked) fun _ => ?_
  exact Outcome.fails_bind only.path fun _ => Outcome.fails_bind only.ordering fun _ =>
    Outcome.fails_bind (Outcome.fails_mapM only.ancestors) fun _ => Outcome.fails_ok

/-- Above the limit a node fails as the elements do in one of the rows of its lineage. -/
theorem fails_nodeOf {rows : List Record} (shallow : as.length < s.encoding.maxDepth)
    (only : ∀ q ∈ r :: as, s.FailsOnly p rows q) : Outcome.Fails p (s.nodeOf rows r as) := by
  induction as generalizing r with
  | nil => exact fails_rootNode (only r (by simp))
  | cons q as ih =>
    -- Only a node above that has a value is extended, and that is the node of the lineage above.
    obtain ⟨first, others⟩ := List.forall_mem_cons.mp only
    refine Outcome.fails_bind_of_eq (ih (Nat.lt_of_succ_lt shallow) others) fun n made => ?_
    obtain ⟨-, -, rfl⟩ := nodeOf_eq_ok_iff.mp made
    exact fails_childNode shallow first

theorem fails_run {records : List Record} (forest : s.IsForest records f)
    (shallow : ∀ r as, f.Lineage r as → as.length < s.encoding.maxDepth)
    (only : ∀ r as, f.Lineage r as → s.FailsOnly p f.rows r) : Outcome.Fails p (s.run records) := by
  refine Outcome.fails_bind ?_ fun _ => Outcome.fails_ok
  rw [nodes_eq forest]
  refine Outcome.fails_mapM fun e member => ?_
  have lineage := (Forest.mem_levels_iff.mp member).1
  refine fails_nodeOf (shallow e.1 e.2 lineage) (List.forall_mem_cons.mpr ⟨only e.1 e.2 lineage, fun q above => ?_⟩)
  obtain ⟨bs, lineageAbove⟩ := lineage.exists_of_mem above
  exact only q bs lineageAbove

end Statement

namespace Compiler

variable {k : Compiler} {q : Request} {c : Compiled} {order : SiblingOrder} {ancestors : List AncestorField}
  {key : KeySource} {f : Forest} {r : Record} {as : List Record}

theorem exists_ordering_of_fits (compiles : k.Compiles q c order ancestors key) (rows : List Record)
    (fits : ∀ width argument, c.statement.ordering.evalText c.statement.encoding.dialect (c.statement.scopeRow rows r).env
      ≠ .error ⟨.overflow width, argument⟩) :
    ∃ t, c.statement.ordering.evalText c.statement.encoding.dialect (c.statement.scopeRow rows r).env = .ok t := by
  have only : Outcome.Fails (fun raised => raised.kind.IsOverflow)
      (c.statement.ordering.evalText c.statement.encoding.dialect (c.statement.scopeRow rows r).env) :=
    Encoding.fails_evalText compiles.ordering (raisesOnly_keySource compiles.keyed)
  cases result : c.statement.ordering.evalText c.statement.encoding.dialect (c.statement.scopeRow rows r).env with
  | ok t => exact ⟨t, rfl⟩
  | error raised =>
    obtain ⟨kind, argument⟩ := raised
    obtain ⟨width, rfl⟩ := only _ result
    exact absurd result (fits width argument)

/-- A text that is too wide fails the statement with the width of the ancestor fields. -/
theorem evalText_of_overlong (compiles : k.Compiles q c order ancestors key) (runnable : k.IsRunnable)
    (collectable : q.IsCollectable k.relation r) {a : AncestorField} {el : AncestorField × Element} (member : a ∈ ancestors)
    (made : c.statement.encoding.element [a.part Statement.source k.config.textWidth] = .ok el.2) {text : String}
    (value : r.value a.source = .text text) (long : k.config.textWidth < text.toList.length) (rows : List Record) :
    el.2.evalText c.statement.encoding.dialect (c.statement.scopeRow rows r).env
      = .error ⟨.overflow k.config.textWidth, text.toList⟩ := by
  obtain ⟨typed, countable, clean⟩ := collectable.keeps compiles.collected member
  have type := AncestorField.sourceType_of_text (AncestorField.isCollectable_of_checkAll compiles.collected a member)
    (value ▸ typed)
  exact Statement.evalText_of_overlong (encoding_eq compiles runnable) made type value (value ▸ countable)
    (clean text value) long rows

theorem not_isOverlong_of_canWrite (compiles : k.Compiles q c order ancestors key) (runnable : k.IsRunnable)
    (collectable : q.IsCollectable k.relation r) {rows : List Record} (writes : c.statement.CanWrite rows r) :
    ¬ q.IsOverlong k.config.textWidth r := by
  rintro ⟨output, source, text, asked, value, long⟩
  obtain ⟨a, member, -, rfl⟩ := (AncestorField.get?_eq_some_iff compiles.collected).mp asked
  obtain ⟨el, inElements, -, made⟩ := Outcome.exists_of_mem_left compiles.elements member
  obtain ⟨t, written⟩ := writes.2.2 el inElements
  rw [evalText_of_overlong compiles runnable collectable member made value long rows] at written
  cases written

/-- A row that can be collected fails the statement, if it does, with the width of the ancestor fields. -/
theorem failsOnly_of_collectable (compiles : k.Compiles q c order ancestors key) (runnable : k.IsRunnable)
    (same : f.relation = k.relation) (row : r ∈ f.rows) (collectable : q.IsCollectable k.relation r)
    (ordered : ∃ t, c.statement.ordering.evalText c.statement.encoding.dialect (c.statement.scopeRow f.rows r).env = .ok t) :
    c.statement.FailsOnly (fun raised => raised.kind = .overflow k.config.textWidth ∧ '\x00' ∉ raised.argument)
      f.rows r := by
  obtain ⟨_, path⟩ := exists_pathText compiles runnable same row
  obtain ⟨_, ordering⟩ := ordered
  refine ⟨Outcome.fails_of_eq_ok path, Outcome.fails_of_eq_ok ordering, fun el member => ?_⟩
  obtain ⟨a, inAncestors, -, made⟩ := Outcome.exists_of_mem_right compiles.elements member
  obtain ⟨typed, -, clean⟩ := collectable.keeps compiles.collected inAncestors
  rcases AncestorField.takes_or_overlong typed clean k.config.textWidth with takes | ⟨text, value, long⟩
  · obtain ⟨held, bounded, written⟩ := ancestor_held compiles runnable inAncestors takes f.rows
    obtain ⟨_, text⟩ := Statement.exists_evalText (encoding_eq compiles runnable) made bounded held written
    exact Outcome.fails_of_eq_ok text
  · rw [evalText_of_overlong compiles runnable collectable inAncestors made value long f.rows]
    exact Outcome.fails_error ⟨rfl, clean text value⟩

/-- Each ancestor column of a row has the values along its lineage. -/
theorem forall₂_decode_ancestors {raw : RawRow} (compiles : k.Compiles q c order ancestors key)
    (runnable : k.IsRunnable)
    (takes : ∀ p ∈ Forest.pathTo r as, ∀ a ∈ ancestors, a.Takes k.config.textWidth (p.value a.source))
    (columns : c.statement.rawRow? (c.statement.nodeAt f.rows r as) = some raw) :
    List.Forall₂ (fun a column => Column.decode false [AncestorField.kind a k.config.textWidth] column
      = .ok ((Forest.pathTo r as).map fun p => p.value a.source)) ancestors raw.ancestors := by
  obtain ⟨texts, textsOk, gathered⟩ := exists_ancestors compiles runnable (f := f) takes
  obtain ⟨_, _, _, -, -, same, rfl⟩ := Statement.rawRow?_eq_some_iff.mp columns
  rw [textsOk] at same
  cases same
  exact gathered

/-- The ancestor fields of a row that is read are the values along its lineage. -/
theorem ancestorFields_of_decode {raw : RawRow} {row : TreeRow} (compiles : k.Compiles q c order ancestors key)
    (runnable : k.IsRunnable) (depth : row.depth = as.length)
    (takes : ∀ p ∈ Forest.pathTo r as, ∀ a ∈ ancestors, a.Takes k.config.textWidth (p.value a.source))
    (columns : c.statement.rawRow? (c.statement.nodeAt f.rows r as) = some raw) (decoded : c.decode raw = .ok row)
    (output : String) : row.ancestorFields.get? output
      = (q.ancestorFields.get? output).map fun source => (Forest.pathTo r as).map fun p => p.value source := by
  rw [Compiled.decode, compiles.layout, encoding_eq compiles runnable, Layout.decode_eq_ok_iff] at decoded
  have fields := decoded.ancestors
  have length : (Forest.pathTo r as).length = row.depth + 1 := by rw [Forest.length_pathTo, depth]
  have read := decodeAncestors_eq_ofList length (forall₂_decode_ancestors compiles runnable takes columns)
  -- The checked fields stand in the order of the names that were asked for.
  have asked : (ancestors.map fun a => (a.output, (Forest.pathTo r as).map fun p => p.value a.source))
      = q.ancestorFields.entries.map fun e => (e.1, (Forest.pathTo r as).map fun p => p.value e.2) := by
    have pairs := AncestorField.map_of_checkAll compiles.collected
    rw [NameMap.toList] at pairs
    rw [← pairs, List.map_map]
    rfl
  change Layout.decodeAncestors false (row.depth + 1) .empty _ raw.ancestors = _ at fields
  rw [asked] at read
  have same := Except.ok.inj (fields.symm.trans read)
  rw [same]
  exact NameMap.get?_ofList_map q.ancestorFields (fun source => (Forest.pathTo r as).map fun p => p.value source) output

/-- Neither the path nor the ordering has segments of texts, which could be marked as too wide. -/
theorem ne_text (compiles : k.Compiles q c order ancestors key) (runnable : k.IsRunnable)
    (same : f.relation = k.relation) (row : r ∈ f.rows) :
    ∀ kind ∈ pathKind k.relation :: key.kinds, ∀ width, kind ≠ .text width := by
  obtain ⟨id, keyType, -⟩ := exists_id compiles same row
  refine List.forall_mem_cons.mpr ⟨fun width => ?_, ?_⟩
  · rw [pathKind, ← (SiblingOrder.resolves compiles.resolved).keyType, ← keyType]
    cases id <;> exact SegmentKind.noConfusion
  · rcases ordering_kinds compiles runnable same row with kinds | kinds
    · rw [kinds]
      exact List.forall_mem_singleton.mpr fun width => SegmentKind.noConfusion
    · rw [kinds]
      exact SiblingOrder.plain_levelKinds keyType k.config.keyBytes

/-- Reading a row whose ancestor fields were written is no overflow. -/
theorem fails_read (compiles : k.Compiles q c order ancestors key) (runnable : k.IsRunnable)
    (same : f.relation = k.relation) (row : r ∈ f.rows)
    (takes : ∀ p ∈ Forest.pathTo r as, ∀ a ∈ ancestors, a.Takes k.config.textWidth (p.value a.source)) :
    Outcome.Fails (fun e => ∀ detail width, e ≠ .encodingOverflow detail width)
      (c.read (c.statement.rawRow? (c.statement.nodeAt f.rows r as))) := by
  cases columns : c.statement.rawRow? (c.statement.nodeAt f.rows r as) with
  | none => exact Outcome.fails_error fun _ _ => Error.noConfusion
  | some raw =>
    have gathered := forall₂_decode_ancestors compiles runnable takes columns
    rw [Compiled.read, Compiled.decode, compiles.layout, encoding_eq compiles runnable]
    refine Layout.fails_decode_of_ancestors (fun _ _ _ => Error.noConfusion) (fun _ _ => Error.noConfusion)
      (fun width member => absurd rfl (ne_text compiles runnable same row _ member width)) fun e member => ?_
    have read : List.Forall₂ (fun kind column => ∃ values, Column.decode false [kind.2] column = .ok values)
        (ancestors.map fun a => (a.output, a.kind k.config.textWidth)) raw.ancestors :=
      List.forall₂_map_left_iff.mpr (gathered.imp fun a column decoded => ⟨_, decoded⟩)
    obtain ⟨_, values⟩ := List.forall₂_zip read member
    exact Outcome.fails_of_eq_ok values

end Compiler

namespace Store

variable {s : Store} {relation : Relation} {config : Config} {q : Request} {c : Compiled} {t : Table}

section Open

variable (isOpen : s.IsOpen relation config) (compiled : s.compile q = .ok c)
  (readable : s.database.readable? relation.table = some t) (keyed : t.IsKeyed relation)
  (collectable : ∀ r as, (q.forest keyed).Lineage r as → q.IsCollectable relation r)

include isOpen compiled readable collectable

theorem ancestors_of_query {rows : List TreeRow} (answered : s.query q = .ok rows) : ∀ row ∈ rows,
    ∃ r as, (q.forest keyed).Lineage r as ∧ (q.forest keyed).Shows row (r, as) ∧
      ∀ output, row.ancestorFields.get? output
        = (q.ancestorFields.get? output).map fun source => (Forest.pathTo r as).map fun p => p.value source := by
  intro row member
  have runnable := isRunnable isOpen
  obtain ⟨order, ancestors, key, compiles⟩ := Compiler.compile_eq_ok compiled
  have visible := visible_of_query isOpen compiled answered
  obtain ⟨traverses, delivered⟩ := (query_eq_ok_iff isOpen compiled readable keyed visible).mp answered
  obtain ⟨⟨r, as⟩, inOrder, raw, columns, decoded⟩ := Outcome.exists_of_mem_right delivered member
  have lineage := (Statement.mem_ordered_iff traverses).mp inOrder
  have shows := Compiler.shows_of_decode compiles runnable isOpen.describes.symm lineage columns decoded
  have takes : ∀ p ∈ Forest.pathTo r as, ∀ a ∈ ancestors, a.Takes s.compiler.config.textWidth (p.value a.source) := by
    intro p onPath
    obtain ⟨bs, above⟩ := lineage.exists_of_mem_pathTo onPath
    have kept : q.IsCollectable s.compiler.relation p := isOpen.describes.symm ▸ collectable p bs above
    exact kept.takes compiles.collected
      (Compiler.not_isOverlong_of_canWrite compiles runnable kept (traverses p bs above).2)
  exact ⟨r, as, lineage, shows,
    Compiler.ancestorFields_of_decode compiles runnable shows.depth takes columns decoded⟩

variable (visible : c.statement.partNames.any (Identifier.sameName relation.table) = false)
  (shallow : ∀ r as, (q.forest keyed).Lineage r as → as.length < c.maxDepth)
  (ordered : ∀ r as, (q.forest keyed).Lineage r as → ∃ text, c.statement.ordering.evalText
    c.statement.encoding.dialect (c.statement.scopeRow (q.forest keyed).rows r).env = .ok text)

include visible shallow ordered

/-- A text that is too wide for the ancestor fields fails a request with their width, where nothing else fails it. -/
theorem query_of_overlong
    (some : ∃ r as, (q.forest keyed).Lineage r as ∧ q.IsOverlong config.textWidth r) :
    ∃ detail, s.query q = .error (.encodingOverflow detail config.textWidth) := by
  have runnable := isRunnable isOpen
  have width : s.compiler.config.textWidth = config.textWidth := by rw [isOpen.settings]
  obtain ⟨order, ancestors, key, compiles⟩ := Compiler.compile_eq_ok compiled
  have kept : ∀ r as, (q.forest keyed).Lineage r as → q.IsCollectable s.compiler.relation r :=
    fun r as lineage => isOpen.describes.symm ▸ collectable r as lineage
  have only := Statement.fails_run (isForest isOpen compiled keyed) shallow fun r as lineage =>
    Compiler.failsOnly_of_collectable compiles runnable isOpen.describes.symm lineage.mem (kept r as lineage)
      (ordered r as lineage)
  have ran := run_eq isOpen compiled readable keyed visible
  obtain ⟨r, as, lineage, overlong⟩ := some
  rw [query_eq, compiled]
  change ∃ detail, (s.run c >>= fun raws => raws.mapM c.read) = _
  cases result : c.statement.run t.records with
  | ok raws =>
    -- Then every row was written, the one with the text that is too wide among them.
    rw [result] at ran
    obtain ⟨traverses, -⟩ := (run_eq_ok_iff isOpen compiled readable keyed visible).mp ran
    exact absurd (width ▸ overlong) (Compiler.not_isOverlong_of_canWrite compiles runnable (kept r as lineage)
      (traverses r as lineage).2)
  | error raised =>
    obtain ⟨kind, argument⟩ := raised
    obtain ⟨rfl, clean⟩ := only _ result
    have small : config.textWidth < SegmentKind.widthBound := Nat.lt_of_le_of_lt isOpen.textWidth (by decide)
    rw [ran, result, Except.mapError, Failure.ofRaised_overflow _ _ clean, width, if_pos small]
    exact ⟨_, rfl⟩

/-- A request is no overflow where no text is too wide for the ancestor fields and nothing else fails it. -/
theorem fails_query_of_fits
    (fits : ∀ r as, (q.forest keyed).Lineage r as → ¬ q.IsOverlong config.textWidth r) :
    Outcome.Fails (fun e => ∀ detail width, e ≠ .encodingOverflow detail width) (s.query q) := by
  have runnable := isRunnable isOpen
  have width : s.compiler.config.textWidth = config.textWidth := by rw [isOpen.settings]
  obtain ⟨order, ancestors, key, compiles⟩ := Compiler.compile_eq_ok compiled
  have takes : ∀ r as, (q.forest keyed).Lineage r as → ∀ a ∈ ancestors,
      a.Takes s.compiler.config.textWidth (r.value a.source) := by
    intro r as lineage
    have kept : q.IsCollectable s.compiler.relation r := isOpen.describes.symm ▸ collectable r as lineage
    exact kept.takes compiles.collected (width ▸ fits r as lineage)
  have traverses : c.statement.CanTraverse (q.forest keyed) := fun r as lineage =>
    ⟨shallow r as lineage, Compiler.exists_pathText compiles runnable isOpen.describes.symm lineage.mem,
      ordered r as lineage, fun el member => Compiler.exists_ancestorText compiles runnable (takes r as lineage) _ member⟩
  rw [query_eq, compiled]
  change Outcome.Fails _ (s.run c >>= fun raws => raws.mapM c.read)
  rw [(run_eq_ok_iff isOpen compiled readable keyed visible).mpr ⟨traverses, rfl⟩]
  refine Outcome.fails_mapM fun raw member => ?_
  obtain ⟨e, inOrder, rfl⟩ := List.mem_map.mp member
  have lineage := (Statement.mem_ordered_iff traverses).mp inOrder
  refine Compiler.fails_read compiles runnable isOpen.describes.symm lineage.mem fun p onPath => ?_
  obtain ⟨bs, above⟩ := lineage.exists_of_mem_pathTo onPath
  exact takes p bs above

end Open

/-- Nodes with names. -/
def namedRelation (table : String) : Relation := ⟨table, "id", .integer, "parent_id", [⟨"name", .text⟩]⟩

/-- A root and a child with a longer name. -/
def namedTable (table : String) : Table where
  name := table
  declaration := ""
  columns := [⟨"id", .integer⟩, ⟨"parent_id", .integer⟩, ⟨"name", .text⟩]
  key := some ⟨"id", .integer⟩
  rows := [⟨1, [.integer 1, .null, .text "ab"]⟩, ⟨2, [.integer 2, .integer 1, .text "abc"]⟩]

def namedConfig (textWidth : Nat) : Config := { Config.default with textWidth := textWidth }

def namedStore (table : String) (textWidth : Nat) : Store :=
  ⟨⟨namedRelation table, { namedConfig textWidth with windowFunctions := some true }, false⟩,
    ⟨[.table (namedTable table)]⟩⟩

/-- The names along the path. -/
def namesRequest : Request := { Request.empty with ancestorFields := NameMap.empty.insert "names" "name" }

def namedRoot : Record := (namedTable "").record ⟨1, [.integer 1, .null, .text "ab"]⟩

def namedChild : Record := (namedTable "").record ⟨2, [.integer 2, .integer 1, .text "abc"]⟩

section

variable {table : String} {r : Record} {as : List Record}

theorem namedTable_isKeyed (known : table ∈ ["nodes", Statement.treeName]) :
    (namedTable table).IsKeyed (namedRelation table) := by
  rcases List.mem_pair.mp known with rfl | rfl
  all_goals exact {
    columns := by decide_cbv
    identified := by
      intro r member
      rcases List.mem_pair.mp member with rfl | rfl
      · exact ⟨.int 1, rfl, by decide_cbv⟩
      · exact ⟨.int 2, rfl, by decide_cbv⟩
    distinct := by decide_cbv }

variable (keyed : (namedTable table).IsKeyed (namedRelation table))

theorem namedTable_rows : (namesRequest.forest keyed).rows = [namedRoot, namedChild] := rfl

theorem namedTable_lineage : (namesRequest.forest keyed).Lineage r as ↔
    r = namedRoot ∧ as = [] ∨ r = namedChild ∧ as = [namedRoot] := by
  have rows := namedTable_rows keyed
  have top : (namesRequest.forest keyed).parent? namedRoot = none := by
    rw [Forest.parent?, rows]
    change [namedRoot, namedChild].find? (fun p => Value.same (p.value "id") (namedRoot.value "parent_id")) = none
    decide_cbv
  have below : (namesRequest.forest keyed).parent? namedChild = some namedRoot := by
    rw [Forest.parent?, rows]
    change [namedRoot, namedChild].find? (fun p => Value.same (p.value "id") (namedChild.value "parent_id"))
      = some namedRoot
    decide_cbv
  exact Forest.lineage_iff_of_pair rows top below

variable {keyed}

theorem namedTable_name (lineage : (namesRequest.forest keyed).Lineage r as) :
    r.value "name" = .text "ab" ∨ r.value "name" = .text "abc" := by
  rcases (namedTable_lineage keyed).mp lineage with ⟨rfl, -⟩ | ⟨rfl, -⟩
  · exact Or.inl (by decide_cbv)
  · exact Or.inr (by decide_cbv)

theorem namedTable_isCollectable (lineage : (namesRequest.forest keyed).Lineage r as) :
    namesRequest.IsCollectable (namedRelation table) r := by
  intro output source type asked field
  cases List.mem_singleton.mp (NameMap.get?_eq_some_iff.mp asked)
  have text : (namedRelation table).fieldType? "name" = some .text := rfl
  rw [text] at field
  cases field
  rcases namedTable_name lineage with name | name <;> rw [name]
  · exact ⟨trivial, show (Text.utf8 "ab".toList).length < 4611686018427387904 by decide,
      fun text same => by cases same; decide⟩
  · exact ⟨trivial, show (Text.utf8 "abc".toList).length < 4611686018427387904 by decide,
      fun text same => by cases same; decide⟩

end

/-- In three characters both names have room. -/
theorem namedStore_answers : ∃ rows, (namedStore "nodes" 3).query namesRequest = .ok rows := by
  obtain keyed : (namedTable "nodes").IsKeyed (namedRelation "nodes") := namedTable_isKeyed List.mem_cons_self
  have checks : ((namedStore "nodes" 3).compile namesRequest).toOption.any (fun c =>
      !c.statement.partNames.any (Identifier.sameName "nodes") && c.maxDepth == 50 && c.ranked) = true := by
    decide_cbv
  obtain ⟨c, compiled, checked⟩ := Outcome.exists_of_any checks
  simp only [Bool.and_eq_true, Bool.not_eq_true', beq_iff_eq] at checked
  obtain ⟨⟨visible, limit⟩, ranked⟩ := checked
  obtain ⟨order, ancestors, key, compiles⟩ := Compiler.compile_eq_ok compiled
  have opened : Store.new (namedRelation "nodes") (namedConfig 3) = .ok ⟨(namedStore "nodes" 3).compiler, .empty⟩ := by
    decide
  refine exists_query (isOpen_of_new opened) compiled (Database.readable?_cons_self _ _) keyed visible compiles
    (by rw [limit]; decide) fun r as lineage => ?_
  have narrow : ¬ namesRequest.IsOverlong 3 r := by
    rintro ⟨output, source, text, asked, value, long⟩
    cases List.mem_singleton.mp (NameMap.get?_eq_some_iff.mp asked)
    rcases namedTable_name lineage with name | name
    all_goals
      rw [name] at value
      cases value
      exact absurd long (by decide)
  have takes := (namedTable_isCollectable lineage).takes compiles.collected narrow
  refine ⟨?_, ⟨fun raw => ?_, fun raw => ?_, takes⟩, ?_⟩
  · rw [limit]
    rcases (namedTable_lineage keyed).mp lineage with ⟨-, rfl⟩ | ⟨-, rfl⟩ <;> decide
  · rw [ranked] at raw
    cases raw
  · rw [ranked] at raw
    cases raw
  · rcases (namedTable_lineage keyed).mp lineage with ⟨rfl, -⟩ | ⟨rfl, -⟩
    · exact ⟨none, by decide_cbv⟩
    · exact ⟨some (.int 1), by decide_cbv⟩

end Store

end ForestQuery
