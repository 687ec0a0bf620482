import ForestQuery.Proofs.Delivered
import ForestQuery.Proofs.KeyPart
import ForestQuery.Proofs.Place
import ForestQuery.Proofs.Reading
import ForestQuery.Proofs.RawKey
import ForestQuery.Proofs.Relation
import ForestQuery.Proofs.Row.Soundness
/-!
What the ordering of a row tells about its identifier, with no condition on the keys of the table. Main statement: two
rows below the same one, or both on top, that add the same level to the ordering have the same identifier.
-/

namespace ForestQuery

/-- Whether a store counts the rows of a table, and the characters of each text in them. -/
structure Table.IsCountable (t : Table) (relation : Relation) : Prop where
  rows : t.rows.length < 9223372036854775808
  texts : ∀ r ∈ t.records, ∀ f ∈ relation.columns, (r.value f.name).IsShort

namespace Part

variable {env : Reference → Value} {p : Part} {t : StoredText}

/-- Whether a text is what a part writes. -/
def Writes (env : Reference → Value) (p : Part) (t : StoredText) : Prop :=
  ∃ e, Expr.segment? .sqlite p.expr p.kind = some e ∧ e.evalText .sqlite env = .ok t

/-- The text of an element is made of those of its parts. -/
theorem exists_writes {enc : Encoding} {maxDepth : Nat} {parts : List Part} {el : Element}
    (encoding : enc = ⟨.sqlite, false, maxDepth⟩) (made : enc.element parts = .ok el)
    (text : el.evalText enc.dialect env = .ok t) : ∃ ts, List.Forall₂ (Writes env) parts ts ∧ t = ts.flatten := by
  subst encoding
  obtain ⟨exprs, segments, rfl⟩ := (Encoding.element_eq_ok_iff rfl).mp made
  have each := Encoding.segments_eq_ok_iff.mp segments
  clear made segments
  induction each generalizing t with
  | nil =>
    cases text
    exact ⟨[], .nil, rfl⟩
  | @cons p e parts exprs first _ ih =>
    obtain ⟨u, rest, own, others, rfl⟩ := Element.evalText_segments_cons.mp text
    obtain ⟨ts, each, rfl⟩ := ih others
    exact ⟨u :: ts, .cons ⟨e, first, own⟩ each, rfl⟩

/-- Whether what a part writes keeps to its segment: it is no text that was cut or filled up, and an identifier is
taken from a column whose text a store counts. -/
def IsTight (env : Reference → Value) (p : Part) : Prop :=
  (∀ width, p.kind ≠ .text width) ∧ (p.kind = .uuid → ∃ r, p.expr = .reference r ∧ (env r).IsShort)

theorem Writes.isPiece (writes : p.Writes env t) (tight : p.IsTight env) : Segment.IsPiece p.kind t := by
  obtain ⟨e, made, text⟩ := writes
  exact Expr.isPiece_segment? made tight.1 tight.2 text

/-- Parts that write the same level in two rows write the same texts one by one. -/
theorem same_of_level {env' : Reference → Value} {parts : List Part} {ts us : List StoredText} {l : List Char} {v : Value}
    (first : List.Forall₂ (Writes env) parts ts) (second : List.Forall₂ (Writes env') parts us)
    (tight : ∀ p ∈ parts, p.IsTight env ∧ p.IsTight env')
    (length : l.length = SegmentKind.levelWidth (parts.map Part.kind))
    (read : Column.decodeLevel (parts.map Part.kind) l = .ok v) (bytes : Text.utf8 l = StoredText.toBytes ts.flatten)
    (bytes' : Text.utf8 l = StoredText.toBytes us.flatten) (member : p ∈ parts) :
    ∃ t u, p.Writes env t ∧ p.Writes env' u ∧ t.toBytes = u.toBytes := by
  have pieces : List.Forall₂ Segment.IsPiece (parts.map Part.kind) ts :=
    List.forall₂_map_left_iff.mpr (List.forall₂_iff_zip.mpr ⟨first.length_eq, fun {p t} pair =>
      (List.forall₂_zip first pair).isPiece (tight p (List.of_mem_zip pair).1).1⟩)
  have pieces' : List.Forall₂ Segment.IsPiece (parts.map Part.kind) us :=
    List.forall₂_map_left_iff.mpr (List.forall₂_iff_zip.mpr ⟨second.length_eq, fun {p u} pair =>
      (List.forall₂_zip second pair).isPiece (tight p (List.of_mem_zip pair).1).2⟩)
  have plain : ∀ kind ∈ parts.map Part.kind, ∀ width, kind ≠ .text width := by
    intro kind found
    obtain ⟨p, inParts, rfl⟩ := List.mem_map.mp found
    exact (tight p inParts).1.1
  have same := Column.same_pieces pieces pieces' plain length read bytes bytes'
  clear tight pieces pieces' plain length read bytes bytes'
  induction first generalizing us with
  | nil => cases member
  | @cons q t parts ts own _ ih =>
    obtain ⟨u, us, own', others, rfl⟩ := List.forall₂_cons_left_iff.mp second
    obtain ⟨here, rest⟩ := List.forall₂_cons.mp same
    rcases List.mem_cons.mp member with rfl | later
    · exact ⟨t, u, own, own', here⟩
    · exact ih others later rest

end Part

namespace SiblingOrder

variable {o : SiblingOrder} {relation : Relation} {keyBytes : Nat} {source : String} {key : KeySource} {id : NodeId}
  {p : Part}

/-- A field of the key of the table is written from the key, in either direction. -/
theorem isKeyPart_part {f : SortField} (type : f.type = id.type) (keyBytes : Nat) (source : String) :
    NodeId.IsKeyPart id.type (.column source f.field) (f.part keyBytes source) := by
  obtain ⟨name, direction, type'⟩ := f
  obtain rfl : type' = id.type := type
  cases id with
  | int i =>
    cases direction with
    | ascending => exact Or.inl rfl
    | descending => exact Or.inr (Or.inl ⟨rfl, rfl⟩)
  | uuid u =>
    cases direction with
    | ascending => exact Or.inl rfl
    | descending => exact Or.inr (Or.inr ⟨rfl, rfl⟩)

/-- One of the parts of a raw key is made of the key of the table. -/
theorem exists_isKeyPart (made : o.rawKey .sqlite false keyBytes source = .ok key) (resolves : o.Resolves relation)
    (keyType : id.type = o.keyType) :
    ∃ p ∈ key.parts, NodeId.IsKeyPart o.keyType (.column source o.key) p := by
  obtain ⟨-, parts⟩ := rawKey_parts made resolves keyType
  rw [parts, rawParts]
  cases uses : o.usesKey with
  | false => exact ⟨o.keyPart source, by simp, Or.inl rfl⟩
  | true =>
    obtain ⟨f, member, found⟩ := List.any_eq_true.mp uses
    rw [beq_iff_eq] at found
    have type : f.type = id.type := (resolves.type_of_key member found).trans keyType.symm
    rw [← found, ← keyType]
    exact ⟨f.part keyBytes source, List.mem_append_left _ (List.mem_map_of_mem member), isKeyPart_part type _ _⟩

/-- What is written for an identifier in a raw key is taken from a column of the relation. -/
theorem exists_column_of_rawKey (made : o.rawKey .sqlite false keyBytes source = .ok key) (resolves : o.Resolves relation)
    (member : p ∈ key.parts) (uuid : p.kind = .uuid) :
    ∃ name ∈ relation.columns.map Field.name, p.expr = .reference (.column source name) := by
  refine forall_parts_of_rawKey (P := fun p => p.kind = .uuid → ∃ name ∈ relation.columns.map Field.name,
    p.expr = .reference (.column source name)) made (fun _ => ?_) (fun f inFields _ kind => ?_) p member uuid
  · refine ⟨o.key, ?_, rfl⟩
    rw [resolves.key]
    exact Relation.mem_columns_of_fieldType? (by rw [relation.fieldType?_key]; rfl)
  · have known := Relation.requireField_eq_ok_iff.mp (resolves.typed f inFields)
    refine ⟨f.field, Relation.mem_columns_of_fieldType? (by rw [known]; rfl), ?_⟩
    -- Integers alone are written otherwise than from the column as it is.
    rcases f.levelExpr_cases source with plain | ⟨⟨integer, -⟩, -⟩
    · exact plain
    · rw [SortField.part, SortField.kind, integer] at kind
      cases kind

end SiblingOrder

namespace Compiler

variable {k : Compiler} {q : Request} {c : Compiled} {order : SiblingOrder} {ancestors : List AncestorField}
  {key : KeySource} {t : Table} {above : Option Node} {n m : Node} {r p : ScopeRow} {row other : TreeRow}
  {upper : List NodeId} {segment segment' level level' : StoredText}

theorem record_mem_of_scopeRows {s : Statement} {records : List Record} (row : r ∈ s.scopeRows records) :
    r.record ∈ records := by
  rw [Statement.scopeRows_eq] at row
  obtain ⟨x, member, rfl⟩ := List.mem_map.mp row
  rw [Statement.record_scopeRow]
  rw [Statement.kept] at member
  split at member
  · exact member
  · exact List.mem_of_mem_filter member

/-- The key of a row that is delivered stands for its identifier. -/
theorem value_of_adds {rows : List ScopeRow} (compiles : k.Compiles q c order ancestors key)
    (extension : c.statement.Extends rows above n r segment level) (adds : c.Adds n row upper segment level) :
    NodeId.ofValue k.relation.keyType (r.record.value k.relation.key) = .ok row.id := by
  have value := adds.id
  rwa [compiles.layout, extension.record, Statement.keyOf, compiles.relation] at value

/-- The key of a row that is delivered is read back from its path. -/
theorem isWritten_of_adds (compiles : k.Compiles q c order ancestors key) (runnable : k.IsRunnable)
    (countable : t.IsCountable k.relation)
    (extension : c.statement.Extends (c.statement.scopeRows t.records) above n r segment level)
    (adds : c.Adds n row upper segment level) :
    NodeId.IsWritten k.relation.keyType r.env (.column Statement.source k.relation.key) row.id := by
  have keyType : c.layout.keyType = k.relation.keyType := by rw [compiles.layout, layout]
  have pathKind : c.layout.path = .ofFieldType 0 k.relation.keyType := by rw [compiles.layout]; rfl
  refine ⟨value_of_adds compiles extension adds, countable.texts r.record (record_mem_of_scopeRows extension.row)
    ⟨k.relation.key, k.relation.keyType⟩ List.mem_cons_self, ?_⟩
  obtain ⟨ts, writes, whole⟩ := Part.exists_writes (encoding_eq compiles runnable) compiles.path extension.pathText
  obtain ⟨u, _, ⟨e, made, written⟩, none, rfl⟩ := List.forall₂_cons_left_iff.mp writes
  cases none
  rw [List.flatten_singleton] at whole
  obtain ⟨l, v, bytes, width, read, id⟩ := adds.readSegment
  rw [pathKind] at width read
  rw [keyType] at id
  have single : SegmentKind.levelWidth [.ofFieldType 0 k.relation.keyType]
      = (SegmentKind.ofFieldType 0 k.relation.keyType).width := by
    rw [SegmentKind.levelWidth_cons]
    rfl
  rw [single] at width
  rw [Column.decodeLevel_single width] at read
  exact ⟨e, u, l, v, made, written, by rw [bytes, whole], width, read, id⟩

/-- The parents of rows below the same node, or of rows on top among filtered ones, are equal for the store. -/
theorem same_parent_of_extends {s : Statement} {rows : List ScopeRow} {filter : Clauses} {rank : Option (List SortTerm)}
    (scope : s.scope = .filtered filter rank) (first : s.Extends rows above n r segment level)
    (second : s.Extends rows above m p segment' level') : Value.same r.parent p.parent = true := by
  have linked := first.linked
  have linked' := second.linked
  cases above with
  | none =>
    simp only [Option.elim_none, Statement.isRoot, scope] at linked linked'
    have absent : ∀ v : Value, v.isNull = true → v = .null := fun v none =>
      (Segment.null_or_present v).resolve_right (by rw [none]; decide)
    rw [absent _ linked, absent _ linked']
    exact Value.same_self _
  | some x =>
    simp only [Option.elim_some, Statement.isChild, Bool.and_eq_true] at linked linked'
    exact Value.same_trans linked.2 (Value.same_symm linked'.2)

/-- Where siblings are numbered, the level of a row is its place. -/
theorem level_of_ranked {rows : List ScopeRow} {i : Int64} (compiles : k.Compiles q c order ancestors key)
    (runnable : k.IsRunnable) (ranked : c.ranked = true) (extension : c.statement.Extends rows above n r segment level)
    (place : r.rank = .integer i) : level = .ofChars (Segment.encodeInteger i) := by
  obtain ⟨ts, writes, rfl⟩ := Part.exists_writes (encoding_eq compiles runnable) compiles.ordering extension.levelText
  obtain ⟨-, rfl⟩ | ⟨unranked, -⟩ := key_cases compiles runnable
  · obtain ⟨u, _, ⟨e, made, written⟩, none, rfl⟩ := List.forall₂_cons_left_iff.mp writes
    cases none
    cases made
    have value : (Expr.reference (.generated Statement.source SiblingOrder.rankColumn)).eval .sqlite r.env
        = .ok (.integer i) := by
      rw [Expr.eval, ScopeRow.env, if_pos rfl, place]
      rfl
    cases written.symm.trans (Expr.evalText_of_eval (Expr.eval_integerSegment value))
    rw [List.flatten_singleton, Scalar.asText?_ofChars, Option.getD_some]
  · rw [ranked] at unranked
    cases unranked

/-- Siblings with the same place have the same identifier. -/
theorem id_eq_of_ranked (compiles : k.Compiles q c order ancestors key) (runnable : k.IsRunnable)
    (countable : t.IsCountable k.relation) (ranked : c.ranked = true)
    (first : c.statement.Extends (c.statement.scopeRows t.records) above n r segment level)
    (second : c.statement.Extends (c.statement.scopeRows t.records) above m p segment' level')
    (adds : c.Adds n row upper segment level) (adds' : c.Adds m other upper segment' level')
    (same : level.toBytes = level'.toBytes) : row.id = other.id := by
  obtain ⟨filter, scope⟩ := scope_of_ranked compiles ranked
  have few : t.records.length < 9223372036854775808 := by
    rw [Table.records, List.length_map]
    exact countable.rows
  obtain ⟨i, place⟩ := Statement.exists_rank scope few first.row
  obtain ⟨j, place'⟩ := Statement.exists_rank scope few second.row
  rw [level_of_ranked compiles runnable ranked first place, level_of_ranked compiles runnable ranked second place',
    StoredText.toBytes_ofChars, StoredText.toBytes_ofChars] at same
  have numbers := NodeId.encodeInteger_injective (Text.utf8_injective same)
  have keys := Statement.same_key_of_rank scope few first.row second.row (same_parent_of_extends scope first second)
    (by rw [place, place', numbers])
  rw [(SiblingOrder.resolves compiles.resolved).key] at keys
  have value := value_of_adds compiles first adds
  have value' := value_of_adds compiles second adds'
  rw [NodeId.eq_of_same value value' keys, value'] at value
  exact (Except.ok.inj value).symm

/-- The parts of a raw key keep to their segments. -/
theorem isTight_of_raw {id : NodeId} (compiles : k.Compiles q c order ancestors key) (countable : t.IsCountable k.relation)
    (raw : order.rawKey .sqlite false k.config.keyBytes Statement.source = .ok key) (keyType : id.type = order.keyType)
    (record : r.record ∈ t.records) : ∀ p ∈ key.parts, p.IsTight r.env := by
  intro p member
  have resolves := SiblingOrder.resolves compiles.resolved
  refine ⟨?_, fun uuid => ?_⟩
  · refine SiblingOrder.plain_levelKinds keyType k.config.keyBytes p.kind ?_
    rw [← (SiblingOrder.rawKey_kinds raw resolves keyType).1]
    exact List.mem_map_of_mem member
  · obtain ⟨name, column, expr⟩ := SiblingOrder.exists_column_of_rawKey raw resolves member uuid
    obtain ⟨f, inColumns, rfl⟩ := List.mem_map.mp column
    exact ⟨_, expr, countable.texts r.record record f inColumns⟩

/-- Rows with the same raw key have the same identifier. -/
theorem id_eq_of_raw {above' : Option Node} {upper' : List NodeId} (compiles : k.Compiles q c order ancestors key)
    (runnable : k.IsRunnable) (countable : t.IsCountable k.relation)
    (raw : order.rawKey .sqlite false k.config.keyBytes Statement.source = .ok key)
    (first : c.statement.Extends (c.statement.scopeRows t.records) above n r segment level)
    (second : c.statement.Extends (c.statement.scopeRows t.records) above' m p segment' level')
    (adds : c.Adds n row upper segment level) (adds' : c.Adds m other upper' segment' level')
    (same : level.toBytes = level'.toBytes) : row.id = other.id := by
  have resolves := SiblingOrder.resolves compiles.resolved
  have written := isWritten_of_adds compiles runnable countable first adds
  have written' := isWritten_of_adds compiles runnable countable second adds'
  rw [← resolves.key, ← resolves.keyType] at written written'
  have keyType := NodeId.type_of_ofValue written.value
  have encoding := encoding_eq compiles runnable
  obtain ⟨ts, writes, rfl⟩ := Part.exists_writes encoding compiles.ordering first.levelText
  obtain ⟨us, writes', rfl⟩ := Part.exists_writes encoding compiles.ordering second.levelText
  obtain ⟨l, v, bytes, length, read⟩ := adds.readLevel
  rw [compiles.layout] at length read
  obtain ⟨part, inParts, keyPart⟩ := SiblingOrder.exists_isKeyPart raw resolves keyType
  have tight := isTight_of_raw compiles countable raw keyType (record_mem_of_scopeRows first.row)
  have tight' := isTight_of_raw compiles countable raw keyType (record_mem_of_scopeRows second.row)
  obtain ⟨x, y, ⟨e, made, key⟩, ⟨e', made', key'⟩, equal⟩ := Part.same_of_level writes writes'
    (fun p member => ⟨tight p member, tight' p member⟩) length read bytes (bytes.trans same) inParts
  cases made.symm.trans made'
  exact NodeId.eq_of_isKeyPart written written' keyPart made key key' equal

/-- Rows below the same node, or both on top, that add the same level to the ordering have the same identifier. -/
theorem id_eq_of_level (compiles : k.Compiles q c order ancestors key) (runnable : k.IsRunnable)
    (countable : t.IsCountable k.relation)
    (first : c.statement.Extends (c.statement.scopeRows t.records) above n r segment level)
    (second : c.statement.Extends (c.statement.scopeRows t.records) above m p segment' level')
    (adds : c.Adds n row upper segment level) (adds' : c.Adds m other upper segment' level')
    (same : level.toBytes = level'.toBytes) : row.id = other.id := by
  rcases key_cases compiles runnable with ⟨ranked, -⟩ | ⟨-, raw⟩
  · exact id_eq_of_ranked compiles runnable countable ranked first second adds adds' same
  · exact id_eq_of_raw compiles runnable countable raw first second adds adds' same

end Compiler

end ForestQuery
