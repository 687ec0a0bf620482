import ForestQuery.Proofs.Reading
import Mathlib
/-!
What a store answers to a request. Main statements: the answer shows each row with a lineage once, with its
depth and its path; and there is an answer where the rows lie above the depth limit and have room in the
columns.
-/

namespace ForestQuery.Store

variable {s : Store} {relation : Relation} {config : Config} {q : Request} {c : Compiled} {t : Table}
  {order : SiblingOrder} {ancestors : List AncestorField} {rows : List TreeRow}

/-- The rows of an answer show those of the forest, in the order of the statement. -/
theorem shows_of_query (isOpen : s.IsOpen relation config) (compiled : s.compile q = .ok c)
    (readable : s.database.readable? relation.table = some t) (keyed : t.IsKeyed relation)
    (visible : c.statement.partNames.any (Identifier.sameName relation.table) = false)
    (answered : s.query q = .ok rows) :
    c.statement.CanTraverse (q.forest keyed) ∧ List.Forall₂ (fun e row => (q.forest keyed).Shows row e)
      (c.statement.ordered (q.forest keyed)) rows := by
  obtain ⟨traverses, delivered⟩ := (query_eq_ok_iff isOpen compiled readable keyed visible).mp answered
  obtain ⟨order, ancestors, key, compiles⟩ := Compiler.compile_eq_ok compiled
  refine ⟨traverses, List.forall₂_iff_zip.mpr ⟨delivered.length_eq, fun {e row} pair => ?_⟩⟩
  obtain ⟨raw, columns, decoded⟩ := List.forall₂_zip delivered pair
  have lineage := (Statement.mem_ordered_iff traverses).mp (List.of_mem_zip pair).1
  exact Compiler.shows_of_decode compiles (isRunnable isOpen) isOpen.describes.symm lineage columns decoded

/-- Rows that show different rows of the forest have different identifiers. -/
theorem nodup_ids {f : Forest} {cs : List (Record × List Record)} (lineages : ∀ e ∈ cs, f.Lineage e.1 e.2)
    (distinct : (cs.map Prod.fst).Nodup) (shown : List.Forall₂ (fun e row => f.Shows row e) cs rows) :
    (rows.map TreeRow.id).Nodup := by
  have keys : (rows.map TreeRow.id).map NodeId.toValue = (cs.map Prod.fst).map f.keyOf := by
    rw [List.map_map, List.map_map]
    exact Outcome.map_eq_map (shown.flip.imp fun row e shows => shows.id)
  have unequal : ((rows.map TreeRow.id).map NodeId.toValue).Nodup := by
    rw [keys]
    refine List.Nodup.map_on (fun r first p second same => ?_) distinct
    obtain ⟨d, inFirst, rfl⟩ := List.mem_map.mp first
    obtain ⟨e, inSecond, rfl⟩ := List.mem_map.mp second
    exact Forest.eq_of_keyOf (lineages d inFirst).mem (lineages e inSecond).mem same
  exact List.Nodup.of_map NodeId.toValue unequal

/-- There is an answer where every row with a lineage lies above the depth limit, refers to no parent or to what can
be read as an identifier, and has room in the columns. -/
theorem exists_query {key : KeySource} (isOpen : s.IsOpen relation config) (compiled : s.compile q = .ok c)
    (readable : s.database.readable? relation.table = some t) (keyed : t.IsKeyed relation)
    (visible : c.statement.partNames.any (Identifier.sameName relation.table) = false)
    (compiles : s.compiler.Compiles q c order ancestors key) (limit : c.maxDepth < Config.depthBound)
    (fits : ∀ r as, (q.forest keyed).Lineage r as → as.length < c.maxDepth ∧
      s.compiler.HasRoom c order ancestors r ∧
      ∃ parent, Layout.decodeParent relation.keyType (r.value relation.parent) = .ok parent) :
    ∃ rows, s.query q = .ok rows := by
  have runnable := isRunnable isOpen
  have same : (q.forest keyed).relation = s.compiler.relation := isOpen.describes.symm
  have traverses : c.statement.CanTraverse (q.forest keyed) := by
    intro r as lineage
    obtain ⟨shallow, room, -⟩ := fits r as lineage
    exact ⟨shallow, Compiler.canWrite compiles runnable same lineage.mem room⟩
  have each : ∀ e ∈ c.statement.ordered (q.forest keyed), ∃ row, ∃ raw,
      c.statement.rawRow? (c.statement.nodeAt (q.forest keyed).rows e.1 e.2) = some raw ∧ c.decode raw = .ok row := by
    intro e member
    have lineage := (Statement.mem_ordered_iff traverses).mp member
    obtain ⟨shallow, -, parent⟩ := fits e.1 e.2 lineage
    have room : ∀ p ∈ Forest.pathTo e.1 e.2, s.compiler.HasRoom c order ancestors p := by
      intro p onPath
      obtain ⟨bs, above⟩ := lineage.exists_of_mem_pathTo onPath
      exact (fits p bs above).2.1
    obtain ⟨raw, row, columns, decoded⟩ := Compiler.exists_decode compiles runnable same lineage shallow limit room parent
    exact ⟨row, raw, columns, decoded⟩
  obtain ⟨rows, delivered⟩ := Outcome.exists_forall₂ each
  exact ⟨rows, (query_eq_ok_iff isOpen compiled readable keyed visible).mpr ⟨traverses, delivered⟩⟩

/-- The rows of an answer show each row with a lineage once, and nothing else. -/
theorem whole_of_query (isOpen : s.IsOpen relation config) (compiled : s.compile q = .ok c)
    (readable : s.database.readable? relation.table = some t) (keyed : t.IsKeyed relation)
    (visible : c.statement.partNames.any (Identifier.sameName relation.table) = false)
    (answered : s.query q = .ok rows) : ∃ cs, (cs.map Prod.fst).Nodup ∧
      (∀ r as, (r, as) ∈ cs ↔ (q.forest keyed).Lineage r as) ∧
      List.Forall₂ (fun e row => (q.forest keyed).Shows row e) cs rows := by
  obtain ⟨traverses, shown⟩ := shows_of_query isOpen compiled readable keyed visible answered
  exact ⟨_, c.statement.nodup_ordered (q.forest keyed), fun r as => Statement.mem_ordered_iff traverses, shown⟩

/-- Nodes that refer to something else. -/
def sampleRelation : Relation := ⟨"nodes", "id", .integer, "parent_id", [⟨"ref", .uuid⟩]⟩

def sampleTable (rows : List Row) : Table where
  name := "nodes"
  declaration := ""
  columns := [⟨"id", .integer⟩, ⟨"parent_id", .integer⟩, ⟨"ref", .text⟩]
  key := some ⟨"id", .integer⟩
  rows := rows

def sampleStore (rows : List Row) : Store :=
  ⟨⟨sampleRelation, { Config.default with windowFunctions := some true }, false⟩, ⟨[.table (sampleTable rows)]⟩⟩

/-- Siblings by what they refer to. -/
def sampleRequest : Request := { Request.empty with ordering := [⟨"ref", .ascending⟩] }

/-- A root and its child. -/
def sampleRows : List Row :=
  [⟨1, [.integer 1, .null, .null]⟩, ⟨2, [.integer 2, .integer 1, .text "0a1b2c3d-0A1B-0a1b-0a1b-0a1b2c3d4e5f"]⟩]

/-- A root whose reference is no identifier. -/
def strayRows : List Row := [⟨1, [.integer 1, .null, .text "zzzzzzzz-zzzz-zzzz-zzzz-zzzzzzzzzzzz"]⟩]

theorem sampleStore_opened (rows : List Row) :
    Store.new sampleRelation .default = .ok ⟨(sampleStore rows).compiler, .empty⟩ :=
  show Store.new sampleRelation .default = .ok ⟨(sampleStore []).compiler, .empty⟩ by decide

theorem sampleStore_readable (rows : List Row) :
    (sampleStore rows).database.readable? sampleRelation.table = some (sampleTable rows) :=
  Database.readable?_cons_self _ _

theorem sampleRows_isKeyed : (sampleTable sampleRows).IsKeyed sampleRelation where
  columns := by decide_cbv
  identified := by
    intro r member
    rcases List.mem_pair.mp member with rfl | rfl
    · exact ⟨.int 1, rfl, by decide_cbv⟩
    · exact ⟨.int 2, rfl, by decide_cbv⟩
  distinct := by decide_cbv

/-- The rows of the sample: a root, and a row below it. -/
def sampleRoot : Record := (sampleTable sampleRows).record ⟨1, [.integer 1, .null, .null]⟩

def sampleChild : Record :=
  (sampleTable sampleRows).record ⟨2, [.integer 2, .integer 1, .text "0a1b2c3d-0A1B-0a1b-0a1b-0a1b2c3d4e5f"]⟩

theorem sampleRows_lineage (keyed : (sampleTable sampleRows).IsKeyed sampleRelation) {r : Record} {as : List Record} :
    (sampleRequest.forest keyed).Lineage r as ↔ r = sampleRoot ∧ as = [] ∨ r = sampleChild ∧ as = [sampleRoot] := by
  have rows : (sampleRequest.forest keyed).rows = [sampleRoot, sampleChild] := rfl
  have top : (sampleRequest.forest keyed).parent? sampleRoot = none := by
    rw [Forest.parent?, rows]
    change [sampleRoot, sampleChild].find? (fun p => Value.same (p.value "id") (sampleRoot.value "parent_id")) = none
    decide_cbv
  have below : (sampleRequest.forest keyed).parent? sampleChild = some sampleRoot := by
    rw [Forest.parent?, rows]
    change [sampleRoot, sampleChild].find? (fun p => Value.same (p.value "id") (sampleChild.value "parent_id"))
      = some sampleRoot
    decide_cbv
  exact Forest.lineage_iff_of_pair rows top below

theorem strayRows_isKeyed : (sampleTable strayRows).IsKeyed sampleRelation where
  columns := by decide_cbv
  identified := by
    intro r member
    rcases List.mem_singleton.mp member with rfl
    exact ⟨.int 1, rfl, by decide_cbv⟩
  distinct := by decide

end ForestQuery.Store
