import ForestQuery.Proofs.Relation
/-!
Indexes of several relations in one database. Main statement: two relations have one index name not only where they
have one table and one parent, but also where an underscore of the table of one is taken for the one in front of its
parent; then no more than one of them gets its index, and nothing tells of it.
-/

namespace ForestQuery

open Identifier

/-- Two texts with a mark in each are the same where they are cut in one place, or where the mark of one of them is
another one of the other. -/
theorem append_cons_eq_append_cons_iff {α : Type} {mark : α} {a b c d : List α} :
    a ++ mark :: b = c ++ mark :: d ↔
      (a = c ∧ b = d) ∨ (∃ between, c = a ++ mark :: between ∧ b = between ++ mark :: d) ∨
      ∃ between, a = c ++ mark :: between ∧ d = between ++ mark :: b := by
  constructor
  · intro same
    rcases List.append_eq_append_iff.mp same with ⟨rest, rfl, tail⟩ | ⟨rest, rfl, tail⟩
    · cases rest with
      | nil => exact Or.inl ⟨(List.append_nil a).symm, List.tail_eq_of_cons_eq tail⟩
      | cons x between =>
        rw [List.cons_append, List.cons_eq_cons] at tail
        obtain ⟨rfl, tail⟩ := tail
        exact Or.inr (Or.inl ⟨between, rfl, tail⟩)
    · cases rest with
      | nil => exact Or.inl ⟨List.append_nil c, (List.tail_eq_of_cons_eq tail).symm⟩
      | cons x between =>
        rw [List.cons_append, List.cons_eq_cons] at tail
        obtain ⟨rfl, tail⟩ := tail
        exact Or.inr (Or.inr ⟨between, rfl, tail⟩)
  · rintro (⟨rfl, rfl⟩ | ⟨between, rfl, rfl⟩ | ⟨between, rfl, rfl⟩) <;> simp

namespace Identifier

variable {a b : String}

theorem sameName_iff : sameName a b = true ↔ lower a = lower b := beq_iff_eq

theorem sameName_comm (a b : String) : sameName a b = sameName b a := Bool.beq_comm

theorem lower_join (parts : List String) : lower (String.join parts) = String.join (parts.map lower) := by
  rw [lower_eq_iff, String.toList_join, String.toList_join, List.map_flatMap, List.flatMap_map]
  simp only [toList_lower]

theorem length_lower (a : String) : (lower a).length = a.length := String.length_map

end Identifier

namespace Relation

variable {r s : Relation}

theorem indexName_eq (r : Relation) : r.indexName = "idx_" ++ r.table ++ "_" ++ r.parent := by
  simp [indexName, String.join]

/-- Whether the index names of two relations are the same although the table of one goes on behind that of the other:
what it goes on with, between underscores, begins the parent of the other. -/
def Overlaps (r s : Relation) : Prop :=
  ∃ shared, s.table = r.table ++ "_" ++ shared ∧ r.parent = shared ++ "_" ++ s.parent

/-- The relation with the names that make up its index name in lower case. -/
def lowered (r : Relation) : Relation := { r with table := lower r.table, parent := lower r.parent }

theorem Overlaps.table_ne (overlaps : r.Overlaps s) : r.table ≠ s.table := by
  obtain ⟨shared, table, -⟩ := overlaps
  intro same
  have length := congrArg String.length (same.trans table)
  simp only [String.length_append] at length
  have underscore : "_".length = 1 := rfl
  omega

theorem overlaps_iff : r.Overlaps s ↔ ∃ between, s.table.toList = r.table.toList ++ '_' :: between ∧
    r.parent.toList = between ++ '_' :: s.parent.toList := by
  constructor
  · rintro ⟨shared, table, parent⟩
    exact ⟨shared.toList, by simp [table], by simp [parent]⟩
  · rintro ⟨between, table, parent⟩
    refine ⟨String.ofList between, String.toList_inj.mp ?_, String.toList_inj.mp ?_⟩
    · simp [table]
    · simp [parent]

theorem indexName_eq_iff : r.indexName = s.indexName ↔
    (r.table = s.table ∧ r.parent = s.parent) ∨ r.Overlaps s ∨ s.Overlaps r := by
  have chars (r : Relation) : r.indexName.toList = "idx_".toList ++ (r.table.toList ++ '_' :: r.parent.toList) := by
    simp [indexName_eq]
  rw [← String.toList_inj, chars, chars, List.append_cancel_left_eq, append_cons_eq_append_cons_iff, overlaps_iff,
    overlaps_iff, String.toList_inj, String.toList_inj]

theorem lower_indexName (r : Relation) : lower r.indexName = r.lowered.indexName := by
  have fixed : lower "idx_" = "idx_" ∧ lower "_" = "_" := by
    simp only [lower_eq_iff]
    decide
  rw [indexName, lower_join]
  simp only [List.map_cons, List.map_nil, fixed]
  rfl

theorem lower_quoted (name : String) : lower (quoted name) = quoted (lower name) := by
  have mark : lower "\"" = "\"" := lower_eq_iff.mpr (by decide)
  have spelled (name : String) : quoted name = String.join ["\"", name, "\""] := rfl
  rw [spelled, spelled, lower_join]
  simp only [List.map_cons, List.map_nil, mark]

/-- The case of the letters of an index declaration is that of its table and parent. -/
theorem sameName_indexText (table : sameName r.table s.table = true) (parent : sameName r.parent s.parent = true) :
    sameName r.indexText s.indexText = true := by
  have name : lower r.indexName = lower s.indexName := by
    rw [lower_indexName, lower_indexName, indexName_eq_iff]
    exact Or.inl ⟨sameName_iff.mp table, sameName_iff.mp parent⟩
  rw [sameName_iff, indexText, indexText, lower_join, lower_join]
  simp only [List.map_cons, List.map_nil, lower_quoted, name, sameName_iff.mp table, sameName_iff.mp parent]

/-- The same for a store, which does not tell the cases of a letter apart. -/
theorem sameName_indexName_iff : sameName r.indexName s.indexName = true ↔
    (sameName r.table s.table = true ∧ sameName r.parent s.parent = true) ∨ r.lowered.Overlaps s.lowered ∨
      s.lowered.Overlaps r.lowered := by
  rw [sameName_iff, sameName_iff, sameName_iff, lower_indexName, lower_indexName, indexName_eq_iff]
  rfl

/-- An index never has the name of its own table. -/
theorem sameName_indexName_table (r : Relation) : sameName r.indexName r.table = false := by
  rw [← Bool.not_eq_true, sameName_iff]
  intro same
  have length := congrArg String.length same
  rw [length_lower, length_lower, indexName_eq] at length
  simp only [String.length_append] at length
  have front : "idx_".length = 4 := rfl
  omega

end Relation

/-- Whether an index is the one on the table and the parent column of a relation, in any case of letters. -/
structure Index.IsOf (i : Index) (r : Relation) : Prop where
  table : sameName i.table r.table = true
  declaration : sameName i.declaration r.indexText = true

theorem Index.IsOf.of_sameName {i : Index} {r s : Relation} (own : i.IsOf r) (table : sameName r.table s.table = true)
    (parent : sameName r.parent s.parent = true) : i.IsOf s where
  table := sameName_iff.mpr ((sameName_iff.mp own.table).trans (sameName_iff.mp table))
  declaration := sameName_iff.mpr
    ((sameName_iff.mp own.declaration).trans (sameName_iff.mp (Relation.sameName_indexText table parent)))

namespace Database

open DatabaseObject

variable {d d' : Database} {t : Table} {i : Index} {r s : Relation} {rs : List Relation} {name other : String}

theorem name_tableOf (r : Relation) : (tableOf r).name = r.table := rfl

theorem name_indexOf (r : Relation) : (indexOf r).name = r.indexName := rfl

theorem index?_congr (same : sameName name other = true) : d.index? name = d.index? other := by
  rw [index?, index?]
  simp only [sameName, sameName_iff.mp same]

theorem table?_congr (same : sameName name other = true) : d.table? name = d.table? other := by
  rw [table?, table?]
  simp only [sameName, sameName_iff.mp same]

theorem sameName_of_table? (found : d.table? name = some t) : sameName t.name name = true := by
  rw [table?] at found
  exact List.find?_some (p := fun t : Table => sameName t.name name) found

theorem table?_append_table :
    (Database.mk (d.objects ++ [.table t])).table? name
      = (d.table? name).or ([t].find? fun t => sameName t.name name) := by
  rw [table?, table?, List.filterMap_append, List.find?_append]
  rfl

theorem index?_append_table : (Database.mk (d.objects ++ [.table t])).index? name = d.index? name := by
  rw [index?, index?, List.filterMap_append, List.find?_append]
  exact Option.or_none

theorem table?_append_index : (Database.mk (d.objects ++ [.index i])).table? name = d.table? name := by
  rw [table?, table?, List.filterMap_append, List.find?_append]
  exact Option.or_none

theorem index?_append_index :
    (Database.mk (d.objects ++ [.index i])).index? name
      = (d.index? name).or ([i].find? fun i => sameName i.name name) := by
  rw [index?, index?, List.filterMap_append, List.find?_append]
  rfl

theorem create_eq_ok_iff : d.create t = .ok d' ↔
    ¬ ownBeginning.toList <+: (lower t.name).toList ∧
      ((d.table? t.name).isSome ∧ d' = d ∨
        d.table? t.name = none ∧ d.index? t.name = none ∧ (t.columns.map fun c => lower c.name).Nodup ∧
          d' = ⟨d.objects ++ [.table t]⟩) := by
  rw [create, ← length_eraseDups_eq_iff, ← List.isPrefixOf_iff_prefix]
  split
  · rename_i own
    simp [own]
  · rename_i free
    rw [and_iff_right free]
    split
    · rename_i present
      simp [Option.isSome_iff_ne_none.mp present, present, eq_comm]
    · rename_i absent
      rw [Bool.not_eq_true, Option.isSome_eq_false_iff, Option.isNone_iff_eq_none] at absent
      split
      · rename_i taken
        simp [absent, Option.isSome_iff_ne_none.mp taken]
      · rename_i unused
        rw [Bool.not_eq_true, Option.isSome_eq_false_iff, Option.isNone_iff_eq_none] at unused
        split
        · rename_i shorter
          simp only [reduceCtorEq, absent, Option.isSome_none, Bool.false_eq_true, false_and, true_and, false_or,
            false_iff, not_and]
          exact fun _ whole => absurd whole shorter
        · rename_i whole
          simp [absent, unused, Decidable.not_not.mp whole, eq_comm]

theorem createIndex_eq_ok_iff : d.createIndex i = .ok d' ↔
    ∃ t, d.table? i.table = some t ∧ d.table? i.name = none ∧
      ((d.index? i.name).isSome ∧ d' = d ∨
        d.index? i.name = none ∧ d' = ⟨d.objects ++ [.index { i with table := t.name }]⟩) := by
  rw [createIndex]
  split
  · rename_i none
    simp [none]
  · rename_i t found
    simp only [found, Option.some.injEq, exists_eq_left']
    split
    · rename_i taken
      simp [Option.isSome_iff_ne_none.mp taken]
    · rename_i free
      rw [Bool.not_eq_true, Option.isSome_eq_false_iff, Option.isNone_iff_eq_none] at free
      rw [and_iff_right free]
      split
      · rename_i present
        simp [present, Option.isSome_iff_ne_none.mp present, eq_comm]
      · rename_i absent
        rw [Bool.not_eq_true, Option.isSome_eq_false_iff, Option.isNone_iff_eq_none] at absent
        simp [absent, eq_comm]

theorem index?_of_create (made : d.create t = .ok d') : d'.index? name = d.index? name := by
  obtain ⟨-, ⟨-, rfl⟩ | ⟨-, -, -, rfl⟩⟩ := create_eq_ok_iff.1 made
  · rfl
  · exact index?_append_table

theorem table?_of_createIndex (made : d.createIndex i = .ok d') : d'.table? name = d.table? name := by
  obtain ⟨t, -, -, ⟨-, rfl⟩ | ⟨-, rfl⟩⟩ := createIndex_eq_ok_iff.1 made
  · rfl
  · exact table?_append_index

theorem createTree_eq_ok_iff : d.createTree r = (d', .ok ()) ↔
    ∃ between, d.create (tableOf r) = .ok between ∧ between.createIndex (indexOf r) = .ok d' := by
  rw [createTree]
  cases d.create (tableOf r) with
  | error e => simp
  | ok between =>
    cases added : between.createIndex (indexOf r) with
    | error e => simp [added]
    | ok after => simp [added]

/-- What there is before stays as it is. -/
theorem index?_createTree_of_some (created : d.createTree r = (d', .ok ())) (found : d.index? name = some i) :
    d'.index? name = some i := by
  obtain ⟨between, tableMade, indexMade⟩ := createTree_eq_ok_iff.1 created
  have kept : between.index? name = some i := (index?_of_create tableMade).trans found
  obtain ⟨t, -, -, ⟨-, rfl⟩ | ⟨-, rfl⟩⟩ := createIndex_eq_ok_iff.1 indexMade
  · exact kept
  · rw [index?_append_index, kept, Option.some_or]

/-- An index that is missing is added on its own table, and no other one is. -/
theorem index?_createTree_of_none (created : d.createTree r = (d', .ok ())) (missing : d.index? name = none) :
    (sameName r.indexName name = true → ∃ i, d'.index? name = some i ∧ i.IsOf r) ∧
    (sameName r.indexName name = false → d'.index? name = none) := by
  obtain ⟨between, tableMade, indexMade⟩ := createTree_eq_ok_iff.1 created
  have missing' : between.index? name = none := (index?_of_create tableMade).trans missing
  obtain ⟨t, onTable, -, ⟨present, rfl⟩ | ⟨-, rfl⟩⟩ := createIndex_eq_ok_iff.1 indexMade
  · refine ⟨fun same => ?_, fun _ => missing'⟩
    rw [name_indexOf, index?_congr same, missing'] at present
    cases present
  · refine ⟨fun same => ⟨{ indexOf r with table := t.name }, ?_, sameName_of_table? onTable, sameName_iff.mpr rfl⟩,
      fun other => ?_⟩
    · rw [index?_append_index, missing', Option.none_or]
      exact List.find?_cons_of_pos same
    · rw [index?_append_index, missing', Option.none_or]
      simp only [List.find?_cons, name_indexOf, other, List.find?_nil]

theorem index?_createTree_eq_none_iff (created : d.createTree r = (d', .ok ())) :
    d'.index? name = none ↔ d.index? name = none ∧ sameName r.indexName name = false := by
  cases before : d.index? name with
  | some i => simp [index?_createTree_of_some created before]
  | none =>
    obtain ⟨added, others⟩ := index?_createTree_of_none created before
    cases same : sameName r.indexName name with
    | true =>
      obtain ⟨i, found, -⟩ := added same
      simp [found]
    | false => simp [others same]

theorem table?_createTree_eq_none_iff (created : d.createTree r = (d', .ok ())) :
    d'.table? name = none ↔ d.table? name = none ∧ sameName r.table name = false := by
  obtain ⟨between, tableMade, indexMade⟩ := createTree_eq_ok_iff.1 created
  rw [table?_of_createIndex indexMade]
  obtain ⟨-, ⟨present, rfl⟩ | ⟨-, -, -, rfl⟩⟩ := create_eq_ok_iff.1 tableMade
  · -- The table was there, so nothing is missing that has its name.
    refine ⟨fun missing => ⟨missing, ?_⟩, And.left⟩
    rw [Bool.eq_false_iff]
    intro same
    rw [name_tableOf, table?_congr same, missing] at present
    cases present
  · rw [table?_append_table, Option.or_eq_none_iff, List.find?_eq_none]
    simp [tableOf]

/-- Adds the tables of relations, each with the index on its parent column, one after the other. -/
def createAll (d : Database) : List Relation → Except Error Database
  | [] => .ok d
  | r :: rs =>
    match d.createTree r with
    | (d, .ok ()) => createAll d rs
    | (_, .error e) => .error e

theorem createAll_cons_eq_ok_iff : d.createAll (r :: rs) = .ok d' ↔
    ∃ between, d.createTree r = (between, .ok ()) ∧ between.createAll rs = .ok d' := by
  rw [createAll]
  rcases d.createTree r with ⟨between, outcome | ⟨⟩⟩ <;> simp

theorem index?_createAll_of_some (created : d.createAll rs = .ok d') (found : d.index? name = some i) :
    d'.index? name = some i := by
  induction rs generalizing d with
  | nil =>
    cases created
    exact found
  | cons r rs ih =>
    obtain ⟨between, first, rest⟩ := createAll_cons_eq_ok_iff.1 created
    exact ih rest (index?_createTree_of_some first found)

theorem table?_createAll_eq_none_iff (created : d.createAll rs = .ok d') :
    d'.table? name = none ↔ d.table? name = none ∧ ∀ r ∈ rs, sameName r.table name = false := by
  induction rs generalizing d with
  | nil =>
    cases created
    simp
  | cons r rs ih =>
    obtain ⟨between, first, rest⟩ := createAll_cons_eq_ok_iff.1 created
    rw [ih rest, table?_createTree_eq_none_iff first, and_assoc, List.forall_mem_cons]

/-- Every table is there in the end. -/
theorem isSome_table?_createAll (created : d.createAll rs = .ok d') (member : r ∈ rs) : (d'.table? r.table).isSome := by
  rw [Option.isSome_iff_ne_none]
  intro missing
  have other := ((table?_createAll_eq_none_iff created).mp missing).2 r member
  rw [sameName_iff.mpr rfl] at other
  cases other

/-- Of several relations with one index name, the first one gets its index. -/
theorem index?_createAll_of_none (created : d.createAll rs = .ok d') (missing : d.index? name = none)
    (first : (rs.find? fun r => sameName r.indexName name) = some r) : ∃ i, d'.index? name = some i ∧ i.IsOf r := by
  induction rs generalizing d with
  | nil => cases first
  | cons s rs ih =>
    obtain ⟨between, made, rest⟩ := createAll_cons_eq_ok_iff.1 created
    obtain ⟨added, others⟩ := index?_createTree_of_none made missing
    cases same : sameName s.indexName name with
    | true =>
      obtain ⟨i, found, own⟩ := added same
      rw [List.find?_cons, same, Option.some.injEq] at first
      exact ⟨i, index?_createAll_of_some rest found, first ▸ own⟩
    | false =>
      rw [List.find?_cons, same] at first
      exact ih rest (others same) first

/-- A relation whose table is missing is created exactly when the store and the table do not refuse it, and neither its
table nor its index has a name that is taken by one of the other kind. -/
theorem exists_createTree_iff (missing : d.table? r.table = none) : (∃ d', d.createTree r = (d', .ok ())) ↔
    (∃ d', empty.create (tableOf r) = .ok d') ∧ d.index? r.table = none ∧ d.table? r.indexName = none := by
  have names : (tableOf r).columns.map (fun c => lower c.name) = r.columns.map fun f => lower f.name := by
    rw [tableOf, List.map_map]
    rfl
  simp only [createTree_eq_ok_iff, Relation.exists_create_iff, ← names]
  constructor
  · rintro ⟨d', between, tableMade, indexMade⟩
    obtain ⟨free, ⟨present, -⟩ | ⟨-, unused, distinct, rfl⟩⟩ := create_eq_ok_iff.1 tableMade
    · rw [name_tableOf, missing] at present
      cases present
    · obtain ⟨t, -, untaken, -⟩ := createIndex_eq_ok_iff.1 indexMade
      rw [table?_append_table, Option.or_eq_none_iff] at untaken
      exact ⟨⟨free, distinct⟩, unused, untaken.1⟩
  · rintro ⟨⟨free, distinct⟩, unused, untaken⟩
    have tableMade := create_eq_ok_iff.2 ⟨free, Or.inr ⟨missing, unused, distinct, rfl⟩⟩
    have onTable : (Database.mk (d.objects ++ [.table (tableOf r)])).table? r.table = some (tableOf r) := by
      rw [table?_append_table, missing, Option.none_or]
      exact List.find?_cons_of_pos (sameName_iff.mpr rfl)
    have untaken' : (Database.mk (d.objects ++ [.table (tableOf r)])).table? r.indexName = none := by
      rw [table?_append_table, untaken, Option.none_or, List.find?_eq_none]
      simp only [List.mem_singleton, forall_eq, Bool.not_eq_true]
      rw [name_tableOf, sameName_comm]
      exact r.sameName_indexName_table
    cases taken : (Database.mk (d.objects ++ [.table (tableOf r)])).index? r.indexName with
    | some i =>
      have present : ((Database.mk (d.objects ++ [.table (tableOf r)])).index? (indexOf r).name).isSome := by
        rw [name_indexOf, taken, Option.isSome_some]
      exact ⟨_, _, tableMade, createIndex_eq_ok_iff.2 ⟨_, onTable, untaken', Or.inl ⟨present, rfl⟩⟩⟩
    | none => exact ⟨_, _, tableMade, createIndex_eq_ok_iff.2 ⟨_, onTable, untaken', Or.inr ⟨taken, rfl⟩⟩⟩

/-- Relations with different tables, none of which is there, are all created exactly when each one could be created
alone and no index has the name of the table of another one. Whether two indexes have one name plays no part. -/
theorem exists_createAll_iff (apart : rs.Pairwise fun r s => sameName r.table s.table = false)
    (missing : ∀ r ∈ rs, d.table? r.table = none) : (∃ d', d.createAll rs = .ok d') ↔
      (∀ r ∈ rs, ∃ d', d.createTree r = (d', .ok ())) ∧
      rs.Pairwise fun r s => sameName r.indexName s.table = false ∧ sameName r.table s.indexName = false := by
  induction rs generalizing d with
  | nil => simp [createAll]
  | cons r rs ih =>
    rw [List.pairwise_cons] at apart
    rw [List.forall_mem_cons] at missing
    simp only [createAll_cons_eq_ok_iff, List.forall_mem_cons, List.pairwise_cons]
    -- What one relation adds is in the way of a later one exactly when a table and an index have one name.
    have later {between : Database} (created : d.createTree r = (between, .ok ())) :
        (∃ d', between.createAll rs = .ok d') ↔
          ((∀ s ∈ rs, ∃ d', d.createTree s = (d', .ok ())) ∧
            ∀ s ∈ rs, sameName r.indexName s.table = false ∧ sameName r.table s.indexName = false) ∧
          rs.Pairwise fun r s => sameName r.indexName s.table = false ∧ sameName r.table s.indexName = false := by
      have missing' : ∀ s ∈ rs, between.table? s.table = none := fun s member =>
        (table?_createTree_eq_none_iff created).mpr ⟨missing.2 s member, apart.1 s member⟩
      rw [ih apart.2 missing', ← forall₂_and]
      refine and_congr_left fun _ => forall₂_congr fun s member => ?_
      rw [exists_createTree_iff (missing' s member), exists_createTree_iff (missing.2 s member),
        index?_createTree_eq_none_iff created, table?_createTree_eq_none_iff created]
      tauto
    constructor
    · rintro ⟨d', between, created, rest⟩
      obtain ⟨⟨each, clear⟩, others⟩ := (later created).mp ⟨d', rest⟩
      exact ⟨⟨⟨between, created⟩, each⟩, clear, others⟩
    · rintro ⟨⟨⟨between, created⟩, each⟩, clear, others⟩
      obtain ⟨d', rest⟩ := (later created).mpr ⟨⟨each, clear⟩, others⟩
      exact ⟨d', between, created, rest⟩

/-- Whether the index on the parent column of a relation is there under its name. -/
def Indexes (d : Database) (r : Relation) : Prop := ∃ i, d.index? r.indexName = some i ∧ i.IsOf r

/-- Of two relations that overlap, one at most has its index. -/
theorem Indexes.not_overlaps (first : d.Indexes r) (second : d.Indexes s) : ¬ r.lowered.Overlaps s.lowered := by
  intro overlaps
  have same : sameName r.indexName s.indexName = true := Relation.sameName_indexName_iff.2 (Or.inr (Or.inl overlaps))
  obtain ⟨i, found, own⟩ := first
  obtain ⟨j, found', own'⟩ := second
  rw [index?_congr same, found', Option.some.injEq] at found
  subst found
  exact overlaps.table_ne ((sameName_iff.mp own.table).symm.trans (sameName_iff.mp own'.table))

/-- Each of several relations gets its index exactly when no two of them overlap. -/
theorem forall_indexes_iff (created : d.createAll rs = .ok d') (missing : ∀ r ∈ rs, d.index? r.indexName = none) :
    (∀ r ∈ rs, d'.Indexes r) ↔ ∀ r ∈ rs, ∀ s ∈ rs, ¬ r.lowered.Overlaps s.lowered := by
  constructor
  · intro all r first s second
    exact (all r first).not_overlaps (all s second)
  · intro apart r member
    obtain ⟨s, first⟩ : ∃ s, (rs.find? fun s => sameName s.indexName r.indexName) = some s :=
      Option.isSome_iff_exists.mp (List.find?_isSome.mpr ⟨r, member, sameName_iff.mpr rfl⟩)
    obtain ⟨i, found, own⟩ := index?_createAll_of_none created (missing r member) first
    -- Without overlaps the first relation of this index name has the same table and parent.
    have member' : s ∈ rs := List.mem_of_find?_eq_some first
    have same : sameName s.indexName r.indexName = true :=
      List.find?_some (p := fun s : Relation => sameName s.indexName r.indexName) first
    rcases Relation.sameName_indexName_iff.1 same with ⟨table, parent⟩ | overlaps | overlaps
    · exact ⟨i, found, own.of_sameName table parent⟩
    · exact absurd overlaps (apart s member' r member)
    · exact absurd overlaps (apart r member s member')

/-- Two relations have one index name exactly when they have one table and one parent, or overlap; for a store, the same
in any case of letters. Relations with different tables are all created whenever each one could be created alone and no
index has the name of the table of another one, whatever their index names. Of those with one index name the first one
gets its index, so that each relation gets its own exactly when no two of them overlap. -/
theorem parent_indexes (rs : List Relation) :
    (∀ r s : Relation, r.indexName = s.indexName ↔
      (r.table = s.table ∧ r.parent = s.parent) ∨ r.Overlaps s ∨ s.Overlaps r) ∧
    (∀ r s : Relation, sameName r.indexName s.indexName = true ↔
      (sameName r.table s.table = true ∧ sameName r.parent s.parent = true) ∨ r.lowered.Overlaps s.lowered ∨
        s.lowered.Overlaps r.lowered) ∧
    (∀ d : Database, (rs.Pairwise fun r s => sameName r.table s.table = false) →
      (∀ r ∈ rs, d.table? r.table = none) → ((∃ d', d.createAll rs = .ok d') ↔
        (∀ r ∈ rs, ∃ d', d.createTree r = (d', .ok ())) ∧
        rs.Pairwise fun r s => sameName r.indexName s.table = false ∧ sameName r.table s.indexName = false)) ∧
    ∀ d d' : Database, d.createAll rs = .ok d' → (∀ r ∈ rs, d.index? r.indexName = none) →
      (∀ r ∈ rs, (d'.table? r.table).isSome) ∧
      (∀ r ∈ rs, ∀ s, (rs.find? fun s => sameName s.indexName r.indexName) = some s →
        ∃ i, d'.index? r.indexName = some i ∧ i.IsOf s) ∧
      ((∀ r ∈ rs, d'.Indexes r) ↔ ∀ r ∈ rs, ∀ s ∈ rs, ¬ r.lowered.Overlaps s.lowered) :=
  ⟨fun _ _ => Relation.indexName_eq_iff, fun _ _ => Relation.sameName_indexName_iff,
    fun _ apart missing => exists_createAll_iff apart missing,
    fun _ _ created missing =>
      ⟨fun _ member => isSome_table?_createAll created member,
        fun r member _ first => index?_createAll_of_none created (missing r member) first,
        forall_indexes_iff created missing⟩⟩

theorem parent_indexes_two : ∃ r s d, Relation.build "nodes" "id" .integer [] = .ok r ∧
    Relation.build "items" "id" .uuid [.parent "Owner"] = .ok s ∧ Database.empty.createAll [r, s] = .ok d ∧
    d.Indexes r ∧ d.Indexes s := by
  let r : Relation := ⟨"nodes", "id", .integer, "parent_id", []⟩
  let s : Relation := ⟨"items", "id", .uuid, "Owner", []⟩
  have built : Relation.build "nodes" "id" .integer [] = .ok r ∧
      Relation.build "items" "id" .uuid [.parent "Owner"] = .ok s := by decide +kernel
  have alone : (empty.createTree r).2 = .ok () ∧ (empty.createTree s).2 = .ok () := by decide +kernel
  have apart : sameName r.table s.table = false ∧ sameName r.indexName s.table = false ∧
      sameName r.table s.indexName = false := by decide +kernel
  have names : r.lowered.indexName ≠ s.lowered.indexName := by decide +kernel
  obtain ⟨-, -, creates, indexes⟩ := parent_indexes [r, s]
  obtain ⟨d, created⟩ := (creates empty (by simp [apart]) (by simp [empty, table?])).mpr
    ⟨by simpa using ⟨⟨_, Prod.ext rfl alone.1⟩, _, Prod.ext rfl alone.2⟩, by simp [apart]⟩
  have clear : ∀ t ∈ [r, s], ∀ u ∈ [r, s], ¬ t.lowered.Overlaps u.lowered := by
    simp only [List.forall_mem_cons, List.not_mem_nil, false_implies, implies_true, and_true]
    refine ⟨⟨fun overlaps => overlaps.table_ne rfl, fun overlaps => names ?_⟩,
      fun overlaps => names ?_, fun overlaps => overlaps.table_ne rfl⟩
    · exact Relation.indexName_eq_iff.2 (Or.inr (Or.inl overlaps))
    · exact Relation.indexName_eq_iff.2 (Or.inr (Or.inr overlaps))
  have own := (indexes empty d created (by simp [empty, index?])).2.2.mpr clear
  exact ⟨r, s, d, built.1, built.2, created, own r (by simp), own s (by simp)⟩

/-- The tables `org` and `org_unit` are both created, the first with the parent `unit_parent_id` and the second with the
default one: their indexes have one name, and the second table has none. -/
theorem index_skipped : ∃ r s d, Relation.build "org" "id" .integer [.parent "unit_parent_id"] = .ok r ∧
    Relation.build "org_unit" "id" .integer [] = .ok s ∧ r.table ≠ s.table ∧ r.parent ≠ s.parent ∧
    r.indexName = s.indexName ∧ Database.empty.createAll [r, s] = .ok d ∧ (d.table? s.table).isSome ∧
    d.Indexes r ∧ ¬ d.Indexes s := by
  let r : Relation := ⟨"org", "id", .integer, "unit_parent_id", []⟩
  let s : Relation := ⟨"org_unit", "id", .integer, "parent_id", []⟩
  have built : Relation.build "org" "id" .integer [.parent "unit_parent_id"] = .ok r ∧
      Relation.build "org_unit" "id" .integer [] = .ok s := by decide +kernel
  have different : r.table ≠ s.table ∧ r.parent ≠ s.parent := by decide
  have lowered : r.lowered = r ∧ s.lowered = s := by decide +kernel
  have same : r.Overlaps s := ⟨"unit", by decide, by decide⟩
  have overlaps : r.lowered.Overlaps s.lowered := by rwa [lowered.1, lowered.2]
  have alone : (empty.createTree r).2 = .ok () ∧ (empty.createTree s).2 = .ok () := by decide +kernel
  have apart : sameName r.table s.table = false ∧ sameName r.indexName s.table = false ∧
      sameName r.table s.indexName = false := by decide +kernel
  obtain ⟨d, created⟩ : ∃ d, empty.createAll [r, s] = .ok d :=
    (exists_createAll_iff (by simp [apart]) (by simp [empty, table?])).mpr
      ⟨by simpa using ⟨⟨_, Prod.ext rfl alone.1⟩, _, Prod.ext rfl alone.2⟩, by simp [apart]⟩
  have own : d.Indexes r := index?_createAll_of_none created rfl (by rw [List.find?_cons, sameName_iff.mpr rfl])
  exact ⟨r, s, d, built.1, built.2, different.1, different.2,
    Relation.indexName_eq_iff.2 (Or.inr (Or.inl same)), created, isSome_table?_createAll created (by simp), own,
    fun other => own.not_overlaps other overlaps⟩

end Database

end ForestQuery
