import ForestQuery.Proofs.Delivered
import ForestQuery.Proofs.Navigation.Related
import ForestQuery.Proofs.Navigation.Walk
/-!
Counts that are rolled up along the paths. Main statement: where the rows of a traversal have identifiers of their
own, the cumulative count of a row is the sum of the counts of the row and of those below it, and the cumulative
counts of the roots add up to all counts.
-/

namespace ForestQuery

namespace TreeRow.AreClosed

variable {rows : List TreeRow} {r p : TreeRow} {node : NodeId}

/-- A path goes through rows that lie higher, and ends in its own row. -/
theorem mem_path (closed : AreClosed rows) (member : r ∈ rows) (onPath : node ∈ r.path) :
    node = r.id ∨ ∃ p ∈ rows, p.id = node ∧ p.depth < r.depth := by
  have each : ∀ depth, ∀ r ∈ rows, r.depth = depth → node ∈ r.path →
      node = r.id ∨ ∃ p ∈ rows, p.id = node ∧ p.depth < r.depth := by
    intro depth
    induction depth with
    | zero =>
      intro r member top onPath
      rcases closed r member with ⟨-, path⟩ | ⟨p, -, deeper, -⟩
      · rw [path] at onPath
        exact Or.inl (List.mem_singleton.mp onPath)
      · omega
    | succ depth ih =>
      intro r member same onPath
      rcases closed r member with ⟨top, -⟩ | ⟨p, found, deeper, path⟩
      · omega
      · rw [path, List.mem_append, List.mem_singleton] at onPath
        rcases onPath with above | here
        · rcases ih p found (by omega) above with rfl | ⟨p', found', id, higher⟩
          · exact Or.inr ⟨p, found, rfl, by omega⟩
          · exact Or.inr ⟨p', found', id, by omega⟩
        · exact Or.inl here
  exact each r.depth r member rfl onPath

theorem id_mem_path (closed : AreClosed rows) (member : r ∈ rows) : r.id ∈ r.path := by
  rcases closed r member with ⟨-, path⟩ | ⟨p, -, -, path⟩ <;> rw [path] <;> simp

variable (closed : AreClosed rows) (distinct : (rows.map TreeRow.id).Nodup)

include closed distinct

/-- No path goes through a node twice. -/
theorem nodup_path (member : r ∈ rows) : r.path.Nodup := by
  have each : ∀ depth, ∀ r ∈ rows, r.depth = depth → r.path.Nodup := by
    intro depth
    induction depth with
    | zero =>
      intro r member top
      rcases closed r member with ⟨-, path⟩ | ⟨p, -, deeper, -⟩
      · rw [path]
        exact List.nodup_singleton _
      · omega
    | succ depth ih =>
      intro r member same
      rcases closed r member with ⟨top, -⟩ | ⟨p, found, deeper, path⟩
      · omega
      · rw [path]
        refine (ih p found (by omega)).append (List.nodup_singleton _) fun node above here => ?_
        obtain rfl := List.mem_singleton.mp here
        rcases closed.mem_path found above with id | ⟨p', found', id, higher⟩
        · obtain rfl := List.inj_on_of_nodup_map distinct member found id
          omega
        · obtain rfl := List.inj_on_of_nodup_map distinct found' member id
          omega
  exact each r.depth r member rfl

/-- Of the roots, exactly one is on the path of a row. -/
theorem exists_root (member : r ∈ rows) :
    ∃ p ∈ rows, p.depth = 0 ∧ ∀ x ∈ rows, x.depth = 0 → (x.id ∈ r.path ↔ x.id = p.id) := by
  have each : ∀ depth, ∀ r ∈ rows, r.depth = depth →
      ∃ p ∈ rows, p.depth = 0 ∧ ∀ x ∈ rows, x.depth = 0 → (x.id ∈ r.path ↔ x.id = p.id) := by
    intro depth
    induction depth with
    | zero =>
      intro r member top
      rcases closed r member with ⟨-, path⟩ | ⟨p, -, deeper, -⟩
      · exact ⟨r, member, top, fun x _ _ => by rw [path, List.mem_singleton]⟩
      · omega
    | succ depth ih =>
      intro r member same
      rcases closed r member with ⟨top, -⟩ | ⟨p, found, deeper, path⟩
      · omega
      · obtain ⟨root, inRows, top, only⟩ := ih p found (by omega)
        refine ⟨root, inRows, top, fun x there high => ?_⟩
        rw [path, List.mem_append, List.mem_singleton, or_iff_left, only x there high]
        intro id
        obtain rfl := List.inj_on_of_nodup_map distinct there member id
        omega
  exact each r.depth r member rfl

end TreeRow.AreClosed

namespace Navigation

open TreeRow

variable {rows : List TreeRow} {r : TreeRow} {direct : Tally} {f : TreeRow → Nat}

theorem sumOf_filter (f : TreeRow → Nat) (p : TreeRow → Bool) (rows : List TreeRow) :
    sumOf f (rows.filter p) = sumOf (fun r => if p r then f r else 0) rows := by
  induction rows with
  | nil => rfl
  | cons r rows ih =>
    rw [sumOf_cons, ← ih]
    by_cases holds : p r = true
    · rw [List.filter_cons_of_pos holds, sumOf_cons, if_pos holds]
    · rw [List.filter_cons_of_neg holds, if_neg holds, Nat.zero_add]

theorem sumOf_add (f g : TreeRow → Nat) (rows : List TreeRow) :
    sumOf (fun r => f r + g r) rows = sumOf f rows + sumOf g rows := by
  induction rows with
  | nil => rfl
  | cons r rows ih =>
    rw [sumOf_cons, sumOf_cons, sumOf_cons, ih]
    omega

/-- Two sums may be taken in either order. -/
theorem sumOf_comm (g : TreeRow → TreeRow → Nat) (rows others : List TreeRow) :
    sumOf (fun r => sumOf (g r) others) rows = sumOf (fun x => sumOf (fun r => g r x) rows) others := by
  induction rows with
  | nil =>
    have none : ∀ xs, sumOf (fun _ => 0) xs = 0 := by
      intro xs
      induction xs with
      | nil => rfl
      | cons x xs ih => rw [sumOf_cons, ih]
    exact (none others).symm
  | cons r rows ih =>
    rw [sumOf_cons, ih, ← sumOf_add]
    rfl

/-- One row alone has a given identifier. -/
theorem filter_id (distinct : (rows.map TreeRow.id).Nodup) (member : r ∈ rows) :
    rows.filter (fun p => decide (p.id = r.id)) = [r] := by
  have found := filter_mem_ids distinct (List.singleton_sublist.mpr member)
  simpa using found

/-- The number that is rolled up to a row: its own, and those of the rows below it. -/
theorem rolledUp_eq (closed : AreClosed rows) (distinct : (rows.map TreeRow.id).Nodup) (member : r ∈ rows) :
    (totalsOf direct true rows).get r.id
      = direct.get r.id + sumOf (fun x => direct.get x.id) (descendantsIn r.id false rows) := by
  have own : direct.get r.id = sumOf (fun x => if decide (x.id = r.id) then direct.get x.id else 0) rows := by
    rw [← sumOf_filter, filter_id distinct member, sumOf_cons, sumOf_nil, Nat.add_zero]
  rw [get_totalsOf_cumulative, descendantsIn, sumOf_filter, own, ← sumOf_add]
  refine sumOf_congr fun x inside => ?_
  have once := closed.nodup_path distinct inside
  by_cases through : r.id ∈ x.path
  · rw [List.count_eq_one_of_mem once through, Nat.one_mul]
    by_cases here : x.id = r.id <;> simp [here, through]
  · have other : x.id ≠ r.id := fun same => through (same ▸ closed.id_mem_path inside)
    rw [List.count_eq_zero_of_not_mem through, Nat.zero_mul]
    simp [through, other]

/-- What is rolled up to the roots is everything. -/
theorem sumOf_roots (closed : AreClosed rows) (distinct : (rows.map TreeRow.id).Nodup) :
    sumOf (fun r => (totalsOf direct true rows).get r.id) (rows.filter fun r => r.depth = 0)
      = sumOf (fun r => direct.get r.id) rows := by
  simp only [get_totalsOf_cumulative]
  rw [sumOf_comm]
  refine sumOf_congr fun x inside => ?_
  obtain ⟨root, inRows, top, only⟩ := closed.exists_root distinct inside
  have once := closed.nodup_path distinct inside
  have counts : ∀ r ∈ rows.filter (fun r => decide (r.depth = 0)),
      x.path.count r.id * direct.get x.id = if decide (r.id = root.id) then direct.get x.id else 0 := by
    intro r member
    obtain ⟨there, high⟩ := List.mem_filter.mp member
    have onPath := only r there (of_decide_eq_true high)
    by_cases here : r.id = root.id
    · rw [List.count_eq_one_of_mem once (onPath.mpr here), Nat.one_mul, here]
      simp
    · rw [List.count_eq_zero_of_not_mem fun through => here (onPath.mp through), Nat.zero_mul]
      simp [here]
  have apart : ((rows.filter fun r => decide (r.depth = 0)).map TreeRow.id).Nodup :=
    distinct.sublist (List.filter_sublist.map _)
  rw [sumOf_congr counts, ← sumOf_filter,
    filter_id apart (List.mem_filter.mpr ⟨inRows, decide_eq_true top⟩), sumOf_cons, sumOf_nil, Nat.add_zero]

/-- The sum of counts. -/
def totalOf (cs : List RelatedCount) : Nat := cs.foldr (fun e n => e.count + n) 0

theorem totalOf_map (f : TreeRow → Nat) (rows : List TreeRow) : totalOf (rows.map fun r => ⟨r, f r⟩) = sumOf f rows := by
  induction rows with
  | nil => rfl
  | cons r rows ih =>
    rw [List.map_cons, sumOf_cons, ← ih]
    rfl

end Navigation

namespace Store

open Navigation

variable {s : Store} {relation : Relation} {config : Config} {q : Request} {table column : String}
  {cs ds : List RelatedCount}

theorem descendants_eq {rows : List TreeRow} (answered : s.query q = .ok rows) (node : NodeId) (withSelf : Bool) :
    s.descendants q node withSelf = .ok (descendantsIn node withSelf rows) := by
  rw [descendants, answered]
  rfl

/-- Cumulative counts are sums over what is below. Where the rows of a traversal have identifiers of their own, both
kinds of counts are for the same rows in the same order, the cumulative count of a row is its own count and those of
the rows that are its descendants, a root is a descendant of no row, and the cumulative counts of the roots add up to
all counts. -/
theorem counts_rolled_up (opened : Store.new relation config = .ok ⟨s.compiler, .empty⟩)
    (own : s.relatedCounts q table column false = .ok cs) (rolled : s.relatedCounts q table column true = .ok ds)
    (distinct : (cs.map fun e => e.row.id).Nodup) :
    ∃ rows, s.query q = .ok rows ∧ ∃ (count : TreeRow → Nat) (below : TreeRow → List TreeRow),
      cs = rows.map (fun r => ⟨r, count r⟩) ∧ (∀ r ∈ rows, s.descendants q r.id false = .ok (below r)) ∧
      ds = rows.map (fun r => ⟨r, count r + sumOf count (below r)⟩) ∧
      (∀ r ∈ rows, r.depth = 0 → ∀ x ∈ rows, r ∉ below x) ∧
      totalOf (ds.filter fun e => e.row.depth = 0) = totalOf cs := by
  obtain ⟨direct, rows, filed, answered, rfl⟩ := relatedCounts_eq_ok_iff.mp own
  obtain ⟨direct', rows', filed', answered', rfl⟩ := relatedCounts_eq_ok_iff.mp rolled
  cases filed.symm.trans filed'
  cases answered.symm.trans answered'
  rw [map_id_countsIn] at distinct
  have closed := areClosed_of_query (isOpen_of_new opened) answered
  have first : countsIn direct false rows = rows.map fun r => ⟨r, direct.get r.id⟩ := by
    refine List.map_congr_left fun r member => ?_
    rw [get_totalsOf_own (List.mem_map_of_mem member)]
  have second : countsIn direct true rows = rows.map fun r =>
      ⟨r, direct.get r.id + sumOf (fun x => direct.get x.id) (descendantsIn r.id false rows)⟩ := by
    refine List.map_congr_left fun r member => ?_
    rw [rolledUp_eq closed distinct member]
  refine ⟨rows, answered, fun r => direct.get r.id, fun r => descendantsIn r.id false rows, first,
    fun r _ => descendants_eq answered r.id false, second, fun r member top x inside below => ?_, ?_⟩
  · obtain ⟨-, through⟩ := List.mem_filter.mp below
    rcases closed r member with ⟨-, path⟩ | ⟨p, -, deeper, -⟩
    · rw [path] at through
      simp at through
      exact through.2 through.1.symm
    · omega
  · have roots : (countsIn direct true rows).filter (fun e => decide (e.row.depth = 0))
        = (rows.filter fun r => decide (r.depth = 0)).map fun r => ⟨r, (totalsOf direct true rows).get r.id⟩ := by
      rw [countsIn, List.filter_map]
      rfl
    rw [roots, totalOf_map, first, totalOf_map]
    exact sumOf_roots closed distinct

/-- One row refers to the root, and two to the row below it. -/
def countedStore : Store := referredStore sampleRows [.integer 1, .integer 2, .integer 2]

theorem counts_rolled_up_sample : ∃ cs ds, countedStore.relatedCounts .empty "items" "node_id" false = .ok cs ∧
    countedStore.relatedCounts .empty "items" "node_id" true = .ok ds ∧ cs.map RelatedCount.count = [1, 2] ∧
    totalOf (ds.filter fun e => e.row.depth = 0) = 3 := by
  obtain ⟨root, child, answered, id, id', -⟩ : ∃ root child, countedStore.query .empty = .ok [root, child] ∧
      root.id = .int 1 ∧ child.id = .int 2 ∧ root.path = [.int 1] ∧ child.path = [.int 1, .int 2] :=
    exists_pair_of_queryInPlace (by decide_cbv)
  have ids : [root, child].map TreeRow.id = [.int 1, .int 2] := by rw [List.map_cons, List.map_singleton, id, id']
  generalize [root, child] = rows at answered ids
  have known : countedStore.database.readable? "items" = some (itemsTable [.integer 1, .integer 2, .integer 2]) := by
    decide_cbv
  have counted : ∀ cumulative, countedStore.relatedCounts .empty "items" "node_id" cumulative
      = .ok (countsIn ⟨[(.int 1, 1), (.int 2, 2)]⟩ cumulative rows) := fun cumulative =>
    relatedCounts_of_sorted (by decide) (by decide) known (by decide_cbv) (by decide_cbv) answered
  have distinct : ((countsIn ⟨[(.int 1, 1), (.int 2, 2)]⟩ false rows).map fun e => e.row.id).Nodup := by
    rw [map_id_countsIn, ids]
    decide
  have counts : (countsIn ⟨[(.int 1, 1), (.int 2, 2)]⟩ false rows).map RelatedCount.count = [1, 2] := by
    have own : (countsIn ⟨[(.int 1, 1), (.int 2, 2)]⟩ false rows).map RelatedCount.count
        = (rows.map TreeRow.id).map (Tally.get ⟨[(.int 1, 1), (.int 2, 2)]⟩) := by
      rw [countsIn, List.map_map, List.map_map]
      exact List.map_congr_left fun r member => get_totalsOf_own (List.mem_map_of_mem member)
    rw [own, ids]
    decide
  have opened : Store.new sampleRelation .default = .ok ⟨countedStore.compiler, .empty⟩ := sampleStore_opened []
  obtain ⟨-, -, -, -, -, -, -, -, total⟩ := counts_rolled_up opened (counted false) (counted true) distinct
  refine ⟨_, _, counted false, counted true, counts, total.trans ?_⟩
  have sum : ∀ cs : List RelatedCount, totalOf cs = (cs.map RelatedCount.count).foldr (· + ·) 0 := by
    intro cs
    rw [List.foldr_map]
    rfl
  rw [sum, counts]
  rfl

/-- A root and a row below it whose keys spell one identifier, and a row that refers to this identifier. -/
def respelledStore : Store :=
  let keys : Table := ⟨"nodes", "", [⟨"id", .text⟩, ⟨"parent_id", .text⟩], some ⟨"id", .text⟩,
    [⟨1, [.text "AAAAAAAA-AAAA-AAAA-AAAA-AAAAAAAAAAAA", .null]⟩,
      ⟨2, [.text "aaaaaaaa-aaaa-aaaa-aaaa-aaaaaaaaaaaa", .text "AAAAAAAA-AAAA-AAAA-AAAA-AAAAAAAAAAAA"]⟩]⟩
  ⟨⟨⟨"nodes", "id", .uuid, "parent_id", []⟩, { Config.default with windowFunctions := some true }, false⟩,
    ⟨[.table keys, .table (itemsTable [.text "aaaaaaaa-aaaa-aaaa-aaaa-aaaaaaaaaaaa"])]⟩⟩

/-- The identifier that both keys spell. -/
def respelled : NodeId := .uuid ⟨List.replicate 32 10, by decide, by decide⟩

theorem respelledStore_answers : ∃ root child, respelledStore.query .empty = .ok [root, child] ∧
    root.id = respelled ∧ child.id = respelled ∧ root.path = [respelled] ∧ child.path = [respelled, respelled] :=
  exists_pair_of_queryInPlace (by decide +kernel)

/-- Two rows with one identifier are no descendants of it, and still what one of them is counted for is counted for
both, and rolled up to both from each time that a path goes through the identifier. -/
theorem counts_respelled : ∃ root child, root.id = respelled ∧ child.id = respelled ∧
    respelledStore.relatedCounts .empty "items" "node_id" false = .ok [⟨root, 1⟩, ⟨child, 1⟩] ∧
    respelledStore.relatedCounts .empty "items" "node_id" true = .ok [⟨root, 3⟩, ⟨child, 3⟩] ∧
    respelledStore.descendants .empty respelled false = .ok [] := by
  obtain ⟨root, child, answered, id, id', path, path'⟩ := respelledStore_answers
  have known : respelledStore.database.readable? "items"
      = some (itemsTable [.text "aaaaaaaa-aaaa-aaaa-aaaa-aaaaaaaaaaaa"]) := by decide_cbv
  have counted : ∀ cumulative, respelledStore.relatedCounts .empty "items" "node_id" cumulative
      = .ok (countsIn ⟨[(respelled, 1)]⟩ cumulative [root, child]) := fun cumulative =>
    relatedCounts_of_sorted (by decide) (by decide) known (by decide_cbv) (by decide_cbv) answered
  refine ⟨root, child, id, id', ?_, ?_, ?_⟩
  · have own : (totalsOf ⟨[(respelled, 1)]⟩ false [root, child]).get respelled = 1 := by
      rw [get_totalsOf_own (by simp [id])]
      decide
    rw [counted, countsIn, List.map_cons, List.map_singleton, id, id', own]
  · have rolled : (totalsOf ⟨[(respelled, 1)]⟩ true [root, child]).get respelled = 3 := by
      rw [get_totalsOf_cumulative, sumOf_cons, sumOf_cons, sumOf_nil, id, id', path, path']
      decide
    rw [counted, countsIn, List.map_cons, List.map_singleton, id, id', rolled]
  · rw [descendants_eq answered, descendantsIn]
    simp [id, id']

end Store

end ForestQuery
