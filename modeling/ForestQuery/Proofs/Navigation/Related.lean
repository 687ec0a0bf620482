import ForestQuery.Proofs.KeyPart
import ForestQuery.Proofs.Navigation.Tally
import ForestQuery.Proofs.Query
import ForestQuery.Proofs.Table.Groups
/-!
How many rows of another table refer to a node. The rows are grouped by their values and the groups are filed
under the nodes that the values stand for, where a group takes the place of those before it. Main statement:
a node is answered with the number of rows that share the greatest of the values that stand for it, which is
the number of rows that refer to it only where no two of them spell it differently.
-/

namespace ForestQuery

namespace Table

variable {t : Table} {column : String} {type : FieldType} {node : NodeId}

/-- The values of the rows that refer to a node. -/
def referring (t : Table) (column : String) (type : FieldType) (node : NodeId) : List Value :=
  (t.valuesAt column).filter fun v => NodeId.ofValue type v = .ok node

theorem mem_referring_iff {v : Value} :
    v ∈ t.referring column type node ↔ v ∈ t.valuesAt column ∧ NodeId.ofValue type v = .ok node := by
  rw [referring, List.mem_filter, decide_eq_true_eq]

end Table

namespace Navigation

variable {type : FieldType} {counts direct : Tally} {gs : List (Value × Nat)} {node : NodeId}

/-- Each group is filed under the node that its value stands for, and a node has the number of its last group. -/
theorem countsByNode_eq_ok (node : NodeId) (filed : countsByNode type counts gs = .ok direct) :
    (∀ g ∈ gs, ∃ id, NodeId.ofValue type g.1 = .ok id) ∧
    ((∀ g ∈ gs, NodeId.ofValue type g.1 ≠ .ok node) ∧ direct.get node = counts.get node ∨
      ∃ front g later, gs = front ++ g :: later ∧ NodeId.ofValue type g.1 = .ok node ∧
        (∀ h ∈ later, NodeId.ofValue type h.1 ≠ .ok node) ∧ direct.get node = g.2) := by
  induction gs generalizing counts with
  | nil =>
    cases filed
    exact ⟨by simp, Or.inl ⟨by simp, rfl⟩⟩
  | cons g gs ih =>
    obtain ⟨v, n⟩ := g
    rw [countsByNode, Outcome.bind_eq_ok_iff] at filed
    obtain ⟨id, read, rest⟩ := filed
    obtain ⟨readable, last⟩ := ih rest
    refine ⟨List.forall_mem_cons.mpr ⟨⟨id, read⟩, readable⟩, ?_⟩
    rcases last with ⟨none, kept⟩ | ⟨front, g, later, rfl, found, none, number⟩
    · rw [Tally.get_put] at kept
      by_cases here : node = id
      · rw [if_pos here] at kept
        exact Or.inr ⟨[], (v, n), gs, rfl, here ▸ read, none, kept⟩
      · rw [if_neg here] at kept
        refine Or.inl ⟨List.forall_mem_cons.mpr ⟨fun same => here ?_, none⟩, kept⟩
        rw [read] at same
        exact (Except.ok.inj same).symm
    · exact Or.inr ⟨(v, n) :: front, g, later, rfl, found, none, number⟩

variable {vs : List Value}

/-- The number that is found for a node, where the groups are those of the values. -/
theorem get_of_isGrouping (node : NodeId) (grouping : Table.IsGrouping gs vs) (filed : countsByNode type .empty gs = .ok direct) :
    (∀ v ∈ vs, NodeId.ofValue type v ≠ .ok node) ∧ direct.get node = 0 ∨
      ∃ w ∈ vs, NodeId.ofValue type w = .ok node ∧
        (∀ v ∈ vs, NodeId.ofValue type v = .ok node → (Value.compare v w).isLE = true) ∧
        direct.get node = vs.countP (Value.same w) := by
  obtain ⟨readable, last⟩ := countsByNode_eq_ok node filed
  -- A value that stands for a node is the value of a group.
  have grouped : ∀ v ∈ vs, NodeId.ofValue type v = .ok node → ∃ g ∈ gs, g.1 = v := by
    intro v member read
    obtain ⟨g, inGroups, equal⟩ := grouping.covered v member (NodeId.isNull_of_ofValue read)
    obtain ⟨id, read'⟩ := readable g inGroups
    exact ⟨g, inGroups, NodeId.eq_of_same read' read equal⟩
  rcases last with ⟨none, number⟩ | ⟨front, g, later, rfl, read, none, number⟩
  · refine Or.inl ⟨fun v member read => ?_, number⟩
    obtain ⟨g, inGroups, rfl⟩ := grouped v member read
    exact none g inGroups read
  · obtain ⟨found, -, count⟩ := grouping.counted g (by simp)
    refine Or.inr ⟨g.1, found, read, fun v member same => ?_, number.trans count⟩
    obtain ⟨h, inGroups, rfl⟩ := grouped v member same
    rcases List.mem_append.mp inGroups with before | here
    · rw [(List.pairwise_append.mp grouping.increasing).2.2 h before g (by simp)]
      rfl
    · rcases List.mem_cons.mp here with rfl | after
      · rw [show Value.compare h.1 h.1 = .eq from Std.ReflCmp.compare_self]
        rfl
      · exact absurd same (none h after)

theorem of_countP_eq {p q : Value → Bool} (weaker : ∀ v ∈ vs, p v = true → q v = true)
    (number : vs.countP p = vs.countP q) : ∀ v ∈ vs, q v = true → p v = true := by
  induction vs with
  | nil => simp
  | cons v vs ih =>
    have atMost : vs.countP p ≤ vs.countP q := List.countP_mono_left fun w member => weaker w (by simp [member])
    rw [List.countP_cons, List.countP_cons] at number
    have first := weaker v (by simp)
    have here : q v = true → p v = true := by
      intro holds
      by_contra other
      rw [if_neg other, if_pos holds] at number
      omega
    have rest : vs.countP p = vs.countP q := by
      by_cases holds : p v = true
      · rw [if_pos holds, if_pos (first holds)] at number
        omega
      · rw [if_neg holds, if_neg fun other => holds (here other)] at number
        omega
    exact List.forall_mem_cons.mpr ⟨here, ih (fun w member => weaker w (by simp [member])) rest⟩

/-- A value that stands for an integer and is not greater is this integer: others would be texts, which are greater than
any number. -/
theorem same_of_compare_integer {v : Value} {i : Int64} (stands : NodeId.ofValue type v = .ok (.int i))
    (atMost : (Value.compare v (.integer i)).isLE = true) : Value.same (.integer i) v = true := by
  rcases NodeId.ofValue_cases stands with ⟨j, rfl, same⟩ | ⟨s, rfl⟩ | ⟨bytes, rfl⟩
  · cases same
    exact Value.same_self _
  · cases atMost
  · cases atMost

/-- The rows with the greatest of the values that stand for a node are as many as the rows that refer to it
only if they are the same rows. -/
theorem countP_same_eq_iff {w : Value} (read : NodeId.ofValue type w = .ok node)
    (greatest : ∀ v ∈ vs, NodeId.ofValue type v = .ok node → (Value.compare v w).isLE = true) :
    vs.countP (Value.same w) = vs.countP (fun v => NodeId.ofValue type v = .ok node) ↔
      ∀ v ∈ vs, Value.same w v = true ↔ NodeId.ofValue type v = .ok node := by
  constructor
  · intro number
    rcases NodeId.ofValue_cases read with ⟨i, rfl, rfl⟩ | other
    · have integers : ∀ v ∈ vs, decide (NodeId.ofValue type v = .ok (.int i)) = true → Value.same (.integer i) v = true :=
        fun v member stands => same_of_compare_integer (of_decide_eq_true stands)
          (greatest v member (of_decide_eq_true stands))
      have back := of_countP_eq integers number.symm
      exact fun v member => ⟨fun equal => of_decide_eq_true (back v member equal), fun stands =>
        integers v member (decide_eq_true stands)⟩
    · have texts : ∀ v ∈ vs, Value.same w v = true → decide (NodeId.ofValue type v = .ok node) = true := by
        intro v member equal
        rw [← Value.eq_of_same_bytes other equal, read]
        exact decide_eq_true rfl
      have back := of_countP_eq texts number
      exact fun v member => ⟨fun equal => of_decide_eq_true (texts v member equal), fun stands =>
        back v member (decide_eq_true stands)⟩
  · intro each
    refine List.countP_congr fun v member => ?_
    rw [decide_eq_true_eq]
    exact each v member

end Navigation

namespace Store

variable {s : Store} {q : Request} {table column : String} {cumulative : Bool} {direct : Tally} {t : Table}
  {cs : List RelatedCount} {node : NodeId}

theorem directCounts_eq_ok_iff : s.directCounts table column = .ok direct ↔
    Identifier.check table = .ok () ∧ Identifier.check column = .ok () ∧
      ∃ t, s.database.readable? table = some t ∧
        Navigation.countsByNode s.relation.keyType .empty (t.groups column) = .ok direct := by
  rw [directCounts, Outcome.bind_eq_ok_iff]
  constructor
  · rintro ⟨⟨⟩, name, filed⟩
    obtain ⟨⟨⟩, name', filed⟩ := Outcome.bind_eq_ok_iff.mp filed
    split at filed
    · cases filed
    · exact ⟨name, name', _, ‹_›, filed⟩
  · rintro ⟨name, name', t, readable, filed⟩
    refine ⟨(), name, Outcome.bind_eq_ok_iff.mpr ⟨(), name', ?_⟩⟩
    rw [readable]
    exact filed

theorem relatedCounts_eq_ok_iff : s.relatedCounts q table column cumulative = .ok cs ↔
    ∃ direct rows, s.directCounts table column = .ok direct ∧ s.query q = .ok rows ∧
      Navigation.countsIn direct cumulative rows = cs := by
  simp only [relatedCounts, Outcome.bind_eq_ok_iff, Outcome.pure_eq_ok_iff]
  constructor
  · rintro ⟨direct, filed, rows, answered, counts⟩
    exact ⟨direct, rows, filed, answered, counts⟩
  · rintro ⟨direct, rows, filed, answered, counts⟩
    exact ⟨direct, filed, rows, answered, counts⟩

/-- What the counts of related rows are. The rows of an answer with counts are those of the traversal. A node to which
no row of the other table refers is answered with none, and any other one with the number of rows whose value is equal
to the greatest of the values that stand for it. That is the number of rows that refer to the node exactly where these
are the rows with an equal value: rows that spell the node in another way are not counted. -/
theorem related_counted (counted : s.relatedCounts q table column false = .ok cs) :
    ∃ t, s.database.readable? table = some t ∧ s.query q = .ok (cs.map RelatedCount.row) ∧
      ∀ e ∈ cs, t.referring column s.relation.keyType e.row.id = [] ∧ e.count = 0 ∨
        ∃ w ∈ t.referring column s.relation.keyType e.row.id,
          (∀ v ∈ t.referring column s.relation.keyType e.row.id, (Value.compare v w).isLE = true) ∧
          e.count = (t.valuesAt column).countP (Value.same w) ∧
          (e.count = (t.referring column s.relation.keyType e.row.id).length ↔
            ∀ v ∈ t.valuesAt column, Value.same w v = true ↔ NodeId.ofValue s.relation.keyType v = .ok e.row.id) := by
  obtain ⟨direct, rows, filed, answered, rfl⟩ := relatedCounts_eq_ok_iff.mp counted
  obtain ⟨-, -, t, readable, filed⟩ := directCounts_eq_ok_iff.mp filed
  refine ⟨t, readable, by rw [Navigation.map_row_countsIn]; exact answered, fun e member => ?_⟩
  obtain ⟨r, inRows, rfl⟩ := List.mem_map.mp member
  rw [Navigation.get_totalsOf_own (List.mem_map_of_mem inRows)]
  rcases Navigation.get_of_isGrouping r.id (t.isGrouping_groups column) filed with
    ⟨none, number⟩ | ⟨w, found, read, greatest, number⟩
  · refine Or.inl ⟨List.filter_eq_nil_iff.mpr fun v inside stands => ?_, number⟩
    exact none v inside (of_decide_eq_true stands)
  · refine Or.inr ⟨w, Table.mem_referring_iff.mpr ⟨found, read⟩, fun v refers => ?_, number, ?_⟩
    · obtain ⟨inside, stands⟩ := Table.mem_referring_iff.mp refers
      exact greatest v inside stands
    · rw [number, Table.referring, ← List.countP_eq_length_filter]
      exact Navigation.countP_same_eq_iff read greatest

/-- Counts of related rows whose values stand in order already. -/
theorem relatedCounts_of_sorted {rows : List TreeRow} (name : Identifier.check table = .ok ())
    (name' : Identifier.check column = .ok ()) (readable : s.database.readable? table = some t)
    (sorted : ((t.valuesAt column).filter fun v => !v.isNull).Pairwise fun v w => (Value.compare v w != .gt) = true)
    (filed : Navigation.countsByNode s.relation.keyType .empty (((t.valuesAt column).filter fun v => !v.isNull).foldl
      (fun gs v => Table.addToGroups v gs) []) = .ok direct)
    (answered : s.query q = .ok rows) :
    s.relatedCounts q table column cumulative = .ok (Navigation.countsIn direct cumulative rows) := by
  refine relatedCounts_eq_ok_iff.mpr ⟨direct, rows, ?_, answered, rfl⟩
  rw [← Table.groups_of_sorted sorted] at filed
  exact directCounts_eq_ok_iff.mpr ⟨name, name', t, readable, filed⟩

/-- Rows with one value each. -/
def itemsTable (values : List Value) : Table :=
  { Database.relatedTable "items" "node_id" with
    rows := values.mapIdx fun i v => ⟨Int64.ofNat (i + 1), [v]⟩ }

/-- Nodes, and rows of another table that refer to nodes by the given values. -/
def referredStore (rows : List Row) (values : List Value) : Store :=
  ⟨(sampleStore []).compiler, ⟨[.table (sampleTable rows), .table (itemsTable values)]⟩⟩

/-- A single node. -/
def loneRow : List Row := [⟨2, [.integer 2, .null, .null]⟩]

theorem loneRow_answers (values : List Value) (answers : ((referredStore loneRow values).query .empty).toOption.any
    (fun rows => rows.map TreeRow.id == [.int 2]) = true) :
    ∃ row, (referredStore loneRow values).query .empty = .ok [row] ∧ row.id = .int 2 := by
  obtain ⟨rows, answered, shape⟩ := Outcome.exists_of_any answers
  rw [beq_iff_eq, List.map_eq_singleton_iff] at shape
  obtain ⟨row, rfl, id⟩ := shape
  exact ⟨row, answered, id⟩

/-- Two rows with one value, which are all rows that refer to the node. -/
theorem related_counted_twice : ∃ row,
    (referredStore loneRow [.integer 2, .integer 2]).relatedCounts .empty "items" "node_id" false = .ok [⟨row, 2⟩] ∧
    ((itemsTable [.integer 2, .integer 2]).referring "node_id" .integer row.id).length = 2 := by
  obtain ⟨row, answered, id⟩ := loneRow_answers [.integer 2, .integer 2] (by decide_cbv)
  have known : (referredStore loneRow [.integer 2, .integer 2]).database.readable? "items"
      = some (itemsTable [.integer 2, .integer 2]) := by decide_cbv
  have counted : (referredStore loneRow [.integer 2, .integer 2]).relatedCounts .empty "items" "node_id" false
      = .ok (Navigation.countsIn ⟨[(.int 2, 2)]⟩ false [row]) :=
    relatedCounts_of_sorted (by decide) (by decide) known (by decide_cbv) (by decide_cbv) answered
  have counts : Navigation.countsIn ⟨[(.int 2, 2)]⟩ false [row] = [⟨row, 2⟩] := by
    rw [Navigation.countsIn, List.map_singleton, Navigation.get_totalsOf_own (by simp), id]
    rfl
  rw [counts] at counted
  obtain ⟨t, readable, -, each⟩ := related_counted counted
  cases readable.symm.trans known
  have values : (itemsTable [.integer 2, .integer 2]).valuesAt "node_id" = [.integer 2, .integer 2] := by decide_cbv
  refine ⟨row, counted, ?_⟩
  rcases each _ (List.mem_singleton_self _) with ⟨-, none⟩ | ⟨w, refers, -, -, whole⟩
  · cases none
  · refine (whole.mpr fun v member => ?_).symm
    have found := (Table.mem_referring_iff.mp refers).1
    rw [values] at found member
    obtain rfl : w = .integer 2 := by simpa using found
    obtain rfl : v = .integer 2 := by simpa using member
    exact ⟨fun _ => congrArg Except.ok id.symm, fun _ => Value.same_self _⟩

/-- Three rows refer to the node, one of them in another spelling, and only this one is counted. -/
theorem related_lost : ∃ row,
    (referredStore loneRow [.integer 2, .integer 2, .text "02"]).relatedCounts .empty "items" "node_id" false
      = .ok [⟨row, 1⟩] ∧
    (referredStore loneRow [.integer 2, .integer 2, .text "02"]).database.readable? "items"
      = some (itemsTable [.integer 2, .integer 2, .text "02"]) ∧
    (itemsTable [.integer 2, .integer 2, .text "02"]).referring "node_id" .integer row.id
      = [.integer 2, .integer 2, .text "02"] := by
  obtain ⟨row, answered, id⟩ := loneRow_answers [.integer 2, .integer 2, .text "02"] (by decide_cbv)
  have known : (referredStore loneRow [.integer 2, .integer 2, .text "02"]).database.readable? "items"
      = some (itemsTable [.integer 2, .integer 2, .text "02"]) := by decide_cbv
  have counted : (referredStore loneRow [.integer 2, .integer 2, .text "02"]).relatedCounts .empty "items" "node_id" false
      = .ok (Navigation.countsIn ⟨[(.int 2, 1)]⟩ false [row]) :=
    relatedCounts_of_sorted (by decide) (by decide) known (by decide_cbv) (by decide_cbv) answered
  have counts : Navigation.countsIn ⟨[(.int 2, 1)]⟩ false [row] = [⟨row, 1⟩] := by
    rw [Navigation.countsIn, List.map_singleton, Navigation.get_totalsOf_own (by simp), id]
    rfl
  rw [counts] at counted
  exact ⟨row, counted, known, by rw [id]; decide_cbv⟩

end Store

end ForestQuery
