import ForestQuery.Proofs.Compiler
import ForestQuery.Proofs.Traversal
import ForestQuery.Store
/-!
What a store answers to a request. Main statements: a store runs one dialect, with fixed-width columns; a
request is answered exactly when every row with a lineage can be written within the depth limit and every
row of the statement is read; and the rows are then those of the forest in the order of the statement.
-/

namespace ForestQuery

namespace Table

/-- A table that has the columns of a relation, and in it a key of its own for each row. -/
structure IsKeyed (t : Table) (relation : Relation) : Prop where
  columns : ∀ f ∈ relation.columns, (t.column? f.name).isSome
  identified : ∀ r ∈ t.records, ∃ id : NodeId, id.type = relation.keyType ∧ r.value relation.key = id.toValue
  distinct : (t.records.map fun r => r.value relation.key).Nodup

end Table

/-- The first table is found under its name. -/
theorem Database.readable?_cons_self (t : Table) (os : List DatabaseObject) :
    (Database.mk (.table t :: os)).readable? t.name = some t := by
  have found : (Database.mk (.table t :: os)).table? t.name = some t :=
    List.find?_cons_of_pos (beq_self_eq_true (Identifier.lower t.name))
  rw [readable?, found]

/-- The forest of the rows that take part in a request. -/
def Request.forest (q : Request) {t : Table} {relation : Relation} (keyed : t.IsKeyed relation) : Forest where
  relation := relation
  rows := t.records.filter (q.keeps relation)
  identified := fun r member => keyed.identified r (List.mem_of_mem_filter member)
  distinct := keyed.distinct.sublist (List.filter_sublist.map _)

theorem Request.length_forest_le (q : Request) {t : Table} {relation : Relation} (keyed : t.IsKeyed relation) :
    (q.forest keyed).rows.length ≤ t.rows.length := by
  have kept : (q.forest keyed).rows.length ≤ t.records.length := List.length_filter_le _ _
  rwa [Table.records, List.length_map] at kept

namespace Compiled

/-- A row of the statement as it is delivered. -/
def read (c : Compiled) : Option RawRow → Except Error TreeRow
  | none => .error .store
  | some raw => c.decode raw

theorem read_eq_ok_iff {c : Compiled} {raw : Option RawRow} {row : TreeRow} :
    c.read raw = .ok row ↔ ∃ columns, raw = some columns ∧ c.decode columns = .ok row := by
  cases raw with
  | none => simp [read]
  | some columns => simp [read]

end Compiled

namespace Store

variable {s : Store} {relation : Relation} {config : Config} {q : Request} {c : Compiled} {t : Table}

/-- A store runs the dialect that it is made for, with columns of fixed width, within the limits of its
settings. -/
structure IsOpen (s : Store) (relation : Relation) (config : Config) : Prop where
  describes : s.compiler.relation = relation
  settings : s.compiler.config = { config with windowFunctions := some (config.windowFunctions.getD true) }
  dialect : config.dialect = .sqlite
  native : s.compiler.native = false
  textWidth : config.textWidth ≤ maxTextWidth

theorem isOpen_of_new (opened : Store.new relation config = .ok ⟨s.compiler, .empty⟩) : s.IsOpen relation config := by
  simp only [Store.new, Compiler.new, Config.validate, Outcome.check_eq_ok_iff, Outcome.bind_eq_ok_iff,
    Outcome.pure_eq_ok_iff, Decidable.not_not] at opened
  obtain ⟨dialect, compiler, ⟨-, ⟨-, widths, -, -, -⟩, native, nativeOk, rfl⟩, same⟩ := opened
  have shape := congrArg Store.compiler same
  simp only at shape
  have fixed : native = false := by
    refine Config.eq_false_of_usesNativeArrays ?_ nativeOk
    rw [dialect]
    rfl
  exact {
    describes := by rw [← shape]
    settings := by rw [← shape]
    dialect
    native := by rw [← shape, fixed]
    textWidth := by omega }

theorem deliver_rows (c : Compiled) (x : List TreeRow) (count : Nat) (raws : List (Option RawRow)) :
    (match deliver c (fun rows row => .ok (row :: rows)) x count raws with
      | (rows, .ok _) => Except.ok rows.reverse
      | (_, .error e) => .error e) = (raws.mapM c.read).map (x.reverse ++ ·) := by
  induction raws generalizing x count with
  | nil => simp [deliver, pure, Except.pure, Except.map]
  | cons raw rest ih =>
    cases raw with
    | none => rfl
    | some columns =>
      rw [List.mapM_cons, Compiled.read, deliver]
      cases c.decode columns with
      | error e => rfl
      | ok row =>
        simp only [ih]
        cases List.mapM c.read rest with
        | error e => rfl
        | ok rows => simp [bind, Except.bind, pure, Except.pure, Except.map]

theorem query_eq (s : Store) (q : Request) :
    s.query q = s.compile q >>= fun c => s.run c >>= fun raws => raws.mapM c.read := by
  rw [query, forEach]
  cases s.compile q with
  | error e => rfl
  | ok c =>
    simp only [bind, Except.bind]
    cases s.run c with
    | error e => rfl
    | ok raws =>
      refine (deliver_rows c [] 0 raws).trans ?_
      change _ = List.mapM c.read raws
      cases List.mapM c.read raws with
      | error e => rfl
      | ok rows => rfl

theorem canRead_of_isKeyed {statement : Statement} (keyed : t.IsKeyed statement.relation)
    (visible : statement.partNames.any (Identifier.sameName statement.relation.table) = false) :
    canRead statement t = true := by
  rw [canRead, visible, Bool.not_false, Bool.and_true, List.all_eq_true]
  intro f member
  obtain ⟨column, found⟩ := Option.isSome_iff_exists.mp (keyed.columns f member)
  simp only [canReadName, Table.target, found]

theorem isRunnable (isOpen : s.IsOpen relation config) : s.compiler.IsRunnable where
  dialect := by
    rw [isOpen.settings]
    exact isOpen.dialect
  native := isOpen.native
  textWidth := by
    rw [isOpen.settings]
    exact isOpen.textWidth

theorem relation_eq (isOpen : s.IsOpen relation config) (compiled : s.compile q = .ok c) :
    c.statement.relation = relation := by
  obtain ⟨order, ancestors, key, compiles⟩ := Compiler.compile_eq_ok compiled
  rw [compiles.relation, isOpen.describes]

/-- What compiling a request has resolved is what the relation resolves. -/
theorem exists_compiles {order : SiblingOrder} (isOpen : s.IsOpen relation config) (compiled : s.compile q = .ok c)
    (resolved : SiblingOrder.resolve relation q.ordering = .ok order) :
    ∃ ancestors key, s.compiler.Compiles q c order ancestors key ∧
      AncestorField.resolve relation q.ancestorFields = .ok ancestors := by
  obtain ⟨order', ancestors, key, compiles⟩ := Compiler.compile_eq_ok compiled
  have sameOrder := compiles.resolved
  rw [isOpen.describes, resolved] at sameOrder
  cases sameOrder
  exact ⟨ancestors, key, compiles, isOpen.describes ▸ compiles.collected⟩

/-- A statement that a store runs fails at the depth limit. -/
theorem failsAtLimit (isOpen : s.IsOpen relation config) (compiled : s.compile q = .ok c) :
    c.statement.encoding.failsAtLimit = true := by
  obtain ⟨order, ancestors, key, compiles⟩ := Compiler.compile_eq_ok compiled
  rw [Compiler.encoding_eq compiles (isRunnable isOpen)]
  rfl

theorem isForest (isOpen : s.IsOpen relation config) (compiled : s.compile q = .ok c) (keyed : t.IsKeyed relation) :
    c.statement.IsForest t.records (q.forest keyed) := by
  obtain ⟨order, ancestors, key, compiles⟩ := Compiler.compile_eq_ok compiled
  refine ⟨(relation_eq isOpen compiled).symm, ?_⟩
  rw [Compiler.kept_eq compiles t.records, isOpen.describes]
  rfl

/-- Where none of the parts of a statement hides the table, the statement is run over its rows. -/
theorem run_eq (isOpen : s.IsOpen relation config) (compiled : s.compile q = .ok c)
    (readable : s.database.readable? relation.table = some t) (keyed : t.IsKeyed relation)
    (visible : c.statement.partNames.any (Identifier.sameName relation.table) = false) :
    s.run c = (c.statement.run t.records).mapError (Failure.ofRaised c.maxDepth) := by
  have read : canRead c.statement t = true := by
    have same := relation_eq isOpen compiled
    subst same
    exact canRead_of_isKeyed keyed visible
  rw [run, Store.relation, isOpen.describes, readable]
  simp only [read, if_true]
  cases c.statement.run t.records with
  | error raised => rfl
  | ok rows => rfl

/-- A statement runs exactly when every row with a lineage can be written within the depth limit. -/
theorem run_eq_ok_iff {raws : List (Option RawRow)} (isOpen : s.IsOpen relation config)
    (compiled : s.compile q = .ok c) (readable : s.database.readable? relation.table = some t)
    (keyed : t.IsKeyed relation)
    (visible : c.statement.partNames.any (Identifier.sameName relation.table) = false) :
    s.run c = .ok raws ↔ c.statement.CanTraverse (q.forest keyed) ∧
      raws = (c.statement.ordered (q.forest keyed)).map fun e =>
        c.statement.rawRow? (c.statement.nodeAt (q.forest keyed).rows e.1 e.2) := by
  obtain ⟨order, ancestors, key, compiles⟩ := Compiler.compile_eq_ok compiled
  have positive : 0 < c.statement.encoding.maxDepth := compiles.positive
  have statement : s.run c = .ok raws ↔ c.statement.run t.records = .ok raws := by
    rw [run_eq isOpen compiled readable keyed visible]
    cases c.statement.run t.records with
    | error raised => simp [Except.mapError]
    | ok rows => simp [Except.mapError]
  rw [statement]
  exact Statement.run_eq_ok_iff (isForest isOpen compiled keyed) (failsAtLimit isOpen compiled) positive

/-- A request is answered exactly when every row with a lineage can be written within the depth limit and
every row of the statement is read. -/
theorem query_eq_ok_iff {rows : List TreeRow} (isOpen : s.IsOpen relation config) (compiled : s.compile q = .ok c)
    (readable : s.database.readable? relation.table = some t) (keyed : t.IsKeyed relation)
    (visible : c.statement.partNames.any (Identifier.sameName relation.table) = false) :
    s.query q = .ok rows ↔ c.statement.CanTraverse (q.forest keyed) ∧
      List.Forall₂ (fun e row => ∃ raw, c.statement.rawRow? (c.statement.nodeAt (q.forest keyed).rows e.1 e.2)
        = some raw ∧ c.decode raw = .ok row) (c.statement.ordered (q.forest keyed)) rows := by
  rw [query_eq, compiled]
  change s.run c >>= (fun raws => raws.mapM c.read) = .ok rows ↔ _
  simp only [Outcome.bind_eq_ok_iff, run_eq_ok_iff isOpen compiled readable keyed visible, Outcome.mapM_eq_ok_iff]
  constructor
  · rintro ⟨_, ⟨traverses, rfl⟩, delivered⟩
    refine ⟨traverses, (List.forall₂_map_left_iff.mp delivered).imp fun e row read => ?_⟩
    exact Compiled.read_eq_ok_iff.mp read
  · rintro ⟨traverses, delivered⟩
    refine ⟨_, ⟨traverses, rfl⟩, List.forall₂_map_left_iff.mpr (delivered.imp fun e row read => ?_)⟩
    exact Compiled.read_eq_ok_iff.mpr read

end Store

end ForestQuery
