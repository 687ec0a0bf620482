import ForestQuery.Proofs.AncestorField
import ForestQuery.Proofs.Filter
/-!
Which requests are compiled. Main statement: a request is compiled exactly when its depth limit is positive, its
ordering, ancestor fields and filter can be read in the relation, and the keys of siblings can be written where
they are not numbered; every other request is refused while it is checked, and never by what writes the levels.
-/

namespace ForestQuery

section Ordering

variable {r : Relation} {seen : List String} {ordering : List OrderField}

/-- A field to sort by with the type that it has in the relation. -/
def Relation.sortField (r : Relation) (f : OrderField) : SortField :=
  ⟨f.field, f.direction, (r.fieldType? f.field).getD .blob⟩

namespace SiblingOrder

/-- An ordering is read when its fields are known, and none of them is listed twice. -/
theorem resolveFields_eq_ok_iff {fields : List SortField} :
    resolveFields r seen ordering = .ok fields ↔
      ((∀ f ∈ ordering, (r.fieldType? f.field).isSome ∧ f.field ∉ seen) ∧ (ordering.map OrderField.field).Nodup) ∧
        ordering.map r.sortField = fields := by
  induction ordering generalizing seen fields with
  | nil => simp [resolveFields]
  | cons f rest ih =>
    rw [List.forall_mem_cons]
    simp only [resolveFields, Outcome.bind_eq_ok_iff, Outcome.check_eq_ok_iff, Outcome.pure_eq_ok_iff,
      Relation.requireField_eq_ok_iff, ih, List.contains_iff_mem, List.map_cons, List.nodup_cons, List.mem_cons, not_or]
    constructor
    · rintro ⟨type, known, unseen, _, ⟨⟨others, different⟩, rfl⟩, rfl⟩
      refine ⟨⟨⟨⟨by rw [known]; rfl, unseen⟩, fun g member => ⟨(others g member).1, (others g member).2.2⟩⟩,
        fun member => ?_, different⟩, ?_⟩
      · obtain ⟨g, inRest, same⟩ := List.mem_map.mp member
        exact (others g inRest).2.1 same
      · rw [Relation.sortField, known]
        rfl
    · rintro ⟨⟨⟨⟨known, unseen⟩, others⟩, fresh, different⟩, rfl⟩
      obtain ⟨type, found⟩ := Option.isSome_iff_exists.mp known
      refine ⟨type, found, unseen, _, ⟨⟨fun g member => ⟨(others g member).1, fun same => ?_, (others g member).2⟩,
        different⟩, rfl⟩, ?_⟩
      · exact fresh (List.mem_map.mpr ⟨g, member, same⟩)
      · rw [Relation.sortField, found]
        rfl

end SiblingOrder

end Ordering

section Keys

variable {d : Dialect} {native : Bool} {keyBytes : Nat} {source : String}

/-- Whether the dialect has an expression for the segment of a part. -/
def Part.IsWritable (d : Dialect) (p : Part) : Prop :=
  ∀ bytes, p.kind = .textKey bytes true → d.capabilities.hexComplement = true

theorem Part.isWritable_ofFieldType (d : Dialect) (e : Expr) (textWidth : Nat) (type : FieldType) :
    Part.IsWritable d ⟨e, .ofFieldType textWidth type⟩ := by
  intro bytes descending
  cases type <;> cases descending

namespace SiblingOrder

theorem isWritable_part {f : SortField} (writable : f.IsWritable d) : (f.part keyBytes source).IsWritable d := by
  obtain ⟨name, direction, type⟩ := f
  intro bytes descending
  rcases writable with ⟨rfl | rfl | rfl, complements⟩
  · cases descending
  · cases direction with
    | ascending => cases descending
    | descending => exact complements rfl nofun
  · exact complements (of_decide_eq_true (SegmentKind.textKey.inj descending).2) nofun

/-- The key of a level is made of column values when that is the key of the table, or when columns are texts and
a key can be made of each field. -/
theorem exists_rawKey_iff {o : SiblingOrder} : (∃ k, o.rawKey d native keyBytes source = .ok k) ↔
    o.isKeyOnly = true ∨ native = false ∧ ∀ f ∈ o.fields, f.IsWritable d := by
  simp only [rawKey_eq_ok_iff, exists_or, exists_and_left, exists_eq', and_true]
  cases o.isKeyOnly <;> simp

end SiblingOrder

theorem SortField.isWritable_sortField {r : Relation} {f : OrderField} : (r.sortField f).IsWritable d ↔
    ∃ type, r.fieldType? f.field = some type ∧ (type = .integer ∨ type = .uuid ∨ type = .text) ∧
      (f.direction = .descending → type ≠ .integer → d.capabilities.hexComplement = true) := by
  rw [IsWritable, IsKeyed, Relation.sortField]
  cases r.fieldType? f.field with
  | none => simp
  | some type => simp

/-- What a level consists of can be written: in arrays it is the one value of a column as it is, in texts each of
its parts has an expression. -/
def AreWritable (d : Dialect) (native : Bool) (parts : List Part) : Prop :=
  if native then ∃ e textWidth type, parts = [⟨e, .ofFieldType textWidth type⟩] else ∀ p ∈ parts, p.IsWritable d

theorem areWritable_single (d : Dialect) (native : Bool) (e : Expr) (textWidth : Nat) (type : FieldType) :
    AreWritable d native [⟨e, .ofFieldType textWidth type⟩] := by
  rw [AreWritable]
  split
  · exact ⟨e, textWidth, type, rfl⟩
  · exact List.forall_mem_singleton.mpr (Part.isWritable_ofFieldType d e textWidth type)

theorem SiblingOrder.areWritable_rawKey {o : SiblingOrder} {k : KeySource}
    (made : o.rawKey d native keyBytes source = .ok k) : AreWritable d native k.parts := by
  have key : AreWritable d native [o.keyPart source] := areWritable_single d native _ 0 o.keyType
  have each := forall_parts_of_rawKey made (Part.isWritable_ofFieldType d _ 0 o.keyType)
    fun f _ writable => isWritable_part writable
  rcases rawKey_eq_ok_iff.mp made with ⟨-, rfl⟩ | ⟨-, ⟨fixed, -⟩, rfl⟩
  · exact key
  · rw [AreWritable, if_neg (Bool.not_eq_true _ ▸ fixed)]
    exact each

theorem Part.IsWritable.exists_segment? {p : Part} (writable : p.IsWritable d) :
    ∃ e, Expr.segment? d p.expr p.kind = some e := by
  obtain ⟨expr, kind⟩ := p
  cases kind with
  | integer => exact ⟨_, rfl⟩
  | uuid => exact ⟨_, rfl⟩
  | text width => exact ⟨_, rfl⟩
  | textKey bytes descending =>
    cases descending with
    | false => exact ⟨_, rfl⟩
    | true =>
      have complements := writable bytes rfl
      simp only [Expr.segment?, Expr.textKeySegment?, complements, Bool.not_true, Bool.false_eq_true, if_false, if_true]
      exact ⟨_, rfl⟩

/-- Nothing fails where a level that can be written is written. -/
theorem Encoding.exists_element {enc : Encoding} {parts : List Part}
    (writable : AreWritable enc.dialect enc.native parts) : ∃ el, enc.element parts = .ok el := by
  rw [AreWritable] at writable
  by_cases native : enc.native = true
  · rw [if_pos native] at writable
    obtain ⟨e, textWidth, type, rfl⟩ := writable
    unfold element
    rw [if_pos native]
    cases type <;> exact ⟨_, rfl⟩
  · rw [if_neg native] at writable
    obtain ⟨exprs, made⟩ := Outcome.exists_forall₂ fun p member => (writable p member).exists_segment?
    exact ⟨_, (element_eq_ok_iff (Bool.not_eq_true _ ▸ native)).mpr ⟨exprs, segments_eq_ok_iff.mpr made, rfl⟩⟩

end Keys

theorem Strategy.select_eq_simple_iff {o : SiblingOrder} {filtered aggregated native : Bool} :
    select o filtered aggregated native = .simple ↔ filtered = false ∧ aggregated = false ∧
      ∃ f, o.singleAscending? = some f ∧ (f.type = .integer ∨ f.type = .uuid) ∧
        (native = true → o.isKeyOnly = true) := by
  rw [select]
  by_cases narrowed : (filtered || aggregated) = true
  · rw [if_pos narrowed]
    rw [Bool.or_eq_true] at narrowed
    rcases narrowed with rfl | rfl <;> simp
  · rw [if_neg narrowed]
    rw [Bool.or_eq_true, not_or, Bool.not_eq_true, Bool.not_eq_true] at narrowed
    rw [and_iff_right narrowed.1, and_iff_right narrowed.2]
    cases single : o.singleAscending? with
    | none => simp
    | some f =>
      simp only [Option.some.injEq, exists_eq_left']
      by_cases type : f.type = .integer ∨ f.type = .uuid
      · rw [if_neg (by rwa [← not_or, not_not]), and_iff_right type]
        cases native <;> cases o.isKeyOnly <;> simp
      · rw [if_pos (not_or.mp type)]
        simp [type]

theorem Relation.type_sortField_iff {r : Relation} {f : OrderField} {type : FieldType} (other : type ≠ .blob) :
    (r.sortField f).type = type ↔ r.fieldType? f.field = some type := by
  rw [sortField]
  cases r.fieldType? f.field with
  | none => simp [other.symm]
  | some found => simp

namespace Request

variable {q : Request} {r : Relation}

/-- The fields that siblings are sorted by: those that are asked for, or else the key. -/
def criteria (q : Request) (r : Relation) : List OrderField :=
  if q.ordering.isEmpty then [⟨r.key, .ascending⟩] else q.ordering

/-- The order of siblings where the criteria are known. -/
def order (q : Request) (r : Relation) : SiblingOrder := ⟨(q.criteria r).map r.sortField, r.key, r.keyType⟩

/-- Whether siblings can be sorted: the fields asked for are known, and none of them is listed twice. -/
def IsOrdered (q : Request) (r : Relation) : Prop :=
  (∀ f ∈ q.ordering, (r.fieldType? f.field).isSome) ∧ (q.ordering.map OrderField.field).Nodup

theorem isOrdered_iff : q.IsOrdered r ↔
    (∀ f ∈ q.criteria r, (r.fieldType? f.field).isSome) ∧ ((q.criteria r).map OrderField.field).Nodup := by
  rw [IsOrdered, criteria]
  split
  · rename_i empty
    rw [List.isEmpty_iff.mp empty]
    simp [r.fieldType?_key]
  · rfl

theorem resolve_eq_ok_iff {o : SiblingOrder} :
    SiblingOrder.resolve r q.ordering = .ok o ↔ q.IsOrdered r ∧ q.order r = o := by
  rw [SiblingOrder.resolve, isOrdered_iff, order, ← criteria]
  simp only [Outcome.bind_eq_ok_iff, Outcome.pure_eq_ok_iff, SiblingOrder.resolveFields_eq_ok_iff, List.not_mem_nil,
    not_false_eq_true, and_true]
  constructor
  · rintro ⟨_, ⟨ordered, rfl⟩, rfl⟩
    exact ⟨ordered, rfl⟩
  · rintro ⟨ordered, rfl⟩
    exact ⟨_, ⟨ordered, rfl⟩, rfl⟩

theorem singleAscending?_order {f : SortField} : (q.order r).singleAscending? = some f ↔
    ∃ g, q.criteria r = [g] ∧ g.direction = .ascending ∧ r.sortField g = f := by
  rw [SiblingOrder.singleAscending?_eq_some_iff, order, List.map_eq_singleton_iff]
  constructor
  · rintro ⟨⟨g, single, rfl⟩, ascending⟩
    exact ⟨g, single, ascending, rfl⟩
  · rintro ⟨g, single, ascending, rfl⟩
    exact ⟨⟨g, single, rfl⟩, ascending⟩

theorem isKeyOnly_order : (q.order r).isKeyOnly = true ↔ q.criteria r = [⟨r.key, .ascending⟩] := by
  rw [SiblingOrder.isKeyOnly, Option.any_eq_true]
  simp only [singleAscending?_order, beq_iff_eq]
  constructor
  · rintro ⟨_, ⟨⟨name, direction⟩, single, rfl, rfl⟩, key⟩
    obtain rfl : name = r.key := key
    exact single
  · intro single
    exact ⟨_, ⟨_, single, rfl, rfl⟩, rfl⟩

end Request

namespace Compiler

variable {c : Compiler} {q : Request}

/-- Whether siblings are sorted by one integer or identifier ascending; where columns are arrays, by the key. -/
def SortsSimply (c : Compiler) (q : Request) : Prop :=
  ∃ f, q.criteria c.relation = [f] ∧ f.direction = .ascending ∧
    (c.relation.fieldType? f.field = some .integer ∨ c.relation.fieldType? f.field = some .uuid) ∧
    (c.native = true → f.field = c.relation.key)

/-- Whether the plan is the general one: rows are filtered, values are collected, or siblings are not sorted in the
simple way. -/
def PlansGenerally (c : Compiler) (q : Request) : Prop :=
  q.isFiltered = true ∨ q.ancestorFields.toList ≠ [] ∨ ¬ c.SortsSimply q

/-- Whether the keys of siblings can be written: siblings are sorted by the key ascending, or columns are texts and
each criterion is an integer, or an identifier or a text in a direction that the dialect can write. -/
def WritesKeys (c : Compiler) (q : Request) : Prop :=
  q.criteria c.relation = [⟨c.relation.key, .ascending⟩] ∨
    c.native = false ∧ ∀ f ∈ q.criteria c.relation, ∃ type, c.relation.fieldType? f.field = some type ∧
      (type = .integer ∨ type = .uuid ∨ type = .text) ∧
      (f.direction = .descending → type ≠ .integer → c.config.dialect.capabilities.hexComplement = true)

/-- What makes a request acceptable. -/
structure Accepts (c : Compiler) (q : Request) : Prop where
  depth : 0 < q.maxDepth.getD c.config.maxDepth
  ordered : q.IsOrdered c.relation
  collected : ∀ e ∈ q.ancestorFields.toList, Identifier.isIdentifier e.1 = true ∧
    (c.relation.fieldType? e.2 = some .text ∨ c.relation.fieldType? e.2 = some .integer)
  keyed : ¬ (c.PlansGenerally q ∧ c.config.usesWindowFunctions = true) → c.WritesKeys q
  filter : ∀ f, q.filter = some f → f.IsAskable c.relation

theorem sortsSimply_iff : c.SortsSimply q ↔ ∃ s, (q.order c.relation).singleAscending? = some s ∧
    (s.type = .integer ∨ s.type = .uuid) ∧ (c.native = true → (q.order c.relation).isKeyOnly = true) := by
  have types (f : OrderField) : (c.relation.sortField f).type = .integer ∨ (c.relation.sortField f).type = .uuid ↔
      c.relation.fieldType? f.field = some .integer ∨ c.relation.fieldType? f.field = some .uuid := by
    rw [Relation.type_sortField_iff (by decide), Relation.type_sortField_iff (by decide)]
  have key (f : OrderField) (single : q.criteria c.relation = [f]) (ascending : f.direction = .ascending) :
      q.criteria c.relation = [⟨c.relation.key, .ascending⟩] ↔ f.field = c.relation.key := by
    rw [single, List.singleton_inj, OrderField.mk.injEq, and_iff_left ascending]
  rw [SortsSimply]
  simp only [Request.singleAscending?_order, Request.isKeyOnly_order]
  constructor
  · rintro ⟨f, single, ascending, type, only⟩
    exact ⟨_, ⟨f, single, ascending, rfl⟩, (types f).mpr type, fun native => (key f single ascending).mpr (only native)⟩
  · rintro ⟨_, ⟨f, single, ascending, rfl⟩, type, only⟩
    exact ⟨f, single, ascending, (types f).mp type, fun native => (key f single ascending).mp (only native)⟩

theorem select_eq_general_iff {ancestors : List AncestorField}
    (same : ancestors.isEmpty = q.ancestorFields.toList.isEmpty) :
    Strategy.select (q.order c.relation) q.isFiltered (!ancestors.isEmpty) c.native = .general ↔ c.PlansGenerally q := by
  have simple : Strategy.select (q.order c.relation) q.isFiltered (!ancestors.isEmpty) c.native = .simple ↔
      ¬ c.PlansGenerally q := by
    rw [Strategy.select_eq_simple_iff, ← sortsSimply_iff, same, PlansGenerally]
    simp [List.isEmpty_iff]
  cases plan : Strategy.select (q.order c.relation) q.isFiltered (!ancestors.isEmpty) c.native with
  | simple => simp [simple.mp plan]
  | general =>
    have general : ¬ ¬ c.PlansGenerally q := fun no => by
      rw [simple.mpr no] at plan
      cases plan
    simp [not_not.mp general]

theorem exists_keySource_iff {ranked : Bool} :
    (∃ k, c.keySource (q.order c.relation) ranked = .ok k) ↔ (ranked = false → c.WritesKeys q) := by
  rw [keySource]
  cases ranked with
  | true => simp
  | false =>
    rw [if_neg Bool.false_ne_true, SiblingOrder.exists_rawKey_iff, Request.isKeyOnly_order, WritesKeys, Request.order,
      List.forall_mem_map]
    simp only [SortField.isWritable_sortField, forall_const]

theorem areWritable_keySource {order : SiblingOrder} {ranked : Bool} {key : KeySource}
    (made : c.keySource order ranked = .ok key) : AreWritable c.config.dialect c.native key.parts := by
  rw [keySource] at made
  split at made
  · cases made
    exact areWritable_single c.config.dialect c.native _ 0 .integer
  · exact SiblingOrder.areWritable_rawKey made

/-- A request that is not filtered has no condition that could be refused. -/
theorem isAskable_of_not_isFiltered (free : q.isFiltered = false) :
    ∀ f, q.filter = some f → f.IsAskable c.relation := by
  intro f given
  rw [Request.isFiltered, given, Option.any_some, Bool.not_eq_false', PreFilter.isEmpty, Bool.and_eq_true,
    List.isEmpty_iff, List.isEmpty_iff] at free
  rw [PreFilter.IsAskable, free.1, free.2]
  exact List.forall_mem_nil _

/-- A checked filter is the filter as it is written; without a filter there are no clauses. -/
theorem checkFilter_eq_ok_iff {r : Relation} {filter : Option PreFilter} {clauses : Clauses} :
    checkFilter r filter = .ok clauses ↔
      (∀ f, filter = some f → f.IsAskable r) ∧ (filter.map PreFilter.clauses).getD .none = clauses := by
  cases filter with
  | none => simp [checkFilter]
  | some f =>
    simp only [checkFilter, Option.some.injEq, forall_eq', Option.map_some, Option.getD_some]
    cases checked : f.check r with
    | error refusal => simp [Outcome.not_of_eq_error PreFilter.check_eq_ok_iff checked]
    | ok checkedClauses =>
      obtain ⟨askable, rfl⟩ := PreFilter.check_eq_ok_iff.mp checked
      simp [askable]

theorem exists_checkFilter_iff {r : Relation} {filter : Option PreFilter} :
    (∃ clauses, checkFilter r filter = .ok clauses) ↔ ∀ f, filter = some f → f.IsAskable r := by
  simp only [checkFilter_eq_ok_iff, exists_and_left, exists_eq', and_true]

theorem exists_scope_iff {order : SiblingOrder} {strategy : Strategy} {ranked : Bool} :
    (∃ s, c.scope q order strategy ranked = .ok s) ↔
      (strategy = .general → ∀ f, q.filter = some f → f.IsAskable c.relation) := by
  cases strategy with
  | simple => simp [scope]
  | general =>
    simp only [scope, Outcome.map_eq_ok_iff, forall_const, ← exists_checkFilter_iff]
    constructor
    · rintro ⟨_, clauses, checked, rfl⟩
      exact ⟨clauses, checked⟩
    · rintro ⟨clauses, checked⟩
      exact ⟨_, clauses, checked, rfl⟩

theorem exists_ancestorElements {enc : Encoding} {textWidth : Nat} (as : List AncestorField) :
    ∃ els, ancestorElements enc textWidth as = .ok els := by
  have each : ∀ a ∈ as, ∃ el : AncestorField × Element,
      el.1 = a ∧ enc.element [a.part Statement.source textWidth] = .ok el.2 := fun a _ => by
    obtain ⟨el, made⟩ := Encoding.exists_element
      (areWritable_single enc.dialect enc.native (.reference (.column Statement.source a.source)) textWidth a.sourceType)
    exact ⟨(a, el), rfl, made⟩
  obtain ⟨els, made⟩ := Outcome.exists_forall₂ each
  exact ⟨els, ancestorElements_eq_ok_iff.mpr made⟩

/-- Once a request has been checked, its levels can be written. -/
theorem exists_elements {order : SiblingOrder} {ranked : Bool} {key : KeySource}
    (made : c.keySource order ranked = .ok key) (maxDepth : Nat) (as : List AncestorField) :
    (∃ el, (Encoding.mk c.config.dialect c.native maxDepth).element
      [⟨.reference (.column Statement.source c.relation.key), pathKind c.relation⟩] = .ok el) ∧
    (∃ el, (Encoding.mk c.config.dialect c.native maxDepth).element key.parts = .ok el) ∧
    ∃ els, ancestorElements (Encoding.mk c.config.dialect c.native maxDepth) c.config.textWidth as = .ok els :=
  ⟨Encoding.exists_element (areWritable_single c.config.dialect c.native _ 0 c.relation.keyType),
    Encoding.exists_element (areWritable_keySource made), exists_ancestorElements as⟩

theorem fails_compile : Outcome.Fails Error.IsRefusal (c.compile q) := by
  have limit : Outcome.Fails Error.IsRefusal (c.depthLimit q) := by
    rw [depthLimit]
    split
    · exact Outcome.fails_error rfl
    · exact Outcome.fails_ok
  have resolved : Outcome.Fails Error.IsRefusal (SiblingOrder.resolve c.relation q.ordering) :=
    Outcome.fails_bind SiblingOrder.fails_resolveFields fun fields => Outcome.fails_ok
  have scopes (order : SiblingOrder) (strategy : Strategy) (ranked : Bool) :
      Outcome.Fails Error.IsRefusal (c.scope q order strategy ranked) := by
    cases strategy with
    | simple => exact Outcome.fails_ok
    | general => exact Outcome.fails_map (fails_checkFilter q.filter)
  rw [compile]
  refine Outcome.fails_bind limit fun maxDepth => Outcome.fails_bind resolved fun order =>
    Outcome.fails_bind AncestorField.fails_checkAll fun ancestors =>
    Outcome.fails_bind_of_eq fails_keySource fun key made => Outcome.fails_bind (scopes _ _ _) fun scope => ?_
  obtain ⟨⟨path, pathOk⟩, ⟨ordering, orderingOk⟩, elements, elementsOk⟩ := exists_elements made maxDepth ancestors
  exact Outcome.fails_bind (Outcome.fails_of_eq_ok pathOk) fun _ =>
    Outcome.fails_bind (Outcome.fails_of_eq_ok orderingOk) fun _ =>
    Outcome.fails_bind (Outcome.fails_of_eq_ok elementsOk) fun _ => Outcome.fails_ok

theorem collectable_iff {type : FieldType} : AncestorField.isCollectable type = true ↔ type = .text ∨ type = .integer := by
  cases type <;> simp [AncestorField.isCollectable]

theorem exists_resolve_iff : (∃ as, AncestorField.resolve c.relation q.ancestorFields = .ok as) ↔
    ∀ e ∈ q.ancestorFields.toList, Identifier.isIdentifier e.1 = true ∧
      (c.relation.fieldType? e.2 = some .text ∨ c.relation.fieldType? e.2 = some .integer) := by
  rw [AncestorField.resolve, AncestorField.exists_checkAll_iff]
  refine forall₂_congr fun e _ => and_congr_right fun _ => ?_
  simp only [collectable_iff]
  constructor
  · rintro ⟨type, known, rfl | rfl⟩
    · exact Or.inl known
    · exact Or.inr known
  · rintro (known | known)
    · exact ⟨_, known, Or.inl rfl⟩
    · exact ⟨_, known, Or.inr rfl⟩

theorem ranked_iff {out : Compiled} (compiled : c.compile q = .ok out) :
    out.ranked = true ↔ c.PlansGenerally q ∧ c.config.usesWindowFunctions = true := by
  obtain ⟨order, ancestors, key, compiles⟩ := compile_eq_ok compiled
  obtain ⟨-, rfl⟩ := Request.resolve_eq_ok_iff.1 compiles.resolved
  rw [compiles.ranked, compiles.strategy, Bool.and_eq_true, beq_iff_eq,
    select_eq_general_iff (AncestorField.isEmpty_of_checkAll compiles.collected)]

end Compiler

end ForestQuery
