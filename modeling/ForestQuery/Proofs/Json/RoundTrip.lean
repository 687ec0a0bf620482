import ForestQuery.Json.Encode
import ForestQuery.Proofs.Json.Number
/-!
Requests, settings and relations written as JSON and read back. Main statement: a request without reals among the
values of its conditions is what its text is read as, and so are settings and relations.
-/

namespace ForestQuery

namespace NameMap

variable {α : Type}

theorem insertEntry_of_greatest {name : String} (x : α) {entries : List (String × α)}
    (greatest : ∀ e ∈ entries, e.1 < name) : insertEntry name x entries = entries ++ [(name, x)] := by
  induction entries with
  | nil => rfl
  | cons e rest ih =>
    obtain ⟨below, others⟩ := List.forall_mem_cons.mp greatest
    rw [insertEntry, if_neg (String.lt_asymm below), if_neg fun same => String.lt_irrefl _ (same ▸ below),
      ih others, List.cons_append]

theorem ofList_toList (m : NameMap α) : ofList m.toList = m := by
  -- What was inserted so far is the front of the entries, and whatever follows comes behind all of it.
  have whole (rest : List (String × α)) (front : NameMap α)
      (sorted : (front.entries ++ rest).Pairwise fun a b => a.1 < b.1) :
      (rest.foldl (fun m e => m.insert e.1 e.2) front).entries = front.entries ++ rest := by
    induction rest generalizing front with
    | nil => exact (List.append_nil _).symm
    | cons e rest ih =>
      have greatest : ∀ f ∈ front.entries, f.1 < e.1 :=
        fun f member => (List.pairwise_append.mp sorted).2.2 f member e List.mem_cons_self
      have next : (front.insert e.1 e.2).entries = front.entries ++ [e] := insertEntry_of_greatest e.2 greatest
      rw [List.foldl_cons, ih, next, List.append_assoc, List.singleton_append]
      rw [next, List.append_assoc, List.singleton_append]
      exact sorted
  exact ext_entries (whole m.entries empty m.sorted)

end NameMap

namespace Json

variable {α : Type} {write : α → Json} {read : Json → Option α}

/-- Whether what is written for `x` has a text and is read as `x`. -/
structure Restores (write : α → Json) (read : Json → Option α) (x : α) : Prop where
  readable : (write x).IsReadable
  reads : read (write x) = some x

theorem Restores.ofText? {x : α} (restores : Restores write read x) : (ofText? (write x).text).bind read = some x := by
  rw [ofText?_text restores.readable, Option.bind_some, restores.reads]

theorem mapM_map {β γ : Type} {f : α → β} {g : β → Option γ} {h : α → γ} {xs : List α}
    (each : ∀ x ∈ xs, g (f x) = some (h x)) : (xs.map f).mapM g = some (xs.map h) := by
  induction xs with
  | nil => rfl
  | cons x xs ih =>
    obtain ⟨first, others⟩ := List.forall_mem_cons.mp each
    rw [List.map_cons, List.mapM_cons, first, ih others]
    rfl

theorem Restores.list {xs : List α} (each : ∀ x ∈ xs, Restores write read x) :
    Restores (fun xs => .array (xs.map write)) (listOf? read) xs where
  readable := .array (List.forall_mem_map.mpr fun x member => (each x member).readable)
  reads := by
    have items := mapM_map fun x member => (each x member).reads
    rwa [List.map_id'] at items

theorem Restores.nameMap {m : NameMap α} (each : ∀ e ∈ m.toList, Restores write read e.2) :
    Restores (NameMap.json write) (mapOf? read) m where
  readable := .object (List.forall_mem_map.mpr fun e member => (each e member).readable)
  reads := by
    have items : (m.toList.map fun e => (e.1, write e.2)).mapM (fun e => (read e.2).map (e.1, ·)) =
        some (m.toList.map fun e => (e.1, e.2)) :=
      mapM_map fun e member => by rw [(each e member).reads, Option.map_some]
    show ((m.toList.map fun e => (e.1, write e.2)).mapM fun e => (read e.2).map (e.1, ·)).map NameMap.ofList = some m
    rw [items, List.map_id', Option.map_some, NameMap.ofList_toList]

/-- What is absent is read as absent, from a member that is not there. -/
theorem optional_map {o : Option α} (each : ∀ x ∈ o, Restores write read x) (present : ∀ x, write x ≠ null) :
    optional read (o.map write) = some o := by
  cases o with
  | none => rfl
  | some x =>
    rw [Option.map_some, optional]
    · rw [(each x rfl).reads, Option.map_some]
    · exact present x

theorem isReadable_member {name : String} {o : Option α} (each : ∀ x ∈ o, Restores write read x) :
    ∀ m ∈ member name write o, m.2.IsReadable := by
  cases o with
  | none => exact List.forall_mem_nil _
  | some x => exact List.forall_mem_singleton.mpr (each x rfl).readable

theorem restores_string (s : String) : Restores string text? s := ⟨.string s, rfl⟩

theorem restores_bool (b : Bool) : Restores bool bool? b := ⟨.bool b, rfl⟩

theorem restores_ofNat {bound n : Nat} (small : n < bound) (word : bound ≤ 18446744073709551616) :
    Restores ofNat (nat? bound) n :=
  ⟨isReadable_ofNat n, nat?_ofNat small word⟩

end Json

open Json

/-- Whether a value is no real, and so is written exactly. -/
def Value.IsExact (v : Value) : Prop := ∀ x, v ≠ .real x

def Condition.IsExact (c : Condition) : Prop := ∀ v ∈ c.values, v.IsExact

theorem Value.restores {v : Value} (exact : v.IsExact) : Restores json ofJson? v := by
  cases v with
  | null => exact ⟨.null, rfl⟩
  | integer i =>
    have read : numeric? (Text.integerChars i.toInt) = some (.integer i.toInt) := by
      have lower := i.le_toInt
      have upper := i.toInt_lt
      exact numeric?_integerChars lower (by omega)
    refine ⟨isReadable_ofInt _, ?_⟩
    simp only [json, ofInt, ofJson?, read, Text.int64?_toInt]
  | real x => exact absurd rfl (exact x)
  | text s => exact ⟨.string s, rfl⟩
  | blob bytes =>
    have items : (bytes.map fun b => ofNat b.toNat).mapM (nat? 256) = some (bytes.map UInt8.toNat) :=
      mapM_map fun b _ => nat?_ofNat b.toNat_lt (by decide)
    refine ⟨.array (List.forall_mem_map.mpr fun b _ => isReadable_ofNat _), ?_⟩
    simp only [json, ofJson?, items, Option.map_some, List.map_map, Function.comp_def, UInt8.ofNat_toNat, List.map_id']

theorem Operator.ofName?_name (o : Operator) : ofName? o.name = some o := by
  cases o with
  | compare c => cases c <;> rfl
  | _ => rfl

theorem Direction.ofName?_name (d : Direction) : ofName? d.name = some d := by cases d <;> rfl

theorem Condition.restores {c : Condition} (exact : c.IsExact) : Restores json ofJson? c := by
  obtain ⟨field, operator, values⟩ := c
  have listed := Restores.list fun v member => Value.restores (exact v member)
  have fields : fields? ["field", "op", "values"] (Condition.mk field operator values).json =
      some [some (.string field), some (.string operator.name), some (.array (values.map Value.json))] := rfl
  constructor
  · refine .object ?_
    simp only [List.forall_mem_cons]
    exact ⟨.string _, .string _, listed.readable, List.forall_mem_nil _⟩
  · simp only [ofJson?, fields, required, withDefault, Option.bind_some, text?, constant?, Operator.ofName?_name,
      listed.reads, Option.bind_eq_bind, Option.pure_def]

theorem PreFilter.restores {f : PreFilter} (exact : ∀ clause ∈ f.keep ++ f.drop, ∀ c ∈ clause, c.IsExact) :
    Restores json ofJson? f := by
  obtain ⟨keep, drop⟩ := f
  rw [List.forall_mem_append] at exact
  have clauses {cs : List (List Condition)} (exact : ∀ clause ∈ cs, ∀ c ∈ clause, c.IsExact) :=
    Restores.list fun clause inside => Restores.list fun c member => Condition.restores (exact clause inside c member)
  have fields : fields? ["include", "exclude"] (PreFilter.mk keep drop).json =
      some [some (.array (keep.map fun c => .array (c.map Condition.json))),
        some (.array (drop.map fun c => .array (c.map Condition.json)))] := rfl
  constructor
  · refine .object ?_
    simp only [List.forall_mem_cons]
    exact ⟨(clauses exact.1).readable, (clauses exact.2).readable, List.forall_mem_nil _⟩
  · simp only [ofJson?, fields, withDefault, (clauses exact.1).reads, (clauses exact.2).reads, Option.bind_some,
      Option.bind_eq_bind, Option.pure_def]

theorem OrderField.restores (f : OrderField) : Restores json ofJson? f := by
  obtain ⟨field, direction⟩ := f
  have fields : fields? ["field", "direction"] (OrderField.mk field direction).json =
      some [some (.string field), some (.string direction.name)] := rfl
  constructor
  · refine .object ?_
    simp only [List.forall_mem_cons]
    exact ⟨.string _, .string _, List.forall_mem_nil _⟩
  · simp only [ofJson?, fields, required, withDefault, Option.bind_some, text?, constant?, Direction.ofName?_name,
      Option.bind_eq_bind, Option.pure_def]

/-- Whether no condition of the request has a real among its values, and its depth limit is a number of 32 bits. -/
structure Request.IsPlain (q : Request) : Prop where
  exact : ∀ f ∈ q.filter, ∀ clause ∈ f.keep ++ f.drop, ∀ c ∈ clause, c.IsExact
  depth : ∀ n ∈ q.maxDepth, n < Config.depthBound

theorem Request.restores {q : Request} (plain : q.IsPlain) : Restores json ofJson? q := by
  obtain ⟨filter, ordering, ancestorFields, maxDepth⟩ := q
  have sorted := Restores.list fun f (_ : f ∈ ordering) => f.restores
  have ancestors := Restores.nameMap fun e (_ : e ∈ ancestorFields.toList) => restores_string e.2
  have filtered : ∀ f ∈ filter, Restores PreFilter.json PreFilter.ofJson? f :=
    fun f known => PreFilter.restores (plain.exact f known)
  have limited : ∀ n ∈ maxDepth, Restores ofNat (nat? Config.depthBound) n :=
    fun n known => restores_ofNat (plain.depth n known) (by decide)
  have fields : fields? ["pre_filter", "ordering", "ancestor_fields", "max_depth"]
      (Request.mk filter ordering ancestorFields maxDepth).json =
      some [filter.map PreFilter.json, some (.array (ordering.map OrderField.json)),
        some (ancestorFields.json .string), maxDepth.map ofNat] := by
    cases filter <;> cases maxDepth <;> rfl
  constructor
  · refine .object ?_
    simp only [List.forall_mem_append, List.forall_mem_cons]
    exact ⟨⟨isReadable_member filtered, sorted.readable, ancestors.readable, List.forall_mem_nil _⟩,
      isReadable_member limited⟩
  · simp only [ofJson?, fields, optional_map filtered fun _ => nofun, optional_map limited fun _ => nofun, withDefault,
      sorted.reads, ancestors.reads, Option.bind_some, Option.bind_eq_bind, Option.pure_def]

/-- Whether the numbers of the settings have 32 and 64 bits. -/
structure Config.IsSized (c : Config) : Prop where
  depth : c.maxDepth < depthBound
  text : c.textWidth < SegmentKind.widthBound
  key : c.keyBytes < SegmentKind.widthBound

theorem Config.restores {c : Config} (sized : c.IsSized) : Restores json ofJson? c := by
  obtain ⟨dialect, maxDepth, encoding, windowFunctions, textWidth, keyBytes, warn⟩ := c
  have depth := restores_ofNat sized.depth (by decide)
  have text := restores_ofNat sized.text (by decide)
  have key := restores_ofNat sized.key (by decide)
  have numbered := fun b (_ : b ∈ windowFunctions) => restores_bool b
  have fields : fields? ["dialect", "max_depth", "encoding", "window_functions", "text_width", "key_bytes",
      "warn_multi_field_ordering"]
      (Config.mk dialect maxDepth encoding windowFunctions textWidth keyBytes warn).json =
      some [some (.string dialect.name), some (ofNat maxDepth), some (.string encoding.name),
        windowFunctions.map .bool, some (ofNat textWidth), some (ofNat keyBytes), some (.bool warn)] := by
    cases windowFunctions <;> rfl
  constructor
  · refine .object ?_
    simp only [List.forall_mem_append, List.forall_mem_cons]
    exact ⟨⟨⟨.string _, depth.readable, .string _, List.forall_mem_nil _⟩, isReadable_member numbered⟩, text.readable,
      key.readable, .bool _, List.forall_mem_nil _⟩
  · simp only [ofJson?, fields, optional_map numbered fun _ => nofun, withDefault, constant?, Dialect.ofName?_name,
      EncodingMode.ofName?_name, depth.reads, text.reads, key.reads, bool?, Option.bind_some, Option.bind_eq_bind,
      Option.pure_def]

theorem Field.restores (f : Field) : Restores json ofJson? f := by
  obtain ⟨name, type⟩ := f
  have fields : fields? ["name", "field_type"] (Field.mk name type).json =
      some [some (.string name), some (.string type.name)] := rfl
  constructor
  · refine .object ?_
    simp only [List.forall_mem_cons]
    exact ⟨.string _, .string _, List.forall_mem_nil _⟩
  · simp only [ofJson?, fields, required, Option.bind_some, text?, constant?, FieldType.ofName?_name,
      Option.bind_eq_bind, Option.pure_def]

namespace Relation

/-- Nothing is asked of the names of a relation that is read. -/
theorem restores (r : Relation) : Restores json ofJson? r := by
  obtain ⟨table, key, keyType, parent, fields⟩ := r
  have listed := Restores.list fun f (_ : f ∈ fields) => f.restores
  have read : fields? ["table", "pk", "pk_type", "parent", "fields"]
      (Relation.mk table key keyType parent fields).json = some [some (.string table), some (.string key),
        some (.string keyType.name), some (.string parent), some (.array (fields.map Field.json))] := rfl
  constructor
  · refine .object ?_
    simp only [List.forall_mem_cons]
    exact ⟨.string _, .string _, .string _, .string _, listed.readable, List.forall_mem_nil _⟩
  · simp only [ofJson?, read, required, Option.bind_some, text?, constant?, FieldType.ofName?_name, listed.reads,
      Option.bind_eq_bind, Option.pure_def]

theorem ofJson?_ofText? (r : Relation) : (Json.ofText? r.json.text).bind ofJson? = some r := r.restores.ofText?

end Relation

/-- A value that is no real, a request that is plain, settings of 32 and 64 bits, and any relation are read back from
their text: a value as one of the same kind, what is absent as absent. -/
theorem ofJson?_written :
    (∀ v : Value, v.IsExact → (Json.ofText? v.json.text).bind Value.ofJson? = some v) ∧
    (∀ q : Request, q.IsPlain → (Json.ofText? q.json.text).bind Request.ofJson? = some q) ∧
    (∀ c : Config, c.IsSized → (Json.ofText? c.json.text).bind Config.ofJson? = some c) ∧
    ∀ r : Relation, (Json.ofText? r.json.text).bind Relation.ofJson? = some r :=
  ⟨fun _ exact => (Value.restores exact).ofText?, fun _ plain => (Request.restores plain).ofText?,
    fun _ sized => (Config.restores sized).ofText?, Relation.ofJson?_ofText?⟩

/-- A request with values of each kind that can look like another one, and with names that need escapes. -/
def guardedRequest : Request :=
  ⟨some ⟨[[⟨"a\"b", .member, [.null, .integer Int64.minValue, .text "12", .blob [], .blob [0, 255]]⟩]], [[]]⟩,
    [⟨"\\", .descending⟩], .ofList [("é\u0000", "\n")], some 0⟩

theorem ofJson?_written_guardedRequest :
    (Json.ofText? (Value.blob []).json.text).bind Value.ofJson? = some (.blob []) ∧
    (Json.ofText? guardedRequest.json.text).bind Request.ofJson? = some guardedRequest ∧
    (Json.ofText? (Request.json ⟨some ⟨[], []⟩, [], .empty, none⟩).text).bind Request.ofJson? =
      some ⟨some ⟨[], []⟩, [], .empty, none⟩ ∧
    (Json.ofText? Config.default.json.text).bind Config.ofJson? = some .default := by
  obtain ⟨value, request, settings, -⟩ := ofJson?_written
  refine ⟨value _ fun _ => nofun, request _ ⟨?_, ?_⟩, request _ ⟨?_, nofun⟩, settings _ ⟨by decide, by decide, by decide⟩⟩
  · simp [guardedRequest, Condition.IsExact, Value.IsExact]
  · rintro n ⟨⟩
    decide
  · rintro f ⟨⟩ clause inside
    exact absurd inside List.not_mem_nil

end ForestQuery
