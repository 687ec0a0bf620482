import ForestQuery.Compiler
import ForestQuery.Proofs.Encoding
/-!
What a compiled request consists of. Main statements: everything that compiling a request decides, and the
rows that take part are those that its filter admits, whatever the plan.
-/

namespace ForestQuery

/-- Whether a row takes part in a request. -/
def Request.keeps (q : Request) (relation : Relation) (r : Record) : Bool :=
  match Compiler.checkFilter relation q.filter with
  | .ok clauses => clauses.admits (Statement.view r)
  | .error _ => false

/-- Where a dialect has no arrays, columns are texts. -/
theorem Config.eq_false_of_usesNativeArrays {config : Config} {native : Bool}
    (without : config.dialect.capabilities.arrays = false) (settled : config.usesNativeArrays = .ok native) :
    native = false := by
  rw [usesNativeArrays, without] at settled
  split at settled
  · cases settled
    rfl
  · cases settled
    rfl
  · cases settled

namespace Compiler

/-- What compiling a request has decided: the order of siblings, the ancestor fields, the key of a level,
and a statement and a layout made of these. -/
structure Compiles (c : Compiler) (q : Request) (out : Compiled) (order : SiblingOrder)
    (ancestors : List AncestorField) (key : KeySource) : Prop where
  limit : out.maxDepth = q.maxDepth.getD c.config.maxDepth
  positive : 0 < out.maxDepth
  resolved : SiblingOrder.resolve c.relation q.ordering = .ok order
  collected : AncestorField.resolve c.relation q.ancestorFields = .ok ancestors
  strategy : out.strategy = Strategy.select order q.isFiltered (!ancestors.isEmpty) c.native
  ranked : out.ranked = (out.strategy == .general && c.config.usesWindowFunctions)
  keyed : c.keySource order out.ranked = .ok key
  relation : out.statement.relation = c.relation
  encoding : out.statement.encoding = ⟨c.config.dialect, c.native, out.maxDepth⟩
  scope : c.scope q order out.strategy out.ranked = .ok out.statement.scope
  path : out.statement.encoding.element
    [⟨.reference (.column Statement.source c.relation.key), pathKind c.relation⟩] = .ok out.statement.path
  ordering : out.statement.encoding.element key.parts = .ok out.statement.ordering
  elements : List.Forall₂ (fun a el => el.1 = a ∧
    out.statement.encoding.element [a.part Statement.source c.config.textWidth] = .ok el.2)
    ancestors out.statement.ancestors
  layout : out.layout = c.layout key ancestors

theorem ancestorElements_eq_ok_iff {enc : Encoding} {textWidth : Nat} {as : List AncestorField}
    {els : List (AncestorField × Element)} :
    ancestorElements enc textWidth as = .ok els ↔
      List.Forall₂ (fun a el => el.1 = a ∧ enc.element [a.part Statement.source textWidth] = .ok el.2) as els := by
  induction as generalizing els with
  | nil => cases els <;> simp [ancestorElements]
  | cons a as ih =>
    simp only [ancestorElements, Outcome.bind_eq_ok_iff, Outcome.pure_eq_ok_iff, List.forall₂_cons_left_iff, ih]
    constructor
    · rintro ⟨el, first, rest, others, rfl⟩
      exact ⟨(a, el), rest, ⟨rfl, first⟩, others, rfl⟩
    · rintro ⟨⟨_, el⟩, rest, ⟨rfl, first⟩, others, rfl⟩
      exact ⟨el, first, rest, others, rfl⟩

theorem depthLimit_eq_ok_iff {c : Compiler} {q : Request} {n : Nat} :
    c.depthLimit q = .ok n ↔ 0 < n ∧ n = q.maxDepth.getD c.config.maxDepth := by
  rw [depthLimit]
  split
  · rename_i zero
    constructor
    · intro failed
      cases failed
    · rintro ⟨positive, rfl⟩
      omega
  · rename_i nonzero
    constructor
    · intro same
      cases same
      exact ⟨Nat.pos_of_ne_zero nonzero, rfl⟩
    · rintro ⟨-, rfl⟩
      rfl

theorem compile_eq_ok {c : Compiler} {q : Request} {out : Compiled} (h : c.compile q = .ok out) :
    ∃ order ancestors key, c.Compiles q out order ancestors key := by
  rw [compile] at h
  obtain ⟨maxDepth, limit, h⟩ := Outcome.bind_eq_ok_iff.mp h
  obtain ⟨order, orderOk, h⟩ := Outcome.bind_eq_ok_iff.mp h
  obtain ⟨ancestors, ancestorsOk, h⟩ := Outcome.bind_eq_ok_iff.mp h
  obtain ⟨key, keyOk, h⟩ := Outcome.bind_eq_ok_iff.mp h
  obtain ⟨scope, scopeOk, h⟩ := Outcome.bind_eq_ok_iff.mp h
  obtain ⟨path, pathOk, h⟩ := Outcome.bind_eq_ok_iff.mp h
  obtain ⟨ordering, orderingOk, h⟩ := Outcome.bind_eq_ok_iff.mp h
  obtain ⟨elements, elementsOk, h⟩ := Outcome.bind_eq_ok_iff.mp h
  obtain ⟨positive, rfl⟩ := depthLimit_eq_ok_iff.mp limit
  cases h
  exact ⟨order, ancestors, key, {
    limit := rfl
    positive
    resolved := orderOk
    collected := ancestorsOk
    strategy := rfl
    ranked := rfl
    keyed := keyOk
    relation := rfl
    encoding := rfl
    scope := scopeOk
    path := pathOk
    ordering := orderingOk
    elements := ancestorElements_eq_ok_iff.mp elementsOk
    layout := rfl }⟩

theorem keeps_of_not_isFiltered {q : Request} (relation : Relation) (free : q.isFiltered = false) (r : Record) :
    q.keeps relation r = true := by
  rw [Request.keeps]
  cases filter : q.filter with
  | none => rfl
  | some p =>
    rw [Request.isFiltered, filter, Option.any_some, Bool.not_eq_false', PreFilter.isEmpty, Bool.and_eq_true,
      List.isEmpty_iff, List.isEmpty_iff] at free
    have shape : p = ⟨[], []⟩ := by
      obtain ⟨keep, drop⟩ := p
      rw [PreFilter.mk.injEq]
      exact free
    rw [shape]
    rfl

variable {c : Compiler} {q : Request} {out : Compiled} {order : SiblingOrder} {ancestors : List AncestorField}
  {key : KeySource}

/-- A compiler for the dialect that is run here, with columns of fixed width. -/
structure IsRunnable (c : Compiler) : Prop where
  dialect : c.config.dialect = .sqlite
  native : c.native = false
  textWidth : c.config.textWidth ≤ maxTextWidth

theorem encoding_eq (compiles : c.Compiles q out order ancestors key) (runnable : c.IsRunnable) :
    out.statement.encoding = ⟨.sqlite, false, out.maxDepth⟩ := by
  rw [compiles.encoding, runnable.dialect, runnable.native]

theorem isFiltered_of_simple (compiles : c.Compiles q out order ancestors key) (simple : out.strategy = .simple) :
    q.isFiltered = false := by
  have selected := compiles.strategy
  rw [simple, Strategy.select] at selected
  by_contra filtered
  rw [Bool.not_eq_false] at filtered
  rw [if_pos (by rw [filtered, Bool.true_or])] at selected
  cases selected

/-- A simple plan walks over the table, a general one over the rows that pass the checked filter. -/
theorem scope_cases (compiles : c.Compiles q out order ancestors key) :
    (out.strategy = .simple ∧ out.statement.scope = .table) ∨
    (out.strategy = .general ∧ ∃ filter, checkFilter c.relation q.filter = .ok filter ∧
      out.statement.scope = .filtered filter (if out.ranked then some (order.rankTerms Statement.base) else none)) := by
  have scope := compiles.scope
  unfold Compiler.scope at scope
  split at scope
  · rename_i simple
    exact Or.inl ⟨simple, (Except.ok.inj scope).symm⟩
  · rename_i general
    obtain ⟨filter, checked, shape⟩ := Outcome.map_eq_ok_iff.mp scope
    exact Or.inr ⟨general, filter, checked, shape.symm⟩

theorem scope_of_ranked (compiles : c.Compiles q out order ancestors key) (ranked : out.ranked = true) :
    ∃ filter, out.statement.scope = .filtered filter (some (order.rankTerms Statement.base)) := by
  have general := compiles.ranked
  rw [ranked, eq_comm, Bool.and_eq_true, beq_iff_eq] at general
  obtain ⟨simple, -⟩ | ⟨-, filter, -, shape⟩ := scope_cases compiles
  · rw [simple] at general
    cases general.1
  · exact ⟨filter, by rw [shape, if_pos ranked]⟩

/-- The rows that take part are those that the request keeps. -/
theorem kept_eq (compiles : c.Compiles q out order ancestors key) (records : List Record) :
    out.statement.kept records = records.filter (q.keeps c.relation) := by
  obtain ⟨simple, shape⟩ | ⟨-, filter, checked, shape⟩ := scope_cases compiles
  · have all : ∀ r ∈ records, q.keeps c.relation r = true := fun r _ =>
      keeps_of_not_isFiltered c.relation (isFiltered_of_simple compiles simple) r
    simp only [Statement.kept, shape]
    exact (List.filter_eq_self.mpr all).symm
  · simp only [Statement.kept, shape]
    refine List.filter_congr fun r _ => ?_
    rw [Request.keeps, checked]

end Compiler

end ForestQuery
