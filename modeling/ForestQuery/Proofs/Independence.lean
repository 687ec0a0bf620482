import ForestQuery.Compiler
import ForestQuery.Proofs.Outcome
/-!
What of a request reaches the text of its statement. Main statement: two requests that differ in the values of their
conditions only are both refused with one failure, or have one statement, read in one way, to which values are bound
that stand in the same places of both requests.
-/

namespace ForestQuery

/-- Whether two conditions differ in their values only, and have absent values in the same places. -/
structure Condition.SameShape (c c' : Condition) : Prop where
  field : c.field = c'.field
  operator : c.operator = c'.operator
  values : List.Forall₂ (fun v v' => v.isNull = v'.isNull) c.values c'.values

structure PreFilter.SameShape (f f' : PreFilter) : Prop where
  keep : List.Forall₂ (List.Forall₂ Condition.SameShape) f.keep f'.keep
  drop : List.Forall₂ (List.Forall₂ Condition.SameShape) f.drop f'.drop

/-- Whether two requests differ in the values of their conditions only. -/
structure Request.SameShape (q q' : Request) : Prop where
  filter : Option.Rel PreFilter.SameShape q.filter q'.filter
  ordering : q.ordering = q'.ordering
  ancestorFields : q.ancestorFields = q'.ancestorFields
  maxDepth : q.maxDepth = q'.maxDepth

/-- The values that are given in conditions, one after the other. -/
def Condition.allValues (cs : List Condition) : List Value := cs.flatMap Condition.values

/-- The values that are given in all conditions, those of clauses to keep by first. -/
def PreFilter.allValues (f : PreFilter) : List Value :=
  f.keep.flatMap Condition.allValues ++ f.drop.flatMap Condition.allValues

def Request.allValues (q : Request) : List Value := (q.filter.map PreFilter.allValues).getD []

/-- Whether values were taken from the same places of two lists of given ones. -/
structure SamePlaces (given given' taken taken' : List Value) : Prop where
  sameGiven : given.length = given'.length
  sameTaken : taken.length = taken'.length
  places : (taken.zip taken').Sublist (given.zip given')

namespace SamePlaces

variable {given given' taken taken' : List Value}

theorem all (same : given.length = given'.length) : SamePlaces given given' given given' := ⟨same, same, .refl _⟩

theorem none (same : given.length = given'.length) : SamePlaces given given' [] [] := ⟨same, rfl, List.nil_sublist _⟩

theorem append {given₂ given₂' taken₂ taken₂' : List Value} (first : SamePlaces given given' taken taken')
    (rest : SamePlaces given₂ given₂' taken₂ taken₂') :
    SamePlaces (given ++ given₂) (given' ++ given₂') (taken ++ taken₂) (taken' ++ taken₂') where
  sameGiven := by rw [List.length_append, List.length_append, first.sameGiven, rest.sameGiven]
  sameTaken := by rw [List.length_append, List.length_append, first.sameTaken, rest.sameTaken]
  places := by
    rw [List.zip_append first.sameTaken, List.zip_append first.sameGiven]
    exact first.places.append rest.places

end SamePlaces

/-- Whether two things are written alike in every dialect, with values from the same places. -/
structure WrittenAlike {α β : Type} (text : Dialect → String → Nat → α → β) (values : α → List Value)
    (given given' : List Value) (x x' : α) : Prop where
  text : ∀ d source bound, text d source bound x = text d source bound x'
  values : SamePlaces given given' (values x) (values x')

section Filters

variable {r : Relation}

theorem Value.any_isNull_eq {vs vs' : List Value} (same : List.Forall₂ (fun v v' => v.isNull = v'.isNull) vs vs') :
    vs.any Value.isNull = vs'.any Value.isNull := by
  induction same with
  | nil => rfl
  | cons first _ ih => rw [List.any_cons, List.any_cons, first, ih]

theorem Condition.SameShape.check {c c' : Condition} (same : c.SameShape c') :
    Outcome.Agree Eq (WrittenAlike (fun d source bound t => Term.text d source bound t) Term.values c.values c'.values)
      (c.check r) (c'.check r) := by
  obtain ⟨field, operator, values⟩ := c
  obtain ⟨field', operator', values'⟩ := c'
  obtain ⟨rfl, rfl, shape⟩ := same
  have given : values.length = values'.length := shape.length_eq
  rw [Condition.check, Condition.check]
  refine Outcome.agree_bind_self fun type => ?_
  cases operator with
  | isNull => exact .ok ⟨fun _ _ _ => rfl, .none given⟩
  | notNull => exact .ok ⟨fun _ _ _ => rfl, .none given⟩
  | member =>
    simp only [Value.any_isNull_eq shape]
    split
    · exact .error rfl
    · cases shape with
      | nil => exact .ok ⟨fun _ _ _ => rfl, .none given⟩
      | cons first rest => exact .ok ⟨fun _ _ _ => by rw [Term.text, Term.text, rest.length_eq], .all given⟩
  | compare comparison =>
    cases shape with
    | nil => exact .error rfl
    | cons first rest =>
      cases rest with
      | nil =>
        simp only [first]
        split
        · exact .error rfl
        · exact .ok ⟨fun _ _ _ => rfl, .all given⟩
      | cons second rest => exact .error rfl

theorem Condition.checkAll_agree {cs cs' : List Condition} (same : List.Forall₂ SameShape cs cs') :
    Outcome.Agree (fun e e' => e.error = e'.error)
      (WrittenAlike Clause.termTexts Clause.values (allValues cs) (allValues cs')) (checkAll r cs)
      (checkAll r cs') := by
  induction same with
  | nil => exact .ok ⟨fun _ _ _ => rfl, .none rfl⟩
  | cons first _ ih =>
    rw [checkAll, checkAll]
    rcases (first.check (r := r)).cases with ⟨e, _, failed, failed', rfl⟩ | ⟨t, t', made, made', alike⟩
    · rw [failed, failed']
      exact .error rfl
    · rw [made, made']
      rcases ih.cases with ⟨e, e', failed, failed', error⟩ | ⟨ts, ts', others, others', rest⟩
      · rw [failed, failed']
        exact .error error
      · rw [others, others']
        refine .ok ⟨fun d source bound => ?_, alike.values.append rest.values⟩
        rw [Clause.termTexts, Clause.termTexts, alike.text, alike.values.sameTaken, rest.text]

theorem Clause.check_agree {cs cs' : List Condition} (same : List.Forall₂ Condition.SameShape cs cs') :
    Outcome.Agree (fun e e' => e.error = e'.error)
      (WrittenAlike Clause.termTexts Clause.values (Condition.allValues cs) (Condition.allValues cs'))
      (check r cs) (check r cs') := by
  cases same with
  | nil => exact .error rfl
  | cons first rest => exact Condition.checkAll_agree (.cons first rest)

theorem Clause.checkAll_agree {lists lists' : List (List Condition)}
    (same : List.Forall₂ (List.Forall₂ Condition.SameShape) lists lists') :
    Outcome.Agree (fun e e' => e.error = e'.error)
      (WrittenAlike Clause.texts (List.flatMap Clause.values) (lists.flatMap Condition.allValues)
        (lists'.flatMap Condition.allValues)) (checkAll r lists) (checkAll r lists') := by
  induction same with
  | nil => exact .ok ⟨fun _ _ _ => rfl, .none rfl⟩
  | cons first _ ih =>
    rw [checkAll, checkAll]
    rcases (check_agree (r := r) first).cases with ⟨e, e', failed, failed', error⟩ | ⟨c, c', made, made', alike⟩
    · rw [failed, failed']
      exact .error error
    · rw [made, made']
      rcases ih.cases with ⟨e, e', failed, failed', error⟩ | ⟨cs, cs', others, others', rest⟩
      · rw [failed, failed']
        exact .error error
      · rw [others, others']
        refine .ok ⟨fun d source bound => ?_, alike.values.append rest.values⟩
        rw [Clause.texts, Clause.texts, Clause.text, Clause.text, alike.text, alike.values.sameTaken, rest.text]

theorem Clause.isEmpty_eq_of_texts {cs cs' : List Clause} {d : Dialect} {source : String} {bound : Nat}
    (same : texts d source bound cs = texts d source bound cs') : cs.isEmpty = cs'.isEmpty := by
  cases cs <;> cases cs' <;> first | rfl | cases same

/-- Whether two checked filters are written alike, with values from the same places. -/
structure Clauses.Alike (given given' : List Value) (c c' : Clauses) : Prop extends
    WrittenAlike (fun d source bound c => Clauses.text d source bound c) Clauses.values given given' c c' where
  keep : c.keep.isEmpty = c'.keep.isEmpty
  drop : c.drop.isEmpty = c'.drop.isEmpty

theorem PreFilter.SameShape.check {f f' : PreFilter} (same : f.SameShape f') :
    Outcome.Agree (fun e e' => e.error = e'.error) (Clauses.Alike f.allValues f'.allValues) (f.check r)
      (f'.check r) := by
  rw [PreFilter.check, PreFilter.check]
  rcases (Clause.checkAll_agree (r := r) same.keep).cases with
    ⟨e, e', failed, failed', error⟩ | ⟨keep, keep', kept, kept', first⟩
  · rw [failed, failed']
    exact .error error
  · rw [kept, kept']
    rcases (Clause.checkAll_agree (r := r) same.drop).cases with
      ⟨e, e', failed, failed', error⟩ | ⟨drop, drop', dropped, dropped', second⟩
    · rw [failed, failed']
      exact .error error
    · rw [dropped, dropped']
      have texts (d : Dialect) (source : String) (bound : Nat) :
          Clauses.text d source bound ⟨keep, drop⟩ = Clauses.text d source bound ⟨keep', drop'⟩ := by
        simp only [Clauses.text, first.text, first.values.sameTaken, second.text]
      exact .ok {
        text := texts
        values := first.values.append second.values
        keep := Clause.isEmpty_eq_of_texts (first.text .sqlite "" 0)
        drop := Clause.isEmpty_eq_of_texts (second.text .sqlite "" 0) }

end Filters

namespace Compiler

variable {q q' : Request}

theorem checkFilter_agree {r : Relation} (same : q.SameShape q') :
    Outcome.Agree Eq (Clauses.Alike q.allValues q'.allValues) (checkFilter r q.filter) (checkFilter r q'.filter) := by
  obtain ⟨filter, ordering, ancestorFields, maxDepth⟩ := q
  obtain ⟨filter', ordering', ancestorFields', maxDepth'⟩ := q'
  cases same.filter with
  | none => exact .ok { text := fun _ _ _ => rfl, values := .none rfl, keep := rfl, drop := rfl }
  | some shape =>
    rw [checkFilter, checkFilter]
    rcases (shape.check (r := r)).cases with ⟨e, e', failed, failed', error⟩ | ⟨cs, cs', made, made', alike⟩
    · rw [failed, failed']
      exact .error error
    · rw [made, made']
      exact .ok alike

theorem isFiltered_eq (same : q.SameShape q') : q.isFiltered = q'.isFiltered := by
  have isEmpty {lists lists' : List (List Condition)}
      (shape : List.Forall₂ (List.Forall₂ Condition.SameShape) lists lists') : lists.isEmpty = lists'.isEmpty := by
    cases shape <;> rfl
  obtain ⟨filter, ordering, ancestorFields, maxDepth⟩ := q
  obtain ⟨filter', ordering', ancestorFields', maxDepth'⟩ := q'
  cases same.filter with
  | none => rfl
  | some shape =>
    simp only [Request.isFiltered, Option.any_some, PreFilter.isEmpty, isEmpty shape.keep, isEmpty shape.drop]

/-- Whether two scopes are written alike, with values from the same places. -/
inductive ScopesAlike (given given' : List Value) : Scope → Scope → Prop
  | table : ScopesAlike given given' .table .table
  | filtered {cs cs'} {rank : Option (List SortTerm)} : Clauses.Alike given given' cs cs' →
      ScopesAlike given given' (.filtered cs rank) (.filtered cs' rank)

theorem scope_agree {c : Compiler} {order : SiblingOrder} {strategy : Strategy} {ranked : Bool}
    (same : q.SameShape q') :
    Outcome.Agree Eq (ScopesAlike q.allValues q'.allValues) (c.scope q order strategy ranked)
      (c.scope q' order strategy ranked) := by
  cases strategy with
  | simple => exact .ok .table
  | general => exact (checkFilter_agree same).map .filtered

/-- What two answers to requests of one shape have in common, with values bound from the same places of both. -/
structure SamePlan (q q' : Request) (out out' : Compiled) : Prop where
  text : out.statement.text = out'.statement.text
  encoding : out.statement.encoding = out'.statement.encoding
  strategy : out.strategy = out'.strategy
  ranked : out.ranked = out'.ranked
  layout : out.layout = out'.layout
  count : out.statement.params.length = out'.statement.params.length
  places : (out.statement.params.zip out'.statement.params).Sublist (q.allValues.zip q'.allValues)

theorem samePlan {r : Relation} {encoding : Encoding} {scope scope' : Scope} {path ordering : Element}
    {elements : List (AncestorField × Element)} {strategy : Strategy} {ranked : Bool} {layout : Layout}
    (alike : ScopesAlike q.allValues q'.allValues scope scope') :
    SamePlan q q' ⟨⟨r, encoding, scope, path, ordering, elements⟩, strategy, ranked, layout⟩
      ⟨⟨r, encoding, scope', path, ordering, elements⟩, strategy, ranked, layout⟩ := by
  cases alike with
  | table =>
    exact {
      text := rfl
      encoding := rfl
      strategy := rfl
      ranked := rfl
      layout := rfl
      count := rfl
      places := List.nil_sublist _ }
  | @filtered cs cs' rank filters =>
    have base (s s' : Statement) (relation : s.relation = s'.relation) (dialect : s.encoding = s'.encoding) :
        s.baseText cs = s'.baseText cs' := by
      simp only [Statement.baseText, Statement.quote, relation, dialect, filters.keep, filters.drop, filters.text]
    exact {
      text := by
        simp only [Statement.text, Statement.parts, base ⟨r, encoding, .filtered cs rank, path, ordering, elements⟩
          ⟨r, encoding, .filtered cs' rank, path, ordering, elements⟩ rfl rfl]
        rfl
      encoding := rfl
      strategy := rfl
      ranked := rfl
      layout := rfl
      count := filters.values.sameTaken
      places := filters.values.places }

/-- Requests that differ in the values of their conditions only are refused with the same failure, or answered with
the same text, read in the same way, and with as many values, which stand in the same places of both requests. -/
theorem compile_agree (c : Compiler) (same : q.SameShape q') :
    (∃ e, c.compile q = .error e ∧ c.compile q' = .error e) ∨
    ∃ out out', c.compile q = .ok out ∧ c.compile q' = .ok out' ∧ SamePlan q q' out out' ∧
      out.maxDepth = out'.maxDepth := by
  have agree : Outcome.Agree Eq (SamePlan q q') (c.compile q) (c.compile q') := by
    rw [compile, compile, depthLimit, depthLimit, same.ordering, same.ancestorFields, same.maxDepth, isFiltered_eq same]
    refine Outcome.agree_bind_self fun maxDepth => ?_
    refine Outcome.agree_bind_self fun order => ?_
    refine Outcome.agree_bind_self fun ancestors => ?_
    refine Outcome.agree_bind_self fun key => ?_
    refine (scope_agree same).bind fun alike => ?_
    refine Outcome.agree_bind_self fun path => ?_
    refine Outcome.agree_bind_self fun ordering => ?_
    refine Outcome.agree_bind_self fun elements => ?_
    exact .ok (samePlan alike)
  rcases agree.cases with ⟨e, _, failed, failed', rfl⟩ | ⟨out, out', made, made', plan⟩
  · exact Or.inl ⟨e, failed, failed'⟩
  · exact Or.inr ⟨out, out', made, made', plan, by rw [Compiled.maxDepth, Compiled.maxDepth, plan.encoding]⟩

def namedNodes : Compiler := ⟨⟨"nodes", "id", .integer, "parent_id", [⟨"name", .text⟩]⟩, .default, false⟩

/-- A request for the rows of one name. -/
def requestNamed (name : String) : Request := Request.empty.keeping [⟨"name", .compare .equal, [.text name]⟩]

theorem compile_agree_named :
    (requestNamed "leaf").SameShape (requestNamed "' OR 1 = 1 --") ∧
    ∃ out out', namedNodes.compile (requestNamed "leaf") = .ok out ∧
      namedNodes.compile (requestNamed "' OR 1 = 1 --") = .ok out' ∧
      out.statement.text = out'.statement.text ∧ out'.statement.params = [.text "' OR 1 = 1 --"] := by
  have same : (requestNamed "leaf").SameShape (requestNamed "' OR 1 = 1 --") := {
    filter := .some ⟨.cons (.cons ⟨rfl, rfl, .cons rfl .nil⟩ .nil) .nil, .nil⟩
    ordering := rfl
    ancestorFields := rfl
    maxDepth := rfl }
  have checks : (namedNodes.compile (requestNamed "' OR 1 = 1 --")).toOption.any (fun out =>
      out.statement.params = [.text "' OR 1 = 1 --"]) = true := by
    decide
  obtain ⟨out', made', params⟩ := Outcome.exists_of_any checks
  refine ⟨same, ?_⟩
  rcases compile_agree namedNodes same with
    ⟨e, -, failed⟩ | ⟨out, other, made, same', plan, -⟩
  · rw [made'] at failed
    cases failed
  · rw [made', Except.ok.injEq] at same'
    subst same'
    exact ⟨out, out', made, made', plan.text, of_decide_eq_true params⟩

end Compiler

end ForestQuery
