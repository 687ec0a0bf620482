import ForestQuery.Filter.Predicate
import ForestQuery.Proofs.Filter
import Mathlib.Data.Finset.Image
import Mathlib.Data.List.GetD
/-!
What the condition of a filter means. Main statements: the text of a checked filter is that of an expression
whose placeholders stand in the order of the values; and this is true exactly for the rows that meet every
clause to keep by and do not meet some condition of every clause to drop by.
-/

namespace ForestQuery

namespace Truth

theorem and_assoc (a b c : Truth) : and (and a b) c = and a (and b c) := by
  rcases a with _ | _ | _ <;> rcases b with _ | _ | _ <;> rcases c with _ | _ | _ <;> rfl

theorem and_true (a : Truth) : and a (some true) = a := by
  rcases a with _ | _ | _ <;> rfl

theorem all_cons (t : Truth) (ts : List Truth) : all (t :: ts) = and t (all ts) := rfl

theorem any_cons (t : Truth) (ts : List Truth) : any (t :: ts) = or t (any ts) := rfl

/-- Without an unknown member, one true member makes a disjunction true. -/
theorem any_map_some (bs : List Bool) : any (bs.map some) = some (bs.any id) := by
  induction bs with
  | nil => rfl
  | cons b bs ih =>
    rw [List.map_cons, any_cons, ih, List.any_cons]
    cases b with
    | true => rfl
    | false => cases bs.any id <;> rfl

theorem any_of_unknown {t : Truth} {ts : List Truth} (unknown : ∀ u ∈ t :: ts, u = none) : any (t :: ts) = none := by
  induction ts generalizing t with
  | nil =>
    rw [unknown t List.mem_cons_self]
    rfl
  | cons u ts ih =>
    obtain ⟨first, rest⟩ := List.forall_mem_cons.mp unknown
    rw [any_cons, ih rest, first]
    rfl

end Truth

namespace Predicate

variable {row : ColumnTests} {params : List Value} {d : Dialect} {source : String}

theorem eval_single (o : Operand) : (single o).eval row params = o.eval row params := rfl

theorem eval_and (p : Predicate) (o : Operand) :
    (and p o).eval row params = Truth.and (p.eval row params) (o.eval row params) := rfl

theorem text_single (o : Operand) : (single o).text d source = o.text d source := rfl

theorem text_and (p : Predicate) (o : Operand) :
    (and p o).text d source = String.join [p.text d source, " AND ", o.text d source] := rfl

theorem placeholders_single (o : Operand) : (single o).placeholders = o.placeholders := rfl

theorem placeholders_and (p : Predicate) (o : Operand) :
    (and p o).placeholders = p.placeholders ++ o.placeholders := rfl

theorem eval_foldl (p : Predicate) (os : List Operand) :
    (os.foldl .and p).eval row params = Truth.and (p.eval row params) (Truth.all (os.map (Operand.eval row params))) := by
  induction os generalizing p with
  | nil => exact (Truth.and_true _).symm
  | cons o os ih => rw [List.foldl_cons, ih, List.map_cons, Truth.all_cons, ← Truth.and_assoc, eval_and]

theorem eval_all (os : List Operand) :
    (all os).eval row params = Truth.all (os.map (Operand.eval row params)) := by
  cases os with
  | nil => rfl
  | cons o os => rw [all, eval_foldl, List.map_cons, Truth.all_cons, eval_single]

theorem text_foldl (p : Predicate) (os : List Operand) :
    (os.foldl .and p).text d source = String.intercalate " AND " (p.text d source :: os.map (Operand.text d source)) := by
  induction os generalizing p with
  | nil => rfl
  | cons o os ih =>
    have first : (Predicate.and p o).text d source = p.text d source ++ " AND " ++ o.text d source := by
      simp [text_and, String.append_assoc]
    rw [List.foldl_cons, ih, first, List.map_cons, String.intercalate_cons_cons]
    cases os with
    | nil => rfl
    | cons o' os => simp only [List.map_cons, String.intercalate_cons_cons, String.append_assoc]

theorem text_all {os : List Operand} (some : os ≠ []) :
    (all os).text d source = String.intercalate " AND " (os.map (Operand.text d source)) := by
  cases os with
  | nil => exact absurd rfl some
  | cons o os => rw [all, text_foldl, List.map_cons, text_single]

theorem placeholders_foldl (p : Predicate) (os : List Operand) :
    (os.foldl .and p).placeholders = p.placeholders ++ os.flatMap Operand.placeholders := by
  induction os generalizing p with
  | nil => simp
  | cons o os ih => rw [List.foldl_cons, ih, List.flatMap_cons, placeholders_and, List.append_assoc]

theorem placeholders_all (os : List Operand) : (all os).placeholders = os.flatMap Operand.placeholders := by
  cases os with
  | nil => rfl
  | cons o os => rw [all, placeholders_foldl, List.flatMap_cons, placeholders_single]

end Predicate

namespace Operand

variable {row : ColumnTests} {params : List Value} {d : Dialect} {source : String}

theorem text_group (p : Predicate) : (group p).text d source = String.join ["(", p.text d source, ")"] := rfl

theorem placeholders_group (p : Predicate) : (group p).placeholders = p.placeholders := rfl

theorem eval_group (p : Predicate) : (group p).eval row params = p.eval row params := rfl

theorem eval_compare (column : String) (c : Comparison) (index : Nat) :
    (compare column c index).eval row params = row.compare column c (boundTo params index) := rfl

end Operand

/-- Values in their places are found by their placeholders. -/
theorem map_boundTo (before values after : List Value) :
    (List.range' (before.length + 1) values.length).map (boundTo (before ++ (values ++ after))) = values := by
  refine List.ext_getElem (by simp) fun i inMap inValues => ?_
  rw [List.getElem_map, List.getElem_range', boundTo, List.getD_append_right _ _ _ _ (by omega),
    List.getD_append _ _ _ _ (by omega), List.getD_eq_getElem _ _ (by omega)]
  congr 1
  omega

namespace Term

variable {row : ColumnTests} {d : Dialect} {source : String}

theorem text_operand (bound : Nat) (t : Term) : (t.operand bound).text d source = t.text d source bound := by
  cases t with
  | member column first rest => rw [operand, Operand.text, ← placeholders_eq_map, text]
  | compare column c value => rfl
  | never => rfl
  | isNull column => rfl
  | notNull column => rfl

theorem placeholders_operand (bound : Nat) (t : Term) :
    (t.operand bound).placeholders = List.range' (bound + 1) t.values.length := by
  cases t with
  | compare column c value => rfl
  | member column first rest => rfl
  | never => rfl
  | isNull column => rfl
  | notNull column => rfl

theorem eval_operand (before after : List Value) (t : Term) :
    (t.operand before.length).eval row (before ++ (t.values ++ after)) = t.truth row := by
  have placed := map_boundTo before t.values after
  cases t with
  | compare column c value =>
    have first : boundTo (before ++ ([value] ++ after)) (before.length + 1) = value := List.singleton_inj.mp placed
    rw [operand, Operand.eval_compare, values, first, truth]
  | member column first rest =>
    have compared := congrArg (List.map (row.compare column .equal)) placed
    rw [List.map_map] at compared
    exact congrArg Truth.any compared
  | never => rfl
  | isNull column => rfl
  | notNull column => rfl

end Term

namespace Clause

variable {row : ColumnTests} {d : Dialect} {source : String}

theorem text_termOperands (bound : Nat) (ts : List Term) :
    (termOperands bound ts).map (Operand.text d source) = termTexts d source bound ts := by
  induction ts generalizing bound with
  | nil => rfl
  | cons t ts ih => rw [termOperands, List.map_cons, t.text_operand, ih, termTexts]

theorem placeholders_termOperands (bound : Nat) (ts : List Term) :
    (termOperands bound ts).flatMap Operand.placeholders = List.range' (bound + 1) (values ts).length := by
  induction ts generalizing bound with
  | nil => rfl
  | cons t ts ih =>
    have joined : (values (t :: ts)).length = t.values.length + (values ts).length := by
      rw [values, List.flatMap_cons, List.length_append, values]
    rw [termOperands, List.flatMap_cons, t.placeholders_operand, ih, joined, ← List.range'_append]
    congr 2
    omega

theorem eval_termOperands (before after : List Value) (ts : List Term) :
    (termOperands before.length ts).map (Operand.eval row (before ++ (values ts ++ after)))
      = ts.map (Term.truth row) := by
  induction ts generalizing before with
  | nil => rfl
  | cons t ts ih =>
    have split : values (t :: ts) ++ after = t.values ++ (values ts ++ after) := by
      rw [values, List.flatMap_cons, List.append_assoc, values]
    -- The next term finds its values behind those of this one.
    have others := ih (before ++ t.values)
    rw [List.length_append, List.append_assoc] at others
    rw [termOperands, List.map_cons, List.map_cons, split, t.eval_operand, others]

theorem text_operand (bound : Nat) {c : Clause} (some : c ≠ []) :
    (operand bound c).text d source = text d source bound c := by
  have operands : termOperands bound c ≠ [] := by
    cases c with
    | nil => exact absurd rfl some
    | cons t ts => exact List.cons_ne_nil _ _
  rw [operand, Operand.text_group, Predicate.text_all operands, text_termOperands, text]

theorem placeholders_operand (bound : Nat) (c : Clause) :
    (operand bound c).placeholders = List.range' (bound + 1) c.values.length := by
  rw [operand, Operand.placeholders_group, Predicate.placeholders_all, placeholders_termOperands]

theorem eval_operand (before after : List Value) (c : Clause) :
    (operand before.length c).eval row (before ++ (c.values ++ after)) = c.truth row := by
  rw [operand, Operand.eval_group, Predicate.eval_all, eval_termOperands, truth]

theorem text_operands (bound : Nat) {cs : List Clause} (some : ∀ c ∈ cs, c ≠ []) :
    (operands bound cs).map (Operand.text d source) = texts d source bound cs := by
  induction cs generalizing bound with
  | nil => rfl
  | cons c cs ih =>
    obtain ⟨first, rest⟩ := List.forall_mem_cons.mp some
    rw [operands, List.map_cons, text_operand bound first, ih _ rest, texts]

theorem placeholders_operands (bound : Nat) (cs : List Clause) :
    (operands bound cs).flatMap Operand.placeholders = List.range' (bound + 1) (cs.flatMap values).length := by
  induction cs generalizing bound with
  | nil => rfl
  | cons c cs ih =>
    rw [operands, List.flatMap_cons, placeholders_operand, ih, List.flatMap_cons, List.length_append,
      ← List.range'_append]
    congr 2
    omega

theorem eval_operands (before after : List Value) (cs : List Clause) :
    (operands before.length cs).map (Operand.eval row (before ++ (cs.flatMap values ++ after)))
      = cs.map (truth row) := by
  induction cs generalizing before with
  | nil => rfl
  | cons c cs ih =>
    have others := ih (before ++ c.values)
    rw [List.length_append, List.append_assoc] at others
    rw [operands, List.map_cons, List.map_cons, List.flatMap_cons, List.append_assoc, eval_operand, others]

end Clause

namespace Clauses

variable {row : ColumnTests} {d : Dialect} {source : String}

theorem text_predicate (bound : Nat) {c : Clauses} (some : ∀ clause ∈ c.keep ++ c.drop, clause ≠ []) :
    (c.predicate bound).text d source = c.text d source bound := by
  obtain ⟨keep, drop⟩ := List.forall_mem_append.mp some
  have texts : (Clause.operands bound c.keep ++
      (Clause.operands (bound + (c.keep.flatMap Clause.values).length) c.drop).map fun o =>
        Operand.not (.coalesce (.single o))).map (Operand.text d source)
      = Clause.texts d source bound c.keep ++
        (Clause.texts d source (bound + (c.keep.flatMap Clause.values).length) c.drop).map fun body =>
          String.join ["NOT COALESCE(", body, ", FALSE)"] := by
    rw [List.map_append, Clause.text_operands bound keep, ← Clause.text_operands _ drop, List.map_map, List.map_map]
    rfl
  rw [text, predicate, ← texts]
  split
  · rename_i empty
    rw [List.isEmpty_iff, List.map_eq_nil_iff] at empty
    rw [empty]
    rfl
  · rename_i present
    rw [List.isEmpty_iff, List.map_eq_nil_iff] at present
    exact Predicate.text_all present

theorem placeholders_predicate (bound : Nat) (c : Clauses) :
    (c.predicate bound).placeholders = List.range' (bound + 1) c.values.length := by
  have dropped (os : List Operand) : (os.map fun o => Operand.not (.coalesce (.single o))).flatMap Operand.placeholders
      = os.flatMap Operand.placeholders := by
    rw [List.flatMap_map]
    rfl
  rw [predicate, Predicate.placeholders_all, List.flatMap_append, dropped, Clause.placeholders_operands,
    Clause.placeholders_operands, values, List.length_append, ← List.range'_append]
  congr 2
  omega

theorem eval_predicate (before after : List Value) (c : Clauses) :
    (c.predicate before.length).eval row (before ++ (c.values ++ after)) = c.truth row := by
  have dropped (os : List Operand) (params : List Value) :
      (os.map fun o => Operand.not (.coalesce (.single o))).map (Operand.eval row params)
        = (os.map (Operand.eval row params)).map fun t => Truth.not (Truth.known t) := by
    rw [List.map_map, List.map_map]
    rfl
  -- Values to drop by are bound behind those to keep by, so each list is followed or preceded by the other.
  have kept := @Clause.eval_operands row before (c.drop.flatMap Clause.values ++ after) c.keep
  have others := @Clause.eval_operands row (before ++ c.keep.flatMap Clause.values) after c.drop
  rw [List.length_append, List.append_assoc] at others
  rw [predicate, Predicate.eval_all, List.map_append, dropped, values, List.append_assoc, kept, others, truth, List.map_map]
  rfl

end Clauses

namespace ColumnTests

variable {row : ColumnTests} {column : String} {c : Comparison} {value : Value}

theorem compare_of_isNull (absent : row.isNull column = true) : row.compare column c value = none := by
  rw [compare, absent, Bool.true_or, if_pos rfl]

theorem compare_of_present (present : row.isNull column = false) (given : value.isNull = false) :
    row.compare column c value = some (row.accepts column c value) := by
  rw [compare, present, given, Bool.or_false, if_neg Bool.false_ne_true]

end ColumnTests

namespace Condition

/-- The truth value of a condition for a row. A comparison with a column that is absent is unknown, and so is
membership in a list unless that is empty; nothing else is. -/
def truth (row : ColumnTests) (c : Condition) : Truth :=
  match c.operator with
  | .isNull => some (row.isNull c.field)
  | .notNull => some (!row.isNull c.field)
  | .member =>
    if c.values.isEmpty then some false
    else if row.isNull c.field then none
    else some (c.values.any (row.accepts c.field .equal))
  | .compare comparison =>
    if row.isNull c.field then none else some (c.values.all (row.accepts c.field comparison))

variable {row : ColumnTests}

/-- A condition that can be asked means what it says. -/
theorem truth_term {r : Relation} {c : Condition} (askable : c.IsAskable r) : c.term.truth row = c.truth row := by
  obtain ⟨field, operator, values⟩ := c
  obtain ⟨-, given⟩ := askable
  cases operator with
  | isNull => rfl
  | notNull => rfl
  | member =>
    cases values with
    | nil => rfl
    | cons first rest =>
      change Truth.any ((first :: rest).map (row.compare field .equal))
        = if row.isNull field then none else some ((first :: rest).any (row.accepts field .equal))
      by_cases absent : row.isNull field = true
      · have unknown : ∀ t ∈ (first :: rest).map (row.compare field .equal), t = none :=
          List.forall_mem_map.mpr fun value _ => ColumnTests.compare_of_isNull absent
        rw [if_pos absent, List.map_cons, Truth.any_of_unknown unknown]
      · rw [Bool.not_eq_true] at absent
        have compared : (first :: rest).map (row.compare field .equal)
            = ((first :: rest).map (row.accepts field .equal)).map some := by
          rw [List.map_map]
          exact List.map_congr_left fun value member => ColumnTests.compare_of_present absent (given value member)
        rw [compared, Truth.any_map_some, List.any_map, absent, if_neg Bool.false_ne_true]
        rfl
  | compare comparison =>
    obtain ⟨value, shape, present⟩ := given
    simp only at shape
    subst shape
    change row.compare field comparison value
      = if row.isNull field then none else some ([value].all (row.accepts field comparison))
    by_cases absent : row.isNull field = true
    · rw [ColumnTests.compare_of_isNull absent, if_pos absent]
    · rw [Bool.not_eq_true] at absent
      rw [ColumnTests.compare_of_present absent present, absent, if_neg Bool.false_ne_true, List.all_cons, List.all_nil,
        Bool.and_true]

end Condition

namespace PreFilter

variable {r : Relation} {f g : PreFilter} {row : ColumnTests}

/-- Whether a row meets every clause to keep by, and for every clause to drop by has a condition that is false
or unknown. -/
def Admits (row : ColumnTests) (f : PreFilter) : Prop :=
  (∀ cs ∈ f.keep, ∀ c ∈ cs, c.truth row = some true) ∧
    ∀ cs ∈ f.drop, ∃ c ∈ cs, c.truth row = some false ∨ c.truth row = none

/-- Whether the condition of a filter is true for a row, with other values bound in front of its own and behind. -/
def Holds (r : Relation) (before after : List Value) (row : ColumnTests) (f : PreFilter) : Prop :=
  ∃ clauses, f.check r = .ok clauses ∧
    (clauses.predicate before.length).eval row (before ++ (clauses.values ++ after)) = some true

theorem truth_eq_true_iff {cs : List Condition} (askable : ∀ c ∈ cs, c.IsAskable r) :
    Clause.truth row (cs.map Condition.term) = some true ↔ ∀ c ∈ cs, c.truth row = some true := by
  rw [Clause.truth, Truth.all_eq_true_iff, List.forall_mem_map, List.forall_mem_map]
  exact forall₂_congr fun c member => by rw [Condition.truth_term (askable c member)]

theorem ne_true_iff (t : Truth) : t ≠ some true ↔ t = some false ∨ t = none := by
  rcases t with _ | _ | _ <;> simp

theorem truth_clauses_iff (askable : f.IsAskable r) : f.clauses.truth row = some true ↔ f.Admits row := by
  obtain ⟨kept, dropped⟩ := List.forall_mem_append.mp askable
  rw [Clauses.truth, Truth.all_eq_true_iff, List.forall_mem_append, List.forall_mem_map, List.forall_mem_map, Admits,
    clauses, List.forall_mem_map, List.forall_mem_map]
  refine and_congr (forall₂_congr fun cs member => truth_eq_true_iff (kept cs member).2)
    (forall₂_congr fun cs member => ?_)
  rw [Truth.not_known_eq_true_iff, ne_eq, truth_eq_true_iff (dropped cs member).2]
  simp only [not_forall, ← ne_true_iff, exists_prop]

theorem holds_iff {before after : List Value} : f.Holds r before after row ↔ f.IsAskable r ∧ f.Admits row := by
  constructor
  · rintro ⟨clauses, checked, holds⟩
    obtain ⟨askable, rfl⟩ := check_eq_ok_iff.mp checked
    rw [Clauses.eval_predicate, truth_clauses_iff askable] at holds
    exact ⟨askable, holds⟩
  · rintro ⟨askable, admits⟩
    refine ⟨f.clauses, check_eq_ok_iff.mpr ⟨askable, rfl⟩, ?_⟩
    rw [Clauses.eval_predicate, truth_clauses_iff askable]
    exact admits

/-- The conditions of clauses, without their order and how often they occur. -/
def conditionSets (lists : List (List Condition)) : Finset (Finset Condition) := (lists.map List.toFinset).toFinset

theorem forall_conditionSets_iff {lists : List (List Condition)} {p : Finset Condition → Prop} :
    (∀ s ∈ conditionSets lists, p s) ↔ ∀ cs ∈ lists, p cs.toFinset := by
  simp [conditionSets]

/-- Whether two filters differ in the order of clauses and of conditions, and in how often they occur, only. -/
def SameClauses (f g : PreFilter) : Prop :=
  conditionSets f.keep = conditionSets g.keep ∧ conditionSets f.drop = conditionSets g.drop

theorem isAskable_iff : f.IsAskable r ↔
    ∀ s ∈ conditionSets f.keep ∪ conditionSets f.drop, s ≠ ∅ ∧ ∀ c ∈ s, c.IsAskable r := by
  have askable (cs : List Condition) :
      Clause.IsAskable r cs ↔ cs.toFinset ≠ ∅ ∧ ∀ c ∈ cs.toFinset, c.IsAskable r := by
    simp [Clause.IsAskable]
  rw [Finset.forall_mem_union, forall_conditionSets_iff, forall_conditionSets_iff, IsAskable, List.forall_mem_append]
  simp only [askable]

theorem admits_iff : f.Admits row ↔ (∀ s ∈ conditionSets f.keep, ∀ c ∈ s, c.truth row = some true) ∧
    ∀ s ∈ conditionSets f.drop, ∃ c ∈ s, c.truth row = some false ∨ c.truth row = none := by
  rw [forall_conditionSets_iff, forall_conditionSets_iff]
  simp only [List.mem_toFinset, Admits]

theorem SameClauses.holds_iff {before after : List Value} (same : f.SameClauses g) :
    f.Holds r before after row ↔ g.Holds r before after row := by
  rw [PreFilter.holds_iff, PreFilter.holds_iff, isAskable_iff, isAskable_iff, admits_iff, admits_iff, same.1, same.2]

theorem isAskable_keeping {cs : List Condition} :
    (f.keeping cs).IsAskable r ↔ f.IsAskable r ∧ Clause.IsAskable r cs := by
  simp only [IsAskable, keeping, List.forall_mem_append, List.forall_mem_singleton]
  exact and_right_comm

theorem isAskable_dropping {cs : List Condition} :
    (f.dropping cs).IsAskable r ↔ f.IsAskable r ∧ Clause.IsAskable r cs := by
  simp only [IsAskable, dropping, List.forall_mem_append, List.forall_mem_singleton]
  exact and_assoc.symm

theorem admits_keeping {cs : List Condition} :
    (f.keeping cs).Admits row ↔ f.Admits row ∧ ∀ c ∈ cs, c.truth row = some true := by
  simp only [Admits, keeping, List.forall_mem_append, List.forall_mem_singleton]
  exact and_right_comm

theorem admits_dropping {cs : List Condition} :
    (f.dropping cs).Admits row ↔ f.Admits row ∧ ∃ c ∈ cs, c.truth row = some false ∨ c.truth row = none := by
  simp only [Admits, dropping, List.forall_mem_append, List.forall_mem_singleton]
  exact and_assoc.symm

/-- A clause that is unknown has a condition that is not true. -/
theorem exists_of_unknown {cs : List Condition} (unknown : Truth.all (cs.map (Condition.truth row)) = none) :
    ∃ c ∈ cs, c.truth row = some false ∨ c.truth row = none := by
  by_contra! all
  have met : Truth.all (cs.map (Condition.truth row)) = some true :=
    Truth.all_eq_true_iff.mpr (List.forall_mem_map.mpr fun c member => by
      by_contra other
      exact (ne_true_iff _).mp other |>.elim (all c member).1 (all c member).2)
  rw [unknown] at met
  cases met

end PreFilter

theorem Term.truth_tests (row : RowView) (t : Term) : t.truth row.tests = t.eval row := by
  cases t with
  | compare column c value => rfl
  | member column first rest => rfl
  | never => rfl
  | isNull column => rfl
  | notNull column => rfl

theorem Clauses.truth_tests (row : RowView) (c : Clauses) : c.truth row.tests = c.eval row := by
  have clause (terms : Clause) : terms.truth row.tests = terms.eval row :=
    congrArg Truth.all (List.map_congr_left fun t _ => t.truth_tests row)
  have clauses : Clause.truth row.tests = Clause.eval row := funext clause
  rw [Clauses.truth, clauses, Clauses.eval]

/-- What the condition of a filter means, in any dialect and among any other bound values. Its text is that of an
expression whose placeholders, from left to right, are those of the values. That is true exactly for the rows that
meet every condition of every clause to keep by and for which every clause to drop by has a condition that is
false or unknown; and these rows take part. So a clause to drop by that is unknown drops no row, clauses and
conditions may be put in any order and repeated, and another clause never lets more rows take part. -/
theorem PreFilter.condition_meaning {r : Relation} {f : PreFilter} {clauses : Clauses}
    (checked : f.check r = .ok clauses) (before after : List Value) :
    (∀ d source, (clauses.predicate before.length).text d source = clauses.text d source before.length) ∧
    (clauses.predicate before.length).placeholders = List.range' (before.length + 1) clauses.values.length ∧
    (∀ row, (clauses.predicate before.length).eval row (before ++ (clauses.values ++ after)) = some true ↔
      f.Admits row) ∧
    (∀ row : RowView, clauses.admits row = true ↔ f.Admits row.tests) ∧
    (∀ row cs, Clause.IsAskable r cs → Truth.all (cs.map (Condition.truth row)) = none →
      ((f.dropping cs).Holds r before after row ↔ f.Holds r before after row)) ∧
    (∀ g : PreFilter, g.SameClauses f → (g.check r).toBool ∧
      ∀ row, g.Holds r before after row ↔ f.Holds r before after row) ∧
    ∀ row cs, ((f.keeping cs).Holds r before after row → f.Holds r before after row) ∧
      ((f.dropping cs).Holds r before after row → f.Holds r before after row) := by
  obtain ⟨askable, rfl⟩ := check_eq_ok_iff.mp checked
  have conditions : ∀ clause ∈ f.clauses.keep ++ f.clauses.drop, clause ≠ [] := by
    rw [clauses, ← List.map_append, List.forall_mem_map]
    exact fun cs member empty => (askable cs member).1 (List.map_eq_nil_iff.mp empty)
  refine ⟨fun d source => Clauses.text_predicate before.length conditions,
    Clauses.placeholders_predicate before.length f.clauses, fun row => ?_, fun row => ?_,
    fun row cs asked unknown => ?_, fun g same => ⟨?_, fun row => same.holds_iff⟩, fun row cs => ⟨?_, ?_⟩⟩
  · rw [Clauses.eval_predicate, truth_clauses_iff askable]
  · rw [Clauses.admits, beq_iff_eq, ← Clauses.truth_tests, truth_clauses_iff askable]
  · rw [holds_iff, holds_iff, isAskable_dropping, admits_dropping]
    simp only [asked, exists_of_unknown unknown, and_true]
  · have askable' : g.IsAskable r := by
      rw [isAskable_iff, same.1, same.2, ← isAskable_iff]
      exact askable
    rw [check_eq_ok_iff.mpr ⟨askable', rfl⟩]
    rfl
  · rw [holds_iff, holds_iff, isAskable_keeping, admits_keeping]
    rintro ⟨⟨asked, -⟩, admits, -⟩
    exact ⟨asked, admits⟩
  · rw [holds_iff, holds_iff, isAskable_dropping, admits_dropping]
    rintro ⟨⟨asked, -⟩, admits, -⟩
    exact ⟨asked, admits⟩

/-- Drafts are dropped. -/
def PreFilter.withoutDrafts : PreFilter := PreFilter.empty.dropping [⟨"kind", .compare .equal, [.text "draft"]⟩]

/-- Where nobody knows whether a row is a draft, it is kept. -/
theorem PreFilter.condition_meaning_sample : ∃ clauses,
    PreFilter.withoutDrafts.check ⟨"nodes", "id", .integer, "parent_id", [⟨"kind", .text⟩]⟩ = .ok clauses ∧
    (clauses.predicate 0).eval ⟨fun column => column == "kind", fun _ _ _ => false⟩ clauses.values = some true := by
  obtain ⟨clauses, checked⟩ := Outcome.exists_of_toBool
    (show (PreFilter.withoutDrafts.check ⟨"nodes", "id", .integer, "parent_id", [⟨"kind", .text⟩]⟩).toBool = true by
      decide)
  obtain ⟨-, -, meaning, -⟩ := PreFilter.condition_meaning checked [] []
  refine ⟨clauses, checked, ?_⟩
  rw [← List.append_nil clauses.values]
  refine (meaning _).mpr ⟨by decide, fun cs member => ?_⟩
  cases List.mem_singleton.mp member
  exact ⟨_, List.mem_singleton_self _, Or.inr rfl⟩

end ForestQuery
