import ForestQuery.Database
import ForestQuery.Proofs.Outcome
import Mathlib.Data.List.Induction
import Mathlib.Data.List.Nodup
/-!
What declaring a relation makes sure of. Main statement: however a relation is declared, its names are identifiers
that statements do not use for themselves, and no field has the name of another or of the key; whether the parent
has a name of its own depends on the order of the declarations.
-/

namespace ForestQuery

section Repetitions

variable {α : Type}

theorem length_eraseDups_le [BEq α] (xs : List α) : xs.eraseDups.length ≤ xs.length := by
  match xs with
  | [] => simp
  | x :: xs =>
    have fewer := List.length_filter_le (fun y => !y == x) xs
    have bound := length_eraseDups_le (xs.filter fun y => !y == x)
    rw [List.eraseDups_cons, List.length_cons, List.length_cons]
    omega
termination_by xs.length
decreasing_by exact Nat.lt_succ_of_le fewer

/-- A list has no repetitions exactly when removing them does not shorten it. -/
theorem length_eraseDups_eq_iff [BEq α] [LawfulBEq α] {xs : List α} : xs.eraseDups.length = xs.length ↔ xs.Nodup := by
  induction xs with
  | nil => simp
  | cons x xs ih =>
    rw [List.eraseDups_cons, List.length_cons, List.length_cons, List.nodup_cons, Nat.add_right_cancel_iff]
    by_cases member : x ∈ xs
    · have less : (xs.filter fun y => !y == x).length < xs.length :=
        List.length_filter_lt_length_iff_exists.mpr ⟨x, member, by simp⟩
      have bound := length_eraseDups_le (xs.filter fun y => !y == x)
      simp only [member, not_true_eq_false, false_and, iff_false]
      omega
    · have all : (xs.filter fun y => !y == x) = xs := by
        refine List.filter_eq_self.mpr fun y inRest => ?_
        rw [Bool.not_eq_true', beq_eq_false_iff_ne]
        rintro rfl
        exact member inRest
      rw [all, ih, and_iff_right member]

/-- Of items with different names, looking for the name of one finds this one. -/
theorem find?_of_nodup {β : Type} [BEq β] [LawfulBEq β] {f : α → β} {xs : List α} (different : (xs.map f).Nodup) {x : α}
    (member : x ∈ xs) : (xs.find? fun y => f y == f x) = some x := by
  induction xs with
  | nil => cases member
  | cons y ys ih =>
    rw [List.map_cons, List.nodup_cons] at different
    rcases List.mem_cons.mp member with rfl | later
    · exact List.find?_cons_of_pos (beq_self_eq_true _)
    · have other : ¬ (f y == f x) = true := by
        rw [beq_iff_eq]
        intro same
        exact different.1 (List.mem_map.mpr ⟨x, later, same.symm⟩)
      rw [List.find?_cons_of_neg (p := fun z => f z == f x) other, ih different.2 later]

end Repetitions

namespace Identifier

variable {a b : String}

theorem toList_lower (a : String) : (lower a).toList = a.toList.map Char.toLower := String.toList_map

theorem lower_eq_iff : lower a = b ↔ a.toList.map Char.toLower = b.toList := by
  rw [← String.toList_inj, toList_lower]

theorem sameName_eq_false_iff : sameName a b = false ↔ a.toList.map Char.toLower ≠ b.toList.map Char.toLower := by
  rw [sameName, beq_eq_false_iff_ne, Ne, lower_eq_iff, toList_lower]

end Identifier

namespace Relation

/-- Whether a column may have a name: an identifier, and in no case of its letters a name that statements use for
themselves or one that begins like these. -/
structure IsColumnName (name : String) : Prop where
  identifier : Identifier.isIdentifier name = true
  unreserved : ∀ reserved ∈ reservedNames, Identifier.sameName name reserved = false
  apart : ∀ beginning ∈ reservedBeginnings,
    ¬ (Identifier.lower beginning).toList <+: (Identifier.lower name).toList

theorem checkColumn_eq_ok_iff {name : String} {u : Unit} : checkColumn name = .ok u ↔ IsColumnName name := by
  have lowered : ∀ reserved ∈ reservedNames ++ reservedBeginnings, Identifier.lower reserved = reserved := by
    simp only [Identifier.lower_eq_iff]
    decide
  have unreserved : ¬ reservedNames.contains (Identifier.lower name) = true ↔
      ∀ reserved ∈ reservedNames, Identifier.sameName name reserved = false := by
    rw [List.contains_iff_mem]
    constructor
    · intro absent reserved member
      rw [Identifier.sameName, lowered reserved (List.mem_append_left _ member), beq_eq_false_iff_ne]
      rintro rfl
      exact absent member
    · intro different member
      have same := different _ member
      rw [Identifier.sameName, lowered _ (List.mem_append_left _ member), beq_self_eq_true] at same
      cases same
  have apart : (reservedBeginnings.find? fun b => b.toList.isPrefixOf (Identifier.lower name).toList) = none ↔
      ∀ beginning ∈ reservedBeginnings, ¬ (Identifier.lower beginning).toList <+: (Identifier.lower name).toList := by
    rw [List.find?_eq_none]
    refine forall₂_congr fun beginning member => ?_
    rw [List.isPrefixOf_iff_prefix, lowered beginning (List.mem_append_right _ member)]
  rw [checkColumn, Outcome.bind_eq_ok_iff]
  simp only [Outcome.check_eq_ok_iff, unreserved]
  constructor
  · rintro ⟨_, identifier, different, rest⟩
    split at rest
    · cases rest
    · rename_i none
      exact ⟨Identifier.check_eq_ok_iff.mp identifier, different, apart.mp none⟩
  · rintro ⟨identifier, different, free⟩
    refine ⟨(), Identifier.check_eq_ok_iff.mpr identifier, different, ?_⟩
    rw [apart.mpr free]
    rfl

variable {table key name : String} {keyType type : FieldType} {r s : Relation}

theorem new_eq_ok_iff : new table key keyType = .ok r ↔
    Identifier.isIdentifier table = true ∧ IsColumnName key ∧ isKeyType keyType = true ∧
      r = ⟨table, key, keyType, defaultParent, []⟩ := by
  simp only [new, Outcome.bind_eq_ok_iff, checkColumn_eq_ok_iff]
  constructor
  · rintro ⟨_, identifier, _, column, rest⟩
    split at rest
    · rename_i keyed
      exact ⟨Identifier.check_eq_ok_iff.mp identifier, column, keyed, (Outcome.pure_eq_ok_iff.mp rest).symm⟩
    · cases rest
  · rintro ⟨identifier, column, keyed, rfl⟩
    exact ⟨(), Identifier.check_eq_ok_iff.mpr identifier, (), column, by rw [if_pos keyed]; rfl⟩

/-- The parent may have any name that is not the one of the key. -/
theorem withParent_eq_ok_iff : r.withParent name = .ok s ↔
    IsColumnName name ∧ name ≠ r.key ∧ s = { r with parent := name } := by
  simp only [withParent, Outcome.bind_eq_ok_iff, checkColumn_eq_ok_iff]
  constructor
  · rintro ⟨_, column, rest⟩
    split at rest
    · cases rest
    · rename_i other
      exact ⟨column, other, (Outcome.pure_eq_ok_iff.mp rest).symm⟩
  · rintro ⟨column, other, rfl⟩
    exact ⟨(), column, by rw [if_neg other]; rfl⟩

/-- A field may have any name that no column has. -/
theorem withField_eq_ok_iff : r.withField name type = .ok s ↔
    IsColumnName name ∧ (∀ f ∈ r.columns, f.name ≠ name) ∧ s = { r with fields := r.fields ++ [⟨name, type⟩] } := by
  have fresh : ¬ (name = r.key ∨ name = r.parent ∨ r.fields.any (fun f => f.name == name) = true) ↔
      ∀ f ∈ r.columns, f.name ≠ name := by
    simp only [columns, List.forall_mem_cons, List.any_eq_true, beq_iff_eq, not_or, not_exists, not_and, ne_eq]
    rw [eq_comm (a := name) (b := r.key), eq_comm (a := name) (b := r.parent)]
  simp only [withField, Outcome.bind_eq_ok_iff, checkColumn_eq_ok_iff]
  constructor
  · rintro ⟨_, column, rest⟩
    split at rest
    · cases rest
    · rename_i other
      exact ⟨column, fresh.mp other, (Outcome.pure_eq_ok_iff.mp rest).symm⟩
  · rintro ⟨column, other, rfl⟩
    exact ⟨(), column, by rw [if_neg (fresh.mpr other)]; rfl⟩

/-- A declaration behind the first one. -/
inductive Step where
  | parent (name : String)
  | field (name : String) (type : FieldType)

def Step.apply (r : Relation) : Step → Except Error Relation
  | parent name => r.withParent name
  | field name type => r.withField name type

/-- A relation that is declared step by step. -/
def build (table key : String) (keyType : FieldType) (steps : List Step) : Except Error Relation := do
  steps.foldlM Step.apply (← new table key keyType)

variable {steps : List Step}

theorem build_nil : build table key keyType [] = new table key keyType := by
  rw [build]
  cases new table key keyType <;> rfl

theorem build_concat_eq_ok_iff {step : Step} : build table key keyType (steps ++ [step]) = .ok s ↔
    ∃ r, build table key keyType steps = .ok r ∧ step.apply r = .ok s := by
  simp only [build, Outcome.bind_eq_ok_iff, List.foldlM_append, List.foldlM_cons, List.foldlM_nil,
    Outcome.pure_eq_ok_iff, exists_eq_right]
  constructor
  · rintro ⟨first, made, r, rest, last⟩
    exact ⟨r, ⟨first, made, rest⟩, last⟩
  · rintro ⟨r, ⟨first, made, rest⟩, last⟩
    exact ⟨first, made, r, rest, last⟩

/-- What holds of the names of a relation, however it was declared. -/
structure IsWellNamed (r : Relation) : Prop where
  keyType : isKeyType r.keyType = true
  table : Identifier.isIdentifier r.table = true
  columns : ∀ f ∈ r.columns, IsColumnName f.name
  fields : (r.fields.map Field.name).Nodup
  key : ∀ f ∈ r.fields, f.name ≠ r.key

theorem isColumnName_defaultParent : IsColumnName defaultParent where
  identifier := by decide
  unreserved := by
    simp only [Identifier.sameName_eq_false_iff]
    decide
  apart := by
    simp only [Identifier.toList_lower]
    decide

theorem isWellNamed_new (made : new table key keyType = .ok r) : r.IsWellNamed := by
  obtain ⟨identifier, column, keyed, rfl⟩ := new_eq_ok_iff.1 made
  exact {
    keyType := keyed
    table := identifier
    columns := by simp [Relation.columns, column, isColumnName_defaultParent]
    fields := List.nodup_nil
    key := fun f member => by cases member }

theorem IsWellNamed.withParent (well : r.IsWellNamed) (made : r.withParent name = .ok s) : s.IsWellNamed := by
  obtain ⟨column, other, rfl⟩ := withParent_eq_ok_iff.1 made
  have columns := well.columns
  simp only [Relation.columns, List.forall_mem_cons] at columns
  exact {
    keyType := well.keyType
    table := well.table
    columns := by
      simp only [Relation.columns, List.forall_mem_cons]
      exact ⟨columns.1, column, columns.2.2⟩
    fields := well.fields
    key := well.key }

theorem IsWellNamed.withField (well : r.IsWellNamed) (made : r.withField name type = .ok s) : s.IsWellNamed := by
  obtain ⟨column, fresh, rfl⟩ := withField_eq_ok_iff.1 made
  have columns := well.columns
  simp only [Relation.columns, List.forall_mem_cons] at columns fresh
  exact {
    keyType := well.keyType
    table := well.table
    columns := by
      simp only [Relation.columns, List.forall_mem_cons, List.forall_mem_append]
      exact ⟨columns.1, columns.2.1, columns.2.2, column, fun f member => by cases member⟩
    fields := by
      rw [List.map_append, List.nodup_append]
      refine ⟨well.fields, List.nodup_singleton _, ?_⟩
      intro a inFields b inNew
      obtain ⟨f, member, rfl⟩ := List.mem_map.mp inFields
      rw [List.mem_singleton.mp inNew]
      exact fresh.2.2 f member
    key := by
      rw [List.forall_mem_append, List.forall_mem_singleton]
      exact ⟨well.key, fun same => fresh.1 same.symm⟩ }

theorem isWellNamed_of_build (built : build table key keyType steps = .ok r) : r.IsWellNamed := by
  induction steps using List.reverseRecOn generalizing r with
  | nil => exact isWellNamed_new (build_nil ▸ built)
  | append_singleton steps step ih =>
    obtain ⟨r, before, made⟩ := build_concat_eq_ok_iff.1 built
    cases step with
    | parent name => exact (ih before).withParent made
    | field name type => exact (ih before).withField made

/-- Whether no two columns of a relation have one name. -/
def HasDistinctColumns (r : Relation) : Prop := (r.columns.map Field.name).Nodup

theorem hasDistinctColumns_iff (well : r.IsWellNamed) :
    r.HasDistinctColumns ↔ r.parent ≠ r.key ∧ ∀ f ∈ r.fields, f.name ≠ r.parent := by
  have key := well.key
  simp only [HasDistinctColumns, columns, List.map_cons, List.nodup_cons, List.mem_cons, List.mem_map, not_or,
    not_exists, not_and, well.fields, and_true]
  constructor
  · rintro ⟨⟨other, -⟩, fields⟩
    exact ⟨fun same => other same.symm, fields⟩
  · rintro ⟨other, fields⟩
    exact ⟨⟨fun same => other same.symm, key⟩, fields⟩

/-- Whether the parent got a name of its own, seen from the last declaration back: named last, it is not called as a
field declared before; never named, its default name is not the one of the key. -/
def ParentApart (key : String) : List Step → Prop
  | [] => key ≠ defaultParent
  | .field _ _ :: earlier => ParentApart key earlier
  | .parent name :: earlier => ∀ type, .field name type ∉ earlier

theorem mem_fields_of_build {f : Field} (built : build table key keyType steps = .ok r) :
    f ∈ r.fields ↔ .field f.name f.type ∈ steps := by
  induction steps using List.reverseRecOn generalizing r with
  | nil =>
    obtain ⟨-, -, -, rfl⟩ := new_eq_ok_iff.1 (build_nil ▸ built)
    simp
  | append_singleton steps step ih =>
    obtain ⟨r, before, made⟩ := build_concat_eq_ok_iff.1 built
    have earlier := ih before
    cases step with
    | parent name =>
      obtain ⟨-, -, rfl⟩ := withParent_eq_ok_iff.1 made
      simp [earlier]
    | field name type =>
      obtain ⟨-, -, rfl⟩ := withField_eq_ok_iff.1 made
      obtain ⟨column, kind⟩ := f
      simp [earlier]

theorem hasDistinctColumns_iff_of_build (built : build table key keyType steps = .ok r) :
    r.HasDistinctColumns ↔ ParentApart key steps.reverse := by
  induction steps using List.reverseRecOn generalizing r with
  | nil =>
    have well := isWellNamed_of_build built
    obtain ⟨-, -, -, rfl⟩ := new_eq_ok_iff.1 (build_nil ▸ built)
    rw [hasDistinctColumns_iff well, List.reverse_nil, ParentApart]
    simp [eq_comm]
  | append_singleton steps step ih =>
    have well := isWellNamed_of_build built
    obtain ⟨r, before, made⟩ := build_concat_eq_ok_iff.1 built
    have earlier := ih before
    rw [List.reverse_append, List.reverse_singleton, List.singleton_append]
    cases step with
    | parent name =>
      obtain ⟨-, other, rfl⟩ := withParent_eq_ok_iff.1 made
      rw [hasDistinctColumns_iff well, ParentApart, and_iff_right other]
      constructor
      · intro apart type member
        exact apart ⟨name, type⟩ ((mem_fields_of_build before).mpr (List.mem_reverse.mp member)) rfl
      · rintro absent f member rfl
        exact absent f.type (List.mem_reverse.mpr ((mem_fields_of_build before).mp member))
    | field name type =>
      obtain ⟨-, fresh, rfl⟩ := withField_eq_ok_iff.1 made
      rw [hasDistinctColumns_iff (isWellNamed_of_build before)] at earlier
      rw [hasDistinctColumns_iff well, ParentApart, ← earlier, List.forall_mem_append, List.forall_mem_singleton]
      have unlike : name ≠ r.parent := fun same => fresh ⟨r.parent, r.keyType⟩ (by simp [columns]) same.symm
      simp [unlike]

/-- The types of the columns are found by their names, unless a field has the name of the parent and another type. -/
theorem fieldType?_columns_iff (well : r.IsWellNamed) :
    (∀ f ∈ r.columns, r.fieldType? f.name = some f.type) ↔ ∀ f ∈ r.fields, f.name = r.parent → f.type = r.keyType := by
  simp only [columns, List.forall_mem_cons, fieldType?_key, fieldType?_parent, true_and]
  refine forall₂_congr fun f member => ?_
  rw [fieldType?]
  by_cases parent : f.name = r.parent
  · simp [parent, eq_comm]
  · simp [parent, well.key f member, find?_of_nodup well.fields member]

/-- The table of a relation can be created exactly when its name is not one that the store keeps for itself and no two
columns have the same name in some case of their letters. -/
theorem exists_create_iff : (∃ db, Database.empty.create (Database.tableOf r) = .ok db) ↔
    ¬ Database.ownBeginning.toList <+: (Identifier.lower r.table).toList ∧
      (r.columns.map fun f => Identifier.lower f.name).Nodup := by
  have names : ((Database.tableOf r).columns.map fun c => Identifier.lower c.name)
      = r.columns.map fun f => Identifier.lower f.name := by
    rw [Database.tableOf, List.map_map]
    rfl
  have checks : Database.empty.create (Database.tableOf r) =
      if Database.ownBeginning.toList.isPrefixOf (Identifier.lower r.table).toList then .error .store
      else if (r.columns.map fun f => Identifier.lower f.name).eraseDups.length
        ≠ (r.columns.map fun f => Identifier.lower f.name).length then .error .store
      else .ok ⟨[.table (Database.tableOf r)]⟩ := by
    rw [← names]
    rfl
  rw [checks, ← length_eraseDups_eq_iff, ← List.isPrefixOf_iff_prefix]
  split
  · rename_i own
    simp [own]
  · rename_i free
    split
    · rename_i shorter
      simp only [reduceCtorEq, exists_false, false_iff, not_and]
      exact fun _ => shorter
    · rename_i same
      simp only [Except.ok.injEq, exists_eq', true_iff]
      exact ⟨free, Decidable.not_not.mp same⟩

/-- Whether a relation was declared step by step. -/
def IsDeclared (r : Relation) : Prop := ∃ table key keyType steps, build table key keyType steps = .ok r

/-- The names of a relation: its table and its columns. -/
def names (r : Relation) : List String := r.table :: r.columns.map Field.name

theorem IsDeclared.isIdentifier {r : Relation} (declared : r.IsDeclared) :
    ∀ name ∈ r.names, Identifier.isIdentifier name = true := by
  obtain ⟨table, key, keyType, steps, built⟩ := declared
  have well := isWellNamed_of_build built
  rw [names, List.forall_mem_cons, List.forall_mem_map]
  exact ⟨well.table, fun f member => (well.columns f member).identifier⟩

/-- A name of a known type is that of a column. -/
theorem mem_columns_of_fieldType? {r : Relation} {name : String} (known : (r.fieldType? name).isSome) :
    name ∈ r.columns.map Field.name := by
  rw [fieldType?] at known
  split at known
  · rename_i own
    rcases own with rfl | rfl <;> simp [columns]
  · rw [Option.isSome_map, List.find?_isSome] at known
    obtain ⟨f, member, same⟩ := known
    rw [← beq_iff_eq.mp same]
    simp only [columns, List.map_cons, List.mem_cons, List.mem_map]
    exact Or.inr (Or.inr ⟨f, member, rfl⟩)

/-- A column of a known type has a name of the relation. -/
theorem mem_names_of_fieldType? {r : Relation} {name : String} (known : (r.fieldType? name).isSome) :
    name ∈ r.names :=
  List.mem_cons_of_mem _ (mem_columns_of_fieldType? known)

/-- Every relation has a key of a type that can identify rows, a table that is an identifier, and columns whose names
are identifiers that statements do not use for themselves; no two fields have one name, and none the name of the key.
All its columns have different names exactly when the parent is called neither as a field that was declared before it
was named, nor, never named, as the key is. Only then is each column found with its own type, but for a field of the
key's type in the place of the parent; and only then does the store, which does not tell the cases of a letter
apart, create the table. -/
theorem declared_columns (built : build table key keyType steps = .ok r) :
    r.IsWellNamed ∧
    (r.HasDistinctColumns ↔ ParentApart key steps.reverse) ∧
    (r.HasDistinctColumns ↔ r.parent ≠ r.key ∧ ∀ f ∈ r.fields, f.name ≠ r.parent) ∧
    (r.HasDistinctColumns → ∀ f ∈ r.columns, r.fieldType? f.name = some f.type) ∧
    ((∀ f ∈ r.columns, r.fieldType? f.name = some f.type) ↔ ∀ f ∈ r.fields, f.name = r.parent → f.type = r.keyType) ∧
    ((∃ db, Database.empty.create (Database.tableOf r) = .ok db) → r.HasDistinctColumns) ∧
    ((∃ db, Database.empty.create (Database.tableOf r) = .ok db) ↔
      ¬ Database.ownBeginning.toList <+: (Identifier.lower r.table).toList ∧
        (r.columns.map fun f => Identifier.lower f.name).Nodup) := by
  have well := isWellNamed_of_build built
  refine ⟨well, hasDistinctColumns_iff_of_build built, hasDistinctColumns_iff well, fun distinct => ?_,
    fieldType?_columns_iff well, fun created => ?_, exists_create_iff⟩
  · obtain ⟨-, apart⟩ := (hasDistinctColumns_iff well).mp distinct
    exact (fieldType?_columns_iff well).mpr fun f member same => absurd same (apart f member)
  · have lower := (exists_create_iff.mp created).2
    rw [← Function.comp_def, ← List.map_map] at lower
    exact lower.of_map Identifier.lower

theorem declared_columns_sample : ∃ r, build "nodes" "id" .integer [.parent "owner", .field "name" .text] = .ok r ∧
    r.HasDistinctColumns ∧ ∃ db, Database.empty.create (Database.tableOf r) = .ok db := by
  have built : build "nodes" "id" .integer [.parent "owner", .field "name" .text]
      = .ok ⟨"nodes", "id", .integer, "owner", [⟨"name", .text⟩]⟩ := by decide +kernel
  have lowered : ∀ name ∈ ["id", "owner", "name"], Identifier.lower name = name := by
    simp only [Identifier.lower_eq_iff]
    decide
  have free : ¬ Database.ownBeginning.toList <+: (Identifier.lower "nodes").toList := by
    rw [Identifier.toList_lower]
    decide
  obtain ⟨-, apart, -, -, -, -, creates⟩ := declared_columns built
  refine ⟨_, built, apart.mpr (by simp [ParentApart]), creates.mpr ⟨free, ?_⟩⟩
  change (["id", "owner", "name"].map Identifier.lower).Nodup
  rw [List.map_congr_left lowered, List.map_id']
  decide

/-- The default parent may be the key, a field may become the parent and is then found with the type of the key, and
names may differ in the case of their letters only, which the store refuses. -/
theorem declared_clash :
    (∃ r, build "nodes" "parent_id" .integer [] = .ok r ∧ ¬ r.HasDistinctColumns) ∧
    (∃ r, build "nodes" "id" .integer [.field "owner" .text, .parent "owner"] = .ok r ∧ ¬ r.HasDistinctColumns ∧
      ⟨"owner", .text⟩ ∈ r.columns ∧ r.fieldType? "owner" = some .integer) ∧
    ∃ r, build "nodes" "id" .integer [.field "ID" .text] = .ok r ∧
      ¬ ∃ db, Database.empty.create (Database.tableOf r) = .ok db := by
  refine ⟨⟨⟨"nodes", "parent_id", .integer, "parent_id", []⟩, by decide +kernel, ?_⟩,
    ⟨⟨"nodes", "id", .integer, "owner", [⟨"owner", .text⟩]⟩, by decide +kernel, ?_, by simp [columns], by decide⟩,
    ⟨"nodes", "id", .integer, "parent_id", [⟨"ID", .text⟩]⟩, by decide +kernel, ?_⟩
  · simp [HasDistinctColumns, columns]
  · simp [HasDistinctColumns, columns]
  · have upper : Identifier.lower "ID" = "id" := Identifier.lower_eq_iff.mpr (by decide)
    have lower : Identifier.lower "id" = "id" := Identifier.lower_eq_iff.mpr (by decide)
    rw [exists_create_iff]
    simp [columns, upper, lower]

end Relation

end ForestQuery
