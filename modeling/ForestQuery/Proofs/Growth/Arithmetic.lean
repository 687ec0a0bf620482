import ForestQuery.Proofs.Acceptance
import ForestQuery.Proofs.Growth
import ForestQuery.Proofs.Relation
import ForestQuery.Proofs.Row.Checked
/-!
Compiling with a check on every sum and product of widths. Main statement: under all settings that are accepted, the
widths of paths and of ancestor fields are counts; those of the ordering column are exactly where its characters at the
limit are, which the settings do not make sure of, as they bound the bytes of a key from below only.
-/

namespace ForestQuery

open SegmentKind

namespace SegmentKind

variable {kind : SegmentKind} {kinds : List SegmentKind}

theorem width_le_levelWidth (member : kind ∈ kinds) : kind.width ≤ levelWidth kinds := by
  induction kinds with
  | nil => cases member
  | cons k kinds ih =>
    rw [levelWidth_cons]
    rcases List.mem_cons.mp member with rfl | later
    · exact Nat.le_add_right _ _
    · exact (ih later).trans (Nat.le_add_left _ _)

/-- The characters of the widest segment that a key may have: the one of an identifier from above or of a text. -/
def widestKey (keyBytes : Nat) : Nat := max (textKey uuidWidth true).width (textKey keyBytes false).width

theorem levelWidth_le {most : Nat} (each : ∀ kind ∈ kinds, kind.width ≤ most) :
    levelWidth kinds ≤ kinds.length * most := by
  induction kinds with
  | nil => rw [levelWidth_nil, List.length_nil, Nat.zero_mul]
  | cons kind kinds ih =>
    obtain ⟨first, rest⟩ := List.forall_mem_cons.mp each
    rw [levelWidth_cons, List.length_cons, Nat.succ_mul, Nat.add_comm]
    exact Nat.add_le_add (ih rest) first

theorem width_ofFieldType_le (textWidth : Nat) (type : FieldType) :
    (ofFieldType textWidth type).width ≤ max uuidWidth (lengthWidth + textWidth) := by
  have integers : integerWidth ≤ uuidWidth := by decide
  cases type with
  | integer => exact integers.trans (Nat.le_max_left _ _)
  | uuid => exact Nat.le_max_left _ _
  | text | real | boolean | blob => exact Nat.le_max_right _ _

end SegmentKind

namespace Checked

variable {kind : SegmentKind} {kinds : List SegmentKind} {g : Growing} {maxDepth total : Nat}

/-- The digits that the segment of a key is filled up to; other segments have none. -/
def digits : SegmentKind → Except Halt Nat
  | .textKey bytes _ => mul bytes 2
  | .integer | .uuid | .text _ => .ok 0

/-- The characters that a column is declared with, and on the way to it all widths that its segments are written in. -/
def room (g : Growing) (maxDepth : Nat) : Except Halt Nat := do
  let level ← levelWidth 0 g.kinds
  let chars ← mul level (← add maxDepth 1)
  let _ ← g.kinds.mapM digits
  return chars

/-- Compiles a request as `Compiler.compile` does. Arrays have no widths. -/
def compile (c : Compiler) (q : Request) : Except Halt Compiled := do
  let out ← lift (c.compile q)
  if out.statement.encoding.native then return out
  let _ ← out.growing.mapM fun g => room g out.maxDepth
  return out

/-- The checks of a width come down to one check of the result. -/
theorem width_eq (kind : SegmentKind) :
    width kind = if kind.width < widthBound then .ok kind.width else .error .overflow := by
  by_cases small : kind.width < widthBound
  · rw [if_pos small, width_eq_ok small]
  · rw [if_neg small]
    cases kind with
    | integer | uuid => exact absurd (by decide) small
    | text w => exact if_neg small
    | textKey bytes descending =>
      rw [width, mul]
      split
      · exact if_neg small
      · rfl

theorem levelWidth_eq (start : total < widthBound) : levelWidth total kinds =
    if total + SegmentKind.levelWidth kinds < widthBound then .ok (total + SegmentKind.levelWidth kinds)
    else .error .overflow := by
  induction kinds generalizing total with
  | nil => rw [levelWidth, levelWidth_nil, Nat.add_zero, if_pos start]
  | cons kind kinds ih =>
    rw [levelWidth, levelWidth_cons, width_eq]
    by_cases small : kind.width < widthBound
    · rw [if_pos small, Outcome.ok_bind, add]
      split
      · rename_i sum
        rw [Outcome.ok_bind, ih sum, Nat.add_assoc]
      · rw [if_neg (by omega)]
        rfl
    · rw [if_neg small, if_neg (by omega)]
      rfl

theorem exists_digits (small : kind.width < widthBound) : ∃ n, digits kind = .ok n := by
  cases kind with
  | integer | uuid | text w => exact ⟨0, rfl⟩
  | textKey bytes descending =>
    have whole : 1 + bytes * 2 < widthBound := small
    exact ⟨_, mul_eq_ok (by omega)⟩

/-- All checks for a column come down to one of its characters at the limit, which are as many as any other width. -/
theorem room_eq (bounded : maxDepth + 1 < widthBound) : room g maxDepth =
    if g.width * (maxDepth + 1) < widthBound then .ok (g.width * (maxDepth + 1)) else .error .overflow := by
  have level : levelWidth 0 g.kinds = if g.width < widthBound then .ok g.width else .error .overflow := by
    rw [levelWidth_eq (by decide), Nat.zero_add, Growing.width]
  have most : g.width ≤ g.width * (maxDepth + 1) := Nat.le_mul_of_pos_right _ (Nat.succ_pos maxDepth)
  rw [room, level]
  by_cases fits : g.width * (maxDepth + 1) < widthBound
  · obtain ⟨ns, written⟩ : ∃ ns, g.kinds.mapM digits = .ok ns := Outcome.exists_mapM_eq_ok fun kind member =>
      exists_digits (((width_le_levelWidth member).trans most).trans_lt fits)
    rw [if_pos fits, if_pos (most.trans_lt fits), add_eq_ok bounded, Outcome.ok_bind, Outcome.ok_bind, mul_eq_ok fits,
      Outcome.ok_bind, written]
    rfl
  · rw [if_neg fits]
    split
    · rw [add_eq_ok bounded, Outcome.ok_bind, Outcome.ok_bind, mul, if_neg fits]
      rfl
    · rfl

theorem compile_eq {c : Compiler} {q : Request} {out : Compiled} (compiled : c.compile q = .ok out)
    (bounded : out.maxDepth + 1 < widthBound) : compile c q =
      if out.statement.encoding.native = true ∨ ∀ g ∈ out.growing, g.width * (out.maxDepth + 1) < widthBound then
        .ok out
      else .error .overflow := by
  rw [compile, compiled, lift_ok, Outcome.ok_bind]
  by_cases native : out.statement.encoding.native = true
  · rw [if_pos native, if_pos (Or.inl native)]
    rfl
  · rw [if_neg native]
    by_cases fits : ∀ g ∈ out.growing, g.width * (out.maxDepth + 1) < widthBound
    · obtain ⟨ns, all⟩ : ∃ ns, (out.growing.mapM fun g => room g out.maxDepth) = .ok ns :=
        Outcome.exists_mapM_eq_ok fun g member => ⟨_, by rw [room_eq bounded, if_pos (fits g member)]⟩
      rw [if_pos (Or.inr fits), all]
      rfl
    · have failed : (out.growing.mapM fun g => room g out.maxDepth) = .error .overflow := by
        simp only [not_forall, exists_prop] at fits
        obtain ⟨g, member, wide⟩ := fits
        refine Outcome.mapM_eq_error (fun g _ => ?_) ⟨g, member, by rw [room_eq bounded, if_neg wide]⟩
        rw [room_eq bounded]
        split
        · exact Or.inl ⟨_, rfl⟩
        · exact Or.inr rfl
      rw [if_neg (not_or.mpr ⟨native, fits⟩), failed]
      rfl

end Checked

namespace SiblingOrder

variable {o : SiblingOrder} {d : Dialect} {native : Bool} {keyBytes : Nat} {source : String}
  {key : KeySource}

theorem width_kind_le (f : SortField) (keyBytes : Nat) : (f.kind keyBytes).width ≤ widestKey keyBytes := by
  have plain : max integerWidth uuidWidth ≤ widestKey keyBytes := (by decide : _ ≤ _).trans (Nat.le_max_left _ _)
  rw [SortField.kind]
  split
  · exact (Nat.le_max_left _ _).trans plain
  · exact (Nat.le_max_right _ _).trans plain
  · exact Nat.le_max_left _ _
  · exact Nat.le_max_right _ _

theorem width_keyPart_le (o : SiblingOrder) (source : String) (keyBytes : Nat) :
    (o.keyPart source).kind.width ≤ widestKey keyBytes :=
  (width_ofFieldType_le 0 o.keyType).trans ((by decide : _ ≤ _).trans (Nat.le_max_left _ _))

/-- A key made of column values has at most one segment for each field and one for the key of the table, none of them
wider than the widest. -/
theorem levelWidth_of_rawKey (made : o.rawKey d native keyBytes source = .ok key) :
    levelWidth key.kinds ≤ (if o.isKeyOnly then 1 else o.fields.length + 1) * widestKey keyBytes := by
  have each : ∀ kind ∈ key.kinds, kind.width ≤ widestKey keyBytes := by
    rw [KeySource.kinds, List.forall_mem_map]
    exact forall_parts_of_rawKey made (o.width_keyPart_le source keyBytes) fun f _ _ => width_kind_le f keyBytes
  refine (levelWidth_le each).trans (Nat.mul_le_mul_right _ ?_)
  rw [KeySource.kinds, List.length_map]
  rcases rawKey_eq_ok_iff.mp made with ⟨keyOnly, rfl⟩ | ⟨other, -, rfl⟩
  · rw [if_pos keyOnly]
    exact Nat.le_refl 1
  · rw [if_neg (Bool.not_eq_true _ ▸ other), KeySource.parts, rawParts, List.length_append, List.length_map]
    split <;> simp

end SiblingOrder

theorem Config.textWidth_of_validate {config : Config} {u : Unit} (valid : config.validate = .ok u) :
    config.textWidth ≤ maxTextWidth := by
  simp only [validate, Outcome.check_eq_ok_iff] at valid
  omega

namespace Compiler

variable {relation : Relation} {config : Config} {c : Compiler} {q : Request} {out : Compiled} {order : SiblingOrder}
  {ancestors : List AncestorField} {key : KeySource}

theorem length_fields_le (resolved : SiblingOrder.resolve c.relation q.ordering = .ok order) :
    (if order.isKeyOnly then 1 else order.fields.length + 1) ≤ q.ordering.length + 1 := by
  obtain ⟨-, rfl⟩ := Request.resolve_eq_ok_iff.mp resolved
  split
  · exact Nat.le_add_left _ _
  · rename_i other
    -- Siblings that are sorted by no criterion of the request are sorted by the key alone.
    rw [Request.isKeyOnly_order, Request.criteria] at other
    rw [Request.order, List.length_map, Request.criteria]
    split at other
    · exact absurd rfl other
    · rename_i some
      rw [if_neg some]

/-- A number among siblings is one integer, and other keys have a segment for each criterion and one more. -/
theorem levelWidth_ordering_le (compiles : c.Compiles q out order ancestors key) :
    levelWidth out.layout.ordering ≤
      if out.ranked then integerWidth else (q.ordering.length + 1) * widestKey c.config.keyBytes := by
  have keyed := compiles.keyed
  rw [compiles.layout, Compiler.layout]
  rw [keySource] at keyed
  split at keyed
  · rename_i ranked
    cases keyed
    rw [if_pos ranked]
    exact Nat.le_refl _
  · rename_i raw
    rw [if_neg raw]
    exact (SiblingOrder.levelWidth_of_rawKey keyed).trans (Nat.mul_le_mul_right _ (length_fields_le compiles.resolved))

/-- So many characters per level are within bounds at every depth. -/
theorem mul_lt_widthBound {width maxDepth : Nat} (narrow : width ≤ lengthWidth + maxTextWidth)
    (bounded : maxDepth < Config.depthBound) : width * (maxDepth + 1) < widthBound :=
  (Nat.mul_le_mul narrow (Nat.succ_le_of_lt bounded)).trans_lt (by decide)

theorem width_path_le (compiles : c.Compiles q out order ancestors key) :
    levelWidth [out.layout.path] ≤ lengthWidth + maxTextWidth := by
  rw [levelWidth_singleton, compiles.layout]
  exact (width_ofFieldType_le 0 c.relation.keyType).trans (by decide)

theorem width_ancestors_le (compiles : c.Compiles q out order ancestors key)
    (narrow : c.config.textWidth ≤ maxTextWidth) :
    ∀ a ∈ out.layout.ancestors, levelWidth [a.2] ≤ lengthWidth + maxTextWidth := by
  rw [compiles.layout, Compiler.layout, List.forall_mem_map]
  intro a _
  rw [levelWidth_singleton, AncestorField.kind]
  exact (width_ofFieldType_le c.config.textWidth a.sourceType).trans
    (Nat.max_le.mpr ⟨by decide, Nat.add_le_add_left narrow _⟩)

/-- Every column but that of the ordering has room at every depth. -/
theorem forall_growing_iff (compiles : c.Compiles q out order ancestors key)
    (narrow : c.config.textWidth ≤ maxTextWidth) (bounded : out.maxDepth < Config.depthBound) :
    (∀ g ∈ out.growing, g.width * (out.maxDepth + 1) < widthBound) ↔
      levelWidth out.layout.ordering * (out.maxDepth + 1) < widthBound := by
  rw [Compiled.growing, List.forall_mem_cons, List.forall_mem_cons]
  constructor
  · rintro ⟨-, ordering, -⟩
    exact ordering
  · refine fun ordering => ⟨mul_lt_widthBound (width_path_le compiles) bounded, ordering, fun g member => ?_⟩
    obtain ⟨i, inside, rfl⟩ := List.getElem_of_mem member
    rw [List.getElem_zipWith]
    exact mul_lt_widthBound (width_ancestors_le compiles narrow _ (List.getElem_mem _)) bounded

/-- Paths and ancestor fields never need more characters than can be counted, at any depth. The ordering column decides
alone: where its characters at the limit can be counted, compiling checks every sum and product of widths without
failing, and where they cannot, one of these overflows. They can where siblings are numbered, and where the widest
segment of a key, for each criterion and once more, has room at the limit. -/
theorem compile_counts (made : Compiler.new relation config = .ok c) (compiled : c.compile q = .ok out)
    (bounded : out.maxDepth < Config.depthBound) :
    levelWidth [out.layout.path] * (out.maxDepth + 1) < widthBound ∧
    (∀ a ∈ out.layout.ancestors, levelWidth [a.2] * (out.maxDepth + 1) < widthBound) ∧
    (Checked.compile c q =
      if out.statement.encoding.native = true ∨ levelWidth out.layout.ordering * (out.maxDepth + 1) < widthBound then
        .ok out
      else .error .overflow) ∧
    (out.ranked = true ∨ (q.ordering.length + 1) * widestKey config.keyBytes * (out.maxDepth + 1) < widthBound →
      levelWidth out.layout.ordering * (out.maxDepth + 1) < widthBound) := by
  obtain ⟨u, valid, native⟩ := Outcome.bind_eq_ok_iff.mp made
  obtain ⟨native, -, shape⟩ := Outcome.bind_eq_ok_iff.mp native
  cases shape
  obtain ⟨order, ancestors, key, compiles⟩ := compile_eq_ok compiled
  have narrow := Config.textWidth_of_validate valid
  have count : out.maxDepth + 1 < widthBound := (Nat.succ_le_of_lt bounded).trans_lt (by decide)
  refine ⟨mul_lt_widthBound (width_path_le compiles) bounded,
    fun a member => mul_lt_widthBound (width_ancestors_le compiles narrow a member) bounded, ?_, fun moderate => ?_⟩
  · rw [Checked.compile_eq compiled count]
    simp only [forall_growing_iff compiles narrow bounded]
  · have most := levelWidth_ordering_le compiles
    by_cases ranked : out.ranked = true
    · rw [if_pos ranked] at most
      exact mul_lt_widthBound (most.trans (by decide)) bounded
    · rw [if_neg ranked] at most
      exact (Nat.mul_le_mul_right _ most).trans_lt (moderate.resolve_left ranked)

theorem compile_counts_text_key : ∃ relation config c out,
    Compiler.new relation config = .ok c ∧ out.maxDepth = 4294967295 ∧
    levelWidth out.layout.ordering * (out.maxDepth + 1) = 365072220160 ∧
    Checked.compile c (Request.empty.orderedBy ["name"]) = .ok out := by
  have made : Compiler.new ⟨"nodes", "id", .integer, "parent_id", [⟨"name", .text⟩]⟩
      ⟨.mysql, 4294967295, .auto, some false, 64, 32, true⟩ = .ok ⟨_, _, false⟩ := rfl
  have checks : ((Compiler.mk ⟨"nodes", "id", .integer, "parent_id", [⟨"name", .text⟩]⟩
      ⟨.mysql, 4294967295, .auto, some false, 64, 32, true⟩ false).compile
      (Request.empty.orderedBy ["name"])).toOption.any
      (fun out => out.maxDepth == 4294967295 && out.layout.ordering == [.textKey 32 false, .integer]) = true := by
    decide
  obtain ⟨out, compiled, holds⟩ := Outcome.exists_of_any checks
  rw [Bool.and_eq_true, beq_iff_eq, beq_iff_eq] at holds
  obtain ⟨limit, kinds⟩ := holds
  obtain ⟨-, -, checked, room⟩ := compile_counts made compiled (by
    rw [limit]
    decide)
  have fits := room (Or.inr (by
    rw [limit]
    decide))
  rw [if_pos (Or.inr fits)] at checked
  refine ⟨_, _, _, out, made, limit, ?_, checked⟩
  rw [limit, kinds]
  decide

/-- Settings with a key of two to the 63rd power bytes are accepted, and so is a request that orders by a text: the
segment of its key would be wider than can be counted, and a sum or product on the way to it overflows. -/
theorem key_overflows : ∃ relation config c out,
    Relation.build "nodes" "id" .integer [.field "name" .text] = .ok relation ∧ config.validate = .ok () ∧
    config.keyBytes < widthBound ∧ Compiler.new relation config = .ok c ∧
    c.compile (Request.empty.orderedBy ["name"]) = .ok out ∧
    out.layout.ordering = [.textKey config.keyBytes false, .integer] ∧
    widthBound ≤ (textKey config.keyBytes false).width ∧
    Checked.compile c (Request.empty.orderedBy ["name"]) = .error .overflow := by
  let relation : Relation := ⟨"nodes", "id", .integer, "parent_id", [⟨"name", .text⟩]⟩
  let config : Config := ⟨.mysql, 50, .auto, some false, 64, 9223372036854775808, true⟩
  let c : Compiler := ⟨relation, config, false⟩
  have built : Relation.build "nodes" "id" .integer [.field "name" .text] = .ok relation := by decide +kernel
  have checks : (c.compile (Request.empty.orderedBy ["name"])).toOption.any (fun out => out.maxDepth == 50 &&
      out.layout.ordering == [.textKey config.keyBytes false, .integer] && !out.statement.encoding.native) = true := by
    decide
  obtain ⟨out, compiled, holds⟩ := Outcome.exists_of_any checks
  rw [Bool.and_eq_true, Bool.and_eq_true, beq_iff_eq, beq_iff_eq, Bool.not_eq_true'] at holds
  obtain ⟨⟨limit, kinds⟩, texts⟩ := holds
  have wide : ¬ ∀ g ∈ out.growing, g.width * (out.maxDepth + 1) < widthBound := by
    intro fits
    have ordering : levelWidth out.layout.ordering * (out.maxDepth + 1) < widthBound :=
      fits ⟨out.statement.ordering, out.layout.ordering⟩ (by simp [Compiled.growing])
    rw [limit, kinds] at ordering
    exact absurd ordering (by decide)
  have overflow := Checked.compile_eq compiled (by
    rw [limit]
    decide)
  rw [if_neg (not_or.mpr ⟨by rw [texts]; decide, wide⟩)] at overflow
  exact ⟨relation, config, c, out, built, rfl, by decide, rfl, compiled, kinds, by decide, overflow⟩

end Compiler

end ForestQuery
