import ForestQuery.Proofs.Text.Order
import ForestQuery.Proofs.Uuid
import ForestQuery.Value.Order
/-!
The order of values as the order of three keys: the place of the kind, the number in units of the
smallest double, and the bytes. Main statements: values are in a linear preorder, and identifiers that
are equal for the store are the same.
-/

namespace ForestQuery

namespace Value

/-- The number that the value is, in units of the smallest double. -/
def units : Value → Int
  | integer i => i.toInt * Binary64.unit
  | real x => x.units
  | null | text _ | blob _ => 0

/-- The bytes that the value is made of. -/
def bytes : Value → List UInt8
  | text s => Text.utf8 s.toList
  | blob bs => bs
  | null | integer _ | real _ => []

theorem unit_pos : 0 < (Binary64.unit : Int) := by
  rw [Binary64.unit, Nat.one_shiftLeft]
  exact_mod_cast Nat.two_pow_pos 1074

theorem compare_mul_unit (i j : Int) : Ord.compare (i * (Binary64.unit : Int)) (j * Binary64.unit) = Ord.compare i j := by
  have positive := unit_pos
  rcases Int.lt_trichotomy i j with less | same | greater
  · rw [Int.compare_eq_lt.mpr less, Int.compare_eq_lt.mpr (Int.mul_lt_mul_of_pos_right less positive)]
  · rw [same, Int.compare_eq_eq.mpr rfl, Int.compare_eq_eq.mpr rfl]
  · rw [Int.compare_eq_gt.mpr greater, Int.compare_eq_gt.mpr (Int.mul_lt_mul_of_pos_right greater positive)]

/-- The order by kind, then by number, then by bytes. -/
theorem compare_eq_then (v w : Value) :
    compare v w = (Ord.compare v.rank w.rank).then ((Ord.compare v.units w.units).then
      (Ord.compare v.bytes w.bytes)) := by
  cases v <;> cases w <;>
    simp only [compare, rank, units, bytes, Binary64.compareInt, Binary64.compareNumeric, Text.compareText,
      Text.compareBytes_eq_compare, compare_mul_unit, Std.ReflCmp.compare_self, Ordering.then_eq, Ordering.eq_then,
      ← Std.OrientedCmp.eq_swap] <;> rfl

theorem compare_eq_compareLex : compare = compareLex (compareOn rank) (compareLex (compareOn units) (compareOn bytes)) := by
  funext v w
  exact compare_eq_then v w

instance : Std.TransCmp compare := by
  rw [compare_eq_compareLex]
  infer_instance

theorem same_iff {v w : Value} : same v w = true ↔ v.rank = w.rank ∧ v.units = w.units ∧ v.bytes = w.bytes := by
  rw [same, beq_iff_eq, compare_eq_then, Ordering.then_eq_eq, Ordering.then_eq_eq, Std.compare_eq_iff_eq,
    Std.compare_eq_iff_eq, Std.compare_eq_iff_eq]

/-- Texts and blobs are equal for a store only if they are the same. -/
theorem eq_of_same_bytes {v w : Value} (ofBytes : (∃ s, w = .text s) ∨ ∃ xs, w = .blob xs)
    (equal : same w v = true) : w = v := by
  obtain ⟨rank, -, bytes⟩ := same_iff.1 equal
  rcases ofBytes with ⟨s, rfl⟩ | ⟨xs, rfl⟩ <;> cases v <;> cases rank
  · exact congrArg Value.text (String.toList_inj.mp (Text.utf8_injective bytes))
  · exact congrArg Value.blob bytes

theorem same_symm {v w : Value} (h : same v w = true) : same w v = true :=
  beq_iff_eq.mpr (Std.OrientedCmp.eq_symm (beq_iff_eq.mp h))

theorem same_trans {u v w : Value} (first : same u v = true) (second : same v w = true) : same u w = true :=
  beq_iff_eq.mpr (Std.TransCmp.eq_trans (beq_iff_eq.mp first) (beq_iff_eq.mp second))

theorem same_self (v : Value) : same v v = true := beq_iff_eq.mpr Std.ReflCmp.compare_self

end Value

theorem Uuid.text_injective {u v : Uuid} (same : u.text = v.text) : u = v := by
  have chars : u.chars = v.chars := by
    rw [← String.toList_ofList (l := u.chars), ← String.toList_ofList (l := v.chars)]
    exact congrArg String.toList same
  have read := u.ofChars?_chars
  rw [chars, v.ofChars?_chars] at read
  exact (Option.some.inj read).symm

namespace NodeId

theorem toValue_injective {a b : NodeId} (h : a.toValue = b.toValue) : a = b := by
  cases a with
  | int i =>
    cases b with
    | int j => exact congrArg int (Value.integer.inj h)
    | uuid u => cases h
  | uuid u =>
    cases b with
    | int j => cases h
    | uuid w => exact congrArg uuid (Uuid.text_injective (Value.text.inj h))

/-- Identifiers that are equal for the store are the same. -/
theorem same_toValue_iff {a b : NodeId} : Value.same a.toValue b.toValue = true ↔ a = b := by
  constructor
  · intro h
    apply toValue_injective
    cases a with
    | int i =>
      cases b with
      | int j => exact congrArg Value.integer (Value.same_integer_iff.mp h)
      | uuid u => cases (Value.same_iff.mp h).1
    | uuid u =>
      cases b with
      | int j => cases (Value.same_iff.mp h).1
      | uuid w => exact Value.eq_of_same_bytes (Or.inl ⟨u.text, rfl⟩) h
  · rintro rfl
    exact Value.same_self _

end NodeId

end ForestQuery
