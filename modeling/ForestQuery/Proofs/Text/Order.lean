import ForestQuery.Text.Digits
import Mathlib.Order.Compare
/-!
The order of byte sequences. Main statements: it is the order of lists, fronts of one length decide
before what stands behind them, different texts have different bytes, and texts of ASCII are in the order
of their codes.
-/

namespace ForestQuery.Text

theorem compare_cons {α : Type} [Ord α] (x y : α) (r s : List α) :
    compare (x :: r) (y :: s) = (compare x y).then (compare r s) := by
  rw [List.compare_eq_compareLex, List.compareLex_cons_cons]

/-- One front decides nothing. -/
theorem compare_cons_self {α : Type} [Ord α] [Std.ReflOrd α] (x : α) (r s : List α) :
    compare (x :: r) (x :: s) = compare r s := by
  have same : compare x x = .eq := Std.ReflCmp.compare_self
  rw [compare_cons, same, Ordering.eq_then]

theorem compareBytes_eq_compare (a b : List UInt8) : compareBytes a b = compare a b := by
  induction a generalizing b with
  | nil => cases b <;> rfl
  | cons x r ih =>
    cases b with
    | nil => rfl
    | cons y s => rw [compareBytes, ih, compare_cons]

/-- Fronts of one length decide before the rest. -/
theorem compare_append {α : Type} [Ord α] {a b : List α} (same : a.length = b.length) (x y : List α) :
    compare (a ++ x) (b ++ y) = (compare a b).then (compare x y) := by
  induction a generalizing b with
  | nil =>
    rw [List.length_nil] at same
    rw [List.eq_nil_of_length_eq_zero same.symm]
    rfl
  | cons c r ih =>
    obtain ⟨d, s, rfl⟩ := List.exists_cons_of_length_eq_add_one same.symm
    have rest := ih (b := s) (by simpa using same)
    rw [List.cons_append, List.cons_append, compare_cons, compare_cons, rest, Ordering.then_assoc]

theorem utf8_append (a b : List Char) : utf8 (a ++ b) = utf8 a ++ utf8 b := by
  simp [utf8]

/-- Different texts have different bytes. -/
theorem utf8_injective {a b : List Char} (same : utf8 a = utf8 b) : a = b := by
  have bytes : (String.ofList a).toByteArray = (String.ofList b).toByteArray := by
    rw [String.toByteArray_ofList, String.toByteArray_ofList, List.utf8Encode, List.utf8Encode]
    exact congrArg (fun l : List UInt8 => l.toByteArray) same
  have texts := String.toByteArray_inj.mp bytes
  rw [← String.toList_ofList (l := a), texts, String.toList_ofList]

theorem compareBytes_eq_eq_iff {a b : List UInt8} : compareBytes a b = .eq ↔ a = b := by
  rw [compareBytes_eq_compare, Std.compare_eq_iff_eq]

theorem compareText_eq_eq_iff {s t : String} : compareText s t = .eq ↔ s = t := by
  rw [compareText, compareBytes_eq_eq_iff]
  constructor
  · intro same
    exact String.toList_inj.mp (utf8_injective same)
  · rintro rfl
    rfl

/-- The codes of characters. -/
def codes (cs : List Char) : List Nat := cs.map Char.toNat

/-- Characters of one byte each. -/
def IsAscii (cs : List Char) : Prop := ∀ c ∈ cs, c.toNat < 128

theorem compare_toNat (x y : UInt8) : compare x.toNat y.toNat = compare x y := by
  have unfolded : compare x y = if x < y then .lt else if x = y then .eq else .gt := rfl
  simp only [unfolded, Nat.compare_eq_ite_lt, UInt8.lt_iff_toNat_lt, ← UInt8.toNat_inj]
  split
  · rfl
  · split
    · rw [if_neg (by omega)]
    · rw [if_pos (by omega)]

theorem utf8EncodeChar_of_lt {c : Char} (h : c.toNat < 128) : String.utf8EncodeChar c = [c.val.toUInt8] := by
  have size : c.utf8Size = 1 := by
    have bound : c.val ≤ 127 := UInt32.le_iff_toNat_le.mpr (Nat.le_of_lt_succ h)
    exact if_pos bound
  exact String.utf8EncodeChar_eq_singleton size

theorem utf8_of_isAscii {cs : List Char} (ascii : IsAscii cs) : utf8 cs = cs.map fun c => c.val.toUInt8 := by
  induction cs with
  | nil => rfl
  | cons c r ih =>
    rw [utf8, List.flatMap_cons, utf8EncodeChar_of_lt (ascii c (by simp)), List.map_cons,
      ← ih fun d member => ascii d (by simp [member])]
    rfl

theorem length_utf8_of_isAscii {cs : List Char} (ascii : IsAscii cs) : (utf8 cs).length = cs.length := by
  rw [utf8_of_isAscii ascii, List.length_map]

theorem codes_of_isAscii {cs : List Char} (ascii : IsAscii cs) : (utf8 cs).map UInt8.toNat = codes cs := by
  rw [utf8_of_isAscii ascii, List.map_map, codes]
  refine List.map_congr_left fun c member => ?_
  have bound := ascii c member
  change c.val.toNat % 256 = c.val.toNat
  exact Nat.mod_eq_of_lt (Nat.lt_trans bound (by decide))

theorem compare_map_toNat (a b : List UInt8) : compare (a.map UInt8.toNat) (b.map UInt8.toNat) = compare a b := by
  induction a generalizing b with
  | nil => cases b <;> rfl
  | cons x r ih =>
    cases b with
    | nil => rfl
    | cons y s =>
      rw [List.map_cons, List.map_cons, compare_cons, compare_cons, ih, compare_toNat]

theorem codes_cons (c : Char) (r : List Char) : codes (c :: r) = c.toNat :: codes r := rfl

theorem codes_append (a b : List Char) : codes (a ++ b) = codes a ++ codes b := List.map_append

theorem length_codes (cs : List Char) : (codes cs).length = cs.length := List.length_map _

/-- Texts of ASCII are in the order of their codes. -/
theorem compare_utf8 {a b : List Char} (first : IsAscii a) (second : IsAscii b) :
    compare (utf8 a) (utf8 b) = compare (codes a) (codes b) := by
  rw [← codes_of_isAscii first, ← codes_of_isAscii second, compare_map_toNat]

theorem compareText_ofList {a b : List Char} (first : IsAscii a) (second : IsAscii b) :
    compareText (String.ofList a) (String.ofList b) = compare (codes a) (codes b) := by
  rw [compareText, compareBytes_eq_compare, String.toList_ofList, String.toList_ofList, compare_utf8 first second]

/-- What holds of each of the first 128 characters holds of a character of one byte. -/
theorem forall_of_ascii {P : Char → Prop} {c : Char} (all : ∀ n : Fin 128, P (Char.ofNat n)) (ascii : c.toNat < 128) :
    P c := by
  have checked := all ⟨c.toNat, ascii⟩
  rwa [Char.ofNat_toNat] at checked

theorem lt_of_hexValue? {c : Char} {d : Nat} (value : hexValue? c = some d) : c.toNat < 128 := by
  rw [hexValue?] at value
  split at value
  · rename_i bounds
    exact Nat.lt_of_le_of_lt (show c.toNat ≤ 57 from bounds.2) (by decide)
  · split at value
    · rename_i bounds
      exact Nat.lt_of_le_of_lt (show c.toNat ≤ 102 from bounds.2) (by decide)
    · split at value
      · rename_i bounds
        exact Nat.lt_of_le_of_lt (show c.toNat ≤ 70 from bounds.2) (by decide)
      · cases value

end ForestQuery.Text
