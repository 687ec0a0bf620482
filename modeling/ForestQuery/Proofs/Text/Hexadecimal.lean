import ForestQuery.Proofs.Text.Order
import Mathlib.Data.List.Basic
/-!
The order of hexadecimal texts. Main statements: they are in the order of their bytes, zeros behind bytes that
do not end in zero keep that order, and complements of one length are in the order against it.
-/

namespace ForestQuery.Text

variable {a b raw : List UInt8} {m n : Nat}

/-- Bytes that do not end in zero. -/
def IsUnpadded (bytes : List UInt8) : Prop := bytes.getLast? ≠ some 0

theorem compare_upperHexDigit {d e : Nat} (first : d < 16) (second : e < 16) :
    compare (upperHexDigit d).toNat (upperHexDigit e).toNat = compare d e := by
  have all : ∀ x y : Fin 16, compare (upperHexDigit x).toNat (upperHexDigit y).toNat = compare x.val y.val := by decide
  exact all ⟨d, first⟩ ⟨e, second⟩

/-- The halves of a byte decide in turn. -/
theorem compare_byte (x y : UInt8) :
    (compare (x.toNat / 16) (y.toNat / 16)).then (compare (x.toNat % 16) (y.toNat % 16)) = compare x y := by
  rw [← compare_toNat]
  rcases Nat.lt_trichotomy (x.toNat / 16) (y.toNat / 16) with less | same | greater
  · rw [Nat.compare_eq_lt.mpr less, Nat.compare_eq_lt.mpr (show x.toNat < y.toNat by omega)]
    rfl
  · rw [Nat.compare_eq_eq.mpr same, Ordering.eq_then]
    rcases Nat.lt_trichotomy (x.toNat % 16) (y.toNat % 16) with less' | same' | greater'
    · rw [Nat.compare_eq_lt.mpr less', Nat.compare_eq_lt.mpr (by omega)]
    · rw [Nat.compare_eq_eq.mpr same', Nat.compare_eq_eq.mpr (by omega)]
    · rw [Nat.compare_eq_gt.mpr greater', Nat.compare_eq_gt.mpr (by omega)]
  · rw [Nat.compare_eq_gt.mpr greater, Nat.compare_eq_gt.mpr (show y.toNat < x.toNat by omega)]
    rfl

theorem hexOfBytes_cons (x : UInt8) (r : List UInt8) :
    hexOfBytes (x :: r) = upperHexDigit (x.toNat / 16) :: upperHexDigit (x.toNat % 16) :: hexOfBytes r := rfl

/-- The digits of bytes are in the order of these. -/
theorem compare_hexOfBytes (a b : List UInt8) : compare (codes (hexOfBytes a)) (codes (hexOfBytes b)) = compare a b := by
  induction a generalizing b with
  | nil => cases b <;> rfl
  | cons x r ih =>
    cases b with
    | nil => rfl
    | cons y s =>
      have boundX := x.toNat_lt
      have boundY := y.toNat_lt
      rw [hexOfBytes_cons, hexOfBytes_cons, codes_cons, codes_cons, codes_cons, codes_cons, compare_cons, compare_cons,
        compare_cons, ih, compare_upperHexDigit (by omega) (by omega), compare_upperHexDigit (by omega) (by omega),
        ← Ordering.then_assoc, compare_byte]

/-- Zeros behind the digits of bytes are the digits of zeros behind these. -/
theorem padRight_hexOfBytes (bytes : Nat) (raw : List UInt8) :
    padRight (bytes * 2) '0' (hexOfBytes raw) = hexOfBytes (raw ++ List.replicate (bytes - raw.length) 0) := by
  have zeros : ∀ count, hexOfBytes (List.replicate count 0) = List.replicate (count * 2) '0' := by
    intro count
    induction count with
    | zero => rfl
    | succ n ih =>
      rw [List.replicate_succ, hexOfBytes_cons, ih, Nat.succ_mul, List.replicate_succ, List.replicate_succ]
      rfl
  have digits : hexOfBytes (raw ++ List.replicate (bytes - raw.length) 0)
      = hexOfBytes raw ++ hexOfBytes (List.replicate (bytes - raw.length) 0) := List.flatMap_append
  rw [digits, zeros, padRight, length_hexOfBytes, Nat.mul_comm 2, ← Nat.sub_mul]

/-- Zeros alone are what other bytes are filled up to, or come before that. -/
theorem compare_zeros (b : List UInt8) (length : m = b.length + n) :
    List.replicate m 0 = b ++ List.replicate n 0 ∨ compare (List.replicate m 0) (b ++ List.replicate n 0) = .lt := by
  induction b generalizing m with
  | nil => exact Or.inl (by rw [length, List.length_nil, Nat.zero_add, List.nil_append])
  | cons y s ih =>
    obtain ⟨k, rfl⟩ : ∃ k, m = k + 1 := ⟨s.length + n, by rw [length, List.length_cons]; omega⟩
    rw [List.replicate_succ, List.cons_append]
    by_cases zero : y = 0
    · subst zero
      rw [compare_cons_self]
      exact (ih (by rw [List.length_cons] at length; omega)).imp (congrArg (List.cons 0)) id
    · have positive : 0 < y.toNat := Nat.pos_of_ne_zero fun none => zero (UInt8.toNat_inj.mp none)
      right
      rw [compare_cons, ← compare_toNat, show (0 : UInt8).toNat = 0 from rfl, Nat.compare_eq_lt.mpr positive]
      rfl

/-- Bytes that are filled up with zeros to one length keep their order, unless they become the same. -/
theorem compare_append_zeros (length : a.length + m = b.length + n) :
    a ++ List.replicate m 0 = b ++ List.replicate n 0 ∨
      compare (a ++ List.replicate m 0) (b ++ List.replicate n 0) = compare a b := by
  induction a generalizing b with
  | nil =>
    cases b with
    | nil => exact Or.inl (by rw [show m = n by simpa using length])
    | cons y s => exact compare_zeros (y :: s) (by simpa using length)
  | cons x r ih =>
    cases b with
    | nil => exact (compare_zeros (x :: r) (by simpa using length.symm)).imp Eq.symm Std.OrientedCmp.gt_of_lt
    | cons y s =>
      rw [List.cons_append, List.cons_append, compare_cons, compare_cons]
      by_cases same : x = y
      · subst same
        have rest := ih (b := s) (by simp only [List.length_cons] at length; omega)
        rw [show compare x x = .eq from Std.ReflCmp.compare_self, Ordering.eq_then, Ordering.eq_then]
        exact rest.imp (congrArg (List.cons x)) id
      · right
        cases order : compare x y with
        | lt | gt => rfl
        | eq => exact absurd (Std.LawfulEqCmp.eq_of_compare order) same

theorem IsUnpadded.eq_nil_of_append_zeros {c : List UInt8} (unpadded : IsUnpadded (a ++ c))
    (zeros : ∀ x ∈ c, x = 0) : c = [] := by
  rcases List.eq_nil_or_concat c with none | ⟨front, x, rfl⟩
  · exact none
  · rw [List.concat_eq_append] at unpadded zeros
    rw [IsUnpadded, ← List.append_assoc, List.getLast?_append, List.getLast?_singleton, zeros x (by simp)] at unpadded
    exact absurd rfl unpadded

/-- Bytes that do not end in zero are told from others before zeros. -/
theorem eq_of_append_zeros (first : IsUnpadded a) (second : IsUnpadded b)
    (same : a ++ List.replicate m 0 = b ++ List.replicate n 0) : a = b := by
  rcases List.append_eq_append_iff.mp same with ⟨c, rfl, zeros⟩ | ⟨c, rfl, zeros⟩
  · have none := second.eq_nil_of_append_zeros fun x member => List.eq_of_mem_replicate (zeros ▸ List.mem_append_left _ member)
    rw [none, List.append_nil]
  · have none := first.eq_nil_of_append_zeros fun x member => List.eq_of_mem_replicate (zeros ▸ List.mem_append_left _ member)
    rw [none, List.append_nil]

/-- Bytes that do not end in zero keep their order before zeros. -/
theorem compare_append_zeros_of_unpadded (first : IsUnpadded a) (second : IsUnpadded b)
    (length : a.length + m = b.length + n) :
    compare (a ++ List.replicate m 0) (b ++ List.replicate n 0) = compare a b := by
  rcases compare_append_zeros length with same | order
  · rw [same, eq_of_append_zeros first second same, show compare b b = .eq from Std.ReflCmp.compare_self]
    exact Std.ReflCmp.compare_self
  · exact order

theorem exists_of_mem_hexOfBytes {c : Char} (member : c ∈ hexOfBytes raw) : ∃ d < 16, c = upperHexDigit d := by
  obtain ⟨x, -, digit⟩ := List.mem_flatMap.mp member
  have bound := x.toNat_lt
  rcases List.mem_pair.mp digit with rfl | rfl
  · exact ⟨x.toNat / 16, by omega, rfl⟩
  · exact ⟨x.toNat % 16, by omega, rfl⟩

/-- Complements are in the order against that of the digits. -/
theorem compare_complementHex {as bs : List Char} (length : as.length = bs.length)
    (first : ∀ c ∈ as, ∃ d < 16, c = upperHexDigit d) (second : ∀ c ∈ bs, ∃ d < 16, c = upperHexDigit d) :
    compare (codes (complementHex as)) (codes (complementHex bs)) = (compare (codes as) (codes bs)).swap := by
  have digits : ∀ x y : Fin 16,
      compare (complementHexDigit (upperHexDigit x)).toNat (complementHexDigit (upperHexDigit y)).toNat
        = (compare (upperHexDigit x).toNat (upperHexDigit y).toNat).swap := by decide
  induction as generalizing bs with
  | nil =>
    rw [List.eq_nil_of_length_eq_zero length.symm]
    rfl
  | cons c r ih =>
    obtain ⟨e, s, rfl⟩ := List.exists_cons_of_length_eq_add_one length.symm
    obtain ⟨d, small, rfl⟩ := first c (by simp)
    obtain ⟨d', small', rfl⟩ := second e (by simp)
    have rest := ih (show r.length = s.length by simpa using length) (fun c member => first c (by simp [member]))
      fun c member => second c (by simp [member])
    have step := digits ⟨d, small⟩ ⟨d', small'⟩
    change compare (_ :: codes (complementHex r)) (_ :: codes (complementHex s)) = _
    rw [compare_cons, rest, step, codes_cons, codes_cons, compare_cons, Ordering.swap_then]

theorem toNat_continuation (n : Nat) : (UInt8.ofNat (n % 64 + 128)).toNat = n % 64 + 128 := by
  rw [UInt8.toNat_ofNat']
  omega

/-- No character but U+0000 has a last byte of zero. -/
theorem exists_last_utf8EncodeChar {c : Char} (other : c.toNat ≠ 0) :
    ∃ x, (String.utf8EncodeChar c).getLast? = some x ∧ x ≠ 0 := by
  have nonzero : ∀ n, UInt8.ofNat (n % 64 + 128) ≠ 0 := by
    intro n zero
    have value := congrArg UInt8.toNat zero
    rw [toNat_continuation] at value
    cases value
  rw [String.utf8EncodeChar]
  split
  · rename_i small
    refine ⟨_, rfl, fun zero => other ?_⟩
    have value : c.toNat % 256 = 0 := congrArg UInt8.toNat zero
    have bound : c.toNat ≤ 127 := small
    omega
  · split
    · exact ⟨_, rfl, nonzero _⟩
    · split
      · exact ⟨_, rfl, nonzero _⟩
      · exact ⟨_, rfl, nonzero _⟩

/-- The bytes of a text that does not end in U+0000 do not end in zero. -/
theorem isUnpadded_utf8 {cs : List Char} (clean : cs.getLast? ≠ some '\x00') : IsUnpadded (utf8 cs) := by
  rcases List.eq_nil_or_concat cs with rfl | ⟨front, c, rfl⟩
  · exact fun zero => by cases zero
  · have other : c.toNat ≠ 0 := by
      intro zero
      rw [List.concat_eq_append, List.getLast?_append, List.getLast?_singleton] at clean
      exact clean (congrArg some (Char.toNat_inj.mp zero))
    obtain ⟨x, last, positive⟩ := exists_last_utf8EncodeChar other
    rw [IsUnpadded, List.concat_eq_append, utf8_append, utf8, utf8, List.flatMap_singleton, List.getLast?_append, last,
      Option.some_or]
    exact fun zero => positive (Option.some.inj zero)

end ForestQuery.Text
