import ForestQuery.Proofs.Text.Order
/-!
Decimal texts behind zeros. Main statements: such a text has its width and reads back as its number, digits are the
only text of their width for the number that they denote, and two texts of one width are in the order of their numbers.
-/

namespace ForestQuery.Text

/-- The number that digits denote behind a number already read. -/
def readDigits (n : Nat) (cs : List Char) : Option Nat :=
  cs.foldlM (fun n d => (digitValue? d).map (n * 10 + ·)) n

theorem natOfDigits?_eq_readDigits {cs : List Char} (h : cs ≠ []) :
    natOfDigits? cs = readDigits 0 cs := by
  cases cs with
  | nil => exact absurd rfl h
  | cons c r => rfl

theorem readDigits_append (n : Nat) (as bs : List Char) :
    readDigits n (as ++ bs) = (readDigits n as).bind fun m => readDigits m bs := by
  simp [readDigits, List.foldlM_append]

theorem digitValue?_digitChar {d : Nat} (h : d < 10) : digitValue? d.digitChar = some d := by
  have all : ∀ x : Fin 10, digitValue? (x : Nat).digitChar = some (x : Nat) := by decide
  exact all ⟨d, h⟩

theorem decimalDigits_of_lt {n : Nat} (h : n < 10) : decimalDigits n = [n.digitChar] :=
  Nat.toDigits_of_lt_base h

theorem decimalDigits_of_le {n : Nat} (h : 10 ≤ n) :
    decimalDigits n = decimalDigits (n / 10) ++ [(n % 10).digitChar] :=
  Nat.toDigits_of_base_le (by decide) h

theorem decimalDigits_ne_nil (n : Nat) : decimalDigits n ≠ [] := by
  by_cases small : n < 10
  · simp [decimalDigits_of_lt small]
  · simp [decimalDigits_of_le (Nat.le_of_not_lt small)]

theorem isDigit_of_mem_decimalDigits (n : Nat) : ∀ c ∈ decimalDigits n, c.isDigit = true :=
  fun _ member => Nat.isDigit_of_mem_toDigits (by decide) (by decide) member

theorem exists_decimalDigits (n : Nat) : ∃ c cs, decimalDigits n = c :: cs ∧ c.isDigit = true := by
  obtain ⟨c, cs, shape⟩ := List.exists_cons_of_ne_nil (decimalDigits_ne_nil n)
  exact ⟨c, cs, shape, isDigit_of_mem_decimalDigits n c (shape ▸ List.mem_cons_self)⟩

theorem readDigits_decimalDigits (n : Nat) : readDigits 0 (decimalDigits n) = some n := by
  induction n using Nat.strongRecOn with
  | _ n ih =>
    by_cases small : n < 10
    · rw [decimalDigits_of_lt small]
      simp [readDigits, digitValue?_digitChar small]
    · have last := digitValue?_digitChar (Nat.mod_lt n (by decide : 10 > 0))
      rw [decimalDigits_of_le (Nat.le_of_not_lt small), readDigits_append, ih (n / 10) (by omega)]
      simp only [readDigits, Option.bind_some, List.foldlM_cons, last, Option.map_some, bind, List.foldlM_nil, pure]
      congr 1
      omega

theorem natOfDigits?_decimalDigits (n : Nat) : natOfDigits? (decimalDigits n) = some n := by
  rw [natOfDigits?_eq_readDigits (decimalDigits_ne_nil n), readDigits_decimalDigits]

/-- No number but zero starts with a zero. -/
theorem head?_decimalDigits {n : Nat} (positive : 0 < n) : (decimalDigits n).head? ≠ some '0' := by
  induction n using Nat.strongRecOn with
  | _ n ih =>
    by_cases small : n < 10
    · have digit := digitValue?_digitChar small
      rw [decimalDigits_of_lt small]
      intro zero
      rw [List.head?_cons, Option.some.injEq] at zero
      rw [zero] at digit
      exact Nat.ne_of_lt positive (Option.some.inj digit)
    · obtain ⟨c, cs, front⟩ := List.exists_cons_of_ne_nil (decimalDigits_ne_nil (n / 10))
      have first := ih (n / 10) (by omega) (by omega)
      rw [decimalDigits_of_le (Nat.le_of_not_lt small)]
      rw [front] at first ⊢
      exact first

theorem readDigits_zeros (count : Nat) : readDigits 0 (List.replicate count '0') = some 0 := by
  induction count with
  | zero => rfl
  | succ k ih => exact ih

/-- A number behind zeros reads back. -/
theorem natOfDigits?_zeroPadded (width n : Nat) : natOfDigits? (zeroPadded width n) = some n := by
  have nonempty : zeroPadded width n ≠ [] := by simp [zeroPadded, padLeft, decimalDigits_ne_nil]
  rw [natOfDigits?_eq_readDigits nonempty, zeroPadded, padLeft, readDigits_append, readDigits_zeros]
  exact readDigits_decimalDigits n

theorem length_decimalDigits_le {width n : Nat} (positive : 0 < width) (h : n < Nat.pow 10 width) :
    (decimalDigits n).length ≤ width := by
  induction width generalizing n with
  | zero => omega
  | succ w ih =>
    by_cases small : n < 10
    · simp [decimalDigits_of_lt small]
    · rw [decimalDigits_of_le (Nat.le_of_not_lt small), List.length_append, List.length_singleton]
      have bound : n < Nat.pow 10 w * 10 := h
      cases w with
      | zero => exact absurd bound small
      | succ v =>
        have rest := ih (n := n / 10) (by omega) (by omega)
        omega

theorem length_zeroPadded {width n : Nat} (positive : 0 < width) (h : n < Nat.pow 10 width) :
    (zeroPadded width n).length = width := by
  have short := length_decimalDigits_le positive h
  rw [zeroPadded, length_padLeft]
  omega

theorem digitValue?_of_isDigit {c : Char} (h : c.isDigit = true) : (digitValue? c).isSome := by
  simp only [Char.isDigit, Bool.and_eq_true, decide_eq_true_eq, ge_iff_le] at h
  rw [digitValue?, if_pos ⟨h.1, h.2⟩]
  rfl

/-- Nothing but digits is written. -/
theorem digitValue?_of_mem_zeroPadded {width n : Nat} {c : Char} (h : c ∈ zeroPadded width n) :
    (digitValue? c).isSome := by
  rcases List.mem_append.mp h with zero | digit
  · rw [List.eq_of_mem_replicate zero]
    rfl
  · exact digitValue?_of_isDigit (isDigit_of_mem_decimalDigits _ _ digit)

theorem digit_bounds {c : Char} {d : Nat} (value : digitValue? c = some d) : d < 10 ∧ c.toNat = d + 48 := by
  rw [digitValue?] at value
  split at value
  · rename_i bounds
    cases value
    have lower : 48 ≤ c.toNat := bounds.1
    have upper : c.toNat ≤ 57 := bounds.2
    rw [show '0'.toNat = 48 from rfl]
    omega
  · cases value

/-- Digits of one length are in the order of the numbers that they continue. -/
theorem compare_readDigits {a b : List Char} {x y m n : Nat} (same : a.length = b.length)
    (first : readDigits x a = some m) (second : readDigits y b = some n) :
    compare m n = (compare x y).then (compare (codes a) (codes b)) := by
  induction a generalizing b x y with
  | nil =>
    rw [List.length_nil] at same
    rw [List.eq_nil_of_length_eq_zero same.symm] at second ⊢
    cases first
    cases second
    rw [show compare (codes []) (codes []) = .eq from rfl, Ordering.then_eq]
  | cons c r ih =>
    obtain ⟨d, s, rfl⟩ := List.exists_cons_of_length_eq_add_one same.symm
    rw [readDigits, List.foldlM_cons] at first second
    obtain ⟨x', digit, first⟩ := Option.bind_eq_some_iff.mp first
    obtain ⟨y', digit', second⟩ := Option.bind_eq_some_iff.mp second
    obtain ⟨v, value, rfl⟩ := Option.map_eq_some_iff.mp digit
    obtain ⟨w, value', rfl⟩ := Option.map_eq_some_iff.mp digit'
    obtain ⟨small, code⟩ := digit_bounds value
    obtain ⟨small', code'⟩ := digit_bounds value'
    have step : compare (x * 10 + v) (y * 10 + w) = (compare x y).then (compare c.toNat d.toNat) := by
      rcases Nat.lt_trichotomy x y with less | rfl | greater
      · rw [Nat.compare_eq_lt.mpr less, Nat.compare_eq_lt.mpr (by omega)]
        rfl
      · rw [Nat.compare_eq_eq.mpr rfl, Ordering.eq_then, code, code']
        rcases Nat.lt_trichotomy v w with less | rfl | greater
        · rw [Nat.compare_eq_lt.mpr (by omega), Nat.compare_eq_lt.mpr (by omega)]
        · rw [Nat.compare_eq_eq.mpr rfl, Nat.compare_eq_eq.mpr rfl]
        · rw [Nat.compare_eq_gt.mpr (by omega), Nat.compare_eq_gt.mpr (by omega)]
      · rw [Nat.compare_eq_gt.mpr greater, Nat.compare_eq_gt.mpr (by omega)]
        rfl
    rw [ih (by simpa using same) first second, step, Ordering.then_assoc, codes_cons, codes_cons, compare_cons]

/-- Digits behind a number denote less than what as many digits can be reached with. -/
theorem lt_of_readDigits {cs : List Char} {x n : Nat} (read : readDigits x cs = some n) :
    n < (x + 1) * Nat.pow 10 cs.length := by
  induction cs generalizing x with
  | nil =>
    have same : x = n := Option.some.inj read
    rw [← same, List.length_nil, Nat.pow, Nat.mul_one]
    exact Nat.lt_succ_self x
  | cons c r ih =>
    rw [readDigits, List.foldlM_cons] at read
    obtain ⟨_, digit, rest⟩ := Option.bind_eq_some_iff.mp read
    obtain ⟨v, value, rfl⟩ := Option.map_eq_some_iff.mp digit
    have small := (digit_bounds value).1
    calc n < (x * 10 + v + 1) * Nat.pow 10 r.length := ih rest
      _ ≤ ((x + 1) * 10) * Nat.pow 10 r.length := Nat.mul_le_mul_right _ (by omega)
      _ = (x + 1) * (Nat.pow 10 r.length * 10) := by rw [Nat.mul_assoc, Nat.mul_comm 10]

theorem ne_nil_of_natOfDigits? {cs : List Char} {n : Nat} (read : natOfDigits? cs = some n) : cs ≠ [] := by
  rintro rfl
  cases read

theorem natOfDigits?_lt {cs : List Char} {n : Nat} (read : natOfDigits? cs = some n) : n < Nat.pow 10 cs.length := by
  rw [natOfDigits?_eq_readDigits (ne_nil_of_natOfDigits? read)] at read
  have bound := lt_of_readDigits read
  rwa [Nat.zero_add, Nat.one_mul] at bound

/-- Digits are the text of the number that they denote, behind zeros. -/
theorem zeroPadded_of_natOfDigits? {cs : List Char} {n : Nat} (read : natOfDigits? cs = some n) :
    zeroPadded cs.length n = cs := by
  have nonempty := ne_nil_of_natOfDigits? read
  have length : (zeroPadded cs.length n).length = cs.length :=
    length_zeroPadded (List.length_pos_iff.mpr nonempty) (natOfDigits?_lt read)
  have written : readDigits 0 (zeroPadded cs.length n) = some n := by
    rw [← natOfDigits?_eq_readDigits (by simp [zeroPadded, padLeft, decimalDigits_ne_nil]), natOfDigits?_zeroPadded]
  rw [natOfDigits?_eq_readDigits nonempty] at read
  have order := compare_readDigits length written read
  rw [Std.compare_self, Std.compare_self, Ordering.eq_then] at order
  have codes : codes (zeroPadded cs.length n) = codes cs := Std.compare_eq_iff_eq.mp order.symm
  exact (List.map_inj_right fun _ _ same => Char.toNat_inj.mp same).mp codes

/-- Numbers behind zeros are in the order of their texts. -/
theorem compare_zeroPadded {width m n : Nat} (positive : 0 < width) (first : m < Nat.pow 10 width)
    (second : n < Nat.pow 10 width) :
    compare (codes (zeroPadded width m)) (codes (zeroPadded width n)) = compare m n := by
  have read : ∀ k, readDigits 0 (zeroPadded width k) = some k := by
    intro k
    have nonempty : zeroPadded width k ≠ [] := by simp [zeroPadded, padLeft, decimalDigits_ne_nil]
    rw [← natOfDigits?_eq_readDigits nonempty, natOfDigits?_zeroPadded]
  have length : (zeroPadded width m).length = (zeroPadded width n).length := by
    rw [length_zeroPadded positive first, length_zeroPadded positive second]
  rw [compare_readDigits length (read m) (read n), Nat.compare_eq_eq.mpr rfl, Ordering.eq_then]

end ForestQuery.Text
