import Mathlib.Data.List.Nodup
import Mathlib.Order.Compare
/-!
Lists sorted by a comparison. Main statements: a sorted list and a strictly sorted one with the same items are
the same, and in a strictly sorted list the place of an item tells how many items are less.
-/

namespace ForestQuery

variable {α β : Type}

theorem transCmp_on (cmp : β → β → Ordering) [Std.TransCmp cmp] (g : α → β) :
    Std.TransCmp fun a b => cmp (g a) (g b) where
  eq_swap := Std.OrientedCmp.eq_swap
  isLE_trans := Std.TransCmp.isLE_trans

section Comparison

variable {cmp : α → α → Ordering} {xs ys : List α} {a b : α}

/-- A sorted list in which no two items are equal for the comparison is strictly sorted. -/
theorem pairwise_lt_of_isLE (sorted : xs.Pairwise fun a b => (cmp a b).isLE = true)
    (apart : xs.Pairwise fun a b => cmp a b ≠ .eq) : xs.Pairwise fun a b => cmp a b = .lt := by
  refine (sorted.and apart).imp fun {a b} both => ?_
  obtain ⟨le, other⟩ := both
  cases order : cmp a b with
  | lt => rfl
  | eq => exact absurd order other
  | gt =>
    rw [order] at le
    cases le

theorem pairwise_mergeSort_isLE (cmp : α → α → Ordering) [Std.TransCmp cmp] (xs : List α) :
    (xs.mergeSort fun a b => (cmp a b).isLE).Pairwise fun a b => (cmp a b).isLE = true := by
  have trans : ∀ a b c, (cmp a b).isLE = true → (cmp b c).isLE = true → (cmp a c).isLE = true :=
    fun _ _ _ => Std.TransCmp.isLE_trans
  have total : ∀ a b, ((cmp a b).isLE || (cmp b a).isLE) = true := by
    intro a b
    rw [show cmp b a = (cmp a b).swap from Std.OrientedCmp.eq_swap]
    cases cmp a b <;> rfl
  exact List.pairwise_mergeSort trans total xs

variable [Std.TransCmp cmp]

theorem ne_of_compare_lt (less : cmp a b = .lt) : a ≠ b := by
  rintro rfl
  have same : cmp a a = .eq := Std.ReflCmp.compare_self
  rw [same] at less
  cases less

/-- A sorted list and a strictly sorted one with the same items are the same. -/
theorem eq_of_pairwise_lt (sorted : xs.Pairwise fun a b => (cmp a b).isLE = true)
    (strict : ys.Pairwise fun a b => cmp a b = .lt) (members : ∀ a, a ∈ xs ↔ a ∈ ys) (distinct : xs.Nodup) :
    xs = ys := by
  have perm : xs.Perm ys := (List.perm_ext_iff_of_nodup distinct (strict.imp ne_of_compare_lt)).mpr members
  have apart : xs.Pairwise fun a b => cmp a b ≠ .eq := by
    refine (perm.pairwise_iff fun {a b} other same => other (Std.OrientedCmp.eq_symm same)).mpr ?_
    exact strict.imp fun less same => by rw [less] at same; cases same
  refine List.Perm.eq_of_pairwise (fun a b _ _ less greater => ?_) (pairwise_lt_of_isLE sorted apart) strict perm
  rw [show cmp b a = (cmp a b).swap from Std.OrientedCmp.eq_swap, less] at greater
  cases greater

/-- The place of an item in a strictly sorted list is the number of items that are less. -/
theorem length_filter_lt [DecidableEq α] (strict : xs.Pairwise fun a b => cmp a b = .lt) (member : a ∈ xs) :
    (xs.filter fun b => cmp b a == .lt).length = xs.idxOf a := by
  induction strict with
  | nil => cases member
  | @cons x rest later _ ih =>
    by_cases first : x = a
    · subst first
      have notLess : (cmp x x == .lt) = false := by
        have same : cmp x x = .eq := Std.ReflCmp.compare_self
        rw [same]
        rfl
      have none : rest.filter (fun b => cmp b x == .lt) = [] := by
        refine List.filter_eq_nil_iff.mpr fun b inRest less => ?_
        have greater := later b inRest
        rw [show cmp x b = (cmp b x).swap from Std.OrientedCmp.eq_swap, beq_iff_eq.mp less] at greater
        cases greater
      rw [List.filter_cons_of_neg (by rw [notLess]; decide), none, List.idxOf_cons_self]
      rfl
    · have inRest : a ∈ rest := (List.mem_cons.mp member).resolve_left (Ne.symm first)
      rw [List.filter_cons_of_pos (by rw [later a inRest]; rfl), List.length_cons, ih inRest,
        List.idxOf_cons_ne _ first]

/-- A lesser item stands at an earlier place. -/
theorem idxOf_lt_of_compare [DecidableEq α] (strict : xs.Pairwise fun a b => cmp a b = .lt) (first : a ∈ xs)
    (second : b ∈ xs) (less : cmp a b = .lt) : xs.idxOf a < xs.idxOf b := by
  induction strict with
  | nil => cases first
  | @cons x rest later _ ih =>
    have other : a ≠ b := ne_of_compare_lt less
    rcases List.mem_cons.mp first with rfl | inRest
    · rw [List.idxOf_cons_self, List.idxOf_cons_ne _ other]
      exact Nat.succ_pos _
    · rcases List.mem_cons.mp second with rfl | inRest'
      · have greater := later a inRest
        rw [show cmp b a = (cmp a b).swap from Std.OrientedCmp.eq_swap, less] at greater
        cases greater
      · rw [List.idxOf_cons_ne _ (ne_of_compare_lt (later a inRest)),
          List.idxOf_cons_ne _ (ne_of_compare_lt (later b inRest'))]
        exact Nat.succ_lt_succ (ih inRest inRest')

end Comparison

/-- Counted from one, the places of the items of a list are all numbers up to its length. -/
theorem map_idxOf_add_one [DecidableEq α] {xs : List α} (distinct : xs.Nodup) :
    xs.map (fun x => xs.idxOf x + 1) = List.range' 1 xs.length := by
  refine List.ext_getElem (by simp) fun n bound _ => ?_
  rw [List.getElem_map, distinct.idxOf_getElem, List.getElem_range', Nat.one_mul, Nat.add_comm]

end ForestQuery
