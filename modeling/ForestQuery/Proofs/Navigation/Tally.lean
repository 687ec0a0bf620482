import ForestQuery.Navigation
import Mathlib.Data.List.Basic
/-!
Numbers by node: what is found for a node after numbers were put or added. Main statement: where each row of a
traversal adds its own number for every node on its path, a node ends with the sum of the numbers of the rows
whose paths go through it, once for each time that they do.
-/

namespace ForestQuery

namespace Tally

variable {t : Tally} {node other : NodeId} {n : Nat}

@[simp] theorem get_empty : empty.get node = 0 := rfl

theorem get_put : (t.put node n).get other = if other = node then n else t.get other := by
  obtain ⟨entries⟩ := t
  rw [get, get, put]
  induction entries with
  | nil =>
    by_cases same : other = node
    · simp [putIn, same]
    · simp [putIn, same, Ne.symm same]
  | cons e rest ih =>
    by_cases here : e.1 = node
    · by_cases same : other = node
      · simp [putIn, here, same]
      · simp [putIn, here, same, Ne.symm same]
    · by_cases there : e.1 = other
      · have apart : other ≠ node := there ▸ here
        simp [putIn, there, apart]
      · simp only [putIn, if_neg here]
        rw [List.find?_cons_of_neg (by simp [there]), List.find?_cons_of_neg (by simp [there]), ih]

theorem get_add : (t.add node n).get other = t.get other + if other = node then n else 0 := by
  rw [add, get_put]
  by_cases same : other = node
  · rw [if_pos same, if_pos same, same]
  · rw [if_neg same, if_neg same, Nat.add_zero]

end Tally

namespace Navigation

variable {direct totals : Tally} {rows : List TreeRow} {r : TreeRow} {node : NodeId}

/-- The sum of the numbers of rows. -/
def sumOf (f : TreeRow → Nat) (rows : List TreeRow) : Nat := rows.foldr (fun r n => f r + n) 0

@[simp] theorem sumOf_nil (f : TreeRow → Nat) : sumOf f [] = 0 := rfl

@[simp] theorem sumOf_cons (f : TreeRow → Nat) (r : TreeRow) (rows : List TreeRow) :
    sumOf f (r :: rows) = f r + sumOf f rows := rfl

theorem sumOf_congr {f g : TreeRow → Nat} (same : ∀ r ∈ rows, f r = g r) : sumOf f rows = sumOf g rows := by
  induction rows with
  | nil => rfl
  | cons r rest ih => rw [sumOf_cons, sumOf_cons, same r (by simp), ih fun q member => same q (by simp [member])]

/-- Rows that are put one by one: a row is found with its own number. -/
theorem get_foldl_put (number : NodeId → Nat) :
    (rows.foldl (fun totals r => totals.put r.id (number r.id)) totals).get node
      = if node ∈ rows.map TreeRow.id then number node else totals.get node := by
  induction rows generalizing totals with
  | nil => simp
  | cons r rest ih =>
    rw [List.foldl_cons, ih, Tally.get_put]
    by_cases later : node ∈ rest.map TreeRow.id
    · simp [later]
    · by_cases here : node = r.id
      · simp [here]
      · simp [later, here]

/-- A row adds its own number once for each time that its path goes through a node. -/
theorem get_rollUp : (rollUp direct totals r).get node = totals.get node + r.path.count node * direct.get r.id := by
  have each : ∀ (path : List NodeId) (totals : Tally),
      (path.foldl (fun totals id => totals.add id (direct.get r.id)) totals).get node
        = totals.get node + path.count node * direct.get r.id := by
    intro path
    induction path with
    | nil => simp
    | cons id rest ih =>
      intro totals
      rw [List.foldl_cons, ih, Tally.get_add]
      by_cases here : node = id
      · rw [if_pos here, here, List.count_cons_self, Nat.succ_mul]
        omega
      · rw [if_neg here, List.count_cons_of_ne (Ne.symm here), Nat.add_zero]
  exact each r.path totals

theorem get_foldl_rollUp :
    (rows.foldl (rollUp direct) totals).get node
      = totals.get node + sumOf (fun r => r.path.count node * direct.get r.id) rows := by
  induction rows generalizing totals with
  | nil => simp
  | cons r rest ih => rw [List.foldl_cons, ih, get_rollUp, sumOf_cons, Nat.add_assoc]

theorem get_totalsOf_own (member : node ∈ rows.map TreeRow.id) : (totalsOf direct false rows).get node = direct.get node := by
  rw [totalsOf, if_neg (by decide), get_foldl_put, if_pos member]

theorem get_totalsOf_cumulative :
    (totalsOf direct true rows).get node = sumOf (fun r => r.path.count node * direct.get r.id) rows := by
  rw [totalsOf, if_pos rfl, get_foldl_rollUp, Tally.get_empty, Nat.zero_add]

theorem map_row_countsIn (direct : Tally) (cumulative : Bool) (rows : List TreeRow) :
    (countsIn direct cumulative rows).map RelatedCount.row = rows := by
  rw [countsIn, List.map_map]
  exact List.map_id' _

theorem map_id_countsIn (direct : Tally) (cumulative : Bool) (rows : List TreeRow) :
    (countsIn direct cumulative rows).map (fun e => e.row.id) = rows.map TreeRow.id := by
  rw [countsIn, List.map_map]
  rfl

end Navigation

end ForestQuery
