import ForestQuery.Value
/-!
The order in which a store sorts values: absent values, then numbers by size whatever their kind,
then texts by their bytes, then byte sequences.
-/

namespace ForestQuery.Value

/-- The place of a value's kind in the order. -/
def rank : Value → Nat
  | null => 0
  | integer _ | real _ => 1
  | text _ => 2
  | blob _ => 3

/-- The order of two values. -/
def compare : Value → Value → Ordering
  | integer i, integer j => Ord.compare i.toInt j.toInt
  | integer i, real y => Binary64.compareInt i.toInt y
  | real x, integer j => (Binary64.compareInt j.toInt x).swap
  | real x, real y => Binary64.compareNumeric x y
  | text s, text t => Text.compareText s t
  | blob a, blob b => Text.compareBytes a b
  | v, w => Ord.compare v.rank w.rank

/-- Whether two values are equal for the store: equal numbers are, even of different kinds. -/
def same (v w : Value) : Bool := compare v w == .eq

theorem same_integer_iff {i j : Int64} : same (integer i) (integer j) = true ↔ i = j := by
  simp [same, compare, Int64.toInt_inj]

end ForestQuery.Value
