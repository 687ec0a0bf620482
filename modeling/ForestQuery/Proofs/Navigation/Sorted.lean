import ForestQuery.Proofs.Navigation.Walk
import ForestQuery.Proofs.Text.Utf8
/-!
Rows that are sorted by texts which grow along the paths. Main statement: where each row lies below another one whose
text its own begins with, and no two rows below the same one have the same text, the rows stand in the order of a
depth-first walk.
-/

namespace ForestQuery

namespace Text

variable {a b x : List UInt8}

theorem compareBytes_append (a b : List UInt8) : (compareBytes a (a ++ b)).isLE = true := by
  induction a with
  | nil => cases b <;> rfl
  | cons c a ih =>
    have same : compare c c = .eq := Std.ReflCmp.compare_self
    rw [List.cons_append, compareBytes, same, Ordering.eq_then]
    exact ih

/-- What lies between some bytes and the same bytes with others behind them begins with these bytes. -/
theorem prefix_of_compareBytes (low : (compareBytes a x).isLE = true) (high : (compareBytes x (a ++ b)).isLE = true) :
    a <+: x := by
  induction a generalizing x with
  | nil => exact List.nil_prefix
  | cons c a ih =>
    cases x with
    | nil => cases low
    | cons d x =>
      rw [compareBytes, Ordering.isLE_then_iff_and] at low
      rw [List.cons_append, compareBytes, Ordering.isLE_then_iff_and] at high
      have first : compare c d = .eq := Std.OrientedCmp.isLE_antisymm low.1 high.1
      obtain rfl := Std.compare_eq_iff_eq.mp first
      rw [first] at low high
      have le := low.2.resolve_left (by decide)
      have le' := high.2.resolve_left (by decide)
      exact List.cons_prefix_cons.mpr ⟨rfl, ih le le'⟩

/-- Bytes with others behind them come later. -/
theorem eq_nil_of_compareBytes (le : (compareBytes (a ++ b) a).isLE = true) : b = [] := by
  have beginning : a ++ b <+: a := prefix_of_compareBytes le (b := b ++ b) (by
    rw [List.append_assoc]
    exact compareBytes_append a _)
  have length := beginning.length_le
  rw [List.length_append] at length
  exact List.eq_nil_of_length_eq_zero (by omega)

end Text

namespace TreeRow

variable {path : List NodeId} {above rows others : List TreeRow} {k : Nat}

/-- Rows each of which lies below a row on the path of the one in front of it, or beside all. -/
def Steps : List NodeId → List TreeRow → Prop
  | _, [] => True
  | path, r :: rows => r.depth ≤ path.length ∧ r.path = path.take r.depth ++ [r.id] ∧ Steps r.path rows

/-- Behind rows that do not rise above a depth, the path in front is the same up to that depth. -/
theorem Steps.split (steps : Steps path (rows ++ others)) (deep : ∀ r ∈ rows, k ≤ r.depth) :
    Steps path rows ∧ ∃ path', path'.take k = path.take k ∧ Steps path' others := by
  induction rows generalizing path with
  | nil => exact ⟨trivial, path, rfl, steps⟩
  | cons r rows ih =>
    obtain ⟨depth, shape, rest⟩ := steps
    obtain ⟨inside, path', same, behind⟩ := ih rest fun x member => deep x (List.mem_cons_of_mem _ member)
    have lower := deep r List.mem_cons_self
    refine ⟨⟨depth, shape, inside⟩, path', ?_, behind⟩
    have length : k ≤ (path.take r.depth).length := by
      rw [List.length_take]
      omega
    rw [same, shape, List.take_append_of_le_length length, List.take_take, Nat.min_eq_left lower]

/-- The first row lies below a row of the path in front of it, so it is no deeper than that is long. -/
theorem Steps.depth_le (steps : Steps path rows) : ∀ r ∈ rows.head?, r.depth ≤ path.length := by
  intro r first
  cases rows with
  | nil => cases first
  | cons x rows =>
    obtain rfl := Option.some.inj first
    exact steps.1

/-- Rows are cut in front of the first one that is not deeper. -/
theorem exists_cut (k : Nat) (rows : List TreeRow) : ∃ below beside, rows = below ++ beside ∧
    (∀ r ∈ below, k < r.depth) ∧ ∀ r ∈ beside.head?, r.depth ≤ k := by
  have ends := List.head?_dropWhile_not (fun r : TreeRow => decide (k < r.depth)) rows
  refine ⟨_, _, (List.takeWhile_append_dropWhile (p := fun r : TreeRow => k < r.depth)).symm,
    fun r member => of_decide_eq_true (List.all_eq_true.mp List.all_takeWhile r member), fun r found => ?_⟩
  rw [Option.mem_def.mp found] at ends
  exact Nat.not_lt.mp (of_decide_eq_false ends)

/-- Such rows are a walk. -/
theorem walk_of_steps (steps : Steps path rows) (front : path.take above.length = above.map TreeRow.id)
    (deep : ∀ r ∈ rows, above.length ≤ r.depth) (first : ∀ r ∈ rows.head?, r.depth = above.length) : Walk above rows := by
  induction size : rows.length using Nat.strongRecOn generalizing path above rows with
  | ind n ih =>
  subst size
  cases rows with
  | nil => exact .done
  | cons r rows =>
    have depth : r.depth = above.length := first r rfl
    obtain ⟨-, shape, rest⟩ := steps
    have own : r.path = above.map TreeRow.id ++ [r.id] := by rw [shape, depth, front]
    have atLeast : ∀ x ∈ rows, above.length ≤ x.depth := fun x member => deep x (List.mem_cons_of_mem _ member)
    -- The rows below come first, and the walk goes on with the next one that does not lie below.
    obtain ⟨below, beside, rfl, deeper, atMost⟩ := exists_cut above.length rows
    obtain ⟨inside, path', same, later⟩ := rest.split (k := above.length) fun x member => Nat.le_of_lt (deeper x member)
    have length : (above ++ [r]).length = above.length + 1 := by rw [List.length_append, List.length_singleton]
    have front' : r.path.take (above ++ [r]).length = (above ++ [r]).map TreeRow.id := by
      rw [own, List.map_append, List.take_of_length_le (by simp)]
      rfl
    refine .visit depth own (ih _ ?_ inside front' ?_ ?_ rfl) (ih _ ?_ later ?_ ?_ ?_ rfl)
    · rw [List.length_cons, List.length_append]
      omega
    · intro x member
      rw [length]
      exact deeper x member
    · intro x found
      have high := inside.depth_le x found
      have low := deeper x (List.mem_of_mem_head? found)
      rw [own, List.length_append, List.length_map, List.length_singleton] at high
      omega
    · rw [List.length_cons, List.length_append]
      omega
    · rw [same, own, List.take_left' (List.length_map _)]
    · exact fun x member => atLeast x (List.mem_append_right _ member)
    · intro x found
      exact Nat.le_antisymm (atMost x found) (atLeast x (List.mem_append_right _ (List.mem_of_mem_head? found)))

/-- Rows that are sorted by texts, which have one part of the same width for each level: each row is a root, or lies
below another one and continues its text, and rows below the same one have different texts. -/
structure AreSorted (width : Nat) (ps : List (List Char × TreeRow)) : Prop where
  positive : 0 < width
  sorted : ps.Pairwise fun p q => (Text.compareBytes (Text.utf8 p.1) (Text.utf8 q.1)).isLE = true
  length : ∀ p ∈ ps, p.1.length = (p.2.depth + 1) * width
  closed : ∀ p ∈ ps, p.2.depth = 0 ∧ p.2.path = [p.2.id] ∨
    ∃ a ∈ ps, p.2.depth = a.2.depth + 1 ∧ p.2.path = a.2.path ++ [p.2.id] ∧ a.1 <+: p.1
  apart : ∀ p ∈ ps, ∀ q ∈ ps, p.1 = q.1 → p.2.path.dropLast = q.2.path.dropLast → p = q

namespace AreSorted

variable {width : Nat} {ps : List (List Char × TreeRow)} {a p q : List Char × TreeRow}

theorem length_path (sorted : AreSorted width ps) (member : p ∈ ps) : p.2.path.length = p.2.depth + 1 := by
  induction depth : p.2.depth generalizing p with
  | zero =>
    rcases sorted.closed p member with ⟨-, path⟩ | ⟨a, -, deeper, -⟩
    · rw [path]
      rfl
    · omega
  | succ d ih =>
    rcases sorted.closed p member with ⟨top, -⟩ | ⟨a, found, deeper, path, -⟩
    · omega
    · rw [path, List.length_append, ih found (by omega)]
      rfl

/-- Above each row there is one at each lesser depth. -/
theorem exists_above (sorted : AreSorted width ps) (member : p ∈ ps) (high : k ≤ p.2.depth) :
    ∃ a ∈ ps, a.2.depth = k ∧ a.1 <+: p.1 ∧ a.2.path = p.2.path.take (k + 1) := by
  induction gap : p.2.depth - k generalizing p with
  | zero =>
    have depth : p.2.depth = k := by omega
    refine ⟨p, member, depth, List.prefix_refl _, ?_⟩
    rw [← depth, ← sorted.length_path member, List.take_length]
  | succ d ih =>
    rcases sorted.closed p member with ⟨top, -⟩ | ⟨a, found, deeper, path, begins⟩
    · omega
    · obtain ⟨b, found', depth', begins', path'⟩ := ih found (by omega) (by omega)
      refine ⟨b, found', depth', begins'.trans begins, ?_⟩
      rw [path', path, List.take_append_of_le_length (by rw [sorted.length_path found]; omega)]

/-- A text belongs to one row. -/
theorem unique (sorted : AreSorted width ps) (first : p ∈ ps) (second : q ∈ ps) (same : p.1 = q.1) : p = q := by
  have depths : ∀ {p q}, p ∈ ps → q ∈ ps → p.1.length = q.1.length → p.2.depth = q.2.depth := by
    intro p q first second same
    rw [sorted.length p first, sorted.length q second] at same
    have levels := Nat.eq_of_mul_eq_mul_right sorted.positive same
    omega
  induction depth : p.2.depth generalizing p q with
  | zero =>
    have depth' := (depths first second (congrArg _ same)).symm.trans depth
    refine sorted.apart p first q second same ?_
    rcases sorted.closed p first with ⟨-, path⟩ | ⟨a, -, deeper, -⟩
    · rcases sorted.closed q second with ⟨-, path'⟩ | ⟨a, -, deeper, -⟩
      · rw [path, path']
        rfl
      · omega
    · omega
  | succ d ih =>
    have depth' := (depths first second (congrArg _ same)).symm.trans depth
    rcases sorted.closed p first with ⟨top, -⟩ | ⟨a, found, deeper, path, begins⟩
    · omega
    rcases sorted.closed q second with ⟨top, -⟩ | ⟨b, found', deeper', path', begins'⟩
    · omega
    have length : a.1.length = b.1.length := by
      rw [sorted.length a found, sorted.length b found', show a.2.depth = b.2.depth by omega]
    rw [← same] at begins'
    have upper := ih found found'
      ((List.prefix_of_prefix_length_le begins begins' (Nat.le_of_eq length)).eq_of_length length) (by omega)
    refine sorted.apart p first q second same ?_
    rw [path, path', List.dropLast_concat, List.dropLast_concat, upper]

/-- A row whose text begins another one is above the row with that text. -/
theorem take_path (sorted : AreSorted width ps) (first : a ∈ ps) (second : p ∈ ps) (begins : a.1 <+: p.1) :
    a.2.depth ≤ p.2.depth ∧ a.2.path = p.2.path.take (a.2.depth + 1) := by
  have shorter := begins.length_le
  rw [sorted.length a first, sorted.length p second] at shorter
  have high : a.2.depth ≤ p.2.depth := by
    have levels := Nat.le_of_mul_le_mul_right shorter sorted.positive
    omega
  obtain ⟨b, found, depth, begins', path⟩ := sorted.exists_above second high
  have length : a.1.length = b.1.length := by rw [sorted.length a first, sorted.length b found, depth]
  rw [sorted.unique first found
    ((List.prefix_of_prefix_length_le begins begins' (Nat.le_of_eq length)).eq_of_length length)]
  rw [depth]
  exact ⟨high, path⟩

/-- The path of the last of some rows, none if there is no row. -/
def lastPath (front : List (List Char × TreeRow)) : List NodeId := (front.getLast?.map fun p => p.2.path).getD []

/-- The row above has a text that ends earlier, so it stands in front. -/
theorem mem_front {front rest : List (List Char × TreeRow)} (sorted : AreSorted width (front ++ q :: rest))
    (found : a ∈ front ++ q :: rest) (higher : a.2.depth < q.2.depth) (begins : a.1 <+: q.1) : a ∈ front := by
  obtain ⟨suffix, text⟩ := begins
  have member : q ∈ front ++ q :: rest := by simp
  have longer : suffix ≠ [] := by
    rintro rfl
    rw [List.append_nil] at text
    rw [sorted.unique found member text] at higher
    exact Nat.lt_irrefl _ higher
  have late : ¬ (Text.compareBytes (Text.utf8 q.1) (Text.utf8 a.1)).isLE = true := by
    rw [← text, Text.utf8_append]
    exact fun le => longer (Text.utf8_injective (Text.eq_nil_of_compareBytes le))
  obtain ⟨-, following, -⟩ := List.pairwise_append.mp sorted.sorted
  rcases List.mem_append.mp found with inFront | inRest
  · exact inFront
  rcases List.mem_cons.mp inRest with rfl | inRest
  · exact absurd (by rw [Text.compareBytes_eq_eq_iff.mpr rfl]; rfl) late
  · exact absurd ((List.pairwise_cons.mp following).1 a inRest) late

/-- A row lies below one on the path of the row in front of it. -/
theorem step {front rest : List (List Char × TreeRow)} (sorted : AreSorted width (front ++ q :: rest)) :
    q.2.depth ≤ (lastPath front).length ∧ q.2.path = (lastPath front).take q.2.depth ++ [q.2.id] := by
  have member : q ∈ front ++ q :: rest := by simp
  rcases sorted.closed q member with ⟨top, path⟩ | ⟨a, found, deeper, path, begins⟩
  · exact ⟨by omega, by rw [path, top]; rfl⟩
  have before := sorted.mem_front found (by omega) begins
  obtain ⟨front, p, rfl⟩ : ∃ front' p, front = front' ++ [p] := by
    rcases List.eq_nil_or_concat front with rfl | ⟨front', p, rfl⟩
    · cases before
    · exact ⟨front', p, List.concat_eq_append⟩
  have inFront : p ∈ front ++ [p] ++ q :: rest := by simp
  obtain ⟨ordered, -, across⟩ := List.pairwise_append.mp sorted.sorted
  -- The text of the row in front lies between, so it begins with that of the row above as well.
  have low : (Text.compareBytes (Text.utf8 a.1) (Text.utf8 p.1)).isLE = true := by
    rcases List.mem_append.mp before with earlier | last
    · exact (List.pairwise_append.mp ordered).2.2 a earlier p (List.mem_singleton_self p)
    · rw [List.mem_singleton.mp last, Text.compareBytes_eq_eq_iff.mpr rfl]
      rfl
  have high := across p (by simp) q List.mem_cons_self
  obtain ⟨suffix, text⟩ := begins
  rw [← text, Text.utf8_append] at high
  obtain ⟨atMost, path'⟩ := sorted.take_path found inFront (Text.prefix_of_utf8 (Text.prefix_of_compareBytes low high))
  rw [lastPath, List.getLast?_concat, Option.map_some, Option.getD_some]
  exact ⟨by rw [sorted.length_path inFront]; omega, by rw [path, path', deeper]⟩

/-- The rows are a walk. -/
theorem walk (sorted : AreSorted width ps) : Walk [] (ps.map Prod.snd) := by
  have steps : ∀ rest front, ps = front ++ rest → Steps (lastPath front) (rest.map Prod.snd) := by
    intro rest
    induction rest with
    | nil => exact fun _ _ => trivial
    | cons q rest ih =>
      intro front shape
      have next := ih (front ++ [q]) (by simp [shape])
      rw [lastPath, List.getLast?_concat] at next
      rw [shape] at sorted
      obtain ⟨depth, path⟩ := sorted.step
      exact ⟨depth, path, next⟩
  refine walk_of_steps (steps ps [] rfl) rfl (by simp) fun r first => ?_
  cases ps with
  | nil => cases first
  | cons p ps =>
    obtain rfl := Option.some.inj first
    have whole : AreSorted width ([] ++ p :: ps) := sorted
    exact Nat.le_zero.mp whole.step.1

end AreSorted

end TreeRow

end ForestQuery
