import ForestQuery.Proofs.Delivery
import ForestQuery.Proofs.Siblings
import Mathlib.Data.List.Infix
/-!
The depth-first walk over a forest: each row is followed by the rows below it, and then by its next sibling.
Main statements: a forest of bounded depth has exactly one walk, which visits each row with a lineage; and
where levels are given codes of one width that increase along siblings, the walk goes along the codes of
the paths.
-/

namespace ForestQuery

namespace Forest

variable {f : Forest} {o : SiblingOrder} {r p q : Record} {as bs : List Record}
  {cs out : List (Record × List Record)} {c d : Record × List Record}

/-- The rows directly below a row, or those on top, in the order of siblings. -/
def siblings (f : Forest) (o : SiblingOrder) (above : Option Record) : List Record :=
  (f.rows.filter fun r => decide (f.parent? r = above)).mergeSort fun a b => (o.compare a b).isLE

/-- The place of a row among its siblings, counted from one. -/
def position (f : Forest) (o : SiblingOrder) (r : Record) : Nat := (f.siblings o (f.parent? r)).idxOf r + 1

/-- A walk from some rows on, each with the rows above it: a row is visited, then everything below it, then
what comes after it. -/
inductive Walk (f : Forest) (o : SiblingOrder) :
    List (Record × List Record) → List (Record × List Record) → Prop where
  | done : Walk f o [] []
  | visit {r : Record} {as : List Record} {rest below others : List (Record × List Record)}
      (subtree : Walk f o ((f.siblings o (some r)).map fun q => (q, r :: as)) below)
      (next : Walk f o rest others) : Walk f o ((r, as) :: rest) ((r, as) :: (below ++ others))

/-- Whether rows stand in the order of a walk over the whole forest. -/
def IsPreorder (f : Forest) (o : SiblingOrder) (cs : List (Record × List Record)) : Prop :=
  Walk f o ((f.siblings o none).map fun r => (r, [])) cs

theorem mem_siblings_iff {above : Option Record} : r ∈ f.siblings o above ↔ r ∈ f.rows ∧ f.parent? r = above := by
  rw [siblings, List.mem_mergeSort, List.mem_filter, decide_eq_true_eq]

theorem lineage_of_top (top : q ∈ f.siblings o none) : f.Lineage q [] := by
  obtain ⟨row, noParent⟩ := mem_siblings_iff.1 top
  exact .top row noParent

theorem Lineage.of_sibling (lineage : f.Lineage r as) (sibling : q ∈ f.siblings o (some r)) : f.Lineage q (r :: as) := by
  obtain ⟨row, parent⟩ := mem_siblings_iff.1 sibling
  exact .child row parent lineage

/-- The rows directly below a row have the lineage of the row, and the row itself. -/
theorem Lineage.forall_children (lineage : f.Lineage r as) :
    ∀ d ∈ (f.siblings o (some r)).map (fun q => (q, r :: as)), f.Lineage d.1 d.2 := by
  intro d member
  obtain ⟨q, sibling, rfl⟩ := List.mem_map.mp member
  exact lineage.of_sibling sibling

theorem eq_of_compare (keyed : o.key = f.relation.key) (first : r ∈ f.rows) (second : p ∈ f.rows)
    (same : o.compare r p = .eq) : r = p := by
  have keys := (Ordering.then_eq_eq.mp same).2
  rw [keyed] at keys
  exact eq_of_same first second (beq_iff_eq.mpr keys)

theorem nodup_siblings (f : Forest) (o : SiblingOrder) (above : Option Record) : (f.siblings o above).Nodup :=
  (List.mergeSort_perm _ _).nodup_iff.mpr (f.nodup_rows.filter _)

/-- Siblings stand in their order. -/
theorem pairwise_siblings (keyed : o.key = f.relation.key) (above : Option Record) :
    (f.siblings o above).Pairwise fun a b => o.compare a b = .lt := by
  refine pairwise_lt_of_isLE (pairwise_mergeSort_isLE o.compare _) ?_
  refine (f.nodup_siblings o above).imp_of_mem fun {a b} first second different same => ?_
  exact different (eq_of_compare keyed (mem_siblings_iff.1 first).1 (mem_siblings_iff.1 second).1 same)

/-- There is at most one walk. -/
theorem Walk.unique {other : List (Record × List Record)} (first : Walk f o cs out) (second : Walk f o cs other) :
    out = other := by
  induction first generalizing other with
  | done =>
    cases second
    rfl
  | visit _ _ ih ih' =>
    cases second with
    | visit subtree next => rw [ih subtree, ih' next]

/-- From rows whose subtrees have no more than so many levels there is a walk. -/
theorem exists_walk_of_le {bound n : Nat} (shallow : ∀ r as, f.Lineage r as → as.length < bound)
    (lineages : ∀ c ∈ cs, f.Lineage c.1 c.2 ∧ bound ≤ c.2.length + n) : ∃ out, Walk f o cs out := by
  induction n generalizing cs with
  | zero =>
    cases cs with
    | nil => exact ⟨[], .done⟩
    | cons c rest =>
      obtain ⟨lineage, deep⟩ := lineages c (by simp)
      have short := shallow c.1 c.2 lineage
      omega
  | succ n ih =>
    induction cs with
    | nil => exact ⟨[], .done⟩
    | cons c rest ih' =>
      obtain ⟨r, as⟩ := c
      have lineage : f.Lineage r as := (lineages (r, as) (by simp)).1
      have deep : bound ≤ as.length + (n + 1) := (lineages (r, as) (by simp)).2
      have children : ∀ d ∈ (f.siblings o (some r)).map (fun q => (q, r :: as)),
          f.Lineage d.1 d.2 ∧ bound ≤ d.2.length + n := by
        intro d member
        obtain ⟨q, sibling, rfl⟩ := List.mem_map.mp member
        exact ⟨lineage.of_sibling sibling, by rw [List.length_cons]; omega⟩
      obtain ⟨below, subtree⟩ := ih children
      obtain ⟨others, next⟩ := ih' fun d member => lineages d (by simp [member])
      exact ⟨_, .visit subtree next⟩

/-- Where no lineage is longer than a bound, there is a walk over the whole forest. -/
theorem exists_walk {bound : Nat} (shallow : ∀ r as, f.Lineage r as → as.length < bound) :
    ∃ out, f.IsPreorder o out := by
  refine exists_walk_of_le shallow (n := bound) fun c member => ?_
  obtain ⟨r, top, rfl⟩ := List.mem_map.mp member
  exact ⟨lineage_of_top top, by omega⟩

/-- Whether a row stands at or below another one. -/
def IsBelow (c d : Record × List Record) : Prop := d.1 :: d.2 <:+ c.1 :: c.2

theorem Lineage.of_isBelow (lineage : f.Lineage r as) (below : IsBelow (r, as) (q, bs)) : f.Lineage q bs := by
  induction lineage with
  | @top r row noParent =>
    rcases List.suffix_cons_iff.mp below with same | empty
    · cases same
      exact .top row noParent
    · cases List.suffix_nil.mp empty
  | @child r p as row parent above ih =>
    rcases List.suffix_cons_iff.mp below with same | higher
    · cases same
      exact .child row parent above
    · exact ih higher

/-- A row strictly below another one is at or below one of the rows directly below that. -/
theorem Lineage.exists_child (lineage : f.Lineage q bs) (below : IsBelow (q, bs) (r, as)) :
    (q, bs) = (r, as) ∨ ∃ p ∈ f.siblings o (some r), IsBelow (q, bs) (p, r :: as) := by
  induction lineage with
  | @top q row noParent =>
    rcases List.suffix_cons_iff.mp below with same | empty
    · cases same
      exact Or.inl rfl
    · cases List.suffix_nil.mp empty
  | @child q p bs row parent above ih =>
    rcases List.suffix_cons_iff.mp below with same | higher
    · cases same
      exact Or.inl rfl
    · rcases ih higher with same | ⟨p', sibling, lower⟩
      · cases same
        exact Or.inr ⟨q, mem_siblings_iff.2 ⟨row, parent⟩, List.suffix_rfl⟩
      · exact Or.inr ⟨p', sibling, lower.trans (List.suffix_cons _ _)⟩

/-- A walk visits the rows at or below those that it starts from. -/
theorem Walk.mem_iff (walk : Walk f o cs out) (lineages : ∀ c ∈ cs, f.Lineage c.1 c.2) :
    c ∈ out ↔ f.Lineage c.1 c.2 ∧ ∃ d ∈ cs, IsBelow c d := by
  induction walk with
  | done => simp
  | @visit r as rest below others subtree next ih ih' =>
    have lineage : f.Lineage r as := lineages (r, as) (by simp)
    have inSubtree := ih lineage.forall_children
    have inOthers := ih' fun d member => lineages d (by simp [member])
    rw [List.mem_cons, List.mem_append, inSubtree, inOthers]
    constructor
    · rintro (rfl | ⟨found, d, member, lower⟩ | ⟨found, d, member, lower⟩)
      · exact ⟨lineage, (r, as), by simp, List.suffix_rfl⟩
      · obtain ⟨q, -, rfl⟩ := List.mem_map.mp member
        exact ⟨found, (r, as), by simp, (List.suffix_cons _ _).trans lower⟩
      · exact ⟨found, d, by simp [member], lower⟩
    · rintro ⟨found, d, member, lower⟩
      rcases List.mem_cons.mp member with rfl | later
      · rcases found.exists_child (o := o) lower with same | ⟨p, sibling, below⟩
        · exact Or.inl same
        · exact Or.inr (Or.inl ⟨found, (p, r :: as), List.mem_map_of_mem sibling, below⟩)
      · exact Or.inr (Or.inr ⟨found, d, later, lower⟩)

theorem Lineage.exists_top (lineage : f.Lineage r as) : ∃ q ∈ f.siblings o none, IsBelow (r, as) (q, []) := by
  induction lineage with
  | @top q row noParent => exact ⟨q, mem_siblings_iff.2 ⟨row, noParent⟩, List.suffix_rfl⟩
  | child _ _ _ ih =>
    obtain ⟨q, top, below⟩ := ih
    exact ⟨q, top, below.trans (List.suffix_cons _ _)⟩

theorem lineage_of_root (member : c ∈ (f.siblings o none).map fun r => (r, ([] : List Record))) :
    f.Lineage c.1 c.2 := by
  obtain ⟨r, top, rfl⟩ := List.mem_map.mp member
  exact lineage_of_top top

/-- The walk over the whole forest visits the rows with a lineage. -/
theorem IsPreorder.mem_iff (preorder : f.IsPreorder o out) : c ∈ out ↔ f.Lineage c.1 c.2 := by
  rw [Walk.mem_iff preorder fun d member => lineage_of_root member]
  constructor
  · rintro ⟨lineage, -⟩
    exact lineage
  · intro lineage
    obtain ⟨q, top, below⟩ := lineage.exists_top (o := o)
    exact ⟨lineage, (q, []), List.mem_map_of_mem top, below⟩

/-- The codes along a path. -/
def codesTo (code : Record → List Nat) (c : Record × List Record) : List Nat := (pathTo c.1 c.2).flatMap code

/-- Codes of one width that increase along siblings. -/
structure HasCodes (f : Forest) (o : SiblingOrder) (code : Record → List Nat) (width : Nat) : Prop where
  positive : 0 < width
  whole : ∀ r as, f.Lineage r as → (code r).length = width
  increasing : ∀ r p as bs, f.Lineage r as → f.Lineage p bs → f.parent? r = f.parent? p →
    o.compare r p = .lt → compare (code r) (code p) = .lt

variable {code : Record → List Nat} {width : Nat}

theorem codesTo_of_isBelow (code : Record → List Nat) (below : IsBelow c (r, as)) :
    ∃ xs, c.1 :: c.2 = xs ++ r :: as ∧
      codesTo code c = as.reverse.flatMap code ++ (code r ++ xs.reverse.flatMap code) := by
  obtain ⟨xs, shape⟩ := below
  refine ⟨xs, shape.symm, ?_⟩
  rw [codesTo, pathTo, ← List.reverse_cons, ← shape, List.reverse_append, List.reverse_cons, List.flatMap_append,
    List.flatMap_append, List.flatMap_singleton, List.append_assoc]

theorem compare_append_left (xs ys zs : List Nat) : compare (xs ++ ys) (xs ++ zs) = compare ys zs := by
  have same : compare xs xs = .eq := Std.ReflCmp.compare_self
  rw [Text.compare_append rfl, same, Ordering.eq_then]

/-- Rows below siblings are in the order of these. -/
theorem compare_of_siblings (width : (code r).length = (code q).length) (less : compare (code r) (code q) = .lt)
    (first : IsBelow c (r, as)) (second : IsBelow d (q, as)) : compare (codesTo code c) (codesTo code d) = .lt := by
  obtain ⟨xs, -, codes⟩ := codesTo_of_isBelow code first
  obtain ⟨ys, -, codes'⟩ := codesTo_of_isBelow code second
  rw [codes, codes', compare_append_left, Text.compare_append width, less, Ordering.lt_then]

/-- A row comes before those below it. -/
theorem compare_of_below (codes : f.HasCodes o code width) (lineage : f.Lineage c.1 c.2)
    (below : IsBelow c (p, r :: as)) : compare (codesTo code (r, as)) (codesTo code c) = .lt := by
  obtain ⟨ys, -, there⟩ := codesTo_of_isBelow code below
  have here : codesTo code (r, as) = (r :: as).reverse.flatMap code ++ [] := by
    rw [codesTo, pathTo, ← List.reverse_cons, List.append_nil]
  have length := codes.whole p (r :: as) (lineage.of_isBelow below)
  have positive := codes.positive
  rw [here, there, compare_append_left]
  cases shape : code p with
  | nil =>
    rw [shape, List.length_nil] at length
    omega
  | cons x rest => rfl

theorem pairwise_children (codes : f.HasCodes o code width) (keyed : o.key = f.relation.key) {above : Option Record}
    (lineages : ∀ q ∈ f.siblings o above, f.Lineage q as) :
    ((f.siblings o above).map fun q => (q, as)).Pairwise fun c d =>
      c.2 = d.2 ∧ compare (code c.1) (code d.1) = .lt := by
  refine List.pairwise_map.mpr ((pairwise_siblings keyed above).imp_of_mem fun {a b} first second less => ?_)
  have parent := (mem_siblings_iff.1 first).2.trans (mem_siblings_iff.1 second).2.symm
  exact ⟨rfl, codes.increasing a b as as (lineages a first) (lineages b second) parent less⟩

/-- A walk over the rows directly below a row visits rows at or below these. -/
theorem Walk.isBelow_of_mem (subtree : Walk f o ((f.siblings o (some r)).map fun q => (q, r :: as)) out)
    (lineage : f.Lineage r as) (member : c ∈ out) : f.Lineage c.1 c.2 ∧ ∃ q, IsBelow c (q, r :: as) := by
  obtain ⟨found, d, child, lower⟩ := (subtree.mem_iff lineage.forall_children).mp member
  obtain ⟨q, -, rfl⟩ := List.mem_map.mp child
  exact ⟨found, q, lower⟩

/-- What stands at or below a row comes before what a walk from its later siblings visits. -/
theorem Walk.compare_of_isBelow (codes : f.HasCodes o code width) (next : Walk f o cs out) (lineage : f.Lineage r as)
    (lineages : ∀ e ∈ cs, f.Lineage e.1 e.2) (later : ∀ e ∈ cs, as = e.2 ∧ compare (code r) (code e.1) = .lt)
    (lower : IsBelow c (r, as)) (member : d ∈ out) : compare (codesTo code c) (codesTo code d) = .lt := by
  obtain ⟨-, ⟨q, bs⟩, sibling, higher⟩ := (next.mem_iff lineages).mp member
  obtain ⟨same, less⟩ := later (q, bs) sibling
  obtain rfl : as = bs := same
  have width : (code r).length = (code q).length := by
    rw [codes.whole r as lineage, codes.whole q as (lineages (q, as) sibling)]
  exact compare_of_siblings width less lower higher

/-- A walk from siblings goes along the codes of the paths. -/
theorem Walk.pairwise (codes : f.HasCodes o code width) (keyed : o.key = f.relation.key) (walk : Walk f o cs out)
    (lineages : ∀ c ∈ cs, f.Lineage c.1 c.2)
    (siblings : cs.Pairwise fun c d => c.2 = d.2 ∧ compare (code c.1) (code d.1) = .lt) :
    out.Pairwise fun c d => compare (codesTo code c) (codesTo code d) = .lt := by
  induction walk with
  | done => exact .nil
  | @visit r as rest below others subtree next ih ih' =>
    obtain ⟨later, apart⟩ := List.pairwise_cons.mp siblings
    have lineage : f.Lineage r as := lineages (r, as) (by simp)
    have restLineages : ∀ d ∈ rest, f.Lineage d.1 d.2 := fun d member => lineages d (by simp [member])
    have before {c d} (lower : IsBelow c (r, as)) (member : d ∈ others) :
        compare (codesTo code c) (codesTo code d) = .lt :=
      next.compare_of_isBelow codes lineage restLineages later lower member
    have children := pairwise_children codes keyed fun q sibling => lineage.of_sibling sibling
    refine List.pairwise_cons.mpr ⟨fun c member => ?_, List.pairwise_append.mpr
      ⟨ih lineage.forall_children children, ih' restLineages apart, fun c member d => ?_⟩⟩
    · rcases List.mem_append.mp member with inside | outside
      · obtain ⟨found, q, lower⟩ := subtree.isBelow_of_mem lineage inside
        exact compare_of_below codes found lower
      · exact before List.suffix_rfl outside
    · obtain ⟨-, q, lower⟩ := subtree.isBelow_of_mem lineage member
      exact before ((List.suffix_cons _ _).trans lower)

/-- The walk over the whole forest goes along the codes of the paths. -/
theorem IsPreorder.pairwise (preorder : f.IsPreorder o out) (codes : f.HasCodes o code width)
    (keyed : o.key = f.relation.key) :
    out.Pairwise fun c d => compare (codesTo code c) (codesTo code d) = .lt := by
  exact Walk.pairwise codes keyed preorder (fun c member => lineage_of_root member)
    (pairwise_children codes keyed fun q top => lineage_of_top top)

end Forest

end ForestQuery
