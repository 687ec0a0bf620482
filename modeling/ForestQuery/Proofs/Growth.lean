import ForestQuery.Proofs.Encoding
import ForestQuery.Proofs.Node
import Mathlib.Order.Bounds.Defs
/-!
How accumulated columns grow. The first value of a column is what the element of the column has for a root, and each
step of the recursion, from a row above the limit, appends what it has for the row below. Main statements: where each
level contributes a full element, the longest value is that of a row at the limit; and the columns of every node that
a statement reaches are accumulated in this way, at the depth of the node.
-/

namespace ForestQuery

/-- A column that the recursion accumulates: what a level adds to it, and the segments that this is made of. -/
structure Growing where
  element : Element
  kinds : List SegmentKind

/-- The accumulated columns of a compiled request, in the order of the recursion. -/
def Compiled.growing (c : Compiled) : List Growing :=
  ⟨c.statement.path, [c.layout.path]⟩ :: ⟨c.statement.ordering, c.layout.ordering⟩ ::
    List.zipWith (fun a kind => ⟨a.2, [kind.2]⟩) c.statement.ancestors c.layout.ancestors

/-- The elements of a statement, one for each accumulated column. -/
def Statement.elements (s : Statement) : List Element :=
  s.path :: s.ordering :: s.ancestors.map Prod.snd

/-- The texts of a node, one for each accumulated column. -/
def Node.texts (n : Node) : List StoredText := n.path :: n.ordering :: n.ancestors

namespace Growing

variable {g : Growing} {d : Dialect} {env : Reference → Value} {limit n : Nat} {cs : List Char}

/-- The characters of a full element. -/
def width (g : Growing) : Nat := SegmentKind.levelWidth g.kinds

/-- Whether a row contributes a full element. -/
def IsFull (g : Growing) (d : Dialect) (env : Reference → Value) : Prop :=
  ∃ cs, g.element.evalText d env = .ok (.ofChars cs) ∧ cs.length = g.width

/-- The values that the recursion accumulates in a column from rows with full elements, with the depths of the rows. -/
inductive Accumulates (g : Growing) (d : Dialect) (limit : Nat) : Nat → List Char → Prop
  | anchor {env : Reference → Value} {cs : List Char} (text : g.element.evalText d env = .ok (.ofChars cs))
      (full : cs.length = g.width) : Accumulates g d limit 0 cs
  | step {n : Nat} {front cs : List Char} {env : Reference → Value} (above : Accumulates g d limit n front)
      (room : n < limit) (text : g.element.evalText d env = .ok (.ofChars cs)) (full : cs.length = g.width) :
      Accumulates g d limit (n + 1) (front ++ cs)

theorem Accumulates.le (value : g.Accumulates d limit n cs) : n ≤ limit := by
  cases value with
  | anchor => exact Nat.zero_le limit
  | step above room => exact room

/-- One level more is one element more. -/
theorem Accumulates.length (value : g.Accumulates d limit n cs) : cs.length = g.width * (n + 1) := by
  induction value with
  | anchor text full => rw [full, Nat.zero_add, Nat.mul_one]
  | step above room text full ih =>
    rw [List.length_append, ih, full]
    exact (Nat.mul_succ _ _).symm

theorem exists_accumulates (full : g.IsFull d env) (bound : n ≤ limit) : ∃ cs, g.Accumulates d limit n cs := by
  obtain ⟨cs, text, length⟩ := full
  induction n with
  | zero => exact ⟨cs, .anchor text length⟩
  | succ n ih =>
    obtain ⟨front, above⟩ := ih (Nat.le_of_succ_le bound)
    exact ⟨front ++ cs, .step above bound text length⟩

/-- The longest value is that of a row at the limit. -/
theorem isGreatest_length (full : g.IsFull d env) :
    IsGreatest {k | ∃ n cs, g.Accumulates d limit n cs ∧ cs.length = k} (g.width * (limit + 1)) := by
  constructor
  · obtain ⟨cs, value⟩ := exists_accumulates full (Nat.le_refl limit)
    exact ⟨limit, cs, value, value.length⟩
  · rintro _ ⟨n, cs, value, rfl⟩
    rw [value.length]
    exact Nat.mul_le_mul_left _ (Nat.succ_le_succ value.le)

end Growing

namespace Statement

variable {s : Statement} {gs : List Growing} {n p : Node} {r : ScopeRow} {ts us : List StoredText} {k limit : Nat}

theorem texts_of_rootNode (made : s.rootNode r = .ok n) : n.depth = 0 ∧
    List.Forall₂ (fun el t => el.evalText s.encoding.dialect r.env = .ok t) s.elements n.texts := by
  obtain ⟨path, ordering, ancestors, pathOk, orderingOk, ancestorsOk, rfl⟩ := exists_texts_of_rootNode made
  exact ⟨rfl, .cons pathOk (.cons orderingOk (List.forall₂_map_left_iff.mpr (Outcome.mapM_eq_ok_iff.mp ancestorsOk)))⟩

theorem texts_of_childNode (made : s.childNode p r = .ok n) : n.depth = p.depth + 1 ∧
    ∃ ts, List.Forall₂ (fun el t => el.evalText s.encoding.dialect r.env = .ok t) s.elements ts ∧
      n.texts = List.zipWith (· ++ ·) p.texts ts := by
  obtain ⟨path, ordering, ancestors, pathOk, orderingOk, ancestorsOk, rfl⟩ := exists_texts_of_childNode made
  refine ⟨rfl, path :: ordering :: ancestors, .cons pathOk (.cons orderingOk
    (List.forall₂_map_left_iff.mpr (Outcome.mapM_eq_ok_iff.mp ancestorsOk))), ?_⟩
  rw [Node.texts, Node.texts, List.zipWith_cons_cons, List.zipWith_cons_cons, List.map_zip_eq_zipWith]
  rfl

theorem exists_ancestorTexts (texts : ∀ el ∈ s.elements, ∃ t, el.evalText s.encoding.dialect r.env = .ok t) :
    ∃ ts, s.ancestorTexts r.env = .ok ts :=
  Outcome.exists_mapM_eq_ok fun a member => texts a.2 (by simp [elements, List.mem_map_of_mem member])

theorem exists_rootNode (texts : ∀ el ∈ s.elements, ∃ t, el.evalText s.encoding.dialect r.env = .ok t) :
    ∃ n, s.rootNode r = .ok n := by
  obtain ⟨path, pathOk⟩ := texts s.path (by simp [elements])
  obtain ⟨ordering, orderingOk⟩ := texts s.ordering (by simp [elements])
  obtain ⟨ancestors, ancestorsOk⟩ := exists_ancestorTexts texts
  rw [rootNode, pathOk, orderingOk, ancestorsOk]
  exact ⟨_, rfl⟩

theorem exists_childNode (silent : s.encoding.failsAtLimit = false)
    (texts : ∀ el ∈ s.elements, ∃ t, el.evalText s.encoding.dialect r.env = .ok t) (p : Node) :
    ∃ n, s.childNode p r = .ok n := by
  obtain ⟨path, pathOk⟩ := texts s.path (by simp [elements])
  obtain ⟨ordering, orderingOk⟩ := texts s.ordering (by simp [elements])
  obtain ⟨ancestors, ancestorsOk⟩ := exists_ancestorTexts texts
  rw [childNode, checkDepth, if_neg (by simp [silent]), pathOk, orderingOk, ancestorsOk]
  exact ⟨_, rfl⟩

/-- Texts of the columns that are accumulated down to a depth. -/
def AreAccumulated (d : Dialect) (limit n : Nat) (gs : List Growing) (ts : List StoredText) : Prop :=
  List.Forall₂ (fun g t => ∃ cs, g.Accumulates d limit n cs ∧ t = .ofChars cs) gs ts

/-- The texts of a row are first values of the columns. -/
theorem areAccumulated_anchor {d : Dialect} (full : ∀ g ∈ gs, g.IsFull d r.env)
    (texts : List.Forall₂ (fun el t => el.evalText d r.env = .ok t) (gs.map Growing.element) ts) :
    AreAccumulated d limit 0 gs ts := by
  rw [List.forall₂_map_left_iff] at texts
  refine List.forall₂_iff_zip.mpr ⟨texts.length_eq, fun {g t} pair => ?_⟩
  obtain ⟨cs, text, length⟩ := full g (List.of_mem_zip pair).1
  exact ⟨cs, .anchor text length, Except.ok.inj ((List.forall₂_zip texts pair).symm.trans text)⟩

/-- Appending the texts of a row is a step in each column. -/
theorem areAccumulated_step {d : Dialect} (full : ∀ g ∈ gs, g.IsFull d r.env) (room : k < limit)
    (fronts : AreAccumulated d limit k gs us)
    (texts : List.Forall₂ (fun el t => el.evalText d r.env = .ok t) (gs.map Growing.element) ts) :
    AreAccumulated d limit (k + 1) gs (List.zipWith (· ++ ·) us ts) := by
  induction fronts generalizing ts with
  | nil => exact .nil
  | @cons g front gs us above _ ih =>
    rw [List.map_cons] at texts
    obtain ⟨t, ts, text, others, rfl⟩ := List.forall₂_cons_left_iff.mp texts
    obtain ⟨ds, above, rfl⟩ := above
    obtain ⟨cs, text', length⟩ := full g (by simp)
    obtain rfl : t = .ofChars cs := Except.ok.inj (text.symm.trans text')
    exact .cons ⟨ds ++ cs, .step above room text length, (StoredText.ofChars_append ds cs).symm⟩
      (ih (fun g member => full g (by simp [member])) others)

/-- The columns of every node are accumulated from full elements, with its depth, where each row of the scope
contributes such; and no row is in the way of the recursion where it cannot fail. -/
theorem areAccumulated_of_full {records : List Record} (silent : s.encoding.failsAtLimit = false)
    (columns : gs.map Growing.element = s.elements)
    (full : ∀ r ∈ s.scopeRows records, ∀ g ∈ gs, g.IsFull s.encoding.dialect r.env) :
    ∃ ns, s.nodes records = .ok ns ∧ ∀ n ∈ ns, n.depth ≤ s.encoding.maxDepth ∧
      AreAccumulated s.encoding.dialect s.encoding.maxDepth n.depth gs n.texts := by
  have texts : ∀ r ∈ s.scopeRows records, ∀ el ∈ s.elements, ∃ t, el.evalText s.encoding.dialect r.env = .ok t := by
    intro r row el member
    rw [← columns] at member
    obtain ⟨g, inColumns, rfl⟩ := List.mem_map.mp member
    obtain ⟨cs, text, -⟩ := full r row g inColumns
    exact ⟨_, text⟩
  obtain ⟨ns, run⟩ := exists_nodes (fun r row => exists_rootNode (texts r row))
    (fun p r row => exists_childNode silent (texts r row) p)
  -- On each level, the nodes have the depth of the level and columns that are accumulated down to it.
  have levels := exists_level_of_mem_nodes (P := fun k n => n.depth = k ∧
      AreAccumulated s.encoding.dialect s.encoding.maxDepth k gs n.texts)
    (fun k room p r m row above made => ?_) (fun r row n made => ?_) run
  · refine ⟨ns, run, fun n member => ?_⟩
    obtain ⟨k, bound, rfl, accumulated⟩ := levels n member
    exact ⟨bound, accumulated⟩
  · obtain ⟨depth, ts, texts, shape⟩ := texts_of_childNode made
    rw [← columns] at texts
    rw [depth, above.1, shape]
    exact ⟨rfl, areAccumulated_step (full r row) room above.2 texts⟩
  · obtain ⟨depth, texts⟩ := texts_of_rootNode made
    rw [← columns] at texts
    exact ⟨depth, areAccumulated_anchor (full r row) texts⟩

end Statement

end ForestQuery
