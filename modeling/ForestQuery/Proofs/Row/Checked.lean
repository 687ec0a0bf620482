import ForestQuery.Proofs.Column
import ForestQuery.Row
/-!
Reading a row with a check on every operation that can fail by itself: sums and products of counts, sums of
integers, slices, remainders and cuts. Main statement: where the widths of levels are counts, none of them fails on
any row, and checked reading is reading.
-/

namespace ForestQuery

/-- Why checked reading stops: it refuses what it reads, or an operation has no result. -/
inductive Halt where
  | refused (e : Error)
  | overflow
  | outOfRange (start stop length : Nat)
  | divisionByZero

/-- Whether the widths of all levels are counts. -/
structure Layout.IsCountable (l : Layout) : Prop where
  path : SegmentKind.levelWidth [l.path] < SegmentKind.widthBound
  ordering : SegmentKind.levelWidth l.ordering < SegmentKind.widthBound
  ancestors : ∀ a ∈ l.ancestors, SegmentKind.levelWidth [a.2] < SegmentKind.widthBound

namespace Checked

variable {α β : Type}

/-- A result or a refusal. -/
def lift (x : Except Error α) : Except Halt α := x.mapError .refused

@[simp] theorem lift_ok (a : α) : lift (.ok a) = .ok a := rfl

@[simp] theorem lift_error (e : Error) : lift (.error e : Except Error α) = .error (.refused e) := rfl

theorem lift_bind (x : Except Error α) (f : α → Except Error β) : lift (x >>= f) = lift x >>= fun a => lift (f a) := by
  cases x <;> rfl

/-- A check in front of a chain. -/
theorem lift_check {γ : Type} {p : Prop} [Decidable p] {e : Error} {k : γ → Except Error β} {x : Except Error β} :
    lift (if p then (throw e : Except Error γ) >>= k else x)
      = if p then (throw (.refused e) : Except Halt γ) >>= (fun c => lift (k c)) else lift x := by
  split <;> rfl

/-- The sum of two counts. -/
def add (a b : Nat) : Except Halt Nat := if a + b < SegmentKind.widthBound then .ok (a + b) else .error .overflow

/-- The product of two counts. -/
def mul (a b : Nat) : Except Halt Nat := if a * b < SegmentKind.widthBound then .ok (a * b) else .error .overflow

/-- The sum of two integers of 64 bits. -/
def addSigned (i j : Int64) : Except Halt Int64 :=
  match Text.int64? (i.toInt + j.toInt) with
  | some k => .ok k
  | none => .error .overflow

/-- The characters from `start` to before `stop`. -/
def slice (cs : List Char) (start stop : Nat) : Except Halt (List Char) :=
  if start ≤ stop ∧ stop ≤ cs.length then .ok ((cs.drop start).take (stop - start))
  else .error (.outOfRange start stop cs.length)

def remainder (n width : Nat) : Except Halt Nat := if width = 0 then .error .divisionByZero else .ok (n % width)

/-- Pieces of one width. -/
def cut (width : Nat) (cs : List Char) : Except Halt (List (List Char)) :=
  if width = 0 then .error .divisionByZero else .ok (Column.levels width cs)

theorem add_eq_ok {a b : Nat} (small : a + b < SegmentKind.widthBound) : add a b = .ok (a + b) := if_pos small

theorem mul_eq_ok {a b : Nat} (small : a * b < SegmentKind.widthBound) : mul a b = .ok (a * b) := if_pos small

theorem slice_eq_ok {cs : List Char} {start count : Nat} (inside : start + count ≤ cs.length) :
    slice cs start (start + count) = .ok ((cs.drop start).take count) := by
  rw [slice, if_pos ⟨Nat.le_add_right start count, inside⟩, Nat.add_sub_cancel_left]

/-- The characters of a segment. -/
def width : SegmentKind → Except Halt Nat
  | .integer => .ok SegmentKind.integerWidth
  | .uuid => .ok SegmentKind.uuidWidth
  | .text w => add SegmentKind.lengthWidth w
  | .textKey bytes _ => do add 1 (← mul bytes 2)

/-- The characters of a level, summed up from the front. -/
def levelWidth (total : Nat) : List SegmentKind → Except Halt Nat
  | [] => .ok total
  | kind :: kinds => do levelWidth (← add total (← width kind)) kinds

/-- A negative integer is the sum of its offset and the smallest integer. -/
def integer (cs : List Char) : Except Halt Value :=
  let bad := Halt.refused (.decode (.badIntegerSegment (String.ofList cs)))
  if cs.all (· == ' ') then .ok .null
  else
    match cs with
    | '-' :: digits =>
      match Segment.digits64? digits with
      | some o => (addSigned o Int64.minValue).map .integer
      | none => .error bad
    | _ =>
      match Segment.digits64? cs with
      | some i => .ok (.integer i)
      | none => .error bad

def segment (cs : List Char) : SegmentKind → Except Halt Value
  | .integer => integer cs
  | .uuid => lift (Segment.decode cs .uuid)
  | .text w => lift (Segment.decode cs (.text w))
  | .textKey bytes descending => lift (Segment.decode cs (.textKey bytes descending))

/-- The values of the segments of a level from `offset` on. -/
def segments (level : List Char) (offset : Nat) : List SegmentKind → Except Halt (List Value)
  | [] => .ok []
  | kind :: kinds => do
    let stop ← add offset (← width kind)
    let v ← segment (← slice level offset stop) kind
    return v :: (← segments level stop kinds)

def level (kinds : List SegmentKind) (cs : List Char) : Except Halt Value := do
  match ← segments cs 0 kinds with
  | [v] => return v
  | _ => return .text (String.ofList cs)

def chars (kinds : List SegmentKind) (cs : List Char) : Except Halt (List Value) := do
  let width ← levelWidth 0 kinds
  let bad := Halt.refused (.decode (.notWholeLevels cs.length width))
  if width = 0 ∨ cs = [] then throw bad
  if (← remainder cs.length width) ≠ 0 then throw bad
  (← cut width cs).mapM (level kinds)

def column (isNative : Bool) (kinds : List SegmentKind) (c : Column) : Except Halt (List Value) :=
  if isNative then lift c.decodeNative
  else
    match c with
    | .encoded text => chars kinds text.toList
    | .native _ => .error (.refused (.decode .expectedText))

def ancestors (isNative : Bool) (expected : Nat) (m : NameMap (List Value)) :
    List (String × SegmentKind) → List Column → Except Halt (NameMap (List Value))
  | (name, kind) :: kinds, c :: cs => do
    let values ← column isNative [kind] c
    lift (Layout.checkLevels name values.length expected)
    ancestors isNative expected (m.insert name values) kinds cs
  | _, _ => .ok m

/-- Reads a row as `Layout.decode` does. -/
def row (l : Layout) (isNative : Bool) (maxDepth : Nat) (raw : RawRow) : Except Halt TreeRow := do
  let depth := raw.depth.toInt
  if depth < 0 ∨ Layout.depthBound ≤ depth then throw (.refused (.decode (.depthOutOfRange raw.depth)))
  let depth := depth.toNat
  if maxDepth ≤ depth then throw (.refused (.depthExceeded maxDepth))
  let count ← add depth 1
  let path ← lift (NodeId.ofValues l.keyType (← column isNative [l.path] raw.path))
  lift (Layout.checkLevels Layout.pathColumn path.length count)
  let ordering ← column isNative l.ordering raw.ordering
  lift (Layout.checkLevels Layout.orderingColumn ordering.length count)
  if raw.ancestors.length ≠ l.ancestors.length then
    throw (.refused (.decode (.ancestorColumns l.ancestors.length raw.ancestors.length)))
  let ancestorFields ← ancestors isNative count .empty l.ancestors raw.ancestors
  let id ← lift (NodeId.ofValue l.keyType raw.id)
  if path.getLast? ≠ some id then throw (.refused (.decode (.pathEnd id)))
  let parent ← lift (Layout.decodeParent l.keyType raw.parent)
  return ⟨id, parent, depth, path, ordering, ancestorFields, NameMap.ofList raw.fields⟩

theorem width_eq_ok {kind : SegmentKind} (small : kind.width < SegmentKind.widthBound) : width kind = .ok kind.width := by
  cases kind with
  | integer => rfl
  | uuid => rfl
  | text w => exact add_eq_ok small
  | textKey bytes descending =>
    have whole : 1 + bytes * 2 < SegmentKind.widthBound := small
    rw [width, mul_eq_ok (by omega)]
    exact add_eq_ok whole

theorem levelWidth_eq_ok {kinds : List SegmentKind} {total : Nat}
    (small : total + SegmentKind.levelWidth kinds < SegmentKind.widthBound) :
    levelWidth total kinds = .ok (total + SegmentKind.levelWidth kinds) := by
  induction kinds generalizing total with
  | nil => rfl
  | cons kind kinds ih =>
    rw [SegmentKind.levelWidth_cons] at small ⊢
    have sum : add total kind.width = .ok (total + kind.width) := add_eq_ok (by omega)
    have rest : levelWidth (total + kind.width) kinds = .ok (total + kind.width + SegmentKind.levelWidth kinds) :=
      ih (by omega)
    rw [levelWidth, width_eq_ok (by omega)]
    simp only [bind, Except.bind, sum, rest, Nat.add_assoc]

/-- Digits are a number that is not negative. -/
theorem toInt_nonneg_of_digits64? {cs : List Char} {i : Int64} (read : Segment.digits64? cs = some i) : 0 ≤ i.toInt := by
  unfold Segment.digits64? at read
  split at read
  · obtain ⟨n, -, value⟩ := Option.bind_eq_some_iff.mp read
    unfold Text.int64? at value
    split at value
    · rename_i range
      rw [Segment.minValue_toInt, Segment.maxValue_toInt] at range
      rw [← Option.some.inj value, Int64.toInt_ofInt_of_le (by omega) (by omega)]
      omega
    · cases value
  · cases read

theorem addSigned_minValue {i : Int64} (positive : 0 ≤ i.toInt) :
    addSigned i Int64.minValue = .ok (Int64.ofInt (i.toInt + Int64.minValue.toInt)) := by
  have upper := i.toInt_lt
  have range : Int64.minValue.toInt ≤ i.toInt + Int64.minValue.toInt ∧
      i.toInt + Int64.minValue.toInt ≤ Int64.maxValue.toInt := by
    rw [Segment.minValue_toInt, Segment.maxValue_toInt]
    omega
  simp only [addSigned, Text.int64?, if_pos range]

/-- The sum of the offset and the smallest integer is an integer, whatever the digits. -/
theorem integer_eq (cs : List Char) : integer cs = lift (Segment.decodeInteger cs) := by
  unfold integer Segment.decodeInteger
  split
  · rfl
  · by_cases sign : ∃ digits, cs = '-' :: digits
    · obtain ⟨digits, rfl⟩ := sign
      cases read : Segment.digits64? digits with
      | none => simp only [read, Option.map_none, lift_error]
      | some o =>
        simp only [read, Option.map_some, lift_ok, addSigned_minValue (toInt_nonneg_of_digits64? read)]
        rfl
    · -- Without a sign the two matches have the same last case.
      have other : ∀ digits, cs = '-' :: digits → False := fun digits same => sign ⟨digits, same⟩
      cases read : Segment.digits64? cs with
      | none => simp only [lift_error]
      | some i => simp only [lift_ok]

theorem segment_eq (cs : List Char) (kind : SegmentKind) : segment cs kind = lift (Segment.decode cs kind) := by
  cases kind with
  | integer => exact integer_eq cs
  | uuid => rfl
  | text w => rfl
  | textKey bytes descending => rfl

/-- Slices stay within a level as long as the offset and the widths that are left make up its length. -/
theorem segments_eq {kinds : List SegmentKind} {level : List Char} {offset : Nat}
    (inside : offset + SegmentKind.levelWidth kinds = level.length) (small : level.length < SegmentKind.widthBound) :
    segments level offset kinds = lift (Column.decodeSegments kinds (level.drop offset)) := by
  induction kinds generalizing offset with
  | nil => rfl
  | cons kind kinds ih =>
    rw [SegmentKind.levelWidth_cons] at inside
    have sum : add offset kind.width = .ok (offset + kind.width) := add_eq_ok (by omega)
    have taken : slice level offset (offset + kind.width) = .ok ((level.drop offset).take kind.width) :=
      slice_eq_ok (by omega)
    have rest : segments level (offset + kind.width) kinds
        = lift (Column.decodeSegments kinds (level.drop (offset + kind.width))) := ih (by omega)
    -- One slice ends where the next one starts, so what is left of the level is what `rest` reads.
    rw [segments, Column.decodeSegments, width_eq_ok (by omega), List.drop_drop]
    simp only [lift_bind]
    simp only [bind, Except.bind, sum, taken, segment_eq, rest]
    rfl

theorem level_eq {kinds : List SegmentKind} {cs : List Char} (whole : cs.length = SegmentKind.levelWidth kinds)
    (small : SegmentKind.levelWidth kinds < SegmentKind.widthBound) :
    level kinds cs = lift (Column.decodeLevel kinds cs) := by
  rw [level, Column.decodeLevel, segments_eq (by omega) (by omega), lift_bind, List.drop_zero]
  congr 1
  funext values
  cases values with
  | nil => rfl
  | cons v rest => cases rest <;> rfl

theorem mapM_lift {f : α → Except Error β} {g : α → Except Halt β} {xs : List α} (h : ∀ x ∈ xs, g x = lift (f x)) :
    xs.mapM g = lift (xs.mapM f) := by
  induction xs with
  | nil => rfl
  | cons x xs ih =>
    rw [List.mapM_cons, List.mapM_cons, h x (by simp), ih fun y member => h y (by simp [member])]
    simp only [lift_bind]
    rfl

/-- Neither the remainder nor the cut is by zero, and each piece is a level. -/
theorem chars_eq {kinds : List SegmentKind} (small : SegmentKind.levelWidth kinds < SegmentKind.widthBound)
    (cs : List Char) : chars kinds cs = lift (Column.decodeChars kinds cs) := by
  have width : levelWidth 0 kinds = .ok (SegmentKind.levelWidth kinds) := by
    rw [levelWidth_eq_ok (by omega), Nat.zero_add]
  rw [chars, width, Column.decodeChars]
  simp only [bind, Except.bind]
  split
  · rename_i stop
    have stop' : SegmentKind.levelWidth kinds = 0 ∨ cs = [] ∨ cs.length % SegmentKind.levelWidth kinds ≠ 0 :=
      stop.imp_right Or.inl
    rw [if_pos stop']
    rfl
  · rename_i going
    obtain ⟨positive, some⟩ := not_or.mp going
    rw [remainder, if_neg positive, cut, if_neg positive]
    simp only
    split
    · rename_i partly
      rw [if_pos (Or.inr (Or.inr partly))]
      rfl
    · rename_i whole
      have whole' := Decidable.not_not.mp whole
      rw [if_neg (by simp [positive, some, whole']), Column.decodeLevels_eq_mapM]
      exact mapM_lift fun l member => level_eq (Column.length_of_mem_levels whole' l member) small

theorem column_eq {kinds : List SegmentKind} (small : SegmentKind.levelWidth kinds < SegmentKind.widthBound)
    (isNative : Bool) (c : Column) : column isNative kinds c = lift (c.decode isNative kinds) := by
  unfold column Column.decode
  split
  · rfl
  · cases c with
    | encoded text => exact chars_eq small text.toList
    | native values => rfl

theorem ancestors_eq {isNative : Bool} {expected : Nat} {kinds : List (String × SegmentKind)}
    (small : ∀ a ∈ kinds, SegmentKind.levelWidth [a.2] < SegmentKind.widthBound) (m : NameMap (List Value))
    (columns : List Column) :
    ancestors isNative expected m kinds columns = lift (Layout.decodeAncestors isNative expected m kinds columns) := by
  induction kinds generalizing columns m with
  | nil => rfl
  | cons kind kinds ih =>
    cases columns with
    | nil => rfl
    | cons c cs =>
      have rest := ih fun a member => small a (by simp [member])
      rw [ancestors, Layout.decodeAncestors, column_eq (small kind (by simp))]
      simp only [lift_bind, rest]

/-- Checked reading is reading: the row of a layout whose widths are counts is read without a slice that is out of
range, a number outside of its type, or a division by zero. -/
theorem row_eq {l : Layout} (countable : l.IsCountable) (isNative : Bool) (maxDepth : Nat) (raw : RawRow) :
    row l isNative maxDepth raw = lift (l.decode isNative maxDepth raw) := by
  by_cases range : raw.depth.toInt < 0 ∨ Layout.depthBound ≤ raw.depth.toInt
  · simp only [row, Layout.decode, if_pos range]
    rfl
  · -- The depth has passed a check for 32 bits, so one more is a count.
    have count : add raw.depth.toInt.toNat 1 = pure (raw.depth.toInt.toNat + 1) := by
      refine add_eq_ok ?_
      rw [Layout.depthBound] at range
      rw [SegmentKind.widthBound]
      omega
    simp only [row, Layout.decode, if_neg range, count, pure_bind, column_eq countable.path,
      column_eq countable.ordering, ancestors_eq countable.ancestors, lift_bind, lift_check]
    rfl

end Checked

end ForestQuery
