import ForestQuery.Column
import ForestQuery.Proofs.Segment.RoundTrip
/-!
Columns written level by level. Main statements: whole levels are split where they were joined, and
reading a written column gives what each of its levels is read as.
-/

namespace ForestQuery.Column

/-- The text of a level: a segment for each kind. -/
def encodeLevel : List SegmentKind → List Value → Except Error (List Char)
  | kind :: kinds, v :: vs => do
    let segment ← Segment.encode v kind
    return segment ++ (← encodeLevel kinds vs)
  | _, _ => .ok []

/-- The text of a column. -/
def encodeLevels (kinds : List SegmentKind) : List (List Value) → Except Error (List Char)
  | [] => .ok []
  | values :: rest => do
    let level ← encodeLevel kinds values
    return level ++ (← encodeLevels kinds rest)

theorem encodeLevel_cons_eq_ok {kind : SegmentKind} {kinds : List SegmentKind} {v : Value} {vs : List Value}
    {cs : List Char} (written : encodeLevel (kind :: kinds) (v :: vs) = .ok cs) :
    ∃ segment rest, Segment.encode v kind = .ok segment ∧ encodeLevel kinds vs = .ok rest ∧ cs = segment ++ rest := by
  obtain ⟨segment, first, others⟩ := Outcome.bind_eq_ok_iff.mp written
  obtain ⟨rest, restOk, same⟩ := Outcome.bind_eq_ok_iff.mp others
  exact ⟨segment, rest, first, restOk, (Except.ok.inj same).symm⟩

theorem encodeLevels_cons_eq_ok {kinds : List SegmentKind} {vs : List Value} {rows : List (List Value)} {cs : List Char}
    (written : encodeLevels kinds (vs :: rows) = .ok cs) :
    ∃ level rest, encodeLevel kinds vs = .ok level ∧ encodeLevels kinds rows = .ok rest ∧ cs = level ++ rest := by
  obtain ⟨level, first, others⟩ := Outcome.bind_eq_ok_iff.mp written
  obtain ⟨rest, restOk, same⟩ := Outcome.bind_eq_ok_iff.mp others
  exact ⟨level, rest, first, restOk, (Except.ok.inj same).symm⟩

/-- What the text of a level is read as: a single segment as its value, several as they are written. -/
def levelReading (kinds : List SegmentKind) (values : List Value) (level : List Char) : Value :=
  match kinds, values with
  | [kind], [v] => Segment.reading v level kind
  | _, _ => .text (String.ofList level)

theorem length_encodeLevel {kinds : List SegmentKind} {values : List Value} {level : List Char}
    (bounded : ∀ kind ∈ kinds, kind.IsBounded) (full : values.length = kinds.length)
    (written : encodeLevel kinds values = .ok level) : level.length = SegmentKind.levelWidth kinds := by
  induction kinds generalizing values level with
  | nil =>
    cases written
    rfl
  | cons kind kinds ih =>
    obtain ⟨v, vs, rfl⟩ := List.exists_cons_of_length_eq_add_one full
    obtain ⟨segment, tail, first, others, rfl⟩ := encodeLevel_cons_eq_ok written
    rw [List.length_append, Segment.length_encode (bounded kind (by simp)) first,
      ih (fun k hk => bounded k (by simp [hk])) (by simpa using full) others, SegmentKind.levelWidth_cons]

theorem decodeSegments_encodeLevel {kinds : List SegmentKind} {values : List Value} {level : List Char}
    (bounded : ∀ kind ∈ kinds, kind.IsBounded) (full : values.length = kinds.length)
    (written : encodeLevel kinds values = .ok level) :
    ∃ read, decodeSegments kinds level = .ok read ∧ read.length = kinds.length := by
  induction kinds generalizing values level with
  | nil => exact ⟨[], rfl, rfl⟩
  | cons kind kinds ih =>
    obtain ⟨v, vs, rfl⟩ := List.exists_cons_of_length_eq_add_one full
    obtain ⟨segment, tail, first, others, rfl⟩ := encodeLevel_cons_eq_ok written
    have width := Segment.length_encode (bounded kind (by simp)) first
    have back := Segment.decode_encode (bounded kind (by simp)) first
    obtain ⟨read, decoded, length⟩ := ih (fun k hk => bounded k (by simp [hk])) (by simpa using full) others
    refine ⟨Segment.reading v segment kind :: read, ?_, by rw [List.length_cons, List.length_cons, length]⟩
    rw [decodeSegments, List.take_left' width, List.drop_left' width, back, decoded]
    rfl

/-- A level of one segment is read as its value. -/
theorem decodeLevel_single {kind : SegmentKind} {l : List Char} (width : l.length = kind.width) :
    decodeLevel [kind] l = Segment.decode l kind := by
  rw [decodeLevel, decodeSegments, ← width, List.take_length]
  cases Segment.decode l kind <;> rfl

/-- A level is read as what was written. -/
theorem decodeLevel_encodeLevel {kinds : List SegmentKind} {values : List Value} {level : List Char}
    (bounded : ∀ kind ∈ kinds, kind.IsBounded) (full : values.length = kinds.length)
    (written : encodeLevel kinds values = .ok level) :
    decodeLevel kinds level = .ok (levelReading kinds values level) := by
  match kinds, values with
  | [], [] => rfl
  | [kind], [v] =>
    obtain ⟨segment, first, rest⟩ := Outcome.bind_eq_ok_iff.mp written
    have same : segment ++ [] = level := Except.ok.inj rest
    rw [List.append_nil] at same
    subst same
    have width := Segment.length_encode (bounded kind (by simp)) first
    have back := Segment.decode_encode (bounded kind (by simp)) first
    rw [decodeLevel, decodeSegments, ← width, List.take_length, back]
    rfl
  | first :: second :: kinds, values =>
    obtain ⟨read, decoded, length⟩ := decodeSegments_encodeLevel bounded full written
    match read with
    | v :: w :: rest =>
      rw [decodeLevel, decoded]
      rfl

theorem decodeLevels_eq_mapM (kinds : List SegmentKind) (ls : List (List Char)) :
    decodeLevels kinds ls = ls.mapM (decodeLevel kinds) := by
  induction ls with
  | nil => rfl
  | cons l r ih => rw [decodeLevels, ih, List.mapM_cons]

/-- Pieces of one width are found again in their concatenation. -/
theorem levels_flatten {width : Nat} {ls : List (List Char)} (positive : 0 < width)
    (whole : ∀ l ∈ ls, l.length = width) : levels width ls.flatten = ls := by
  induction ls with
  | nil => rw [List.flatten_nil, levels, if_pos (Or.inr rfl)]
  | cons l r ih =>
    have first := whole l (by simp)
    have nonempty : ¬ (width = 0 ∨ (l :: r).flatten = []) := by
      rintro (zero | empty)
      · omega
      · have nil : l = [] := (List.append_eq_nil_iff.mp empty).1
        rw [nil, List.length_nil] at first
        omega
    rw [levels, if_neg nonempty, List.flatten_cons, List.take_left' first, List.drop_left' first,
      ih fun m hm => whole m (by simp [hm])]

theorem length_flatten_of_whole {width : Nat} {ls : List (List Char)} (whole : ∀ l ∈ ls, l.length = width) :
    ls.flatten.length = ls.length * width := by
  induction ls with
  | nil => simp
  | cons l r ih =>
    rw [List.flatten_cons, List.length_append, whole l (by simp), ih fun m hm => whole m (by simp [hm]),
      List.length_cons, Nat.succ_mul, Nat.add_comm]

/-- Whole levels are read one by one. -/
theorem decodeChars_flatten {kinds : List SegmentKind} {ls : List (List Char)}
    (positive : 0 < SegmentKind.levelWidth kinds) (nonempty : ls ≠ [])
    (whole : ∀ l ∈ ls, l.length = SegmentKind.levelWidth kinds) :
    decodeChars kinds ls.flatten = ls.mapM (decodeLevel kinds) := by
  have length := length_flatten_of_whole whole
  have some : ls.flatten ≠ [] := by
    apply List.ne_nil_of_length_pos
    rw [length]
    exact Nat.mul_pos (List.length_pos_iff.mpr nonempty) positive
  have exact : ls.flatten.length % SegmentKind.levelWidth kinds = 0 := by
    rw [length, Nat.mul_mod_left]
  rw [decodeChars, if_neg]
  · rw [levels_flatten positive whole, decodeLevels_eq_mapM]
  · rintro (zero | empty | partly)
    · omega
    · exact some empty
    · exact partly exact

/-- A whole number of levels is cut into whole levels. -/
theorem length_of_mem_levels {width : Nat} {cs : List Char} (whole : cs.length % width = 0) :
    ∀ l ∈ levels width cs, l.length = width := by
  fun_induction levels width cs with
  | case1 cs stop => exact fun l member => by cases member
  | case2 cs going ih =>
    have some : 0 < cs.length := List.length_pos_iff.mpr fun empty => going (Or.inr empty)
    have fits : width ≤ cs.length := Nat.le_of_dvd some (Nat.dvd_of_mod_eq_zero whole)
    have rest : (cs.drop width).length % width = 0 := by
      rw [List.length_drop, ← Nat.mod_eq_sub_mod fits, whole]
    refine List.forall_mem_cons.mpr ⟨?_, ih rest⟩
    rw [List.length_take, Nat.min_eq_left fits]

/-- A text is read exactly when it is made of one or more levels that are read. -/
theorem decodeChars_eq_ok_iff {kinds : List SegmentKind} {cs : List Char} {vs : List Value} :
    decodeChars kinds cs = .ok vs ↔ 0 < SegmentKind.levelWidth kinds ∧ vs ≠ [] ∧
      ∃ ls, cs = ls.flatten ∧ (∀ l ∈ ls, l.length = SegmentKind.levelWidth kinds) ∧
        List.Forall₂ (fun l v => decodeLevel kinds l = .ok v) ls vs := by
  constructor
  · intro decoded
    rw [decodeChars] at decoded
    split at decoded
    · cases decoded
    · rename_i going
      obtain ⟨zero, rest⟩ := not_or.mp going
      obtain ⟨some, partly⟩ := not_or.mp rest
      have positive := Nat.pos_of_ne_zero zero
      rw [decodeLevels_eq_mapM, Outcome.mapM_eq_ok_iff] at decoded
      have whole := flatten_levels positive cs
      refine ⟨positive, ?_, levels _ cs, whole.symm, length_of_mem_levels (Decidable.not_not.mp partly), decoded⟩
      rintro rfl
      rw [List.forall₂_nil_right_iff.mp decoded] at whole
      exact some whole.symm
  · rintro ⟨positive, some, ls, rfl, whole, read⟩
    have nonempty : ls ≠ [] := by
      rintro rfl
      exact some (List.forall₂_nil_left_iff.mp read)
    rw [decodeChars_flatten positive nonempty whole, Outcome.mapM_eq_ok_iff]
    exact read

theorem width_pos (kind : SegmentKind) : 0 < kind.width := by
  cases kind <;> simp only [SegmentKind.width, SegmentKind.integerWidth, SegmentKind.uuidWidth,
    SegmentKind.lengthWidth] <;> omega

theorem levelWidth_pos {kinds : List SegmentKind} (nonempty : kinds ≠ []) :
    0 < SegmentKind.levelWidth kinds := by
  cases kinds with
  | nil => exact absurd rfl nonempty
  | cons kind kinds =>
    have first := width_pos kind
    rw [SegmentKind.levelWidth_cons]
    omega

theorem encodeLevels_eq_ok_iff {kinds : List SegmentKind} {rows : List (List Value)} {cs : List Char} :
    encodeLevels kinds rows = .ok cs ↔
      ∃ ls, List.Forall₂ (fun values level => encodeLevel kinds values = .ok level) rows ls ∧ cs = ls.flatten := by
  induction rows generalizing cs with
  | nil => simp [encodeLevels, eq_comm]
  | cons values rest ih =>
    simp only [encodeLevels, Outcome.bind_eq_ok_iff, Outcome.pure_eq_ok_iff, List.forall₂_cons_left_iff, ih]
    constructor
    · rintro ⟨level, first, tail, ⟨ls, others, rfl⟩, rfl⟩
      exact ⟨level :: ls, ⟨level, ls, first, others, rfl⟩, rfl⟩
    · rintro ⟨_, ⟨level, ls, first, others, rfl⟩, rfl⟩
      exact ⟨level, first, ls.flatten, ⟨ls, others, rfl⟩, rfl⟩

/-- A column is read as what each of its levels is read as. -/
theorem decode_encodeLevels {kinds : List SegmentKind} {rows : List (List Value)} {cs : List Char}
    (bounded : ∀ kind ∈ kinds, kind.IsBounded) (segmented : kinds ≠ []) (nonempty : rows ≠ [])
    (full : ∀ values ∈ rows, values.length = kinds.length) (written : encodeLevels kinds rows = .ok cs) :
    (encoded (String.ofList cs)).decode false kinds
      = rows.mapM fun values => (encodeLevel kinds values).map (levelReading kinds values) := by
  obtain ⟨ls, levels, rfl⟩ := encodeLevels_eq_ok_iff.1 written
  have positive := levelWidth_pos segmented
  have whole : ∀ l ∈ ls, l.length = SegmentKind.levelWidth kinds := by
    intro l member
    obtain ⟨values, inRows, level⟩ := Outcome.exists_of_mem_right levels member
    exact length_encodeLevel bounded (full values inRows) level
  have some : ls ≠ [] := by
    rintro rfl
    exact nonempty (List.forall₂_nil_right_iff.mp levels)
  rw [decode, if_neg (by decide), decodeFixedWidth, String.toList_ofList, decodeChars_flatten positive some whole]
  refine (Outcome.mapM_congr ?_).symm
  refine List.forall₂_iff_zip.mpr ⟨levels.length_eq, fun {values level} member => ?_⟩
  have level_ok := List.forall₂_zip levels member
  have inRows := (List.of_mem_zip member).1
  rw [level_ok, decodeLevel_encodeLevel bounded (full values inRows) level_ok]
  rfl

theorem exists_encodeLevel {kinds : List SegmentKind} {values : List Value}
    (fits : ∀ p ∈ values.zip kinds, ∃ cs, Segment.encode p.1 p.2 = .ok cs) :
    ∃ level, encodeLevel kinds values = .ok level := by
  induction kinds generalizing values with
  | nil => exact ⟨[], by cases values <;> rfl⟩
  | cons kind kinds ih =>
    cases values with
    | nil => exact ⟨[], rfl⟩
    | cons v vs =>
      obtain ⟨segment, first⟩ := fits (v, kind) (by simp)
      obtain ⟨tail, others⟩ := ih fun p hp => fits p (List.mem_cons_of_mem _ hp)
      exact ⟨segment ++ tail, by rw [encodeLevel, first, others]; rfl⟩

theorem exists_encodeLevels {kinds : List SegmentKind} {rows : List (List Value)}
    (fits : ∀ values ∈ rows, ∃ level, encodeLevel kinds values = .ok level) :
    ∃ cs, encodeLevels kinds rows = .ok cs := by
  induction rows with
  | nil => exact ⟨[], rfl⟩
  | cons values rest ih =>
    obtain ⟨level, first⟩ := fits values (by simp)
    obtain ⟨tail, others⟩ := ih fun v hv => fits v (List.mem_cons_of_mem _ hv)
    exact ⟨level ++ tail, by rw [encodeLevels, first, others]; rfl⟩

/-- Levels that are known one by one. -/
theorem encodeLevels_map {α : Type} {kinds : List SegmentKind} {values : α → List Value} {level : α → List Char}
    {xs : List α} (written : ∀ x ∈ xs, encodeLevel kinds (values x) = .ok (level x)) :
    encodeLevels kinds (xs.map values) = .ok (xs.flatMap level) := by
  induction xs with
  | nil => rfl
  | cons x xs ih =>
    rw [List.map_cons, encodeLevels, written x (by simp), ih fun y member => written y (by simp [member]),
      List.flatMap_cons]
    rfl

theorem encodeLevel_single (kind : SegmentKind) (v : Value) :
    encodeLevel [kind] [v] = Segment.encode v kind := by
  rw [encodeLevel, show encodeLevel [] [] = .ok [] from rfl]
  cases Segment.encode v kind with
  | error e => rfl
  | ok cs => exact congrArg Except.ok (List.append_nil cs)

/-- A column of single segments is read as the values that it was written for. -/
theorem decode_encodeLevels_single {kind : SegmentKind} {values : List Value} {cs : List Char}
    (bounded : kind.IsBounded) (nonempty : values ≠ []) (kept : ∀ v ∈ values, Segment.IsKept v kind)
    (written : encodeLevels [kind] (values.map ([·])) = .ok cs) :
    (encoded (String.ofList cs)).decode false [kind] = .ok values := by
  have boundedAll : ∀ k ∈ [kind], k.IsBounded := by
    intro k member
    rwa [List.mem_singleton.mp member]
  have full : ∀ row ∈ values.map ([·]), row.length = [kind].length := by
    intro row member
    obtain ⟨v, -, rfl⟩ := List.mem_map.mp member
    rfl
  rw [decode_encodeLevels boundedAll (by simp) (by simpa using nonempty) full written]
  obtain ⟨ls, levels, -⟩ := encodeLevels_eq_ok_iff.1 written
  rw [Outcome.mapM_eq_ok_iff]
  refine List.forall₂_map_left_iff.mpr (List.forall₂_same.mpr fun v member => ?_)
  obtain ⟨level, -, first⟩ := Outcome.exists_of_mem_left levels (List.mem_map_of_mem member)
  rw [first]
  rw [encodeLevel_single] at first
  exact congrArg Except.ok (Segment.reading_of_isKept (kept v member) first)

end ForestQuery.Column
