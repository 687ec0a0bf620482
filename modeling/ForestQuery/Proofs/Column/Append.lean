import ForestQuery.Proofs.Column
/-!
Columns that are joined. Main statement: behind whole levels a column is read as its two parts are, one after the other;
what cannot be read in front is what is reported, and a level behind adds one value and changes none.
-/

namespace ForestQuery.Column

open SegmentKind

variable {kinds : List SegmentKind} {width : Nat} {a b : List Char} {vs : List Value}

/-- Behind whole pieces, cutting goes on as if it began there. -/
theorem levels_append (positive : 0 < width) (whole : a.length % width = 0) :
    levels width (a ++ b) = levels width a ++ levels width b := by
  fun_induction levels width a with
  | case1 a stop =>
    rcases stop with zero | rfl
    · omega
    · rfl
  | case2 a going ih =>
    have some : 0 < a.length := List.length_pos_iff.mpr fun empty => going (Or.inr empty)
    have fits : width ≤ a.length := Nat.le_of_dvd some (Nat.dvd_of_mod_eq_zero whole)
    have rest : (a.drop width).length % width = 0 := by
      rw [List.length_drop, ← Nat.mod_eq_sub_mod fits, whole]
    have nonempty : ¬ (width = 0 ∨ a ++ b = []) := by
      rintro (zero | empty)
      · omega
      · exact going (Or.inr (List.append_eq_nil_iff.mp empty).1)
    rw [levels, if_neg nonempty, List.take_append_of_le_length fits, List.drop_append_of_le_length fits, ih rest,
      List.cons_append]

/-- One or more whole levels are read level by level. -/
theorem decodeChars_of_whole (positive : 0 < levelWidth kinds) (nonempty : a ≠ [])
    (whole : a.length % levelWidth kinds = 0) :
    decodeChars kinds a = (levels (levelWidth kinds) a).mapM (decodeLevel kinds) := by
  rw [decodeChars, if_neg, decodeLevels_eq_mapM]
  rintro (zero | empty | partly)
  · omega
  · exact nonempty empty
  · exact partly whole

/-- Whole levels behind whole levels are read after them. -/
theorem decodeChars_append (positive : 0 < levelWidth kinds) (first : a ≠ []) (second : b ≠ [])
    (whole : a.length % levelWidth kinds = 0) (whole' : b.length % levelWidth kinds = 0) :
    decodeChars kinds (a ++ b) = do return (← decodeChars kinds a) ++ (← decodeChars kinds b) := by
  have joined : (a ++ b).length % levelWidth kinds = 0 := by
    rw [List.length_append, Nat.add_mod, whole, whole']
    rfl
  rw [decodeChars_of_whole positive first whole, decodeChars_of_whole positive second whole',
    decodeChars_of_whole positive (List.append_ne_nil_of_left_ne_nil first b) joined, levels_append positive whole,
    List.mapM_append]

/-- What is no whole number of levels is not read. -/
theorem decodeChars_of_partly (partly : a.length % levelWidth kinds ≠ 0) :
    decodeChars kinds a = .error (.decode (.notWholeLevels a.length (levelWidth kinds))) := by
  rw [decodeChars, if_pos (Or.inr (Or.inr partly))]

/-- Behind whole levels, a text is read exactly when both parts are. -/
theorem decodeChars_append_eq_ok_iff (positive : 0 < levelWidth kinds) (first : a ≠ []) (second : b ≠ [])
    (whole : a.length % levelWidth kinds = 0) :
    decodeChars kinds (a ++ b) = .ok vs ↔
      ∃ us ws, decodeChars kinds a = .ok us ∧ decodeChars kinds b = .ok ws ∧ vs = us ++ ws := by
  by_cases whole' : b.length % levelWidth kinds = 0
  · simp only [decodeChars_append positive first second whole whole', Outcome.bind_eq_ok_iff, Outcome.pure_eq_ok_iff]
    constructor
    · rintro ⟨us, front, ws, rest, rfl⟩
      exact ⟨us, ws, front, rest, rfl⟩
    · rintro ⟨us, ws, front, rest, rfl⟩
      exact ⟨us, front, ws, rest, rfl⟩
  · -- The remainder of the second part is that of the whole, so neither can be read.
    have joined : (a ++ b).length % levelWidth kinds ≠ 0 := by
      rw [List.length_append, Nat.add_mod, whole, Nat.zero_add, Nat.mod_mod]
      exact whole'
    rw [decodeChars_of_partly joined, decodeChars_of_partly whole']
    simp

/-- A single level is read as its value. -/
theorem decodeChars_single (positive : 0 < levelWidth kinds) (width : a.length = levelWidth kinds) :
    decodeChars kinds a = (decodeLevel kinds a).map ([·]) := by
  have single : decodeChars kinds [a].flatten = [a].mapM (decodeLevel kinds) :=
    decodeChars_flatten positive (by simp) fun l member => by rwa [List.mem_singleton.mp member]
  rw [List.flatten_singleton] at single
  rw [single, List.mapM_cons, List.mapM_nil]
  cases decodeLevel kinds a <;> rfl

/-- A column is read in parts: behind whole levels, exactly as the parts are read, their values one after the other.
A part that cannot be read in front of whole levels is reported in the same way with these behind it. One level more is
one value more at the end, and leaves the values of the levels in front as they are. -/
theorem read_in_parts (positive : 0 < levelWidth kinds) {s t : String} (first : s ≠ "") (second : t ≠ "")
    (whole : s.length % levelWidth kinds = 0) :
    (∀ vs, (encoded (s ++ t)).decodeFixedWidth kinds = .ok vs ↔
      ∃ us ws, (encoded s).decodeFixedWidth kinds = .ok us ∧ (encoded t).decodeFixedWidth kinds = .ok ws ∧
        vs = us ++ ws) ∧
    (∀ e, (encoded s).decodeFixedWidth kinds = .error e → t.length % levelWidth kinds = 0 →
      (encoded (s ++ t)).decodeFixedWidth kinds = .error e) ∧
    (t.length = levelWidth kinds → ∀ vs, (encoded (s ++ t)).decodeFixedWidth kinds = .ok vs ↔
      ∃ us v, (encoded s).decodeFixedWidth kinds = .ok us ∧ decodeLevel kinds t.toList = .ok v ∧ vs = us ++ [v]) := by
  have some : s.toList ≠ [] := fun empty => first (String.toList_eq_nil_iff.mp empty)
  have some' : t.toList ≠ [] := fun empty => second (String.toList_eq_nil_iff.mp empty)
  rw [← String.length_toList] at whole
  simp only [decodeFixedWidth, String.toList_append, ← String.length_toList (s := t)]
  refine ⟨fun vs => decodeChars_append_eq_ok_iff positive some some' whole, fun e failed whole' => ?_,
    fun width vs => ?_⟩
  · rw [decodeChars_append positive some some' whole whole', failed]
    rfl
  · rw [decodeChars_append_eq_ok_iff positive some some' whole, decodeChars_single positive width]
    simp only [Outcome.map_eq_ok_iff]
    constructor
    · rintro ⟨us, _, front, ⟨v, level, rfl⟩, rfl⟩
      exact ⟨us, v, front, level, rfl⟩
    · rintro ⟨us, v, front, level, rfl⟩
      exact ⟨us, [v], front, ⟨v, level, rfl⟩, rfl⟩

theorem read_in_parts_sample :
    (encoded "0001ä 0002日本").decodeFixedWidth [.text 2] = .ok [.text "ä", .text "日本"] ∧
    (encoded "00x1ä 9999  ").decodeFixedWidth [.text 2] = .error (.decode (.badLength "00x1")) := by
  have positive : 0 < levelWidth [.text 2] := by decide
  obtain ⟨-, -, level⟩ := read_in_parts positive (s := "0001ä ") (t := "0002日本") (by decide) (by decide)
    (by decide)
  obtain ⟨-, reported, -⟩ := read_in_parts positive (s := "00x1ä ") (t := "9999  ") (by decide) (by decide)
    (by decide)
  have front : (encoded "0001ä ").decodeFixedWidth [.text 2] = .ok [.text "ä"] := by decide_cbv
  have last : decodeLevel [.text 2] "0002日本".toList = .ok (.text "日本") := by decide
  have failed : (encoded "00x1ä ").decodeFixedWidth [.text 2] = .error (.decode (.badLength "00x1")) := by
    decide_cbv
  exact ⟨(level (by decide) _).mpr ⟨_, _, front, last, rfl⟩, reported _ failed (by decide)⟩

end ForestQuery.Column
