import ForestQuery.Proofs.Segment.Comparison
/-!
The order of keys of texts. Main statement: the keys of two texts are in the order of their bytes, or against it,
unless the texts differ in nothing but U+0000 at their ends, when they have one key; and the key of an absent text
comes before all of them.
-/

namespace ForestQuery

namespace Text

/-- Whether two texts become one when U+0000 is put behind them. -/
def AgreeFilled (a b : List Char) : Prop := ∃ m n, a ++ List.replicate m '\x00' = b ++ List.replicate n '\x00'

theorem utf8_nuls (n : Nat) : utf8 (List.replicate n '\x00') = List.replicate n 0 := by
  induction n with
  | zero => rfl
  | succ n ih =>
    rw [List.replicate_succ, utf8, List.flatMap_cons, utf8EncodeChar_of_lt (by decide), List.replicate_succ, ← ih]
    rfl

theorem utf8_append_nuls (cs : List Char) (n : Nat) :
    utf8 (cs ++ List.replicate n '\x00') = utf8 cs ++ List.replicate n 0 := by
  rw [utf8_append, utf8_nuls]

theorem AgreeFilled.eq {a b : List Char} (agree : AgreeFilled a b) (first : a.getLast? ≠ some '\x00')
    (second : b.getLast? ≠ some '\x00') : a = b := by
  obtain ⟨m, n, same⟩ := agree
  have bytes := congrArg utf8 same
  rw [utf8_append_nuls, utf8_append_nuls] at bytes
  exact utf8_injective (eq_of_append_zeros (isUnpadded_utf8 first) (isUnpadded_utf8 second) bytes)

/-- Texts become one exactly when their bytes, filled up with zeros to one length, do. -/
theorem agreeFilled_iff {a b : List Char} {m n : Nat} (length : (utf8 a).length + m = (utf8 b).length + n) :
    AgreeFilled a b ↔ utf8 a ++ List.replicate m 0 = utf8 b ++ List.replicate n 0 := by
  constructor
  · rintro ⟨k, l, same⟩
    have bytes := congrArg utf8 same
    rw [utf8_append_nuls, utf8_append_nuls] at bytes
    -- Both are the beginning, of one length, of what the texts become.
    have counted := congrArg List.length bytes
    simp only [List.length_append, List.length_replicate] at counted
    have longer : utf8 a ++ List.replicate m 0 ++ List.replicate k 0 = utf8 b ++ List.replicate n 0 ++ List.replicate k 0 :=
      calc utf8 a ++ List.replicate m 0 ++ List.replicate k 0
        _ = utf8 a ++ List.replicate k 0 ++ List.replicate m 0 := by
          rw [List.append_assoc, List.append_assoc, List.replicate_append_replicate, List.replicate_append_replicate,
            Nat.add_comm]
        _ = utf8 b ++ List.replicate l 0 ++ List.replicate m 0 := by rw [bytes]
        _ = utf8 b ++ List.replicate n 0 ++ List.replicate k 0 := by
          rw [List.append_assoc, List.append_assoc, List.replicate_append_replicate, List.replicate_append_replicate,
            show l + m = n + k by omega]
    refine List.append_inj_left longer ?_
    simp only [List.length_append, List.length_replicate, length]
  · intro same
    refine ⟨m, n, utf8_injective ?_⟩
    rw [utf8_append_nuls, utf8_append_nuls, same]

end Text

namespace Segment

variable {s t : String} {bytes : Nat} {descending : Bool} {cs ds : List Char}

theorem exists_encodeKeyBytes_iff {raw : List UInt8} :
    (∃ digits, encodeKeyBytes bytes descending raw = .ok digits) ↔ raw.length ≤ bytes := by
  rw [encodeKeyBytes]
  by_cases fits : raw.length ≤ bytes
  · simp [fits]
  · simp [fits]

theorem encode_text_textKey_eq_ok_iff : encode (.text s) (.textKey bytes descending) = .ok cs ↔
    ∃ digits, encodeKeyBytes bytes descending (Text.utf8 s.toList) = .ok digits ∧
      cs = SegmentKind.presentMarker :: digits := by
  rw [encode, Outcome.map_eq_ok_iff]
  simp only [eq_comm]

theorem exists_encode_text_iff : (∃ cs, encode (.text s) (.textKey bytes descending) = .ok cs) ↔
    (Text.utf8 s.toList).length ≤ bytes := by
  rw [← @exists_encodeKeyBytes_iff bytes descending]
  simp only [encode_text_textKey_eq_ok_iff]
  constructor
  · rintro ⟨-, digits, made, -⟩
    exact ⟨digits, made⟩
  · rintro ⟨digits, made⟩
    exact ⟨_, digits, made, rfl⟩

/-- An absent text has a key in any width, which comes before all others. -/
theorem exists_encode_null (written : encode (.text s) (.textKey bytes descending) = .ok cs) :
    ∃ absent, encode .null (.textKey bytes descending) = .ok absent ∧
      compare (Text.codes absent) (Text.codes cs) = .lt := by
  obtain ⟨zeros, made⟩ : ∃ zeros, encodeKeyBytes bytes descending [] = .ok zeros :=
    exists_encodeKeyBytes_iff.mpr (Nat.zero_le bytes)
  have absent : encode .null (.textKey bytes descending) = .ok (SegmentKind.absentMarker :: zeros) := by
    rw [encode, made]
    rfl
  have ordered : (SegmentKind.textKey bytes descending).IsOrdered := trivial
  exact ⟨_, absent, compare_encode_null ordered rfl absent written⟩

/-- Keys are in the order of their texts or against it, unless the texts become one, and so do the keys. -/
theorem compare_textKey (first : encode (.text s) (.textKey bytes descending) = .ok cs)
    (second : encode (.text t) (.textKey bytes descending) = .ok ds) :
    (Text.AgreeFilled s.toList t.toList ∧ compare (Text.codes cs) (Text.codes ds) = .eq) ∨
    (¬ Text.AgreeFilled s.toList t.toList ∧ compare (Text.codes cs) (Text.codes ds)
      = (SegmentKind.textKey bytes descending).direction.apply (Text.compareText s t)) := by
  obtain ⟨digits, made, rfl⟩ := encode_text_textKey_eq_ok_iff.mp first
  obtain ⟨digits', made', rfl⟩ := encode_text_textKey_eq_ok_iff.mp second
  obtain ⟨length, order⟩ := compare_encodeKeyBytes_filled made made'
  rw [Text.codes_cons, Text.codes_cons, Text.compare_cons_self, order, Text.compareText, Text.compareBytes_eq_compare]
  by_cases agree : Text.AgreeFilled s.toList t.toList
  · left
    have same : ∀ zs : List UInt8, compare zs zs = .eq := fun zs => Std.ReflCmp.compare_self
    rw [(Text.agreeFilled_iff length).mp agree, same]
    exact ⟨agree, by cases descending <;> rfl⟩
  · right
    rcases Text.compare_append_zeros length with same | kept
    · exact absurd ((Text.agreeFilled_iff length).mpr same) agree
    · rw [kept]
      exact ⟨agree, by cases descending <;> rfl⟩

/-- A text has a key if its bytes fit. Two texts have one key exactly when they differ in nothing but U+0000 at their
ends; the keys of all others, and so of all texts that do not end in U+0000, are in the order of the texts or against
it. The key of an absent text comes before them, in either direction. -/
theorem compareText_keys (first : encode (.text s) (.textKey bytes descending) = .ok cs)
    (second : encode (.text t) (.textKey bytes descending) = .ok ds) :
    let direction := (SegmentKind.textKey bytes descending).direction
    (∀ u, (∃ es, encode (.text u) (.textKey bytes descending) = .ok es) ↔ (Text.utf8 u.toList).length ≤ bytes) ∧
    (cs = ds ↔ Text.AgreeFilled s.toList t.toList) ∧
    (¬ Text.AgreeFilled s.toList t.toList →
      Text.compareText (String.ofList cs) (String.ofList ds) = direction.apply (Text.compareText s t)) ∧
    (s.toList.getLast? ≠ some '\x00' → t.toList.getLast? ≠ some '\x00' →
      Text.compareText (String.ofList cs) (String.ofList ds) = direction.apply (Text.compareText s t)) ∧
    ∃ absent, encode .null (.textKey bytes descending) = .ok absent ∧
      Text.compareText (String.ofList absent) (String.ofList cs) = .lt := by
  intro direction
  have plain {v : Value} {es : List Char} (made : encode v (.textKey bytes descending) = .ok es) : Text.IsAscii es :=
    isAscii_encode made fun width => nofun
  have order := compare_textKey first second
  rw [← Text.compareText_ofList (plain first) (plain second)] at order
  refine ⟨fun u => exists_encode_text_iff, ?_, fun apart => ?_, fun clean clean' => ?_, ?_⟩
  · rcases order with ⟨agree, same⟩ | ⟨apart, kept⟩
    · exact iff_of_true (String.ofList_injective (Text.compareText_eq_eq_iff.mp same)) agree
    · refine iff_of_false (fun same => apart ?_) apart
      rw [same, Text.compareText_eq_eq_iff.mpr rfl, eq_comm, Direction.apply_eq_eq_iff] at kept
      exact ⟨0, 0, by rw [Text.compareText_eq_eq_iff.mp kept]⟩
  · exact order.resolve_left (fun both => apart both.1) |>.2
  · rcases order with ⟨agree, same⟩ | ⟨-, kept⟩
    · rw [same, eq_comm, Direction.apply_eq_eq_iff, Text.compareText_eq_eq_iff]
      exact String.toList_inj.mp (agree.eq clean clean')
    · exact kept
  · obtain ⟨absent, made, before⟩ := exists_encode_null first
    exact ⟨absent, made, by rw [Text.compareText_ofList (plain made) (plain first), before]⟩

/-- U+0000 inside of a text counts. -/
theorem compareText_keys_inside :
    ∃ cs ds, encode (.text "a") (.textKey 3 true) = .ok cs ∧ encode (.text "a\x00b") (.textKey 3 true) = .ok ds ∧
      Text.compareText (String.ofList cs) (String.ofList ds) = .gt := by
  have first : encode (.text "a") (.textKey 3 true) = .ok "19EFFFF".toList := rfl
  have second : encode (.text "a\x00b") (.textKey 3 true) = .ok "19EFF9D".toList := rfl
  obtain ⟨-, -, -, kept, -⟩ := compareText_keys first second
  exact ⟨_, _, first, second, kept (by decide) (by decide)⟩

/-- Two texts of which one comes before the other have one key, in either direction. -/
theorem shared_key : Text.compareText "a" "a\x00" = .lt ∧ ∀ descending, ∃ cs,
    encode (.text "a") (.textKey 2 descending) = .ok cs ∧ encode (.text "a\x00") (.textKey 2 descending) = .ok cs := by
  refine ⟨by decide, fun descending => ?_⟩
  cases descending <;> exact ⟨_, rfl, rfl⟩

end Segment

end ForestQuery
