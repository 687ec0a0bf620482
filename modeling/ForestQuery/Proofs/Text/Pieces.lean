import ForestQuery.Proofs.Text.Utf8
/-!
Stored texts that make up a text in pieces. What a store counts as one character begins at most one character of the
text; so a text with as many characters as a store counts in its pieces is cut where these meet.
-/

namespace ForestQuery

open Text

namespace StoredChar

/-- Whether the bytes of a counted character are a first one and others that begin no character. -/
def IsWhole (c : StoredChar) : Prop := ∃ b others, c.bytes = b :: others ∧ ∀ x ∈ others, isStart x = false

theorem isWhole_char (c : Char) : (char c).IsWhole := by
  obtain ⟨b, others, shape, -, rest, -⟩ := exists_lead c
  exact ⟨b, others, shape, rest⟩

theorem isWhole_ofBytes {b : UInt8} {others : List UInt8} (rest : ∀ x ∈ others, isContinuation x = true) :
    (ofBytes (b :: others)).IsWhole := by
  rw [ofBytes]
  split
  · exact isWhole_char _
  · exact ⟨b, others, rfl, fun x member => by rw [isStart, rest x member]; rfl⟩

theorem isWhole_toLower {c : StoredChar} (whole : c.IsWhole) : c.toLower.IsWhole := by
  cases c with
  | char c => exact isWhole_char _
  | broken bytes => exact whole

end StoredChar

namespace StoredText

variable {t u : StoredText} {cs : List Char}

/-- Whether each counted character begins at most one character. -/
def IsWhole (t : StoredText) : Prop := ∀ c ∈ t, c.IsWhole

theorem isWhole_ofChars (cs : List Char) : (ofChars cs).IsWhole := by
  intro c member
  obtain ⟨x, -, rfl⟩ := List.mem_map.mp member
  exact StoredChar.isWhole_char x

theorem isWhole_ofBytes (bytes : List UInt8) : (ofBytes bytes).IsWhole := by
  induction bytes using ofBytes.induct with
  | case1 =>
    rw [ofBytes]
    exact List.forall_mem_nil _
  | case2 b bytes lead ih =>
    rw [ofBytes, if_pos lead]
    exact List.forall_mem_cons.mpr ⟨StoredChar.isWhole_ofBytes fun x member =>
      List.all_eq_true.mp List.all_takeWhile x member, ih⟩
  | case3 b bytes lone ih =>
    rw [ofBytes, if_neg lone]
    exact List.forall_mem_cons.mpr ⟨StoredChar.isWhole_ofBytes (List.forall_mem_nil _), ih⟩

theorem isWhole_map_toLower (whole : t.IsWhole) : IsWhole (t.map StoredChar.toLower) := by
  intro c member
  obtain ⟨x, inText, rfl⟩ := List.mem_map.mp member
  exact StoredChar.isWhole_toLower (whole x inText)

theorem toBytes_append (t u : StoredText) : toBytes (t ++ u) = t.toBytes ++ u.toBytes := List.flatMap_append

theorem starts_toBytes_le (whole : t.IsWhole) : starts t.toBytes ≤ t.length := by
  induction t with
  | nil => exact Nat.le_refl 0
  | cons c t ih =>
    obtain ⟨b, others, shape, rest⟩ := whole c List.mem_cons_self
    have none : starts others = 0 := List.countP_eq_zero.mpr fun x member => by rw [rest x member]; decide
    have one : starts [b] ≤ 1 := List.countP_le_length
    have bytes : toBytes (c :: t) = [b] ++ others ++ toBytes t := by
      rw [toBytes, List.flatMap_cons, shape]
      rfl
    have upper := ih fun x member => whole x (List.mem_cons_of_mem _ member)
    rw [bytes, starts_append, starts_append, List.length_cons]
    omega

/-- A text is cut where two pieces meet. -/
theorem exists_cut (whole : t.IsWhole) (whole' : u.IsWhole) (bytes : utf8 cs = toBytes (t ++ u))
    (length : cs.length = (t ++ u).length) :
    ∃ front later, cs = front ++ later ∧ utf8 front = t.toBytes ∧ utf8 later = u.toBytes ∧
      front.length = t.length ∧ later.length = u.length := by
  have atMost := starts_toBytes_le whole
  have atMost' := starts_toBytes_le whole'
  rw [toBytes_append] at bytes
  have total := congrArg starts bytes
  rw [starts_utf8, starts_append, length, List.length_append] at total
  have cut : ∃ front later, cs = front ++ later ∧ utf8 front = t.toBytes ∧ utf8 later = u.toBytes := by
    cases u with
    | nil => exact ⟨cs, [], (List.append_nil cs).symm, by rw [bytes]; exact List.append_nil _, rfl⟩
    | cons c u =>
      obtain ⟨b, others, shape, rest⟩ := whole' c List.mem_cons_self
      have behind : toBytes (c :: u) = b :: (others ++ toBytes u) := by
        rw [toBytes, List.flatMap_cons, shape]
        rfl
      -- As many characters begin as are counted, so the first byte of the second piece begins one.
      have start : isStart b = true := by
        by_contra inside
        have none : starts (b :: others) = 0 := List.countP_eq_zero.mpr fun x member => by
          rcases List.mem_cons.mp member with rfl | later
          · exact inside
          · rw [rest x later]
            decide
        have upper := starts_toBytes_le fun x member => whole' x (List.mem_cons_of_mem c member)
        rw [behind, ← List.cons_append, starts_append, none, List.length_cons] at total
        omega
      rw [behind] at bytes ⊢
      exact Text.exists_cut bytes start
  obtain ⟨front, later, rfl, first, second⟩ := cut
  have counts := congrArg starts first
  have counts' := congrArg starts second
  rw [starts_utf8] at counts counts'
  exact ⟨front, later, rfl, first, second, by omega, by omega⟩

end StoredText

end ForestQuery
