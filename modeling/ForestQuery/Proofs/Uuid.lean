import ForestQuery.Proofs.Text.Order
import ForestQuery.Text.Blank
import ForestQuery.Uuid
/-!
The characters of canonical identifiers. Main statements: there is no blank among them, and a text that
is read as an identifier with hyphens is in ASCII, and canonical in lower case.
-/

namespace ForestQuery.Uuid

theorem mem_hyphenate {cs : List Char} {c : Char} (h : c ∈ hyphenate cs) : c = '-' ∨ c ∈ cs := by
  simp only [hyphenate, List.mem_append, List.mem_cons] at h
  rcases h with part | hyphen | part | hyphen | part | hyphen | part | hyphen | part
  · exact Or.inr (List.mem_of_mem_take part)
  · exact Or.inl hyphen
  · exact Or.inr (List.mem_of_mem_drop (List.mem_of_mem_take part))
  · exact Or.inl hyphen
  · exact Or.inr (List.mem_of_mem_drop (List.mem_of_mem_take part))
  · exact Or.inl hyphen
  · exact Or.inr (List.mem_of_mem_drop (List.mem_of_mem_take part))
  · exact Or.inl hyphen
  · exact Or.inr (List.mem_of_mem_drop part)

theorem isBlank_lowerHexDigit {d : Nat} (h : d < 16) : Text.isBlank (Text.lowerHexDigit d) = false := by
  have all : ∀ x : Fin 16, Text.isBlank (Text.lowerHexDigit x) = false := by decide
  exact all ⟨d, h⟩

theorem isBlank_of_mem_chars {u : Uuid} {c : Char} (h : c ∈ u.chars) : Text.isBlank c = false := by
  rcases mem_hyphenate h with rfl | digit
  · decide
  · obtain ⟨d, member, rfl⟩ := List.mem_map.mp digit
    exact isBlank_lowerHexDigit (u.digit_lt d member)

theorem trimChars_chars (u : Uuid) : Text.trimChars u.chars = u.chars :=
  Text.trimChars_of_no_blank fun _ => isBlank_of_mem_chars

/-- The digits of an identifier are what its hyphens stand between. -/
theorem hyphenate_append {a b c d e : List Char} (first : a.length = 8) (second : b.length = 4)
    (third : c.length = 4) :
    hyphenate (a ++ b ++ c ++ d ++ e) = a ++ '-' :: (b ++ '-' :: (c ++ '-' :: ((d ++ e).take 4 ++
      '-' :: (d ++ e).drop 4))) := by
  simp (disch := omega) [hyphenate, List.drop_append, List.drop_of_length_le, first, second, third]

theorem drop_of_getElem? {cs : List Char} {n : Nat} {c : Char} (h : cs[n]? = some c) :
    cs.drop n = c :: cs.drop (n + 1) := by
  obtain ⟨bound, rfl⟩ := List.getElem?_eq_some_iff.mp h
  exact List.drop_eq_getElem_cons bound

theorem take_append_of_drop {cs rest : List Char} {n m : Nat} (h : cs.drop (n + m) = rest) :
    (cs.drop n).take m ++ rest = cs.drop n := by
  rw [← h, ← List.drop_drop, List.take_append_drop]

/-- A text with its hyphens is its digits with hyphens between them. -/
theorem hyphenate_of_unhyphenate? {cs hs : List Char} (h : unhyphenate? cs = some hs) :
    hyphenate hs = cs := by
  rw [unhyphenate?] at h
  split at h
  · rename_i shape
    obtain ⟨length, first, second, third, fourth⟩ := shape
    cases h
    have last : ((cs.drop 19).take 4).length = 4 := by simp [length]
    rw [hyphenate_append (by simp [length]) (by simp [length]) (by simp [length]), List.take_left' last,
      List.drop_left' last, take_append_of_drop (drop_of_getElem? fourth), ← drop_of_getElem? third,
      take_append_of_drop rfl, ← drop_of_getElem? second, take_append_of_drop rfl, ← drop_of_getElem? first]
    exact List.take_append_drop 8 cs
  · cases h

theorem toLower_of_hexValue? {c : Char} {d : Nat} (value : Text.hexValue? c = some d) :
    c.toLower = Text.lowerHexDigit d := by
  have all : ∀ n : Fin 128, (Text.hexValue? (Char.ofNat n)).all
      (fun d => (Char.ofNat n).toLower == Text.lowerHexDigit d) = true := by decide
  have digit := Text.forall_of_ascii (P := fun c => (Text.hexValue? c).all (fun d => c.toLower == Text.lowerHexDigit d) = true)
    all (Text.lt_of_hexValue? value)
  simpa only [value, Option.all_some, beq_iff_eq] using digit

theorem map_toLower_of_mapM {hs : List Char} {ds : List Nat} (h : hs.mapM Text.hexValue? = some ds) :
    hs.map Char.toLower = ds.map Text.lowerHexDigit := by
  induction hs generalizing ds with
  | nil =>
    cases h
    rfl
  | cons c r ih =>
    rw [List.mapM_cons] at h
    obtain ⟨d, value, rest⟩ := Option.bind_eq_some_iff.mp h
    obtain ⟨others, values, same⟩ := Option.bind_eq_some_iff.mp rest
    cases same
    rw [List.map_cons, List.map_cons, toLower_of_hexValue? value, ih values]

theorem map_hyphenate (f : Char → Char) (cs : List Char) (hyphen : f '-' = '-') :
    (hyphenate cs).map f = hyphenate (cs.map f) := by
  simp [hyphenate, hyphen]

/-- An identifier with hyphens is canonical in lower case. -/
theorem map_toLower_of_ofChars? {cs : List Char} {u : Uuid} (length : cs.length = 36)
    (h : ofChars? cs = some u) : cs.map Char.toLower = u.chars := by
  rw [ofChars?, if_neg (by omega), if_pos length, ofHyphenated?] at h
  obtain ⟨hs, digits, read⟩ := Option.bind_eq_some_iff.mp h
  obtain ⟨ds, values, made⟩ := Option.bind_eq_some_iff.mp read
  rw [ofDigits?] at made
  split at made
  · cases made
    rw [← hyphenate_of_unhyphenate? digits, map_hyphenate _ _ rfl, map_toLower_of_mapM values]
    rfl
  · cases made

theorem hexValue?_of_mem_of_mapM {hs : List Char} {ds : List Nat} {c : Char}
    (h : hs.mapM Text.hexValue? = some ds) (member : c ∈ hs) : ∃ d, Text.hexValue? c = some d := by
  induction hs generalizing ds with
  | nil => cases member
  | cons x r ih =>
    rw [List.mapM_cons] at h
    obtain ⟨d, value, rest⟩ := Option.bind_eq_some_iff.mp h
    obtain ⟨others, values, -⟩ := Option.bind_eq_some_iff.mp rest
    rcases List.mem_cons.mp member with rfl | later
    · exact ⟨d, value⟩
    · exact ih values later

/-- An identifier with hyphens is in ASCII. -/
theorem isAscii_of_ofChars? {cs : List Char} {u : Uuid} (length : cs.length = 36)
    (h : ofChars? cs = some u) : Text.IsAscii cs := by
  rw [ofChars?, if_neg (by omega), if_pos length, ofHyphenated?] at h
  obtain ⟨hs, digits, read⟩ := Option.bind_eq_some_iff.mp h
  obtain ⟨ds, values, -⟩ := Option.bind_eq_some_iff.mp read
  intro c member
  rw [← hyphenate_of_unhyphenate? digits] at member
  rcases mem_hyphenate member with rfl | digit
  · decide
  · obtain ⟨d, value⟩ := hexValue?_of_mem_of_mapM values digit
    exact Text.lt_of_hexValue? value

theorem isAscii_chars (u : Uuid) : Text.IsAscii u.chars :=
  isAscii_of_ofChars? u.length_chars u.ofChars?_chars

theorem nul_not_mem_chars (u : Uuid) : '\x00' ∉ u.chars := by
  intro member
  have notDigit : ∀ x : Fin 16, '\x00' ≠ Text.lowerHexDigit x := by decide
  rcases mem_hyphenate member with hyphen | digit
  · exact absurd hyphen (by decide)
  · obtain ⟨d, inDigits, same⟩ := List.mem_map.mp digit
    exact notDigit ⟨d, u.digit_lt d inDigits⟩ same.symm

end ForestQuery.Uuid
