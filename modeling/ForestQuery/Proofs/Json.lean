import ForestQuery.Json.Reader
import Mathlib.Data.List.Basic
/-!
Reading what is written as JSON. Main statement: a value is read back from its text, if its numbers are.
-/

namespace ForestQuery.Json

section Strings

variable {cs rest : List Char} {body : List (Option Char)}

theorem stringBody_quote (cs : List Char) : stringBody ('"' :: cs) = some ([], cs) := rfl

theorem exists_unit_of_stringBody {a b c d : Char} {r : List (Option Char) × List Char}
    (read : stringBody ('\\' :: 'u' :: a :: b :: c :: d :: cs) = some r) : ∃ code, unit? a b c d = some code := by
  cases unit : unit? a b c d with
  | some code => exact ⟨code, rfl⟩
  | none =>
    by_cases again : ∃ e f g h cs', cs = '\\' :: 'u' :: e :: f :: g :: h :: cs'
    · obtain ⟨e, f, g, h, cs', rfl⟩ := again
      simp only [stringBody, unit] at read
      cases read
    · rw [stringBody, unit] at read
      · cases read
      · intro e f g h cs' same
        exact again ⟨e, f, g, h, cs', same⟩

/-- A code unit that is no first half of a pair is a character, whatever follows. -/
theorem stringBody_unit {a b c d : Char} {code : Nat} (read : unit? a b c d = some code)
    (single : isHighSurrogate code = false) (behind : stringBody cs = some (body, rest)) :
    stringBody ('\\' :: 'u' :: a :: b :: c :: d :: cs) = some (unitChar? code :: body, rest) := by
  -- The reader looks for a second half in a code unit behind this one, whose digits it then asks for.
  by_cases again : ∃ e f g h cs', cs = '\\' :: 'u' :: e :: f :: g :: h :: cs'
  · obtain ⟨e, f, g, h, cs', rfl⟩ := again
    obtain ⟨low, second⟩ := exists_unit_of_stringBody behind
    rw [stringBody]
    simp only [read, second, single, Bool.false_and, Bool.false_eq_true, if_false, behind, Option.map_some]
  · rw [stringBody]
    · simp only [read, behind, Option.map_some]
    · intro e f g h cs' same
      exact again ⟨e, f, g, h, cs', same⟩

theorem stringBody_escape {c x : Char} (known : escapes.lookup c = some x)
    (behind : stringBody cs = some (body, rest)) : stringBody ('\\' :: c :: cs) = some (some x :: body, rest) := by
  have other : c ≠ 'u' := by
    rintro rfl
    have unknown : escapes.lookup 'u' = none := by decide
    rw [unknown] at known
    cases known
  rw [stringBody]
  · simp only [known, behind, Option.map_some]
  · exact fun _ _ _ _ _ _ _ _ _ same => absurd same other
  · exact fun _ _ _ _ _ same => absurd same other

theorem unit?_unitDigits {n : Nat} (small : n < 0x20) :
    unit? (Text.lowerHexDigit (n / 4096 % 16)) (Text.lowerHexDigit (n / 256 % 16)) (Text.lowerHexDigit (n / 16 % 16))
      (Text.lowerHexDigit (n % 16)) = some n := by
  revert n
  decide

/-- A character is read from what it is escaped to. -/
theorem stringBody_escapeChar (c : Char) (behind : stringBody cs = some (body, rest)) :
    stringBody (escapeChar c ++ cs) = some (some c :: body, rest) := by
  have named {n : Nat} (code : c.toNat = n) : Char.ofNat n = c := by rw [← code, Char.ofNat_toNat]
  unfold escapeChar
  split_ifs with quote backslash newline carriage tab backspace feed control
  · subst quote
    exact stringBody_escape (by decide) behind
  · subst backslash
    exact stringBody_escape (by decide) behind
  · subst newline
    exact stringBody_escape (by decide) behind
  · subst carriage
    exact stringBody_escape (by decide) behind
  · subst tab
    exact stringBody_escape (by decide) behind
  · rw [← named backspace]
    exact stringBody_escape (by decide) behind
  · rw [← named feed]
    exact stringBody_escape (by decide) behind
  · have first : isHighSurrogate c.toNat = false := by
      rw [isHighSurrogate, Bool.and_eq_false_iff]
      exact Or.inl (decide_eq_false (by omega))
    have second : isLowSurrogate c.toNat = false := by
      rw [isLowSurrogate, Bool.and_eq_false_iff]
      exact Or.inl (decide_eq_false (by omega))
    have whole : unitChar? c.toNat = some c := by
      rw [unitChar?, first, second, Bool.or_false, if_neg Bool.false_ne_true, Char.ofNat_toNat]
    rw [← whole]
    exact stringBody_unit (unit?_unitDigits control) first behind
  · rw [List.singleton_append, stringBody]
    · rw [if_neg control, behind, Option.map_some]
    · exact quote
    · exact fun _ _ _ _ _ _ _ _ _ same => absurd same backslash
    · exact fun _ _ _ _ _ same => absurd same backslash
    · exact fun _ _ same => absurd same backslash

theorem stringBody_escaped (cs rest : List Char) :
    stringBody (cs.flatMap escapeChar ++ '"' :: rest) = some (cs.map some, rest) := by
  induction cs with
  | nil => rw [List.flatMap_nil, List.nil_append, stringBody_quote, List.map_nil]
  | cons c cs ih =>
    rw [List.flatMap_cons, List.append_assoc, List.map_cons]
    exact stringBody_escapeChar c ih

theorem stringToken?_escaped (s : String) (rest : List Char) :
    stringToken? (s.toList.flatMap escapeChar ++ '"' :: rest) = some (string s, rest) := by
  have whole (cs : List Char) : (cs.map some).mapM id = some cs := by
    induction cs with
    | nil => rfl
    | cons c cs ih => simp [ih]
  rw [stringToken?, stringBody_escaped, Option.map_some]
  simp only [whole, String.ofList_toList]

end Strings

/-- Whether a text goes on with what may stand behind a value, if with anything. -/
def IsEnd (rest : List Char) : Prop := ∀ c ∈ rest.head?, c = ',' ∨ c = ']' ∨ c = '\x7d'

/-- Whether the numbers of a value are written so that they can be read. -/
inductive IsReadable : Json → Prop
  | null : IsReadable null
  | bool (b : Bool) : IsReadable (bool b)
  | number {c : Char} {cs : List Char} (starts : c = '-' ∨ c.isDigit = true)
      (reads : ∀ rest, IsEnd rest → ∃ l, literal? (c :: cs ++ rest) = some (l, rest)) : IsReadable (number (c :: cs))
  | string (s : String) : IsReadable (string s)
  | array {items : List Json} (each : ∀ j ∈ items, IsReadable j) : IsReadable (array items)
  | object {members : List (String × Json)} (each : ∀ m ∈ members, IsReadable m.2) : IsReadable (object members)

/-- Whether a value is read from its text, whatever may follow. -/
def Reads (j : Json) : Prop :=
  ∀ fuel rest, j.chars.length ≤ fuel → IsEnd rest → value? (fuel + 1) (j.chars ++ rest) = some (j, rest)

theorem skipSpaces_cons {c : Char} (cs : List Char) (printed : isSpace c = false) : skipSpaces (c :: cs) = c :: cs :=
  List.dropWhile_cons_of_neg (by rw [printed]; exact Bool.false_ne_true)

theorem ne_of_starts {c d : Char} (starts : c = '-' ∨ c.isDigit = true) (apart : ¬ (d = '-' ∨ d.isDigit = true)) :
    c ≠ d :=
  fun same => apart (same ▸ starts)

theorem isSpace_of_starts {c : Char} (starts : c = '-' ∨ c.isDigit = true) : isSpace c = false := by
  simp only [isSpace, Bool.or_eq_false_iff, beq_eq_false_iff_ne]
  exact ⟨⟨⟨ne_of_starts starts (by decide), ne_of_starts starts (by decide)⟩, ne_of_starts starts (by decide)⟩,
    ne_of_starts starts (by decide)⟩

theorem chars_number (literal : List Char) : (number literal).chars = literal := rfl

theorem chars_string (s : String) : (string s).chars = stringChars s := rfl

theorem chars_array (items : List Json) : (array items).chars = '[' :: (itemsChars items ++ [']']) := rfl

theorem chars_object (members : List (String × Json)) :
    (object members).chars = '\x7b' :: (membersChars members ++ ['\x7d']) := rfl

theorem itemsChars_singleton (j : Json) : itemsChars [j] = j.chars := rfl

theorem itemsChars_cons_cons (j k : Json) (ks : List Json) :
    itemsChars (j :: k :: ks) = j.chars ++ ',' :: itemsChars (k :: ks) := rfl

theorem membersChars_singleton (name : String) (j : Json) :
    membersChars [(name, j)] = stringChars name ++ ':' :: j.chars := rfl

theorem membersChars_cons_cons (name : String) (j : Json) (m : String × Json) (ms : List (String × Json)) :
    membersChars ((name, j) :: m :: ms) = stringChars name ++ ':' :: (j.chars ++ ',' :: membersChars (m :: ms)) := rfl

/-- A value begins with a character that neither is passed over nor ends an array. -/
theorem IsReadable.exists_chars {j : Json} (readable : j.IsReadable) :
    ∃ c cs, j.chars = c :: cs ∧ isSpace c = false ∧ c ≠ ']' := by
  cases readable with
  | null => exact ⟨_, _, rfl, by decide, by decide⟩
  | bool b => cases b <;> exact ⟨_, _, rfl, by decide, by decide⟩
  | number starts reads => exact ⟨_, _, rfl, isSpace_of_starts starts, ne_of_starts starts (by decide)⟩
  | string s => exact ⟨_, _, rfl, by decide, by decide⟩
  | array each => exact ⟨_, _, rfl, by decide, by decide⟩
  | object each => exact ⟨_, _, rfl, by decide, by decide⟩

theorem isEnd_cons {c : Char} (rest : List Char) (ends : c = ',' ∨ c = ']' ∨ c = '\x7d') : IsEnd (c :: rest) := by
  intro d member
  rw [List.head?_cons, Option.mem_some_iff] at member
  exact member ▸ ends

theorem items?_chars {items : List Json} (each : ∀ j ∈ items, j.Reads) (nonempty : items ≠ []) (fuel : Nat)
    (rest : List Char) (enough : (itemsChars items).length ≤ fuel) :
    items? (fuel + 2) (itemsChars items ++ ']' :: rest) = some (items, rest) := by
  induction items generalizing fuel with
  | nil => exact absurd rfl nonempty
  | cons j js ih =>
    rw [List.forall_mem_cons] at each
    cases js with
    | nil =>
      rw [itemsChars_singleton] at enough ⊢
      have first := each.1 fuel (']' :: rest) enough (isEnd_cons rest (by decide))
      rw [items?, first]
      simp only [skipSpaces_cons rest (show isSpace ']' = false by decide)]
    | cons k ks =>
      rw [itemsChars_cons_cons, List.length_append, List.length_cons] at enough
      obtain ⟨fuel, rfl⟩ : ∃ n, fuel = n + 1 := ⟨fuel - 1, by omega⟩
      have first := each.1 (fuel + 1) (',' :: (itemsChars (k :: ks) ++ ']' :: rest)) (by omega)
        (isEnd_cons _ (by decide))
      have others := ih each.2 (List.cons_ne_nil k ks) fuel (by omega)
      rw [itemsChars_cons_cons, List.append_assoc, List.cons_append, items?, first]
      simp only [skipSpaces_cons _ (show isSpace ',' = false by decide), others, Option.map_some]

/-- Members as they are read, with their names as values. -/
def named (members : List (String × Json)) : List (Json × Json) := members.map fun m => (string m.1, m.2)

theorem members?_chars {members : List (String × Json)} (each : ∀ m ∈ members, m.2.Reads) (nonempty : members ≠ [])
    (fuel : Nat) (rest : List Char) (enough : (membersChars members).length ≤ fuel) :
    members? (fuel + 2) (membersChars members ++ '\x7d' :: rest) = some (named members, rest) := by
  have opening (name : String) (behind : List Char) : stringChars name ++ behind =
      '"' :: (name.toList.flatMap escapeChar ++ '"' :: behind) := by
    rw [stringChars, List.cons_append, List.append_assoc, List.singleton_append]
  induction members generalizing fuel with
  | nil => exact absurd rfl nonempty
  | cons m ms ih =>
    obtain ⟨name, j⟩ := m
    rw [List.forall_mem_cons] at each
    have own : j.Reads := each.1
    cases ms with
    | nil =>
      rw [membersChars_singleton, List.length_append, List.length_cons] at enough
      have value := own fuel ('\x7d' :: rest) (by omega) (isEnd_cons rest (by decide))
      rw [membersChars_singleton, List.append_assoc, List.cons_append, opening, members?]
      simp only [skipSpaces_cons _ (show isSpace '"' = false by decide), stringToken?_escaped,
        skipSpaces_cons _ (show isSpace ':' = false by decide), value,
        skipSpaces_cons _ (show isSpace '\x7d' = false by decide), named, List.map_cons, List.map_nil]
    | cons m ms =>
      rw [membersChars_cons_cons, List.length_append, List.length_cons, List.length_append, List.length_cons] at enough
      obtain ⟨fuel, rfl⟩ : ∃ n, fuel = n + 1 := ⟨fuel - 1, by omega⟩
      have value := own (fuel + 1) (',' :: (membersChars (m :: ms) ++ '\x7d' :: rest)) (by omega)
        (isEnd_cons _ (by decide))
      have others := ih each.2 (List.cons_ne_nil m ms) fuel (by omega)
      rw [membersChars_cons_cons, List.append_assoc, List.cons_append, List.append_assoc, List.cons_append, opening,
        members?]
      simp only [skipSpaces_cons _ (show isSpace '"' = false by decide), stringToken?_escaped,
        skipSpaces_cons _ (show isSpace ':' = false by decide), value,
        skipSpaces_cons _ (show isSpace ',' = false by decide), others, Option.map_some, named, List.map_cons]

theorem objectOf_named (literal : List Char) (members : List (String × Json)) :
    objectOf literal (named members) = object members := by
  unfold objectOf
  extract_lets reading
  have whole : (named members).mapM reading = some members := by
    induction members with
    | nil => rfl
    | cons m ms ih =>
      rw [named] at ih
      rw [named, List.map_cons, List.mapM_cons, ih]
      rfl
  rw [whole]

theorem exists_itemsChars (j : Json) (js : List Json) : ∃ behind, itemsChars (j :: js) = j.chars ++ behind := by
  cases js with
  | nil => exact ⟨[], (List.append_nil _).symm⟩
  | cons k ks => exact ⟨_, itemsChars_cons_cons j k ks⟩

theorem exists_membersChars (m : String × Json) (ms : List (String × Json)) :
    ∃ behind, membersChars (m :: ms) = '"' :: behind := by
  obtain ⟨name, j⟩ := m
  cases ms with
  | nil => exact ⟨_, rfl⟩
  | cons k ks => exact ⟨_, rfl⟩

section Dispatch

variable {fuel : Nat} {c : Char}

theorem value?_of_starts (starts : c = '-' ∨ c.isDigit = true) (cs : List Char) :
    value? (fuel + 1) (c :: cs) = numberToken? (c :: cs) := by
  rw [value?]
  simp only [skipSpaces_cons _ (isSpace_of_starts starts)]
  split
  case h_7 => rfl
  all_goals exact absurd (List.cons.inj ‹_›).1 (ne_of_starts starts (by decide))

theorem value?_array (printed : isSpace c = false) (other : c ≠ ']') (cs : List Char) :
    value? (fuel + 1) ('[' :: c :: cs) = (items? fuel (c :: cs)).map fun p => (array p.1, p.2) := by
  rw [value?]
  simp only [skipSpaces_cons _ (show isSpace '[' = false by decide), skipSpaces_cons _ printed]
  split
  · rename_i same
    exact absurd (List.cons.inj same).1 other
  · rfl

theorem value?_object (cs : List Char) :
    value? (fuel + 1) ('\x7b' :: '"' :: cs) = (members? fuel ('"' :: cs)).map fun p =>
      (objectOf ('\x7b' :: consumed ('"' :: cs) p.2) p.1, p.2) := by
  rw [value?]
  simp only [skipSpaces_cons _ (show isSpace '\x7b' = false by decide),
    skipSpaces_cons _ (show isSpace '"' = false by decide)]
  split
  · rename_i same
    exact absurd (List.cons.inj same).1 (by decide)
  · rfl

end Dispatch

/-- A value is read back from its text if its numbers are, whatever may follow. -/
theorem IsReadable.reads {j : Json} (readable : j.IsReadable) : j.Reads := by
  induction readable with
  | null =>
    intro fuel rest enough ends
    rfl
  | bool b =>
    intro fuel rest enough ends
    cases b <;> rfl
  | @number c cs starts reads =>
    intro fuel rest enough ends
    obtain ⟨l, read⟩ := reads rest ends
    have whole : consumed (c :: cs ++ rest) rest = c :: cs := by
      rw [consumed, List.length_append, Nat.add_sub_cancel, List.take_left]
    rw [chars_number, List.cons_append, value?_of_starts starts, ← List.cons_append, numberToken?, read, Option.map_some,
      whole]
  | string s =>
    intro fuel rest enough ends
    rw [chars_string, stringChars, List.cons_append, List.append_assoc, List.singleton_append, value?]
    simp only [skipSpaces_cons _ (show isSpace '"' = false by decide), stringToken?_escaped]
  -- The brackets take two characters, so that what they enclose has enough of the budget left.
  | @array items each ih =>
    intro fuel rest enough ends
    cases items with
    | nil => rfl
    | cons first others =>
      rw [chars_array, List.length_cons, List.length_append, List.length_singleton] at enough
      obtain ⟨fuel, rfl⟩ : ∃ n, fuel = n + 2 := ⟨fuel - 2, by omega⟩
      have read := items?_chars ih (List.cons_ne_nil first others) fuel rest (by omega)
      obtain ⟨c, cs, starts, printed, other⟩ := (each first List.mem_cons_self).exists_chars
      obtain ⟨behind, text⟩ := exists_itemsChars first others
      rw [text, starts, List.cons_append, List.cons_append] at read
      rw [chars_array, List.cons_append, List.append_assoc, List.singleton_append, text, starts, List.cons_append,
        List.cons_append, value?_array printed other, read, Option.map_some]
  | @object members each ih =>
    intro fuel rest enough ends
    cases members with
    | nil => rfl
    | cons first others =>
      rw [chars_object, List.length_cons, List.length_append, List.length_singleton] at enough
      obtain ⟨fuel, rfl⟩ : ∃ n, fuel = n + 2 := ⟨fuel - 2, by omega⟩
      have read := members?_chars ih (List.cons_ne_nil first others) fuel rest (by omega)
      obtain ⟨behind, text⟩ := exists_membersChars first others
      rw [text, List.cons_append] at read
      rw [chars_object, List.cons_append, List.append_assoc, List.singleton_append, text, List.cons_append, value?_object,
        read, Option.map_some, objectOf_named]

theorem ofText?_text {j : Json} (readable : j.IsReadable) : ofText? j.text = some j := by
  have read := readable.reads j.chars.length [] (Nat.le_refl _) (by simp [IsEnd])
  rw [List.append_nil] at read
  rw [ofText?, text, String.toList_ofList]
  simp only [read]
  rfl

end ForestQuery.Json
