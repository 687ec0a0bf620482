import ForestQuery.Proofs.Text.Order
import ForestQuery.Text.Stored
/-!
Reading UTF-8 strictly. Main statements: what is read are the characters whose bytes these are, whatever pieces
the bytes came in; a text whose bytes begin with those of another one begins with that; and a text can be cut where
one of its bytes is one of ASCII.
-/

namespace ForestQuery.Text

variable {c : Char} {v n code : Nat} {b : UInt8} {bytes rest : List UInt8} {cs : List Char}

theorem toNat_byte (small : n < 256) : (UInt8.ofNat n).toNat = n := Nat.mod_eq_of_lt small

theorem utf8EncodeChar_two (value : c.toNat = v) (low : 0x80 ≤ v) (high : v < 0x800) :
    String.utf8EncodeChar c = [UInt8.ofNat (v / 64 + 192), UInt8.ofNat (v % 64 + 128)] := by
  change c.val.toNat = v at value
  rw [String.utf8EncodeChar, value, if_neg (by omega), if_pos (by omega), Nat.mod_eq_of_lt (by omega : v / 64 < 32)]

theorem utf8EncodeChar_three (value : c.toNat = v) (low : 0x800 ≤ v) (high : v < 0x10000) :
    String.utf8EncodeChar c
      = [UInt8.ofNat (v / 4096 + 224), UInt8.ofNat (v / 64 % 64 + 128), UInt8.ofNat (v % 64 + 128)] := by
  change c.val.toNat = v at value
  rw [String.utf8EncodeChar, value, if_neg (by omega), if_neg (by omega), if_pos (by omega),
    Nat.mod_eq_of_lt (by omega : v / 4096 < 16)]

theorem utf8EncodeChar_four (value : c.toNat = v) (low : 0x10000 ≤ v) (high : v < 0x110000) :
    String.utf8EncodeChar c = [UInt8.ofNat (v / 262144 + 240), UInt8.ofNat (v / 4096 % 64 + 128),
      UInt8.ofNat (v / 64 % 64 + 128), UInt8.ofNat (v % 64 + 128)] := by
  change c.val.toNat = v at value
  rw [String.utf8EncodeChar, value, if_neg (by omega), if_neg (by omega), if_neg (by omega),
    Nat.mod_eq_of_lt (by omega : v / 262144 < 8)]

theorem toNat_valid (c : Char) : c.toNat < 0xD800 ∨ 0xDFFF < c.toNat ∧ c.toNat < 0x110000 := c.valid

theorem toNat_ofNat (valid : n < 0xD800 ∨ 0xDFFF < n ∧ n < 0x110000) : (Char.ofNat n).toNat = n := by
  rw [Char.ofNat, dif_pos valid]
  rfl

theorem eq_ofNat {x : UInt8} (same : x.toNat = n) : UInt8.ofNat n = x := by
  rw [← same, UInt8.ofNat_toNat]

section Bytes

variable {x y z : UInt8}

/-- Two bytes, of which the second one continues the first, encode a character. -/
theorem encode_two (low : 0xC2 ≤ b.toNat) (high : b.toNat ≤ 0xDF) (inside : 0x80 ≤ x.toNat ∧ x.toNat ≤ 0xBF) :
    String.utf8EncodeChar (Char.ofNat ((b.toNat - 0xC0) * 64 + x.toNat % 64)) = [b, x] := by
  rw [utf8EncodeChar_two (toNat_ofNat (by omega)) (by omega) (by omega), eq_ofNat (x := b) (by omega),
    eq_ofNat (x := x) (by omega)]

theorem encode_three (first : b.toNat = code + 0xE0) (inside : 0x80 ≤ x.toNat ∧ x.toNat ≤ 0xBF)
    (inside' : 0x80 ≤ y.toNat ∧ y.toNat ≤ 0xBF) (value : n = (code * 64 + x.toNat % 64) * 64 + y.toNat % 64)
    (low : 0x800 ≤ n) (valid : n < 0xD800 ∨ 0xDFFF < n ∧ n < 0x10000) :
    String.utf8EncodeChar (Char.ofNat n) = [b, x, y] := by
  rw [utf8EncodeChar_three (toNat_ofNat (by omega)) (by omega) (by omega), eq_ofNat (x := b) (by omega),
    eq_ofNat (x := x) (by omega), eq_ofNat (x := y) (by omega)]

theorem encode_four (first : b.toNat = code + 0xF0) (inside : 0x80 ≤ x.toNat ∧ x.toNat ≤ 0xBF)
    (inside' : 0x80 ≤ y.toNat ∧ y.toNat ≤ 0xBF) (inside'' : 0x80 ≤ z.toNat ∧ z.toNat ≤ 0xBF)
    (value : n = ((code * 64 + x.toNat % 64) * 64 + y.toNat % 64) * 64 + z.toNat % 64)
    (low : 0x10000 ≤ n) (high : n < 0x110000) :
    String.utf8EncodeChar (Char.ofNat n) = [b, x, y, z] := by
  rw [utf8EncodeChar_four (toNat_ofNat (by omega)) (by omega) (by omega), eq_ofNat (x := b) (by omega),
    eq_ofNat (x := x) (by omega), eq_ofNat (x := y) (by omega), eq_ofNat (x := z) (by omega)]

end Bytes

theorem follow_cons {low high : Nat} {ranges : List (Nat × Nat)} :
    follow code ((low, high) :: ranges) bytes = (some n, rest) ↔
      ∃ b bs, bytes = b :: bs ∧ (low ≤ b.toNat ∧ b.toNat ≤ high) ∧
        follow (code * 64 + b.toNat % 64) ranges bs = (some n, rest) := by
  cases bytes with
  | nil => simp [follow]
  | cons b bs =>
    rw [follow]
    constructor
    · intro followed
      split at followed
      · exact ⟨b, bs, rfl, ‹_›, followed⟩
      · cases followed
    · rintro ⟨x, xs, same, inside, followed⟩
      cases same
      rw [if_pos inside, followed]

theorem follow_nil : follow code [] bytes = (some n, rest) ↔ code = n ∧ bytes = rest := by
  rw [follow, Prod.mk.injEq, Option.some.injEq]

/-- What a first byte takes with it: no byte, one, two or three. Of two and three the first one is in a range that
leaves out what has a shorter encoding and what is no character. -/
theorem lead?_cases {first : Nat} {ranges : List (Nat × Nat)} (lead : lead? first = some (code, ranges)) :
    (first < 0x80 ∧ code = first ∧ ranges = []) ∨
    ((0xC2 ≤ first ∧ first ≤ 0xDF) ∧ code = first - 0xC0 ∧ ranges = [(0x80, 0xBF)]) ∨
    (∃ low high, ranges = [(low, high), (0x80, 0xBF)] ∧ first = code + 0xE0 ∧ ∀ x, low ≤ x → x ≤ high →
      (0x80 ≤ x ∧ x ≤ 0xBF) ∧ 0x20 ≤ code * 64 + x % 64 ∧
        (code * 64 + x % 64 < 0x360 ∨ 0x37F < code * 64 + x % 64 ∧ code * 64 + x % 64 < 0x400)) ∨
    (∃ low high, ranges = [(low, high), (0x80, 0xBF), (0x80, 0xBF)] ∧ first = code + 0xF0 ∧ ∀ x, low ≤ x → x ≤ high →
      (0x80 ≤ x ∧ x ≤ 0xBF) ∧ 0x10 ≤ code * 64 + x % 64 ∧ code * 64 + x % 64 < 0x110) := by
  unfold lead? at lead
  simp only at lead
  split at lead
  · obtain ⟨rfl, rfl⟩ := Prod.mk.inj (Option.some.inj lead)
    exact Or.inl ⟨by omega, rfl, rfl⟩
  split at lead
  · obtain ⟨rfl, rfl⟩ := Prod.mk.inj (Option.some.inj lead)
    exact Or.inr (Or.inl ⟨by omega, rfl, rfl⟩)
  split at lead
  · obtain ⟨rfl, rfl⟩ := Prod.mk.inj (Option.some.inj lead)
    exact Or.inr (Or.inr (Or.inl ⟨_, _, rfl, by omega, by omega⟩))
  split at lead
  · obtain ⟨rfl, rfl⟩ := Prod.mk.inj (Option.some.inj lead)
    exact Or.inr (Or.inr (Or.inl ⟨_, _, rfl, by omega, by omega⟩))
  split at lead
  · obtain ⟨rfl, rfl⟩ := Prod.mk.inj (Option.some.inj lead)
    exact Or.inr (Or.inr (Or.inl ⟨_, _, rfl, by omega, by omega⟩))
  split at lead
  · obtain ⟨rfl, rfl⟩ := Prod.mk.inj (Option.some.inj lead)
    exact Or.inr (Or.inr (Or.inr ⟨_, _, rfl, by omega, by omega⟩))
  split at lead
  · obtain ⟨rfl, rfl⟩ := Prod.mk.inj (Option.some.inj lead)
    exact Or.inr (Or.inr (Or.inr ⟨_, _, rfl, by omega, by omega⟩))
  split at lead
  · obtain ⟨rfl, rfl⟩ := Prod.mk.inj (Option.some.inj lead)
    exact Or.inr (Or.inr (Or.inr ⟨_, _, rfl, by omega, by omega⟩))
  · cases lead

/-- The bytes that a first byte takes with it are those of the character that they encode. -/
theorem eq_encode_of_follow {ranges : List (Nat × Nat)} (first : lead? b.toNat = some (code, ranges))
    (others : follow code ranges bytes = (some n, rest)) :
    b :: bytes = String.utf8EncodeChar (Char.ofNat n) ++ rest := by
  rcases lead?_cases first with ⟨ascii, rfl, rfl⟩ | ⟨⟨low, high⟩, lead, rfl⟩ | ⟨low, high, rfl, lead, bounds⟩ |
    ⟨low, high, rfl, lead, bounds⟩
  · obtain ⟨rfl, rfl⟩ := follow_nil.1 others
    have value := toNat_ofNat (n := b.toNat) (by omega)
    rw [utf8EncodeChar_of_lt (by omega)]
    change (Char.ofNat b.toNat).val.toNat = b.toNat at value
    exact congrArg (· :: bytes) (UInt8.toNat_inj.mp (show b.toNat = (Char.ofNat b.toNat).val.toNat % 256 by omega))
  · obtain ⟨x, _, rfl, inside, others⟩ := follow_cons.1 others
    obtain ⟨rfl, rfl⟩ := follow_nil.1 others
    rw [lead, encode_two low high inside]
    rfl
  · obtain ⟨x, _, rfl, inside, others⟩ := follow_cons.1 others
    obtain ⟨y, _, rfl, inside', others⟩ := follow_cons.1 others
    obtain ⟨value, rfl⟩ := follow_nil.1 others
    obtain ⟨inside, large, valid⟩ := bounds x.toNat inside.1 inside.2
    rw [encode_three lead inside inside' value.symm (by omega) (by omega)]
    rfl
  · obtain ⟨x, _, rfl, inside, others⟩ := follow_cons.1 others
    obtain ⟨y, _, rfl, inside', others⟩ := follow_cons.1 others
    obtain ⟨z, _, rfl, inside'', others⟩ := follow_cons.1 others
    obtain ⟨value, rfl⟩ := follow_nil.1 others
    obtain ⟨inside, large, small⟩ := bounds x.toNat inside.1 inside.2
    rw [encode_four lead inside inside' inside'' value.symm (by omega) (by omega)]
    rfl

/-- What is read strictly are the characters whose bytes these are. -/
theorem utf8_of_ofUtf8? (read : ofUtf8? bytes = some cs) : utf8 cs = bytes := by
  rw [ofUtf8?] at read
  induction bytes using decodeUtf8.induct generalizing cs with
  | case1 =>
    rw [decodeUtf8] at read
    cases read
    rfl
  | case2 b bytes lead _ =>
    rw [decodeUtf8, lead] at read
    cases read
  | case3 b bytes code ranges lead ih =>
    rw [decodeUtf8, lead] at read
    simp only [List.mapM_cons, id_eq, Option.bind_eq_bind, Option.pure_def, Option.bind_eq_some_iff,
      Option.map_eq_some_iff, Option.some.injEq] at read
    obtain ⟨c, ⟨n, value, rfl⟩, others, rest, rfl⟩ := read
    have followed : follow code ranges bytes = (some n, (follow code ranges bytes).2) := Prod.ext value rfl
    rw [eq_encode_of_follow lead followed, ← ih rest]
    rfl

/-- How many bytes the encoding of a character has that begins with a byte. -/
def byteCount (b : UInt8) : Nat :=
  if b.toNat < 0x80 then 1 else if b.toNat < 0xE0 then 2 else if b.toNat < 0xF0 then 3 else 4

/-- Whether a byte begins a character. -/
def isStart (b : UInt8) : Bool := !StoredChar.isContinuation b

theorem isStart_iff : isStart b = true ↔ b.toNat < 0x80 ∨ 0xC0 ≤ b.toNat := by
  have bound := b.toNat_lt
  rw [isStart, StoredChar.isContinuation, Bool.not_eq_true', beq_eq_false_iff_ne]
  omega

theorem isStart_continuation (n : Nat) : isStart (UInt8.ofNat (n % 64 + 128)) = false := by
  rw [Bool.eq_false_iff, ne_eq, isStart_iff, toNat_byte (by omega)]
  omega

/-- The encoding of a character: a byte that begins it and tells how many others there are, and bytes that do not. -/
theorem exists_lead (c : Char) : ∃ b others, String.utf8EncodeChar c = b :: others ∧ isStart b = true ∧
    (∀ x ∈ others, isStart x = false) ∧ others.length + 1 = byteCount b := by
  have valid := toNat_valid c
  have none : ∀ x ∈ ([] : List UInt8), isStart x = false := by simp
  have more : ∀ {rest : List UInt8} (n : Nat), (∀ x ∈ rest, isStart x = false) →
      ∀ x ∈ UInt8.ofNat (n % 64 + 128) :: rest, isStart x = false :=
    fun n others => List.forall_mem_cons.mpr ⟨isStart_continuation n, others⟩
  by_cases one : c.toNat < 0x80
  · refine ⟨c.val.toUInt8, [], utf8EncodeChar_of_lt one, ?_, none, ?_⟩
    all_goals have value : c.val.toUInt8.toNat = c.toNat := Nat.mod_eq_of_lt (show c.toNat < 256 by omega)
    · rw [isStart_iff, value]
      omega
    · rw [byteCount, value, if_pos one]
      rfl
  by_cases two : c.toNat < 0x800
  · refine ⟨_, _, utf8EncodeChar_two rfl (by omega) two, ?_, more _ none, ?_⟩
    · rw [isStart_iff, toNat_byte (by omega)]
      omega
    · rw [byteCount, toNat_byte (by omega), if_neg (by omega), if_pos (by omega)]
      rfl
  by_cases three : c.toNat < 0x10000
  · refine ⟨_, _, utf8EncodeChar_three rfl (by omega) three, ?_, more _ (more _ none), ?_⟩
    · rw [isStart_iff, toNat_byte (by omega)]
      omega
    · rw [byteCount, toNat_byte (by omega), if_neg (by omega), if_neg (by omega), if_pos (by omega)]
      rfl
  · refine ⟨_, _, utf8EncodeChar_four rfl (by omega) (by omega), ?_, more _ (more _ (more _ none)), ?_⟩
    · rw [isStart_iff, toNat_byte (by omega)]
      omega
    · rw [byteCount, toNat_byte (by omega), if_neg (by omega), if_neg (by omega), if_neg (by omega)]
      rfl

theorem utf8_cons (c : Char) (cs : List Char) : utf8 (c :: cs) = String.utf8EncodeChar c ++ utf8 cs := rfl

/-- The first character is known from the bytes, whatever stands behind it. -/
theorem eq_of_encode_append {d : Char} {x y : List UInt8}
    (same : String.utf8EncodeChar c ++ x = String.utf8EncodeChar d ++ y) : c = d ∧ x = y := by
  obtain ⟨b, others, shape, -, -, count⟩ := exists_lead c
  obtain ⟨b', others', shape', -, -, count'⟩ := exists_lead d
  rw [shape, shape', List.cons_append, List.cons_append, List.cons.injEq] at same
  obtain ⟨rfl, same⟩ := same
  obtain ⟨rfl, rest⟩ := List.append_inj same (by omega)
  have chars : utf8 [c] = utf8 [d] := by rw [utf8_cons, utf8_cons, shape, shape']
  exact ⟨List.singleton_inj.mp (utf8_injective chars), rest⟩

theorem prefix_of_utf8 {ds : List Char} (beginning : utf8 cs <+: utf8 ds) : cs <+: ds := by
  induction cs generalizing ds with
  | nil => exact List.nil_prefix
  | cons c cs ih =>
    obtain ⟨rest, whole⟩ := beginning
    cases ds with
    | nil =>
      obtain ⟨b, others, shape, -⟩ := exists_lead c
      rw [utf8_cons, shape] at whole
      cases whole
    | cons d ds =>
      rw [utf8_cons, utf8_cons, List.append_assoc] at whole
      obtain ⟨rfl, others⟩ := eq_of_encode_append whole
      exact List.cons_prefix_cons.mpr ⟨rfl, ih ⟨rest, others⟩⟩

/-- How many characters begin in some bytes. -/
def starts (bytes : List UInt8) : Nat := bytes.countP isStart

theorem starts_append (x y : List UInt8) : starts (x ++ y) = starts x + starts y := List.countP_append

theorem starts_encode (c : Char) : starts (String.utf8EncodeChar c) = 1 := by
  obtain ⟨b, others, shape, first, rest, -⟩ := exists_lead c
  have none : starts others = 0 := List.countP_eq_zero.mpr fun x member => by rw [rest x member]; decide
  rw [shape, starts, List.countP_cons_of_pos first]
  exact congrArg (· + 1) none

theorem starts_utf8 (cs : List Char) : starts (utf8 cs) = cs.length := by
  induction cs with
  | nil => rfl
  | cons c cs ih => rw [utf8_cons, starts_append, starts_encode, ih, List.length_cons, Nat.add_comm]

/-- A text can be cut in front of a byte that begins a character. -/
theorem exists_cut {x y : List UInt8} (whole : utf8 cs = x ++ b :: y) (start : isStart b = true) :
    ∃ front later, cs = front ++ later ∧ utf8 front = x ∧ utf8 later = b :: y := by
  induction cs generalizing x with
  | nil => cases x <;> cases whole
  | cons c cs ih =>
    cases x with
    | nil => exact ⟨[], c :: cs, rfl, rfl, whole⟩
    | cons first x =>
      obtain ⟨lead, others, shape, -, rest, -⟩ := exists_lead c
      rw [utf8_cons, shape, List.cons_append, List.cons_append, List.cons.injEq] at whole
      obtain ⟨rfl, whole⟩ := whole
      rcases List.append_eq_append_iff.mp whole with ⟨z, rfl, behind⟩ | ⟨z, rfl, behind⟩
      · obtain ⟨front, later, rfl, bytes, bytes'⟩ := ih behind
        refine ⟨c :: front, later, rfl, ?_, bytes'⟩
        rw [utf8_cons, shape, bytes, List.cons_append]
      · cases z with
        | nil =>
          refine ⟨[c], cs, rfl, ?_, behind.symm⟩
          rw [utf8_cons, shape, List.append_nil]
          exact List.append_nil _
        | cons z zs =>
          have inside : isStart z = false := rest z (by simp)
          rw [List.cons_append, List.cons.injEq] at behind
          rw [← behind.1, start] at inside
          cases inside

/-- A text whose first byte is one of ASCII begins with this character. -/
theorem exists_cons_of_utf8 {y : List UInt8} (bytes : utf8 cs = b :: y) (ascii : b.toNat < 128) :
    ∃ r, cs = Char.ofNat b.toNat :: r ∧ utf8 r = y := by
  cases cs with
  | nil => cases bytes
  | cons c r =>
    obtain ⟨lead, others, shape, -, -, count⟩ := exists_lead c
    rw [utf8_cons, shape, List.cons_append, List.cons.injEq] at bytes
    obtain ⟨rfl, rest⟩ := bytes
    rw [byteCount, if_pos ascii] at count
    obtain rfl := List.eq_nil_of_length_eq_zero (Nat.succ.inj count)
    refine ⟨r, ?_, rest⟩
    have small : (Char.ofNat lead.toNat).toNat = lead.toNat := toNat_ofNat (by omega)
    have single : utf8 [c] = utf8 [Char.ofNat lead.toNat] := by
      rw [utf8_cons, utf8_cons, shape, utf8EncodeChar_of_lt (by omega)]
      refine congrArg (fun x : UInt8 => [x] ++ utf8 []) (UInt8.toNat_inj.mp ?_)
      change (Char.ofNat lead.toNat).val.toNat = lead.toNat at small
      exact (show lead.toNat = (Char.ofNat lead.toNat).val.toNat % 256 by omega)
    rw [List.singleton_inj.mp (utf8_injective single)]

end ForestQuery.Text

namespace ForestQuery.StoredText

/-- The characters of a stored text have its bytes. -/
theorem utf8_of_chars? {t : StoredText} {cs : List Char} (read : t.chars? = some cs) : Text.utf8 cs = t.toBytes := by
  rw [chars?] at read
  split at read
  · rename_i chars whole
    cases read
    induction t generalizing cs with
    | nil =>
      cases whole
      rfl
    | cons x t ih =>
      simp only [List.mapM_cons, Option.bind_eq_bind, Option.pure_def, Option.bind_eq_some_iff,
        Option.some.injEq] at whole
      obtain ⟨c, first, rest, others, rfl⟩ := whole
      cases x with
      | broken bytes => cases first
      | char d =>
        cases first
        rw [toBytes, List.flatMap_cons, Text.utf8_cons, ih others]
        rfl
  · exact Text.utf8_of_ofUtf8? read

end ForestQuery.StoredText
