import ForestQuery.Proofs.Expr.Pieces
import ForestQuery.Proofs.Failure
import ForestQuery.Proofs.Segment.Grammar
import ForestQuery.Proofs.Segment.Key
import ForestQuery.Proofs.SiblingOrder
/-!
What a key column tells about identifiers, whatever it holds. Main statement: two rows with the same segment for their
keys, in either direction, have the same identifier.
-/

namespace ForestQuery

namespace NodeId

variable {type : FieldType} {v w : Value} {node : NodeId}

/-- No absent value and no real number stands for a node. -/
theorem ofValue_cases (read : ofValue type v = .ok node) :
    (∃ i, v = .integer i ∧ node = .int i) ∨ (∃ s, v = .text s) ∨ ∃ bytes, v = .blob bytes := by
  cases v with
  | null => cases type <;> cases read
  | integer i => cases type <;> cases read; exact Or.inl ⟨i, rfl, rfl⟩
  | real x => cases type <;> cases read
  | text s => exact Or.inr (Or.inl ⟨s, rfl⟩)
  | blob bytes => exact Or.inr (Or.inr ⟨bytes, rfl⟩)

theorem isNull_of_ofValue (read : ofValue type v = .ok node) : v.isNull = false := by
  rcases ofValue_cases read with ⟨i, rfl, -⟩ | ⟨s, rfl⟩ | ⟨bytes, rfl⟩ <;> rfl

/-- Of the values that stand for nodes, no two are equal for the store. -/
theorem eq_of_same {other : NodeId} (read : ofValue type v = .ok node) (read' : ofValue type w = .ok other)
    (equal : Value.same v w = true) : v = w := by
  rcases ofValue_cases read with ⟨i, rfl, -⟩ | other
  · rcases ofValue_cases read' with ⟨j, rfl, -⟩ | ⟨u, rfl⟩ | ⟨ys, rfl⟩
    · exact congrArg Value.integer (Value.same_integer_iff.mp equal)
    · cases (Value.same_iff.mp equal).1
    · cases (Value.same_iff.mp equal).1
  · exact Value.eq_of_same_bytes other equal

end NodeId

namespace Text

variable {cs : List Char} {i : Int64} {n : Nat}

theorem isBlank_of_isNumberBlank {c : Char} (blank : isNumberBlank c = true) : isBlank c = true := by
  rw [isNumberBlank, Bool.or_eq_true, decide_eq_true_eq, Bool.and_eq_true, decide_eq_true_eq, decide_eq_true_eq] at blank
  simp only [isBlank, inRanges, blankRanges, List.any_cons, Bool.or_eq_true, Bool.and_eq_true, decide_eq_true_eq]
  omega

theorem isDigit_of_natOfDigits? (read : natOfDigits? cs = some n) : ∀ c ∈ cs, c.isDigit = true := by
  intro c member
  rw [← zeroPadded_of_natOfDigits? read] at member
  rcases List.mem_append.mp member with zero | digit
  · rw [List.eq_of_mem_replicate zero]
    rfl
  · exact isDigit_of_mem_decimalDigits n c digit

theorem isDigit_of_isBlank {c : Char} (blank : isBlank c = true) : c.isDigit = false := by
  rw [Bool.eq_false_iff]
  intro digit
  obtain ⟨d, value⟩ := Option.isSome_iff_exists.mp (digitValue?_of_isDigit digit)
  rw [isBlank_of_digitValue? value] at blank
  cases blank

/-- Digits that stand behind a sign and in front of blanks. -/
theorem trimChars_signed (cs body : List Char) (signed : cs.dropWhile isNumberBlank = '-' :: body) :
    ∃ digits blanks, body = digits ++ blanks ∧ (∀ c ∈ blanks, isBlank c = true) ∧ trimChars cs = '-' :: digits := by
  have front : cs.dropWhile isBlank = '-' :: body := by
    rw [← List.takeWhile_append_dropWhile (p := isNumberBlank) (l := cs), List.dropWhile_append_of_pos, signed]
    · rfl
    · exact fun c member => isBlank_of_isNumberBlank (List.all_eq_true.mp List.all_takeWhile c member)
  refine ⟨(body.reverse.dropWhile isBlank).reverse, (body.reverse.takeWhile isBlank).reverse, ?_, fun c member => ?_, ?_⟩
  · rw [← List.reverse_append, List.takeWhile_append_dropWhile, List.reverse_reverse]
  · exact List.all_eq_true.mp List.all_takeWhile c (List.mem_reverse.mp member)
  · rw [trimChars, front, List.reverse_cons, List.dropWhile_append]
    split
    · rename_i empty
      rw [List.isEmpty_iff.mp empty]
      rfl
    · rw [List.reverse_append]
      rfl

/-- A negative number at the start of a text that is read as an integer is this integer. -/
theorem leadingInt_of_signed64? (read : signed64? (trimChars cs) = some i) (negative : Scalar.leadingInt cs < 0) :
    Scalar.leadingInt cs = i.toInt := by
  obtain ⟨body, signed⟩ : ∃ body, cs.dropWhile isNumberBlank = '-' :: body := by
    rw [Scalar.leadingInt] at negative
    cases shape : cs.dropWhile isNumberBlank with
    | nil =>
      rw [shape] at negative
      exact absurd negative (by decide)
    | cons c body =>
      by_cases minus : c = '-'
      · exact ⟨body, by rw [minus]⟩
      · have unsigned : (splitSign (c :: body)).1 = false := by
          rw [splitSign.eq_def]
          split
          · rename_i same
            exact absurd (List.cons.inj same).1 minus
          · rfl
          · rfl
        rw [shape, unsigned, if_neg (by decide)] at negative
        omega
  obtain ⟨digits, blanks, rfl, blank, trimmed⟩ := trimChars_signed cs body signed
  rw [trimmed, signed64?] at read
  obtain ⟨n, number, made⟩ := Option.bind_eq_some_iff.mp read
  have none : blanks.takeWhile Char.isDigit = [] := by
    cases blanks with
    | nil => rfl
    | cons c blanks => rw [List.takeWhile_cons, isDigit_of_isBlank (blank c List.mem_cons_self)]; rfl
  rw [toInt_of_int64? made, Scalar.leadingInt, signed, splitSign, if_pos rfl,
    List.takeWhile_append_of_pos (isDigit_of_natOfDigits? number), none, List.append_nil, number]
  rfl

end Text

theorem Text.isAscii_of_toLower {cs : List Char} (ascii : Text.IsAscii (cs.map Char.toLower)) : Text.IsAscii cs := by
  intro c member
  have lower := ascii c.toLower (List.mem_map.mpr ⟨c, member, rfl⟩)
  by_contra large
  have other : c.toLower = c := by
    delta Char.toLower
    split
    · rename_i upper
      have bound := UInt32.le_iff_toNat_le.mp upper.2
      exact absurd (Nat.lt_of_le_of_lt bound (by decide)) large
    · rfl
  rw [other] at lower
  exact large lower

theorem StoredText.length_ofBytes_le (bytes : List UInt8) : (ofBytes bytes).length ≤ bytes.length := by
  induction bytes using ofBytes.induct with
  | case1 =>
    rw [ofBytes]
    exact Nat.le_refl 0
  | case2 b bytes lead ih =>
    have shorter := (List.dropWhile_sublist StoredChar.isContinuation (l := bytes)).length_le
    rw [ofBytes, if_pos lead, List.length_cons, List.length_cons]
    omega
  | case3 b bytes lone ih =>
    rw [ofBytes, if_neg lone, List.length_cons, List.length_cons]
    omega

namespace NodeId

/-- Whether the value of a column stands for an identifier, and is read back as this identifier where it was written
as a segment of a path. -/
structure IsWritten (type : FieldType) (env : Reference → Value) (r : Reference) (id : NodeId) : Prop where
  value : ofValue type (env r) = .ok id
  short : (env r).IsShort
  segment : ∃ expr t l v, Expr.segment? .sqlite (.reference r) (.ofFieldType 0 type) = some expr ∧
    expr.evalText .sqlite env = .ok t ∧ Text.utf8 l = t.toBytes ∧
    l.length = (SegmentKind.ofFieldType 0 type).width ∧ Segment.decode l (.ofFieldType 0 type) = .ok v ∧
    ofValue type v = .ok id

variable {type : FieldType} {env env' : Reference → Value} {r : Reference} {a b : NodeId} {expr : Expr}
  {t u : StoredText}

theorem clamp_toInt (i : Int64) : Scalar.clamp i.toInt = i := by
  have lower := i.le_toInt
  have upper := i.toInt_lt
  rw [Scalar.clamp, Segment.minValue_toInt, Segment.maxValue_toInt, if_neg (by omega), if_neg (by omega),
    Int64.ofInt_toInt]

theorem leadingInt_of_clamp {i : Int} (negative : (Scalar.clamp i).toInt < 0) : i < 0 := by
  by_contra positive
  rw [Scalar.clamp, Segment.minValue_toInt, Segment.maxValue_toInt, if_neg (by omega)] at negative
  split at negative
  · rw [Segment.maxValue_toInt] at negative
    omega
  · rw [Int64.toInt_ofInt_of_le (by omega) (by omega)] at negative
    omega

/-- Of a text the segment of an integer has the number that a store takes it for, if that is not negative. -/
theorem eval_integerSegment_text {s : String} (column : env r = .text s)
    (positive : ¬ (env r).scalar.asInteger.toInt < 0) :
    (Expr.integerSegment (.reference r)).eval .sqlite env
      = .ok (.ofChars (Segment.encodeInteger (env r).scalar.asInteger)) := by
  have subject : (Expr.reference r).eval .sqlite env = .ok (env r).scalar := by rw [Expr.eval]
  have natural : (env r).scalar.asInteger.toInt.natAbs = (env r).scalar.asInteger.toInt.toNat := by omega
  rw [Expr.integerSegment, Expr.eval_bySign subject, if_neg (by rw [column]; exact Bool.false_ne_true),
    if_neg (by rw [column]; exact Bool.false_ne_true), Expr.eval, subject, Segment.encodeInteger, if_pos (by omega),
    ← natural]
  simp only [bind, Except.bind, pure, Except.pure, Dialect.padIntegerOf, if_neg positive]

/-- An integer that is read back is the one that a store takes the value for. -/
theorem IsWritten.int_eq (written : IsWritten .integer env r a) : a = .int (env r).scalar.asInteger := by
  have value := written.value
  obtain ⟨expr, t, l, v, made, text, bytes, -, read, id⟩ := written.segment
  cases made
  rcases ofValue_cases value with ⟨i, column, rfl⟩ | ⟨s, column⟩ | ⟨raw, column⟩
  · rw [column]
    rfl
  · rw [column] at value
    simp only [ofValue] at value
    split at value
    · rename_i i signed
      obtain rfl := Except.ok.inj value
      have number : (env r).scalar.asInteger = Scalar.clamp (Scalar.leadingInt s.toList) := by
        rw [column, Value.scalar, Scalar.asInteger, StoredText.lossyChars_ofChars]
      by_cases sign : (env r).scalar.asInteger.toInt < 0
      -- A text with a minus sign in front holds nothing behind its number.
      · rw [number] at sign ⊢
        rw [Text.leadingInt_of_signed64? signed (leadingInt_of_clamp sign), clamp_toInt]
      · cases text.symm.trans (Expr.evalText_of_eval (eval_integerSegment_text column sign))
        rw [Scalar.asText?_ofChars, Option.getD_some, StoredText.toBytes_ofChars] at bytes
        rw [Text.utf8_injective bytes] at read
        cases read.symm.trans (Segment.decodeInteger_encodeInteger _)
        exact (Except.ok.inj id).symm
    · cases value
  · rw [column] at value
    cases value

theorem length_of_ofBytes? {bytes : List UInt8} {u : Uuid} (read : Uuid.ofBytes? bytes = some u) : bytes.length = 16 := by
  rw [Uuid.ofBytes?, Uuid.ofDigits?] at read
  split at read
  · rename_i digits
    have length := digits.1
    rw [List.length_flatMap] at length
    simp at length
    omega
  · cases read

/-- What is read back as a universally unique identifier is a text of 36 characters. -/
theorem IsWritten.exists_text (written : IsWritten .uuid env r a) :
    ∃ s, env r = .text s ∧ s.toList.length = SegmentKind.uuidWidth ∧ Text.IsAscii s.toList ∧
      s.toList.getLast? ≠ some '\x00' := by
  have value := written.value
  obtain ⟨expr, t, l, v, made, text, bytes, length, read, id⟩ := written.segment
  cases made
  have present := isNull_of_ofValue value
  rcases Expr.uuidSegment_text written.short text with ⟨absent, -⟩ | ⟨u, column, -, rfl, counted⟩
  · rw [present] at absent
    cases absent
  have atMost := StoredText.length_beforeNul_le (u.map StoredChar.toLower)
  rw [List.length_map] at atMost
  rcases ofValue_cases value with ⟨i, shape, -⟩ | ⟨s, shape⟩ | ⟨raw, shape⟩
  · rw [shape] at value
    cases value
  · rw [shape] at column
    cases column
    rw [StoredText.map_toLower_ofChars, StoredText.toBytes_ofChars] at bytes
    obtain rfl := Text.utf8_injective bytes
    rcases Segment.decodeUuid_cases read with ⟨-, rfl⟩ | ⟨x, found, -⟩
    · cases id
    refine ⟨s, shape, (List.length_map _).symm.trans length, Text.isAscii_of_toLower (Uuid.isAscii_of_ofChars? length found),
      fun last => ?_⟩
    exact (Uuid.isClean_of_ofChars? length found).nul (List.mem_map.mpr ⟨_, List.mem_of_getLast? last, rfl⟩)
  · rw [shape] at column value
    cases column
    simp only [ofValue] at value
    split at value
    · have sixteen := length_of_ofBytes? ‹_›
      have fewer := StoredText.length_ofBytes_le raw
      rw [SegmentKind.uuidWidth] at counted
      omega
    · cases value

/-- A segment that is made of the key: the key itself, or the key against its order. -/
def IsKeyPart (type : FieldType) (r : Reference) (p : Part) : Prop :=
  p = ⟨.reference r, .ofFieldType 0 type⟩ ∨ type = .integer ∧ p = ⟨.mirrored (.reference r), .integer⟩ ∨
    type = .uuid ∧ p = ⟨.reference r, .textKey SegmentKind.uuidWidth true⟩

/-- The number that a store takes an identifier for is mirrored within the integers. -/
theorem IsWritten.eval_mirrored (written : IsWritten .integer env r a) :
    (Expr.mirrored (.reference r)).eval .sqlite env
      = .ok (.integer (Int64.ofInt (-1 - (env r).scalar.asInteger.toInt))) := by
  have lower := (env r).scalar.asInteger.le_toInt
  have upper := (env r).scalar.asInteger.toInt_lt
  have range : Int64.minValue.toInt ≤ -1 - (env r).scalar.asInteger.toInt ∧
      -1 - (env r).scalar.asInteger.toInt ≤ Int64.maxValue.toInt := by
    rw [Segment.minValue_toInt, Segment.maxValue_toInt]
    omega
  have subtract : (env r).scalar.addTo (-1) true = .integer (Int64.ofInt (-1 - (env r).scalar.asInteger.toInt)) := by
    rcases ofValue_cases written.value with ⟨i, column, -⟩ | ⟨s, column⟩ | ⟨raw, column⟩ <;> rw [column] at range ⊢ <;>
      simp only [Value.scalar] at range ⊢ <;> simp only [Scalar.addTo, Text.int64?, if_true, if_pos range]
  rw [Expr.eval, Expr.eval]
  exact congrArg Except.ok subtract

theorem encodeInteger_injective {i j : Int64} (same : Segment.encodeInteger i = Segment.encodeInteger j) : i = j := by
  have read := Segment.decodeInteger_encodeInteger i
  rw [same, Segment.decodeInteger_encodeInteger] at read
  exact (Value.integer.inj (Except.ok.inj read)).symm

/-- Rows with the same segment for the mirrored key have the same identifier. -/
theorem eq_of_mirrored (written : IsWritten .integer env r a) (written' : IsWritten .integer env' r b)
    (text : (Expr.integerSegment (.mirrored (.reference r))).evalText .sqlite env = .ok t)
    (text' : (Expr.integerSegment (.mirrored (.reference r))).evalText .sqlite env' = .ok u)
    (same : t.toBytes = u.toBytes) : a = b := by
  cases text.symm.trans (Expr.evalText_of_eval (Expr.eval_integerSegment written.eval_mirrored))
  cases text'.symm.trans (Expr.evalText_of_eval (Expr.eval_integerSegment written'.eval_mirrored))
  simp only [Scalar.asText?_ofChars, Option.getD_some, StoredText.toBytes_ofChars] at same
  have mirrored := congrArg Int64.toInt (encodeInteger_injective (Text.utf8_injective same))
  rw [SortField.toInt_mirrored, SortField.toInt_mirrored] at mirrored
  have numbers : (env r).scalar.asInteger = (env' r).scalar.asInteger := Int64.toInt_inj.mp (by omega)
  rw [written.int_eq, written'.int_eq, numbers]

/-- What stands in a descending key of an identifier is the key of a text without a U+0000 at its end. -/
theorem IsWritten.exists_key (written : IsWritten .uuid env r a)
    (made : Expr.segment? .sqlite (.reference r) (.textKey SegmentKind.uuidWidth true) = some expr)
    (text : expr.evalText .sqlite env = .ok t) :
    ∃ s cs, env r = .text s ∧ s.toList.getLast? ≠ some '\x00' ∧
      Segment.encode (.text s) (.textKey SegmentKind.uuidWidth true) = .ok cs ∧ t = .ofChars cs := by
  obtain ⟨s, column, length, ascii, clean⟩ := written.exists_text
  obtain ⟨cs, encoded⟩ : ∃ cs, Segment.encode (.text s) (.textKey SegmentKind.uuidWidth true) = .ok cs :=
    Segment.exists_encode_text_iff.mpr (by rw [Text.length_utf8_of_isAscii ascii, length])
  have subject : (Expr.reference r).eval .sqlite env = .ok (Value.text s).scalar := by rw [Expr.eval, column]
  have key : expr.eval .sqlite env = .ok (.ofChars cs) :=
    Expr.eval_segment? subject made (Or.inr ⟨s, rfl⟩) trivial encoded
  exact ⟨s, cs, column, clean, encoded, Except.ok.inj (text.symm.trans (Expr.evalText_of_eval key))⟩

/-- Rows with the same descending key of their identifiers have the same one. -/
theorem eq_of_textKey (written : IsWritten .uuid env r a) (written' : IsWritten .uuid env' r b)
    (made : Expr.segment? .sqlite (.reference r) (.textKey SegmentKind.uuidWidth true) = some expr)
    (text : expr.evalText .sqlite env = .ok t) (text' : expr.evalText .sqlite env' = .ok u)
    (same : t.toBytes = u.toBytes) : a = b := by
  obtain ⟨s, cs, column, clean, encoded, rfl⟩ := written.exists_key made text
  obtain ⟨s', ds, column', clean', encoded', rfl⟩ := written'.exists_key made text'
  rw [StoredText.toBytes_ofChars, StoredText.toBytes_ofChars] at same
  obtain rfl := Text.utf8_injective same
  have texts : s = s' := by
    rcases Segment.compare_textKey encoded encoded' with ⟨agree, -⟩ | ⟨other, order⟩
    · exact String.toList_inj.mp (agree.eq clean clean')
    · have equal : Ord.compare (Text.codes cs) (Text.codes cs) = .eq := Std.ReflCmp.compare_self
      rw [equal] at order
      exact Text.compareText_eq_eq_iff.mp (Direction.apply_eq_eq_iff.mp order.symm)
  have values := written.value
  rw [column, texts, ← column', written'.value] at values
  exact (Except.ok.inj values).symm

/-- Rows with the same segment for their keys have the same identifier. -/
theorem eq_of_isKeyPart {p : Part} (written : IsWritten type env r a) (written' : IsWritten type env' r b)
    (key : IsKeyPart type r p) (made : Expr.segment? .sqlite p.expr p.kind = some expr)
    (text : expr.evalText .sqlite env = .ok t) (text' : expr.evalText .sqlite env' = .ok u)
    (same : t.toBytes = u.toBytes) : a = b := by
  rcases key with rfl | ⟨rfl, rfl⟩ | ⟨rfl, rfl⟩
  -- The segment is that of the path.
  · obtain ⟨e, t', l, v, path, pathText, bytes, -, read, id⟩ := written.segment
    obtain ⟨e', u', l', v', path', pathText', bytes', -, read', id'⟩ := written'.segment
    cases made.symm.trans path
    cases made.symm.trans path'
    cases text.symm.trans pathText
    cases text'.symm.trans pathText'
    obtain rfl := Text.utf8_injective (bytes.trans (same.trans bytes'.symm))
    cases read.symm.trans read'
    exact Except.ok.inj (id.symm.trans id')
  · cases made
    exact eq_of_mirrored written written' text text' same
  · exact eq_of_textKey written written' made text text' same

end NodeId

end ForestQuery
