import ForestQuery.Text.Digits
/-!
Universally unique identifiers: 32 hexadecimal digits, one canonical text, and the texts that are
read as one. Main statement: the canonical text reads back.
-/

namespace ForestQuery

/-- A universally unique identifier as its hexadecimal digits, the most significant first. -/
structure Uuid where
  digits : List Nat
  length_digits : digits.length = 32
  digit_lt : ∀ d ∈ digits, d < 16

namespace Uuid

theorem ext_digits {u v : Uuid} (h : u.digits = v.digits) : u = v := by
  cases u; cases v; simp_all

instance : DecidableEq Uuid := fun u v =>
  if h : u.digits = v.digits then isTrue (ext_digits h) else isFalse fun e => h (e ▸ rfl)

def ofDigits? (ds : List Nat) : Option Uuid :=
  if h : ds.length = 32 ∧ ∀ d ∈ ds, d < 16 then some ⟨ds, h.1, h.2⟩ else none

/-- Sixteen bytes are an identifier, two digits each. -/
def ofBytes? (bytes : List UInt8) : Option Uuid :=
  ofDigits? (bytes.flatMap fun b => [b.toNat / 16, b.toNat % 16])

/-- Groups of 8, 4, 4, 4 and 12 with a hyphen between them. -/
def hyphenate (cs : List Char) : List Char :=
  cs.take 8 ++ '-' :: ((cs.drop 8).take 4 ++ '-' :: ((cs.drop 12).take 4 ++
    '-' :: ((cs.drop 16).take 4 ++ '-' :: cs.drop 20)))

/-- The canonical text: lower-case digits with hyphens. -/
def chars (u : Uuid) : List Char := hyphenate (u.digits.map Text.lowerHexDigit)

def text (u : Uuid) : String := String.ofList u.chars

/-- The characters between the hyphens of a text of 36 characters. -/
def unhyphenate? (cs : List Char) : Option (List Char) :=
  if cs.length = 36 ∧ cs[8]? = some '-' ∧ cs[13]? = some '-' ∧ cs[18]? = some '-' ∧ cs[23]? = some '-' then
    some (cs.take 8 ++ (cs.drop 9).take 4 ++ (cs.drop 14).take 4 ++ (cs.drop 19).take 4 ++ cs.drop 24)
  else none

def ofHex? (cs : List Char) : Option Uuid := (cs.mapM Text.hexValue?).bind ofDigits?

def ofHyphenated? (cs : List Char) : Option Uuid := (unhyphenate? cs).bind ofHex?

/-- The scheme in front of an identifier that is written as a name. -/
def scheme : List Char := ['u', 'r', 'n', ':', 'u', 'u', 'i', 'd', ':']

/-- Reads an identifier: 32 digits; with hyphens; that between braces; or that behind the scheme.
Digits and scheme may be in either case. -/
def ofChars? (cs : List Char) : Option Uuid :=
  if cs.length = 32 then ofHex? cs
  else if cs.length = 36 then ofHyphenated? cs
  else if cs.length = 38 then
    if cs.head? = some '\x7b' ∧ cs.getLast? = some '\x7d' then ofHyphenated? (cs.tail.take 36) else none
  else if cs.length = 45 then
    if (cs.take 9).map Char.toLower = scheme then ofHyphenated? (cs.drop 9) else none
  else none

def ofText? (s : String) : Option Uuid := ofChars? s.toList

/-- The order of the digits, which is the order of the bytes and of the canonical texts. -/
def compareDigits : List Nat → List Nat → Ordering
  | [], [] => .eq
  | [], _ :: _ => .lt
  | _ :: _, [] => .gt
  | a :: r, b :: s => (compare a b).then (compareDigits r s)

theorem ofDigits?_digits (u : Uuid) : ofDigits? u.digits = some u := by
  simp only [ofDigits?, dif_pos (⟨u.length_digits, u.digit_lt⟩ : _ ∧ _)]

theorem hexValue?_lowerHexDigit {d : Nat} (h : d < 16) : Text.hexValue? (Text.lowerHexDigit d) = some d := by
  have all : ∀ x : Fin 16, Text.hexValue? (Text.lowerHexDigit x) = some x.val := by decide
  exact all ⟨d, h⟩

theorem mapM_hexValue?_lowerHexDigit {ds : List Nat} (h : ∀ d ∈ ds, d < 16) :
    (ds.map Text.lowerHexDigit).mapM Text.hexValue? = some ds := by
  induction ds with
  | nil => rfl
  | cons d r ih =>
    simp [List.mapM_cons, hexValue?_lowerHexDigit (h d (by simp)), ih fun x hx => h x (by simp [hx])]

theorem length_hyphenate {cs : List Char} (h : cs.length = 32) : (hyphenate cs).length = 36 := by
  simp [hyphenate, h]

theorem unhyphenate?_hyphenate {cs : List Char} (h : cs.length = 32) :
    unhyphenate? (hyphenate cs) = some cs := by
  match cs, h with
  | [a0, a1, a2, a3, a4, a5, a6, a7, b0, b1, b2, b3, c0, c1, c2, c3, d0, d1, d2, d3,
     e0, e1, e2, e3, e4, e5, e6, e7, e8, e9, e10, e11], _ => rfl

theorem length_chars (u : Uuid) : u.chars.length = 36 :=
  length_hyphenate (by simp [u.length_digits])

/-- The canonical text reads back. -/
theorem ofChars?_chars (u : Uuid) : ofChars? u.chars = some u := by
  have len := u.length_chars
  have back : unhyphenate? u.chars = some (u.digits.map Text.lowerHexDigit) :=
    unhyphenate?_hyphenate (by simp [u.length_digits])
  simp [ofChars?, len, ofHyphenated?, back, ofHex?, mapM_hexValue?_lowerHexDigit u.digit_lt,
    ofDigits?_digits]

end Uuid

end ForestQuery
