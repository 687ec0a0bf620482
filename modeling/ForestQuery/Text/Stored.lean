import ForestQuery.Text.Digits
import ForestQuery.Text.Utf8
/-!
Texts as a store holds them: bytes that are meant to be UTF-8 and may be anything. A store counts a
first byte and all continuation bytes behind it as one character, whether or not they encode one.
Main statement: a text of proper characters is read back as it is.
-/

namespace ForestQuery

/-- What a store counts as one character. -/
inductive StoredChar where
  | char (c : Char)
  /-- Bytes that encode no character. -/
  | broken (bytes : List UInt8)
deriving DecidableEq

namespace StoredChar

def bytes : StoredChar → List UInt8
  | char c => String.utf8EncodeChar c
  | broken bs => bs

def char? : StoredChar → Option Char
  | char c => some c
  | broken _ => none

/-- Lower case for the letters of ASCII. -/
def toLower : StoredChar → StoredChar
  | char c => char c.toLower
  | broken bs => broken bs

/-- The character of bytes that a store counts as one. -/
def ofBytes (bs : List UInt8) : StoredChar :=
  match Text.ofUtf8? bs with
  | some [c] => char c
  | _ => broken bs

/-- Whether a byte continues a character. -/
def isContinuation (b : UInt8) : Bool := b.toNat / 64 == 2

/-- Whether the bytes behind a byte continue it. -/
def isLead (b : UInt8) : Bool := 0xC0 ≤ b.toNat

end StoredChar

/-- A text as a store holds it. -/
abbrev StoredText := List StoredChar

namespace StoredText

def ofChars (cs : List Char) : StoredText := cs.map .char

/-- The characters of bytes as a store counts them. -/
def ofBytes : List UInt8 → StoredText
  | [] => []
  | b :: bs =>
    if StoredChar.isLead b then
      .ofBytes (b :: bs.takeWhile StoredChar.isContinuation) ::
        ofBytes (bs.dropWhile StoredChar.isContinuation)
    else .ofBytes [b] :: ofBytes bs
termination_by bs => bs.length
decreasing_by
  · have := (List.dropWhile_sublist StoredChar.isContinuation (l := bs)).length_le
    simp only [List.length_cons]
    omega
  · simp

def toBytes (t : StoredText) : List UInt8 := t.flatMap StoredChar.bytes

/-- The characters of a text, if it is one. -/
def chars? (t : StoredText) : Option (List Char) :=
  match t.mapM StoredChar.char? with
  | some cs => some cs
  | none => Text.ofUtf8? t.toBytes

/-- The characters of a text, with replacements for what is none. -/
def lossyChars (t : StoredText) : List Char :=
  match t.mapM StoredChar.char? with
  | some cs => cs
  | none => Text.ofUtf8 t.toBytes

/-- The text in front of its first U+0000, where the text functions of a store end. -/
def beforeNul (t : StoredText) : StoredText := t.takeWhile (· != .char '\x00')

theorem mapM_char?_ofChars (cs : List Char) : (ofChars cs).mapM StoredChar.char? = some cs := by
  induction cs with
  | nil => rfl
  | cons c r ih =>
    simp only [ofChars] at ih
    simp [ofChars, StoredChar.char?, ih]

theorem chars?_ofChars (cs : List Char) : (ofChars cs).chars? = some cs := by
  simp [chars?, mapM_char?_ofChars]

theorem lossyChars_ofChars (cs : List Char) : (ofChars cs).lossyChars = cs := by
  simp [lossyChars, mapM_char?_ofChars]

theorem ofChars_append (a b : List Char) : ofChars (a ++ b) = ofChars a ++ ofChars b := by
  simp [ofChars]

theorem map_toLower_ofChars (cs : List Char) : (ofChars cs).map StoredChar.toLower = ofChars (cs.map Char.toLower) := by
  rw [ofChars, ofChars, List.map_map, List.map_map]
  rfl

theorem length_beforeNul_le (t : StoredText) : t.beforeNul.length ≤ t.length := (List.takeWhile_sublist _).length_le

theorem length_ofChars (cs : List Char) : (ofChars cs).length = cs.length := by
  simp [ofChars]

end StoredText

end ForestQuery
