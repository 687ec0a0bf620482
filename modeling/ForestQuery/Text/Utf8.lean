import ForestQuery.Text.Digits
/-!
Reading bytes as UTF-8: strictly, or with one replacement character for each longest beginning of a
character in what is none.
-/

namespace ForestQuery.Text

/-- What stands for bytes that are no character. -/
def replacement : Char := '\ufffd'

/-- For a first byte: the bits that it gives to the code point, and the ranges that the bytes after it
must lie in. -/
def lead? (b : Nat) : Option (Nat × List (Nat × Nat)) :=
  let rest := (0x80, 0xBF)
  if b < 0x80 then some (b, [])
  else if 0xC2 ≤ b ∧ b ≤ 0xDF then some (b - 0xC0, [rest])
  else if b = 0xE0 then some (0, [(0xA0, 0xBF), rest])
  else if b = 0xED then some (0xD, [(0x80, 0x9F), rest])
  else if 0xE1 ≤ b ∧ b ≤ 0xEF then some (b - 0xE0, [rest, rest])
  else if b = 0xF0 then some (0, [(0x90, 0xBF), rest, rest])
  else if 0xF1 ≤ b ∧ b ≤ 0xF3 then some (b - 0xF0, [rest, rest, rest])
  else if b = 0xF4 then some (4, [(0x80, 0x8F), rest, rest])
  else none

/-- Follows the ranges as far as the bytes lie in them: the code point, if all did, and what is left. -/
def follow (code : Nat) : List (Nat × Nat) → List UInt8 → Option Nat × List UInt8
  | [], bytes => (some code, bytes)
  | _ :: _, [] => (none, [])
  | (low, high) :: ranges, b :: bytes =>
    if low ≤ b.toNat ∧ b.toNat ≤ high then follow (code * 64 + b.toNat % 64) ranges bytes
    else (none, b :: bytes)

theorem length_follow_le (code : Nat) (ranges : List (Nat × Nat)) (bytes : List UInt8) :
    (follow code ranges bytes).2.length ≤ bytes.length := by
  induction ranges generalizing code bytes with
  | nil => simp [follow]
  | cons r rs ih =>
    cases bytes with
    | nil => simp [follow]
    | cons b bs =>
      simp only [follow]
      split
      · exact Nat.le_trans (ih _ _) (by simp)
      · simp

/-- What the bytes encode, character by character; a longest beginning of a character, and a byte that
begins none, are no character. -/
def decodeUtf8 : List UInt8 → List (Option Char)
  | [] => []
  | b :: bytes =>
    match lead? b.toNat with
    | none => none :: decodeUtf8 bytes
    | some (code, ranges) =>
      (follow code ranges bytes).1.map Char.ofNat :: decodeUtf8 (follow code ranges bytes).2
termination_by bytes => bytes.length
decreasing_by
  · simp
  · have := length_follow_le code ranges bytes
    simp only [List.length_cons]
    omega

/-- The characters that the bytes encode, if they encode nothing else. -/
def ofUtf8? (bytes : List UInt8) : Option (List Char) := (decodeUtf8 bytes).mapM id

/-- The characters that the bytes encode, and replacements for what is none. -/
def ofUtf8 (bytes : List UInt8) : List Char := (decodeUtf8 bytes).map fun c => c.getD replacement

end ForestQuery.Text
