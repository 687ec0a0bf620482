import ForestQuery.Text.Blank
/-!
Finding and splitting texts. Main statement: what stands before and behind the first separator, and
the separator, are the whole text.
-/

namespace ForestQuery.Text

/-- The text behind a given beginning. -/
def afterBeginning? (beginning cs : List Char) : Option (List Char) :=
  if beginning.isPrefixOf cs then some (cs.drop beginning.length) else none

/-- The text behind the first place where `part` stands. -/
def afterFirst? (part : List Char) : List Char → Option (List Char)
  | [] => afterBeginning? part []
  | c :: cs =>
    match afterBeginning? part (c :: cs) with
    | some rest => some rest
    | none => afterFirst? part cs

def contains (part cs : List Char) : Bool := (afterFirst? part cs).isSome

/-- The texts before and behind the first separator. -/
def splitFirst? (separator : Char) : List Char → Option (List Char × List Char)
  | [] => none
  | c :: cs =>
    if c = separator then some ([], cs)
    else (splitFirst? separator cs).map fun p => (c :: p.1, p.2)

theorem eq_of_splitFirst? {separator : Char} {cs before behind : List Char}
    (h : splitFirst? separator cs = some (before, behind)) :
    cs = before ++ separator :: behind ∧ separator ∉ before := by
  induction cs generalizing before with
  | nil => simp [splitFirst?] at h
  | cons c r ih =>
    simp only [splitFirst?] at h
    split at h
    · rename_i eq
      cases h
      simp [eq]
    · rename_i ne
      obtain ⟨⟨b, e⟩, hp, eq⟩ := Option.map_eq_some_iff.mp h
      cases eq
      obtain ⟨whole, clean⟩ := ih hp
      exact ⟨by simp [whole], by simp [clean, Ne.symm ne]⟩

end ForestQuery.Text
