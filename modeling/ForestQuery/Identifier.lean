import ForestQuery.Error
/-!
Names that may be spliced into a statement. Main statement: a checked name holds word characters
only, so no quoting of it can be closed from inside.
-/

namespace ForestQuery.Identifier

def isLetter (c : Char) : Bool := ('a' ≤ c && c ≤ 'z') || ('A' ≤ c && c ≤ 'Z')

def isStart (c : Char) : Bool := isLetter c || c == '_'

def isPart (c : Char) : Bool := isStart c || ('0' ≤ c && c ≤ '9')

/-- The characters that may follow the first one, in number. -/
def maxRest : Nat := 62

/-- Whether the characters are a letter or an underscore and then at most 62 word characters. -/
def wellFormed : List Char → Bool
  | [] => false
  | c :: cs => isStart c && cs.all isPart && cs.length ≤ maxRest

def isIdentifier (name : String) : Bool := wellFormed name.toList

/-- Refuses a name that is no identifier. -/
def check (name : String) : Except Error Unit :=
  if isIdentifier name then .ok () else .error (.configuration (.invalidIdentifier name))

/-- A name with its letters in lower case. Identifiers have no letters outside ASCII. -/
def lower (name : String) : String := name.map Char.toLower

/-- Whether two names are the same to a store, which does not tell the cases of a letter apart. -/
def sameName (a b : String) : Bool := lower a == lower b

theorem check_eq_ok_iff {name : String} : check name = .ok () ↔ isIdentifier name = true := by
  simp [check]

theorem all_isPart_of_wellFormed {cs : List Char} (h : wellFormed cs = true) :
    ∀ c ∈ cs, isPart c = true := by
  cases cs with
  | nil => simp
  | cons c r =>
    simp only [wellFormed, Bool.and_eq_true, List.all_eq_true, decide_eq_true_eq] at h
    intro x hx
    rcases List.mem_cons.mp hx with rfl | tail
    · simp [isPart, h.1.1]
    · exact h.1.2 x tail

theorem length_of_wellFormed {cs : List Char} (h : wellFormed cs = true) :
    cs.length ≤ maxRest + 1 := by
  cases cs with
  | nil => simp
  | cons c r =>
    simp only [wellFormed, Bool.and_eq_true, decide_eq_true_eq] at h
    simpa using h.2

end ForestQuery.Identifier
