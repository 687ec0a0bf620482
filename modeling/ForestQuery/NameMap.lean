import ForestQuery.Text.Digits
/-!
Maps from names, kept in the order of the names. Main statements: the last value put under a name is
the one found there, and other names are not disturbed.
-/

namespace ForestQuery

/-- Entries put in order of their names, a later entry taking the place of an earlier one. -/
def insertEntry {α : Type} (name : String) (x : α) : List (String × α) → List (String × α)
  | [] => [(name, x)]
  | (other, y) :: rest =>
    if name < other then (name, x) :: (other, y) :: rest
    else if name = other then (name, x) :: rest
    else (other, y) :: insertEntry name x rest

theorem mem_insertEntry {α : Type} {name : String} {x : α} {e : String × α}
    {entries : List (String × α)} (h : e ∈ insertEntry name x entries) :
    e = (name, x) ∨ e ∈ entries := by
  induction entries with
  | nil => simpa [insertEntry] using h
  | cons hd tl ih =>
    simp only [insertEntry] at h
    split at h
    · simpa using h
    · split at h <;> simp only [List.mem_cons] at h ⊢ <;> grind

theorem pairwise_insertEntry {α : Type} (name : String) (x : α) {entries : List (String × α)}
    (h : entries.Pairwise fun a b => a.1 < b.1) :
    (insertEntry name x entries).Pairwise fun a b => a.1 < b.1 := by
  induction entries with
  | nil => simp [insertEntry]
  | cons hd tl ih =>
    obtain ⟨above, rest⟩ := List.pairwise_cons.mp h
    simp only [insertEntry]
    split
    · rename_i lt
      refine List.pairwise_cons.mpr ⟨fun e he => ?_, h⟩
      rcases List.mem_cons.mp he with rfl | tail
      · exact lt
      · exact String.lt_trans lt (above e tail)
    · rename_i notLt
      split
      · rename_i eq
        exact List.pairwise_cons.mpr ⟨fun e he => eq ▸ above e he, rest⟩
      · rename_i ne
        refine List.pairwise_cons.mpr ⟨fun e he => ?_, ih rest⟩
        rcases mem_insertEntry he with rfl | tail
        · exact Decidable.byContradiction fun back => ne (String.le_antisymm (String.not_lt.mp back) (String.not_lt.mp notLt))
        · exact above e tail

/-- A map from names, in the order of the names. -/
structure NameMap (α : Type) where
  entries : List (String × α)
  sorted : entries.Pairwise fun a b => a.1 < b.1

namespace NameMap

variable {α : Type}

def empty : NameMap α := ⟨[], .nil⟩

instance : Inhabited (NameMap α) := ⟨empty⟩

def insert (m : NameMap α) (name : String) (x : α) : NameMap α :=
  ⟨insertEntry name x m.entries, pairwise_insertEntry name x m.sorted⟩

/-- The map of a list of entries; of two with one name the later counts. -/
def ofList (entries : List (String × α)) : NameMap α :=
  entries.foldl (fun m e => m.insert e.1 e.2) empty

def toList (m : NameMap α) : List (String × α) := m.entries

def isEmpty (m : NameMap α) : Bool := m.entries.isEmpty

def get? (m : NameMap α) (name : String) : Option α :=
  (m.entries.find? fun e => e.1 == name).map Prod.snd

theorem ext_entries {m n : NameMap α} (h : m.entries = n.entries) : m = n := by
  cases m; cases n; simp_all

instance [DecidableEq α] : DecidableEq (NameMap α) := fun m n =>
  if h : m.entries = n.entries then isTrue (ext_entries h) else isFalse fun e => h (e ▸ rfl)

theorem get?_insert_self (m : NameMap α) (name : String) (x : α) :
    (m.insert name x).get? name = some x := by
  obtain ⟨entries, sorted⟩ := m
  show ((insertEntry name x entries).find? fun e => e.1 == name).map Prod.snd = some x
  clear sorted
  induction entries with
  | nil => simp [insertEntry]
  | cons hd tl ih =>
    simp only [insertEntry]
    split
    · simp
    · split
      · simp
      · rename_i ne
        simp [Ne.symm ne, ih]

theorem get?_insert_of_ne (m : NameMap α) {name other : String} (x : α) (h : name ≠ other) :
    (m.insert name x).get? other = m.get? other := by
  obtain ⟨entries, sorted⟩ := m
  show ((insertEntry name x entries).find? fun e => e.1 == other).map Prod.snd
    = (entries.find? fun e => e.1 == other).map Prod.snd
  clear sorted
  induction entries with
  | nil => simp [insertEntry, h]
  | cons hd tl ih =>
    simp only [insertEntry]
    split
    · simp [h]
    · split
      · rename_i eq
        simp [h, ← eq]
      · by_cases hk : hd.1 = other <;> simp [hk, ih]

end NameMap

end ForestQuery
