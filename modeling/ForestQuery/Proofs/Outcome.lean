import Mathlib.Data.List.Forall2
/-!
Chains of steps that can fail: a chain has a result exactly when each of its steps has one.
-/

namespace ForestQuery.Outcome

variable {ε α β γ : Type}

theorem ok_bind {a : α} {f : α → Except ε β} : (.ok a : Except ε α) >>= f = f a := rfl

theorem throw_bind {e : ε} {f : α → Except ε β} : (throw e : Except ε α) >>= f = .error e := rfl

theorem bind_eq_ok_iff {x : Except ε α} {f : α → Except ε β} {y : β} :
    x >>= f = .ok y ↔ ∃ a, x = .ok a ∧ f a = .ok y := by
  cases x with
  | error e => simp [bind, Except.bind]
  | ok a => simp [bind, Except.bind]

theorem map_eq_ok_iff {x : Except ε α} {f : α → β} {y : β} :
    x.map f = .ok y ↔ ∃ a, x = .ok a ∧ f a = y := by
  cases x with
  | error e => simp [Except.map]
  | ok a => simp [Except.map]

theorem pure_eq_ok_iff {x y : α} : (pure x : Except ε α) = .ok y ↔ x = y := by
  simp [pure, Except.pure]

/-- Where a step has its result under a condition only, its failure refutes the condition. -/
theorem not_of_eq_error {x : Except ε α} {p : Prop} {a : α} {e : ε} (h : ∀ {y}, x = .ok y ↔ p ∧ a = y)
    (failed : x = .error e) : ¬ p := by
  intro holds
  have made : x = .ok a := h.mpr ⟨holds, rfl⟩
  rw [failed] at made
  cases made

theorem exists_of_toBool {x : Except ε α} (h : x.toBool = true) : ∃ y, x = .ok y := by
  cases x with
  | error e => cases h
  | ok y => exact ⟨y, rfl⟩

theorem exists_of_any {x : Except ε α} {p : α → Bool} (h : x.toOption.any p = true) :
    ∃ y, x = .ok y ∧ p y = true := by
  cases x with
  | error e => cases h
  | ok y => exact ⟨y, rfl, h⟩

/-- A check in front of a chain lets the chain go on where it holds. -/
theorem check_eq_ok_iff {p : Prop} [Decidable p] {e : ε} {k : γ → Except ε β} {x : Except ε β} {y : β} :
    (if p then (throw e : Except ε γ) >>= k else x) = .ok y ↔ ¬ p ∧ x = .ok y := by
  by_cases holds : p
  · simp [holds, throw, throwThe, MonadExceptOf.throw, bind, Except.bind]
  · simp [holds]

/-- Steps for the items of a list all have results exactly when the list of these is the result. -/
theorem mapM_eq_ok_iff {f : α → Except ε β} {xs : List α} {ys : List β} :
    xs.mapM f = .ok ys ↔ List.Forall₂ (fun x y => f x = .ok y) xs ys := by
  induction xs generalizing ys with
  | nil => cases ys <;> simp [pure, Except.pure]
  | cons x r ih =>
    simp only [List.mapM_cons, bind_eq_ok_iff, pure_eq_ok_iff, List.forall₂_cons_left_iff]
    constructor
    · rintro ⟨y, first, s, rest, rfl⟩
      exact ⟨y, s, first, ih.mp rest, rfl⟩
    · rintro ⟨y, s, first, rest, rfl⟩
      exact ⟨y, first, s, ih.mpr rest, rfl⟩

/-- The result of a step, or another value where it fails. -/
def getD (x : Except ε α) (other : α) : α := x.toOption.getD other

theorem eq_ok_iff_getD {x : Except ε α} {y other : α} : x = .ok y ↔ (∃ z, x = .ok z) ∧ y = getD x other := by
  cases x with
  | error e => simp
  | ok z => simp [getD, Except.toOption, eq_comm]

theorem mapM_eq_ok_iff_getD {f : α → Except ε β} {xs : List α} {ys : List β} {other : β} :
    xs.mapM f = .ok ys ↔ (∀ x ∈ xs, ∃ y, f x = .ok y) ∧ ys = xs.map fun x => getD (f x) other := by
  induction xs generalizing ys with
  | nil => cases ys <;> simp [pure, Except.pure]
  | cons x r ih =>
    simp only [List.mapM_cons, bind_eq_ok_iff, pure_eq_ok_iff, List.forall_mem_cons, List.map_cons]
    constructor
    · rintro ⟨y, first, s, rest, rfl⟩
      obtain ⟨others, rfl⟩ := ih.mp rest
      exact ⟨⟨⟨y, first⟩, others⟩, by rw [← (eq_ok_iff_getD.mp first).2]⟩
    · rintro ⟨⟨⟨y, first⟩, others⟩, rfl⟩
      exact ⟨y, first, _, ih.mpr ⟨others, rfl⟩, by rw [← (eq_ok_iff_getD.mp first).2]⟩

/-- Where each item is related to some result, the items are related to some list of results. -/
theorem exists_forall₂ {r : α → β → Prop} {xs : List α} (h : ∀ x ∈ xs, ∃ y, r x y) :
    ∃ ys, List.Forall₂ r xs ys := by
  induction xs with
  | nil => exact ⟨[], .nil⟩
  | cons x xs ih =>
    obtain ⟨y, first⟩ := h x (by simp)
    obtain ⟨ys, rest⟩ := ih fun z hz => h z (by simp [hz])
    exact ⟨y :: ys, .cons first rest⟩

/-- Steps that all have a result have a list of results. -/
theorem exists_mapM_eq_ok {f : α → Except ε β} {xs : List α} (h : ∀ x ∈ xs, ∃ y, f x = .ok y) :
    ∃ ys, xs.mapM f = .ok ys := by
  obtain ⟨ys, each⟩ := exists_forall₂ h
  exact ⟨ys, mapM_eq_ok_iff.mpr each⟩

/-- A step that fails for an item fails the list, whatever stands behind it. -/
theorem mapM_append_of_error {f : α → Except ε β} {xs ys : List α} {e : ε} (h : xs.mapM f = .error e) :
    (xs ++ ys).mapM f = .error e := by
  rw [List.mapM_append, h]
  rfl

/-- Where steps fail in one way only, and one of them does, the list fails in this way. -/
theorem mapM_eq_error {f : α → Except ε β} {xs : List α} {e : ε} (each : ∀ x ∈ xs, (∃ y, f x = .ok y) ∨ f x = .error e)
    (some : ∃ x ∈ xs, f x = .error e) : xs.mapM f = .error e := by
  induction xs with
  | nil =>
    obtain ⟨x, member, -⟩ := some
    cases member
  | cons x xs ih =>
    rw [List.mapM_cons]
    rcases each x (by simp) with ⟨y, first⟩ | first
    · have later : ∃ x ∈ xs, f x = .error e := by
        obtain ⟨z, member, failed⟩ := some
        rcases List.mem_cons.mp member with rfl | inRest
        · rw [first] at failed
          cases failed
        · exact ⟨z, inRest, failed⟩
      rw [first, ih (fun z member => each z (by simp [member])) later]
      rfl
    · rw [first]
      rfl

/-- Steps that agree item by item agree on the lists. -/
theorem mapM_congr {f : α → Except ε γ} {g : β → Except ε γ} {xs : List α} {ys : List β}
    (h : List.Forall₂ (fun x y => f x = g y) xs ys) : xs.mapM f = ys.mapM g := by
  induction h with
  | nil => rfl
  | cons first _ ih => rw [List.mapM_cons, List.mapM_cons, first, ih]

/-- Lists whose items agree one by one in what is made of them agree as lists. -/
theorem map_eq_map {f : α → γ} {g : β → γ} {xs : List α} {ys : List β}
    (h : List.Forall₂ (fun x y => f x = g y) xs ys) : xs.map f = ys.map g := by
  induction h with
  | nil => rfl
  | cons first _ ih => rw [List.map_cons, List.map_cons, first, ih]

theorem exists_of_mem_left {r : α → β → Prop} {xs : List α} {ys : List β} (h : List.Forall₂ r xs ys)
    {x : α} (member : x ∈ xs) : ∃ y ∈ ys, r x y := by
  induction h with
  | nil => cases member
  | cons first _ ih =>
    rcases List.mem_cons.mp member with rfl | later
    · exact ⟨_, List.mem_cons_self, first⟩
    · obtain ⟨y, inRest, related⟩ := ih later
      exact ⟨y, List.mem_cons_of_mem _ inRest, related⟩

theorem exists_of_mem_right {r : α → β → Prop} {xs : List α} {ys : List β} (h : List.Forall₂ r xs ys)
    {y : β} (member : y ∈ ys) : ∃ x ∈ xs, r x y := by
  induction h with
  | nil => cases member
  | cons first _ ih =>
    rcases List.mem_cons.mp member with rfl | later
    · exact ⟨_, List.mem_cons_self, first⟩
    · obtain ⟨x, inRest, related⟩ := ih later
      exact ⟨x, List.mem_cons_of_mem _ inRest, related⟩

section Agreement

variable {δ α' β' : Type} {p : ε → δ → Prop} {r : α → α' → Prop} {s : β → β' → Prop}

/-- Two steps agree when both have a result, and these are related, or both fail in related ways. -/
inductive Agree (p : ε → δ → Prop) (r : α → α' → Prop) : Except ε α → Except δ α' → Prop
  | error {e e'} : p e e' → Agree p r (.error e) (.error e')
  | ok {a a'} : r a a' → Agree p r (.ok a) (.ok a')

theorem Agree.cases {x : Except ε α} {y : Except δ α'} (agree : Agree p r x y) :
    (∃ e e', x = .error e ∧ y = .error e' ∧ p e e') ∨ ∃ a a', x = .ok a ∧ y = .ok a' ∧ r a a' := by
  cases agree with
  | error failures => exact Or.inl ⟨_, _, rfl, rfl, failures⟩
  | ok results => exact Or.inr ⟨_, _, rfl, rfl, results⟩

theorem Agree.bind {x : Except ε α} {y : Except ε α'} {f : α → Except ε β} {g : α' → Except ε β'}
    (first : Agree Eq r x y) (rest : ∀ {a a'}, r a a' → Agree Eq s (f a) (g a')) : Agree Eq s (x >>= f) (y >>= g) := by
  cases first with
  | error same => exact .error same
  | ok results => exact rest results

/-- After a step that both have in common only the rest has to agree. -/
theorem agree_bind_self {x : Except ε α} {f : α → Except ε β} {g : α → Except ε β'}
    (rest : ∀ a, Agree Eq s (f a) (g a)) : Agree Eq s (x >>= f) (x >>= g) := by
  cases x with
  | error e => exact .error rfl
  | ok a => exact rest a

theorem Agree.map {x : Except ε α} {y : Except δ α'} {f : α → β} {g : α' → β'} (first : Agree p r x y)
    (results : ∀ {a a'}, r a a' → s (f a) (g a')) : Agree p s (x.map f) (y.map g) := by
  cases first with
  | error failures => exact .error failures
  | ok same => exact .ok (results same)

end Agreement

section Failures

variable {p : ε → Prop} {x : Except ε α} {f : α → Except ε β}

/-- Every failure of a step has a property. -/
def Fails (p : ε → Prop) (x : Except ε α) : Prop := ∀ e, x = .error e → p e

theorem fails_ok {a : α} : Fails p (.ok a : Except ε α) := by
  intro e failed
  cases failed

theorem fails_error {e : ε} (holds : p e) : Fails p (.error e : Except ε α) := by
  rintro _ ⟨⟩
  exact holds

theorem fails_bind (first : Fails p x) (rest : ∀ a, Fails p (f a)) : Fails p (x >>= f) := by
  cases x with
  | error e => exact fails_error (first e rfl)
  | ok a => exact rest a

/-- The rest of a chain only has to be looked at for the result of the step in front. -/
theorem fails_bind_of_eq (first : Fails p x) (rest : ∀ a, x = .ok a → Fails p (f a)) : Fails p (x >>= f) := by
  cases x with
  | error e => exact fails_error (first e rfl)
  | ok a => exact rest a rfl

theorem fails_of_eq_ok {a : α} (made : x = .ok a) : Fails p x := by
  rw [made]
  exact fails_ok

theorem fails_map {g : α → β} (first : Fails p x) : Fails p (x.map g) := by
  cases x with
  | error e => exact fails_error (first e rfl)
  | ok a => exact fails_ok

/-- A check in front of a chain fails with its own failure, or the chain does. -/
theorem fails_check {c : Prop} [Decidable c] {e : ε} {k : γ → Except ε β} {y : Except ε β} (holds : p e)
    (rest : Fails p y) : Fails p (if c then (throw e : Except ε γ) >>= k else y) := by
  split
  · exact fails_error holds
  · exact rest

theorem fails_mapM {xs : List α} (each : ∀ x ∈ xs, Fails p (f x)) : Fails p (xs.mapM f) := by
  induction xs with
  | nil => exact fails_ok
  | cons x xs ih =>
    rw [List.mapM_cons]
    exact fails_bind (each x (by simp)) fun y => fails_bind (ih fun z hz => each z (by simp [hz])) fun ys => fails_ok

end Failures

end ForestQuery.Outcome
