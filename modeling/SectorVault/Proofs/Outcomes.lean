import Mathlib

/-!
# Outcomes passed on

A layer that hands on what the layer below came to changes only one side of it: the result or the
failure.  So each side of the new outcome comes from the same side of the old one.  And steps that run
one after another come to a result only if each of them does, and otherwise to the failure of the first
that does not.  The same goes for one step that is taken for every item of a list.
-/

namespace SectorVault

variable {α β ε ε' : Type} {outcome : Except ε α}

theorem map_eq_ok {f : α → β} {b : β} :
    outcome.map f = .ok b ↔ ∃ a, outcome = .ok a ∧ f a = b := by
  cases outcome <;> simp [Except.map]

theorem map_eq_error {f : α → β} {error : ε} : outcome.map f = .error error ↔ outcome = .error error := by
  cases outcome <;> simp [Except.map]

theorem mapError_eq_ok {f : ε → ε'} {a : α} : outcome.mapError f = .ok a ↔ outcome = .ok a := by
  cases outcome <;> simp [Except.mapError]

theorem bind_eq_ok {next : α → Except ε β} {b : β} :
    outcome.bind next = .ok b ↔ ∃ a, outcome = .ok a ∧ next a = .ok b := by
  cases outcome <;> simp [Except.bind]

theorem mapError_eq_error {f : ε → ε'} {error : ε'} :
    outcome.mapError f = .error error ↔ ∃ cause, outcome = .error cause ∧ f cause = error := by
  cases outcome <;> simp [Except.mapError]

theorem bind_eq_error {next : α → Except ε β} {error : ε} :
    outcome.bind next = .error error ↔
      outcome = .error error ∨ ∃ a, outcome = .ok a ∧ next a = .error error := by
  cases outcome <;> simp [Except.bind]

/-! ## A step for every item -/

variable {step : α → Except ε β} {items : List α}

/-- A step that is taken for every item comes to a list of results if it comes to one for each. -/
theorem mapM_eq_ok_iff {results : List β} :
    items.mapM step = .ok results ↔
      List.Forall₂ (fun item result => step item = .ok result) items results := by
  induction items generalizing results with
  | nil => cases results <;> simp [pure, Except.pure]
  | cons item items ih =>
    rw [List.mapM_cons]
    cases first : step item with
    | error error => cases results <;> simp [bind, Except.bind, first]
    | ok result =>
      cases others : items.mapM step with
      | error error => cases results <;> simp [bind, Except.bind, first, ← ih, others]
      | ok behind => cases results <;> simp [bind, Except.bind, pure, Except.pure, first, ← ih, others]

theorem mapM_cons_eq_error_iff {item : α} {error : ε} :
    (item :: items).mapM step = .error error ↔
      step item = .error error ∨
        (∃ result, step item = .ok result) ∧ items.mapM step = .error error := by
  rw [List.mapM_cons]
  cases step item <;> cases items.mapM step <;> simp [bind, Except.bind, pure, Except.pure]

/-- Otherwise it comes to the failure at the first item that has one. -/
theorem mapM_eq_error_iff {error : ε} :
    items.mapM step = .error error ↔
      ∃ before item behind, items = before ++ item :: behind ∧
        (∀ earlier ∈ before, ∃ result, step earlier = .ok result) ∧ step item = .error error := by
  induction items with
  | nil => simp [pure, Except.pure]
  | cons item items ih =>
    rw [mapM_cons_eq_error_iff, ih]
    constructor
    · rintro (fails | ⟨succeeds, before, found, behind, rfl, earlier, fails⟩)
      · exact ⟨[], item, items, rfl, by simp, fails⟩
      · exact ⟨item :: before, found, behind, rfl, List.forall_mem_cons.2 ⟨succeeds, earlier⟩, fails⟩
    · rintro ⟨before, found, behind, split, earlier, fails⟩
      cases before with
      | nil =>
        obtain ⟨rfl, -⟩ := List.cons.inj split
        exact .inl fails
      | cons head before =>
        obtain ⟨rfl, rfl⟩ := List.cons.inj split
        obtain ⟨succeeds, earlier⟩ := List.forall_mem_cons.1 earlier
        exact .inr ⟨succeeds, before, found, behind, rfl, earlier, fails⟩

end SectorVault
