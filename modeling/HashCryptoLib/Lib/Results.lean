import Mathlib.Tactic.Basic

/-!
Runs that end with a value or with an error, taken apart: a composed run has a value where its
parts have one.
-/

namespace Results

universe u v

variable {ε : Type u} {α β : Type v} {run : Except ε α} {b : β}

theorem map_eq_ok_iff {f : α → β} : run.map f = .ok b ↔ ∃ a, run = .ok a ∧ f a = b := by
  cases run with
  | error e =>
      constructor
      · rintro ⟨⟩
      · rintro ⟨_, ⟨⟩, _⟩
  | ok a =>
      constructor
      · exact fun h => ⟨a, rfl, Except.ok.inj h⟩
      · rintro ⟨_, ⟨⟩, rfl⟩
        rfl

theorem bind_eq_ok_iff {f : α → Except ε β} :
    run.bind f = .ok b ↔ ∃ a, run = .ok a ∧ f a = .ok b := by
  cases run with
  | error e =>
      constructor
      · rintro ⟨⟩
      · rintro ⟨_, ⟨⟩, _⟩
  | ok a =>
      constructor
      · exact fun h => ⟨a, rfl, h⟩
      · rintro ⟨_, ⟨⟩, h⟩
        exact h

/-- The same for a step of a `do` block. -/
theorem do_eq_ok_iff {f : α → Except ε β} :
    (run >>= f) = .ok b ↔ ∃ a, run = .ok a ∧ f a = .ok b :=
  bind_eq_ok_iff

end Results
