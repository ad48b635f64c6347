import Mathlib.Data.List.Forall2

/-!
A stream of records: one is read off the front after another, until nothing is
left. What a reader finds in a stream is a relation of its own, which readers
that go about it differently are compared by.
-/

namespace Records

variable {α ρ : Type*} {next : List α → Option (ρ × List α)} {xs : List α} {rs : List ρ}

/-- Reading with `next` takes the records `rs` off `xs` and leaves nothing. -/
inductive Reads (next : List α → Option (ρ × List α)) : List α → List ρ → Prop
  | nil : Reads next [] []
  | cons {xs rest : List α} {r : ρ} {rs : List ρ} (hleft : xs ≠ [])
      (hnext : next xs = some (r, rest)) (hrest : Reads next rest rs) : Reads next xs (r :: rs)

theorem reads_nil_iff : Reads next [] rs ↔ rs = [] := by
  constructor
  · intro h
    cases h with
    | nil => rfl
    | cons hleft => exact absurd rfl hleft
  · rintro rfl
    exact .nil

theorem reads_cons_iff (hleft : xs ≠ []) :
    Reads next xs rs ↔ ∃ r rest rs', next xs = some (r, rest) ∧ Reads next rest rs' ∧
      rs = r :: rs' := by
  constructor
  · intro h
    cases h with
    | nil => exact absurd rfl hleft
    | cons _ hnext hrest => exact ⟨_, _, _, hnext, hrest, rfl⟩
  · rintro ⟨r, rest, rs', hnext, hrest, rfl⟩
    exact .cons hleft hnext hrest

/-- A stream contains one sequence of records. -/
theorem Reads.unique {rs' : List ρ} (h : Reads next xs rs) (h' : Reads next xs rs') : rs = rs' := by
  induction h generalizing rs' with
  | nil => exact (reads_nil_iff.mp h').symm
  | cons hleft hnext _ ih =>
      obtain ⟨_, _, _, hnext', hrest', rfl⟩ := (reads_cons_iff hleft).mp h'
      obtain ⟨rfl, rfl⟩ := Prod.mk.inj (Option.some.inj (hnext.symm.trans hnext'))
      rw [ih hrest']

end Records
