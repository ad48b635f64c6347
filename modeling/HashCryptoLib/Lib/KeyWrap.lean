import Mathlib.Data.List.Basic

/-!
The key-wrap construction over an arbitrary permutation. A register runs over a
list of blocks in several passes; each step permutes the register and one block
under its own number, and the numbering goes on from pass to pass. Unwrapping
takes the steps back in reverse order, so that each of the two undoes the other.
-/

namespace KeyWrap

variable {A R : Type*} (step unstep : ℕ → A × R → A × R)

/-- One pass, its steps numbered from `t`. -/
def pass : ℕ → A → List R → A × List R
  | _, a, [] => (a, [])
  | t, a, r :: rs =>
    let s := step t (a, r)
    let p := pass (t + 1) s.1 rs
    (p.1, s.2 :: p.2)

/-- One pass backwards, from the last block to the first. -/
def unpass : ℕ → A → List R → A × List R
  | _, a, [] => (a, [])
  | t, a, r :: rs =>
    let p := unpass (t + 1) a rs
    let s := unstep t (p.1, r)
    (s.1, s.2 :: p.2)

def passes : ℕ → ℕ → A → List R → A × List R
  | 0, _, a, rs => (a, rs)
  | k + 1, t, a, rs =>
    let p := pass step t a rs
    passes k (t + rs.length) p.1 p.2

def unpasses : ℕ → ℕ → A → List R → A × List R
  | 0, _, a, rs => (a, rs)
  | k + 1, t, a, rs =>
    let p := unpasses k (t + rs.length) a rs
    unpass unstep t p.1 p.2

@[simp] theorem length_pass (t : ℕ) (a : A) (rs : List R) :
    (pass step t a rs).2.length = rs.length := by
  induction rs generalizing t a with
  | nil => rfl
  | cons r rs ih => simp [pass, ih]

@[simp] theorem length_passes (k t : ℕ) (a : A) (rs : List R) :
    (passes step k t a rs).2.length = rs.length := by
  induction k generalizing t a rs with
  | zero => rfl
  | succ k ih => simp [passes, ih]

variable {step unstep}

@[simp] theorem length_unpass (t : ℕ) (a : A) (rs : List R) :
    (unpass unstep t a rs).2.length = rs.length := by
  induction rs generalizing t a with
  | nil => rfl
  | cons r rs ih => simp [unpass, ih]

@[simp] theorem length_unpasses (k t : ℕ) (a : A) (rs : List R) :
    (unpasses unstep k t a rs).2.length = rs.length := by
  induction k generalizing t a with
  | zero => rfl
  | succ k ih => simp [unpasses, ih]

theorem unpass_pass (h : ∀ t s, unstep t (step t s) = s) (t : ℕ) (a : A) (rs : List R) :
    unpass unstep t (pass step t a rs).1 (pass step t a rs).2 = (a, rs) := by
  induction rs generalizing t a with
  | nil => rfl
  | cons r rs ih => simp [pass, unpass, ih, h]

theorem unpasses_passes (h : ∀ t s, unstep t (step t s) = s) (k t : ℕ) (a : A) (rs : List R) :
    unpasses unstep k t (passes step k t a rs).1 (passes step k t a rs).2 = (a, rs) := by
  induction k generalizing t a rs with
  | zero => rfl
  | succ k ih =>
      have hinner := ih (t + rs.length) (pass step t a rs).1 (pass step t a rs).2
      simp only [passes, unpasses, length_passes, length_pass]
      rw [hinner, unpass_pass h]

theorem pass_unpass (h : ∀ t s, step t (unstep t s) = s) (t : ℕ) (a : A) (rs : List R) :
    pass step t (unpass unstep t a rs).1 (unpass unstep t a rs).2 = (a, rs) := by
  induction rs generalizing t a with
  | nil => rfl
  | cons r rs ih => simp [pass, unpass, ih, h]

theorem passes_unpasses (h : ∀ t s, step t (unstep t s) = s) (k t : ℕ) (a : A) (rs : List R) :
    passes step k t (unpasses unstep k t a rs).1 (unpasses unstep k t a rs).2 = (a, rs) := by
  induction k generalizing t a with
  | zero => rfl
  | succ k ih =>
      have hinner := ih (t + rs.length) a
      simp only [passes, unpasses, length_unpass, length_unpasses]
      rw [pass_unpass h]
      exact hinner

end KeyWrap
