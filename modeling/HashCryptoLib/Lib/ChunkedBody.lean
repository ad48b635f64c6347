import Mathlib.Data.List.Basic

/-!
Bodies cut into chunks, each behind a header that announces its length and
whether another chunk follows. A reader is inside a chunk of which some letters
are left; what lies ahead of it is a sequence of letters and headers, and the
body it still has to deliver.
-/

variable {α : Type*}

/-- `Chunked announces n final xs body`: ahead lie the letters `xs`, the next `n` of
them in the current chunk, which is the last one if `final`; they carry `body`. -/
inductive Chunked (announces : List α → ℕ → Bool → Prop) : ℕ → Bool → List α → List α → Prop
  | done : Chunked announces 0 true [] []
  | letter {n : ℕ} {final : Bool} {xs body : List α} (x : α)
      (h : Chunked announces n final xs body) :
      Chunked announces (n + 1) final (x :: xs) (x :: body)
  | next {header : List α} {n : ℕ} {more : Bool} {xs body : List α}
      (hheader : announces header n more) (h : Chunked announces n (!more) xs body) :
      Chunked announces 0 false (header ++ xs) body

namespace Chunked

variable {announces : List α → ℕ → Bool → Prop} {n : ℕ} {final : Bool} {xs body : List α}

theorem of_length : Chunked announces body.length true body body := by
  induction body with
  | nil => exact .done
  | cons x body ih => exact .letter x ih

/-- The last chunk is the rest of the body. -/
theorem final_iff : Chunked announces n true xs body ↔ xs = body ∧ body.length = n := by
  constructor
  · intro h
    induction n generalizing xs body with
    | zero =>
        cases h
        exact ⟨rfl, rfl⟩
    | succ n ih =>
        cases h with
        | letter x h =>
            obtain ⟨rfl, hlength⟩ := ih h
            exact ⟨rfl, congrArg (· + 1) hlength⟩
  · rintro ⟨rfl, rfl⟩
    exact of_length

/-- A piece within the current chunk stands there as it is. -/
theorem take {k : ℕ} (h : Chunked announces n final xs body) (hk : k ≤ n) :
    k ≤ body.length ∧ ∃ ahead, xs = body.take k ++ ahead ∧
      Chunked announces (n - k) final ahead (body.drop k) := by
  induction k generalizing n xs body with
  | zero => exact ⟨Nat.zero_le _, xs, rfl, h⟩
  | succ k ih =>
      cases h with
      | done => exact absurd hk (Nat.not_succ_le_zero k)
      | next => exact absurd hk (Nat.not_succ_le_zero k)
      | letter x h =>
          obtain ⟨hle, ahead, rfl, hahead⟩ := ih h (Nat.le_of_succ_le_succ hk)
          refine ⟨Nat.succ_le_succ hle, ahead, rfl, ?_⟩
          rw [Nat.add_sub_add_right]
          exact hahead

/-- At the end of a chunk that is not the last one stands a header. -/
theorem header (h : Chunked announces 0 false xs body) :
    ∃ header n more ahead, announces header n more ∧ xs = header ++ ahead ∧
      Chunked announces n (!more) ahead body := by
  cases h with
  | next hheader h => exact ⟨_, _, _, _, hheader, rfl, h⟩

theorem append (piece : List α) (h : Chunked announces n final xs body) :
    Chunked announces (n + piece.length) final (piece ++ xs) (piece ++ body) := by
  induction piece with
  | nil => exact h
  | cons x piece ih => exact .letter x ih

theorem imp {announces' : List α → ℕ → Bool → Prop}
    (himp : ∀ {header n more}, announces header n more → announces' header n more)
    (h : Chunked announces n final xs body) : Chunked announces' n final xs body := by
  induction h with
  | done => exact .done
  | letter x _ ih => exact .letter x ih
  | next hheader _ ih => exact .next (himp hheader) ih

end Chunked
