import Mathlib.Data.List.Basic
import Mathlib.Data.Nat.Basic

/-!
A list read in consecutive pieces of one size, until a read gives nothing:
every piece is full but the last, and no piece is empty. A loop over pieces that
can fail keeps a relation between what has been read and its state.
-/

namespace Chunks

variable {α : Type*} {size : ℕ} {xs chunk : List α}

def chunksOf (size : ℕ) (xs : List α) : List (List α) :=
  if _hdone : size = 0 ∨ xs = [] then []
  else xs.take size :: chunksOf size (xs.drop size)
termination_by xs.length
decreasing_by
  have hpos := List.length_pos_iff.mpr (not_or.mp _hdone).2
  rw [List.length_drop]
  omega

@[simp] theorem chunksOf_nil (size : ℕ) : chunksOf size ([] : List α) = [] := by
  rw [chunksOf, dif_pos (Or.inr rfl)]

theorem chunksOf_of_ne_nil (hsize : 0 < size) (hxs : xs ≠ []) :
    chunksOf size xs = xs.take size :: chunksOf size (xs.drop size) := by
  rw [chunksOf, dif_neg]
  exact not_or.mpr ⟨Nat.pos_iff_ne_zero.mp hsize, hxs⟩

/-- Reading the pieces one after another gives back the list. -/
theorem flatten_chunksOf (hsize : 0 < size) (xs : List α) : (chunksOf size xs).flatten = xs := by
  induction xs using chunksOf.induct size with
  | case1 xs hdone =>
      rcases hdone with hzero | rfl
      · exact absurd hsize (by omega)
      · simp
  | case2 xs hgoes ih =>
      rw [chunksOf_of_ne_nil hsize (not_or.mp hgoes).2, List.flatten_cons, ih]
      exact List.take_append_drop size xs

theorem length_of_mem_chunksOf (h : chunk ∈ chunksOf size xs) :
    0 < chunk.length ∧ chunk.length ≤ size := by
  induction xs using chunksOf.induct size with
  | case1 xs hdone =>
      rw [chunksOf, dif_pos hdone] at h
      cases h
  | case2 xs hgoes ih =>
      rw [chunksOf, dif_neg hgoes] at h
      cases h with
      | head =>
          have hpos := List.length_pos_iff.mpr (not_or.mp hgoes).2
          rw [List.length_take]
          omega
      | tail _ hrest => exact ih hrest

/-- The number of pieces is the length over the size, rounded up. -/
theorem length_chunksOf (hsize : 0 < size) (xs : List α) :
    (chunksOf size xs).length = (xs.length + size - 1) / size := by
  induction xs using chunksOf.induct size with
  | case1 xs hdone =>
      rw [chunksOf, dif_pos hdone]
      obtain rfl := hdone.resolve_left (by omega)
      exact (Nat.div_eq_of_lt (show 0 + size - 1 < size by omega)).symm
  | case2 xs hgoes ih =>
      have hpos := List.length_pos_iff.mpr (not_or.mp hgoes).2
      rw [chunksOf, dif_neg hgoes, List.length_cons, ih, List.length_drop]
      -- the piece read first is the last one, or there are `size` elements fewer
      rcases Nat.le_total xs.length size with hlast | hmore
      · rw [Nat.div_eq_of_lt (by omega)]
        exact (Nat.div_eq_of_lt_le (by omega) (by omega)).symm
      · have hsum : xs.length + size - 1 = xs.length - size + size - 1 + size := by omega
        rw [hsum, Nat.add_div_right _ hsize]

/-- The pieces lie at the multiples of the size. -/
theorem chunksOf_eq_map_range (size : ℕ) (xs : List α) :
    chunksOf size xs =
      (List.range (chunksOf size xs).length).map fun i => (xs.drop (i * size)).take size := by
  induction xs using chunksOf.induct size with
  | case1 xs hdone =>
      rw [chunksOf, dif_pos hdone]
      rfl
  | case2 xs hgoes ih =>
      rw [chunksOf, dif_neg hgoes, List.length_cons, List.range_succ_eq_map, List.map_cons,
        Nat.zero_mul, List.drop_zero, List.map_map]
      congr 1
      rw [ih, List.length_map, List.length_range]
      apply List.map_congr_left
      intro i _
      show ((xs.drop size).drop (i * size)).take size = (xs.drop ((i + 1) * size)).take size
      rw [List.drop_drop, Nat.add_one_mul, Nat.add_comm]

/-- Records of that size are the pieces of the list they make up. -/
theorem chunksOf_flatMap {σ : Type*} {record : σ → List α} (hsize : 0 < size) {items : List σ}
    (h : ∀ item ∈ items, (record item).length = size) :
    chunksOf size (items.flatMap record) = items.map record := by
  induction items with
  | nil => exact chunksOf_nil size
  | cons item items ih =>
      obtain ⟨hitem, hitems⟩ := List.forall_mem_cons.mp h
      have hne : record item ++ items.flatMap record ≠ [] := by
        intro hnil
        have hlength := congrArg List.length (List.append_eq_nil_iff.mp hnil).1
        rw [hitem, List.length_nil] at hlength
        omega
      rw [List.flatMap_cons, List.map_cons, chunksOf_of_ne_nil hsize hne, List.take_left' hitem,
        List.drop_left' hitem, ih hitems]

/-! ### Loops over pieces -/

section Loops

variable {ε σ : Type*} {step : σ → List α → Except ε σ} {R : List α → σ → Prop}
  {pieces : List (List α)} {done : List α} {s s' : σ}

/-- What every step keeps of what has been read, the run keeps. -/
theorem foldlM_keeps
    (hstep : ∀ {done chunk s s'}, R done s → step s chunk = .ok s' → R (done ++ chunk) s')
    (hstart : R done s) (h : pieces.foldlM step s = .ok s') : R (done ++ pieces.flatten) s' := by
  induction pieces generalizing done s with
  | nil =>
      cases h
      rwa [List.flatten_nil, List.append_nil]
  | cons piece pieces ih =>
      rw [List.foldlM_cons] at h
      cases hpiece : step s piece with
      | error e =>
          rw [hpiece] at h
          cases h
      | ok next =>
          rw [hpiece] at h
          rw [List.flatten_cons, ← List.append_assoc]
          exact ih (hstep hstart hpiece) h

/-- Where every step goes on, whatever is to come, the run reaches its end. -/
theorem foldlM_goes_on {total : List α}
    (hstep : ∀ {done chunk rest s}, chunk ∈ pieces → done ++ chunk ++ rest = total → R done s →
      ∃ s', step s chunk = .ok s' ∧ R (done ++ chunk) s')
    (hstart : R done s) (htotal : done ++ pieces.flatten = total) :
    ∃ s', pieces.foldlM step s = .ok s' ∧ R total s' := by
  induction pieces generalizing done s with
  | nil =>
      rw [List.flatten_nil, List.append_nil] at htotal
      exact ⟨s, rfl, htotal ▸ hstart⟩
  | cons piece pieces ih =>
      rw [List.flatten_cons, ← List.append_assoc] at htotal
      obtain ⟨next, hpiece, hnext⟩ := hstep (.head _) htotal hstart
      rw [List.foldlM_cons, hpiece]
      exact ih (fun hmem => hstep (.tail _ hmem)) hnext htotal

end Loops

end Chunks
