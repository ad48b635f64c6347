import Mathlib.Data.List.GetD
import Mathlib.Data.List.Lex
import Mathlib.Data.List.Perm.Basic
import Mathlib.Data.List.Rotate
import Mathlib.Order.Lattice

/-!
The Burrows-Wheeler transform of a word: the last column of its sorted rotations,
and where the word stands among them. Whoever sorts the positions of the last
column stably gets, at the position of a rotation, the position of the next one,
so the word can be read off. Equal rotations, which a periodic word has, need no
care: the rows are compared as words, not as rotations.
-/

namespace Bwt

variable {α : Type*}

/-- All rotations of a word. -/
def rotations (word : List α) : List (List α) := (List.range word.length).map word.rotate

/-- A row, rotated back by one. -/
def rotateBack (row : List α) : List α := row.rotate (row.length - 1)

theorem rotateBack_append_singleton (front : List α) (x : α) :
    rotateBack (front ++ [x]) = x :: front := by
  rw [rotateBack, List.length_append, List.length_singleton, Nat.add_sub_cancel,
    List.rotate_append_length_eq, List.singleton_append]

theorem rotateBack_rotate_succ (word : List α) (k : ℕ) :
    rotateBack (word.rotate (k + 1)) = word.rotate k := by
  cases hn : word.length with
  | zero =>
      rw [List.length_eq_zero_iff.mp hn]
      simp [rotateBack]
  | succ n =>
      rw [rotateBack, List.length_rotate, List.rotate_rotate, hn, Nat.add_sub_cancel,
        show k + 1 + n = word.length + k by omega, ← List.rotate_rotate, List.rotate_length]

theorem rotate_rotateBack (row : List α) : (rotateBack row).rotate 1 = row := by
  cases hn : row.length with
  | zero =>
      rw [List.length_eq_zero_iff.mp hn]
      simp [rotateBack]
  | succ n =>
      rw [rotateBack, List.rotate_rotate, Nat.sub_add_cancel (by omega), List.rotate_length]

/-- Rotating every rotation back gives the rotations again. -/
theorem map_rotateBack_rotations (word : List α) :
    ((rotations word).map rotateBack).Perm (rotations word) := by
  cases hn : word.length with
  | zero => rw [rotations, hn, List.range_zero, List.map_nil, List.map_nil]
  | succ n =>
      have hlast : rotateBack (word.rotate 0) = word.rotate n := by
        rw [List.rotate_zero, rotateBack, hn, Nat.add_sub_cancel]
      have hback : ((List.range n).map fun k => rotateBack (word.rotate (k + 1))) =
          (List.range n).map word.rotate :=
        List.map_congr_left fun k _ => rotateBack_rotate_succ word k
      have hfront : (rotations word).map rotateBack = word.rotate n :: (List.range n).map word.rotate := by
        rw [← hback, rotations, hn, List.range_succ_eq_map, List.map_cons, List.map_cons, hlast,
          List.map_map, List.map_map]
        rfl
      have hbehind : rotations word = (List.range n).map word.rotate ++ [word.rotate n] := by
        rw [rotations, hn, List.range_succ, List.map_append, List.map_singleton]
      rw [hfront, hbehind]
      exact (List.perm_append_singleton _ _).symm

theorem length_of_mem_rotations {word row : List α} (h : row ∈ rotations word) :
    row.length = word.length := by
  obtain ⟨k, -, rfl⟩ := List.mem_map.mp h
  exact List.length_rotate word k

theorem getElem?_column {rows : List (List α)} (hne : ∀ row ∈ rows, row ≠ []) (i : ℕ) :
    (rows.filterMap List.getLast?)[i]? = rows[i]?.bind List.getLast? := by
  induction rows generalizing i with
  | nil => rfl
  | cons row rows ih =>
      have hrow := List.getLast?_eq_some_getLast (hne row List.mem_cons_self)
      rw [List.filterMap_cons_some hrow]
      cases i with
      | zero => rw [List.getElem?_cons_zero, List.getElem?_cons_zero, Option.bind_some, hrow]
      | succ i =>
          rw [List.getElem?_cons_succ, List.getElem?_cons_succ]
          exact ih (fun row' hmem => hne row' (List.mem_cons_of_mem row hmem)) i

theorem length_column {rows : List (List α)} (hne : ∀ row ∈ rows, row ≠ []) :
    (rows.filterMap List.getLast?).length = rows.length := by
  induction rows with
  | nil => rfl
  | cons row rows ih =>
      have hrow := List.getLast?_eq_some_getLast (hne row List.mem_cons_self)
      rw [List.filterMap_cons_some hrow, List.length_cons, List.length_cons,
        ih fun row' hmem => hne row' (List.mem_cons_of_mem row hmem)]

variable [LinearOrder α]

/-- The rows are the rotations of the word, in order. -/
structure SortedRotations (word : List α) (rows : List (List α)) : Prop where
  perm : rows.Perm (rotations word)
  sorted : rows.Pairwise (· ≤ ·)

/-- `column` and `origin` are what the transform makes of the word. -/
def IsTransform (word column : List α) (origin : ℕ) : Prop :=
  ∃ rows, SortedRotations word rows ∧ column = rows.filterMap List.getLast? ∧
    rows[origin]? = some word

/-- The positions of the column, sorted stably by what stands there. -/
structure SortedPositions (column : List α) (positions : List ℕ) : Prop where
  perm : positions.Perm (List.range column.length)
  sorted : positions.Pairwise fun i j => ∃ x y, column[i]? = some x ∧ column[j]? = some y ∧
    (x < y ∨ x = y ∧ i < j)

/-- All rotations of a word of equal letters are the word. -/
theorem isTransform_replicate {n : ℕ} (hn : 0 < n) (x : α) :
    IsTransform (List.replicate n x) (List.replicate n x) 0 := by
  have hrotations : rotations (List.replicate n x) = List.replicate n (List.replicate n x) := by
    refine List.eq_replicate_iff.mpr ⟨by simp [rotations], fun row hrow => ?_⟩
    obtain ⟨k, -, rfl⟩ := List.mem_map.mp hrow
    exact List.rotate_replicate x n k
  have hlast : (List.replicate n x).getLast? = some x := by
    rw [List.getLast?_replicate, if_neg hn.ne']
  have hcolumn (m : ℕ) : (List.replicate m (List.replicate n x)).filterMap List.getLast? =
      List.replicate m x := by
    induction m with
    | zero => rfl
    | succ m ih => rw [List.replicate_succ, List.filterMap_cons_some hlast, ih, List.replicate_succ]
  refine ⟨List.replicate n (List.replicate n x), ⟨?_, ?_⟩, (hcolumn n).symm, ?_⟩
  · rw [hrotations]
  · exact List.pairwise_replicate.mpr (Or.inr le_rfl)
  · rw [List.getElem?_replicate, if_pos hn]

theorem append_singleton_lt {xs ys : List α} {x y : α} (hlength : xs.length = ys.length)
    (h : xs < ys) : xs ++ [x] < ys ++ [y] := by
  induction xs generalizing ys with
  | nil =>
      cases ys with
      | nil => exact absurd h (lt_irrefl _)
      | cons b ys => cases hlength
  | cons a xs ih =>
      cases ys with
      | nil => cases hlength
      | cons b ys =>
          rw [List.cons_append, List.cons_append, List.cons_lt_cons_iff]
          rcases List.cons_lt_cons_iff.mp h with hlt | ⟨heq, hlt⟩
          · exact Or.inl hlt
          · exact Or.inr ⟨heq, ih (Nat.succ.inj hlength) hlt⟩

section Rows

variable {word column : List α} {rows : List (List α)} {positions : List ℕ}

theorem SortedRotations.length_rows (h : SortedRotations word rows) :
    rows.length = word.length := by
  rw [h.perm.length_eq, rotations, List.length_map, List.length_range]

theorem SortedRotations.length_row (h : SortedRotations word rows) {row : List α}
    (hrow : row ∈ rows) : row.length = word.length :=
  length_of_mem_rotations (h.perm.mem_iff.mp hrow)

/-- Every row ends, because only the empty word has empty rotations. -/
theorem SortedRotations.row_ne_nil (h : SortedRotations word rows) {row : List α}
    (hrow : row ∈ rows) : row ≠ [] := by
  intro hnil
  have hpos := List.length_pos_of_mem hrow
  rw [h.length_rows, ← h.length_row hrow, hnil] at hpos
  cases hpos

/-- Two rows in order, rotated back, are in order when their first letters are in order, or the
same. -/
theorem rotateBack_le {front back : List α} {x y : α} (hlength : front.length = back.length)
    (h : x < y ∨ x = y ∧ front ++ [x] ≤ back ++ [y]) :
    rotateBack (front ++ [x]) ≤ rotateBack (back ++ [y]) := by
  rw [rotateBack_append_singleton, rotateBack_append_singleton]
  rcases h with hlt | ⟨rfl, hle⟩
  · exact (List.cons_lt_cons_iff.mpr (Or.inl hlt)).le
  · refine not_lt.mp fun hcons => ?_
    rcases List.cons_lt_cons_iff.mp hcons with hlt | ⟨-, hlt⟩
    · exact lt_irrefl x hlt
    · exact absurd hle (not_le.mpr (append_singleton_lt hlength.symm hlt))

/-- The rows, rotated back and sorted stably by their first letters, are the rows: among rows
with one first letter the order of the rest decides, and it is the order of the rows. -/
theorem map_rotateBack_positions (h : SortedRotations word rows)
    (hpositions : SortedPositions (rows.filterMap List.getLast?) positions) :
    positions.map (fun i => rotateBack (rows.getD i [])) = rows := by
  have hne : ∀ row ∈ rows, row ≠ [] := fun row => h.row_ne_nil
  have hrange : (List.range rows.length).map (fun i => rotateBack (rows.getD i [])) =
      rows.map rotateBack := by
    apply List.ext_getElem (by rw [List.length_map, List.length_map, List.length_range])
    intro i hi hi'
    rw [List.length_map] at hi'
    rw [List.getElem_map, List.getElem_map, List.getElem_range, List.getD_eq_getElem rows [] hi']
  have hperm : (positions.map fun i => rotateBack (rows.getD i [])).Perm rows := by
    have hrows := hpositions.perm.map fun i => rotateBack (rows.getD i [])
    rw [length_column hne, hrange] at hrows
    exact hrows.trans ((h.perm.map _).trans ((map_rotateBack_rotations word).trans h.perm.symm))
  refine hperm.eq_of_pairwise (fun _ _ _ _ => le_antisymm) ?_ h.sorted
  rw [List.pairwise_map]
  refine hpositions.sorted.imp fun {i j} hij => ?_
  obtain ⟨x, y, hx, hy, horder⟩ := hij
  rw [getElem?_column hne] at hx hy
  obtain ⟨row, hrow, hx⟩ := Option.bind_eq_some_iff.mp hx
  obtain ⟨row', hrow', hy⟩ := Option.bind_eq_some_iff.mp hy
  have hlength := (h.length_row (List.mem_of_getElem? hrow)).trans
    (h.length_row (List.mem_of_getElem? hrow')).symm
  obtain ⟨front, rfl⟩ := List.getLast?_eq_some_iff.mp hx
  obtain ⟨back, rfl⟩ := List.getLast?_eq_some_iff.mp hy
  rw [List.getD_eq_getElem?_getD, List.getD_eq_getElem?_getD, hrow, hrow', Option.getD_some,
    Option.getD_some]
  apply rotateBack_le
  · simpa using hlength
  · refine horder.imp_right fun ⟨heq, hlt⟩ => ⟨heq, ?_⟩
    obtain ⟨hi, hrow⟩ := List.getElem?_eq_some_iff.mp hrow
    obtain ⟨hj, hrow'⟩ := List.getElem?_eq_some_iff.mp hrow'
    rw [← hrow, ← hrow']
    exact List.pairwise_iff_getElem.mp h.sorted i j hi hj hlt

/-- One step of the inverse: at the position of a rotation stands the position of the next. -/
theorem next_rotation (h : SortedRotations word rows)
    (hpositions : SortedPositions (rows.filterMap List.getLast?) positions) {i k : ℕ}
    (hi : rows[i]? = some (word.rotate k)) :
    ∃ next, positions[i]? = some next ∧ rows[next]? = some (word.rotate (k + 1)) := by
  have hmap := map_rotateBack_positions h hpositions
  rw [← hmap, List.getElem?_map] at hi
  obtain ⟨next, hnext, hback⟩ := Option.map_eq_some_iff.mp hi
  have hlt : next < rows.length := by
    have hmem := hpositions.perm.mem_iff.mp (List.mem_of_getElem? hnext)
    rwa [List.mem_range, length_column fun row => h.row_ne_nil] at hmem
  refine ⟨next, hnext, ?_⟩
  rw [List.getD_eq_getElem rows [] hlt] at hback
  rw [List.getElem?_eq_getElem hlt, ← List.rotate_rotate, ← hback, rotate_rotateBack]

/-- The letter in the last column ends its rotation. -/
theorem column_eq (h : SortedRotations word rows) {i k : ℕ} (hk : k < word.length)
    (hi : rows[i]? = some (word.rotate (k + 1))) :
    (rows.filterMap List.getLast?)[i]? = word[k]? := by
  rw [getElem?_column fun row => h.row_ne_nil, hi, Option.bind_some, List.getLast?_eq_getElem?,
    List.length_rotate, List.getElem?_rotate (by omega)]
  congr 1
  rw [show word.length - 1 + (k + 1) = k + word.length by omega, Nat.add_mod_right,
    Nat.mod_eq_of_lt hk]

end Rows

end Bwt
