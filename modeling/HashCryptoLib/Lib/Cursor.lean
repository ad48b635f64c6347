import Mathlib.Data.List.Basic

/-!
Reading a list from a position. A reader that keeps an index into a buffer is
described by what is left at that index: `At data pos rest` says that `rest`
is the part of `data` from `pos` on. A reader's lemma takes the `At` of what it
expects and gives the `At` of what it leaves.
-/

namespace Cursor

variable {α : Type*} {data xs rest : List α} {pos : ℕ} {x : α}

/-- `rest` is what `data` holds from position `pos` on. -/
def At (data : List α) (pos : ℕ) (rest : List α) : Prop :=
  ∃ before, data = before ++ rest ∧ before.length = pos

theorem at_zero (data : List α) : At data 0 data := ⟨[], rfl, rfl⟩

theorem at_whole (data : List α) : At data 0 (data ++ []) := ⟨[], by simp, rfl⟩

theorem at_append (xs rest : List α) : At (xs ++ rest) xs.length rest := ⟨xs, rfl, rfl⟩

theorem At.length_eq (h : At data pos rest) : data.length = pos + rest.length := by
  obtain ⟨before, rfl, rfl⟩ := h
  simp

theorem At.drop_eq (h : At data pos rest) : data.drop pos = rest := by
  obtain ⟨before, rfl, rfl⟩ := h
  simp

theorem at_iff : At data pos rest ↔ pos ≤ data.length ∧ data.drop pos = rest := by
  constructor
  · intro h
    exact ⟨by have := h.length_eq; omega, h.drop_eq⟩
  · rintro ⟨hle, rfl⟩
    exact ⟨data.take pos, (List.take_append_drop pos data).symm, by simp [hle]⟩

theorem At.unique {rest' : List α} (h : At data pos rest) (h' : At data pos rest') :
    rest = rest' := by
  rw [← h.drop_eq, h'.drop_eq]

/-- Advancing over what was read. -/
theorem At.advance (h : At data pos (xs ++ rest)) : At data (pos + xs.length) rest := by
  obtain ⟨before, rfl, rfl⟩ := h
  exact ⟨before ++ xs, by simp, by simp⟩

theorem At.next (h : At data pos (x :: rest)) : At data (pos + 1) rest := by
  rw [← List.singleton_append] at h
  exact h.advance

theorem At.getElem?_eq (h : At data pos rest) (i : ℕ) : data[pos + i]? = rest[i]? := by
  rw [← h.drop_eq, List.getElem?_drop]

theorem At.head (h : At data pos (x :: rest)) : data[pos]? = some x := by
  simpa using h.getElem?_eq 0

theorem At.take_eq (h : At data pos (xs ++ rest)) : (data.drop pos).take xs.length = xs := by
  rw [h.drop_eq, List.take_left]

theorem At.le (h : At data pos (xs ++ rest)) : pos + xs.length ≤ data.length := by
  rw [h.length_eq, List.length_append]
  omega

theorem At.lt (h : At data pos (x :: rest)) : pos < data.length := by
  rw [h.length_eq, List.length_cons]
  omega

/-- More data behind the buffer. -/
theorem At.extend (h : At data pos rest) (more : List α) : At (data ++ more) pos (rest ++ more) := by
  obtain ⟨before, rfl, rfl⟩ := h
  exact ⟨before, List.append_assoc .., rfl⟩

/-- Less data in front of its end. -/
theorem At.take {size : ℕ} (h : At data pos rest) (hsize : pos ≤ size) :
    At (data.take size) pos (rest.take (size - pos)) := by
  obtain ⟨before, rfl, rfl⟩ := h
  exact ⟨before, by rw [List.take_append, List.take_of_length_le hsize], rfl⟩

/-- A position is where the buffer ends exactly when nothing is left. -/
theorem At.lt_iff (h : At data pos rest) : pos < data.length ↔ rest ≠ [] := by
  have hlen := h.length_eq
  rw [← List.length_pos_iff]
  omega

end Cursor
