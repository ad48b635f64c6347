import Mathlib.Data.List.Basic
import Mathlib.Data.List.Infix

/-!
Searching a list for the first occurrence of a pattern. `find` is specified by
`find_eq_some_iff`; the lemmas after it find a pattern behind a part of the
text that does not contain its first letter, and a pattern in front.
-/

namespace Search

variable {α : Type*} [DecidableEq α] {pat text rest xs : List α}

/-- The index of the first occurrence of `pat` in a text. -/
def find (pat : List α) : List α → Option ℕ
  | [] => if pat = [] then some 0 else none
  | x :: xs => if pat.isPrefixOf (x :: xs) then some 0 else (find pat xs).map (· + 1)

/-- The first occurrence at `pos` or later, as an index into the whole text. -/
def findFrom (pat text : List α) (pos : ℕ) : Option ℕ :=
  (find pat (text.drop pos)).map (pos + ·)

theorem find_of_starts (h : pat <+: text) : find pat text = some 0 := by
  cases text with
  | nil => simp [find, List.prefix_nil.mp h]
  | cons x xs => simp [find, List.isPrefixOf_iff_prefix, h]

theorem find_append_self (pat rest : List α) : find pat (pat ++ rest) = some 0 :=
  find_of_starts (List.prefix_append pat rest)

theorem find_cons_of_not_starts {x : α} (h : ¬ pat <+: x :: xs) :
    find pat (x :: xs) = (find pat xs).map (· + 1) := by
  simp [find, List.isPrefixOf_iff_prefix, h]

/-- What a successful search says: the pattern is there, and not before. -/
theorem find_eq_some_iff {i : ℕ} :
    find pat text = some i ↔
      i ≤ text.length ∧ pat <+: text.drop i ∧ ∀ j < i, ¬ pat <+: text.drop j := by
  induction text generalizing i with
  | nil =>
      simp only [find, List.length_nil, Nat.le_zero, List.drop_nil, List.prefix_nil]
      split_ifs with hpat
      · constructor
        · rintro h
          cases h
          exact ⟨rfl, hpat, by omega⟩
        · rintro ⟨rfl, -⟩
          rfl
      · simp [hpat]
  | cons x xs ih =>
      by_cases hstarts : pat <+: x :: xs
      · rw [find_of_starts hstarts]
        constructor
        · rintro h
          cases h
          exact ⟨Nat.zero_le _, hstarts, by omega⟩
        · rintro ⟨-, -, hfirst⟩
          cases i with
          | zero => rfl
          | succ i => exact absurd hstarts (hfirst 0 (by omega))
      · rw [find_cons_of_not_starts hstarts, Option.map_eq_some_iff]
        constructor
        · rintro ⟨j, hj, rfl⟩
          obtain ⟨hle, hat, hfirst⟩ := ih.mp hj
          refine ⟨by simpa using hle, by simpa using hat, ?_⟩
          intro k hk
          cases k with
          | zero => exact hstarts
          | succ k => simpa using hfirst k (by omega)
        · rintro ⟨hle, hat, hfirst⟩
          cases i with
          | zero => exact absurd hat hstarts
          | succ i =>
              refine ⟨i, ih.mpr ⟨by simpa using hle, by simpa using hat, ?_⟩, rfl⟩
              intro k hk
              simpa using hfirst (k + 1) (by omega)

/-- A search does not go past an occurrence. -/
theorem exists_find_le {j : ℕ} (hat : pat <+: text.drop j) : ∃ i ≤ j, find pat text = some i := by
  induction text generalizing j with
  | nil =>
      rw [List.drop_nil] at hat
      exact ⟨0, Nat.zero_le j, find_of_starts hat⟩
  | cons x xs ih =>
      by_cases hstarts : pat <+: x :: xs
      · exact ⟨0, Nat.zero_le j, find_of_starts hstarts⟩
      · cases j with
        | zero => exact absurd hat hstarts
        | succ j =>
            obtain ⟨i, hle, hfind⟩ := ih hat
            exact ⟨i + 1, by omega, by rw [find_cons_of_not_starts hstarts, hfind]; rfl⟩

/-- Text that does not contain the pattern's first letter is skipped. -/
theorem find_append_of_head_not_mem {x : α} (h : x ∉ xs) :
    find (x :: pat) (xs ++ text) = (find (x :: pat) text).map (xs.length + ·) := by
  induction xs with
  | nil => simp
  | cons y ys ih =>
      obtain ⟨hne, hys⟩ := not_or.mp (List.mem_cons.not.mp h)
      have hstarts : ¬ (x :: pat) <+: y :: (ys ++ text) := by
        rw [List.cons_prefix_cons]
        exact fun hxy => hne hxy.1
      rw [List.cons_append, find_cons_of_not_starts hstarts, ih hys, Option.map_map,
        List.length_cons]
      congr 1
      funext i
      simp only [Function.comp]
      omega

omit [DecidableEq α] in
/-- An occurrence does not reach a letter that is not in the pattern. -/
theorem starts_of_starts_append_cons {c : α} (xs : List α) (hc : c ∉ pat)
    (h : pat <+: xs ++ c :: rest) :
    pat <+: xs := by
  by_cases hle : pat.length ≤ xs.length
  · exact List.prefix_of_prefix_length_le h (List.prefix_append _ _) hle
  · have hlt : xs.length < pat.length := by omega
    have hat : pat[xs.length]? = some c := by
      obtain ⟨after, hafter⟩ := h
      have hget := congrArg (·[xs.length]?) hafter
      simpa [List.getElem?_append_left hlt] using hget
    exact absurd (List.mem_of_getElem? hat) hc

omit [DecidableEq α] in
/-- A letter that is not in the pattern parts its occurrences. -/
theorem infix_append_cons_iff {c : α} (hne : pat ≠ []) (hc : c ∉ pat) :
    pat <:+: xs ++ c :: rest ↔ pat <:+: xs ∨ pat <:+: rest := by
  constructor
  · intro h
    induction xs with
    | nil =>
        rcases List.infix_cons_iff.mp h with hstarts | hinfix
        · exact absurd (List.prefix_nil.mp (starts_of_starts_append_cons [] hc hstarts)) hne
        · exact .inr hinfix
    | cons x xs ih =>
        rcases List.infix_cons_iff.mp h with hstarts | hinfix
        · exact .inl (starts_of_starts_append_cons (x :: xs) hc hstarts).isInfix
        · exact (ih hinfix).imp_left List.infix_cons
  · rintro (h | h)
    · exact h.trans (List.prefix_append _ _).isInfix
    · exact h.trans ((List.suffix_cons c rest).trans (List.suffix_append xs _)).isInfix

omit [DecidableEq α] in
theorem not_infix_of_not_mem {c : α} (hc : c ∈ pat) (h : c ∉ text) : ¬ pat <:+: text :=
  fun hinside => h (hinside.subset hc)

theorem find_isSome_iff : (find pat text).isSome = true ↔ pat <:+: text := by
  constructor
  · intro h
    obtain ⟨i, hi⟩ := Option.isSome_iff_exists.mp h
    exact (find_eq_some_iff.mp hi).2.1.isInfix.trans (List.drop_suffix i text).isInfix
  · rintro ⟨before, after, rfl⟩
    obtain ⟨i, -, hi⟩ := @exists_find_le _ _ pat (before ++ pat ++ after) before.length (by simp)
    rw [hi]
    rfl

/-- Text without an occurrence, up to a letter that is not in the pattern, is skipped. -/
theorem find_append_cons_of_not_infix {c : α} (hc : c ∉ pat) (h : ¬ pat <:+: xs) :
    find pat (xs ++ c :: rest) = (find pat rest).map (xs.length + 1 + ·) := by
  induction xs with
  | nil =>
      have hstarts : ¬ pat <+: [] ++ c :: rest := fun hat =>
        h (starts_of_starts_append_cons [] hc hat).isInfix
      rw [List.nil_append] at hstarts ⊢
      rw [find_cons_of_not_starts hstarts]
      congr 1
      funext i
      simp only [List.length_nil]
      omega
  | cons x xs ih =>
      have hstarts : ¬ pat <+: x :: (xs ++ c :: rest) := fun hat =>
        h (starts_of_starts_append_cons (x :: xs) hc hat).isInfix
      have htail : ¬ pat <:+: xs := fun hinfix => h (List.infix_cons hinfix)
      rw [List.cons_append, find_cons_of_not_starts hstarts, ih htail, Option.map_map,
        List.length_cons]
      congr 1
      funext i
      simp only [Function.comp]
      omega

/-- A pattern whose first letter does not come again in it is found where it is put, behind a
part of the text that has no occurrence. -/
theorem find_append_of_not_infix {x : α} (hx : x ∉ pat) (h : ¬ (x :: pat) <:+: xs) :
    find (x :: pat) (xs ++ x :: pat ++ rest) = some xs.length := by
  induction xs with
  | nil => exact find_append_self (x :: pat) rest
  | cons y ys ih =>
      have hstarts : ¬ (x :: pat) <+: y :: (ys ++ x :: pat ++ rest) := by
        intro hat
        obtain ⟨rfl, htail⟩ := List.cons_prefix_cons.mp hat
        rw [List.append_assoc, List.cons_append] at htail
        have hinside := starts_of_starts_append_cons ys hx htail
        exact h (List.cons_prefix_cons.mpr ⟨rfl, hinside⟩).isInfix
      have htail : ¬ (x :: pat) <:+: ys := fun hinfix => h (List.infix_cons hinfix)
      rw [List.cons_append, List.cons_append, find_cons_of_not_starts hstarts, ih htail]
      rfl

/-- What is found in a text is found there with more text behind it. -/
theorem find_append_right {i : ℕ} (h : find pat text = some i) (rest : List α) :
    find pat (text ++ rest) = some i := by
  obtain ⟨hle, hat, hfirst⟩ := find_eq_some_iff.mp h
  have hlen : pat.length ≤ text.length - i := by
    have hsub := hat.length_le
    rwa [List.length_drop] at hsub
  rw [find_eq_some_iff]
  refine ⟨by simp only [List.length_append]; omega, ?_, ?_⟩
  · rw [List.drop_append_of_le_length hle]
    exact hat.trans (List.prefix_append _ _)
  · intro j hj hat'
    rw [List.drop_append_of_le_length (by omega)] at hat'
    apply hfirst j hj
    apply List.prefix_of_prefix_length_le hat' (List.prefix_append _ _)
    rw [List.length_drop]
    omega

/-- An occurrence cannot start where a header long enough to show it does not
have one. -/
theorem le_of_find_append {header : List α} {i n : ℕ}
    (hheader : ∀ j < n, ¬ pat <+: header.drop j) (hlen : n + pat.length ≤ header.length + 1)
    (h : find pat (header ++ rest) = some i) : n ≤ i := by
  by_contra hlt
  obtain ⟨-, hat, -⟩ := find_eq_some_iff.mp h
  have hi : i + pat.length ≤ header.length := by omega
  rw [List.drop_append_of_le_length (by omega)] at hat
  have hinside : pat <+: header.drop i :=
    List.prefix_of_prefix_length_le hat (List.prefix_append _ _) (by
      rw [List.length_drop]
      omega)
  exact hheader i (by omega) hinside

theorem findFrom_of_drop {pos : ℕ} (h : text.drop pos = rest) :
    findFrom pat text pos = (find pat rest).map (pos + ·) := by
  rw [findFrom, h]

end Search
