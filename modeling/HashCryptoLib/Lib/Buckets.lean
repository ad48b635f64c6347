import Mathlib.Data.List.Perm.Basic
import Mathlib.Data.List.Range
import Mathlib.Data.List.Nodup
import Mathlib.Order.Lattice

/-!
Positions of a list, sorted stably by what stands there: for each value of an
ascending list of values, the positions that hold it. A counting sort writes this
list, and an inverse Burrows-Wheeler transform and a canonical code read it.
-/

namespace Buckets

variable {α : Type*} [LinearOrder α]

/-- The positions in `xs` that hold `k`. -/
def bucket (xs : List α) (k : α) : List ℕ :=
  (List.range xs.length).filter fun i => xs[i]? = some k

/-- The positions in `xs`, bucket by bucket. -/
def buckets (keys xs : List α) : List ℕ := keys.flatMap (bucket xs)

variable {keys xs : List α} {k : α} {i j : ℕ}

theorem mem_bucket : i ∈ bucket xs k ↔ xs[i]? = some k := by
  rw [bucket, List.mem_filter, List.mem_range, decide_eq_true_eq]
  exact and_iff_right_of_imp fun h => (List.getElem?_eq_some_iff.mp h).1

theorem mem_buckets : i ∈ buckets keys xs ↔ ∃ k ∈ keys, xs[i]? = some k := by
  simp only [buckets, List.mem_flatMap, mem_bucket]

theorem pairwise_bucket (xs : List α) (k : α) : (bucket xs k).Pairwise (· < ·) :=
  List.Pairwise.filter _ List.pairwise_lt_range

/-- A bucket, cut at a position that is in it. -/
theorem bucket_split (h : xs[i]? = some k) :
    ∃ behind, bucket xs k = (List.range i).filter (fun j => xs[j]? = some k) ++ i :: behind := by
  obtain ⟨hi, -⟩ := List.getElem?_eq_some_iff.mp h
  obtain ⟨n, hn⟩ : ∃ n, xs.length = i + (n + 1) := ⟨xs.length - i - 1, by omega⟩
  rw [bucket, hn, List.range_add, List.filter_append, List.range_succ_eq_map, List.map_cons,
    Nat.add_zero, List.filter_cons_of_pos (by simpa using h)]
  exact ⟨_, rfl⟩

theorem length_filter_range (hi : i ≤ xs.length) :
    ((List.range i).filter fun j => xs[j]? = some k).length = (xs.take i).count k := by
  induction i with
  | zero => rw [List.take_zero, List.range_zero, List.filter_nil, List.count_nil, List.length_nil]
  | succ i ih =>
      have hlt : i < xs.length := hi
      have hget := List.getElem?_eq_getElem hlt
      rw [List.range_succ, List.filter_append, List.length_append, ih hlt.le, List.take_add_one, hget,
        List.count_append]
      by_cases h : xs[i] = k
      · simp [h, hget]
      · simp [h, hget]

theorem length_bucket (xs : List α) (k : α) : (bucket xs k).length = xs.count k := by
  rw [bucket, length_filter_range le_rfl, List.take_length]

theorem count_add_countP {keys : List α} (hk : k ∉ keys) (xs : List α) :
    xs.count k + xs.countP (· ∈ keys) = xs.countP (· ∈ k :: keys) := by
  induction xs with
  | nil => rfl
  | cons x xs ih =>
      rw [List.count_cons, List.countP_cons, List.countP_cons, ← ih]
      by_cases hx : x = k
      · subst hx
        simp [hk]
        omega
      · simp [hx]
        omega

theorem length_buckets (hkeys : keys.Nodup) (xs : List α) :
    (buckets keys xs).length = xs.countP (· ∈ keys) := by
  induction keys with
  | nil => simp [buckets]
  | cons k keys ih =>
      obtain ⟨hk, hkeys⟩ := List.nodup_cons.mp hkeys
      rw [← count_add_countP hk, ← ih hkeys, buckets, buckets, List.flatMap_cons, List.length_append,
        length_bucket]

/-- Where a position stands: behind the positions of the smaller values, and behind the earlier
positions of its own. -/
theorem getElem?_buckets (hkeys : keys.Pairwise (· < ·)) (hall : ∀ x ∈ xs, x ∈ keys)
    (h : xs[i]? = some k) :
    (buckets keys xs)[xs.countP (· < k) + (xs.take i).count k]? = some i := by
  obtain ⟨hi, hget⟩ := List.getElem?_eq_some_iff.mp h
  obtain ⟨smaller, larger, rfl⟩ := List.append_of_mem (hall k (hget ▸ List.getElem_mem hi))
  obtain ⟨behind, hbucket⟩ := bucket_split h
  obtain ⟨hsmaller, hlarger, hbelow⟩ := List.pairwise_append.mp hkeys
  have habove := (List.pairwise_cons.mp hlarger).1
  have hlength : xs.countP (· < k) = (buckets smaller xs).length := by
    rw [length_buckets hsmaller.nodup]
    apply List.countP_congr
    intro x hx
    rw [decide_eq_true_eq, decide_eq_true_eq]
    constructor
    · intro hlt
      rcases List.mem_append.mp (hall x hx) with hmem | hmem
      · exact hmem
      · rcases List.mem_cons.mp hmem with rfl | hmem
        · exact absurd hlt (lt_irrefl x)
        · exact absurd hlt (habove x hmem).asymm
    · exact fun hmem => hbelow x hmem k List.mem_cons_self
  rw [hlength, buckets, List.flatMap_append, ← buckets, List.flatMap_cons, hbucket,
    List.getElem?_append_right (Nat.le_add_right _ _), Nat.add_sub_cancel_left, List.append_assoc,
    ← length_filter_range hi.le, List.getElem?_append_right le_rfl, Nat.sub_self, List.cons_append,
    List.getElem?_cons_zero]

theorem nodup_buckets (hkeys : keys.Nodup) (xs : List α) : (buckets keys xs).Nodup := by
  rw [buckets, List.nodup_flatMap]
  refine ⟨fun k _ => (pairwise_bucket xs k).nodup, hkeys.imp fun {k k'} hne i hi hi' => ?_⟩
  rw [mem_bucket] at hi hi'
  exact hne (Option.some.inj (hi.symm.trans hi'))

/-- Every position stands somewhere, once. -/
theorem buckets_perm (hkeys : keys.Nodup) (hall : ∀ x ∈ xs, x ∈ keys) :
    (buckets keys xs).Perm (List.range xs.length) := by
  apply (List.perm_ext_iff_of_nodup (nodup_buckets hkeys xs) List.nodup_range).mpr
  intro i
  rw [mem_buckets, List.mem_range]
  constructor
  · rintro ⟨k, -, hget⟩
    exact (List.getElem?_eq_some_iff.mp hget).1
  · intro hi
    exact ⟨xs[i], hall _ (List.getElem_mem hi), List.getElem?_eq_getElem hi⟩

/-- The positions ascend by their values, and those of one value ascend. -/
theorem pairwise_buckets (hkeys : keys.Pairwise (· < ·)) (xs : List α) :
    (buckets keys xs).Pairwise fun i j => ∃ x y, xs[i]? = some x ∧ xs[j]? = some y ∧
      (x < y ∨ x = y ∧ i < j) := by
  rw [buckets, List.pairwise_flatMap]
  constructor
  · intro k _
    refine (pairwise_bucket xs k).imp_of_mem fun {i j} hi hj hlt => ?_
    exact ⟨k, k, mem_bucket.mp hi, mem_bucket.mp hj, Or.inr ⟨rfl, hlt⟩⟩
  · refine hkeys.imp fun {k k'} hlt i hi j hj => ?_
    exact ⟨k, k', mem_bucket.mp hi, mem_bucket.mp hj, Or.inl hlt⟩

end Buckets
