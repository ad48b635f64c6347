import Mathlib.Data.List.Induction
import Mathlib.Data.List.InsertIdx
import Mathlib.Data.List.Nodup
import Mathlib.Data.Nat.Cast.Basic
import Mathlib.Logic.Function.Basic

/-!
Programs over arrays in which an index outside its array is an outcome of its own. A run
returns a value, refuses its input, leaves an array, or has not ended within the rounds it
was given. The rules follow the shape of the program: sequences, counted loops, loops that end
by themselves, the counting sort's two passes. Some say what a run returns; there an array of
known size is written as a function, so that what holds before each pass of a loop says what
stands at each index. Others say only what a run keeps, and that it leaves no array.
-/

namespace CheckedArray

inductive Stop
  | refused
  | outside
  | unfinished
  deriving DecidableEq

abbrev Checked := Except Stop

variable {α β γ δ σ : Type}

def refuse : Checked α := .error .refused

/-- A program that reads no array: it returns or refuses. -/
def ofOption : Option α → Checked α
  | some a => .ok a
  | none => refuse

def readAt (xs : List α) (i : ℕ) : Checked α :=
  match xs[i]? with
  | some x => .ok x
  | none => .error .outside

def writeAt (xs : List α) (i : ℕ) (x : α) : Checked (List α) :=
  if i < xs.length then .ok (xs.set i x) else .error .outside

/-- `for (i = start; i < start + count; ++i)`. -/
def upFrom (body : ℕ → σ → Checked σ) : ℕ → ℕ → σ → Checked σ
  | _, 0, s => .ok s
  | start, count + 1, s => do upFrom body (start + 1) count (← body start s)

/-- `for (k = count; k > 0; --k)`. -/
def downFrom (body : ℕ → σ → Checked σ) : ℕ → σ → Checked σ
  | 0, s => .ok s
  | k + 1, s => do downFrom body k (← body (k + 1) s)

/-- A loop that ends by itself, cut off after so many rounds. -/
def rounds (body : σ → Checked (σ ⊕ α)) : ℕ → σ → Checked α
  | 0, _ => .error .unfinished
  | n + 1, s => do
    match ← body s with
    | .inl s => rounds body n s
    | .inr a => .ok a

@[simp] theorem ok_bind (a : α) (f : α → Checked β) : (Except.ok a >>= f : Checked β) = f a := rfl

@[simp] theorem ofOption_some (a : α) : ofOption (some a) = .ok a := rfl

@[simp] theorem refuse_bind (f : α → Checked β) : (refuse >>= f : Checked β) = refuse := rfl

/-! ### Loops -/

section Loops

/-- The state behind each pass, from the state behind the pass before it. -/
theorem upFrom_eq (body : ℕ → σ → Checked σ) (start count : ℕ) (state : ℕ → σ)
    (h : ∀ i, start ≤ i → i < start + count → body i (state i) = .ok (state (i + 1))) :
    upFrom body start count (state start) = .ok (state (start + count)) := by
  induction count generalizing start with
  | zero => rfl
  | succ count ih =>
      rw [upFrom, h start le_rfl (by omega), ok_bind,
        ih (start + 1) fun i hle hlt => h i (by omega) (by omega)]
      congr 2
      omega

theorem rounds_next {step : σ → Checked (σ ⊕ α)} {s s' : σ} (n : ℕ) (h : step s = .ok (.inl s')) :
    rounds step (n + 1) s = rounds step n s' := by
  rw [rounds, h]
  rfl

theorem rounds_end {step : σ → Checked (σ ⊕ α)} {s : σ} {a : α} (n : ℕ)
    (h : step s = .ok (.inr a)) : rounds step (n + 1) s = .ok a := by
  rw [rounds, h]
  rfl

theorem rounds_refuse {step : σ → Checked (σ ⊕ α)} {s : σ} (n : ℕ) (h : step s = refuse) :
    rounds step (n + 1) s = refuse := by
  rw [rounds, h]
  rfl

/-- The state behind so many rounds, none of which ends the loop. -/
def after (round : σ → Checked (σ ⊕ α)) : ℕ → σ → Option σ
  | 0, s => some s
  | n + 1, s =>
    match round s with
    | .ok (.inl s) => after round n s
    | _ => none

theorem rounds_after {round : σ → Checked (σ ⊕ α)} {n : ℕ} {s s' : σ} (left : ℕ)
    (h : after round n s = some s') : rounds round (n + left) s = rounds round left s' := by
  induction n generalizing s with
  | zero =>
      obtain rfl := Option.some.inj h
      rw [Nat.zero_add]
  | succ n ih =>
      rw [after] at h
      split at h
      · rename_i hround
        rw [Nat.add_right_comm, rounds_next _ hround, ih h]
      · cases h

end Loops

/-! ### Arrays as functions -/

section Tabulate

variable {n i : ℕ} {f g : ℕ → α}

/-- The array of this size with `f i` at each index `i`. -/
def tabulate (n : ℕ) (f : ℕ → α) : List α := (List.range n).map f

@[simp] theorem length_tabulate (n : ℕ) (f : ℕ → α) : (tabulate n f).length = n := by
  rw [tabulate, List.length_map, List.length_range]

theorem getElem?_tabulate (hi : i < n) : (tabulate n f)[i]? = some (f i) := by
  rw [tabulate, List.getElem?_map, List.getElem?_range hi]
  rfl

/-- An array is what its entries are. -/
theorem eq_tabulate {xs : List α} (hlength : xs.length = n) (h : ∀ i < n, xs[i]? = some (f i)) :
    xs = tabulate n f := by
  apply List.ext_getElem?
  intro i
  by_cases hi : i < n
  · rw [h i hi, getElem?_tabulate hi]
  · rw [List.getElem?_eq_none (by omega), List.getElem?_eq_none (by rw [length_tabulate]; omega)]

theorem tabulate_congr (h : ∀ i < n, f i = g i) : tabulate n f = tabulate n g :=
  List.map_congr_left fun i hi => h i (List.mem_range.mp hi)

theorem replicate_eq_tabulate (n : ℕ) (x : α) : List.replicate n x = tabulate n fun _ => x :=
  eq_tabulate List.length_replicate fun _ hi => by rw [List.getElem?_replicate, if_pos hi]

theorem readAt_of_getElem? {xs : List α} {x : α} (h : xs[i]? = some x) : readAt xs i = .ok x := by
  rw [readAt, h]

theorem readAt_tabulate (hi : i < n) : readAt (tabulate n f) i = .ok (f i) :=
  readAt_of_getElem? (getElem?_tabulate hi)

/-- A write changes the function where it writes. -/
theorem writeAt_tabulate (hi : i < n) (x : α) :
    writeAt (tabulate n f) i x = .ok (tabulate n (Function.update f i x)) := by
  rw [writeAt, length_tabulate, if_pos hi]
  apply congrArg Except.ok
  apply eq_tabulate
  · rw [List.length_set, length_tabulate]
  · intro k hk
    rw [List.getElem?_set, length_tabulate]
    by_cases hik : i = k
    · subst hik
      rw [if_pos rfl, if_pos hi, Function.update_self]
    · rw [if_neg hik, getElem?_tabulate hk, Function.update_of_ne (Ne.symm hik)]

/-- A write that makes one function of another. -/
theorem writeAt_tabulate_eq (hi : i < n) {x : α} (hat : g i = x)
    (hothers : ∀ k < n, k ≠ i → g k = f k) :
    writeAt (tabulate n f) i x = .ok (tabulate n g) := by
  rw [writeAt_tabulate hi]
  apply congrArg Except.ok
  apply tabulate_congr
  intro k hk
  by_cases hki : k = i
  · rw [hki, Function.update_self, hat]
  · rw [Function.update_of_ne hki, hothers k hk hki]

end Tabulate

/-- A write that changes what a function makes of one entry. -/
theorem writeAt_map {xs : List α} {f g : α → β} {i : ℕ} {x : α} {y : β} (hnodup : xs.Nodup)
    (hget : xs[i]? = some x) (hat : g x = y) (hothers : ∀ z ∈ xs, z ≠ x → g z = f z) :
    writeAt (xs.map f) i y = .ok (xs.map g) := by
  obtain ⟨hi, rfl⟩ := List.getElem?_eq_some_iff.mp hget
  rw [writeAt, List.length_map, if_pos hi]
  apply congrArg Except.ok
  apply List.ext_getElem
  · rw [List.length_set, List.length_map, List.length_map]
  · intro k _ hk
    rw [List.length_map] at hk
    rw [List.getElem_set, List.getElem_map, List.getElem_map]
    split_ifs with hik
    · subst hik
      exact hat.symm
    · refine (hothers _ (List.getElem_mem hk) fun heq => hik ?_).symm
      exact (hnodup.getElem_inj_iff.mp heq).symm

/-! ### Counting -/

section Counting

variable [AddMonoidWithOne α]

/-- `for (i = 0; i < count; ++i) cells[keys[i] + 1]++`. -/
def countUp (keys : List ℕ) (count : ℕ) (cells : List α) : Checked (List α) :=
  upFrom (fun i cells => do
    let key ← readAt keys i
    writeAt cells (key + 1) ((← readAt cells (key + 1)) + 1)) 0 count cells

/-- `for (i = 1; i <= count; ++i) cells[i] += cells[i - 1]`. -/
def sumUp (count : ℕ) (cells : List α) : Checked (List α) :=
  upFrom (fun i cells => do
    writeAt cells i ((← readAt cells i) + (← readAt cells (i - 1)))) 1 count cells

variable {n : ℕ} {keys : List ℕ}

/-- How often the key in front of this index occurs. -/
def countBelow (keys : List ℕ) (i : ℕ) : ℕ := if i = 0 then 0 else keys.count (i - 1)

theorem countUp_eq (hkeys : ∀ key ∈ keys, key + 1 < n) :
    countUp keys keys.length (List.replicate n (0 : α)) =
      .ok (tabulate n fun i => (countBelow keys i : α)) := by
  have hloop := upFrom_eq (fun i cells => do
      let key ← readAt keys i
      writeAt cells (key + 1) ((← readAt cells (key + 1)) + 1))
    0 keys.length (fun i => tabulate n fun k => (countBelow (keys.take i) k : α))
    (by
      intro i _ hi
      rw [Nat.zero_add] at hi
      have hkey := hkeys _ (List.getElem_mem hi)
      rw [readAt_of_getElem? (List.getElem?_eq_getElem hi), ok_bind, readAt_tabulate hkey, ok_bind]
      have hnext (k : ℕ) : countBelow (keys.take (i + 1)) k =
          countBelow (keys.take i) k + if k = keys[i] + 1 then 1 else 0 := by
        rw [List.take_add_one, List.getElem?_eq_getElem hi, countBelow, countBelow]
        cases k with
        | zero => rfl
        | succ k =>
            rw [if_neg (Nat.succ_ne_zero k), if_neg (Nat.succ_ne_zero k), Nat.add_sub_cancel,
              List.count_append, Option.toList_some, List.count_singleton]
            simp only [Nat.add_right_cancel_iff, beq_iff_eq, @eq_comm _ k]
      apply writeAt_tabulate_eq hkey
      · rw [hnext, if_pos rfl, Nat.cast_add, Nat.cast_one]
      · intro k _ hk
        rw [hnext, if_neg hk, Nat.add_zero])
  rw [Nat.zero_add, List.take_length] at hloop
  rw [countUp, replicate_eq_tabulate]
  convert hloop using 3
  funext k
  simp [countBelow]

theorem countP_lt_succ (keys : List ℕ) (k : ℕ) :
    keys.countP (· < k + 1) = keys.countP (· < k) + keys.count k := by
  induction keys with
  | nil => rfl
  | cons key keys ih =>
      rw [List.countP_cons, List.countP_cons, List.count_cons, ih]
      rcases Nat.lt_trichotomy key k with hlt | rfl | hlt
      · simp [hlt, Nat.ne_of_lt hlt, Nat.lt_succ_of_lt hlt]
        omega
      · simp
        omega
      · simp [Nat.ne_of_gt hlt, Nat.not_lt.mpr (Nat.le_of_lt hlt),
          Nat.not_lt.mpr (show k + 1 ≤ key from hlt)]

/-- The sums are the numbers of smaller keys. -/
theorem sumUp_eq (hn : 0 < n) :
    sumUp (n - 1) (tabulate n fun i => (countBelow keys i : α)) =
      .ok (tabulate n fun i => (keys.countP (· < i) : α)) := by
  have hloop := upFrom_eq (fun i cells => do
      writeAt cells i ((← readAt cells i) + (← readAt cells (i - 1))))
    1 (n - 1) (fun i => tabulate n fun k =>
      ((if k < i then keys.countP (· < k) else countBelow keys k : ℕ) : α))
    (by
      intro i hi hlt
      obtain ⟨k, rfl⟩ := Nat.exists_eq_add_of_le' hi
      rw [readAt_tabulate (by omega), ok_bind, readAt_tabulate (by omega), ok_bind]
      apply writeAt_tabulate_eq (by omega)
      · rw [if_pos (Nat.lt_succ_self _), if_neg (lt_irrefl _), if_pos (by omega), ← Nat.cast_add,
          Nat.add_sub_cancel, countBelow, if_neg (Nat.succ_ne_zero k), Nat.add_sub_cancel,
          countP_lt_succ, Nat.add_comm]
      · intro j _ hj
        by_cases hlt : j < k + 1
        · rw [if_pos hlt, if_pos (by omega)]
        · rw [if_neg hlt, if_neg (by omega)])
  have hstart : (tabulate n fun k =>
      ((if k < 1 then keys.countP (· < k) else countBelow keys k : ℕ) : α)) =
        tabulate n fun k => (countBelow keys k : α) := by
    apply tabulate_congr
    intro k _
    cases k with
    | zero => simp [countBelow]
    | succ k => rw [if_neg (by omega)]
  have hend : (tabulate n fun k =>
      ((if k < 1 + (n - 1) then keys.countP (· < k) else countBelow keys k : ℕ) : α)) =
        tabulate n fun k => (keys.countP (· < k) : α) :=
    tabulate_congr fun k hk => by rw [if_pos (by omega)]
  rw [hstart, hend] at hloop
  exact hloop

end Counting

/-! ### Filling an array -/

section Filled

variable {n : ℕ} {xs : List α} {blank : α}

/-- An array whose first entries are written, the others being blank. -/
def filled (n : ℕ) (blank : α) (xs : List α) : List α := xs ++ List.replicate (n - xs.length) blank

theorem filled_nil (n : ℕ) (blank : α) : filled n blank [] = List.replicate n blank := rfl

theorem filled_full (h : xs.length = n) : filled n blank xs = xs := by
  rw [filled, h, Nat.sub_self, List.replicate_zero, List.append_nil]

theorem writeAt_filled (h : xs.length < n) (x : α) :
    writeAt (filled n blank xs) xs.length x = .ok (filled n blank (xs ++ [x])) := by
  obtain ⟨left, hleft⟩ : ∃ left, n - xs.length = left + 1 := ⟨n - xs.length - 1, by omega⟩
  have hnext : n - (xs ++ [x]).length = left := by
    rw [List.length_append, List.length_singleton]
    omega
  rw [filled, filled, hnext, hleft, writeAt, if_pos (by simp), List.set_append_right _ _ le_rfl,
    Nat.sub_self, List.replicate_succ, List.set_cons_zero, List.append_assoc,
    List.singleton_append]

end Filled

/-! ### What a run shows -/

/-- The run stays inside its arrays and ends; what it returns is as `post` says, and it
refuses only where it may. -/
inductive Meets (mayRefuse : Prop) (post : α → Prop) : Checked α → Prop
  | returns {a : α} (h : post a) : Meets mayRefuse post (.ok a)
  | refuses (h : mayRefuse) : Meets mayRefuse post refuse

section Meets

variable {mayRefuse : Prop} {post : α → Prop} {post' : β → Prop} {run : Checked α}

theorem Meets.inside (h : Meets mayRefuse post run) : run ≠ .error .outside := by
  intro hrun
  subst hrun
  cases h

theorem Meets.ends (h : Meets mayRefuse post run) : run ≠ .error .unfinished := by
  intro hrun
  subst hrun
  cases h

theorem Meets.of_ok (h : Meets mayRefuse post run) {a : α} (hrun : run = .ok a) : post a := by
  subst hrun
  cases h with
  | returns h => exact h

theorem Meets.exists_ok (h : Meets False post run) : ∃ a, run = .ok a ∧ post a := by
  cases h with
  | returns h => exact ⟨_, rfl, h⟩
  | refuses h => exact h.elim

theorem Meets.mono {weaker : α → Prop} (h : Meets mayRefuse post run)
    (himp : ∀ a, post a → weaker a) : Meets mayRefuse weaker run := by
  cases h with
  | returns h => exact .returns (himp _ h)
  | refuses h => exact .refuses h

theorem Meets.relax (h : Meets False post run) : Meets mayRefuse post run := by
  cases h with
  | returns h => exact .returns h
  | refuses h => exact h.elim

theorem Meets.bind {f : α → Checked β} (h : Meets mayRefuse post run)
    (hnext : ∀ a, post a → Meets mayRefuse post' (f a)) : Meets mayRefuse post' (run >>= f) := by
  cases h with
  | returns h => exact hnext _ h
  | refuses h => exact .refuses h

/-- A run may refuse where that is allowed for another reason. -/
theorem Meets.weaken {mayRefuse' : Prop} (h : Meets mayRefuse post run)
    (himp : mayRefuse → mayRefuse') : Meets mayRefuse' post run := by
  cases h with
  | returns h => exact .returns h
  | refuses h => exact .refuses (himp h)

theorem Meets.and {also : α → Prop} (h : Meets mayRefuse post run) (h' : Meets True also run) :
    Meets mayRefuse (fun a => post a ∧ also a) run := by
  cases h with
  | returns h => exact .returns ⟨h, h'.of_ok rfl⟩
  | refuses h => exact .refuses h

/-- A run that refuses where there is no result, and returns the result where there is one. -/
theorem Meets.eq_ofOption {result : Option α} (h : Meets (result = none) (result = some ·) run) :
    run = ofOption result := by
  cases h with
  | returns h =>
      rw [h]
      rfl
  | refuses h =>
      rw [h]
      rfl

theorem meets_ofOption {result : Option α} (h : ∀ a, result = some a → post a) :
    Meets True post (ofOption result) := by
  cases result with
  | none => exact .refuses trivial
  | some a => exact .returns (h a rfl)

variable {body : ℕ → σ → Checked σ} {s : σ}

theorem meets_upFrom (inv : ℕ → σ → Prop) {start count : ℕ} (hstart : inv start s)
    (hpass : ∀ i s, start ≤ i → i < start + count → inv i s →
      Meets mayRefuse (inv (i + 1)) (body i s)) :
    Meets mayRefuse (inv (start + count)) (upFrom body start count s) := by
  induction count generalizing start s with
  | zero => exact .returns hstart
  | succ count ih =>
      refine (hpass start s le_rfl (by omega) hstart).bind fun s' hs' => ?_
      have hrest := ih hs' fun i s hle hlt => hpass i s (by omega) (by omega)
      rwa [Nat.add_assoc, Nat.add_comm 1] at hrest

theorem meets_downFrom (inv : σ → Prop) {count : ℕ} (hstart : inv s)
    (hpass : ∀ k s, 0 < k → k ≤ count → inv s → Meets mayRefuse inv (body k s)) :
    Meets mayRefuse inv (downFrom body count s) := by
  induction count generalizing s with
  | zero => exact .returns hstart
  | succ count ih =>
      refine (hpass (count + 1) s (by omega) le_rfl hstart).bind fun s' hs' => ?_
      exact ih hs' fun k s hpos hle => hpass k s hpos (by omega)

/-- A loop whose every round leaves less to do ends by itself. -/
theorem meets_rounds (inv : σ → Prop) (left : σ → ℕ) {round : σ → Checked (σ ⊕ α)} {n : ℕ}
    (hround : ∀ s, inv s →
      Meets mayRefuse (Sum.elim (fun s' => inv s' ∧ left s' < left s) post) (round s))
    (hs : inv s) (hleft : left s < n) : Meets mayRefuse post (rounds round n s) := by
  induction n generalizing s with
  | zero => omega
  | succ n ih =>
      refine (hround s hs).bind fun result hresult => ?_
      cases result with
      | inl s' => exact ih hresult.1 (by have := hresult.2; omega)
      | inr a => exact .returns hresult

end Meets

/-! ### Arrays of one kind of entries -/

/-- An array of `n` entries that all satisfy `p`. -/
structure Holding (n : ℕ) (p : α → Prop) (xs : List α) : Prop where
  length : xs.length = n
  all : ∀ x ∈ xs, p x

section Holding

variable {mayRefuse : Prop} {n i : ℕ} {p : α → Prop} {xs : List α}

theorem holding_replicate {x : α} (hx : p x) : Holding n p (List.replicate n x) :=
  ⟨List.length_replicate, fun _ hy => List.eq_of_mem_replicate hy ▸ hx⟩

theorem Holding.readAt (h : Holding n p xs) (hi : i < n) :
    Meets mayRefuse p (CheckedArray.readAt xs i) := by
  rw [← h.length] at hi
  rw [readAt_of_getElem? (List.getElem?_eq_getElem hi)]
  exact .returns (h.all _ (List.getElem_mem hi))

theorem Holding.writeAt (h : Holding n p xs) (hi : i < n) {x : α} (hx : p x) :
    Meets mayRefuse (Holding n p) (CheckedArray.writeAt xs i x) := by
  rw [CheckedArray.writeAt, if_pos (h.length.symm ▸ hi)]
  refine .returns ⟨by rw [List.length_set, h.length], fun y hy => ?_⟩
  rcases List.mem_or_eq_of_mem_set hy with hmem | rfl
  · exact h.all y hmem
  · exact hx

end Holding

/-! ### Moving to the front -/

/-- `value = xs[j]; for (k = j; k > 0; --k) xs[k] = xs[k - 1]; xs[0] = value`. -/
def shiftToFront (xs : List α) (j : ℕ) : Checked (α × List α) := do
  let value ← readAt xs j
  let xs ← downFrom (fun k xs => do writeAt xs k (← readAt xs (k - 1))) j xs
  let xs ← writeAt xs 0 value
  pure (value, xs)

theorem Holding.shiftToFront {mayRefuse : Prop} {n j : ℕ} {p : α → Prop} {xs : List α}
    (h : Holding n p xs) (hj : j < n) :
    Meets mayRefuse (fun moved => p moved.1 ∧ Holding n p moved.2)
      (CheckedArray.shiftToFront xs j) := by
  refine (h.readAt hj).bind fun value hvalue => ?_
  have hshift : Meets mayRefuse (Holding n p)
      (downFrom (fun k xs => do CheckedArray.writeAt xs k (← CheckedArray.readAt xs (k - 1))) j
        xs) := by
    refine meets_downFrom (Holding n p) h fun k ys hpos hle hys => ?_
    exact (hys.readAt (by omega)).bind fun x hx => hys.writeAt (by omega) hx
  refine hshift.bind fun ys hys => ?_
  refine (hys.writeAt (by omega) hvalue).bind fun zs hzs => ?_
  exact .returns ⟨hvalue, hzs⟩

/-- The entries in front move up by one; the first of them is left where it was. -/
theorem downFrom_shift (front : List α) (x : α) (behind : List α) :
    ∃ first, downFrom (fun k xs => do writeAt xs k (← readAt xs (k - 1))) front.length
      (front ++ x :: behind) = .ok (first :: (front ++ behind)) := by
  induction front using List.reverseRecOn generalizing x behind with
  | nil => exact ⟨x, rfl⟩
  | append_singleton front y ih =>
      obtain ⟨first, hrest⟩ := ih y (y :: behind)
      have hread : readAt (front ++ [y] ++ x :: behind) front.length = .ok y :=
        readAt_of_getElem? (by simp)
      have hwrite : writeAt (front ++ [y] ++ x :: behind) (front.length + 1) y =
          .ok (front ++ y :: y :: behind) := by
        rw [writeAt, if_pos (by simp), List.append_assoc, List.set_append_right _ _ (by omega),
          Nat.add_sub_cancel_left]
        rfl
      refine ⟨first, ?_⟩
      rw [List.length_append, List.length_singleton, downFrom, Nat.add_sub_cancel, hread, ok_bind,
        hwrite, ok_bind, hrest, List.append_assoc]
      rfl

theorem shiftToFront_eq {xs : List α} {j : ℕ} {x : α} (h : xs[j]? = some x) :
    shiftToFront xs j = .ok (x, x :: xs.eraseIdx j) := by
  obtain ⟨hj, rfl⟩ := List.getElem?_eq_some_iff.mp h
  have hsplit : xs.take j ++ xs[j] :: xs.drop (j + 1) = xs := by
    rw [← List.drop_eq_getElem_cons hj, List.take_append_drop]
  obtain ⟨first, hshift⟩ := downFrom_shift (xs.take j) xs[j] (xs.drop (j + 1))
  rw [List.length_take_of_le (Nat.le_of_lt hj), hsplit] at hshift
  rw [shiftToFront, readAt_of_getElem? h, ok_bind, hshift, ok_bind, writeAt,
    List.length_cons, if_pos (Nat.succ_pos _), List.set_cons_zero, ok_bind,
    List.eraseIdx_eq_take_drop_succ]
  rfl

/-! ### Arrays that are written from the front -/

/-- The first `k` entries are written and satisfy `p`. -/
def FilledUpTo (n : ℕ) (blank : α) (p : α → Prop) (k : ℕ) (xs : List α) : Prop :=
  ∃ done, xs = filled n blank done ∧ done.length = k ∧ ∀ x ∈ done, p x

section FilledUpTo

variable {mayRefuse : Prop} {n k : ℕ} {blank : α} {p : α → Prop} {xs : List α}

theorem filledUpTo_zero : FilledUpTo n blank p 0 (List.replicate n blank) :=
  ⟨[], rfl, rfl, List.forall_mem_nil p⟩

theorem FilledUpTo.writeAt (h : FilledUpTo n blank p k xs) (hk : k < n) {x : α} (hx : p x) :
    Meets mayRefuse (FilledUpTo n blank p (k + 1)) (CheckedArray.writeAt xs k x) := by
  obtain ⟨done, rfl, rfl, hdone⟩ := h
  rw [writeAt_filled hk]
  refine .returns ⟨done ++ [x], rfl, List.length_append, fun y hy => ?_⟩
  rcases List.mem_append.mp hy with hmem | hmem
  · exact hdone y hmem
  · rw [List.mem_singleton.mp hmem]
    exact hx

theorem FilledUpTo.holding (h : FilledUpTo n blank p n xs) : Holding n p xs := by
  obtain ⟨done, rfl, hlength, hdone⟩ := h
  rw [filled_full hlength]
  exact ⟨hlength, hdone⟩

end FilledUpTo

end CheckedArray
