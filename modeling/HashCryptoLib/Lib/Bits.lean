import Mathlib.Algebra.Order.Ring.Nat
import Mathlib.Data.List.Induction

/-!
Numbers as bits, high bit first, and canonical codes. A canonical code is given by
the lengths of its codewords: the codewords of one length are consecutive numbers in
the order of their symbols, and they start where the shorter codewords leave off.
-/

namespace Bits

def ofBits (bits : List Bool) : ℕ := bits.foldl (fun value bit => 2 * value + bit.toNat) 0

def toBits : ℕ → ℕ → List Bool
  | 0, _ => []
  | n + 1, value => toBits n (value / 2) ++ [value % 2 == 1]

@[simp] theorem length_toBits (n value : ℕ) : (toBits n value).length = n := by
  induction n generalizing value with
  | zero => rfl
  | succ n ih => rw [toBits, List.length_append, ih, List.length_singleton]

theorem ofBits_append_singleton (bits : List Bool) (bit : Bool) :
    ofBits (bits ++ [bit]) = 2 * ofBits bits + bit.toNat := by
  rw [ofBits, List.foldl_append]
  rfl

theorem toNat_low_bit (value : ℕ) : (value % 2 == 1).toNat = value % 2 := by
  rcases Nat.mod_two_eq_zero_or_one value with h | h <;> rw [h] <;> rfl

theorem ofBits_toBits {n value : ℕ} (h : value < 2 ^ n) : ofBits (toBits n value) = value := by
  induction n generalizing value with
  | zero =>
      obtain rfl := Nat.lt_one_iff.mp h
      rfl
  | succ n ih =>
      have hhalf : value / 2 < 2 ^ n := by
        rw [pow_succ] at h
        omega
      rw [toBits, ofBits_append_singleton, ih hhalf, toNat_low_bit]
      omega

theorem toBits_add (m n value : ℕ) :
    toBits (m + n) value = toBits m (value / 2 ^ n) ++ toBits n value := by
  induction n generalizing value with
  | zero => rw [Nat.add_zero, pow_zero, Nat.div_one, toBits, List.append_nil]
  | succ n ih =>
      rw [← Nat.add_assoc, toBits, ih, toBits, List.append_assoc, Nat.div_div_eq_div_mul, pow_succ']

/-- The leading bit of a word that is not empty. -/
theorem toBits_succ_eq_cons (n value : ℕ) :
    toBits (n + 1) value = (value / 2 ^ n % 2 == 1) :: toBits n value := by
  rw [Nat.add_comm, toBits_add]
  rfl

theorem ofBits_lt (bits : List Bool) : ofBits bits < 2 ^ bits.length := by
  induction bits using List.reverseRecOn with
  | nil => exact Nat.one_pos
  | append_singleton bits bit ih =>
      have hbit := bit.toNat_le
      rw [ofBits_append_singleton, List.length_append, List.length_singleton, pow_succ]
      omega

theorem ofBits_append (bits more : List Bool) :
    ofBits (bits ++ more) = ofBits bits * 2 ^ more.length + ofBits more := by
  induction more using List.reverseRecOn with
  | nil => rw [List.append_nil, List.length_nil, pow_zero, Nat.mul_one]; rfl
  | append_singleton more bit ih =>
      rw [← List.append_assoc, ofBits_append_singleton, ih, ofBits_append_singleton,
        List.length_append, List.length_singleton, pow_succ, Nat.mul_add, ← Nat.add_assoc,
        Nat.mul_comm 2 (_ * _), Nat.mul_assoc]

/-- The bits of a number that was read, counted from the low end. -/
theorem testBit_ofBits (bits behind : List Bool) (bit : Bool) :
    (ofBits (bits ++ bit :: behind)).testBit behind.length = bit := by
  have hlow := ofBits_lt behind
  rw [← List.singleton_append, ← List.append_assoc, ofBits_append, ofBits_append_singleton,
    Nat.mul_comm, Nat.testBit_two_pow_mul_add _ hlow, if_neg (lt_irrefl _), Nat.sub_self]
  cases bit <;> simp [Nat.testBit_zero]

theorem testBit_ofBits_range (f : ℕ → Bool) {len i : ℕ} (hi : i < len) :
    (ofBits ((List.range len).map f)).testBit (len - 1 - i) = f i := by
  obtain ⟨n, rfl⟩ : ∃ n, len = i + (n + 1) := ⟨len - i - 1, by omega⟩
  have hsplit : (List.range (i + (n + 1))).map f =
      (List.range i).map f ++ f i :: (List.range n).map fun k => f (i + (k + 1)) := by
    rw [List.range_add, List.map_append, List.range_succ_eq_map, List.map_cons, List.map_cons,
      Nat.add_zero, List.map_map, List.map_map]
    rfl
  have hbit := testBit_ofBits ((List.range i).map f) ((List.range n).map fun k => f (i + (k + 1))) (f i)
  rw [List.length_map, List.length_range] at hbit
  rw [hsplit, show i + (n + 1) - 1 - i = n by omega, hbit]

end Bits

namespace CanonicalCode

open Bits

/-- How many words of `len` bits start with a codeword of at most that length. -/
def codesUpTo (lengths : List ℕ) (len : ℕ) : ℕ :=
  (lengths.map fun m => if m ≤ len then 2 ^ (len - m) else 0).sum

/-- The first codeword of a length: the words before it start with a shorter codeword. -/
def firstCode (lengths : List ℕ) (len : ℕ) : ℕ :=
  (lengths.map fun m => if m < len then 2 ^ (len - m) else 0).sum

def codeValue (lengths : List ℕ) (symbol len : ℕ) : ℕ :=
  firstCode lengths len + (lengths.take symbol).count len

/-- The codeword of a symbol, no bits for what is not a symbol. -/
def codeword (lengths : List ℕ) (symbol : ℕ) : List Bool :=
  match lengths[symbol]? with
  | some len => toBits len (codeValue lengths symbol len)
  | none => []

/-- No word is used twice: the codewords of at most `bound` bits fill no more than there is. -/
def Kraft (bound : ℕ) (lengths : List ℕ) : Prop :=
  (∀ len ∈ lengths, len ≤ bound) ∧ (lengths.map fun len => 2 ^ (bound - len)).sum ≤ 2 ^ bound

variable {lengths : List ℕ} {symbol len bound : ℕ}

theorem codesUpTo_eq (lengths : List ℕ) (len : ℕ) :
    codesUpTo lengths len = firstCode lengths len + lengths.count len := by
  induction lengths with
  | nil => rfl
  | cons m lengths ih =>
      simp only [codesUpTo, firstCode, List.map_cons, List.sum_cons, List.count_cons] at ih ⊢
      rw [ih]
      rcases Nat.lt_trichotomy m len with h | rfl | h
      · simp [h, h.le, h.ne]
        omega
      · simp
        omega
      · simp [h.not_ge, h.not_gt, h.ne']

theorem firstCode_succ (lengths : List ℕ) (len : ℕ) :
    firstCode lengths (len + 1) = 2 * codesUpTo lengths len := by
  induction lengths with
  | nil => rfl
  | cons m lengths ih =>
      simp only [codesUpTo, firstCode, List.map_cons, List.sum_cons, Nat.lt_succ_iff] at ih ⊢
      rw [ih, Nat.mul_add]
      by_cases h : m ≤ len
      · rw [if_pos h, if_pos h, Nat.succ_sub h, pow_succ']
      · rw [if_neg h, if_neg h]

/-- The words that start with a codeword of at most `len` bits come before the first codeword of
any greater length. -/
theorem mul_codesUpTo_le (lengths : List ℕ) (len more : ℕ) :
    2 ^ (more + 1) * codesUpTo lengths len ≤ firstCode lengths (len + (more + 1)) := by
  induction lengths with
  | nil => exact Nat.le_refl 0
  | cons m lengths ih =>
      simp only [codesUpTo, firstCode, List.map_cons, List.sum_cons] at ih ⊢
      rw [Nat.mul_add]
      refine Nat.add_le_add ?_ ih
      by_cases h : m ≤ len
      · rw [if_pos h, if_pos (by omega), ← pow_add]
        exact Nat.pow_le_pow_right (by decide) (by omega)
      · rw [if_neg h, Nat.mul_zero]
        exact Nat.zero_le _

/-- Only so many words have `len` bits. -/
theorem codesUpTo_le (h : Kraft bound lengths) (hlen : len ≤ bound) :
    codesUpTo lengths len ≤ 2 ^ len := by
  have hsum : 2 ^ (bound - len) * codesUpTo lengths len ≤
      (lengths.map fun m => 2 ^ (bound - m)).sum := by
    clear h
    induction lengths with
    | nil => exact Nat.le_refl 0
    | cons m lengths ih =>
        simp only [codesUpTo, List.map_cons, List.sum_cons] at ih ⊢
        rw [Nat.mul_add]
        refine Nat.add_le_add ?_ ih
        by_cases hm : m ≤ len
        · rw [if_pos hm, ← pow_add]
          exact Nat.pow_le_pow_right (by decide) (by omega)
        · rw [if_neg hm, Nat.mul_zero]
          exact Nat.zero_le _
  have hall : 2 ^ (bound - len) * codesUpTo lengths len ≤ 2 ^ (bound - len) * 2 ^ len := by
    rw [← pow_add, Nat.sub_add_cancel hlen]
    exact hsum.trans h.2
  exact Nat.le_of_mul_le_mul_left hall (Nat.two_pow_pos _)

theorem count_take_lt (h : lengths[symbol]? = some len) :
    (lengths.take symbol).count len < lengths.count len := by
  obtain ⟨hlt, hget⟩ := List.getElem?_eq_some_iff.mp h
  conv_rhs => rw [← List.take_append_drop symbol lengths]
  rw [List.count_append, List.drop_eq_getElem_cons hlt, hget, List.count_cons_self]
  omega

theorem codeValue_lt (h : lengths[symbol]? = some len) :
    codeValue lengths symbol len < codesUpTo lengths len := by
  rw [codesUpTo_eq]
  exact Nat.add_lt_add_left (count_take_lt h) _

end CanonicalCode
