import Mathlib.Data.List.Induction
import Mathlib.Data.Nat.Size
import Mathlib.Tactic.Ring
import Mathlib.Tactic.Linarith

/-!
Big-endian octet strings. `ofOctets` reads a list of octets as a natural
number, `toOctets len` writes the low `len` octets of a number, and the two
are inverse on the numbers that fit. The minimal length of a number in octets
is derived from its bit size, which is what length-prefixed integers store.
-/

namespace BigEndian

/-- The number whose base-256 digits, most significant first, are `bs`. -/
def ofOctets (bs : List UInt8) : ℕ :=
  bs.foldl (fun n b => 256 * n + b.toNat) 0

/-- The low `len` octets of `n`, most significant first. -/
def toOctets : ℕ → ℕ → List UInt8
  | 0, _ => []
  | len + 1, n => toOctets len (n / 256) ++ [UInt8.ofNat n]

/-- Octets needed to hold a number of `bits` bits. -/
def octetsOfBits (bits : ℕ) : ℕ := (bits + 7) / 8

@[simp] theorem ofOctets_nil : ofOctets [] = 0 := rfl

@[simp] theorem toOctets_zero (n : ℕ) : toOctets 0 n = [] := rfl

theorem ofOctets_append_singleton (bs : List UInt8) (b : UInt8) :
    ofOctets (bs ++ [b]) = 256 * ofOctets bs + b.toNat := by
  simp [ofOctets]

@[simp] theorem length_toOctets (len n : ℕ) : (toOctets len n).length = len := by
  induction len generalizing n with
  | zero => rfl
  | succ len ih => simp [toOctets, ih]

theorem ofOctets_lt (bs : List UInt8) : ofOctets bs < 256 ^ bs.length := by
  induction bs using List.reverseRecOn with
  | nil => simp
  | append_singleton bs b ih =>
      rw [ofOctets_append_singleton, List.length_append, List.length_singleton, pow_succ]
      have hb := b.toNat_lt
      omega

theorem toOctets_ofOctets (bs : List UInt8) : toOctets bs.length (ofOctets bs) = bs := by
  induction bs using List.reverseRecOn with
  | nil => rfl
  | append_singleton bs b ih =>
      have hb := b.toNat_lt
      have hdiv : ofOctets (bs ++ [b]) / 256 = ofOctets bs := by
        rw [ofOctets_append_singleton]; omega
      have hlow : UInt8.ofNat (ofOctets (bs ++ [b])) = b := by
        apply UInt8.toNat_inj.mp
        rw [UInt8.toNat_ofNat', ofOctets_append_singleton]
        omega
      rw [List.length_append, List.length_singleton, toOctets, hdiv, ih, hlow]

theorem ofOctets_toOctets (len n : ℕ) : ofOctets (toOctets len n) = n % 256 ^ len := by
  induction len generalizing n with
  | zero => simp [Nat.mod_one]
  | succ len ih =>
      have hlow : (UInt8.ofNat n).toNat = n % 256 := by simp
      rw [toOctets, ofOctets_append_singleton, ih, hlow, pow_succ', Nat.mod_mul]
      omega

theorem ofOctets_toOctets_of_lt {len n : ℕ} (h : n < 256 ^ len) :
    ofOctets (toOctets len n) = n := by
  rw [ofOctets_toOctets, Nat.mod_eq_of_lt h]

@[simp] theorem ofOctets_zero_cons (bs : List UInt8) : ofOctets (0 :: bs) = ofOctets bs := rfl

theorem ofOctets_cons (b : UInt8) (bs : List UInt8) :
    ofOctets (b :: bs) = b.toNat * 256 ^ bs.length + ofOctets bs := by
  induction bs using List.reverseRecOn with
  | nil => simp [ofOctets]
  | append_singleton bs c ih =>
      rw [← List.cons_append, ofOctets_append_singleton, ih, ofOctets_append_singleton,
        List.length_append, List.length_singleton, pow_succ]
      ring

theorem toNat_le_ofOctets {b : UInt8} {bs : List UInt8} (h : b ∈ bs) : b.toNat ≤ ofOctets bs := by
  induction bs with
  | nil => cases h
  | cons c bs ih =>
      rw [ofOctets_cons]
      rcases List.mem_cons.mp h with rfl | h
      · exact Nat.le_add_right_of_le (Nat.le_mul_of_pos_right _ (pow_pos (by decide) _))
      · exact (ih h).trans (Nat.le_add_left _ _)

/-- A number of `bits` bits fits in `octetsOfBits bits` octets. -/
theorem lt_pow_octetsOfBits (n : ℕ) : n < 256 ^ octetsOfBits n.size := by
  have hsize : n < 2 ^ n.size := n.lt_size_self
  have hle : n.size ≤ 8 * octetsOfBits n.size := by unfold octetsOfBits; omega
  calc n < 2 ^ n.size := hsize
    _ ≤ 2 ^ (8 * octetsOfBits n.size) := Nat.pow_le_pow_right (by decide) hle
    _ = 256 ^ octetsOfBits n.size := by rw [pow_mul]; norm_num

/-- Stripping a number to its minimal octets and padding it back to the
length it was read from restores the octets: leading zeros are not lost. -/
theorem toOctets_strip (bs : List UInt8) :
    toOctets bs.length (ofOctets (toOctets (octetsOfBits (ofOctets bs).size) (ofOctets bs))) =
      bs := by
  rw [ofOctets_toOctets_of_lt (lt_pow_octetsOfBits _), toOctets_ofOctets]

theorem size_ofOctets_le (bs : List UInt8) : (ofOctets bs).size ≤ 8 * bs.length := by
  have h := ofOctets_lt bs
  rw [show (256 : ℕ) = 2 ^ 8 by norm_num, ← pow_mul] at h
  exact Nat.size_le.mpr h

end BigEndian
