import HashCryptoLib.Pgp.KeyPacket
import Mathlib.Data.Stream.Init

/-!
The iterated and salted string-to-key. The salt and the password are hashed over and over until
the count is used up, one call for each copy, the last copy cut short; together the calls hash
a part of the endless repetition, and never less than one copy.
-/

namespace HashCryptoLib.Pgp

/-! ### Endless repetition -/

section Cycle

variable {α : Type*} {period : List α} (hne : period ≠ [])

theorem take_cycle_of_le {n : ℕ} (h : n ≤ period.length) :
    (Stream'.cycle period hne).take n = period.take n := by
  rw [Stream'.cycle_eq]
  exact Stream'.take_append_of_le_length _ _ _ h

theorem take_cycle_add (n : ℕ) :
    (Stream'.cycle period hne).take (period.length + n) =
      period ++ (Stream'.cycle period hne).take n := by
  rw [Stream'.append_take, ← Stream'.cycle_eq]

end Cycle

/-! ### The calls to the hash -/

/-- What the loop hands to `hash.Update`, one call after the other. -/
def s2kUpdates (saltedPassword : Bytes) (hne : saltedPassword ≠ []) (remaining : ℕ) :
    List Bytes :=
  if remaining = 0 then []
  else
    let chunk := min remaining saltedPassword.length
    saltedPassword.take chunk :: s2kUpdates saltedPassword hne (remaining - chunk)
termination_by remaining
decreasing_by
  have := List.length_pos_iff.mpr hne
  omega

theorem flatten_s2kUpdates {saltedPassword : Bytes} (hne : saltedPassword ≠ []) (remaining : ℕ) :
    (s2kUpdates saltedPassword hne remaining).flatten =
      (Stream'.cycle saltedPassword hne).take remaining := by
  induction remaining using Nat.strong_induction_on with
  | _ remaining ih =>
      have hpos := List.length_pos_iff.mpr hne
      rw [s2kUpdates]
      split_ifs with hnone
      · rw [hnone]
        rfl
      · rw [List.flatten_cons]
        rcases Nat.le_total remaining saltedPassword.length with hlast | hwhole
        · rw [Nat.min_eq_left hlast, Nat.sub_self, ih 0 (by omega), take_cycle_of_le hne hlast]
          exact List.append_nil _
        · -- a whole copy, and as many octets less
          obtain ⟨rest, rfl⟩ := Nat.exists_eq_add_of_le hwhole
          rw [Nat.min_eq_right hwhole, List.take_length, Nat.add_sub_cancel_left,
            ih rest (by omega), take_cycle_add]

theorem s2kOctets_eq_flatten {saltedPassword : Bytes} (hne : saltedPassword ≠ [])
    (remaining : ℕ) :
    s2kOctets saltedPassword hne remaining =
      (s2kUpdates saltedPassword hne remaining).flatten := by
  induction remaining using Nat.strong_induction_on with
  | _ remaining ih =>
      have hpos := List.length_pos_iff.mpr hne
      rw [s2kOctets, s2kUpdates]
      split_ifs with hnone
      · rfl
      · dsimp only
        rw [List.flatten_cons, ih _ (by omega)]

/-- A hash that takes its input in pieces has seen the same input in the end. -/
theorem foldl_s2kUpdates {σ : Type*} {update : σ → Bytes → σ}
    (hnil : ∀ hash, update hash [] = hash)
    (happend : ∀ hash first second, update (update hash first) second =
      update hash (first ++ second))
    {saltedPassword : Bytes} (hne : saltedPassword ≠ []) (remaining : ℕ) (hash : σ) :
    (s2kUpdates saltedPassword hne remaining).foldl update hash =
      update hash ((Stream'.cycle saltedPassword hne).take remaining) := by
  rw [← flatten_s2kUpdates]
  induction s2kUpdates saltedPassword hne remaining generalizing hash with
  | nil => exact (hnil hash).symm
  | cons chunk chunks ih => rw [List.foldl_cons, ih, happend, List.flatten_cons]

/-! ### The derived key -/

/-- The count that an octet stands for. -/
def decodedCount (countCoded : UInt8) : ℕ :=
  (16 + countCoded.toNat % 16) * 2 ^ (countCoded.toNat / 16 + 6)

theorem decodedCount_eq (countCoded : UInt8) :
    (16 + (countCoded &&& 15).toNat) * 2 ^ ((countCoded >>> 4).toNat + 6) =
      decodedCount countCoded := by
  have hlow : (countCoded &&& 15).toNat = countCoded.toNat % 16 :=
    Nat.and_two_pow_sub_one_eq_mod countCoded.toNat 4
  have hhigh : (countCoded >>> 4).toNat = countCoded.toNat / 16 := by
    rw [UInt8.toNat_shiftRight]
    exact Nat.shiftRight_eq_div_pow countCoded.toNat 4
  rw [hlow, hhigh, decodedCount]

example : decodedCount 0x60 = 65536 := by rfl

theorem salted_ne_nil (salt : Octets 8) (password : Bytes) : salt.1 ++ password ≠ [] := by
  rw [← List.length_pos_iff, List.length_append, salt.2]
  omega

/-- How many octets are hashed. -/
def hashedCount (countCoded : UInt8) (salt : Octets 8) (password : Bytes) : ℕ :=
  max (decodedCount countCoded) (salt.1.length + password.length)

/-- The key is cut from the digest of the endless repetition of salt and password, as far as
the count goes, and the calls to the hash add up to that. -/
theorem deriveS2kKey_hashes_cycle (P : Primitives) (password : Bytes) (salt : Octets 8)
    (countCoded : UInt8) (keySize : ℕ) :
    (s2kUpdates (salt.1 ++ password) (salted_ne_nil salt password)
        (hashedCount countCoded salt password)).flatten =
      (Stream'.cycle (salt.1 ++ password) (salted_ne_nil salt password)).take
        (hashedCount countCoded salt password) ∧
    deriveS2kKey P password salt countCoded keySize =
      (P.sha256 ((Stream'.cycle (salt.1 ++ password) (salted_ne_nil salt password)).take
        (hashedCount countCoded salt password))).1.take keySize := by
  refine ⟨flatten_s2kUpdates _ _, ?_⟩
  have hremaining : (if decodedCount countCoded < (salt.1 ++ password).length then
      (salt.1 ++ password).length else decodedCount countCoded) =
        hashedCount countCoded salt password := by
    rw [hashedCount, ← List.length_append]
    split_ifs with hshort
    · exact (Nat.max_eq_right hshort.le).symm
    · exact (Nat.max_eq_left (not_lt.mp hshort)).symm
  rw [deriveS2kKey]
  simp only [decodedCount_eq, hremaining, s2kOctets_eq_flatten, flatten_s2kUpdates]

end HashCryptoLib.Pgp
