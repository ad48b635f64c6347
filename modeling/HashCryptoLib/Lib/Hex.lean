import Mathlib.Data.List.Basic

/-!
Octets written as pairs of digits, the high one first, over any alphabet. A reader that knows
the value of every digit reads them back; one that takes more than one digit for a value
accepts what is an encoding once its digits are put into one form.
-/

namespace Hex

variable {α : Type*}

/-- The two digits of an octet. -/
def pair (digit : ℕ → α) (octet : UInt8) : List α :=
  [digit (octet.toNat / 16), digit (octet.toNat % 16)]

def encode (digit : ℕ → α) (octets : List UInt8) : List α := octets.flatMap (pair digit)

/-- Two digits at a time. A single one at the end is not read. -/
def decode (value : α → Option ℕ) : List α → Option (List UInt8)
  | high :: low :: rest => do
    let highNibble ← value high
    let lowNibble ← value low
    let octets ← decode value rest
    pure (UInt8.ofNat (16 * highNibble + lowNibble) :: octets)
  | _ => some []

section Encode

variable {digit : ℕ → α}

@[simp] theorem encode_nil : encode digit [] = [] := rfl

@[simp] theorem encode_cons (octet : UInt8) (octets : List UInt8) :
    encode digit (octet :: octets) =
      digit (octet.toNat / 16) :: digit (octet.toNat % 16) :: encode digit octets := rfl

@[simp] theorem length_encode (octets : List UInt8) :
    (encode digit octets).length = 2 * octets.length := by
  induction octets with
  | nil => rfl
  | cons octet octets ih =>
      simp only [encode_cons, List.length_cons, ih]
      omega

theorem toNat_shiftRight_four (octet : UInt8) : (octet >>> 4).toNat = octet.toNat / 16 := by
  rw [UInt8.toNat_shiftRight, Nat.shiftRight_eq_div_pow]
  rfl

theorem toNat_and_fifteen (octet : UInt8) : (octet &&& 0xF).toNat = octet.toNat % 16 := by
  rw [UInt8.toNat_and]
  exact Nat.and_two_pow_sub_one_eq_mod octet.toNat 4

theorem nibble_lt (octet : UInt8) : octet.toNat / 16 < 16 := by
  have hlt := octet.toNat_lt
  omega

theorem ofNat_nibbles (octet : UInt8) :
    UInt8.ofNat (16 * (octet.toNat / 16) + octet.toNat % 16) = octet := by
  rw [Nat.div_add_mod, UInt8.ofNat_toNat]

end Encode

section Decode

variable {digit : ℕ → α} {value : α → Option ℕ}

/-- What is written is read back, where every digit has its value. -/
theorem decode_encode (hvalue : ∀ n < 16, value (digit n) = some n) (octets : List UInt8) :
    decode value (encode digit octets) = some octets := by
  induction octets with
  | nil => rfl
  | cons octet octets ih =>
      have hhigh := hvalue _ (nibble_lt octet)
      have hlow := hvalue _ (Nat.mod_lt octet.toNat (show 0 < 16 by omega))
      rw [encode_cons, decode, hhigh, hlow, ih]
      exact congrArg (fun octet => some (octet :: octets)) (ofNat_nibbles octet)

theorem encode_injective (hvalue : ∀ n < 16, value (digit n) = some n) :
    Function.Injective (encode digit) := by
  intro octets octets' h
  have hdecode := congrArg (decode value) h
  rw [decode_encode hvalue, decode_encode hvalue] at hdecode
  exact Option.some.inj hdecode

/-- What is read is what is written, once each digit is put into the form it is written in. -/
theorem decode_eq_some_iff {form : α → α}
    (hvalue : ∀ character n, value character = some n ↔ n < 16 ∧ form character = digit n)
    (octets : List UInt8) : ∀ {text : List α}, text.length % 2 = 0 →
      (decode value text = some octets ↔ text.map form = encode digit octets) := by
  induction octets with
  | nil =>
      intro text heven
      cases text with
      | nil => simp [decode]
      | cons high text =>
      cases text with
      | nil => simp at heven
      | cons low text => simp [decode, Option.bind_eq_some_iff]
  | cons octet octets ih =>
      intro text heven
      cases text with
      | nil => simp [decode]
      | cons high text =>
      cases text with
      | nil => simp at heven
      | cons low text =>
      simp only [List.length_cons] at heven
      have hrest := @ih text (by omega)
      simp only [decode, Option.bind_eq_bind, Option.bind_eq_some_iff, Option.pure_def,
        Option.some.injEq, List.cons.injEq, List.map_cons, encode_cons]
      constructor
      · rintro ⟨highNibble, hhigh, lowNibble, hlow, others, hothers, rfl, rfl⟩
        obtain ⟨hhighLt, hhigh⟩ := (hvalue _ _).mp hhigh
        obtain ⟨hlowLt, hlow⟩ := (hvalue _ _).mp hlow
        have htoNat : (UInt8.ofNat (16 * highNibble + lowNibble)).toNat =
            16 * highNibble + lowNibble := by
          rw [UInt8.toNat_ofNat']
          exact Nat.mod_eq_of_lt (by omega)
        rw [htoNat, show (16 * highNibble + lowNibble) / 16 = highNibble by omega,
          show (16 * highNibble + lowNibble) % 16 = lowNibble by omega]
        exact ⟨hhigh, hlow, hrest.mp hothers⟩
      · rintro ⟨hhigh, hlow, hothers⟩
        exact ⟨_, (hvalue _ _).mpr ⟨nibble_lt octet, hhigh⟩, _,
          (hvalue _ _).mpr ⟨Nat.mod_lt _ (by omega), hlow⟩, octets, hrest.mpr hothers,
          ofNat_nibbles octet, rfl⟩

end Decode

end Hex
