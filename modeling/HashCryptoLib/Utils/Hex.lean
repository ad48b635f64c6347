import HashCryptoLib.Lib.Hex
import HashCryptoLib.Utils.OutputGuards

/-!
Hexadecimal texts read back. The decoder takes both cases, also within one text, and nothing
else: it accepts just the texts that are encodings once they are put into lower case.
-/

namespace HashCryptoLib.Utils

open Pgp (Status Buffer Fault ascii)
open Pgp.Status

/-! ### Decoding -/

/-- `none` is the source's −1. -/
def hexNibbleValue (character : UInt8) : Option ℕ :=
  if 48 ≤ character ∧ character ≤ 57 then some (character.toNat - 48)
  else if 97 ≤ character ∧ character ≤ 102 then some (character.toNat - 97 + 10)
  else if 65 ≤ character ∧ character ≤ 70 then some (character.toNat - 65 + 10)
  else none

/-- The loop over the pairs. A text of odd length is not asked for. -/
def decodePairs : Bytes → Option Bytes
  | high :: low :: rest => do
    let highNibble ← hexNibbleValue high
    let lowNibble ← hexNibbleValue low
    let others ← decodePairs rest
    pure (UInt8.ofNat (highNibble <<< 4 ||| lowNibble) :: others)
  | _ => some []

def HexDecode (inputString : Buffer) (buffer : Option Int32) : Except Fault Outcome :=
  let inputStringSize := inputString.1.length
  if inputStringSize % 2 ≠ 0 then .ok { status := INVALID_ARGUMENT }
  else
    withRoom (Int32.ofNat (inputStringSize / 2)) buffer fun capacity =>
      match decodePairs inputString.1 with
      | none => .ok { status := INVALID_DATA }
      | some data => fillWith data capacity

/-! ### Digits and their values -/

def lowerCase (character : UInt8) : UInt8 :=
  if 65 ≤ character ∧ character ≤ 70 then character + 32 else character

theorem hexNibbleValue_lt {character : UInt8} {nibble : ℕ}
    (h : hexNibbleValue character = some nibble) : nibble < 16 := by
  unfold hexNibbleValue at h
  simp only [UInt8.le_iff_toNat_le] at h
  split_ifs at h with hdigit hlower hupper <;> obtain rfl := Option.some.inj h
  · have hle : character.toNat ≤ 57 := hdigit.2
    omega
  · have hle : character.toNat ≤ 102 := hlower.2
    omega
  · have hle : character.toNat ≤ 70 := hupper.2
    omega

theorem hexNibbleValue_of_lt : ∀ character : UInt8, ∀ nibble < 16,
    hexNibbleValue character = some nibble ↔ lowerCase character = hexDigit false nibble := by
  decide +kernel

/-- A digit has a value where it is that value's digit, in either case. -/
theorem hexNibbleValue_iff (character : UInt8) (nibble : ℕ) :
    hexNibbleValue character = some nibble ↔
      nibble < 16 ∧ lowerCase character = hexDigit false nibble := by
  constructor
  · intro h
    have hlt := hexNibbleValue_lt h
    exact ⟨hlt, (hexNibbleValue_of_lt character nibble hlt).mp h⟩
  · rintro ⟨hlt, hdigit⟩
    exact (hexNibbleValue_of_lt character nibble hlt).mpr hdigit

theorem lowerCase_hexDigit (upperCase : Bool) :
    ∀ nibble < 16, lowerCase (hexDigit upperCase nibble) = hexDigit false nibble := by
  cases upperCase <;> decide

theorem hexEncode_eq (upperCase : Bool) (input : Bytes) :
    hexEncode upperCase input = Hex.encode (hexDigit upperCase) input := by
  refine List.flatMap_congr fun byteValue _ => ?_
  rw [Hex.toNat_and_fifteen, Hex.toNat_and_fifteen, Hex.toNat_shiftRight_four,
    Nat.mod_eq_of_lt (Hex.nibble_lt byteValue)]
  rfl

theorem decodePairs_eq (text : Bytes) : decodePairs text = Hex.decode hexNibbleValue text := by
  fun_induction Hex.decode hexNibbleValue text with
  | case1 high low rest ih =>
      rw [decodePairs, ih]
      cases hhigh : hexNibbleValue high with
      | none => rfl
      | some highNibble =>
      cases hlow : hexNibbleValue low with
      | none => rfl
      | some lowNibble =>
      have hor : highNibble <<< 4 ||| lowNibble = 16 * highNibble + lowNibble := by
        rw [← Nat.shiftLeft_add_eq_or_of_lt (hexNibbleValue_lt hlow), Nat.shiftLeft_eq]
        omega
      simp only [Option.bind_eq_bind, Option.bind_some, hor]
  | case2 text hshort =>
      unfold decodePairs
      split
      · exact absurd rfl (hshort _ _ _)
      · rfl

/-! ### What is accepted -/

theorem length_decodePairs {text data : Bytes} (heven : text.length % 2 = 0)
    (h : decodePairs text = some data) : data.length = text.length / 2 := by
  rw [decodePairs_eq, Hex.decode_eq_some_iff hexNibbleValue_iff data heven] at h
  have hlength := congrArg List.length h
  rw [List.length_map, Hex.length_encode] at hlength
  omega

theorem map_lowerCase_hexEncode (upperCase : Bool) (data : Bytes) :
    (hexEncode upperCase data).map lowerCase = hexEncode false data := by
  rw [hexEncode_eq, hexEncode_eq]
  induction data with
  | nil => rfl
  | cons byteValue data ih =>
      rw [Hex.encode_cons, List.map_cons, List.map_cons, ih, Hex.encode_cons,
        lowerCase_hexDigit upperCase _ (Hex.nibble_lt byteValue),
        lowerCase_hexDigit upperCase _ (Nat.mod_lt _ (by omega))]

/-- With room for them, a text is decoded to these octets exactly where it is their encoding in
lower case once it is put into lower case; so is the encoding in either case. -/
theorem HexDecode_iff (inputString : Buffer) (capacity : Int32) (data : Bytes) :
    (HexDecode inputString (some capacity) = .ok (written data) ↔
      (data.length : ℤ) ≤ capacity.toInt ∧
        inputString.1.map lowerCase = hexEncode false data) ∧
    ∀ upperCase, (hexEncode upperCase data).map lowerCase = hexEncode false data := by
  refine ⟨?_, fun upperCase => map_lowerCase_hexEncode upperCase data⟩
  have hsize := inputString.2
  have hroom : (Int32.ofNat (inputString.1.length / 2)).toInt = (inputString.1.length / 2 : ℕ) :=
    Int32.toInt_ofNat_of_lt (by omega)
  rw [hexEncode_eq]
  by_cases heven : inputString.1.length % 2 = 0
  · have hguard : capacity < Int32.ofNat (inputString.1.length / 2) ↔
        capacity.toInt < (inputString.1.length / 2 : ℕ) := by
      rw [Int32.lt_iff_toInt_lt, hroom]
    rw [HexDecode, if_neg (not_not.mpr heven), withRoom,
      ← Hex.decode_eq_some_iff hexNibbleValue_iff data heven, ← decodePairs_eq]
    cases hdecode : decodePairs inputString.1 with
    | none =>
        refine iff_of_false (fun h => ?_) fun h => absurd h.2 (Option.some_ne_none _).symm
        split_ifs at h <;> cases Except.ok.inj h
    | some octets =>
        have hlength := length_decodePairs heven hdecode
        dsimp only
        constructor
        · intro h
          split_ifs at h with hsmall
          · cases Except.ok.inj h
          · rw [hguard] at hsmall
            rw [fillWith, if_pos (by omega)] at h
            obtain rfl : octets = data := congrArg Outcome.output (Except.ok.inj h)
            exact ⟨by omega, rfl⟩
        · rintro ⟨hcapacity, hdata⟩
          obtain rfl := Option.some.inj hdata
          rw [if_neg (by rw [hguard]; omega), fillWith, if_pos hcapacity]
  · rw [HexDecode, if_pos heven]
    refine iff_of_false (fun h => by cases Except.ok.inj h) fun h => heven ?_
    have hlength := congrArg List.length h.2
    rw [List.length_map, Hex.length_encode] at hlength
    omega

end HashCryptoLib.Utils
