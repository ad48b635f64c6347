import HashCryptoLib.Utils.Padding

/-!
The guards in front of the output buffers. Each call works out in `int`s how much room it
needs and compares the capacity with that; where the sum wraps round the guard lets the
caller's buffer through, and the call writes past its end.
-/

namespace HashCryptoLib.Utils

open Pgp (Status Buffer Fault base64Encode length_base64Encode ascii)
open Pgp.Status

/-! ### Hexadecimal digits -/

def lowerCaseDigits : Bytes := ascii "0123456789abcdef"

def upperCaseDigits : Bytes := ascii "0123456789ABCDEF"

def hexDigit (upperCase : Bool) (nibble : ℕ) : UInt8 :=
  (if upperCase then upperCaseDigits else lowerCaseDigits).getD nibble 0

def hexEncode (upperCase : Bool) (input : Bytes) : Bytes :=
  input.flatMap fun (byteValue : UInt8) =>
    [hexDigit upperCase (byteValue >>> 4 &&& 0x0F).toNat,
      hexDigit upperCase (byteValue &&& 0x0F).toNat]

def HexEncode (upperCase : Bool) (input : Buffer) (buffer : Option Int32) :
    Except Fault Outcome :=
  withRoom (bufferSize input * 2) buffer (fillWith (hexEncode upperCase input.1))

@[simp] theorem length_hexEncode (upperCase : Bool) (input : Bytes) :
    (hexEncode upperCase input).length = 2 * input.length := by
  induction input with
  | nil => rfl
  | cons byteValue input ih =>
      rw [hexEncode, List.flatMap_cons, List.length_append, ← hexEncode, ih, List.length_cons]
      simp only [List.length_cons, List.length_nil]
      omega

example : hexEncode true [0x00, 0x9F, 0xA0] = ascii "009FA0" := by decide

/-! ### What a caller relies on -/

/-- A call that needs `exactSize` octets succeeds only where there is room for them, and
however it ends it has written nothing past the end of the room. -/
def KeepsWithin (exactSize : ℕ) (buffer : Option Int32) : Except Fault Outcome → Prop
  | .error _ => False
  | .ok outcome =>
    (outcome.status = NO_ERROR → ∃ capacity ∈ buffer, exactSize ≤ capacity.toInt) ∧
      (outcome.output = [] ∨ ∃ capacity ∈ buffer, outcome.output.length ≤ capacity.toInt)

/-- The buffer is null or smaller than `size`, which a wrapped size may make impossible. -/
def Refused (size : ℤ) (buffer : Option Int32) : Prop :=
  ∀ capacity ∈ buffer, capacity.toInt < size

theorem keepsWithin_of_failed {exactSize : ℕ} {buffer : Option Int32} {outcome : Outcome}
    (hstatus : outcome.status ≠ NO_ERROR) (houtput : outcome.output = []) :
    KeepsWithin exactSize buffer (.ok outcome) :=
  ⟨fun h => absurd h hstatus, .inl houtput⟩

/-- The guard does its work unless the size it looks at is not the size that is written. -/
theorem keepsWithin_withRoom {exactSize : ℕ} {requiredSize : Int32} {buffer : Option Int32}
    {data : Bytes} (hlength : data.length = exactSize)
    (hrequired : exactSize < 2 ^ 31 → requiredSize.toInt = exactSize) :
    KeepsWithin exactSize buffer (withRoom requiredSize buffer (fillWith data)) ↔
      exactSize < 2 ^ 31 ∨ Refused requiredSize.toInt buffer := by
  have hfailed : BUFFER_TOO_SMALL ≠ NO_ERROR := by decide
  cases buffer with
  | none => exact iff_of_true (keepsWithin_of_failed hfailed rfl) (.inr fun _ h => by cases h)
  | some capacity =>
      rw [withRoom]
      split_ifs with hsmall
      · rw [Int32.lt_iff_toInt_lt] at hsmall
        refine iff_of_true (keepsWithin_of_failed hfailed rfl) (.inr ?_)
        simpa [Refused] using hsmall
      · rw [Int32.lt_iff_toInt_lt] at hsmall
        have hcapacity := capacity.toInt_lt
        rw [fillWith]
        split_ifs with hfits
        · refine iff_of_true ⟨fun _ => ⟨capacity, rfl, ?_⟩, .inr ⟨capacity, rfl, hfits⟩⟩ (.inl ?_)
          · exact hlength ▸ hfits
          · omega
        · -- the guard has passed a buffer that is too small
          refine iff_of_false not_false ?_
          rintro (hexact | hrefused)
          · have := hrequired hexact
            omega
          · exact hsmall (hrefused capacity rfl)

/-! ### The sizes as the calls work them out -/

/-- An `int` that was to hold a size just out of its reach. -/
theorem bmod_of_size {n : ℕ} (hlow : 2 ^ 31 ≤ n) (hhigh : n < 2 ^ 32) :
    (n : ℤ).bmod (2 ^ 32) = (n : ℤ) - 2 ^ 32 := by
  calc (n : ℤ).bmod (2 ^ 32)
      = Int.bmod (n - (2 ^ 32 : ℕ)) (2 ^ 32) := (Int.sub_bmod_right _ _).symm
    _ = n - (2 ^ 32 : ℕ) := Int.bmod_eq_of_le (by omega) (by omega)

theorem doubledSize_toInt {n : ℕ} (hn : n < 2 ^ 31) :
    (Int32.ofNat n * 2).toInt = ((2 * n : ℕ) : ℤ).bmod (2 ^ 32) := by
  rw [Int32.toInt_mul, Int32.toInt_ofNat_of_lt hn, show (2 : Int32).toInt = 2 from rfl,
    Nat.cast_mul, Int.mul_comm]
  rfl

theorem encodedSize_toInt_largest {n : ℕ} (hlow : 2 ^ 31 ≤ n + 2) (hhigh : n < 2 ^ 31) :
    ((Int32.ofNat n + 2) / 3 * 4).toInt = 1431655768 := by
  have hcases : n = 2 ^ 31 - 2 ∨ n = 2 ^ 31 - 1 := by omega
  rcases hcases with rfl | rfl <;> rfl

theorem paddedSize_toInt (n length : ℕ) :
    (Int32.ofNat (n + length)).toInt = ((n + length : ℕ) : ℤ).bmod (2 ^ 32) :=
  Int32.toInt_ofNat

/-! ### The three calls -/

/-- A call whose size wraps at most once. -/
theorem keepsWithin_of_bmod {exactSize : ℕ} {requiredSize : Int32} {buffer : Option Int32}
    {data : Bytes} (hlength : data.length = exactSize) (hsize : exactSize < 2 ^ 32)
    (hrequired : requiredSize.toInt = (exactSize : ℤ).bmod (2 ^ 32)) :
    KeepsWithin exactSize buffer (withRoom requiredSize buffer (fillWith data)) ↔
      exactSize < 2 ^ 31 ∨ Refused (exactSize - 2 ^ 32) buffer := by
  rw [keepsWithin_withRoom hlength fun h => hrequired.trans (bmod_of_lt h)]
  by_cases h : exactSize < 2 ^ 31
  · exact iff_of_true (.inl h) (.inl h)
  · rw [hrequired, bmod_of_size (by omega) hsize]

theorem HexEncode_keepsWithin (upperCase : Bool) (input : Buffer) (buffer : Option Int32) :
    KeepsWithin (2 * input.1.length) buffer (HexEncode upperCase input buffer) ↔
      2 * input.1.length < 2 ^ 31 ∨ Refused ((2 * input.1.length : ℕ) - 2 ^ 32) buffer := by
  have hinput := input.2
  exact keepsWithin_of_bmod (length_hexEncode upperCase input.1) (by omega)
    (doubledSize_toInt hinput)

theorem Base64Encode_keepsWithin (input : Buffer) (buffer : Option Int32) :
    KeepsWithin (4 * ((input.1.length + 2) / 3)) buffer (Base64Encode input buffer) ↔
      4 * ((input.1.length + 2) / 3) < 2 ^ 31 ∨
        Refused (if input.1.length + 2 < 2 ^ 31 then
          (4 * ((input.1.length + 2) / 3) : ℕ) - 2 ^ 32 else 1431655768) buffer := by
  have hinput := input.2
  split_ifs with h
  · exact keepsWithin_of_bmod (length_base64Encode input.1) (by omega) (encodedSize_toInt_bmod h)
  · rw [Base64Encode, keepsWithin_withRoom (length_base64Encode input.1) (by omega),
      bufferSize, encodedSize_toInt_largest (by omega) hinput]

theorem padLength_le {scheme : PaddingScheme} {blockSize size length : ℕ}
    (h : padLength scheme blockSize size = some length) : length ≤ blockSize := by
  cases scheme with
  | PADDING_NONE =>
      simp only [padLength] at h
      split_ifs at h
      obtain rfl := Option.some.inj h
      exact Nat.zero_le _
  | PADDING_ZERO =>
      obtain rfl := Option.some.inj h
      split_ifs
      · exact Nat.zero_le _
      · exact Nat.sub_le _ _
  | _ =>
      obtain rfl := Option.some.inj h
      exact Nat.sub_le _ _

theorem Pad_keepsWithin (rand : ℕ → UInt8) (scheme : PaddingScheme) (blockSize : ℕ)
    (input : Buffer) (buffer : Option Int32) :
    KeepsWithin (input.1.length + (padLength scheme blockSize input.1.length).getD 0) buffer
        (Pad rand scheme blockSize input buffer) ↔
      (blockSize = 0 ∨ 255 < blockSize ∨ padLength scheme blockSize input.1.length = none) ∨
        ∀ length ∈ padLength scheme blockSize input.1.length,
          input.1.length + length < 2 ^ 31 ∨
            Refused ((input.1.length + length : ℕ) - 2 ^ 32) buffer := by
  rw [Pad]
  split_ifs with hblock
  · refine iff_of_true (keepsWithin_of_failed (by decide) rfl) (.inl ?_)
    exact hblock.imp_right .inl
  · cases hlength : padLength scheme blockSize input.1.length with
    | none => exact iff_of_true (keepsWithin_of_failed (by decide) rfl) (.inl (.inr (.inr rfl)))
    | some length =>
        have hinput := input.2
        have hle := padLength_le hlength
        have hpadded : (input.1 ++ padding rand scheme length).length =
            input.1.length + length := by
          rw [List.length_append, length_padding (by omega) hlength]
        rw [Option.getD_some, keepsWithin_of_bmod hpadded (by omega) (paddedSize_toInt _ _)]
        simp only [Option.mem_def, Option.some.injEq, forall_eq', reduceCtorEq, or_false]
        tauto

/-- Each call keeps to the buffer exactly when the size it needs is an `int`, or it turns the
request down: for its arguments, or because even the wrapped size does not fit. -/
theorem encoders_keepWithin (upperCase : Bool) (rand : ℕ → UInt8) (scheme : PaddingScheme)
    (blockSize : ℕ) (input : Buffer) (buffer : Option Int32) :
    (KeepsWithin (2 * input.1.length) buffer (HexEncode upperCase input buffer) ↔
      2 * input.1.length < 2 ^ 31 ∨ Refused ((2 * input.1.length : ℕ) - 2 ^ 32) buffer) ∧
    (KeepsWithin (4 * ((input.1.length + 2) / 3)) buffer (Base64Encode input buffer) ↔
      4 * ((input.1.length + 2) / 3) < 2 ^ 31 ∨
        Refused (if input.1.length + 2 < 2 ^ 31 then
          (4 * ((input.1.length + 2) / 3) : ℕ) - 2 ^ 32 else 1431655768) buffer) ∧
    (KeepsWithin (input.1.length + (padLength scheme blockSize input.1.length).getD 0) buffer
        (Pad rand scheme blockSize input buffer) ↔
      (blockSize = 0 ∨ 255 < blockSize ∨ padLength scheme blockSize input.1.length = none) ∨
        ∀ length ∈ padLength scheme blockSize input.1.length,
          input.1.length + length < 2 ^ 31 ∨
            Refused ((input.1.length + length : ℕ) - 2 ^ 32) buffer) :=
  ⟨HexEncode_keepsWithin upperCase input buffer, Base64Encode_keepsWithin input buffer,
    Pad_keepsWithin rand scheme blockSize input buffer⟩

def zeros (n : ℕ) (h : n < 2 ^ 31) : Buffer :=
  ⟨List.replicate n 0, by rwa [List.length_replicate]⟩

@[simp] theorem length_zeros (n : ℕ) (h : n < 2 ^ 31) : (zeros n h).1.length = n :=
  List.length_replicate

theorem not_refused_of_le {size : ℤ} {capacity : Int32} (h : size ≤ capacity.toInt) :
    ¬ Refused size (some capacity) := fun hrefused => by
  have := hrefused capacity rfl
  omega

/-- The shortest inputs whose digits outgrow an `int`, and the longest input, with no room at
all: each of the calls goes on to write. -/
theorem encoders_write_past_room :
    ¬ KeepsWithin (2 * 2 ^ 30) (some 0)
        (HexEncode false (zeros (2 ^ 30) (by decide)) (some 0)) ∧
      ¬ KeepsWithin (4 * 2 ^ 29) (some 0)
        (Base64Encode (zeros (3 * 2 ^ 29 - 2) (by decide)) (some 0)) ∧
      ¬ KeepsWithin (2 ^ 31 - 1 + 1) (some 0)
        (Pad (fun _ => 0) .PADDING_PKCS7 16 (zeros (2 ^ 31 - 1) (by decide)) (some 0)) := by
  refine ⟨?_, ?_, ?_⟩
  · have h := HexEncode_keepsWithin false (zeros (2 ^ 30) (by decide)) (some 0)
    rw [length_zeros] at h
    rw [h, not_or]
    exact ⟨by norm_num, not_refused_of_le (by decide)⟩
  · have h := Base64Encode_keepsWithin (zeros (3 * 2 ^ 29 - 2) (by decide)) (some 0)
    rw [length_zeros] at h
    rw [show 4 * 2 ^ 29 = 4 * ((3 * 2 ^ 29 - 2 + 2) / 3) by norm_num, h, not_or]
    exact ⟨by norm_num, not_refused_of_le (by decide)⟩
  · have h := Pad_keepsWithin (fun _ => 0) .PADDING_PKCS7 16 (zeros (2 ^ 31 - 1) (by decide))
      (some 0)
    have hone : padLength .PADDING_PKCS7 16 (2 ^ 31 - 1) = some 1 := by decide
    rw [length_zeros, hone, Option.getD_some] at h
    rw [h, not_or]
    refine ⟨by simp, fun hall => ?_⟩
    exact (hall 1 rfl).elim (by norm_num) (not_refused_of_le (by decide))

end HashCryptoLib.Utils
