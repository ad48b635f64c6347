import HashCryptoLib.Utils.Base64
import Mathlib.Data.List.DropRight

/-!
Padding to whole blocks and back. Three of the schemes say at the end how much they have
added, one sets a marker in front of zeros; for these a text that is accepted is taken apart
into data and padding, and the two calls are read off from that.
-/

namespace HashCryptoLib.Utils

open Pgp (Status Buffer Fault)
open Pgp.Status

inductive PaddingScheme
  | PADDING_PKCS7
  | PADDING_PKCS5
  | PADDING_ANSI_X923
  | PADDING_ISO_10126
  | PADDING_ISO_97971
  | PADDING_ZERO
  | PADDING_NONE
  deriving DecidableEq, Repr

open PaddingScheme

/-! ### Padding -/

/-- How many octets are added, `none` where the size does not do. -/
def padLength (scheme : PaddingScheme) (blockSize inputBufferSize : ℕ) : Option ℕ :=
  let remainder := inputBufferSize % blockSize
  match scheme with
  | PADDING_NONE => if remainder ≠ 0 then none else some 0
  | PADDING_ZERO => some (if remainder = 0 then 0 else blockSize - remainder)
  | _ => some (blockSize - remainder)

/-- What is added. `rand` is the generator that fills up the padding of ISO 10126. -/
def padding (rand : ℕ → UInt8) (scheme : PaddingScheme) (length : ℕ) : Bytes :=
  match scheme with
  | PADDING_NONE => []
  | PADDING_ZERO => List.replicate length 0
  | PADDING_PKCS7 | PADDING_PKCS5 => List.replicate length (UInt8.ofNat length)
  | PADDING_ANSI_X923 => List.replicate (length - 1) 0 ++ [UInt8.ofNat length]
  | PADDING_ISO_10126 => (List.range (length - 1)).map rand ++ [UInt8.ofNat length]
  | PADDING_ISO_97971 => 0x80 :: List.replicate (length - 1) 0

def Pad (rand : ℕ → UInt8) (scheme : PaddingScheme) (blockSize : ℕ) (input : Buffer)
    (buffer : Option Int32) : Except Fault Outcome :=
  if blockSize = 0 ∨ 255 < blockSize then .ok { status := INVALID_ARGUMENT }
  else
    match padLength scheme blockSize input.1.length with
    | none => .ok { status := INVALID_ARGUMENT }
    | some length =>
      withRoom (Int32.ofNat (input.1.length + length)) buffer
        (fillWith (input.1 ++ padding rand scheme length))

/-- The schemes whose last octet is the length of the padding. -/
def withPadValue (blockSize : ℕ) (input : Bytes) (accepts : UInt8 → Bytes → Bool) : Option ℕ :=
  let padValue := input.getLast?.getD 0
  if padValue = 0 ∨ blockSize < padValue.toNat ∨ input.length < padValue.toNat then none
  else if accepts padValue (input.rtake padValue.toNat) then some (input.length - padValue.toNat)
  else none

/-- How much of a padded text is data, `none` for malformed padding. -/
def dataLength (scheme : PaddingScheme) (blockSize : ℕ) (input : Bytes) : Option ℕ :=
  match scheme with
  | PADDING_NONE => some input.length
  | PADDING_ZERO => some (input.rdropWhile (· = 0)).length
  | PADDING_PKCS7 | PADDING_PKCS5 =>
    withPadValue blockSize input fun padValue last => last.all (· = padValue)
  | PADDING_ANSI_X923 => withPadValue blockSize input fun _ last => last.dropLast.all (· = 0)
  | PADDING_ISO_10126 => withPadValue blockSize input fun _ _ => true
  | PADDING_ISO_97971 =>
    -- the zeros are stepped over however many they are
    let marked := input.rdropWhile (· = 0)
    if marked.getLast? = some 0x80 then some (marked.length - 1) else none

def Unpad (scheme : PaddingScheme) (blockSize : ℕ) (input : Buffer) (buffer : Option Int32) :
    Except Fault Outcome :=
  if blockSize = 0 ∨ 255 < blockSize then .ok { status := INVALID_ARGUMENT }
  else if input.1.length = 0 ∨ input.1.length % blockSize ≠ 0 then
    .ok { status := INVALID_ARGUMENT }
  else
    match dataLength scheme blockSize input.1 with
    | none => .ok { status := INVALID_DATA }
    | some length => withRoom (Int32.ofNat length) buffer (fillWith (input.1.take length))

/-! ### What the two calls answer -/

theorem withRoom_queried {size : ℕ} {data data' : Bytes} (hsize : data.length = size) :
    queried (fun buffer => withRoom (Int32.ofNat size) buffer (fillWith data)) =
        .ok (written data') ↔ data' = data ∧ size < 2 ^ 31 := by
  constructor
  · intro h
    obtain ⟨buffer, hwritten⟩ := written_of_queried h
    rw [← hsize]
    exact withRoom_written hwritten
  · rintro ⟨rfl, hlt⟩
    apply queried_written
    rw [Int32.toInt_ofNat_of_lt hlt, hsize]

theorem length_padding {rand : ℕ → UInt8} {scheme : PaddingScheme} {blockSize size length : ℕ}
    (hblock : 0 < blockSize) (h : padLength scheme blockSize size = some length) :
    (padding rand scheme length).length = length := by
  have hrest := Nat.mod_lt size hblock
  cases scheme with
  | PADDING_NONE =>
      rw [padLength] at h
      split_ifs at h
      exact Option.some.inj h
  | PADDING_ZERO => simp [padding]
  | PADDING_PKCS7 => simp [padding]
  | PADDING_PKCS5 => simp [padding]
  | PADDING_ANSI_X923 | PADDING_ISO_10126 | PADDING_ISO_97971 =>
      obtain rfl := Option.some.inj h
      simp only [padding, List.length_append, List.length_cons, List.length_nil,
        List.length_replicate, List.length_map, List.length_range]
      omega

theorem Pad_queried {rand : ℕ → UInt8} {scheme : PaddingScheme} {blockSize : ℕ} {input : Buffer}
    {data : Bytes} :
    queried (Pad rand scheme blockSize input) = .ok (written data) ↔
      (0 < blockSize ∧ blockSize ≤ 255) ∧
        ∃ length, padLength scheme blockSize input.1.length = some length ∧
          input.1.length + length < 2 ^ 31 ∧ data = input.1 ++ padding rand scheme length := by
  by_cases hblock : blockSize = 0 ∨ 255 < blockSize
  · have hcall : Pad rand scheme blockSize input = fun _ => .ok { status := INVALID_ARGUMENT } := by
      funext buffer
      rw [Pad, if_pos hblock]
    rw [hcall]
    refine iff_of_false (fun h => nomatch h) (fun h => ?_)
    omega
  · have hin : 0 < blockSize ∧ blockSize ≤ 255 := by omega
    cases hlength : padLength scheme blockSize input.1.length with
    | none =>
        have hcall : Pad rand scheme blockSize input =
            fun _ => .ok { status := INVALID_ARGUMENT } := by
          funext buffer
          rw [Pad, if_neg hblock, hlength]
        rw [hcall]
        exact iff_of_false (fun h => nomatch h) (fun ⟨_, _, h, _⟩ => nomatch h)
    | some length =>
        have hcall : Pad rand scheme blockSize input = fun buffer =>
            withRoom (Int32.ofNat (input.1.length + length)) buffer
              (fillWith (input.1 ++ padding rand scheme length)) := by
          funext buffer
          rw [Pad, if_neg hblock, hlength]
        rw [hcall, withRoom_queried (by rw [List.length_append, length_padding hin.1 hlength])]
        simp [hin, and_comm]

theorem dataLength_le {scheme : PaddingScheme} {blockSize length : ℕ} {input : Bytes}
    (h : dataLength scheme blockSize input = some length) : length ≤ input.length := by
  have hpadValue : ∀ accepts, withPadValue blockSize input accepts = some length →
      length ≤ input.length := by
    intro accepts h
    rw [withPadValue] at h
    split_ifs at h
    obtain rfl := Option.some.inj h
    exact Nat.sub_le _ _
  have hzeros := (List.rdropWhile_prefix (fun c : UInt8 => decide (c = 0)) input).length_le
  cases scheme with
  | PADDING_NONE => exact (Option.some.inj h).ge
  | PADDING_ZERO => exact (Option.some.inj h) ▸ hzeros
  | PADDING_ISO_97971 =>
      simp only [dataLength] at h
      split_ifs at h
      obtain rfl := Option.some.inj h
      omega
  | PADDING_PKCS7 | PADDING_PKCS5 | PADDING_ANSI_X923 | PADDING_ISO_10126 =>
      simp only [dataLength] at h
      exact hpadValue _ h

theorem Unpad_queried {scheme : PaddingScheme} {blockSize : ℕ} {input : Buffer} {data : Bytes} :
    queried (Unpad scheme blockSize input) = .ok (written data) ↔
      (0 < blockSize ∧ blockSize ≤ 255) ∧ (input.1 ≠ [] ∧ input.1.length % blockSize = 0) ∧
        ∃ length, dataLength scheme blockSize input.1 = some length ∧
          data = input.1.take length := by
  by_cases hblock : blockSize = 0 ∨ 255 < blockSize
  · have hcall : Unpad scheme blockSize input = fun _ => .ok { status := INVALID_ARGUMENT } := by
      funext buffer
      rw [Unpad, if_pos hblock]
    rw [hcall]
    refine iff_of_false (fun h => nomatch h) (fun h => ?_)
    omega
  have hin : 0 < blockSize ∧ blockSize ≤ 255 := by omega
  by_cases hinput : input.1.length = 0 ∨ input.1.length % blockSize ≠ 0
  · have hcall : Unpad scheme blockSize input = fun _ => .ok { status := INVALID_ARGUMENT } := by
      funext buffer
      rw [Unpad, if_neg hblock, if_pos hinput]
    rw [hcall]
    refine iff_of_false (fun h => nomatch h) (fun ⟨_, ⟨hne, hmod⟩, _⟩ => ?_)
    exact hinput.elim (fun h0 => hne (List.length_eq_zero_iff.mp h0)) (fun h0 => h0 hmod)
  have hwhole : input.1 ≠ [] ∧ input.1.length % blockSize = 0 := by
    rwa [not_or, not_not, ← ne_eq, List.length_eq_zero_iff.ne] at hinput
  cases hlength : dataLength scheme blockSize input.1 with
  | none =>
      have hcall : Unpad scheme blockSize input = fun _ => .ok { status := INVALID_DATA } := by
        funext buffer
        rw [Unpad, if_neg hblock, if_neg hinput, hlength]
      rw [hcall]
      exact iff_of_false (fun h => nomatch h) (fun ⟨_, _, _, h, _⟩ => nomatch h)
  | some length =>
      have hcall : Unpad scheme blockSize input = fun buffer =>
          withRoom (Int32.ofNat length) buffer (fillWith (input.1.take length)) := by
        funext buffer
        rw [Unpad, if_neg hblock, if_neg hinput, hlength]
      have hle := dataLength_le hlength
      have hlt := input.2
      rw [hcall, withRoom_queried (List.length_take_of_le hle)]
      simp [hin, hwhole]
      omega

/-! ### Padding taken apart -/

/-- The last octet is a length, and the octets in front of it are what the scheme accepts. -/
theorem withPadValue_iff {blockSize length : ℕ} {input : Bytes} {accepts : UInt8 → Bytes → Bool}
    (hblock : blockSize ≤ 255) :
    withPadValue blockSize input accepts = some length ↔
      ∃ data filler : Bytes, data.length = length ∧ filler.length < blockSize ∧
        input = data ++ (filler ++ [UInt8.ofNat (filler.length + 1)]) ∧
        accepts (UInt8.ofNat (filler.length + 1))
          (filler ++ [UInt8.ofNat (filler.length + 1)]) = true := by
  constructor
  · intro h
    rcases List.eq_nil_or_concat' input with rfl | ⟨front, last, rfl⟩
    · cases h
    have hlast : (front ++ [last]).getLast?.getD 0 = last := by simp
    rw [withPadValue, hlast] at h
    split_ifs at h with hvalue haccepts
    have hne : last.toNat ≠ 0 := fun h0 => hvalue (.inl (UInt8.toNat_inj.mp h0))
    obtain ⟨hle, hfits⟩ : last.toNat ≤ blockSize ∧ last.toNat ≤ (front ++ [last]).length := by
      simpa only [not_or, not_lt] using (not_or.mp hvalue).2
    rw [List.length_append, List.length_singleton] at hfits
    have hfiller : (front.drop (front.length + 1 - last.toNat)).length + 1 = last.toNat := by
      rw [List.length_drop]
      omega
    have htake : (front ++ [last]).rtake last.toNat =
        front.drop (front.length + 1 - last.toNat) ++ [last] := by
      rw [List.rtake, List.length_append, List.length_singleton,
        List.drop_append_of_le_length (by omega)]
    have heq : (front ++ [last]).length - last.toNat = length := Option.some.inj h
    rw [List.length_append, List.length_singleton] at heq
    refine ⟨front.take (front.length + 1 - last.toNat),
      front.drop (front.length + 1 - last.toNat), ?_, by omega, ?_, ?_⟩
    · rw [List.length_take]
      omega
    · rw [hfiller, UInt8.ofNat_toNat, ← List.append_assoc, List.take_append_drop]
    · rw [hfiller, UInt8.ofNat_toNat, ← htake]
      exact haccepts
  · rintro ⟨data, filler, rfl, hle, rfl, haccepts⟩
    have hvalue : (UInt8.ofNat (filler.length + 1)).toNat = filler.length + 1 :=
      toNat_octet (by omega)
    have hlast : (data ++ (filler ++ [UInt8.ofNat (filler.length + 1)])).getLast?.getD 0 =
        UInt8.ofNat (filler.length + 1) := by
      simp
    have htake : (data ++ (filler ++ [UInt8.ofNat (filler.length + 1)])).rtake
        (filler.length + 1) = filler ++ [UInt8.ofNat (filler.length + 1)] := by
      simp [List.rtake]
    have hne : UInt8.ofNat (filler.length + 1) ≠ 0 := fun h => by
      have := congrArg UInt8.toNat h
      rw [hvalue] at this
      cases this
    rw [withPadValue, hlast, if_neg, hvalue, htake, if_pos haccepts]
    · simp
    · refine not_or.mpr ⟨hne, not_or.mpr ⟨?_, ?_⟩⟩
      · omega
      · rw [hvalue, List.length_append, List.length_append, List.length_singleton]
        omega

/-- A scheme with a length in the last octet, from what it accepts in front of that. -/
theorem withPadValue_padding {scheme : PaddingScheme} {blockSize length : ℕ} {input : Bytes}
    {accepts : UInt8 → Bytes → Bool} (hblock : blockSize ≤ 255)
    (hshape : ∀ (rand : ℕ → UInt8) (n : ℕ), ∃ filler : Bytes, filler.length = n ∧
      padding rand scheme (n + 1) = filler ++ [UInt8.ofNat (n + 1)])
    (haccepts : ∀ filler : Bytes, accepts (UInt8.ofNat (filler.length + 1))
        (filler ++ [UInt8.ofNat (filler.length + 1)]) = true ↔
      ∃ rand, padding rand scheme (filler.length + 1) =
        filler ++ [UInt8.ofNat (filler.length + 1)]) :
    withPadValue blockSize input accepts = some length ↔
      ∃ (data : Bytes) (rand : ℕ → UInt8) (n : ℕ), data.length = length ∧ n < blockSize ∧
        input = data ++ padding rand scheme (n + 1) := by
  rw [withPadValue_iff hblock]
  constructor
  · rintro ⟨data, filler, hlength, hle, rfl, hfiller⟩
    obtain ⟨rand, hrand⟩ := (haccepts filler).mp hfiller
    exact ⟨data, rand, filler.length, hlength, hle, by rw [hrand]⟩
  · rintro ⟨data, rand, n, hlength, hle, rfl⟩
    obtain ⟨filler, rfl, hfiller⟩ := hshape rand n
    exact ⟨data, filler, hlength, hle, by rw [hfiller], (haccepts filler).mpr ⟨rand, hfiller⟩⟩

/-- Octets that are all the same. -/
theorem all_eq_iff (filler : Bytes) (c : UInt8) :
    filler.all (· = c) = true ↔ List.replicate filler.length c = filler := by
  rw [@eq_comm _ _ filler, List.eq_replicate_iff]
  simp

theorem rdropWhile_append_zeros (data : Bytes) (n : ℕ) :
    (data ++ List.replicate n 0).rdropWhile (· = 0) = data.rdropWhile (· = 0) := by
  induction n with
  | zero => rw [List.replicate_zero, List.append_nil]
  | succ n ih =>
      rw [List.replicate_succ', ← List.append_assoc,
        List.rdropWhile_concat_pos _ _ _ (by decide), ih]

/-- The marker, found again in front of the zeros that follow it. -/
theorem rdropWhile_marker (data : Bytes) (n : ℕ) :
    (data ++ 0x80 :: List.replicate n 0).rdropWhile (· = 0) = data ++ [0x80] := by
  rw [List.append_cons, rdropWhile_append_zeros]
  exact List.rdropWhile_concat_neg _ _ _ (by decide)

theorem eq_rdropWhile_append_replicate (input : Bytes) :
    input = input.rdropWhile (· = 0) ++
      List.replicate (input.rtakeWhile (· = 0)).length 0 := by
  have hsplit := @List.rdropWhile_append_rtakeWhile _ (fun c : UInt8 => decide (c = 0)) input
  conv_lhs => rw [← hsplit]
  congr 1
  apply List.eq_replicate_of_mem
  intro c hc
  simpa using List.mem_rtakeWhile_imp hc

/-- A scheme that marks its padding. -/
def PaddingScheme.Marks (scheme : PaddingScheme) : Prop :=
  scheme ≠ PADDING_NONE ∧ scheme ≠ PADDING_ZERO

theorem length_padding_succ (rand : ℕ → UInt8) {scheme : PaddingScheme} (hmarks : scheme.Marks)
    (n : ℕ) : (padding rand scheme (n + 1)).length = n + 1 := by
  cases scheme with
  | PADDING_NONE => exact absurd rfl hmarks.1
  | _ => simp [padding]

/-- What is accepted is data with padding behind it; only the scheme with the marker does not
look how long that is. -/
theorem dataLength_iff {scheme : PaddingScheme} {blockSize length : ℕ} {input : Bytes}
    (hmarks : scheme.Marks) (hblock : blockSize ≤ 255) :
    dataLength scheme blockSize input = some length ↔
      ∃ (data : Bytes) (rand : ℕ → UInt8) (n : ℕ), data.length = length ∧
        (scheme ≠ PADDING_ISO_97971 → n < blockSize) ∧
        input = data ++ padding rand scheme (n + 1) := by
  have hpkcs7 : ∀ scheme, (∀ rand n, padding rand scheme (n + 1) =
      List.replicate (n + 1) (UInt8.ofNat (n + 1))) →
      (withPadValue blockSize input (fun padValue last => last.all (· = padValue)) = some length ↔
        ∃ (data : Bytes) (rand : ℕ → UInt8) (n : ℕ), data.length = length ∧ n < blockSize ∧
          input = data ++ padding rand scheme (n + 1)) := by
    intro scheme hpadding
    apply withPadValue_padding hblock
    · intro rand n
      exact ⟨List.replicate n (UInt8.ofNat (n + 1)), List.length_replicate,
        (hpadding rand n).trans List.replicate_succ'⟩
    · intro filler
      simp only [hpadding, all_eq_iff, List.length_append, List.length_singleton]
      exact ⟨fun h => ⟨fun _ => 0, h⟩, fun ⟨_, h⟩ => h⟩
  cases scheme with
  | PADDING_NONE => exact absurd rfl hmarks.1
  | PADDING_ZERO => exact absurd rfl hmarks.2
  | PADDING_PKCS7 => simpa [dataLength] using hpkcs7 PADDING_PKCS7 fun _ _ => rfl
  | PADDING_PKCS5 => simpa [dataLength] using hpkcs7 PADDING_PKCS5 fun _ _ => rfl
  | PADDING_ANSI_X923 =>
      have h := @withPadValue_padding PADDING_ANSI_X923 blockSize length input
        (fun _ last => last.dropLast.all (· = 0)) hblock
        (fun rand n => ⟨List.replicate n 0, List.length_replicate, rfl⟩) (fun filler => ?_)
      · simpa [dataLength] using h
      · rw [List.dropLast_concat, all_eq_iff]
        simp [padding]
  | PADDING_ISO_10126 =>
      have h := @withPadValue_padding PADDING_ISO_10126 blockSize length input
        (fun _ _ => true) hblock
        (fun rand n => ⟨(List.range n).map rand, by simp, rfl⟩) (fun filler => ?_)
      · simpa [dataLength] using h
      · refine iff_of_true rfl ⟨fun i => filler.getD i 0, ?_⟩
        simp only [padding, Nat.add_sub_cancel]
        congr 1
        apply List.ext_getElem (by simp)
        intro i hi hi'
        simp [hi']
  | PADDING_ISO_97971 =>
      simp only [dataLength, ne_eq, not_true_eq_false, IsEmpty.forall_iff, true_and, padding,
        Nat.add_sub_cancel]
      constructor
      · intro h
        split_ifs at h with hmarker
        obtain ⟨data, hdata⟩ := List.getLast?_eq_some_iff.mp hmarker
        have hinput := eq_rdropWhile_append_replicate input
        rw [hdata, List.length_append, List.length_singleton] at h
        rw [hdata, List.append_assoc, List.singleton_append] at hinput
        exact ⟨data, fun _ => 0, _, Option.some.inj h, hinput⟩
      · rintro ⟨data, rand, n, rfl, rfl⟩
        rw [rdropWhile_marker]
        simp

/-! ### There and back -/

section Blocks

variable {scheme : PaddingScheme} {blockSize size length : ℕ}

theorem padLength_marks (hmarks : scheme.Marks) :
    padLength scheme blockSize size = some (blockSize - size % blockSize) := by
  cases scheme with
  | PADDING_NONE => exact absurd rfl hmarks.1
  | PADDING_ZERO => exact absurd rfl hmarks.2
  | _ => rfl

/-- Padding makes whole blocks. -/
theorem padLength_whole (hblock : 0 < blockSize)
    (h : padLength scheme blockSize size = some length) :
    (size + length) % blockSize = 0 := by
  have hlt := Nat.mod_lt size hblock
  have hfull : (size + (blockSize - size % blockSize)) % blockSize = 0 := by
    rw [← Nat.mod_add_mod, Nat.add_sub_cancel' hlt.le, Nat.mod_self]
  by_cases hmarks : scheme.Marks
  · rw [padLength_marks hmarks] at h
    obtain rfl := Option.some.inj h
    exact hfull
  · cases scheme with
    | PADDING_NONE =>
        simp only [padLength] at h
        split_ifs at h with hrest
        obtain rfl := Option.some.inj h
        exact not_not.mp hrest
    | PADDING_ZERO =>
        simp only [padLength] at h
        obtain rfl := Option.some.inj h
        split_ifs with hrest
        · exact hrest
        · exact hfull
    | _ => exact absurd ⟨nofun, nofun⟩ hmarks

/-- No data at all is padded unless nothing is ever added to whole blocks. -/
theorem padding_nil_iff {rand : ℕ → UInt8} (hblock : 0 < blockSize)
    (h : padLength scheme blockSize 0 = some length) :
    padding rand scheme length = [] ↔ scheme ∈ [PADDING_NONE, PADDING_ZERO] := by
  have hmod : 0 % blockSize = 0 := Nat.zero_mod blockSize
  by_cases hmarks : scheme.Marks
  · rw [padLength_marks hmarks, hmod] at h
    obtain ⟨n, rfl⟩ : ∃ n, length = n + 1 :=
      ⟨blockSize - 1, by have := Option.some.inj h; omega⟩
    refine iff_of_false (fun hnil => ?_) (by simpa [PaddingScheme.Marks] using hmarks)
    have hlength := length_padding_succ rand hmarks n
    rw [hnil] at hlength
    cases hlength
  · cases scheme with
    | PADDING_NONE => simp [padding]
    | PADDING_ZERO =>
        simp only [padLength, hmod] at h
        obtain rfl := Option.some.inj h
        simp [padding]
    | _ => exact absurd ⟨nofun, nofun⟩ hmarks

/-- Whole blocks with at most a block of padding in them are what is made of the data. -/
theorem padLength_of_whole (hmarks : scheme.Marks) (hlength : length < blockSize)
    (hwhole : (size + (length + 1)) % blockSize = 0) :
    padLength scheme blockSize size = some (length + 1) := by
  have hlt := Nat.mod_lt size (show 0 < blockSize by omega)
  rw [← Nat.mod_add_mod] at hwhole
  have heq : size % blockSize + (length + 1) = blockSize :=
    Nat.eq_of_dvd_of_lt_two_mul (by omega) (Nat.dvd_of_mod_eq_zero hwhole) (by omega)
  rw [padLength_marks hmarks]
  congr 1
  omega

end Blocks

/-- What is left of the data after padding and unpadding: zeros at its end are taken for
padding where the padding is zeros. -/
def unpadded (scheme : PaddingScheme) (data : Bytes) : Bytes :=
  if scheme = PADDING_ZERO then data.rdropWhile (· = 0) else data

theorem dataLength_padded {rand : ℕ → UInt8} {scheme : PaddingScheme} {blockSize length : ℕ}
    {data : Bytes} (hblock : 0 < blockSize ∧ blockSize ≤ 255)
    (h : padLength scheme blockSize data.length = some length) :
    ∃ n, dataLength scheme blockSize (data ++ padding rand scheme length) = some n ∧
      (data ++ padding rand scheme length).take n = unpadded scheme data := by
  by_cases hmarks : scheme.Marks
  · refine ⟨data.length, ?_, ?_⟩
    · rw [padLength_marks hmarks] at h
      obtain rfl := Option.some.inj h
      have hlt := Nat.mod_lt data.length hblock.1
      refine (dataLength_iff hmarks hblock.2).mpr
        ⟨data, rand, blockSize - data.length % blockSize - 1, rfl, fun _ => by omega, ?_⟩
      rw [Nat.sub_add_cancel (by omega)]
    · rw [List.take_left' rfl, unpadded, if_neg hmarks.2]
  · cases scheme with
    | PADDING_NONE =>
        refine ⟨data.length, ?_, ?_⟩ <;> simp [dataLength, padding, unpadded]
    | PADDING_ZERO =>
        have hkept : data.rdropWhile (fun c : UInt8 => c = 0) <+:
            data ++ padding rand PADDING_ZERO length :=
          (List.rdropWhile_prefix _ data).trans (List.prefix_append _ _)
        refine ⟨(data.rdropWhile (fun c : UInt8 => c = 0)).length, ?_, ?_⟩
        · rw [dataLength, padding, rdropWhile_append_zeros]
        · rw [unpadded, if_pos rfl]
          exact (List.prefix_iff_eq_take.mp hkept).symm
    | _ => exact absurd ⟨nofun, nofun⟩ hmarks

/-- A text that is accepted is one that padding makes, unless the marker was found before
the last block. -/
theorem padded_of_Unpad {scheme : PaddingScheme} {blockSize : ℕ} {input : Buffer} {data : Bytes}
    (hmarks : scheme.Marks) (h : queried (Unpad scheme blockSize input) = .ok (written data)) :
    (∃ rand data, queried (Pad rand scheme blockSize data) = .ok (written input.1)) ↔
      (scheme = PADDING_ISO_97971 → ∃ c ∈ input.1.rtake blockSize, c ≠ 0) := by
  obtain ⟨hblock, ⟨hne, hwhole⟩, length, hlength, rfl⟩ := Unpad_queried.mp h
  constructor
  · rintro ⟨rand, data, hpad⟩ rfl
    obtain ⟨-, padded, hpadded, -, hinput⟩ := Pad_queried.mp hpad
    obtain rfl := Option.some.inj ((padLength_marks hmarks).symm.trans hpadded)
    have hlt := Nat.mod_lt data.1.length hblock.1
    have hsize := @length_padding rand _ _ _ _ hblock.1 hpadded
    refine ⟨0x80, ?_, by decide⟩
    rw [hinput, List.rtake, List.length_append, hsize,
      List.drop_append_of_le_length (by omega)]
    simp [padding]
  · intro hlast
    obtain ⟨data, rand, n, hdata, hn, hinput⟩ := (dataLength_iff hmarks hblock.2).mp hlength
    have hfits : n < blockSize := by
      by_cases hscheme : scheme = PADDING_ISO_97971
      · subst hscheme
        by_contra hlong
        obtain ⟨c, hc, hne⟩ := hlast rfl
        rw [hinput, List.rtake, padding, Nat.add_sub_cancel, List.append_cons,
          List.length_append, List.length_replicate, List.drop_append] at hc
        rw [List.drop_eq_nil_of_le (by omega), List.nil_append] at hc
        exact hne (List.eq_of_mem_replicate (List.mem_of_mem_drop hc))
      · exact hn hscheme
    have hadded : padLength scheme blockSize data.length = some (n + 1) := by
      apply padLength_of_whole hmarks hfits
      rw [← length_padding_succ rand hmarks n, ← List.length_append, ← hinput]
      exact hwhole
    have hsize := input.2
    rw [hinput, List.length_append, length_padding_succ rand hmarks] at hsize
    refine ⟨rand, ⟨data, by omega⟩, Pad_queried.mpr ⟨hblock, n + 1, hadded, hsize, hinput⟩⟩

/-- Unpadding undoes padding, but for no data under a scheme that adds nothing to it; what
unpadding accepts under a scheme that marks its padding can have come from padding. -/
theorem Pad_Unpad (scheme : PaddingScheme) (blockSize : ℕ) :
    (∀ (rand : ℕ → UInt8) (data padded : Buffer),
      queried (Pad rand scheme blockSize data) = .ok (written padded.1) →
      (queried (Unpad scheme blockSize padded) = .ok (written (unpadded scheme data.1)) ↔
        ¬ (data.1 = [] ∧ scheme ∈ [PADDING_NONE, PADDING_ZERO]))) ∧
    (scheme ∉ [PADDING_NONE, PADDING_ZERO] → ∀ input data : Buffer,
      queried (Unpad scheme blockSize input) = .ok (written data.1) →
      (scheme = PADDING_ISO_97971 → ∃ c ∈ input.1.rtake blockSize, c ≠ 0) →
      ∃ rand data, queried (Pad rand scheme blockSize data) = .ok (written input.1)) := by
  constructor
  · intro rand data padded h
    obtain ⟨hblock, length, hlength, -, hpadded⟩ := Pad_queried.mp h
    obtain ⟨n, hn, htake⟩ := @dataLength_padded rand _ _ _ _ hblock hlength
    have hwhole := padLength_whole hblock.1 hlength
    rw [Unpad_queried, hpadded]
    have hnil : data.1 ++ padding rand scheme length = [] ↔
        data.1 = [] ∧ scheme ∈ [PADDING_NONE, PADDING_ZERO] := by
      rw [List.append_eq_nil_iff]
      apply and_congr_right
      intro hempty
      rw [hempty] at hlength
      exact padding_nil_iff hblock.1 hlength
    rw [List.length_append, length_padding hblock.1 hlength]
    simp only [hblock, hwhole, hn, ne_eq, hnil, Option.some.injEq, exists_eq_left', htake]
    simp
  · intro hmarks input data h hlast
    exact (padded_of_Unpad (by simpa [PaddingScheme.Marks] using hmarks) h).mpr hlast

/-- Three octets in blocks of four, under the padding with the marker. -/
theorem Pad_Unpad_marker :
    queried (Unpad PADDING_ISO_97971 4 ⟨[1, 2, 3, 0x80], by decide⟩) =
        .ok (written [1, 2, 3]) ∧
      ∃ rand data, queried (Pad rand PADDING_ISO_97971 4 data) =
        .ok (written [1, 2, 3, 0x80]) := by
  have hpadded : queried (Pad (fun _ => 0) PADDING_ISO_97971 4 ⟨[1, 2, 3], by decide⟩) =
      .ok (written [1, 2, 3, 0x80]) := by
    decide
  have hback := ((Pad_Unpad PADDING_ISO_97971 4).1 (fun _ => 0) ⟨[1, 2, 3], by decide⟩
    ⟨[1, 2, 3, 0x80], by decide⟩ hpadded).mpr (by decide)
  exact ⟨hback, (Pad_Unpad PADDING_ISO_97971 4).2 (by decide) ⟨[1, 2, 3, 0x80], by decide⟩
    ⟨[1, 2, 3], by decide⟩ hback (fun _ => ⟨0x80, by decide⟩)⟩

/-- No data, padded to no blocks, is refused on the way back. -/
theorem Unpad_refuses_empty :
    queried (Pad (fun _ => 0) PADDING_NONE 16 ⟨[], by decide⟩) = .ok (written []) ∧
      queried (Unpad PADDING_NONE 16 ⟨[], by decide⟩) = .ok { status := INVALID_ARGUMENT } :=
  ⟨by decide, by decide⟩

end HashCryptoLib.Utils
