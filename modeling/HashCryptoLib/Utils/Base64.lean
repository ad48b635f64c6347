import HashCryptoLib.Pgp.Armor
import HashCryptoLib.Pgp.State

/-!
Base64 as the utilities offer it to a caller with an `int`-sized buffer. The encoder is the
engine's over again; the decoder reads one quad after the other and looks for padding in
each of them.
-/

namespace HashCryptoLib.Utils

open Pgp (Status Buffer Fault EQUALS base64Encode base64Digit length_base64Encode ascii)
open Pgp.Status

/-! ### Output buffers -/

/-- What a call leaves: its status, the size it reports, and what it wrote. What a failed
call has written is left out. -/
structure Outcome where
  status : Status
  outputBufferSize : Int32 := 0
  output : Bytes := []
  deriving DecidableEq, Repr

/-- The question for the size, and its answer where there is no room. `none` is a null pointer;
the required size is the one that the call computed in `int`s. -/
def withRoom (requiredSize : Int32) (buffer : Option Int32)
    (fill : Int32 → Except Fault Outcome) : Except Fault Outcome :=
  match buffer with
  | none => .ok { status := BUFFER_TOO_SMALL, outputBufferSize := requiredSize }
  | some capacity =>
    if capacity < requiredSize then
      .ok { status := BUFFER_TOO_SMALL, outputBufferSize := requiredSize }
    else fill capacity

/-- The outcome of a call that wrote all of `data`. -/
def written (data : Bytes) : Outcome :=
  { status := NO_ERROR, outputBufferSize := Int32.ofNat data.length, output := data }

/-- Writing is left undefined where it goes beyond the capacity. -/
def fillWith (data : Bytes) (capacity : Int32) : Except Fault Outcome :=
  if data.length ≤ capacity.toInt then .ok (written data) else .error .outOfBounds

/-- A call with a buffer of the size that it asked for. -/
def queried (call : Option Int32 → Except Fault Outcome) : Except Fault Outcome := do
  let query ← call none
  if query.status = BUFFER_TOO_SMALL then call (some query.outputBufferSize) else pure query

def bufferSize (input : Buffer) : Int32 := Int32.ofNat input.1.length

/-! ### Encoding and decoding -/

def Base64Encode (input : Buffer) (buffer : Option Int32) : Except Fault Outcome :=
  withRoom ((bufferSize input + 2) / 3 * 4) buffer (fillWith (base64Encode input.1))

def base64CharacterValue (character : UInt8) : Option ℕ :=
  if 65 ≤ character ∧ character ≤ 90 then some (character.toNat - 65)
  else if 97 ≤ character ∧ character ≤ 122 then some (character.toNat - 97 + 26)
  else if 48 ≤ character ∧ character ≤ 57 then some (character.toNat - 48 + 52)
  else if character = 43 then some 62
  else if character = 47 then some 63
  else none

def decodeQuad (c0 c1 c2 c3 : UInt8) : Option Bytes := do
  let v0 ← base64CharacterValue c0
  let v1 ← base64CharacterValue c1
  let o0 := UInt8.ofNat (v0 <<< 2 ||| v1 >>> 4)
  if c2 = EQUALS then pure [o0]
  else
    let v2 ← base64CharacterValue c2
    let o1 := UInt8.ofNat ((v1 &&& 0x0F) <<< 4 ||| v2 >>> 2)
    if c3 = EQUALS then pure [o0, o1]
    else
      let v3 ← base64CharacterValue c3
      let o2 := UInt8.ofNat ((v2 &&& 0x03) <<< 6 ||| v3)
      pure [o0, o1, o2]

/-- The loop over the quads. A text of another length is not asked for. -/
def decodeQuads : Bytes → Option Bytes
  | c0 :: c1 :: c2 :: c3 :: rest => do
    let quad ← decodeQuad c0 c1 c2 c3
    let others ← decodeQuads rest
    pure (quad ++ others)
  | _ => some []

/-- `=` in the last place and in the one before it, each on its own. -/
def paddingCount (inputString : Bytes) : ℕ :=
  (inputString.reverse.take 2).count EQUALS

def Base64Decode (inputString : Buffer) (buffer : Option Int32) : Except Fault Outcome :=
  let inputStringSize := inputString.1.length
  if inputStringSize % 4 ≠ 0 then .ok { status := INVALID_ARGUMENT }
  else
    let requiredSize :=
      if inputStringSize = 0 then 0 else inputStringSize / 4 * 3 - paddingCount inputString.1
    withRoom (Int32.ofNat requiredSize) buffer fun capacity =>
      match decodeQuads inputString.1 with
      | none => .ok { status := INVALID_DATA }
      | some data => fillWith data capacity

/-! ### Calls with enough room -/

theorem withRoom_written {requiredSize : Int32} {buffer : Option Int32} {data data' : Bytes}
    (h : withRoom requiredSize buffer (fillWith data) = .ok (written data')) :
    data' = data ∧ data.length < 2 ^ 31 := by
  cases buffer with
  | none => cases h
  | some capacity =>
      rw [withRoom] at h
      split_ifs at h with hcapacity
      · cases h
      · rw [fillWith] at h
        split_ifs at h with hfits
        have hlt := capacity.toInt_lt
        exact ⟨(congrArg Outcome.output (Except.ok.inj h)).symm, by omega⟩

theorem queried_written {requiredSize : Int32} {data : Bytes}
    (h : (data.length : ℤ) ≤ requiredSize.toInt) :
    queried (fun buffer => withRoom requiredSize buffer (fillWith data)) = .ok (written data) := by
  show withRoom requiredSize (some requiredSize) (fillWith data) = _
  rw [withRoom, if_neg Int32.lt_irrefl, fillWith, if_pos h]

/-- A call that reports success was made with the room it asked for. -/
theorem written_of_queried {call : Option Int32 → Except Fault Outcome} {data : Bytes}
    (h : queried call = .ok (written data)) : ∃ buffer, call buffer = .ok (written data) := by
  unfold queried at h
  cases hquery : call none with
  | error fault =>
      rw [hquery] at h
      cases h
  | ok query =>
      rw [hquery] at h
      dsimp only [bind, Except.bind] at h
      split_ifs at h
      · exact ⟨_, h⟩
      · exact ⟨none, hquery.trans h⟩

theorem bmod_of_lt {n : ℕ} (h : n < 2 ^ 31) : (n : ℤ).bmod (2 ^ 32) = n :=
  Int.bmod_eq_of_le (by omega) (by omega)

/-- Four for every three, except for the two sizes where the addition wraps already. -/
theorem encodedSize_toInt_bmod {n : ℕ} (h : n + 2 < 2 ^ 31) :
    ((Int32.ofNat n + 2) / 3 * 4).toInt = ((4 * ((n + 2) / 3) : ℕ) : ℤ).bmod (2 ^ 32) := by
  have hsum : (Int32.ofNat n + 2).toInt = (n + 2 : ℕ) := by
    rw [← Int32.toInt_ofNat_of_lt h, Int32.ofNat_add]
    rfl
  have hquot : ((n + 2 : ℕ) : ℤ).tdiv 3 = ((n + 2) / 3 : ℕ) := by
    rw [Int.tdiv_eq_ediv_of_nonneg (Int.natCast_nonneg _)]
    rfl
  have hthird : (((n + 2) / 3 : ℕ) : ℤ).bmod (2 ^ 32) = ((n + 2) / 3 : ℕ) :=
    bmod_of_lt (by omega)
  rw [Int32.toInt_mul, Int32.toInt_div, hsum, show (3 : Int32).toInt = 3 from rfl,
    show (4 : Int32).toInt = 4 from rfl, hquot, hthird, Nat.cast_mul, Int.mul_comm]
  rfl

/-- In `int`s the size of the text comes out right as long as it is one. -/
theorem encodedSize_toInt {n : ℕ} (h : 4 * ((n + 2) / 3) < 2 ^ 31) :
    ((Int32.ofNat n + 2) / 3 * 4).toInt = (4 * ((n + 2) / 3) : ℕ) := by
  rw [encodedSize_toInt_bmod (by omega), bmod_of_lt h]

/-! ### Digits -/

theorem base64CharacterValue_digit (n : ℕ) :
    base64CharacterValue (base64Digit n) = some (n % 64) := by
  have hdigits : ∀ n : Fin 64, base64CharacterValue (base64Digit n) = some n.1 := by
    decide +kernel
  have h := hdigits ⟨n % 64, Nat.mod_lt n (by norm_num)⟩
  simpa [base64Digit] using h

theorem digit_of_base64CharacterValue {character : UInt8} {value : ℕ}
    (h : base64CharacterValue character = some value) :
    value < 64 ∧ character = base64Digit value := by
  have hvalues : ∀ character : UInt8, ∀ value ∈ base64CharacterValue character,
      value < 64 ∧ character = base64Digit value := by
    decide +kernel
  exact hvalues character value h

theorem base64Digit_ne_equals (n : ℕ) : base64Digit n ≠ EQUALS := fun h =>
  Pgp.base64Digit_not_mem n (by simp [h])

/-- Two digits say the first octet of a quad. -/
theorem firstOctet {v0 v1 : ℕ} (h0 : v0 < 64) (h1 : v1 < 64) :
    v0 <<< 2 ||| v1 >>> 4 = v0 * 4 + v1 / 16 := by
  have hall : ∀ v0 v1 : Fin 64, v0.1 <<< 2 ||| v1.1 >>> 4 = v0.1 * 4 + v1.1 / 16 := by
    decide
  exact hall ⟨v0, h0⟩ ⟨v1, h1⟩

theorem secondOctet {v1 v2 : ℕ} (h1 : v1 < 64) (h2 : v2 < 64) :
    (v1 &&& 0x0F) <<< 4 ||| v2 >>> 2 = v1 % 16 * 16 + v2 / 4 := by
  have hall : ∀ v1 v2 : Fin 64,
      (v1.1 &&& 0x0F) <<< 4 ||| v2.1 >>> 2 = v1.1 % 16 * 16 + v2.1 / 4 := by
    decide
  exact hall ⟨v1, h1⟩ ⟨v2, h2⟩

theorem thirdOctet {v2 v3 : ℕ} (h2 : v2 < 64) (h3 : v3 < 64) :
    (v2 &&& 0x03) <<< 6 ||| v3 = v2 % 4 * 64 + v3 := by
  have hall : ∀ v2 v3 : Fin 64, (v2.1 &&& 0x03) <<< 6 ||| v3.1 = v2.1 % 4 * 64 + v3.1 := by
    decide
  exact hall ⟨v2, h2⟩ ⟨v3, h3⟩

theorem base64Digit_mod (n : ℕ) : base64Digit (n % 64) = base64Digit n := by
  rw [base64Digit, Nat.mod_mod, base64Digit]

theorem base64Digit_inj {m n : ℕ} (h : base64Digit m = base64Digit n) : m % 64 = n % 64 := by
  have hvalue := congrArg base64CharacterValue h
  rw [base64CharacterValue_digit, base64CharacterValue_digit] at hvalue
  exact Option.some.inj hvalue

theorem toNat_octet {n : ℕ} (h : n < 256) : (UInt8.ofNat n).toNat = n :=
  UInt8.toNat_ofNat_of_lt' h

/-! ### Quads -/

section Quads

variable {v0 v1 v2 v3 : ℕ}

theorem encode_three (h0 : v0 < 64) (h1 : v1 < 64) (h2 : v2 < 64) (h3 : v3 < 64) (others : Bytes) :
    base64Encode (UInt8.ofNat (v0 * 4 + v1 / 16) :: UInt8.ofNat (v1 % 16 * 16 + v2 / 4) ::
        UInt8.ofNat (v2 % 4 * 64 + v3) :: others) =
      base64Digit v0 :: base64Digit v1 :: base64Digit v2 :: base64Digit v3 ::
        base64Encode others := by
  rw [base64Encode, toNat_octet (by omega), toNat_octet (by omega),
    toNat_octet (by omega)]
  have hn : (v0 * 4 + v1 / 16) * 2 ^ 16 + (v1 % 16 * 16 + v2 / 4) * 2 ^ 8 + (v2 % 4 * 64 + v3) =
      v0 * 2 ^ 18 + v1 * 2 ^ 12 + v2 * 2 ^ 6 + v3 := by
    omega
  rw [hn, ← base64Digit_mod (_ / 2 ^ 18), ← base64Digit_mod (_ / 2 ^ 12),
    ← base64Digit_mod (_ / 2 ^ 6), ← base64Digit_mod (_ + v3)]
  congr 2
  · omega
  congr 2
  · omega
  congr 2
  · omega
  congr 2
  omega

theorem encode_two (h0 : v0 < 64) (h1 : v1 < 64) (h2 : v2 < 64) :
    base64Encode [UInt8.ofNat (v0 * 4 + v1 / 16), UInt8.ofNat (v1 % 16 * 16 + v2 / 4)] =
      [base64Digit v0, base64Digit v1, base64Digit (v2 / 4 * 4), EQUALS] := by
  rw [base64Encode, toNat_octet (by omega), toNat_octet (by omega)]
  rw [← base64Digit_mod (_ / 2 ^ 18), ← base64Digit_mod (_ / 2 ^ 12), ← base64Digit_mod (_ / 2 ^ 6)]
  congr 2
  · omega
  congr 2
  · omega
  congr 2
  omega

theorem encode_one (h0 : v0 < 64) (h1 : v1 < 64) :
    base64Encode [UInt8.ofNat (v0 * 4 + v1 / 16)] =
      [base64Digit v0, base64Digit (v1 / 16 * 16), EQUALS, EQUALS] := by
  rw [base64Encode, toNat_octet (by omega)]
  rw [← base64Digit_mod (_ / 2 ^ 18), ← base64Digit_mod (_ / 2 ^ 12)]
  congr 2
  · omega
  congr 2
  omega

end Quads

/-- What a quad that is accepted holds: three octets, or two or one in front of padding. -/
inductive QuadSays : UInt8 → UInt8 → UInt8 → UInt8 → Bytes → Prop
  | three {v0 v1 v2 v3 : ℕ} (h0 : v0 < 64) (h1 : v1 < 64) (h2 : v2 < 64) (h3 : v3 < 64) :
      QuadSays (base64Digit v0) (base64Digit v1) (base64Digit v2) (base64Digit v3)
        [UInt8.ofNat (v0 * 4 + v1 / 16), UInt8.ofNat (v1 % 16 * 16 + v2 / 4),
          UInt8.ofNat (v2 % 4 * 64 + v3)]
  | two {v0 v1 v2 : ℕ} (h0 : v0 < 64) (h1 : v1 < 64) (h2 : v2 < 64) :
      QuadSays (base64Digit v0) (base64Digit v1) (base64Digit v2) EQUALS
        [UInt8.ofNat (v0 * 4 + v1 / 16), UInt8.ofNat (v1 % 16 * 16 + v2 / 4)]
  | one {v0 v1 : ℕ} (h0 : v0 < 64) (h1 : v1 < 64) (c3 : UInt8) :
      QuadSays (base64Digit v0) (base64Digit v1) EQUALS c3 [UInt8.ofNat (v0 * 4 + v1 / 16)]

theorem decodeQuad_iff {c0 c1 c2 c3 : UInt8} {quad : Bytes} :
    decodeQuad c0 c1 c2 c3 = some quad ↔ QuadSays c0 c1 c2 c3 quad := by
  constructor
  · intro h
    rw [decodeQuad] at h
    obtain ⟨v0, hv0, hrest⟩ := Option.bind_eq_some_iff.mp h
    obtain ⟨v1, hv1, hquad⟩ := Option.bind_eq_some_iff.mp hrest
    obtain ⟨h0, hc0⟩ := digit_of_base64CharacterValue hv0
    obtain ⟨h1, hc1⟩ := digit_of_base64CharacterValue hv1
    rw [firstOctet h0 h1] at hquad
    dsimp only at hquad
    rw [hc0, hc1]
    by_cases hthird : c2 = EQUALS
    · rw [if_pos hthird] at hquad
      obtain rfl := Option.some.inj hquad
      exact hthird ▸ .one h0 h1 c3
    · rw [if_neg hthird] at hquad
      obtain ⟨v2, hv2, hpair⟩ := Option.bind_eq_some_iff.mp hquad
      obtain ⟨h2, hc2⟩ := digit_of_base64CharacterValue hv2
      rw [secondOctet h1 h2] at hpair
      rw [hc2]
      split_ifs at hpair with hfourth
      · obtain rfl := Option.some.inj hpair
        exact hfourth ▸ .two h0 h1 h2
      · obtain ⟨v3, hv3, htriple⟩ := Option.bind_eq_some_iff.mp hpair
        obtain ⟨h3, hc3⟩ := digit_of_base64CharacterValue hv3
        rw [thirdOctet h2 h3] at htriple
        obtain rfl := Option.some.inj htriple
        exact hc3 ▸ .three h0 h1 h2 h3
  · intro h
    rw [decodeQuad]
    cases h with
    | three h0 h1 h2 h3 =>
        simp only [base64CharacterValue_digit, Nat.mod_eq_of_lt, h0, h1, h2, h3, firstOctet,
          secondOctet, thirdOctet, Option.bind_eq_bind, Option.bind_some, base64Digit_ne_equals,
          if_false]
        rfl
    | two h0 h1 h2 =>
        simp only [base64CharacterValue_digit, Nat.mod_eq_of_lt, h0, h1, h2, firstOctet,
          secondOctet, Option.bind_eq_bind, Option.bind_some, base64Digit_ne_equals, if_false]
        rfl
    | one h0 h1 c3 =>
        simp only [base64CharacterValue_digit, Nat.mod_eq_of_lt, h0, h1, firstOctet,
          Option.bind_eq_bind, Option.bind_some]
        rfl

theorem decodeQuads_cons {c0 c1 c2 c3 : UInt8} {rest data : Bytes} :
    decodeQuads (c0 :: c1 :: c2 :: c3 :: rest) = some data ↔
      ∃ quad others, QuadSays c0 c1 c2 c3 quad ∧ decodeQuads rest = some others ∧
        data = quad ++ others := by
  rw [decodeQuads]
  constructor
  · intro h
    obtain ⟨quad, hquad, h⟩ := Option.bind_eq_some_iff.mp h
    obtain ⟨others, hothers, h⟩ := Option.bind_eq_some_iff.mp h
    exact ⟨quad, others, decodeQuad_iff.mp hquad, hothers, (Option.some.inj h).symm⟩
  · rintro ⟨quad, others, hquad, hothers, rfl⟩
    rw [decodeQuad_iff.mpr hquad, hothers]
    rfl

/-! ### From octets to text and back -/

/-- Three octets are four digits. -/
theorem exists_digits (a b c : UInt8) : ∃ v0 v1 v2 v3 : ℕ,
    v0 < 64 ∧ v1 < 64 ∧ v2 < 64 ∧ v3 < 64 ∧ a = UInt8.ofNat (v0 * 4 + v1 / 16) ∧
      b = UInt8.ofNat (v1 % 16 * 16 + v2 / 4) ∧ c = UInt8.ofNat (v2 % 4 * 64 + v3) := by
  have ha := a.toNat_lt
  have hb := b.toNat_lt
  have hc := c.toNat_lt
  refine ⟨a.toNat / 4, a.toNat % 4 * 16 + b.toNat / 16, b.toNat % 16 * 4 + c.toNat / 64,
    c.toNat % 64, by omega, by omega, by omega, by omega, ?_, ?_, ?_⟩ <;>
  · apply UInt8.toNat_inj.mp
    rw [toNat_octet (by omega)]
    omega

theorem decodeQuads_base64Encode (data : Bytes) : decodeQuads (base64Encode data) = some data := by
  match data with
  | a :: b :: c :: rest =>
      have ih := decodeQuads_base64Encode rest
      obtain ⟨v0, v1, v2, v3, h0, h1, h2, h3, rfl, rfl, rfl⟩ := exists_digits a b c
      rw [encode_three h0 h1 h2 h3]
      exact decodeQuads_cons.mpr ⟨_, _, .three h0 h1 h2 h3, ih, rfl⟩
  | [a, b] =>
      -- the third digit is padded with zero bits
      obtain ⟨v0, v1, v2, v3, h0, h1, h2, h3, rfl, rfl, -⟩ := exists_digits a b 0
      rw [encode_two h0 h1 h2]
      have hquad := QuadSays.two h0 h1 (show v2 / 4 * 4 < 64 by omega)
      rw [Nat.mul_div_cancel _ (show 0 < 4 by norm_num)] at hquad
      exact decodeQuads_cons.mpr ⟨_, [], hquad, rfl, rfl⟩
  | [a] =>
      obtain ⟨v0, v1, v2, v3, h0, h1, h2, h3, rfl, -, -⟩ := exists_digits a 0 0
      rw [encode_one h0 h1]
      have hquad := QuadSays.one h0 (show v1 / 16 * 16 < 64 by omega) EQUALS
      rw [Nat.mul_div_cancel _ (show 0 < 16 by norm_num)] at hquad
      exact decodeQuads_cons.mpr ⟨_, [], hquad, rfl, rfl⟩
  | [] => rfl

theorem QuadSays.ne_nil {c0 c1 c2 c3 : UInt8} {quad : Bytes} (h : QuadSays c0 c1 c2 c3 quad) :
    quad ≠ [] := by
  cases h <;> simp

theorem QuadSays.length_add_count {c0 c1 c2 c3 : UInt8} {quad : Bytes}
    (h : QuadSays c0 c1 c2 c3 quad) : quad.length + [c3, c2].count EQUALS ≤ 3 := by
  have hlast : ∀ c : UInt8, [c].count EQUALS ≤ 1 := fun c => List.count_le_length
  cases h with
  | three => simp [base64Digit_ne_equals]
  | two => simp [base64Digit_ne_equals]
  | one h0 h1 =>
      have := List.count_le_length (l := [c3, EQUALS]) (a := EQUALS)
      simp only [List.length_cons, List.length_nil] at this ⊢
      omega

/-- What is left of a text of whole quads that does not begin with one. -/
theorem eq_nil_of_length_mod {text : Bytes} (hlength : text.length % 4 = 0)
    (h : ∀ c0 c1 c2 c3 : UInt8, ∀ rest : Bytes, text = c0 :: c1 :: c2 :: c3 :: rest → False) :
    text = [] := by
  match text, hlength, h with
  | [], _, _ => rfl
  | c0 :: c1 :: c2 :: c3 :: rest, _, h => exact (h c0 c1 c2 c3 rest rfl).elim

theorem paddingCount_cons (c0 c1 c2 c3 : UInt8) (rest : Bytes) :
    paddingCount (c0 :: c1 :: c2 :: c3 :: rest) ≤ paddingCount rest + [c3, c2].count EQUALS := by
  have hreverse : (c0 :: c1 :: c2 :: c3 :: rest).reverse = rest.reverse ++ [c3, c2, c1, c0] := by
    simp
  rw [paddingCount, hreverse, List.take_append, List.count_append, paddingCount]
  have hstarts : [c3, c2, c1, c0].take (2 - rest.reverse.length) <+: [c3, c2] := by
    have hsub : [c3, c2, c1, c0].take (2 - rest.reverse.length) <+: [c3, c2, c1, c0].take 2 :=
      List.take_prefix_take_left (by omega)
    exact hsub
  exact Nat.add_le_add_left (hstarts.sublist.count_le EQUALS) _

/-- The decoder stays within the size that was asked for. -/
theorem length_decodeQuads {text data : Bytes} (hlength : text.length % 4 = 0)
    (h : decodeQuads text = some data) :
    data.length + paddingCount text ≤ text.length / 4 * 3 := by
  induction text using decodeQuads.induct generalizing data with
  | case1 c0 c1 c2 c3 rest ih =>
      obtain ⟨quad, others, hquad, hothers, rfl⟩ := decodeQuads_cons.mp h
      have hrest : rest.length % 4 = 0 := by
        simp only [List.length_cons] at hlength
        omega
      have hih := ih hrest hothers
      have hcount := hquad.length_add_count
      have hpadding := paddingCount_cons c0 c1 c2 c3 rest
      simp only [List.length_append, List.length_cons]
      omega
  | case2 text hshort =>
      obtain rfl := eq_nil_of_length_mod hlength hshort
      obtain rfl := Option.some.inj h
      decide

/-- The text that the encoder would have written: padding only at the end and complete, and
no bit set that no octet holds. -/
def Canonical : Bytes → Prop
  | _ :: c1 :: c2 :: c3 :: rest =>
    (c2 = EQUALS → c3 = EQUALS ∧ ∀ v1 ∈ base64CharacterValue c1, v1 % 16 = 0) ∧
    (c2 ≠ EQUALS → c3 = EQUALS → ∀ v2 ∈ base64CharacterValue c2, v2 % 4 = 0) ∧
    (EQUALS ∈ [c2, c3] → rest = []) ∧ Canonical rest
  | _ => True

theorem Canonical.three {c0 c1 c2 c3 : UInt8} {rest : Bytes} (h2 : c2 ≠ EQUALS)
    (h3 : c3 ≠ EQUALS) : Canonical (c0 :: c1 :: c2 :: c3 :: rest) ↔ Canonical rest := by
  simp [Canonical, h2, h3, h2.symm, h3.symm]

theorem Canonical.two {v2 : ℕ} {c0 c1 : UInt8} {rest : Bytes} (h2 : v2 < 64) :
    Canonical (c0 :: c1 :: base64Digit v2 :: EQUALS :: rest) ↔ v2 % 4 = 0 ∧ rest = [] := by
  have hnil : rest = [] → Canonical rest := by
    rintro rfl
    trivial
  have hne := base64Digit_ne_equals v2
  simp only [Canonical, hne, base64CharacterValue_digit, Nat.mod_eq_of_lt h2]
  simp [hne]
  tauto

theorem Canonical.one {v1 : ℕ} {c0 c3 : UInt8} {rest : Bytes} (h1 : v1 < 64) :
    Canonical (c0 :: base64Digit v1 :: EQUALS :: c3 :: rest) ↔
      c3 = EQUALS ∧ v1 % 16 = 0 ∧ rest = [] := by
  have hnil : rest = [] → Canonical rest := by
    rintro rfl
    trivial
  simp only [Canonical, base64CharacterValue_digit, Nat.mod_eq_of_lt h1]
  simp
  tauto

theorem decodeQuads_eq_nil {text data : Bytes} (hlength : text.length % 4 = 0)
    (h : decodeQuads text = some data) : data = [] ↔ text = [] := by
  match text, hlength, h with
  | [], _, h => exact iff_of_true (Option.some.inj h).symm rfl
  | c0 :: c1 :: c2 :: c3 :: rest, _, h =>
      obtain ⟨quad, others, hquad, -, rfl⟩ := decodeQuads_cons.mp h
      simp [hquad.ne_nil]

/-- A digit loses its unused bits. -/
theorem base64Digit_cleared {v m : ℕ} (hv : v < 64) :
    base64Digit (v / m * m) = base64Digit v ↔ v % m = 0 := by
  have hle : v / m * m ≤ v := Nat.div_mul_le_self v m
  have hsplit := Nat.div_add_mod' v m
  constructor
  · intro h
    have := base64Digit_inj h
    rw [Nat.mod_eq_of_lt hv, Nat.mod_eq_of_lt (by omega)] at this
    omega
  · intro h
    rw [show v / m * m = v by omega]

/-- The decoder takes every text to what it says, the encoder takes that to one text. -/
theorem base64Encode_of_decodeQuads {text data : Bytes} (hlength : text.length % 4 = 0)
    (h : decodeQuads text = some data) : base64Encode data = text ↔ Canonical text := by
  induction text using decodeQuads.induct generalizing data with
  | case1 c0 c1 c2 c3 rest ih =>
      obtain ⟨quad, others, hquad, hothers, rfl⟩ := decodeQuads_cons.mp h
      have hrest : rest.length % 4 = 0 := by
        simp only [List.length_cons] at hlength
        omega
      have hih := ih hrest hothers
      cases hquad with
      | three h0 h1 h2 h3 =>
          rw [Canonical.three (base64Digit_ne_equals _) (base64Digit_ne_equals _), ← hih]
          show base64Encode (_ :: _ :: _ :: others) = _ ↔ _
          rw [encode_three h0 h1 h2 h3]
          simp
      | two h0 h1 h2 =>
          rw [Canonical.two h2, ← decodeQuads_eq_nil hrest hothers]
          cases others with
          | nil =>
              obtain rfl := (decodeQuads_eq_nil hrest hothers).mp rfl
              rw [List.append_nil, encode_two h0 h1 h2]
              simp [base64Digit_cleared h2]
          | cons c others =>
              -- a third octet stands where the text has padding
              refine iff_of_false (fun heq => ?_) (fun hcanonical => nomatch hcanonical.2)
              simp only [List.cons_append, List.nil_append, base64Encode, List.cons.injEq] at heq
              exact base64Digit_ne_equals _ heq.2.2.2.1
      | one h0 h1 =>
          rw [Canonical.one h1, ← decodeQuads_eq_nil hrest hothers]
          cases others with
          | nil =>
              obtain rfl := (decodeQuads_eq_nil hrest hothers).mp rfl
              rw [List.append_nil, encode_one h0 h1]
              simp [base64Digit_cleared h1, and_comm, @eq_comm _ EQUALS]
          | cons c others =>
              refine iff_of_false (fun heq => ?_) (fun hcanonical => nomatch hcanonical.2.2)
              cases others with
              | nil =>
                  simp only [List.cons_append, List.nil_append, base64Encode,
                    List.cons.injEq] at heq
                  exact base64Digit_ne_equals _ heq.2.2.1
              | cons c' others =>
                  simp only [List.cons_append, List.nil_append, base64Encode,
                    List.cons.injEq] at heq
                  exact base64Digit_ne_equals _ heq.2.2.1
  | case2 text hshort =>
      obtain rfl := eq_nil_of_length_mod hlength hshort
      obtain rfl := Option.some.inj h
      exact iff_of_true rfl trivial

/-! ### Both calls -/

theorem written_injective {data data' : Bytes}
    (h : (Except.ok (written data) : Except Fault Outcome) = .ok (written data')) :
    data = data' := congrArg Outcome.output (Except.ok.inj h)

theorem Base64Encode_queried {data : Bytes} (hfits : 4 * ((data.length + 2) / 3) < 2 ^ 31)
    (hsize : data.length < 2 ^ 31) :
    queried (Base64Encode ⟨data, hsize⟩) = .ok (written (base64Encode data)) := by
  apply queried_written
  rw [length_base64Encode]
  exact (encodedSize_toInt hfits).ge

/-- What the call does with a text of whole quads. -/
theorem Base64Decode_quads {text : Buffer} (hlength : text.1.length % 4 = 0) :
    ∃ requiredSize : Int32,
      requiredSize.toInt = (text.1.length / 4 * 3 - paddingCount text.1 : ℕ) ∧
      ∀ buffer, Base64Decode text buffer = withRoom requiredSize buffer fun capacity =>
        match decodeQuads text.1 with
        | none => .ok { status := INVALID_DATA }
        | some data => fillWith data capacity := by
  refine ⟨_, ?_, fun buffer => by
    rw [Base64Decode, if_neg (not_not.mpr hlength)]⟩
  have hsize : (if text.1.length = 0 then 0 else text.1.length / 4 * 3 - paddingCount text.1) =
      text.1.length / 4 * 3 - paddingCount text.1 := by
    split_ifs with hempty
    · simp [hempty]
    · rfl
  have hlt := text.2
  rw [hsize, Int32.toInt_ofNat_of_lt (by omega)]

theorem Base64Decode_queried {text : Buffer} {data : Bytes} :
    queried (Base64Decode text) = .ok (written data) ↔
      text.1.length % 4 = 0 ∧ decodeQuads text.1 = some data := by
  constructor
  · intro h
    obtain ⟨buffer, hwritten⟩ := written_of_queried h
    by_cases hlength : text.1.length % 4 = 0
    · refine ⟨hlength, ?_⟩
      obtain ⟨requiredSize, -, hcall⟩ := Base64Decode_quads hlength
      rw [hcall] at hwritten
      cases hdata : decodeQuads text.1 with
      | none =>
          rw [hdata] at hwritten
          cases buffer with
          | none => cases hwritten
          | some capacity =>
              rw [withRoom] at hwritten
              split_ifs at hwritten <;> cases hwritten
      | some decoded =>
          rw [hdata] at hwritten
          rw [(withRoom_written hwritten).1]
    · rw [Base64Decode, if_pos hlength] at hwritten
      cases hwritten
  · rintro ⟨hlength, hdata⟩
    obtain ⟨requiredSize, hrequired, hcall⟩ := Base64Decode_quads hlength
    rw [funext hcall, hdata]
    apply queried_written
    have hbound := length_decodeQuads hlength hdata
    omega

/-- The encoder is undone by the decoder as far as a text can be; the decoder is undone by
the encoder where the text is the one that is written for what it says. -/
theorem Base64_roundTrips (data text : Buffer) :
    ((∃ encoded : Buffer, queried (Base64Encode data) = .ok (written encoded.1) ∧
        queried (Base64Decode encoded) = .ok (written data.1)) ↔
      4 * ((data.1.length + 2) / 3) < 2 ^ 31) ∧
    (queried (Base64Decode text) = .ok (written data.1) →
      (queried (Base64Encode data) = .ok (written text.1) ↔ Canonical text.1)) := by
  constructor
  · constructor
    · rintro ⟨text, hencode, -⟩
      obtain ⟨buffer, hwritten⟩ := written_of_queried hencode
      rw [← length_base64Encode, ← (withRoom_written hwritten).1]
      exact text.2
    · intro hfits
      have hsize : (base64Encode data.1).length < 2 ^ 31 := by
        rw [length_base64Encode]
        exact hfits
      refine ⟨⟨base64Encode data.1, hsize⟩, Base64Encode_queried hfits data.2, ?_⟩
      apply Base64Decode_queried.mpr
      exact ⟨by rw [length_base64Encode]; omega, decodeQuads_base64Encode data.1⟩
  · intro h
    obtain ⟨hlength, hdata⟩ := Base64Decode_queried.mp h
    have hbound := length_decodeQuads hlength hdata
    have hfits : 4 * ((data.1.length + 2) / 3) < 2 ^ 31 := by
      have := text.2
      omega
    rw [Base64Encode_queried hfits data.2, ← base64Encode_of_decodeQuads hlength hdata]
    exact ⟨written_injective, fun heq => by rw [heq]⟩

/-- One octet there and back, and `AA=A`, which is taken for it too. -/
theorem Base64_roundTrips_octet :
    (∃ text : Buffer, queried (Base64Encode ⟨[0], by decide⟩) = .ok (written text.1) ∧
        queried (Base64Decode text) = .ok (written [0])) ∧
      ¬ queried (Base64Encode ⟨[0], by decide⟩) =
        .ok (written [0x41, 0x41, EQUALS, 0x41]) := by
  refine ⟨(Base64_roundTrips ⟨[0], by decide⟩ ⟨[], by decide⟩).1.mpr (by decide), ?_⟩
  rw [(Base64_roundTrips ⟨[0], by decide⟩ ⟨[0x41, 0x41, EQUALS, 0x41], by decide⟩).2 (by rfl)]
  simp [Canonical, EQUALS]

/-- `AA=A`, `AA==AAAA` and `AB==` are all accepted, and none comes back. -/
theorem Base64Decode_accepts_noncanonical :
    ((ascii "AA=A" = [0x41, 0x41, 0x3D, 0x41] ∧
        queried (Base64Decode ⟨[0x41, 0x41, 0x3D, 0x41], by decide⟩) = .ok (written [0]) ∧
        queried (Base64Encode ⟨[0], by decide⟩) ≠ .ok (written [0x41, 0x41, 0x3D, 0x41])) ∧
      ascii "AA==AAAA" = [0x41, 0x41, 0x3D, 0x3D, 0x41, 0x41, 0x41, 0x41] ∧
        queried (Base64Decode ⟨[0x41, 0x41, 0x3D, 0x3D, 0x41, 0x41, 0x41, 0x41], by decide⟩) =
          .ok (written [0, 0, 0, 0]) ∧
        queried (Base64Encode ⟨[0, 0, 0, 0], by decide⟩) ≠
          .ok (written [0x41, 0x41, 0x3D, 0x3D, 0x41, 0x41, 0x41, 0x41])) ∧
      ascii "AB==" = [0x41, 0x42, 0x3D, 0x3D] ∧
        queried (Base64Decode ⟨[0x41, 0x42, 0x3D, 0x3D], by decide⟩) = .ok (written [0]) ∧
        queried (Base64Encode ⟨[0], by decide⟩) ≠ .ok (written [0x41, 0x42, 0x3D, 0x3D]) := by
  refine ⟨⟨⟨?_, ?_, ?_⟩, ?_, ?_, ?_⟩, ?_, ?_, ?_⟩ <;> decide

end HashCryptoLib.Utils
