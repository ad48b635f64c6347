import HashCryptoLib.CryptoApi.StandIn
import HashCryptoLib.Utils.Padding

/-!
Buffers under the older ciphers: a salt, an initialization vector, the ciphertext, and a MAC of
all of these. The provider pads where the mode works on whole blocks and says the size of
the ciphertext before it is asked to write it.
-/

namespace HashCryptoLib.CryptoApi

open Pgp (Status Buffer ascii)
open Pgp.Status
open Utils (padding withPadValue PaddingScheme)
open Utils.PaddingScheme

/-! ### Algorithms -/

inductive LegacySymmetricAlgorithm
  | LEGACY_AES_128_CBC | LEGACY_AES_192_CBC | LEGACY_AES_256_CBC
  | LEGACY_AES_128_CTR | LEGACY_AES_192_CTR | LEGACY_AES_256_CTR
  | LEGACY_AES_128_CFB | LEGACY_AES_192_CFB | LEGACY_AES_256_CFB
  | LEGACY_AES_128_OFB | LEGACY_AES_192_OFB | LEGACY_AES_256_OFB
  | LEGACY_AES_128_ECB | LEGACY_AES_192_ECB | LEGACY_AES_256_ECB
  | LEGACY_RC2_CBC | LEGACY_RC2_ECB | LEGACY_DES_CBC | LEGACY_DES_ECB
  | LEGACY_3DES_CBC | LEGACY_3DES_ECB | LEGACY_RC4
  deriving DecidableEq, Repr

inductive GcryCipher
  | GCRY_CIPHER_AES | GCRY_CIPHER_AES192 | GCRY_CIPHER_AES256 | GCRY_CIPHER_RFC2268_128
  | GCRY_CIPHER_DES | GCRY_CIPHER_3DES | GCRY_CIPHER_ARCFOUR
  deriving DecidableEq, Repr

inductive GcryMode
  | GCRY_CIPHER_MODE_CBC | GCRY_CIPHER_MODE_CTR | GCRY_CIPHER_MODE_CFB | GCRY_CIPHER_MODE_OFB
  | GCRY_CIPHER_MODE_ECB | GCRY_CIPHER_MODE_STREAM
  deriving DecidableEq, Repr

open LegacySymmetricAlgorithm GcryCipher GcryMode

structure LegacySpec where
  cipherAlgorithm : GcryCipher
  cipherMode : GcryMode
  keySize : ℕ
  usesIv : Bool
  padded : Bool

def LegacyAlgorithmSpec : LegacySymmetricAlgorithm → LegacySpec
  | LEGACY_AES_128_CBC => ⟨GCRY_CIPHER_AES, GCRY_CIPHER_MODE_CBC, 16, true, true⟩
  | LEGACY_AES_192_CBC => ⟨GCRY_CIPHER_AES192, GCRY_CIPHER_MODE_CBC, 24, true, true⟩
  | LEGACY_AES_256_CBC => ⟨GCRY_CIPHER_AES256, GCRY_CIPHER_MODE_CBC, 32, true, true⟩
  | LEGACY_AES_128_CTR => ⟨GCRY_CIPHER_AES, GCRY_CIPHER_MODE_CTR, 16, true, false⟩
  | LEGACY_AES_192_CTR => ⟨GCRY_CIPHER_AES192, GCRY_CIPHER_MODE_CTR, 24, true, false⟩
  | LEGACY_AES_256_CTR => ⟨GCRY_CIPHER_AES256, GCRY_CIPHER_MODE_CTR, 32, true, false⟩
  | LEGACY_AES_128_CFB => ⟨GCRY_CIPHER_AES, GCRY_CIPHER_MODE_CFB, 16, true, false⟩
  | LEGACY_AES_192_CFB => ⟨GCRY_CIPHER_AES192, GCRY_CIPHER_MODE_CFB, 24, true, false⟩
  | LEGACY_AES_256_CFB => ⟨GCRY_CIPHER_AES256, GCRY_CIPHER_MODE_CFB, 32, true, false⟩
  | LEGACY_AES_128_OFB => ⟨GCRY_CIPHER_AES, GCRY_CIPHER_MODE_OFB, 16, true, false⟩
  | LEGACY_AES_192_OFB => ⟨GCRY_CIPHER_AES192, GCRY_CIPHER_MODE_OFB, 24, true, false⟩
  | LEGACY_AES_256_OFB => ⟨GCRY_CIPHER_AES256, GCRY_CIPHER_MODE_OFB, 32, true, false⟩
  | LEGACY_AES_128_ECB => ⟨GCRY_CIPHER_AES, GCRY_CIPHER_MODE_ECB, 16, false, true⟩
  | LEGACY_AES_192_ECB => ⟨GCRY_CIPHER_AES192, GCRY_CIPHER_MODE_ECB, 24, false, true⟩
  | LEGACY_AES_256_ECB => ⟨GCRY_CIPHER_AES256, GCRY_CIPHER_MODE_ECB, 32, false, true⟩
  | LEGACY_RC2_CBC => ⟨GCRY_CIPHER_RFC2268_128, GCRY_CIPHER_MODE_CBC, 16, true, true⟩
  | LEGACY_RC2_ECB => ⟨GCRY_CIPHER_RFC2268_128, GCRY_CIPHER_MODE_ECB, 16, false, true⟩
  | LEGACY_DES_CBC => ⟨GCRY_CIPHER_DES, GCRY_CIPHER_MODE_CBC, 8, true, true⟩
  | LEGACY_DES_ECB => ⟨GCRY_CIPHER_DES, GCRY_CIPHER_MODE_ECB, 8, false, true⟩
  | LEGACY_3DES_CBC => ⟨GCRY_CIPHER_3DES, GCRY_CIPHER_MODE_CBC, 24, true, true⟩
  | LEGACY_3DES_ECB => ⟨GCRY_CIPHER_3DES, GCRY_CIPHER_MODE_ECB, 24, false, true⟩
  | LEGACY_RC4 => ⟨GCRY_CIPHER_ARCFOUR, GCRY_CIPHER_MODE_STREAM, 16, false, false⟩

/-- `gcry_cipher_get_algo_blklen` -/
def GcryCipher.blklen : GcryCipher → ℕ
  | GCRY_CIPHER_AES | GCRY_CIPHER_AES192 | GCRY_CIPHER_AES256 => 16
  | GCRY_CIPHER_RFC2268_128 | GCRY_CIPHER_DES | GCRY_CIPHER_3DES => 8
  | GCRY_CIPHER_ARCFOUR => 1

def LegacySpec.blockSize (spec : LegacySpec) : ℕ := spec.cipherAlgorithm.blklen

def LegacySpec.ivSize (spec : LegacySpec) : ℕ := if spec.usesIv then spec.blockSize else 0

def LEGACY_MAC_KEY_SIZE : ℕ := 32
def LEGACY_MAC_SIZE : ℕ := 32

/-- The cipher library. A key can be refused; what is encrypted and decrypted is as long as
before. -/
structure Gcrypt where
  gcry_cipher_setkey : GcryCipher → Bytes → Bool
  gcry_cipher_encrypt : GcryCipher → GcryMode → (key iv data : Bytes) → Bytes
  gcry_cipher_decrypt : GcryCipher → GcryMode → (key iv data : Bytes) → Bytes
  gcry_kdf_derive : Bytes → Octets PASSWORD_SALT_SIZE → (derivedKeySize : ℕ) →
    Octets derivedKeySize
  gcry_mac : (key data : Bytes) → Octets LEGACY_MAC_SIZE
  length_encrypt : ∀ {cipher mode key iv data},
    (gcry_cipher_encrypt cipher mode key iv data).length = data.length

/-- The modes are inverse, those on blocks for whole blocks. -/
def Gcrypt.Lawful (gcry : Gcrypt) : Prop :=
  ∀ cipher mode key iv data,
    (mode = GCRY_CIPHER_MODE_CBC ∨ mode = GCRY_CIPHER_MODE_ECB → cipher.blklen ∣ data.length) →
    gcry.gcry_cipher_decrypt cipher mode key iv
      (gcry.gcry_cipher_encrypt cipher mode key iv data) = data

/-! ### The provider -/

structure CipherResult where
  ok : Bool := false
  outputBufferSize : ℕ := 0
  output : Bytes := []
  deriving DecidableEq, Repr

variable (gcry : Gcrypt) (spec : LegacySpec)

/-- The size of the ciphertext. -/
def LegacySpec.ciphertextSize (inputBufferSize : ℕ) : ℕ :=
  if spec.padded then (inputBufferSize / spec.blockSize + 1) * spec.blockSize else inputBufferSize

def LegacySpec.padInput (input : Bytes) : Bytes :=
  let padSize := spec.ciphertextSize input.length - input.length
  if spec.padded then input ++ List.replicate padSize (UInt8.ofNat padSize) else input

/-- Without a buffer the capacity is zero. -/
def LegacySpec.encrypt (key iv input : Bytes) (outputBufferCapacity : ℕ) : CipherResult :=
  if 0 < spec.ivSize ∧ iv.length ≠ spec.ivSize then {}
  else
    let required := spec.ciphertextSize input.length
    if outputBufferCapacity = 0 ∨ outputBufferCapacity < required then
      { outputBufferSize := required }
    else if required = 0 then { ok := true }
    else if !gcry.gcry_cipher_setkey spec.cipherAlgorithm key then {}
    else
      { ok := true, outputBufferSize := required,
        output := gcry.gcry_cipher_encrypt spec.cipherAlgorithm spec.cipherMode key iv
          (spec.padInput input) }

/-- The padding is looked at as in `Utils::Unpad`. -/
def LegacySpec.decrypt (key iv input : Bytes) (outputBufferCapacity : ℕ) : CipherResult :=
  if 0 < spec.ivSize ∧ iv.length ≠ spec.ivSize then {}
  else if spec.padded ∧ (input.length = 0 ∨ input.length % spec.blockSize ≠ 0) then {}
  else
    let required := input.length
    if outputBufferCapacity = 0 ∨ outputBufferCapacity < required then
      { outputBufferSize := required }
    else if required = 0 then { ok := true }
    else if !gcry.gcry_cipher_setkey spec.cipherAlgorithm key then {}
    else
      let output := gcry.gcry_cipher_decrypt spec.cipherAlgorithm spec.cipherMode key iv input
      if spec.padded then
        match withPadValue spec.blockSize output fun padSize last => last.all (· = padSize) with
        | none => {}
        | some plaintextSize =>
          { ok := true, outputBufferSize := plaintextSize, output := output.take plaintextSize }
      else { ok := true, outputBufferSize := required, output := output }

/-! ### The calls -/

def LegacySpec.cipherKey (password : Bytes) (salt : Octets PASSWORD_SALT_SIZE) : Bytes :=
  (gcry.gcry_kdf_derive password salt (spec.keySize + LEGACY_MAC_KEY_SIZE)).1.take spec.keySize

def LegacySpec.macKey (password : Bytes) (salt : Octets PASSWORD_SALT_SIZE) : Bytes :=
  (gcry.gcry_kdf_derive password salt (spec.keySize + LEGACY_MAC_KEY_SIZE)).1.drop spec.keySize

/-- `salt` and `iv` are what the random source draws, `none` where it fails. -/
def EncryptLegacyBuffer (salt : Option (Octets PASSWORD_SALT_SIZE))
    (iv : Option (Octets spec.ivSize)) (password input : Buffer) (destination : Destination) :
    Outcome :=
  if password.1 = [] then { status := INVALID_ARGUMENT }
  else
    -- the size is asked for under a key and a vector of zeros
    let requiredCiphertextSize := (spec.encrypt gcry (List.replicate spec.keySize 0)
      (List.replicate spec.ivSize 0) input.1 0).outputBufferSize
    let requiredSize := PASSWORD_SALT_SIZE + spec.ivSize + requiredCiphertextSize + LEGACY_MAC_SIZE
    if requiredSize > INT_MAX then { status := INVALID_ARGUMENT }
    else if destination.outputBuffer = false ∨
        destination.outputBufferCapacity.toInt < requiredSize then
      { status := BUFFER_TOO_SMALL, outputBufferSize := requiredSize }
    else
      match salt, iv with
      | some salt, some iv =>
        let ciphertext := spec.encrypt gcry (spec.cipherKey gcry password.1 salt) iv.1 input.1
          requiredCiphertextSize
        if !ciphertext.ok then { status := UNEXPECTED_ERROR }
        else
          let macInput := salt.1 ++ iv.1 ++ ciphertext.output
          { status := NO_ERROR
            outputBufferSize := macInput.length + LEGACY_MAC_SIZE
            output := macInput ++ (gcry.gcry_mac (spec.macKey gcry password.1 salt) macInput).1 }
      | _, _ => { status := UNEXPECTED_ERROR }

def DecryptLegacyBuffer (password input : Buffer) (destination : Destination) : Outcome :=
  let overhead := PASSWORD_SALT_SIZE + spec.ivSize + LEGACY_MAC_SIZE
  if password.1 = [] then { status := INVALID_ARGUMENT }
  else if hshort : input.1.length < overhead then { status := INVALID_DATA }
  else
    let salt : Octets PASSWORD_SALT_SIZE :=
      ⟨input.1.take PASSWORD_SALT_SIZE, List.length_take_of_le (by omega)⟩
    let iv := (input.1.drop PASSWORD_SALT_SIZE).take spec.ivSize
    let macInput := input.1.take (input.1.length - LEGACY_MAC_SIZE)
    let ciphertext := macInput.drop (PASSWORD_SALT_SIZE + spec.ivSize)
    let receivedMac := input.1.drop (input.1.length - LEGACY_MAC_SIZE)
    if (gcry.gcry_mac (spec.macKey gcry password.1 salt) macInput).1 ≠ receivedMac then
      { status := INVALID_DATA }
    else
      let key := spec.cipherKey gcry password.1 salt
      let requiredPlaintextSize := (spec.decrypt gcry key iv ciphertext 0).outputBufferSize
      if destination.outputBuffer = false ∨
          destination.outputBufferCapacity.toInt < requiredPlaintextSize then
        { status := BUFFER_TOO_SMALL, outputBufferSize := requiredPlaintextSize }
      else
        let plaintext :=
          spec.decrypt gcry key iv ciphertext destination.outputBufferCapacity.toInt.toNat
        if !plaintext.ok then { status := INVALID_DATA }
        else
          { status := NO_ERROR
            outputBufferSize := plaintext.outputBufferSize
            output := plaintext.output }

/-- A call with a buffer of the size that it asked for. -/
def queried (call : Destination → Outcome) : Outcome :=
  let query := call ⟨false, 0⟩
  if query.status = BUFFER_TOO_SMALL then call ⟨true, Int32.ofNat query.outputBufferSize⟩
  else query

/-! ### The provider undoes what it did -/

/-- What the table of algorithms keeps to. -/
structure LegacySpec.Sound : Prop where
  blockSize_pos : 0 < spec.blockSize
  blockSize_le : spec.blockSize ≤ 16
  padded : spec.cipherMode = GCRY_CIPHER_MODE_CBC ∨ spec.cipherMode = GCRY_CIPHER_MODE_ECB →
    spec.padded = true

theorem LegacyAlgorithmSpec_sound (algorithm : LegacySymmetricAlgorithm) :
    (LegacyAlgorithmSpec algorithm).Sound := by
  cases algorithm <;> exact ⟨by decide, by decide, by decide⟩

variable {gcry spec}

section Provider

variable {key iv input : Bytes}

theorem LegacySpec.ciphertextSize_padded (hspec : spec.Sound) (hpadded : spec.padded = true)
    (n : ℕ) : spec.ciphertextSize n = n + (spec.blockSize - n % spec.blockSize) := by
  have hsplit := Nat.div_add_mod' n spec.blockSize
  have hlt := Nat.mod_lt n hspec.blockSize_pos
  rw [ciphertextSize, if_pos hpadded, Nat.add_mul, Nat.one_mul]
  omega

theorem LegacySpec.le_ciphertextSize (hspec : spec.Sound) (n : ℕ) :
    n ≤ spec.ciphertextSize n := by
  cases hpadded : spec.padded with
  | true =>
      rw [ciphertextSize_padded hspec hpadded]
      exact Nat.le_add_right _ _
  | false => simp [ciphertextSize, hpadded]

theorem LegacySpec.length_padInput (hspec : spec.Sound) :
    (spec.padInput input).length = spec.ciphertextSize input.length := by
  have hle := le_ciphertextSize hspec input.length
  cases hpadded : spec.padded with
  | true =>
      rw [padInput, if_pos hpadded, List.length_append, List.length_replicate]
      omega
  | false => simp [padInput, ciphertextSize, hpadded]

/-- The padding is found again. -/
theorem LegacySpec.withPadValue_padInput (hspec : spec.Sound) (hpadded : spec.padded = true) :
    withPadValue spec.blockSize (spec.padInput input) (fun padSize last => last.all (· = padSize)) =
      some input.length := by
  have hle := hspec.blockSize_le
  have hlt := Nat.mod_lt input.length hspec.blockSize_pos
  have hpad : spec.padInput input = input ++ padding (fun _ => 0) PADDING_PKCS7
      (spec.blockSize - input.length % spec.blockSize - 1 + 1) := by
    rw [padInput, if_pos hpadded, ciphertextSize_padded hspec hpadded, Nat.add_sub_cancel_left,
      Nat.sub_add_cancel (by omega)]
    rfl
  exact (@Utils.dataLength_iff PADDING_PKCS7 _ _ _ ⟨nofun, nofun⟩ (by omega)).mpr
    ⟨input, fun _ => 0, _, rfl, fun _ => by omega, hpad⟩

theorem LegacySpec.encrypt_query (hiv : iv.length = spec.ivSize) :
    (spec.encrypt gcry key iv input 0).outputBufferSize = spec.ciphertextSize input.length := by
  rw [encrypt, if_neg (fun h => h.2 hiv)]
  simp

/-- The provider writes a ciphertext unless there is none to write or the key is refused. -/
theorem LegacySpec.encrypt_exact (hiv : iv.length = spec.ivSize) :
    spec.encrypt gcry key iv input (spec.ciphertextSize input.length) =
      if spec.ciphertextSize input.length = 0 then {}
      else if gcry.gcry_cipher_setkey spec.cipherAlgorithm key = false then {}
      else
        { ok := true, outputBufferSize := spec.ciphertextSize input.length,
          output := gcry.gcry_cipher_encrypt spec.cipherAlgorithm spec.cipherMode key iv
            (spec.padInput input) } := by
  rw [encrypt, if_neg (fun h => h.2 hiv)]
  dsimp only
  by_cases hzero : spec.ciphertextSize input.length = 0
  · rw [if_pos (.inl hzero), if_pos hzero, hzero]
  · rw [if_neg (by omega), if_neg hzero, if_neg hzero]
    cases gcry.gcry_cipher_setkey spec.cipherAlgorithm key <;> rfl

/-- What the provider wrote is decrypted again where there is room for all of it, padding
included. -/
theorem LegacySpec.decrypt_ciphertext (hlawful : gcry.Lawful) (hspec : spec.Sound)
    (hiv : iv.length = spec.ivSize) (hpos : spec.ciphertextSize input.length ≠ 0)
    (hkey : gcry.gcry_cipher_setkey spec.cipherAlgorithm key = true) {ciphertext : Bytes}
    (hciphertext : ciphertext = gcry.gcry_cipher_encrypt spec.cipherAlgorithm spec.cipherMode
      key iv (spec.padInput input)) (capacity : ℕ) :
    spec.decrypt gcry key iv ciphertext capacity =
      if capacity < ciphertext.length then { outputBufferSize := ciphertext.length }
      else { ok := true, outputBufferSize := input.length, output := input } := by
  have hlength : ciphertext.length = spec.ciphertextSize input.length := by
    rw [hciphertext, gcry.length_encrypt, length_padInput hspec]
  have hblocks : spec.padded = true → ciphertext.length % spec.blockSize = 0 := by
    intro hpadded
    rw [hlength, ciphertextSize, if_pos hpadded, Nat.mul_mod_left]
  have hback : gcry.gcry_cipher_decrypt spec.cipherAlgorithm spec.cipherMode key iv ciphertext =
      spec.padInput input := by
    rw [hciphertext]
    apply hlawful
    intro hmode
    rw [length_padInput hspec, ← hlength]
    exact Nat.dvd_of_mod_eq_zero (hblocks (hspec.padded hmode))
  rw [decrypt, if_neg (fun h => h.2 hiv), if_neg]
  · dsimp only
    by_cases hroom : capacity < ciphertext.length
    · rw [if_pos (.inr hroom), if_pos hroom]
    · rw [if_neg (by omega), if_neg hroom, if_neg (by omega), hkey, hback]
      cases hpadded : spec.padded with
      | true =>
          have htake : (spec.padInput input).take input.length = input := by
            rw [padInput, if_pos hpadded, List.take_left' rfl]
          simp [withPadValue_padInput hspec hpadded, htake]
      | false =>
          have hsize : ciphertext.length = input.length := by
            rw [hlength, ciphertextSize, hpadded]
            rfl
          simp [padInput, hpadded, hsize]
  · rintro ⟨hpadded, hempty | hrest⟩
    · omega
    · exact hrest (hblocks hpadded)

end Provider

/-! ### Whole messages -/

/-- The sizes of a message. -/
def LegacySpec.messageSize (inputBufferSize : ℕ) : ℕ :=
  PASSWORD_SALT_SIZE + spec.ivSize + spec.ciphertextSize inputBufferSize + LEGACY_MAC_SIZE

section Messages

variable {salt : Octets PASSWORD_SALT_SIZE} {iv : Octets spec.ivSize} {password input : Buffer}

/-- Everything in front of the MAC. -/
def LegacySpec.macInput (gcry : Gcrypt) (salt : Octets PASSWORD_SALT_SIZE)
    (iv : Octets spec.ivSize) (password input : Bytes) : Bytes :=
  salt.1 ++ iv.1 ++ gcry.gcry_cipher_encrypt spec.cipherAlgorithm spec.cipherMode
    (spec.cipherKey gcry password salt) iv.1 (spec.padInput input)

def LegacySpec.message (gcry : Gcrypt) (salt : Octets PASSWORD_SALT_SIZE)
    (iv : Octets spec.ivSize) (password input : Bytes) : Bytes :=
  spec.macInput gcry salt iv password input ++
    (gcry.gcry_mac (spec.macKey gcry password salt) (spec.macInput gcry salt iv password input)).1

theorem LegacySpec.length_macInput (hspec : spec.Sound) {password input : Bytes} :
    (spec.macInput gcry salt iv password input).length =
      PASSWORD_SALT_SIZE + spec.ivSize + spec.ciphertextSize input.length := by
  rw [macInput, List.length_append, List.length_append, gcry.length_encrypt,
    length_padInput hspec, salt.2, iv.2]

theorem LegacySpec.length_message (hspec : spec.Sound) {password input : Bytes} :
    (spec.message gcry salt iv password input).length = spec.messageSize input.length := by
  rw [message, List.length_append, length_macInput hspec, messageSize, Octets.length_eq]

/-- What the call does once there is room. -/
def LegacySpec.encrypted (gcry : Gcrypt) (salt : Octets PASSWORD_SALT_SIZE)
    (iv : Octets spec.ivSize) (password input : Bytes) : Outcome :=
  if spec.ciphertextSize input.length = 0 ∨
      gcry.gcry_cipher_setkey spec.cipherAlgorithm (spec.cipherKey gcry password salt) = false then
    { status := UNEXPECTED_ERROR }
  else
    { status := NO_ERROR, outputBufferSize := spec.messageSize input.length,
      output := spec.message gcry salt iv password input }

theorem EncryptLegacyBuffer_eq (hspec : spec.Sound) (hpassword : password.1 ≠ [])
    (destination : Destination) :
    EncryptLegacyBuffer gcry spec (some salt) (some iv) password input destination =
      if spec.messageSize input.1.length > INT_MAX then { status := INVALID_ARGUMENT }
      else if destination.outputBuffer = false ∨
          destination.outputBufferCapacity.toInt < spec.messageSize input.1.length then
        { status := BUFFER_TOO_SMALL, outputBufferSize := spec.messageSize input.1.length }
      else spec.encrypted gcry salt iv password.1 input.1 := by
  have hquery := @LegacySpec.encrypt_query gcry spec (List.replicate spec.keySize 0)
    (List.replicate spec.ivSize 0) input.1 List.length_replicate
  rw [EncryptLegacyBuffer, if_neg hpassword, hquery]
  show (if spec.messageSize input.1.length > INT_MAX then _ else _) = _
  congr 1
  show (if _ ∨ _ < (spec.messageSize input.1.length : ℤ) then _ else _) = _
  congr 1
  dsimp only
  rw [LegacySpec.encrypt_exact iv.2, LegacySpec.encrypted]
  by_cases hzero : spec.ciphertextSize input.1.length = 0
  · rw [if_pos hzero]
    simp [hzero]
  · rw [if_neg hzero]
    cases hkey : gcry.gcry_cipher_setkey spec.cipherAlgorithm
        (spec.cipherKey gcry password.1 salt) with
    | false => simp
    | true =>
        have hsize : (spec.macInput gcry salt iv password.1 input.1).length + LEGACY_MAC_SIZE =
            spec.messageSize input.1.length := by
          rw [LegacySpec.length_macInput hspec]
          rfl
        rw [if_neg (by simp), if_neg (by simp), if_neg (by simp [hzero]), ← hsize]
        rfl

/-- What a caller gets who asks for the size first. -/
theorem EncryptLegacyBuffer_queried (hspec : spec.Sound) (hpassword : password.1 ≠ []) :
    queried (EncryptLegacyBuffer gcry spec (some salt) (some iv) password input) =
      if spec.messageSize input.1.length > INT_MAX then { status := INVALID_ARGUMENT }
      else spec.encrypted gcry salt iv password.1 input.1 := by
  rw [queried, EncryptLegacyBuffer_eq hspec hpassword, EncryptLegacyBuffer_eq hspec hpassword]
  by_cases hsize : spec.messageSize input.1.length > INT_MAX
  · simp only [if_pos hsize]
    rfl
  · have hlt : spec.messageSize input.1.length < 2 ^ 31 := by
      unfold INT_MAX at hsize
      omega
    simp only [if_neg hsize, true_or, if_true]
    rw [Int32.toInt_ofNat_of_lt hlt, if_neg (by simp)]

section Parts

variable {password input : Bytes}

theorem LegacySpec.size_message (hspec : spec.Sound) :
    (spec.message gcry salt iv password input).length - LEGACY_MAC_SIZE =
      (spec.macInput gcry salt iv password input).length := by
  rw [length_message hspec, messageSize, Nat.add_sub_cancel, length_macInput hspec]

theorem LegacySpec.take_message (hspec : spec.Sound) :
    (spec.message gcry salt iv password input).take
        ((spec.message gcry salt iv password input).length - LEGACY_MAC_SIZE) =
      spec.macInput gcry salt iv password input := by
  rw [size_message hspec, message, List.take_left' rfl]

theorem LegacySpec.drop_message (hspec : spec.Sound) :
    (spec.message gcry salt iv password input).drop
        ((spec.message gcry salt iv password input).length - LEGACY_MAC_SIZE) =
      (gcry.gcry_mac (spec.macKey gcry password salt)
        (spec.macInput gcry salt iv password input)).1 := by
  rw [size_message hspec, message, List.drop_left' rfl]

theorem LegacySpec.take_macInput :
    (spec.macInput gcry salt iv password input).take PASSWORD_SALT_SIZE = salt.1 := by
  rw [macInput, List.append_assoc, List.take_left' salt.2]

theorem LegacySpec.take_drop_message :
    ((spec.message gcry salt iv password input).drop PASSWORD_SALT_SIZE).take spec.ivSize = iv.1 := by
  rw [message, macInput, List.append_assoc, List.append_assoc, List.drop_left' salt.2,
    List.take_left' iv.2]

theorem LegacySpec.drop_macInput :
    (spec.macInput gcry salt iv password input).drop (PASSWORD_SALT_SIZE + spec.ivSize) =
      gcry.gcry_cipher_encrypt spec.cipherAlgorithm spec.cipherMode
        (spec.cipherKey gcry password salt) iv.1 (spec.padInput input) := by
  rw [macInput]
  exact List.drop_left' (by rw [List.length_append, salt.2, iv.2])

end Parts

theorem DecryptLegacyBuffer_message (hlawful : gcry.Lawful) (hspec : spec.Sound)
    (hpassword : password.1 ≠ []) (hpos : spec.ciphertextSize input.1.length ≠ 0)
    (hkey : gcry.gcry_cipher_setkey spec.cipherAlgorithm (spec.cipherKey gcry password.1 salt) =
      true) {message : Buffer} (hmessage : message.1 = spec.message gcry salt iv password.1 input.1)
    (destination : Destination) :
    DecryptLegacyBuffer gcry spec password message destination =
      if destination.outputBuffer = false ∨
          destination.outputBufferCapacity.toInt < spec.ciphertextSize input.1.length then
        { status := BUFFER_TOO_SMALL, outputBufferSize := spec.ciphertextSize input.1.length }
      else { status := NO_ERROR, outputBufferSize := input.1.length, output := input.1 } := by
  have hshort : ¬ message.1.length < PASSWORD_SALT_SIZE + spec.ivSize + LEGACY_MAC_SIZE := by
    rw [hmessage, LegacySpec.length_message hspec, LegacySpec.messageSize]
    omega
  have hsalt : message.1.take PASSWORD_SALT_SIZE = salt.1 := by
    rw [hmessage, LegacySpec.message, LegacySpec.macInput, List.append_assoc, List.append_assoc,
      List.take_left' salt.2]
  have hiv := @LegacySpec.take_drop_message gcry spec salt iv password.1 input.1
  have hmacInput := @LegacySpec.take_message gcry spec salt iv password.1 input.1 hspec
  have hmac := @LegacySpec.drop_message gcry spec salt iv password.1 input.1 hspec
  rw [← hmessage] at hiv hmacInput hmac
  have hdecrypt := fun capacity => LegacySpec.decrypt_ciphertext hlawful hspec iv.2 hpos hkey
    rfl capacity
  have hsized : (gcry.gcry_cipher_encrypt spec.cipherAlgorithm spec.cipherMode
      (spec.cipherKey gcry password.1 salt) iv.1 (spec.padInput input.1)).length =
      spec.ciphertextSize input.1.length := by
    rw [gcry.length_encrypt, LegacySpec.length_padInput hspec]
  rw [DecryptLegacyBuffer]
  simp only [if_neg hpassword, dif_neg hshort, hsalt, Subtype.coe_eta, hiv, hmacInput, hmac,
    ne_eq, not_true_eq_false, if_false, LegacySpec.drop_macInput, hdecrypt, hsized,
    Nat.pos_of_ne_zero hpos, if_true]
  by_cases hroom : destination.outputBuffer = false ∨
      destination.outputBufferCapacity.toInt < spec.ciphertextSize input.1.length
  · rw [if_pos hroom, if_pos hroom]
  · have hcapacity : ¬ destination.outputBufferCapacity.toInt.toNat <
        spec.ciphertextSize input.1.length := by
      rw [not_or, not_lt] at hroom
      omega
    simp only [if_neg hroom, if_neg hcapacity]
    rfl

/-- Without a forged MAC the message is not to be altered. -/
def LegacySpec.Unforged (gcry : Gcrypt) (password message tampered : Bytes) : Prop :=
  ∀ salt : Octets PASSWORD_SALT_SIZE, salt.1 <+: tampered →
    (gcry.gcry_mac (spec.macKey gcry password salt)
        (tampered.take (tampered.length - LEGACY_MAC_SIZE))).1 =
      tampered.drop (tampered.length - LEGACY_MAC_SIZE) →
    tampered.take (tampered.length - LEGACY_MAC_SIZE) =
      message.take (message.length - LEGACY_MAC_SIZE)

theorem DecryptLegacyBuffer_tampered (hspec : spec.Sound) (hpassword : password.1 ≠ [])
    {tampered : Buffer} (hne : tampered.1 ≠ spec.message gcry salt iv password.1 input.1)
    (hunforged : spec.Unforged gcry password.1 (spec.message gcry salt iv password.1 input.1)
      tampered.1) (destination : Destination) :
    DecryptLegacyBuffer gcry spec password tampered destination = { status := INVALID_DATA } := by
  rw [DecryptLegacyBuffer, if_neg hpassword]
  by_cases hshort : tampered.1.length < PASSWORD_SALT_SIZE + spec.ivSize + LEGACY_MAC_SIZE
  · rw [dif_pos hshort]
  rw [dif_neg hshort]
  dsimp only
  rw [if_pos]
  intro hmac
  have hbody := hunforged _ (List.take_prefix PASSWORD_SALT_SIZE tampered.1) hmac
  rw [LegacySpec.take_message hspec] at hbody
  have hsalt : tampered.1.take PASSWORD_SALT_SIZE = salt.1 := by
    rw [← @LegacySpec.take_macInput gcry spec salt iv password.1 input.1, ← hbody, List.take_take,
      Nat.min_eq_left (by omega)]
  simp only [hsalt, Subtype.coe_eta, hbody] at hmac
  apply hne
  rw [← List.take_append_drop (tampered.1.length - LEGACY_MAC_SIZE) tampered.1, hbody, ← hmac,
    LegacySpec.message]

/-- A plaintext comes back from the message that the call makes of it, and no other octets
come through in its place unless their MAC is forged. -/
def LegacyRoundTrips (gcry : Gcrypt) (spec : LegacySpec) (salt : Octets PASSWORD_SALT_SIZE)
    (iv : Octets spec.ivSize) (password plaintext : Buffer) : Prop :=
  ∃ message : Buffer,
    queried (EncryptLegacyBuffer gcry spec (some salt) (some iv) password plaintext) =
      { status := NO_ERROR, outputBufferSize := message.1.length, output := message.1 } ∧
    queried (DecryptLegacyBuffer gcry spec password message) =
      { status := NO_ERROR, outputBufferSize := plaintext.1.length, output := plaintext.1 } ∧
    ∀ tampered : Buffer, tampered ≠ message →
      spec.Unforged gcry password.1 message.1 tampered.1 →
      ∀ destination, DecryptLegacyBuffer gcry spec password tampered destination =
        { status := INVALID_DATA }

theorem LegacySpec.ciphertextSize_ne_zero_iff (hspec : spec.Sound) (plaintext : Bytes) :
    spec.ciphertextSize plaintext.length ≠ 0 ↔ plaintext ≠ [] ∨ spec.padded = true := by
  have hlt := Nat.mod_lt plaintext.length hspec.blockSize_pos
  cases hpadded : spec.padded with
  | true =>
      rw [ciphertextSize_padded hspec hpadded]
      refine iff_of_true ?_ (.inr rfl)
      omega
  | false => simp [ciphertextSize, hpadded]

/-- Everything comes back but no plaintext at all under a mode without padding, and what would
be too long for an `int`. -/
theorem legacyBuffer_roundTrips (hlawful : gcry.Lawful) (algorithm : LegacySymmetricAlgorithm)
    (salt : Octets PASSWORD_SALT_SIZE) (iv : Octets (LegacyAlgorithmSpec algorithm).ivSize)
    {password : Buffer} (hpassword : password.1 ≠ []) (plaintext : Buffer) :
    LegacyRoundTrips gcry (LegacyAlgorithmSpec algorithm) salt iv password plaintext ↔
      (plaintext.1 ≠ [] ∨ (LegacyAlgorithmSpec algorithm).padded = true) ∧
        (LegacyAlgorithmSpec algorithm).messageSize plaintext.1.length ≤ INT_MAX ∧
        gcry.gcry_cipher_setkey (LegacyAlgorithmSpec algorithm).cipherAlgorithm
          ((LegacyAlgorithmSpec algorithm).cipherKey gcry password.1 salt) = true := by
  have hspec := LegacyAlgorithmSpec_sound algorithm
  rw [← LegacySpec.ciphertextSize_ne_zero_iff hspec]
  constructor
  · rintro ⟨message, hencrypt, -, -⟩
    rw [EncryptLegacyBuffer_queried hspec hpassword] at hencrypt
    by_cases hsize : (LegacyAlgorithmSpec algorithm).messageSize plaintext.1.length > INT_MAX
    · rw [if_pos hsize] at hencrypt
      cases congrArg Outcome.status hencrypt
    · rw [if_neg hsize, LegacySpec.encrypted] at hencrypt
      split_ifs at hencrypt with hfails
      · cases congrArg Outcome.status hencrypt
      · rw [not_or, Bool.not_eq_false] at hfails
        exact ⟨hfails.1, Nat.not_lt.mp hsize, hfails.2⟩
  · rintro ⟨hpos, hsize, hkey⟩
    have hlength := @LegacySpec.length_message gcry _ salt iv hspec password.1 plaintext.1
    have hlt : (LegacyAlgorithmSpec algorithm).messageSize plaintext.1.length < 2 ^ 31 := by
      unfold INT_MAX at hsize
      omega
    obtain ⟨message, hmessage⟩ : ∃ message : Buffer, message.1 =
        (LegacyAlgorithmSpec algorithm).message gcry salt iv password.1 plaintext.1 :=
      ⟨⟨_, hlength.trans_lt hlt⟩, rfl⟩
    refine ⟨message, ?_, ?_, ?_⟩
    · rw [EncryptLegacyBuffer_queried hspec hpassword, if_neg (Nat.not_lt.mpr hsize),
        LegacySpec.encrypted, if_neg (by simp [hpos, hkey]), hmessage, hlength]
    · have hcall := DecryptLegacyBuffer_message hlawful hspec hpassword hpos hkey hmessage
      have hciphertext : (LegacyAlgorithmSpec algorithm).ciphertextSize plaintext.1.length <
          2 ^ 31 := by
        rw [LegacySpec.messageSize] at hlt
        omega
      rw [queried, hcall, hcall]
      simp [Int32.toInt_ofNat_of_lt hciphertext]
    · intro tampered hne hunforged
      rw [hmessage] at hunforged
      exact DecryptLegacyBuffer_tampered hspec hpassword
        (fun heq => hne (Subtype.ext (heq.trans hmessage.symm))) hunforged

end Messages

/-! ### An empty plaintext -/

/-- A cipher library to evaluate calls with: every mode is a keystream. -/
def standInGcrypt : Gcrypt where
  gcry_cipher_setkey _ _ := true
  gcry_cipher_encrypt _ _ key iv data := StandIn.mask (Sha.sha256.hash (key ++ iv)) data
  gcry_cipher_decrypt _ _ key iv data := StandIn.mask (Sha.sha256.hash (key ++ iv)) data
  gcry_kdf_derive password salt derivedKeySize :=
    ⟨(List.range derivedKeySize).map fun i => (Sha.sha256.hash (password ++ salt.1)).getD (i % 32) 0,
      by simp⟩
  gcry_mac key data := ⟨Sha.sha256.hash (key ++ data), Sha.Variant.length_hash _ _⟩
  length_encrypt := StandIn.length_mask _ _

theorem standInGcrypt_lawful : standInGcrypt.Lawful := by
  intro cipher mode key iv data _
  exact StandIn.mask_mask _ _

def legacySalt : Octets PASSWORD_SALT_SIZE :=
  ⟨(List.range 16).map fun i => UInt8.ofNat (17 * i + 3), by decide⟩

def legacyIv : Octets (LegacyAlgorithmSpec LEGACY_AES_256_CBC).ivSize :=
  ⟨(List.range 16).map fun i => UInt8.ofNat (29 * i + 5), by decide⟩

/-- Two blocks and a part of the third, which is padded. -/
theorem legacyBuffer_roundTrips_threeBlocks :
    LegacyRoundTrips standInGcrypt (LegacyAlgorithmSpec LEGACY_AES_256_CBC) legacySalt legacyIv
      ⟨ascii "correct horse", by decide⟩ ⟨ascii "forty octets of text for a block cipher.", by decide⟩ :=
  (legacyBuffer_roundTrips standInGcrypt_lawful LEGACY_AES_256_CBC legacySalt legacyIv
    (by decide) ⟨ascii "forty octets of text for a block cipher.", by decide⟩).mpr
      ⟨.inr rfl, by decide, rfl⟩

/-- No plaintext under a counter mode: the size is answered, the call with such a buffer
fails. -/
theorem EncryptLegacyBuffer_empty :
    queried (EncryptLegacyBuffer standInGcrypt (LegacyAlgorithmSpec LEGACY_AES_256_CTR)
        (some (Pgp.Octets.zero _)) (some (Pgp.Octets.zero _)) ⟨[0x70], by decide⟩
        ⟨[], by decide⟩) = { status := UNEXPECTED_ERROR } ∧
      ¬ LegacyRoundTrips standInGcrypt (LegacyAlgorithmSpec LEGACY_AES_256_CTR)
        (Pgp.Octets.zero _) (Pgp.Octets.zero _) ⟨[0x70], by decide⟩ ⟨[], by decide⟩ := by
  have hfails : queried (EncryptLegacyBuffer standInGcrypt
      (LegacyAlgorithmSpec LEGACY_AES_256_CTR) (some (Pgp.Octets.zero _))
      (some (Pgp.Octets.zero _)) ⟨[0x70], by decide⟩ ⟨[], by decide⟩) =
        { status := UNEXPECTED_ERROR } := by
    rw [EncryptLegacyBuffer_queried (LegacyAlgorithmSpec_sound _) (by decide), if_neg (by decide),
      LegacySpec.encrypted, if_pos (.inl (by decide))]
  refine ⟨hfails, ?_⟩
  rintro ⟨message, hencrypt, -⟩
  rw [hfails] at hencrypt
  cases congrArg Outcome.status hencrypt

end HashCryptoLib.CryptoApi
