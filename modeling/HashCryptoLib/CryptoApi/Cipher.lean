import HashCryptoLib.Pgp.State

/-!
Authenticated encryption under one key: what a provider's cipher offers, and
the record the two key-based calls write and read, which is a nonce, the
ciphertext and a tag.
-/

namespace HashCryptoLib.CryptoApi

open Pgp (Status Failure fail)
open Pgp.Status

def INT_MAX : ℕ := 2 ^ 31 - 1

def PASSWORD_SALT_SIZE : ℕ := 16
def FILE_CHUNK_SIZE : ℕ := 1048576 * 0 + 1024 * 1
def BUFFER_CHUNK_SIZE : ℕ := 1048576 * 0 + 1024 * 1

/-- An AEAD cipher of a provider. A record of a full chunk has an `int` size. -/
structure AeadCipher where
  keySize : ℕ
  nonceSize : ℕ
  tagSize : ℕ
  setKey : Octets keySize → Bool
  encrypt : Octets keySize → Octets nonceSize → Bytes → Option (Bytes × Octets tagSize)
  decrypt : Octets keySize → Octets nonceSize → Bytes → Octets tagSize → Option Bytes
  sizes_le : 4 + FILE_CHUNK_SIZE + nonceSize + tagSize ≤ INT_MAX
  length_encrypt : ∀ {key nonce plaintext sealed},
    encrypt key nonce plaintext = some sealed → sealed.1.length = plaintext.length
  length_decrypt : ∀ {key nonce ciphertext tag plaintext},
    decrypt key nonce ciphertext tag = some plaintext → plaintext.length = ciphertext.length

/-- What was encrypted decrypts. -/
def AeadCipher.Lawful (cipher : AeadCipher) : Prop :=
  ∀ key nonce plaintext sealed, cipher.encrypt key nonce plaintext = some sealed →
    cipher.decrypt key nonce sealed.1 sealed.2 = some plaintext

namespace AeadCipher

variable (cipher : AeadCipher)

def overhead : ℕ := cipher.nonceSize + cipher.tagSize

/-- `nonce` is what the random source draws, `none` where it fails. -/
def encryptBufferWithKey (nonce : Option (Octets cipher.nonceSize)) (key : Octets cipher.keySize)
    (input : Bytes) (outputBufferCapacity : ℕ) : Except Failure Bytes :=
  let requiredSize := input.length + cipher.nonceSize + cipher.tagSize
  if requiredSize > INT_MAX then fail INVALID_ARGUMENT
  else if outputBufferCapacity < requiredSize then fail BUFFER_TOO_SMALL
  else if cipher.setKey key = false then fail INVALID_ARGUMENT
  else
    match nonce with
    | none => fail UNEXPECTED_ERROR
    | some nonce =>
      match cipher.encrypt key nonce input with
      | none => fail UNEXPECTED_ERROR
      | some (ciphertext, tag) => .ok (nonce.1 ++ ciphertext ++ tag.1)

theorem length_take_nonceSize {input : Bytes} (h : ¬ input.length < cipher.overhead) :
    (input.take cipher.nonceSize).length = cipher.nonceSize := by
  rw [List.length_take]
  unfold overhead at h
  omega

theorem length_drop_tagSize {input : Bytes} (h : ¬ input.length < cipher.overhead) :
    (input.drop (cipher.nonceSize + (input.length - cipher.overhead))).length = cipher.tagSize := by
  rw [List.length_drop]
  unfold overhead at *
  omega

/-- A null output pointer makes no difference where nothing is to be written. -/
def decryptBufferWithKey (key : Octets cipher.keySize) (input : Bytes)
    (outputBufferCapacity : ℕ) : Except Failure Bytes :=
  if hshort : input.length < cipher.overhead then fail INVALID_DATA
  else
    let requiredSize := input.length - cipher.overhead
    if outputBufferCapacity < requiredSize then fail BUFFER_TOO_SMALL
    else if cipher.setKey key = false then fail INVALID_ARGUMENT
    else
      let nonce : Octets cipher.nonceSize :=
        ⟨input.take cipher.nonceSize, cipher.length_take_nonceSize hshort⟩
      let tag : Octets cipher.tagSize :=
        ⟨input.drop (cipher.nonceSize + requiredSize), cipher.length_drop_tagSize hshort⟩
      match cipher.decrypt key nonce ((input.drop cipher.nonceSize).take requiredSize) tag with
      | none => fail INVALID_DATA
      | some plaintext => .ok plaintext

variable {cipher} {key : Octets cipher.keySize}

/-- What a record is decrypted to does not depend on the room for it. -/
theorem decryptBufferWithKey_capacity {input : Bytes} {capacity capacity' : ℕ}
    (h : input.length - cipher.overhead ≤ capacity)
    (h' : input.length - cipher.overhead ≤ capacity') :
    cipher.decryptBufferWithKey key input capacity =
      cipher.decryptBufferWithKey key input capacity' := by
  rw [decryptBufferWithKey, decryptBufferWithKey]
  split
  · rfl
  · dsimp only
    rw [if_neg (Nat.not_lt.mpr h), if_neg (Nat.not_lt.mpr h')]

theorem length_of_encryptBufferWithKey {nonce : Option (Octets cipher.nonceSize)} {input : Bytes}
    {capacity : ℕ} {record : Bytes}
    (h : cipher.encryptBufferWithKey nonce key input capacity = .ok record) :
    record.length = input.length + cipher.overhead := by
  unfold encryptBufferWithKey at h
  dsimp only at h
  split_ifs at h
  cases nonce with
  | none => cases h
  | some nonce =>
      cases hsealed : cipher.encrypt key nonce input with
      | none => simp only [hsealed] at h; cases h
      | some pair =>
          simp only [hsealed] at h
          obtain rfl := Except.ok.inj h
          have hlength := cipher.length_encrypt hsealed
          simp only [List.length_append, Octets.length_eq, hlength, overhead]
          omega

theorem length_of_decryptBufferWithKey {input plaintext : Bytes} {capacity : ℕ}
    (h : cipher.decryptBufferWithKey key input capacity = .ok plaintext) :
    plaintext.length + cipher.overhead = input.length := by
  unfold decryptBufferWithKey at h
  split at h
  · cases h
  · rename_i hshort
    dsimp only at h
    split_ifs at h
    split at h
    · cases h
    · rename_i hopened
      obtain rfl := Except.ok.inj h
      have hlength := cipher.length_decrypt hopened
      rw [List.length_take, List.length_drop, overhead] at hlength
      rw [overhead] at hshort ⊢
      omega

/-- A record that was written opens to what was encrypted. -/
theorem decryptBufferWithKey_encrypted (hlawful : cipher.Lawful)
    {nonce : Option (Octets cipher.nonceSize)} {input record : Bytes} {capacity capacity' : ℕ}
    (h : cipher.encryptBufferWithKey nonce key input capacity = .ok record)
    (hroom : input.length ≤ capacity') :
    cipher.decryptBufferWithKey key record capacity' = .ok input := by
  have hrecord := length_of_encryptBufferWithKey h
  unfold encryptBufferWithKey at h
  dsimp only at h
  split_ifs at h with _ _ hkey
  cases nonce with
  | none => cases h
  | some nonce =>
      cases hsealed : cipher.encrypt key nonce input with
      | none => simp only [hsealed] at h; cases h
      | some pair =>
          obtain ⟨ciphertext, tag⟩ := pair
          simp only [hsealed] at h
          obtain rfl := Except.ok.inj h
          have hlength : ciphertext.length = input.length := cipher.length_encrypt hsealed
          have hopened := hlawful key nonce input (ciphertext, tag) hsealed
          rw [decryptBufferWithKey, dif_neg (by omega)]
          dsimp only
          rw [if_neg (by omega), if_neg hkey]
          -- the three parts are cut out where they were put
          have hsize : (nonce.1 ++ ciphertext ++ tag.1).length - cipher.overhead =
              ciphertext.length := by omega
          have hnonce : (nonce.1 ++ ciphertext ++ tag.1).take cipher.nonceSize = nonce.1 := by
            rw [List.append_assoc, List.take_left' nonce.2]
          have hciphertext : ((nonce.1 ++ ciphertext ++ tag.1).drop cipher.nonceSize).take
              ciphertext.length = ciphertext := by
            rw [List.append_assoc, List.drop_left' nonce.2, List.take_left]
          have htag : (nonce.1 ++ ciphertext ++ tag.1).drop
              (cipher.nonceSize + ciphertext.length) = tag.1 :=
            List.drop_left' (by rw [List.length_append, nonce.2])
          simp only [hsize, hnonce, hciphertext, htag, Subtype.coe_eta, hopened]

end AeadCipher

end HashCryptoLib.CryptoApi
