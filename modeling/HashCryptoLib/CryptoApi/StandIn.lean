import HashCryptoLib.CryptoApi.PasswordFormat
import HashCryptoLib.Lib.Sha

/-!
A provider to evaluate calls with: keys, keystreams and tags are SHA-256
digests. A keystream repeats after 32 octets, so it has no strength.
-/

namespace HashCryptoLib.CryptoApi

open Pgp (Status Buffer Failure fail)
open Pgp.Status

namespace StandIn

/-- A ciphertext is the plaintext combined with a block, over and over. -/
def mask (block data : Bytes) : Bytes :=
  data.mapIdx fun i octet => octet ^^^ block.getD (i % 32) 0

@[simp] theorem length_mask (block data : Bytes) : (mask block data).length = data.length :=
  List.length_mapIdx

theorem mask_mask (block data : Bytes) : mask block (mask block data) = data := by
  apply List.ext_getElem?
  intro i
  rw [mask, mask, List.getElem?_mapIdx, List.getElem?_mapIdx, Option.map_map]
  cases data[i]? with
  | none => rfl
  | some octet =>
      show some (octet ^^^ _ ^^^ _) = some octet
      rw [UInt8.xor_assoc, UInt8.xor_self, UInt8.xor_zero]

def tagOf (key nonce ciphertext : Bytes) : Octets 16 :=
  ⟨(Sha.sha256.hash (key ++ nonce ++ ciphertext)).take 16, by
    rw [List.length_take, Sha.Variant.length_hash]; rfl⟩

end StandIn

open StandIn in
def standInCipher : AeadCipher where
  keySize := 32
  nonceSize := 12
  tagSize := 16
  setKey _ := true
  encrypt key nonce plaintext :=
    let ciphertext := mask (Sha.sha256.hash (key.1 ++ nonce.1)) plaintext
    some (ciphertext, tagOf key.1 nonce.1 ciphertext)
  decrypt key nonce ciphertext tag :=
    if tag = tagOf key.1 nonce.1 ciphertext then
      some (mask (Sha.sha256.hash (key.1 ++ nonce.1)) ciphertext)
    else none
  sizes_le := by decide
  length_encrypt := by
    rintro key nonce plaintext sealed h
    obtain rfl := Option.some.inj h
    exact length_mask _ _
  length_decrypt := by
    rintro key nonce ciphertext tag plaintext h
    split_ifs at h
    obtain rfl := Option.some.inj h
    exact length_mask _ _

theorem standInCipher_lawful : standInCipher.Lawful := by
  rintro key nonce plaintext sealed h
  obtain rfl := Option.some.inj h
  exact (if_pos rfl).trans (congrArg some (StandIn.mask_mask _ _))

def standInProvider : Provider where
  cipher := standInCipher
  derivePasswordKey password salt :=
    some ⟨Sha.sha256.hash (password ++ salt.1), Sha.sha256.length_hash _⟩

theorem standInProvider_lawful : standInProvider.cipher.Lawful := standInCipher_lawful

/-- Every draw is of octets that say which draw it is. -/
def standInDraws : Draws standInCipher.nonceSize where
  salt := some ⟨List.replicate 16 0x5A, List.length_replicate⟩
  nonce i := some ⟨List.replicate 12 (UInt8.ofNat i), List.length_replicate⟩

end HashCryptoLib.CryptoApi
