import HashCryptoLib.Lib.Transducer
import HashCryptoLib.Pgp.Mpi

/-!
The crypto library the engine is written against, as a parameter of the model.
Digests, keys and fixed-length outputs carry their lengths in their types. `none` is an exception
thrown by the library, which every caller in the engine catches. Randomness
enters through explicit seeds and octets, so that every function is a function.

`Primitives.Lawful` collects what the round-trip results ask of the library:
decryption undoes encryption, verification accepts what signing produced,
inflating undoes deflating.
-/

namespace HashCryptoLib.Pgp

open BigEndian

def Octets.zero (n : ℕ) : Octets n := ⟨List.replicate n 0, List.length_replicate⟩

structure RsaPublicKey where
  modulus : ℕ := 0
  publicExponent : ℕ := 0
  deriving DecidableEq, Repr

structure RsaPrivateKey where
  modulus : ℕ := 0
  publicExponent : ℕ := 0
  privateExponent : ℕ := 0
  prime1 : ℕ := 0
  prime2 : ℕ := 0
  deriving DecidableEq, Repr

/-- `CryptoPP::RSA::PublicKey(privateKey)`. -/
def RsaPrivateKey.publicKey (key : RsaPrivateKey) : RsaPublicKey :=
  ⟨key.modulus, key.publicExponent⟩

/-- `GenerateRandomWithKeySize` gives a modulus of exactly the size asked for
and the library's default public exponent. -/
abbrev RsaKeyOfSize (bits : ℕ) :=
  { key : RsaPrivateKey // key.modulus.size = bits ∧ key.publicExponent = 17 }

structure Primitives where
  sha1 : Bytes → Octets 20
  sha256 : Bytes → Octets 32
  sha512 : Bytes → Octets 64
  /-- `ProcessBlock` of AES under a key, in both directions. -/
  aesEncrypt : Bytes → Octets 16 → Octets 16
  aesDecrypt : Bytes → Octets 16 → Octets 16
  generateRsaKey : ℕ → (bits : ℕ) → RsaKeyOfSize bits
  /-- PKCS#1 v1.5 with SHA-256. -/
  rsaSign : (key : RsaPrivateKey) → Bytes → Option (Octets (rsaModulusByteLength key.modulus))
  rsaVerify : RsaPublicKey → Bytes → Bytes → Option Bool
  /-- PKCS#1 v1.5; the seed is the random padding. -/
  rsaEncrypt : (key : RsaPublicKey) → ℕ → Bytes →
    Option (Octets (rsaModulusByteLength key.modulus))
  /-- The inner option is `isValidCoding`. -/
  rsaDecrypt : RsaPrivateKey → Bytes → Option (Option Bytes)
  /-- The private and the public octets of a fresh key. -/
  generateEd25519Key : ℕ → Octets 32 × Octets 32
  ed25519Sign : Octets 32 → Bytes → Octets 64
  ed25519Verify : Octets 32 → Bytes → Octets 64 → Bool
  generateX25519PrivateKey : ℕ → Octets 32
  x25519PublicKey : Octets 32 → Octets 32
  /-- `none` is `false`: the other party's public key is rejected. -/
  x25519Agree : Octets 32 → Octets 32 → Option (Octets 32)
  deflate : Bytes → Bytes
  inflate : Bytes → Option Bytes
  zlibDecompress : Bytes → Option Bytes

/-- The key sizes the engine generates. -/
def IsRsaKeySize (bits : ℕ) : Prop := bits = 1024 ∨ bits = 2048 ∨ bits = 3072 ∨ bits = 4096

instance (bits : ℕ) : Decidable (IsRsaKeySize bits) := by unfold IsRsaKeySize; infer_instance

theorem IsRsaKeySize.le {bits : ℕ} (h : IsRsaKeySize bits) : bits ≤ 4096 := by
  rcases h with rfl | rfl | rfl | rfl <;> norm_num

structure Primitives.Lawful (P : Primitives) : Prop where
  aesDecrypt_aesEncrypt : ∀ key block, key.length = 16 →
    P.aesDecrypt key (P.aesEncrypt key block) = block
  rsaVerify_rsaSign : ∀ seed bits message signature, IsRsaKeySize bits →
    P.rsaSign (P.generateRsaKey seed bits).1 message = some signature →
      P.rsaVerify (P.generateRsaKey seed bits).1.publicKey message signature = some true
  rsaDecrypt_rsaEncrypt : ∀ seed bits padding message cipher, IsRsaKeySize bits →
    P.rsaEncrypt (P.generateRsaKey seed bits).1.publicKey padding message = some cipher →
      P.rsaDecrypt (P.generateRsaKey seed bits).1 cipher = some (some message)
  /-- A digest with its prefix fits every key size. -/
  rsaSign_isSome : ∀ seed bits message, IsRsaKeySize bits →
    (P.rsaSign (P.generateRsaKey seed bits).1 message).isSome = true
  /-- The padding of an encrypted message takes at least eleven octets. -/
  rsaEncrypt_isSome : ∀ seed bits padding message, IsRsaKeySize bits →
    message.length + 11 ≤ bits / 8 →
      (P.rsaEncrypt (P.generateRsaKey seed bits).1.publicKey padding message).isSome = true
  /-- A default-constructed key is too short for any message. -/
  rsaEncrypt_zero : ∀ padding message, P.rsaEncrypt {} padding message = none
  ed25519Verify_ed25519Sign : ∀ seed message,
    P.ed25519Verify (P.generateEd25519Key seed).2 message
      (P.ed25519Sign (P.generateEd25519Key seed).1 message) = true
  x25519Agree_comm : ∀ seed seed',
    P.x25519Agree (P.generateX25519PrivateKey seed)
        (P.x25519PublicKey (P.generateX25519PrivateKey seed')) =
      P.x25519Agree (P.generateX25519PrivateKey seed')
        (P.x25519PublicKey (P.generateX25519PrivateKey seed))
  /-- The all-zero point is of small order. -/
  x25519Agree_zero : ∀ key, P.x25519Agree key (Octets.zero 32) = none
  inflate_deflate : ∀ data, P.inflate (P.deflate data) = some data
  /-- Stored and Huffman-coded blocks expand incompressible data by little. -/
  deflate_length : ∀ data, (P.deflate data).length ≤ data.length + data.length / 2 + 1024

/-- Two generated X25519 keys always agree: a generated point is not of small
order. -/
def Primitives.Agrees (P : Primitives) : Prop :=
  ∀ seed seed', (P.x25519Agree (P.generateX25519PrivateKey seed)
    (P.x25519PublicKey (P.generateX25519PrivateKey seed'))).isSome = true

/-! ### AES in feedback mode -/

section Cfb

variable (P : Primitives) (key : Bytes) (iv : Octets 16)

def cfbState : CipherFeedback.State 16 := CipherFeedback.init (by decide) iv

/-- `CFB_Mode<AES>::Encryption` on one buffer. -/
def cfbEncrypt (data : Bytes) : Bytes :=
  ((CipherFeedback.encryptor (P.aesEncrypt key)).run (cfbState iv) data).1

/-- `CFB_Mode<AES>::Decryption` on one buffer. -/
def cfbDecrypt (data : Bytes) : Bytes :=
  ((CipherFeedback.decryptor (P.aesEncrypt key)).run (cfbState iv) data).1

@[simp] theorem length_cfbEncrypt (data : Bytes) :
    (cfbEncrypt P key iv data).length = data.length := by
  simp [cfbEncrypt]

@[simp] theorem length_cfbDecrypt (data : Bytes) :
    (cfbDecrypt P key iv data).length = data.length := by
  simp [cfbDecrypt]

theorem cfbDecrypt_cfbEncrypt (data : Bytes) :
    cfbDecrypt P key iv (cfbEncrypt P key iv data) = data := by
  rw [cfbDecrypt, cfbEncrypt,
    (CipherFeedback.encryptor_inverse (P.aesEncrypt key)).run_run (cfbState iv) data]

end Cfb

end HashCryptoLib.Pgp
