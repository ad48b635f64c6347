import HashCryptoLib.Pgp.Signature

/-!
The engine's state: status codes, the records of own user IDs and subkeys, of
a peer's user IDs and subkeys, of an encryption recipient, and `Impl`, which
holds one identity and at most one imported peer.
-/

namespace HashCryptoLib.Pgp

inductive Status
  | NO_ERROR
  | NOT_IMPLEMENTED
  | UNEXPECTED_ERROR
  | BUFFER_TOO_SMALL
  | INVALID_ARGUMENT
  | FILE_IO_ERROR
  | INVALID_DATA
  | OPERATION_CANCELLED
  deriving DecidableEq, Repr

export Status (NO_ERROR NOT_IMPLEMENTED UNEXPECTED_ERROR BUFFER_TOO_SMALL INVALID_ARGUMENT
  FILE_IO_ERROR INVALID_DATA OPERATION_CANCELLED)

/-- A status other than `NO_ERROR`. -/
abbrev Failure := { status : Status // status ≠ NO_ERROR }

abbrev fail {α : Type} (status : Status)
    (hstatus : decide (status ≠ NO_ERROR) = true := by exact Eq.refl true) : Except Failure α :=
  .error ⟨status, of_decide_eq_true hstatus⟩

def PGP_FILE_CHUNK_SIZE : ℕ := 1048576

theorem pgpFileChunkSize_pos : 0 < PGP_FILE_CHUNK_SIZE := by decide

/-- The cipher octets 7, 8 and 9. -/
inductive PgpSymmetricAlgorithm
  | PGP_SYMMETRIC_AES128
  | PGP_SYMMETRIC_AES192
  | PGP_SYMMETRIC_AES256
  deriving DecidableEq, Repr

def PgpSymmetricAlgorithm.octet : PgpSymmetricAlgorithm → UInt8
  | PGP_SYMMETRIC_AES128 => 7
  | PGP_SYMMETRIC_AES192 => 8
  | PGP_SYMMETRIC_AES256 => 9

/-- A pointer argument with its `int` size. The functions that take one treat a
null pointer and a size of zero or less alike, as the empty buffer. -/
abbrev Buffer := { b : Bytes // b.length < 2 ^ 31 }

structure PgpEncryptionRecipient where
  algorithm : PgpKeyAlgorithm := PGP_KEY_ALGORITHM_RSA
  rsaPublicKey : RsaPublicKey := {}
  rsaKeyId : Octets 8 := Octets.zero 8
  x25519PublicKey : Octets 32 := Octets.zero 32
  x25519KeyId : Octets 8 := Octets.zero 8
  x25519Fingerprint : Octets 20 := Octets.zero 20
  deriving DecidableEq

structure PgpOwnUserId where
  uidText : Bytes := []
  certCreationTime : UInt32 := 0
  certSigPacket : Bytes := []
  isPrimary : Bool := false
  isRevoked : Bool := false
  revocationSigPacket : Bytes := []
  deriving DecidableEq

structure PgpOwnSubkey where
  rsaPrivateKey : RsaPrivateKey := {}
  rsaPublicKey : RsaPublicKey := {}
  x25519PrivateKey : Octets 32 := Octets.zero 32
  x25519PublicKey : Octets 32 := Octets.zero 32
  ed25519PrivateKey : Octets 32 := Octets.zero 32
  ed25519PublicKey : Octets 32 := Octets.zero 32
  isEd25519Sign : Bool := false
  keyId : Octets 8 := Octets.zero 8
  fingerprint : Octets 20 := Octets.zero 20
  creationTime : UInt32 := 0
  expirationSeconds : UInt32 := 0
  keyFlags : UInt8 := 0
  bindingSigPacket : Bytes := []
  isRevoked : Bool := false
  revocationSigPacket : Bytes := []
  secretPacketBody : Bytes := []
  deriving DecidableEq

structure PgpPeerUserId where
  uidText : Bytes := []
  isRevoked : Bool := false
  deriving DecidableEq, Repr

structure PgpPeerSubkey where
  algorithm : PgpKeyAlgorithm := PGP_KEY_ALGORITHM_RSA
  rsaKey : RsaPublicKey := {}
  x25519Key : Octets 32 := Octets.zero 32
  ed25519Key : Octets 32 := Octets.zero 32
  isEd25519 : Bool := false
  keyId : Octets 8 := Octets.zero 8
  fingerprint : Octets 20 := Octets.zero 20
  creationTime : UInt32 := 0
  haveKeyFlags : Bool := false
  keyFlags : UInt8 := 0
  haveExpiration : Bool := false
  expirationSeconds : UInt32 := 0
  isRevoked : Bool := false
  deriving DecidableEq

structure Impl where
  keyAlgorithm : PgpKeyAlgorithm := PGP_KEY_ALGORITHM_RSA
  rsaKeyBits : ℤ := 2048
  ownKeyGenerated : Bool := false
  ownMasterPrivateKey : RsaPrivateKey := {}
  ownMasterPublicKey : RsaPublicKey := {}
  ownSubkeyPrivateKey : RsaPrivateKey := {}
  ownSubkeyPublicKey : RsaPublicKey := {}
  ownEd25519PrivateKey : Octets 32 := Octets.zero 32
  ownEd25519PublicKey : Octets 32 := Octets.zero 32
  ownX25519PrivateKey : Octets 32 := Octets.zero 32
  ownX25519PublicKey : Octets 32 := Octets.zero 32
  ownMasterKeyId : Octets 8 := Octets.zero 8
  ownSubkeyKeyId : Octets 8 := Octets.zero 8
  ownMasterFingerprint : Octets 20 := Octets.zero 20
  ownSubkeyFingerprint : Octets 20 := Octets.zero 20
  passwordCheckHash : Octets 32 := Octets.zero 32
  keyCreationTime : UInt32 := 0
  keyExpirationSeconds : UInt32 := 0
  symmetricCipherPreference : PgpSymmetricAlgorithm := .PGP_SYMMETRIC_AES256
  peerKeyImported : Bool := false
  peerMasterAlgorithm : PgpKeyAlgorithm := PGP_KEY_ALGORITHM_RSA
  peerSubkeyAlgorithm : PgpKeyAlgorithm := PGP_KEY_ALGORITHM_RSA
  peerMasterPublicKey : RsaPublicKey := {}
  peerSubkeyPublicKey : RsaPublicKey := {}
  peerEd25519PublicKey : Octets 32 := Octets.zero 32
  peerX25519PublicKey : Octets 32 := Octets.zero 32
  peerMasterKeyId : Octets 8 := Octets.zero 8
  peerSubkeyKeyId : Octets 8 := Octets.zero 8
  peerSubkeyFingerprint : Octets 20 := Octets.zero 20
  peerUserIds : List PgpPeerUserId := []
  peerSubkeys : List PgpPeerSubkey := []
  additionalRecipients : List PgpEncryptionRecipient := []
  ownUserIds : List PgpOwnUserId := []
  ownSubkeys : List PgpOwnSubkey := []
  ownMasterSecretPacketBody : Bytes := []

/-- What an operation reads from outside: the clock and the random generator,
each by the number of the reading within the operation. -/
structure Env where
  clock : ℕ → UInt32
  seed : ℕ → ℕ
  salt : ℕ → Octets 8
  iv : ℕ → Octets 16

/-- A stopped clock, and draws numbered from `first`. -/
def Env.numbered (now : UInt32) (first : ℕ) : Env where
  clock _ := now
  seed i := first + i
  salt _ := Octets.zero 8
  iv _ := Octets.zero 16

end HashCryptoLib.Pgp
