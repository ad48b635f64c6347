import HashCryptoLib.Pgp.Primitives
import Mathlib.Data.Int.GCD

/-!
Version-4 key packets: fingerprints and key IDs, the public-key bodies of the
three algorithms with their parsers, and the protected secret-key bodies.
-/

namespace HashCryptoLib.Pgp

open BigEndian Cursor

inductive PgpKeyAlgorithm
  | PGP_KEY_ALGORITHM_RSA
  | PGP_KEY_ALGORITHM_ED25519_X25519
  deriving DecidableEq, Repr

export PgpKeyAlgorithm (PGP_KEY_ALGORITHM_RSA PGP_KEY_ALGORITHM_ED25519_X25519)

def PGP_ED25519_OID : Bytes := [0x2B, 0x06, 0x01, 0x04, 0x01, 0xDA, 0x47, 0x0F, 0x01]
def PGP_X25519_OID : Bytes := [0x2B, 0x06, 0x01, 0x04, 0x01, 0x97, 0x55, 0x01, 0x05, 0x01]
def PGP_ALGO_RSA : UInt8 := 1
def PGP_ALGO_EDDSA : UInt8 := 22
def PGP_ALGO_ECDH : UInt8 := 18

/-! ### Fingerprints -/

def buildKeyHashPrefix (publicKeyPacketBody : Bytes) : Bytes :=
  0x99 :: (appendBigEndian16 publicKeyPacketBody.length ++ publicKeyPacketBody)

/-- The fingerprint, and the key ID that is its low eight octets. -/
def computeFingerprintAndKeyId (P : Primitives) (publicKeyPacketBody : Bytes) :
    Octets 20 × Octets 8 :=
  let fingerprint := P.sha1 (buildKeyHashPrefix publicKeyPacketBody)
  (fingerprint, ⟨fingerprint.1.drop 12, by rw [List.length_drop, fingerprint.2]⟩)

/-! ### Public-key bodies -/

def buildRsaPublicKeyPacketBody (creationTime : UInt32) (n e : ℕ) : Bytes :=
  4 :: (appendBigEndian32 creationTime.toNat ++ (PGP_ALGO_RSA :: (encodeMpi n ++ encodeMpi e)))

def buildEd25519PublicKeyPacketBody (creationTime : UInt32) (publicKey : Octets 32) : Bytes :=
  4 :: (appendBigEndian32 creationTime.toNat ++ (PGP_ALGO_EDDSA ::
    (UInt8.ofNat PGP_ED25519_OID.length :: (PGP_ED25519_OID ++ encodeNativePointMpi publicKey))))

def buildX25519PublicKeyPacketBody (creationTime : UInt32) (publicKey : Octets 32) : Bytes :=
  4 :: (appendBigEndian32 creationTime.toNat ++ (PGP_ALGO_ECDH ::
    (UInt8.ofNat PGP_X25519_OID.length ::
      (PGP_X25519_OID ++ (encodeNativePointMpi publicKey ++ [3, 1, 8, 7])))))

def parseRsaPublicKeyPacketBody (P : Primitives) (body : Bytes) : Option (ℕ × ℕ × Octets 8) :=
  if body.length < 6 ∨ body[0]? ≠ some 4 ∨ body[5]? ≠ some PGP_ALGO_RSA then none
  else
    match readMpi body 6 with
    | none => none
    | some (n, pos) =>
      (readMpi body pos).map fun e => (n, e.1, (computeFingerprintAndKeyId P body).2)

/-- The head shared by the two curve bodies: version, algorithm, length-prefixed
curve OID, then the point. -/
def parseCurvePoint (algorithm : UInt8) (oid body : Bytes) : Option (Octets 32) :=
  if body.length < 7 ∨ body[0]? ≠ some 4 ∨ body[5]? ≠ some algorithm then none
  else if body[6]? ≠ some (UInt8.ofNat oid.length) ∨ body.length < 7 + oid.length ∨
      (body.drop 7).take oid.length ≠ oid then none
  else (readNativePointMpi body (7 + oid.length)).map Prod.fst

def parseEd25519PublicKeyPacketBody (P : Primitives) (body : Bytes) :
    Option (Octets 32 × Octets 8) :=
  (parseCurvePoint PGP_ALGO_EDDSA PGP_ED25519_OID body).map fun point =>
    (point, (computeFingerprintAndKeyId P body).2)

/-- The KDF parameters behind the point are not looked at. -/
def parseX25519PublicKeyPacketBody (P : Primitives) (body : Bytes) :
    Option (Octets 32 × Octets 8 × Octets 20) :=
  (parseCurvePoint PGP_ALGO_ECDH PGP_X25519_OID body).map fun point =>
    (point, (computeFingerprintAndKeyId P body).2, (computeFingerprintAndKeyId P body).1)

/-- The creation time a subkey packet is read with. -/
def readCreationTime (body : Bytes) : UInt32 :=
  UInt32.ofNat (ofOctets ((body.drop 1).take 4))

/-! ### Secret-key bodies -/

def buildEd25519SecretKeyCleartext (privateKey : Octets 32) : Bytes :=
  encodeMpi (ofOctets privateKey.1)

def buildX25519SecretKeyCleartext (privateKey : Octets 32) : Bytes :=
  encodeMpi (ofOctets privateKey.1)

/-- `Integer::InverseMod`. -/
def inverseMod (a m : ℕ) : ℕ := (Nat.gcdA a m % m).toNat

/-- The primes are written smaller first, with the inverse of the first modulo
the second. -/
def buildRsaSecretKeyCleartext (privateKey : RsaPrivateKey) : Bytes :=
  let p := if privateKey.prime1 < privateKey.prime2 then privateKey.prime1 else privateKey.prime2
  let q := if privateKey.prime1 < privateKey.prime2 then privateKey.prime2 else privateKey.prime1
  encodeMpi privateKey.privateExponent ++ encodeMpi p ++ encodeMpi q ++ encodeMpi (inverseMod p q)

/-- The octets fed to the hash: `saltedPassword` over and over, `remaining` of
them. -/
def s2kOctets (saltedPassword : Bytes) (hne : saltedPassword ≠ []) (remaining : ℕ) : Bytes :=
  if remaining = 0 then []
  else
    let chunk := min remaining saltedPassword.length
    saltedPassword.take chunk ++ s2kOctets saltedPassword hne (remaining - chunk)
termination_by remaining
decreasing_by
  have := List.length_pos_iff.mpr hne
  omega

def deriveS2kKey (P : Primitives) (password : Bytes) (salt : Octets 8) (countCoded : UInt8)
    (keySize : ℕ) : Bytes :=
  let codedCount := (16 + (countCoded &&& 15).toNat) * 2 ^ ((countCoded >>> 4).toNat + 6)
  let saltedPassword := salt.1 ++ password
  have hne : saltedPassword ≠ [] := by
    rw [← List.length_pos_iff, List.length_append, salt.2]
    omega
  let remaining := if codedCount < saltedPassword.length then saltedPassword.length else codedCount
  (P.sha256 (s2kOctets saltedPassword hne remaining)).1.take keySize

/-- The salt and the IV are the two random draws. -/
def encryptSecretKeyMaterial (P : Primitives) (publicKeyPacketBody cleartext password : Bytes)
    (salt : Octets 8) (iv : Octets 16) : Bytes :=
  let plainWithCheck := cleartext ++ (P.sha1 cleartext).1
  let countCoded : UInt8 := 0x60
  let s2kKey := deriveS2kKey P password salt countCoded 32
  if s2kKey.length ≠ 32 then []
  else
    publicKeyPacketBody ++ [254, 9, 3, 8] ++ salt.1 ++ [countCoded] ++ iv.1 ++
      cfbEncrypt P s2kKey iv plainWithCheck

theorem length_deriveS2kKey (P : Primitives) (password : Bytes) (salt : Octets 8)
    (countCoded : UInt8) : (deriveS2kKey P password salt countCoded 32).length = 32 := by
  rw [deriveS2kKey, List.length_take, Octets.length_eq, Nat.min_self]

theorem encryptSecretKeyMaterial_ne_nil (P : Primitives)
    (publicKeyPacketBody cleartext password : Bytes) (salt : Octets 8) (iv : Octets 16) :
    encryptSecretKeyMaterial P publicKeyPacketBody cleartext password salt iv ≠ [] := by
  simp [encryptSecretKeyMaterial, length_deriveS2kKey]

def checkPasswordHash (P : Primitives) (storedHash : Octets 32) (password : Bytes) : Bool :=
  P.sha256 password = storedHash

/-! ### Parsing what was built -/

theorem readCreationTime_of_at {body rest : Bytes} {creationTime : UInt32}
    (h : At body 1 (appendBigEndian32 creationTime.toNat ++ rest)) :
    readCreationTime body = creationTime := by
  have htake := h.take_eq
  rw [appendBigEndian32, length_toOctets] at htake
  have hlt : creationTime.toNat < 256 ^ 4 := by simpa using creationTime.toNat_lt
  rw [readCreationTime, htake, ofOctets_toOctets_of_lt hlt, UInt32.ofNat_toNat]

/-- What every reader of a key body looks at first. -/
theorem keyBody_head {body rest : Bytes} {creationTime : UInt32} {algorithm : UInt8}
    (h : body = 4 :: (appendBigEndian32 creationTime.toNat ++ (algorithm :: rest))) :
    body[0]? = some 4 ∧ readCreationTime body = creationTime ∧ body[5]? = some algorithm ∧
      At body 6 rest := by
  have hversion : At body 0 (4 :: (appendBigEndian32 creationTime.toNat ++ (algorithm :: rest))) :=
    h ▸ at_zero _
  have halgorithm : At body 5 (algorithm :: rest) := by
    simpa [appendBigEndian32] using hversion.next.advance
  exact ⟨hversion.head, readCreationTime_of_at hversion.next, halgorithm.head, halgorithm.next⟩

theorem buildRsaPublicKeyPacketBody_head (creationTime : UInt32) (n e : ℕ) :
    readCreationTime (buildRsaPublicKeyPacketBody creationTime n e) = creationTime ∧
      (buildRsaPublicKeyPacketBody creationTime n e)[5]? = some PGP_ALGO_RSA :=
  ⟨(keyBody_head rfl).2.1, (keyBody_head rfl).2.2.1⟩

theorem buildEd25519PublicKeyPacketBody_head (creationTime : UInt32) (publicKey : Octets 32) :
    readCreationTime (buildEd25519PublicKeyPacketBody creationTime publicKey) = creationTime ∧
      (buildEd25519PublicKeyPacketBody creationTime publicKey)[5]? = some PGP_ALGO_EDDSA :=
  ⟨(keyBody_head rfl).2.1, (keyBody_head rfl).2.2.1⟩

theorem buildX25519PublicKeyPacketBody_head (creationTime : UInt32) (publicKey : Octets 32) :
    readCreationTime (buildX25519PublicKeyPacketBody creationTime publicKey) = creationTime ∧
      (buildX25519PublicKeyPacketBody creationTime publicKey)[5]? = some PGP_ALGO_ECDH :=
  ⟨(keyBody_head rfl).2.1, (keyBody_head rfl).2.2.1⟩

theorem length_buildRsaPublicKeyPacketBody (creationTime : UInt32) (n e : ℕ) :
    (buildRsaPublicKeyPacketBody creationTime n e).length =
      10 + octetsOfBits n.size + octetsOfBits e.size := by
  simp only [buildRsaPublicKeyPacketBody, List.length_cons, List.length_append,
    length_appendBigEndian32, length_encodeMpi]
  omega

theorem length_buildEd25519PublicKeyPacketBody (creationTime : UInt32) (publicKey : Octets 32) :
    (buildEd25519PublicKeyPacketBody creationTime publicKey).length = 51 := by
  simp [buildEd25519PublicKeyPacketBody, PGP_ED25519_OID]

theorem length_buildX25519PublicKeyPacketBody (creationTime : UInt32) (publicKey : Octets 32) :
    (buildX25519PublicKeyPacketBody creationTime publicKey).length = 56 := by
  simp [buildX25519PublicKeyPacketBody, PGP_X25519_OID]

theorem parseRsaPublicKeyPacketBody_build (P : Primitives) (creationTime : UInt32) {n e : ℕ}
    (hn : n.size < 2 ^ 16) (he : e.size < 2 ^ 16) :
    parseRsaPublicKeyPacketBody P (buildRsaPublicKeyPacketBody creationTime n e) =
      some (n, e,
        (computeFingerprintAndKeyId P (buildRsaPublicKeyPacketBody creationTime n e)).2) := by
  obtain ⟨hversion, -, halgorithm, hmpis⟩ := keyBody_head
    (show buildRsaPublicKeyPacketBody creationTime n e = _ from rfl)
  obtain ⟨hreadN, hrest⟩ := readMpi_of_at hn hmpis
  rw [← List.append_nil (encodeMpi e)] at hrest
  obtain ⟨hreadE, -⟩ := readMpi_of_at he hrest
  have hlen := hmpis.length_eq
  rw [parseRsaPublicKeyPacketBody, if_neg]
  · simp only [hreadN, hreadE, Option.map_some]
  · rw [hversion, halgorithm]
    simp only [ne_eq, not_true_eq_false, or_false]
    omega

theorem parseCurvePoint_of_head {body oid tail : Bytes} {creationTime : UInt32}
    {algorithm : UInt8} {point : Octets 32}
    (h : body = 4 :: (appendBigEndian32 creationTime.toNat ++ (algorithm ::
      (UInt8.ofNat oid.length :: (oid ++ (encodeNativePointMpi point ++ tail)))))) :
    parseCurvePoint algorithm oid body = some point := by
  obtain ⟨hversion, -, halgorithm, hoid⟩ := keyBody_head h
  obtain ⟨hpoint, -⟩ := readNativePointMpi_of_at hoid.next.advance
  have hlen := hoid.length_eq
  simp only [List.length_cons, List.length_append] at hlen
  rw [parseCurvePoint, if_neg, if_neg, hpoint]
  · rfl
  · rw [hoid.head, hoid.next.take_eq]
    simp only [ne_eq, not_true_eq_false, false_or, or_false]
    omega
  · rw [hversion, halgorithm]
    simp only [ne_eq, not_true_eq_false, or_false]
    omega

theorem parseEd25519PublicKeyPacketBody_build (P : Primitives) (creationTime : UInt32)
    (publicKey : Octets 32) :
    parseEd25519PublicKeyPacketBody P (buildEd25519PublicKeyPacketBody creationTime publicKey) =
      some (publicKey, (computeFingerprintAndKeyId P
        (buildEd25519PublicKeyPacketBody creationTime publicKey)).2) := by
  have hbody : buildEd25519PublicKeyPacketBody creationTime publicKey =
      4 :: (appendBigEndian32 creationTime.toNat ++ (PGP_ALGO_EDDSA ::
        (UInt8.ofNat PGP_ED25519_OID.length ::
          (PGP_ED25519_OID ++ (encodeNativePointMpi publicKey ++ []))))) := by
    rw [List.append_nil]
    rfl
  rw [parseEd25519PublicKeyPacketBody, parseCurvePoint_of_head hbody, Option.map_some]

theorem parseX25519PublicKeyPacketBody_build (P : Primitives) (creationTime : UInt32)
    (publicKey : Octets 32) :
    parseX25519PublicKeyPacketBody P (buildX25519PublicKeyPacketBody creationTime publicKey) =
      some (publicKey, (computeFingerprintAndKeyId P
          (buildX25519PublicKeyPacketBody creationTime publicKey)).2,
        (computeFingerprintAndKeyId P
          (buildX25519PublicKeyPacketBody creationTime publicKey)).1) := by
  have hpoint : parseCurvePoint PGP_ALGO_ECDH PGP_X25519_OID
      (buildX25519PublicKeyPacketBody creationTime publicKey) = some publicKey :=
    parseCurvePoint_of_head rfl
  rw [parseX25519PublicKeyPacketBody, hpoint, Option.map_some]

end HashCryptoLib.Pgp
