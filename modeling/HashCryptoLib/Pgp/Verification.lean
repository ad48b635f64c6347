import HashCryptoLib.Pgp.State

/-!
Verifying a document signature against an imported peer: reading the issuer's
key ID out of a signature packet, choosing the peer's key by it, and checking
the signature. What a signing key signs verifies under its public half.
-/

namespace HashCryptoLib.Pgp

open BigEndian Cursor

/-! ### The issuer of a signature packet -/

/-- One subpacket: the issuer's key ID so far, and whether an issuer subpacket
gave it. A fingerprint subpacket gives the key ID where nothing else has. -/
def recordIssuer (scan : Option Bytes × Bool) (subpacket : UInt8 × Bytes) : Option Bytes × Bool :=
  let body := subpacket.2
  if subpacket.1 = 16 ∧ body.length = 8 ∧ scan.2 = false then (some body, true)
  else if subpacket.1 = 33 ∧ scan.1 = none ∧ body.length ≥ 21 ∧ body[0]? = some 4 then
    (some ((body.drop 13).take 8), scan.2)
  else if subpacket.1 = 33 ∧ scan.1 = none ∧ body.length ≥ 33 ∧
      (body[0]? = some 5 ∨ body[0]? = some 6) then
    (some ((body.drop 1).take 8), scan.2)
  else scan

def findIssuerKeyIdInSubpackets (data : Bytes) (begin endPos : ℕ) : Option Bytes :=
  ((walkSubpackets data endPos begin).foldl recordIssuer (none, false)).1

structure PgpInspectedSignature where
  issuerKeyId : Option Bytes
  signatureType : UInt8
  hashAlgorithm : UInt8
  deriving DecidableEq, Repr

def inspectSignaturePacketBody (body : Bytes) : Option PgpInspectedSignature :=
  if body[0]? = some 3 then
    if body.length < 17 ∨ body[1]? ≠ some 5 then none
    else
      some
        { issuerKeyId := some ((body.drop 7).take 8)
          signatureType := body.getD 2 0
          hashAlgorithm := body.getD 16 0 }
  else if body[0]? = some 4 then
    if body.length < 6 then none
    else
      let hashedEnd := 6 + readBigEndian16 body 4
      if hashedEnd > body.length then none
      else
        let inHashed := findIssuerKeyIdInSubpackets body 6 hashedEnd
        let unhashedEnd := hashedEnd + 2 + readBigEndian16 body hashedEnd
        some
          { issuerKeyId :=
              if inHashed = none ∧ unhashedEnd ≤ body.length then
                findIssuerKeyIdInSubpackets body (hashedEnd + 2) unhashedEnd
              else inHashed
            signatureType := body.getD 1 0
            hashAlgorithm := body.getD 3 0 }
  else none

def findIssuerKeyIdOfSignaturePacket (signaturePacketBytes : Bytes) : Option Bytes :=
  ((signaturePacketBody signaturePacketBytes).bind inspectSignaturePacketBody).bind
    PgpInspectedSignature.issuerKeyId

/-! ### The peer's key -/

/-- The key a signature is verified with. -/
inductive VerificationKey
  | rsa (key : RsaPublicKey)
  | ed25519 (key : Octets 32)
  deriving DecidableEq

/-- The peer's master key. -/
def Impl.peerMasterKey (impl : Impl) : VerificationKey :=
  match impl.peerMasterAlgorithm with
  | PGP_KEY_ALGORITHM_RSA => .rsa impl.peerMasterPublicKey
  | PGP_KEY_ALGORITHM_ED25519_X25519 => .ed25519 impl.peerEd25519PublicKey

/-- A subkey that can sign, `none` for one that only encrypts. -/
def PgpPeerSubkey.verificationKey (subkey : PgpPeerSubkey) : Option VerificationKey :=
  match subkey.algorithm with
  | PGP_KEY_ALGORITHM_RSA => some (.rsa subkey.rsaKey)
  | PGP_KEY_ALGORITHM_ED25519_X25519 =>
    if subkey.isEd25519 then some (.ed25519 subkey.ed25519Key) else none

/-- Only the first subkey with the issuer's key ID is considered. -/
def selectPeerVerificationKeyMaterial (impl : Impl) (signaturePacketBytes : Bytes) :
    VerificationKey :=
  match findIssuerKeyIdOfSignaturePacket signaturePacketBytes with
  | none => impl.peerMasterKey
  | some issuerKeyId =>
    if issuerKeyId = impl.peerMasterKeyId.1 then impl.peerMasterKey
    else
      match impl.peerSubkeys.find? (fun subkey => subkey.keyId.1 = issuerKeyId) with
      | none => impl.peerMasterKey
      | some subkey => subkey.verificationKey.getD impl.peerMasterKey

/-- `none` is a technical failure. -/
def VerificationKey.verify (P : Primitives) (key : VerificationKey)
    (documentData signaturePacketBytes : Bytes) : Option Bool :=
  match key with
  | .rsa key => verifySignaturePacket P key documentData signaturePacketBytes
  | .ed25519 key => verifyEd25519SignaturePacket P key documentData signaturePacketBytes

/-- The check that all verifying calls share. -/
def verifyWithPeer (P : Primitives) (impl : Impl) (documentData signaturePacketBytes : Bytes) :
    Option Bool :=
  (selectPeerVerificationKeyMaterial impl signaturePacketBytes).verify P documentData
    signaturePacketBytes

/-! ### Reading back a built signature -/

section Built

variable {signatureType pkAlgorithm hashAlgorithm : UInt8}
  {hashedSubpackets unhashedSubpackets leftHash signatureMpis : Bytes}

/-- The areas of a signature body, as every reader finds them. -/
theorem signatureBody_areas (signatureType pkAlgorithm hashAlgorithm : UInt8)
    {hashedSubpackets unhashedSubpackets leftHash : Bytes} (signatureMpis : Bytes)
    (hhashed : hashedSubpackets.length < 2 ^ 16)
    (hunhashed : unhashedSubpackets.length < 2 ^ 16) (hleft : 2 ≤ leftHash.length) :
    let body := signatureBody signatureType pkAlgorithm hashAlgorithm hashedSubpackets
      unhashedSubpackets leftHash signatureMpis
    let hashedEnd := 6 + hashedSubpackets.length
    let unhashedEnd := hashedEnd + 2 + unhashedSubpackets.length
    readBigEndian16 body 4 = hashedSubpackets.length ∧
      readArea16 body 4 = some (hashedSubpackets, hashedEnd) ∧
      readBigEndian16 body hashedEnd = unhashedSubpackets.length ∧
      readArea16 body hashedEnd = some (unhashedSubpackets, unhashedEnd) ∧
      At body (hashedEnd + 2) (unhashedSubpackets ++ (leftHash.take 2 ++ signatureMpis)) ∧
      At body (unhashedEnd + 2) signatureMpis := by
  intro body hashedEnd unhashedEnd
  have hhashedAt := signatureBody_at signatureType pkAlgorithm hashAlgorithm hashedSubpackets
    unhashedSubpackets leftHash signatureMpis
  obtain ⟨hhashedArea, hunhashedAt⟩ := readArea16_of_at hhashed hhashedAt
  obtain ⟨hunhashedArea, hleftAt⟩ := readArea16_of_at hunhashed hunhashedAt
  have hareaAt := hunhashedAt.advance
  have hmpisAt := hleftAt.advance
  rw [length_appendBigEndian16] at hareaAt
  rw [List.length_take, Nat.min_eq_left hleft] at hmpisAt
  exact ⟨readBigEndian16_of_at hhashed hhashedAt, hhashedArea,
    readBigEndian16_of_at hunhashed hunhashedAt, hunhashedArea, hareaAt, hmpisAt⟩

/-- The parser of a built body goes on to the signature value. -/
theorem parseSignaturePacketBody_build
    (hpk : pkAlgorithm = PGP_ALGO_RSA ∨ pkAlgorithm = PGP_ALGO_EDDSA)
    (hhash : hashAlgorithm = 8 ∨ hashAlgorithm = 10) (hhashed : hashedSubpackets.length < 2 ^ 16)
    (hunhashed : unhashedSubpackets.length < 2 ^ 16) (hleft : 2 ≤ leftHash.length) :
    let body := signatureBody signatureType pkAlgorithm hashAlgorithm hashedSubpackets
      unhashedSubpackets leftHash signatureMpis
    parseSignaturePacketBody body =
      match readMpiOctets body (6 + hashedSubpackets.length + 2 + unhashedSubpackets.length + 2) with
      | none => none
      | some (signatureMpiValue, pos) =>
        if pkAlgorithm = PGP_ALGO_EDDSA then
          (readMpiOctets body pos).map fun second =>
            ⟨pkAlgorithm, signatureType, hashAlgorithm, hashedSubpackets, signatureMpiValue,
              second.1⟩
        else
          some ⟨pkAlgorithm, signatureType, hashAlgorithm, hashedSubpackets, signatureMpiValue,
            []⟩ := by
  intro body
  obtain ⟨-, hhashedArea, -, hunhashedArea, -, hmpis⟩ :=
    signatureBody_areas signatureType pkAlgorithm hashAlgorithm signatureMpis hhashed hunhashed
      hleft
  obtain ⟨high, low, hlength⟩ : ∃ high low, appendBigEndian16 hashedSubpackets.length =
      [high, low] := ⟨_, _, rfl⟩
  have hle := hmpis.length_eq
  have hbody : body = 4 :: signatureType :: pkAlgorithm :: hashAlgorithm :: high :: low ::
      (hashedSubpackets ++ (appendBigEndian16 unhashedSubpackets.length ++ (unhashedSubpackets ++
        (leftHash.take 2 ++ signatureMpis)))) := by
    simp only [body, signatureBody, hlength]
    rfl
  have hpk' : ¬ (pkAlgorithm ≠ PGP_ALGO_RSA ∧ pkAlgorithm ≠ PGP_ALGO_EDDSA) := by tauto
  have hhash' : ¬ (hashAlgorithm ≠ 8 ∧ hashAlgorithm ≠ 10) := by tauto
  change readArea16 body 4 = _ at hhashedArea
  change readArea16 body _ = _ at hunhashedArea
  change body.length = _ at hle
  clear_value body
  subst hbody
  rw [parseSignaturePacketBody, if_neg hpk', if_neg hhash']
  simp only [hhashedArea, hunhashedArea]
  exact if_neg (by omega)

theorem readMpiOctets_of_at_last {data : Bytes} {pos value : ℕ} (hsize : value.size < 2 ^ 16)
    (h : At data pos (encodeMpi value)) :
    readMpiOctets data pos =
      some (toOctets (octetsOfBits value.size) value, pos + (encodeMpi value).length) := by
  rw [← List.append_nil (encodeMpi value)] at h
  exact (readMpiOctets_of_at hsize h).1

theorem parseSignaturePacketBody_rsa {value : ℕ} (hhashed : hashedSubpackets.length < 2 ^ 16)
    (hunhashed : unhashedSubpackets.length < 2 ^ 16) (hleft : 2 ≤ leftHash.length)
    (hvalue : value.size < 2 ^ 16) :
    parseSignaturePacketBody (signatureBody signatureType 1 8 hashedSubpackets unhashedSubpackets
        leftHash (encodeMpi value)) =
      some ⟨1, signatureType, 8, hashedSubpackets, toOctets (octetsOfBits value.size) value,
        []⟩ := by
  obtain ⟨-, -, -, -, -, hmpi⟩ := signatureBody_areas signatureType 1 8 (encodeMpi value) hhashed
    hunhashed hleft
  have hpk : (1 : UInt8) = PGP_ALGO_RSA ∨ (1 : UInt8) = PGP_ALGO_EDDSA := Or.inl rfl
  rw [parseSignaturePacketBody_build hpk (Or.inl rfl) hhashed hunhashed hleft]
  simp only [readMpiOctets_of_at_last hvalue hmpi]
  rfl

theorem parseSignaturePacketBody_ed25519 {value value2 : ℕ}
    (hhashed : hashedSubpackets.length < 2 ^ 16) (hunhashed : unhashedSubpackets.length < 2 ^ 16)
    (hleft : 2 ≤ leftHash.length) (hvalue : value.size < 2 ^ 16) (hvalue2 : value2.size < 2 ^ 16) :
    parseSignaturePacketBody (signatureBody signatureType PGP_ALGO_EDDSA 10 hashedSubpackets
        unhashedSubpackets leftHash (encodeMpi value ++ encodeMpi value2)) =
      some ⟨PGP_ALGO_EDDSA, signatureType, 10, hashedSubpackets,
        toOctets (octetsOfBits value.size) value, toOctets (octetsOfBits value2.size) value2⟩ := by
  obtain ⟨-, -, -, -, -, hmpis⟩ := signatureBody_areas signatureType PGP_ALGO_EDDSA 10
    (encodeMpi value ++ encodeMpi value2) hhashed hunhashed hleft
  obtain ⟨hread, hrest⟩ := readMpiOctets_of_at hvalue hmpis
  rw [parseSignaturePacketBody_build (Or.inr rfl) (Or.inr rfl) hhashed hunhashed hleft]
  simp only [hread, readMpiOctets_of_at_last hvalue2 hrest, if_true, Option.map_some]

/-- An issuer subpacket in the unhashed area is found if the hashed one has none. -/
theorem inspectSignaturePacketBody_build {now : UInt32} {issuerKeyId : Octets 8}
    (hleft : 2 ≤ leftHash.length) :
    (inspectSignaturePacketBody (signatureBody signatureType pkAlgorithm hashAlgorithm
        (hashedSubpacketsOf now []) (unhashedSubpacketsOf issuerKeyId) leftHash
        signatureMpis)).bind PgpInspectedSignature.issuerKeyId = some issuerKeyId.1 := by
  have hhashed : (hashedSubpacketsOf now []).length < 2 ^ 16 := by
    simp [hashedSubpacketsOf, length_appendSubpacket, appendNewFormatLength]
  have hunhashed : (unhashedSubpacketsOf issuerKeyId).length < 2 ^ 16 := by
    simp [unhashedSubpacketsOf, length_appendSubpacket, appendNewFormatLength]
  obtain ⟨hhashedLength, -, hunhashedLength, -, hunhashedAt, hmpis⟩ :=
    signatureBody_areas signatureType pkAlgorithm hashAlgorithm signatureMpis hhashed hunhashed
      hleft
  have hhashedAt := signatureBody_hashed_at signatureType pkAlgorithm hashAlgorithm
    (hashedSubpacketsOf now []) (unhashedSubpacketsOf issuerKeyId) leftHash signatureMpis
  have hversion : (signatureBody signatureType pkAlgorithm hashAlgorithm (hashedSubpacketsOf now [])
    (unhashedSubpacketsOf issuerKeyId) leftHash signatureMpis)[0]? = some 4 := rfl
  generalize signatureBody signatureType pkAlgorithm hashAlgorithm (hashedSubpacketsOf now [])
    (unhashedSubpacketsOf issuerKeyId) leftHash signatureMpis = body at *
  have hle := hmpis.length_eq
  have hinHashed : findIssuerKeyIdInSubpackets body 6
      (6 + (hashedSubpacketsOf now []).length) = none := by
    rw [hashedSubpacketsOf, List.append_nil] at hhashedAt ⊢
    rw [findIssuerKeyIdInSubpackets,
      walkSubpackets_cons (by simp) hhashedAt le_rfl, walkSubpackets_end]
    simp [recordIssuer]
  have hinUnhashed : findIssuerKeyIdInSubpackets body (6 + (hashedSubpacketsOf now []).length + 2)
      (6 + (hashedSubpacketsOf now []).length + 2 + (unhashedSubpacketsOf issuerKeyId).length) =
        some issuerKeyId.1 := by
    rw [unhashedSubpacketsOf] at hunhashedAt ⊢
    have htype : (16 : UInt8) &&& 0x7F = 16 := by decide
    rw [findIssuerKeyIdInSubpackets, walkSubpackets_cons (by simp) hunhashedAt le_rfl,
      walkSubpackets_end]
    simp [recordIssuer, htype]
  rw [inspectSignaturePacketBody, hversion, if_neg (by decide), if_pos rfl, if_neg (by omega)]
  simp only [hhashedLength, hunhashedLength, hinHashed, hinUnhashed]
  rw [if_neg (by omega), Option.bind_some, if_pos ⟨trivial, by omega⟩]

end Built

section Signing

variable {P : Primitives} {key : SigningKey} {signatureType : UInt8} {documentData extra : Bytes}
  {now : UInt32}

/-- A signing key that came out of a generator, and its public half. -/
def SigningKey.Generated (P : Primitives) (key : SigningKey) (verifier : VerificationKey) :
    Prop :=
  match key.algorithm with
  | PGP_KEY_ALGORITHM_RSA =>
    ∃ seed bits, IsRsaKeySize bits ∧ key.rsaKey = (P.generateRsaKey seed bits).1 ∧
      verifier = .rsa key.rsaKey.publicKey
  | PGP_KEY_ALGORITHM_ED25519_X25519 =>
    ∃ seed, key.ed25519Key = (P.generateEd25519Key seed).1 ∧
      verifier = .ed25519 (P.generateEd25519Key seed).2

theorem length_hashedSubpacketsOf (now : UInt32) (extra : Bytes) :
    (hashedSubpacketsOf now extra).length = 6 + extra.length := by
  simp [hashedSubpacketsOf, length_appendSubpacket, appendNewFormatLength]

theorem length_unhashedSubpacketsOf (issuerKeyId : Octets 8) :
    (unhashedSubpacketsOf issuerKeyId).length = 10 := by
  simp [unhashedSubpacketsOf, length_appendSubpacket, appendNewFormatLength]

/-- What an RSA key signs verifies: the signature is padded back to the modulus. -/
theorem verifySignaturePacket_build (hlawful : P.Lawful) {rsaKey : RsaPrivateKey} {seed bits : ℕ}
    (hbits : IsRsaKeySize bits) (hkey : rsaKey = (P.generateRsaKey seed bits).1)
    {issuerKeyId : Octets 8} (hextra : extra.length < 2 ^ 16 - 6)
    (hsigned : buildSignaturePacket P rsaKey signatureType documentData extra issuerKeyId now ≠
      []) :
    verifySignaturePacket P rsaKey.publicKey documentData
      (buildSignaturePacket P rsaKey signatureType documentData extra issuerKeyId now) =
        some true := by
  have hhashed := length_hashedSubpacketsOf now extra
  have hunhashed := length_unhashedSubpacketsOf issuerKeyId
  simp only [buildSignaturePacket] at hsigned ⊢
  cases hraw : P.rsaSign rsaKey
      (toBeHashed documentData signatureType 1 8 (hashedSubpacketsOf now extra)) with
  | none => simp [hraw] at hsigned
  | some rawSignature =>
      have hmodulus : rsaKey.modulus.size = bits := by rw [hkey]; exact (P.generateRsaKey _ _).2.1
      have hle := hbits.le
      have hlength : rawSignature.1.length ≤ 512 := by
        rw [Octets.length_eq, rsaModulusByteLength, hmodulus]
        unfold octetsOfBits
        omega
      have hsize := size_ofOctets_le rawSignature.1
      have hmpi := length_encodeMpi_le 512 hlength
      have hbody := length_signatureBody signatureType 1 8 (hashedSubpacketsOf now extra)
        (unhashedSubpacketsOf issuerKeyId)
        (P.sha256 (toBeHashed documentData signatureType 1 8 (hashedSubpacketsOf now extra))).1
        (encodeMpi (ofOctets rawSignature.1))
      have hvalid : P.rsaVerify rsaKey.publicKey
          (toBeHashed documentData signatureType 1 8 (hashedSubpacketsOf now extra))
          rawSignature.1 = some true := by
        subst hkey
        exact hlawful.rsaVerify_rsaSign seed bits _ rawSignature hbits hraw
      have hpadded := toOctets_strip rawSignature.1
      rw [Octets.length_eq] at hpadded
      dsimp only
      rw [verifySignaturePacket, signaturePacketBody_writePacket (by omega), Option.bind_some,
        parseSignaturePacketBody_rsa (by omega) (by omega) (by simp) (by omega)]
      simp only [PGP_ALGO_RSA, ne_eq, not_true_eq_false, or_self, if_false,
        RsaPrivateKey.publicKey, hpadded]
      exact hvalid

/-- What a curve key signs verifies: both halves are padded back to 32 octets. -/
theorem verifyEd25519SignaturePacket_build (hlawful : P.Lawful) (seed : ℕ)
    {issuerKeyId : Octets 8} (hextra : extra.length < 2 ^ 16 - 6) :
    verifyEd25519SignaturePacket P (P.generateEd25519Key seed).2 documentData
      (buildEd25519SignaturePacket P (P.generateEd25519Key seed).1 signatureType documentData extra
        issuerKeyId now) = some true := by
  have hhashed := length_hashedSubpacketsOf now extra
  have hunhashed := length_unhashedSubpacketsOf issuerKeyId
  simp only [buildEd25519SignaturePacket]
  generalize hhash : P.sha512 (toBeHashed documentData signatureType PGP_ALGO_EDDSA 10
    (hashedSubpacketsOf now extra)) = leftHash
  have hvalid := hlawful.ed25519Verify_ed25519Sign seed leftHash.1
  generalize P.ed25519Sign (P.generateEd25519Key seed).1 leftHash.1 = rawSignature at hvalid ⊢
  have hfirst : (rawSignature.1.take 32).length = 32 := by simp
  have hsecond : (rawSignature.1.drop 32).length = 32 := by simp
  have hsize := size_ofOctets_le (rawSignature.1.take 32)
  have hsize2 := size_ofOctets_le (rawSignature.1.drop 32)
  have hmpi := length_encodeMpi_le 32 hfirst.le
  have hmpi2 := length_encodeMpi_le 32 hsecond.le
  have hbody := length_signatureBody signatureType PGP_ALGO_EDDSA 10 (hashedSubpacketsOf now extra)
    (unhashedSubpacketsOf issuerKeyId) leftHash.1
    (encodeMpi (ofOctets (rawSignature.1.take 32)) ++
      encodeMpi (ofOctets (rawSignature.1.drop 32)))
  rw [List.length_append] at hbody
  have hpadded := toOctets_strip (rawSignature.1.take 32)
  have hpadded2 := toOctets_strip (rawSignature.1.drop 32)
  rw [hfirst] at hpadded
  rw [hsecond] at hpadded2
  rw [verifyEd25519SignaturePacket, signaturePacketBody_writePacket (by omega), Option.bind_some,
    parseSignaturePacketBody_ed25519 (by omega) (by omega) (by simp) (by omega) (by omega)]
  simp only [ne_eq, not_true_eq_false, or_self, if_false, hpadded, hpadded2,
    List.take_append_drop, hhash]
  exact congrArg some hvalid

/-- What a generated key signs verifies under its public half. -/
theorem SigningKey.verify_sign (hlawful : P.Lawful) {verifier : VerificationKey}
    (hgenerated : key.Generated P verifier) (hextra : extra.length < 2 ^ 16 - 6)
    (hsigned : key.sign P signatureType documentData extra now ≠ []) :
    verifier.verify P documentData (key.sign P signatureType documentData extra now) =
      some true := by
  obtain ⟨algorithm, rsaKey, ed25519Key, keyId⟩ := key
  cases algorithm with
  | PGP_KEY_ALGORITHM_RSA =>
      obtain ⟨seed, bits, hbits, hkey, rfl⟩ := hgenerated
      exact verifySignaturePacket_build hlawful hbits hkey hextra hsigned
  | PGP_KEY_ALGORITHM_ED25519_X25519 =>
      obtain ⟨seed, hkey, rfl⟩ := hgenerated
      dsimp only at hkey
      subst hkey
      exact verifyEd25519SignaturePacket_build hlawful seed hextra

/-- A document signature names the key that made it. -/
theorem SigningKey.findIssuerKeyId_sign (P : Primitives) {key : SigningKey}
    (hmodulus : key.rsaKey.modulus.size ≤ 4096)
    (hsigned : key.sign P signatureType documentData [] now ≠ []) :
    findIssuerKeyIdOfSignaturePacket (key.sign P signatureType documentData [] now) =
      some key.keyId.1 := by
  obtain ⟨leftHash, signatureMpis, hleft, hpacket, hlen⟩ := key.sign_eq P hmodulus hsigned
  rw [List.length_nil] at hlen
  rw [hpacket, findIssuerKeyIdOfSignaturePacket, signaturePacketBody_writePacket (by omega),
    Option.bind_some, inspectSignaturePacketBody_build hleft]

end Signing

end HashCryptoLib.Pgp
