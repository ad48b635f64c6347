import HashCryptoLib.Pgp.KeyPacket

/-!
Version-4 signature packets: subpackets and their scanners, the two builders
(RSA with SHA-256, EdDSA with SHA-512), the parser and the two verifiers. The
builders and the verifiers share the hashed preimage and the body layout.
-/

namespace HashCryptoLib.Pgp

open BigEndian Cursor

/-! ### Subpackets -/

def appendSubpacket (type : UInt8) (body : Bytes) : Bytes :=
  appendNewFormatLength (body.length + 1) ++ (type :: body)

def buildKeyFlagsSubpacket (flags : UInt8) : Bytes := appendSubpacket 27 [flags]

def buildKeyExpirationSubpacket (expirationSeconds : UInt32) : Bytes :=
  appendSubpacket 9 (appendBigEndian32 expirationSeconds.toNat)

def buildRevocationReasonSubpacket (reasonCode : UInt8) (reasonText : Bytes) : Bytes :=
  appendSubpacket 29 (reasonCode :: reasonText)

def buildPrimaryUserIdSubpacket (isPrimary : Bool) : Bytes :=
  appendSubpacket 25 [if isPrimary then 1 else 0]

/-- The length of a subpacket and the position behind its length octets. -/
def readSignatureSubpacketLength (data : Bytes) (pos endPos : ℕ) : Option (ℕ × ℕ) :=
  if pos ≥ endPos then none
  else
    match data[pos]? with
    | none => none
    | some first =>
      if first < 192 then some (first.toNat, pos + 1)
      else if first < 255 then
        if pos + 1 ≥ endPos then none
        else
          (data[pos + 1]?).map fun second =>
            ((first.toNat - 192) * 256 + second.toNat + 192, pos + 2)
      else if pos + 4 ≥ endPos then none
      else (readOctets data (pos + 1) 4).map fun octets => (ofOctets octets, pos + 5)

theorem readSignatureSubpacketLength_gt {data : Bytes} {pos endPos length next : ℕ}
    (h : readSignatureSubpacketLength data pos endPos = some (length, next)) : pos < next := by
  unfold readSignatureSubpacketLength at h
  split at h
  · cases h
  · split at h
    · cases h
    · split_ifs at h
      all_goals simp only [Option.map_eq_some_iff, Option.some.injEq, Prod.mk.injEq] at h
      · omega
      · obtain ⟨_, _, _, rfl⟩ := h; omega
      · obtain ⟨_, _, _, rfl⟩ := h; omega

/-- The subpackets of an area, as every scanner walks it: the type without its
critical bit, and the body. A malformed length ends the walk. -/
def walkSubpackets (data : Bytes) (endPos pos : ℕ) : List (UInt8 × Bytes) :=
  match _hlen : readSignatureSubpacketLength data pos endPos with
  | none => []
  | some (length, next) =>
    if _hbad : length = 0 ∨ next + length > endPos then []
    else
      (data.getD next 0 &&& 0x7F, (data.drop (next + 1)).take (length - 1)) ::
        walkSubpackets data endPos (next + length)
termination_by endPos - pos
decreasing_by
  have := readSignatureSubpacketLength_gt _hlen
  omega

/-! ### Building -/

/-- The octets a version-4 signature hashes: the document, the hashed part of
the packet and the six-octet trailer. -/
def toBeHashed (documentData : Bytes) (signatureType pkAlgorithm hashAlgorithm : UInt8)
    (hashedSubpackets : Bytes) : Bytes :=
  documentData ++ [4, signatureType, pkAlgorithm, hashAlgorithm] ++
    appendBigEndian16 hashedSubpackets.length ++ hashedSubpackets ++
    [4, 0xFF] ++ appendBigEndian32 (6 + hashedSubpackets.length)

def hashedSubpacketsOf (now : UInt32) (extraHashedSubpacket : Bytes) : Bytes :=
  appendSubpacket 2 (appendBigEndian32 now.toNat) ++ extraHashedSubpacket

def unhashedSubpacketsOf (issuerKeyId : Octets 8) : Bytes := appendSubpacket 16 issuerKeyId.1

def signatureBody (signatureType pkAlgorithm hashAlgorithm : UInt8)
    (hashedSubpackets unhashedSubpackets leftHash signatureMpis : Bytes) : Bytes :=
  4 :: signatureType :: pkAlgorithm :: hashAlgorithm ::
    (appendBigEndian16 hashedSubpackets.length ++ (hashedSubpackets ++
      (appendBigEndian16 unhashedSubpackets.length ++ (unhashedSubpackets ++
        (leftHash.take 2 ++ signatureMpis)))))

/-- `now` is the reading of the clock; the empty result is the exception path. -/
def buildSignaturePacket (P : Primitives) (signingKey : RsaPrivateKey) (signatureType : UInt8)
    (documentData extraHashedSubpacket : Bytes) (issuerKeyId : Octets 8) (now : UInt32) : Bytes :=
  let hashedSubpackets := hashedSubpacketsOf now extraHashedSubpacket
  let hashed := toBeHashed documentData signatureType 1 8 hashedSubpackets
  match P.rsaSign signingKey hashed with
  | none => []
  | some rawSignature =>
    writePacket PGP_TAG_SIGNATURE
      (signatureBody signatureType 1 8 hashedSubpackets (unhashedSubpacketsOf issuerKeyId)
        (P.sha256 hashed).1 (encodeMpi (ofOctets rawSignature.1)))

def buildEd25519SignaturePacket (P : Primitives) (privateKey : Octets 32) (signatureType : UInt8)
    (documentData extraHashedSubpacket : Bytes) (issuerKeyId : Octets 8) (now : UInt32) : Bytes :=
  let hashedSubpackets := hashedSubpacketsOf now extraHashedSubpacket
  let hashed := toBeHashed documentData signatureType PGP_ALGO_EDDSA 10 hashedSubpackets
  let leftHash := P.sha512 hashed
  let rawSignature := P.ed25519Sign privateKey leftHash.1
  writePacket PGP_TAG_SIGNATURE
    (signatureBody signatureType PGP_ALGO_EDDSA 10 hashedSubpackets
      (unhashedSubpacketsOf issuerKeyId) leftHash.1
      (encodeMpi (ofOctets (rawSignature.1.take 32)) ++
        encodeMpi (ofOctets (rawSignature.1.drop 32))))

theorem buildSignaturePacket_ne_nil {P : Primitives} (hlawful : P.Lawful) (seed : ℕ) {bits : ℕ}
    (hbits : IsRsaKeySize bits) (signatureType : UInt8) (documentData extra : Bytes)
    (issuerKeyId : Octets 8) (now : UInt32) :
    buildSignaturePacket P (P.generateRsaKey seed bits).1 signatureType documentData extra
      issuerKeyId now ≠ [] := by
  obtain ⟨rawSignature, hraw⟩ := Option.isSome_iff_exists.mp (hlawful.rsaSign_isSome seed bits
    (toBeHashed documentData signatureType 1 8 (hashedSubpacketsOf now extra)) hbits)
  simp only [buildSignaturePacket, hraw]
  exact writePacket_ne_nil _ _

theorem buildEd25519SignaturePacket_ne_nil (P : Primitives) (privateKey : Octets 32)
    (signatureType : UInt8) (documentData extra : Bytes) (issuerKeyId : Octets 8) (now : UInt32) :
    buildEd25519SignaturePacket P privateKey signatureType documentData extra issuerKeyId now ≠
      [] :=
  writePacket_ne_nil _ _

def buildUserIdCertificationDocument (masterPubBody uidBody : Bytes) : Bytes :=
  buildKeyHashPrefix masterPubBody ++ (0xB4 :: (appendBigEndian32 uidBody.length ++ uidBody))

def buildSubkeyBindingDocument (masterPubBody subkeyPubBody : Bytes) : Bytes :=
  buildKeyHashPrefix masterPubBody ++ buildKeyHashPrefix subkeyPubBody

/-! ### Parsing and verifying -/

structure ParsedSignature where
  pkAlgorithm : UInt8
  signatureType : UInt8
  hashAlgorithm : UInt8
  hashedSubpackets : Bytes
  signatureMpiValue : Bytes
  signatureMpiValue2 : Bytes
  deriving DecidableEq, Repr

/-- The two halves of an EdDSA signature. -/
theorem ParsedSignature.length_rawSignature (parsed : ParsedSignature) :
    (toOctets 32 (ofOctets parsed.signatureMpiValue) ++
      toOctets 32 (ofOctets parsed.signatureMpiValue2)).length = 64 := by
  simp

/-- A length-prefixed area: its octets and the position behind them. -/
def readArea16 (body : Bytes) (pos : ℕ) : Option (Bytes × ℕ) :=
  if pos + 2 > body.length then none
  else
    (readOctets body (pos + 2) (readBigEndian16 body pos)).map fun area =>
      (area, pos + 2 + readBigEndian16 body pos)

/-- `none` is a result whose `valid` stays false. -/
def parseSignaturePacketBody (body : Bytes) : Option ParsedSignature :=
  match body with
  | 4 :: signatureType :: pkAlgorithm :: hashAlgorithm :: _ :: _ :: _ =>
    if pkAlgorithm ≠ PGP_ALGO_RSA ∧ pkAlgorithm ≠ PGP_ALGO_EDDSA then none
    else if hashAlgorithm ≠ 8 ∧ hashAlgorithm ≠ 10 then none
    else
      match readArea16 body 4 with
      | none => none
      | some (hashedSubpackets, pos) =>
        match readArea16 body pos with
        | none => none
        | some (_, pos) =>
          if pos + 2 > body.length then none
          else
            match readMpiOctets body (pos + 2) with
            | none => none
            | some (signatureMpiValue, pos) =>
              if pkAlgorithm = PGP_ALGO_EDDSA then
                (readMpiOctets body pos).map fun second =>
                  ⟨pkAlgorithm, signatureType, hashAlgorithm, hashedSubpackets,
                    signatureMpiValue, second.1⟩
              else
                some ⟨pkAlgorithm, signatureType, hashAlgorithm, hashedSubpackets,
                  signatureMpiValue, []⟩
  | _ => none

/-- The body of the signature packet at the front of `signaturePacketBytes`. -/
def signaturePacketBody (signaturePacketBytes : Bytes) : Option Bytes :=
  match readPacketHeader signaturePacketBytes 0 none false with
  | none => none
  | some header =>
    if header.tag ≠ PGP_TAG_SIGNATURE then none
    else readOctets signaturePacketBytes header.bodyPos header.bodyLength

/-- `none` is a technical failure, otherwise the value of `*isValid`. -/
def verifySignaturePacket (P : Primitives) (verifyingKey : RsaPublicKey)
    (documentData signaturePacketBytes : Bytes) : Option Bool :=
  match (signaturePacketBody signaturePacketBytes).bind parseSignaturePacketBody with
  | none => none
  | some parsed =>
    if parsed.pkAlgorithm ≠ PGP_ALGO_RSA ∨ parsed.hashAlgorithm ≠ 8 then none
    else
      let hashed := toBeHashed documentData parsed.signatureType 1 8 parsed.hashedSubpackets
      let fixedLength := rsaModulusByteLength verifyingKey.modulus
      P.rsaVerify verifyingKey hashed (toOctets fixedLength (ofOctets parsed.signatureMpiValue))

def verifyEd25519SignaturePacket (P : Primitives) (publicKey : Octets 32)
    (documentData signaturePacketBytes : Bytes) : Option Bool :=
  match (signaturePacketBody signaturePacketBytes).bind parseSignaturePacketBody with
  | none => none
  | some parsed =>
    if parsed.pkAlgorithm ≠ PGP_ALGO_EDDSA ∨ parsed.hashAlgorithm ≠ 10 then none
    else
      let hashed := toBeHashed documentData parsed.signatureType PGP_ALGO_EDDSA 10
        parsed.hashedSubpackets
      let rawSignature : Octets 64 :=
        ⟨toOctets 32 (ofOctets parsed.signatureMpiValue) ++
          toOctets 32 (ofOctets parsed.signatureMpiValue2), parsed.length_rawSignature⟩
      some (P.ed25519Verify publicKey (P.sha512 hashed).1 rawSignature)

/-! ### Walking built subpackets -/

theorem readSignatureSubpacketLength_of_at {data rest : Bytes} {pos endPos n : ℕ}
    (hn : n < 2 ^ 32) (h : At data pos (appendNewFormatLength n ++ rest))
    (hend : pos + (appendNewFormatLength n).length ≤ endPos) :
    readSignatureSubpacketLength data pos endPos =
      some (n, pos + (appendNewFormatLength n).length) := by
  unfold appendNewFormatLength at h hend ⊢
  split_ifs at h hend ⊢ with hshort hmedium
  · have hnat := toNat_shortLength hshort
    have hlt : UInt8.ofNat n < 192 := by rw [UInt8.lt_iff_toNat_lt, hnat]; exact hshort
    simp only [List.length_cons, List.length_nil] at hend
    rw [readSignatureSubpacketLength, if_neg (by omega), h.head]
    simp [hlt, hnat]
  · obtain ⟨hge, hlt, hvalue⟩ := mediumLength (by omega) hmedium
    have h192 : ¬ UInt8.ofNat ((n - 192) / 256 + 192) < 192 := by
      rw [UInt8.lt_iff_toNat_lt]; exact not_lt.mpr hge
    have h255 : UInt8.ofNat ((n - 192) / 256 + 192) < 255 := by
      rw [UInt8.lt_iff_toNat_lt]; exact lt_trans hlt (by decide)
    simp only [List.length_cons, List.length_nil] at hend
    rw [readSignatureSubpacketLength, if_neg (by omega), h.head]
    simp only [h192, h255, if_true, if_false]
    rw [if_neg (by omega), h.next.head, Option.map_some, hvalue]
    rfl
  · have hoctets := readOctets_of_at h.next
    simp only [List.length_cons, appendBigEndian32, length_toOctets] at hend hoctets
    rw [readSignatureSubpacketLength, if_neg (by omega), h.head]
    simp only [appendBigEndian32, List.length_cons, length_toOctets]
    rw [if_neg (by decide), if_neg (by decide), if_neg (by omega), hoctets, Option.map_some,
      ofOctets_toOctets_of_lt (by simpa using hn)]

theorem length_appendSubpacket (type : UInt8) (body : Bytes) :
    (appendSubpacket type body).length =
      (appendNewFormatLength (body.length + 1)).length + (body.length + 1) := by
  simp [appendSubpacket]

/-- One subpacket whose length is read. -/
theorem walkSubpackets_step {data body rest : Bytes} {pos next endPos : ℕ} {type : UInt8}
    (hlength : readSignatureSubpacketLength data pos endPos = some (body.length + 1, next))
    (h : At data next (type :: (body ++ rest))) (hend : next + (body.length + 1) ≤ endPos) :
    walkSubpackets data endPos pos =
      (type &&& 0x7F, body) :: walkSubpackets data endPos (next + (body.length + 1)) := by
  have hbodyAt := h.next.take_eq
  rw [walkSubpackets]
  split
  · rename_i hnone
    rw [hlength] at hnone
    cases hnone
  · rename_i length next hsome
    rw [hlength] at hsome
    cases hsome
    rw [dif_neg (by omega), List.getD_eq_getElem?_getD, h.head, Nat.add_sub_cancel, hbodyAt,
      Option.getD_some]

theorem walkSubpackets_cons {data body rest : Bytes} {pos endPos : ℕ} {type : UInt8}
    (hbody : body.length + 1 < 2 ^ 32) (h : At data pos (appendSubpacket type body ++ rest))
    (hend : pos + (appendSubpacket type body).length ≤ endPos) :
    walkSubpackets data endPos pos =
      (type &&& 0x7F, body) ::
        walkSubpackets data endPos (pos + (appendSubpacket type body).length) := by
  rw [length_appendSubpacket] at hend ⊢
  rw [appendSubpacket, List.append_assoc] at h
  have hheader : pos + (appendNewFormatLength (body.length + 1)).length ≤ endPos := by omega
  have hlength := readSignatureSubpacketLength_of_at hbody h hheader
  rw [walkSubpackets_step hlength h.advance (by omega), Nat.add_assoc]

theorem walkSubpackets_end (data : Bytes) (endPos : ℕ) :
    walkSubpackets data endPos endPos = [] := by
  rw [walkSubpackets]
  split
  · rfl
  · rename_i hsome
    simp [readSignatureSubpacketLength] at hsome

/-! ### Signing keys and the layout of what they sign -/

/-- A signing key of either family, and its ID. -/
structure SigningKey where
  algorithm : PgpKeyAlgorithm
  rsaKey : RsaPrivateKey
  ed25519Key : Octets 32
  keyId : Octets 8

def SigningKey.pkAlgorithm (key : SigningKey) : UInt8 :=
  match key.algorithm with
  | PGP_KEY_ALGORITHM_RSA => 1
  | PGP_KEY_ALGORITHM_ED25519_X25519 => PGP_ALGO_EDDSA

def SigningKey.hashAlgorithm (key : SigningKey) : UInt8 :=
  match key.algorithm with
  | PGP_KEY_ALGORITHM_RSA => 8
  | PGP_KEY_ALGORITHM_ED25519_X25519 => 10

/-- The signature packet of the key's own algorithm. -/
def SigningKey.sign (P : Primitives) (key : SigningKey) (signatureType : UInt8)
    (documentData extraHashedSubpacket : Bytes) (now : UInt32) : Bytes :=
  match key.algorithm with
  | PGP_KEY_ALGORITHM_RSA =>
    buildSignaturePacket P key.rsaKey signatureType documentData extraHashedSubpacket key.keyId now
  | PGP_KEY_ALGORITHM_ED25519_X25519 =>
    buildEd25519SignaturePacket P key.ed25519Key signatureType documentData extraHashedSubpacket
      key.keyId now

section Body

variable (signatureType pkAlgorithm hashAlgorithm : UInt8)
  (hashedSubpackets unhashedSubpackets leftHash signatureMpis : Bytes)

/-- The layout of a signature body up to its hashed area. -/
theorem signatureBody_at :
    At (signatureBody signatureType pkAlgorithm hashAlgorithm hashedSubpackets unhashedSubpackets
        leftHash signatureMpis) 4
      (appendBigEndian16 hashedSubpackets.length ++ (hashedSubpackets ++
        (appendBigEndian16 unhashedSubpackets.length ++ (unhashedSubpackets ++
          (leftHash.take 2 ++ signatureMpis))))) :=
  (((at_zero _).next).next).next.next

theorem signatureBody_hashed_at :
    At (signatureBody signatureType pkAlgorithm hashAlgorithm hashedSubpackets unhashedSubpackets
        leftHash signatureMpis) 6
      (hashedSubpackets ++ (appendBigEndian16 unhashedSubpackets.length ++ (unhashedSubpackets ++
        (leftHash.take 2 ++ signatureMpis)))) := by
  simpa [appendBigEndian16] using (signatureBody_at signatureType pkAlgorithm hashAlgorithm
    hashedSubpackets unhashedSubpackets leftHash signatureMpis).advance

theorem length_signatureBody :
    (signatureBody signatureType pkAlgorithm hashAlgorithm hashedSubpackets unhashedSubpackets
      leftHash signatureMpis).length ≤
      10 + hashedSubpackets.length + unhashedSubpackets.length + signatureMpis.length := by
  simp only [signatureBody, appendBigEndian16, List.length_cons, List.length_append,
    length_toOctets, List.length_take]
  omega

end Body

theorem length_encodeMpi_le {octets : Bytes} (len : ℕ) (h : octets.length ≤ len) :
    (encodeMpi (ofOctets octets)).length ≤ len + 2 := by
  have hle := octetsOfBits_size_le (ofOctets_lt octets)
  rw [length_encodeMpi]
  omega

/-- A signature is a body not much longer than its extra subpackets, in a packet. -/
theorem SigningKey.sign_eq (P : Primitives) {key : SigningKey} {signatureType : UInt8}
    {documentData extra : Bytes} {now : UInt32} (hmodulus : key.rsaKey.modulus.size ≤ 4096)
    (hsigned : key.sign P signatureType documentData extra now ≠ []) :
    ∃ leftHash signatureMpis, 2 ≤ leftHash.length ∧
      key.sign P signatureType documentData extra now =
        writePacket PGP_TAG_SIGNATURE (signatureBody signatureType key.pkAlgorithm
          key.hashAlgorithm (hashedSubpacketsOf now extra) (unhashedSubpacketsOf key.keyId)
          leftHash signatureMpis) ∧
      (signatureBody signatureType key.pkAlgorithm key.hashAlgorithm (hashedSubpacketsOf now extra)
        (unhashedSubpacketsOf key.keyId) leftHash signatureMpis).length ≤ extra.length + 1200 := by
  -- only the length of the signature value depends on the family
  suffices hmpis : ∃ leftHash signatureMpis, 2 ≤ leftHash.length ∧
      key.sign P signatureType documentData extra now =
        writePacket PGP_TAG_SIGNATURE (signatureBody signatureType key.pkAlgorithm
          key.hashAlgorithm (hashedSubpacketsOf now extra) (unhashedSubpacketsOf key.keyId)
          leftHash signatureMpis) ∧ signatureMpis.length ≤ 1024 by
    obtain ⟨leftHash, signatureMpis, hleft, hpacket, hlen⟩ := hmpis
    refine ⟨leftHash, signatureMpis, hleft, hpacket, (length_signatureBody ..).trans ?_⟩
    have htime := length_appendNewFormatLength_le (4 + 1)
    have hissuer := length_appendNewFormatLength_le (8 + 1)
    simp only [hashedSubpacketsOf, unhashedSubpacketsOf, List.length_append,
      length_appendSubpacket, length_appendBigEndian32, Octets.length_eq]
    omega
  obtain ⟨algorithm, rsaKey, ed25519Key, keyId⟩ := key
  dsimp only at hmodulus
  cases algorithm with
  | PGP_KEY_ALGORITHM_RSA =>
      simp only [SigningKey.sign, buildSignaturePacket] at hsigned ⊢
      cases hraw : P.rsaSign rsaKey
          (toBeHashed documentData signatureType 1 8 (hashedSubpacketsOf now extra)) with
      | none => simp [hraw] at hsigned
      | some rawSignature =>
          refine ⟨_, _, by simp, rfl, (length_encodeMpi_le 512 ?_).trans (by norm_num)⟩
          rw [Octets.length_eq]
          unfold rsaModulusByteLength octetsOfBits
          omega
  | PGP_KEY_ALGORITHM_ED25519_X25519 =>
      refine ⟨_, _, by simp, rfl, ?_⟩
      rw [List.length_append]
      refine (Nat.add_le_add (length_encodeMpi_le 32 ?_)
        (length_encodeMpi_le 32 ?_)).trans (by norm_num)
      · rw [List.length_take]
        omega
      · rw [List.length_drop, Octets.length_eq]

/-! ### Parsing what was built -/

theorem signaturePacketBody_writePacket {body : Bytes} (hbody : body.length < 2 ^ 32) :
    signaturePacketBody (writePacket PGP_TAG_SIGNATURE body) = some body := by
  obtain ⟨bodyPos, hread, hat⟩ := readPacketHeader_writePacket (by decide) hbody
    (at_whole (writePacket PGP_TAG_SIGNATURE body))
  rw [signaturePacketBody, hread none false]
  exact readOctets_of_at hat

theorem readArea16_of_at {data area rest : Bytes} {pos : ℕ} (harea : area.length < 2 ^ 16)
    (h : At data pos (appendBigEndian16 area.length ++ (area ++ rest))) :
    readArea16 data pos = some (area, pos + 2 + area.length) ∧
      At data (pos + 2 + area.length) rest := by
  have hlength := readBigEndian16_of_at harea h
  have hle := h.le
  have hareaAt := h.advance
  simp only [appendBigEndian16, length_toOctets] at hle hareaAt
  refine ⟨?_, hareaAt.advance⟩
  rw [readArea16, if_neg (by omega), hlength, readOctets_of_at hareaAt, Option.map_some]

end HashCryptoLib.Pgp
