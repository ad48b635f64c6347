import HashCryptoLib.Pgp.ClearSign
import HashCryptoLib.Pgp.Faults
import HashCryptoLib.Pgp.OwnState
import HashCryptoLib.Pgp.SignedRoundTrip

/-!
Reasons for revocation. A revoking call writes the reason code and the text into
one subpacket of the hashed area, whatever the length of the text; the length of
the area has sixteen bits. As long as it fits, the packet verifies and gives the
reason back. Behind that the length is cut, and no reader finds the reason.
-/

namespace HashCryptoLib.Pgp

open BigEndian Cursor

/-! ### Reading the reason back -/

/-- The code and the text, if this subpacket is a reason for revocation. -/
def revocationReasonOf (subpacket : UInt8 × Bytes) : Option (UInt8 × Bytes) :=
  if subpacket.1 = 29 then
    match subpacket.2 with
    | [] => none
    | reasonCode :: reasonText => some (reasonCode, reasonText)
  else none

def findRevocationReasonInSubpackets (data : Bytes) (begin endPos : ℕ) : Option (UInt8 × Bytes) :=
  (walkSubpackets data endPos begin).findSome? revocationReasonOf

def findRevocationReasonInSignaturePacket (signaturePacketBytes : Bytes) :
    Option (UInt8 × Bytes) :=
  match readPacketHeader signaturePacketBytes 0 none false with
  | none => none
  | some header =>
    if header.tag ≠ PGP_TAG_SIGNATURE ∨
        header.bodyPos + header.bodyLength > signaturePacketBytes.length then none
    else if header.bodyLength < 6 ∨ signaturePacketBytes[header.bodyPos]? ≠ some 4 then none
    else
      let p := header.bodyPos + 6
      let hashedEnd := p + readBigEndian16 signaturePacketBytes (header.bodyPos + 4)
      if hashedEnd > header.bodyPos + header.bodyLength then none
      else findRevocationReasonInSubpackets signaturePacketBytes p hashedEnd

/-- The outcome and what is stored in `*reasonCode`. The text is written with a NUL behind it. -/
def GetRevocationReason (revocationCertArmored : Buffer) (buffer : Option Int32) :
    Except Fault (Outcome × Option UInt8) :=
  if revocationCertArmored.1 = [] then .ok ({ status := INVALID_ARGUMENT }, none)
  else
    match armorDecode revocationCertArmored.1 with
    | none => .ok ({ status := INVALID_DATA }, none)
    | some (_, signaturePacketBytes) =>
      match readPacketHeader signaturePacketBytes 0 none false with
      | none => .ok ({ status := INVALID_DATA }, none)
      | some header =>
        if header.tag ≠ PGP_TAG_SIGNATURE then .ok ({ status := INVALID_DATA }, none)
        else
          let found := (findRevocationReasonInSignaturePacket signaturePacketBytes).getD (0, [])
          (deliver buffer 0 (found.2 ++ [0])).map fun outcome => (outcome, some found.1)

/-! ### An area that is cut -/

/-- More room behind the length octets changes nothing. -/
theorem readSignatureSubpacketLength_mono {data : Bytes} {pos endPos endPos' : ℕ}
    {result : ℕ × ℕ} (hle : endPos ≤ endPos')
    (h : readSignatureSubpacketLength data pos endPos = some result) :
    readSignatureSubpacketLength data pos endPos' = some result := by
  rw [readSignatureSubpacketLength] at h ⊢
  by_cases hend : pos ≥ endPos
  · rw [if_pos hend] at h
    cases h
  rw [if_neg hend] at h
  rw [if_neg (by omega)]
  cases hfirst : data[pos]? with
  | none =>
      rw [hfirst] at h
      cases h
  | some first =>
      rw [hfirst] at h
      dsimp only at h ⊢
      by_cases hshort : first < 192
      · rw [if_pos hshort] at h ⊢
        exact h
      rw [if_neg hshort] at h ⊢
      by_cases hmedium : first < 255
      · rw [if_pos hmedium] at h ⊢
        split_ifs at h with htwo
        rw [if_neg (by omega)]
        exact h
      · rw [if_neg hmedium] at h ⊢
        split_ifs at h with hfive
        rw [if_neg (by omega)]
        exact h

/-- A subpacket that does not fit ends the walk. -/
theorem walkSubpackets_cut {data body rest : Bytes} {pos endPos : ℕ} {type : UInt8}
    (hbody : body.length + 1 < 2 ^ 32) (h : At data pos (appendSubpacket type body ++ rest))
    (hend : endPos < pos + (appendSubpacket type body).length) :
    walkSubpackets data endPos pos = [] := by
  have hlength := length_appendSubpacket type body
  rw [appendSubpacket, List.append_assoc] at h
  rw [walkSubpackets]
  split
  · rfl
  · rename_i length next hsome
    -- with enough room the same length is read, and the body behind it does not fit
    have hroomy := readSignatureSubpacketLength_mono hend.le hsome
    rw [readSignatureSubpacketLength_of_at hbody h (by omega)] at hroomy
    obtain ⟨rfl, rfl⟩ := Prod.mk.inj (Option.some.inj hroomy)
    rw [dif_pos (Or.inr (by omega))]

section Packet

variable {P : Primitives} {key : SigningKey} {signatureType reasonCode : UInt8}
  {documentData reasonText : Bytes} {now : UInt32}

/-- The length of the hashed area fits its sixteen bits. -/
theorem hashedArea_fits_iff (now : UInt32) (reasonCode : UInt8) (reasonText : Bytes) :
    (hashedSubpacketsOf now (buildRevocationReasonSubpacket reasonCode reasonText)).length <
        2 ^ 16 ↔ reasonText.length ≤ 65522 := by
  rw [length_hashedSubpacketsOf, buildRevocationReasonSubpacket, length_appendSubpacket,
    List.length_cons, appendNewFormatLength]
  split_ifs
  · simp only [List.length_cons, List.length_nil]
    omega
  · simp only [List.length_cons, List.length_nil]
    omega
  · simp only [List.length_cons, length_appendBigEndian32]
    omega

/-- Up to its length the area holds the time and the reason. -/
theorem walkSubpackets_reason {data rest : Bytes} {pos : ℕ} (htext : reasonText.length < 2 ^ 31)
    (h : At data pos (hashedSubpacketsOf now (buildRevocationReasonSubpacket reasonCode reasonText)
      ++ rest)) (endPos : ℕ)
    (hend : endPos ≤ pos +
      (hashedSubpacketsOf now (buildRevocationReasonSubpacket reasonCode reasonText)).length) :
    (walkSubpackets data endPos pos).findSome? revocationReasonOf =
      if endPos < pos +
          (hashedSubpacketsOf now (buildRevocationReasonSubpacket reasonCode reasonText)).length then
        none
      else some (reasonCode, reasonText) := by
  have htime : (appendSubpacket 2 (appendBigEndian32 now.toNat)).length = 6 := by
    simp [length_appendSubpacket, appendNewFormatLength]
  have hlength := length_hashedSubpacketsOf now (buildRevocationReasonSubpacket reasonCode reasonText)
  rw [hlength] at hend ⊢
  rw [hashedSubpacketsOf, List.append_assoc] at h
  have hreason := h.advance
  rw [htime, buildRevocationReasonSubpacket] at hreason
  by_cases hsix : pos + 6 ≤ endPos
  · rw [walkSubpackets_cons (by simp) h (by omega), htime]
    by_cases hcut : endPos < pos + (6 + (buildRevocationReasonSubpacket reasonCode
        reasonText).length)
    · rw [if_pos hcut, walkSubpackets_cut (by simp; omega) hreason
        (by rw [buildRevocationReasonSubpacket] at hcut; omega)]
      rfl
    · rw [buildRevocationReasonSubpacket] at hend hcut
      rw [if_neg (by rw [buildRevocationReasonSubpacket]; exact hcut),
        walkSubpackets_cons (by simp; omega) hreason (by omega)]
      rfl
  · rw [walkSubpackets_cut (by simp) h (by omega), if_pos (by omega)]
    rfl

/-- The hashed area of a signature body that stands in a packet, and the length that is
written in front of it. -/
theorem hashedArea_at {packet hashed unhashed leftHash signatureMpis : Bytes} {bodyPos : ℕ}
    {pkAlgorithm hashAlgorithm : UInt8}
    (h : At packet bodyPos (signatureBody signatureType pkAlgorithm hashAlgorithm hashed unhashed
      leftHash signatureMpis)) :
    packet[bodyPos]? = some 4 ∧
      readBigEndian16 packet (bodyPos + 4) = hashed.length % 2 ^ 16 ∧
        At packet (bodyPos + 6) (hashed ++ (appendBigEndian16 unhashed.length ++ (unhashed ++
          (leftHash.take 2 ++ signatureMpis)))) := by
  have hlength : At packet (bodyPos + 4) _ := h.next.next.next.next
  have harea := hlength.advance
  rw [length_appendBigEndian16] at harea
  exact ⟨h.head, readBigEndian16_mod hlength, harea⟩

/-- What is read back of a packet with a reason: all of it, or nothing. -/
theorem findRevocationReason_built {pkAlgorithm hashAlgorithm : UInt8} {unhashed leftHash
    signatureMpis : Bytes} (htext : reasonText.length < 2 ^ 31)
    (hbody : (signatureBody signatureType pkAlgorithm hashAlgorithm (hashedSubpacketsOf now
      (buildRevocationReasonSubpacket reasonCode reasonText)) unhashed leftHash
        signatureMpis).length < 2 ^ 32) :
    findRevocationReasonInSignaturePacket (writePacket PGP_TAG_SIGNATURE
        (signatureBody signatureType pkAlgorithm hashAlgorithm (hashedSubpacketsOf now
          (buildRevocationReasonSubpacket reasonCode reasonText)) unhashed leftHash
            signatureMpis)) =
      if reasonText.length ≤ 65522 then some (reasonCode, reasonText) else none := by
  have hfits := hashedArea_fits_iff now reasonCode reasonText
  obtain ⟨bodyPos, hread, hat⟩ := readPacketHeader_writePacket
    (show PGP_TAG_SIGNATURE < 64 by decide) hbody (at_whole _)
  rw [List.append_nil] at hat
  obtain ⟨hversion, hlength, harea⟩ := hashedArea_at hat
  have hend := hat.length_eq
  have hareaEnd := harea.le
  have hwalk := walkSubpackets_reason htext harea
  generalize hhashed : hashedSubpacketsOf now (buildRevocationReasonSubpacket reasonCode
    reasonText) = hashed at *
  generalize hpacket : signatureBody signatureType pkAlgorithm hashAlgorithm hashed unhashed
    leftHash signatureMpis = body at *
  have hbodyLength : 6 + hashed.length ≤ body.length := by
    rw [← hpacket, signatureBody]
    simp
    omega
  have hmod := Nat.mod_le hashed.length (2 ^ 16)
  rw [findRevocationReasonInSignaturePacket, hread]
  dsimp only
  rw [if_neg (by rw [not_or]; exact ⟨not_not.mpr rfl, by omega⟩),
    if_neg (by rw [not_or]; exact ⟨by omega, not_not.mpr hversion⟩), hlength,
    if_neg (by omega), findRevocationReasonInSubpackets, hwalk _ (by omega)]
  by_cases hshort : reasonText.length ≤ 65522
  · rw [Nat.mod_eq_of_lt (hfits.mpr hshort), if_neg (lt_irrefl _), if_pos hshort]
  · have hlong : 2 ^ 16 ≤ hashed.length := Nat.le_of_not_lt (mt hfits.mp hshort)
    have hlt := Nat.mod_lt hashed.length (show 0 < 2 ^ 16 by norm_num)
    rw [if_pos (by omega), if_neg hshort]

end Packet

/-! ### Revocations of the own identity -/

/-- The packet is accepted by the parser, verifies against the owner's master key, and gives
the reason back. -/
def ReasonKept (P : Primitives) (impl : Impl) (documentData packet : Bytes) (reasonCode : UInt8)
    (reasonText : Bytes) : Prop :=
  ((signaturePacketBody packet).bind parseSignaturePacketBody).isSome = true ∧
    impl.masterVerificationKey.verify P documentData packet = some true ∧
    findRevocationReasonInSignaturePacket packet = some (reasonCode, reasonText)

/-- So does the packet of a certificate, and the call that reads certificates gives the
reason to any buffer that is large enough. -/
def CertificateReasonKept (P : Primitives) (impl : Impl) (certificate : Buffer)
    (reasonCode : UInt8) (reasonText : Bytes) : Prop :=
  ∃ label packet, armorDecode certificate.1 = some (label, packet) ∧
    ReasonKept P impl (buildKeyHashPrefix (buildOwnMasterPubBody impl)) packet reasonCode
      reasonText ∧
    ∀ capacity : Int32, (reasonText.length : ℤ) + 1 ≤ capacity.toInt →
      GetRevocationReason certificate (some capacity) =
        .ok (delivered (reasonText ++ [0]), some reasonCode)

section Owner

variable {P : Primitives} {impl : Impl}

/-- What verifies has been parsed. -/
theorem VerificationKey.parsed_of_verify {key : VerificationKey}
    {documentData signaturePacketBytes : Bytes}
    (h : key.verify P documentData signaturePacketBytes = some true) :
    ((signaturePacketBody signaturePacketBytes).bind parseSignaturePacketBody).isSome = true := by
  cases hparsed : (signaturePacketBody signaturePacketBytes).bind parseSignaturePacketBody with
  | some parsed => rfl
  | none =>
      cases key with
      | rsa key =>
          rw [VerificationKey.verify, verifySignaturePacket, hparsed] at h
          cases h
      | ed25519 key =>
          rw [VerificationKey.verify, verifyEd25519SignaturePacket, hparsed] at h
          cases h

theorem ownKeyGenerated_of_accepted {password : Bytes} (h : rejects P impl password = false) :
    impl.ownKeyGenerated = true := by
  simp only [rejects, Bool.or_eq_false_iff] at h
  simpa using h.1.1

theorem header_of_findRevocationReason {packet : Bytes} {reason : UInt8 × Bytes}
    (h : findRevocationReasonInSignaturePacket packet = some reason) :
    ∃ header, readPacketHeader packet 0 none false = some header ∧
      header.tag = PGP_TAG_SIGNATURE := by
  rw [findRevocationReasonInSignaturePacket] at h
  cases hread : readPacketHeader packet 0 none false with
  | none =>
      rw [hread] at h
      cases h
  | some header =>
      rw [hread] at h
      dsimp only at h
      split_ifs at h with hframe
      exact ⟨header, rfl, not_not.mp (not_or.mp hframe).1⟩

/-- Where a call succeeds its step did not throw. -/
theorem caught_of_noError {throws : Bool} {packet : Bytes} {stored impl' : Impl}
    (h : (if caught throws packet = [] then (UNEXPECTED_ERROR, impl) else (NO_ERROR, stored)) =
      (NO_ERROR, impl')) : caught throws packet = packet ∧ stored = impl' := by
  have hne : UNEXPECTED_ERROR ≠ NO_ERROR := by decide
  split_ifs at h with hempty
  · exact absurd (congrArg Prod.fst h) hne
  · exact ⟨(caught_eq throws packet).resolve_right hempty, congrArg Prod.snd h⟩

theorem atIndex_set {α : Type} {xs : List α} {index : ℤ} {x y : α}
    (h : atIndex xs index = some x) : atIndex (xs.set index.toNat y) index = some y := by
  rw [atIndex] at h ⊢
  split_ifs at h with hle
  rw [if_pos hle, List.getElem?_set_self (List.getElem?_eq_some_iff.mp h).1]

/-- A certificate keeps a reason where its packet does. -/
theorem certificateReasonKept_iff {certificate : Buffer} {packet reasonText : Bytes}
    {reasonCode : UInt8}
    (hcertificate : certificate.1 = armorEncode (ascii "PGP PUBLIC KEY BLOCK") packet) :
    CertificateReasonKept P impl certificate reasonCode reasonText ↔
      ReasonKept P impl (buildKeyHashPrefix (buildOwnMasterPubBody impl)) packet reasonCode
        reasonText := by
  have hlabel : DASH ∉ ascii "PGP PUBLIC KEY BLOCK" := by decide
  have hdecode := armorDecode_armorEncode hlabel packet []
  rw [List.append_nil, ← hcertificate] at hdecode
  constructor
  · rintro ⟨label, packet', hdecode', hkept, -⟩
    obtain ⟨-, rfl⟩ := Prod.mk.inj (Option.some.inj (hdecode.symm.trans hdecode'))
    exact hkept
  · intro hkept
    refine ⟨_, packet, hdecode, hkept, fun capacity hcapacity => ?_⟩
    obtain ⟨-, -, hreason⟩ := hkept
    have hne : certificate.1 ≠ [] := by
      intro hnil
      rw [hnil] at hdecode
      cases hdecode
    obtain ⟨header, hread, htag⟩ := header_of_findRevocationReason hreason
    rw [GetRevocationReason, if_neg hne, hdecode]
    dsimp only
    rw [hread]
    dsimp only
    rw [if_neg (not_not.mpr htag), hreason]
    dsimp only [Option.getD_some]
    rw [deliver_of_le 0 (by rw [List.length_append]; push_cast; exact hcapacity)]
    rfl

variable (hlawful : P.Lawful) (hreachable : Reachable P impl)
include hlawful hreachable

/-- A signature of the master key with a reason in it, by the length of the text. -/
theorem reasonKept_iff (hgenerated : impl.ownKeyGenerated = true) (signatureType : UInt8)
    (documentData : Bytes) (reasonCode : UInt8) (reasonText : Buffer) (now : UInt32) :
    ReasonKept P impl documentData (signWithOwnMasterKey P impl signatureType documentData
        (buildRevocationReasonSubpacket reasonCode reasonText.1) now) reasonCode reasonText.1 ↔
      reasonText.1.length ≤ 65522 := by
  have hkey := hreachable.ownKeysGenerated.master hgenerated
  have hsigned := hkey.sign_ne_nil hlawful signatureType documentData
    (buildRevocationReasonSubpacket reasonCode reasonText.1) now
  have hfits := hashedArea_fits_iff now reasonCode reasonText.1
  rw [length_hashedSubpacketsOf] at hfits
  have hextra : (buildRevocationReasonSubpacket reasonCode reasonText.1).length <
      2 ^ 31 + 7 := by
    have hlength := length_appendNewFormatLength_le (reasonText.1.length + 1 + 1)
    have htext := reasonText.2
    rw [buildRevocationReasonSubpacket, length_appendSubpacket, List.length_cons]
    omega
  obtain ⟨leftHash, signatureMpis, -, hpacket, hlength⟩ :=
    SigningKey.sign_eq P hreachable.wellFormed.privateModulus_size hsigned
  have hread := findRevocationReason_built reasonText.2 (hlength.trans_lt (by omega))
  rw [← hpacket, masterSigningKey_sign] at hread
  rw [masterSigningKey_sign] at hsigned
  rw [ReasonKept, hread]
  constructor
  · rintro ⟨-, -, hkept⟩
    by_contra hlong
    rw [if_neg hlong] at hkept
    cases hkept
  · intro hshort
    have hverify := SigningKey.verify_sign hlawful hkey
      (show (buildRevocationReasonSubpacket reasonCode reasonText.1).length < 2 ^ 16 - 6 by omega)
      hsigned
    exact ⟨VerificationKey.parsed_of_verify hverify, hverify, if_pos hshort⟩

/-- The revocation that is stored with a user ID. -/
theorem revokeUserId_iff {faults : Faults} {now : UInt32} {password : Bytes} {userIdIndex : ℤ}
    {reasonCode : UInt8} {reasonText : Buffer} {impl' : Impl}
    (h : RevokeUserIdWith P faults now password userIdIndex reasonCode reasonText impl =
      (NO_ERROR, impl')) :
    (∃ uid, atIndex impl'.ownUserIds userIdIndex = some uid ∧
        ReasonKept P impl (buildUserIdCertificationDocument (buildOwnMasterPubBody impl) uid.uidText)
          uid.revocationSigPacket reasonCode reasonText.1) ↔
      reasonText.1.length ≤ 65522 := by
  rw [RevokeUserIdWith] at h
  cases huid : atIndex impl.ownUserIds userIdIndex with
  | none =>
      rw [huid] at h
      cases h
  | some uid =>
      rw [huid] at h
      dsimp only at h
      cases hrejects : rejects P impl password with
      | true =>
          rw [hrejects, if_pos rfl] at h
          cases h
      | false =>
          rw [hrejects, if_neg Bool.false_ne_true] at h
          obtain ⟨hcaught, rfl⟩ := caught_of_noError h
          rw [hcaught]
          dsimp only
          rw [atIndex_set huid]
          simp only [Option.some.injEq, exists_eq_left']
          exact reasonKept_iff hlawful hreachable (ownKeyGenerated_of_accepted hrejects) ..

/-- The revocation that is stored with a subkey. -/
theorem revokeSubkey_iff {faults : Faults} {now : UInt32} {password : Bytes} {subkeyIndex : ℤ}
    {reasonCode : UInt8} {reasonText : Buffer} {impl' : Impl}
    (h : RevokeSubkeyWith P faults now password subkeyIndex reasonCode reasonText impl =
      (NO_ERROR, impl')) :
    (∃ subkey, atIndex impl'.ownSubkeys subkeyIndex = some subkey ∧
        ReasonKept P impl (buildSubkeyBindingDocument (buildOwnMasterPubBody impl)
            (buildOwnSubkeyPubBody impl.keyAlgorithm subkey))
          subkey.revocationSigPacket reasonCode reasonText.1) ↔
      reasonText.1.length ≤ 65522 := by
  rw [RevokeSubkeyWith] at h
  cases hsubkey : atIndex impl.ownSubkeys subkeyIndex with
  | none =>
      rw [hsubkey] at h
      cases h
  | some subkey =>
      rw [hsubkey] at h
      dsimp only at h
      cases hrejects : rejects P impl password with
      | true =>
          rw [hrejects, if_pos rfl] at h
          cases h
      | false =>
          rw [hrejects, if_neg Bool.false_ne_true] at h
          obtain ⟨hcaught, rfl⟩ := caught_of_noError h
          rw [hcaught]
          dsimp only
          rw [atIndex_set hsubkey]
          simp only [Option.some.injEq, exists_eq_left']
          exact reasonKept_iff hlawful hreachable (ownKeyGenerated_of_accepted hrejects) ..

/-- The certificate that revokes the master key. -/
theorem revokeKeyArmored_iff {faults : Faults} {now : UInt32} {password : Bytes}
    {reasonCode : UInt8} {reasonText certificate : Buffer} {buffer : Option Int32}
    {outcome : Outcome} {impl' : Impl}
    (h : RevokeKeyArmoredWith P faults now password reasonCode reasonText buffer impl =
      .ok (outcome, impl')) (hstatus : outcome.status = NO_ERROR)
    (hcertificate : certificate.1 = outcome.output) :
    CertificateReasonKept P impl certificate reasonCode reasonText.1 ↔
      reasonText.1.length ≤ 65522 := by
  rw [RevokeKeyArmoredWith] at h
  cases hrejects : rejects P impl password with
  | true =>
      rw [hrejects, if_pos rfl] at h
      obtain ⟨rfl, -⟩ := Prod.mk.inj (Except.ok.inj h)
      cases hstatus
  | false =>
      rw [hrejects, if_neg Bool.false_ne_true] at h
      dsimp only at h
      split_ifs at h with hempty
      · obtain ⟨rfl, -⟩ := Prod.mk.inj (Except.ok.inj h)
        cases hstatus
      · rw [(caught_eq _ _).resolve_right hempty] at h
        cases hdelivered : deliver buffer 0 (armorEncode (ascii "PGP PUBLIC KEY BLOCK")
            (signWithOwnMasterKey P impl 0x20 (buildKeyHashPrefix (buildOwnMasterPubBody impl))
              (buildRevocationReasonSubpacket reasonCode reasonText.1) now)) with
        | error fault =>
            rw [hdelivered] at h
            cases h
        | ok outcome' =>
            rw [hdelivered] at h
            obtain ⟨rfl, -⟩ := Prod.mk.inj (Except.ok.inj h)
            rw [(deliver_eq_delivered hdelivered hstatus).1] at hcertificate
            have hkept := reasonKept_iff hlawful hreachable (ownKeyGenerated_of_accepted hrejects)
              0x20 (buildKeyHashPrefix (buildOwnMasterPubBody impl)) reasonCode reasonText now
            rw [← hkept]
            exact certificateReasonKept_iff hcertificate

/-- With the right password a user ID is revoked, whatever the reason. -/
theorem revokeUserId_noError {password : Bytes} {userIdIndex : ℤ} {uid : PgpOwnUserId}
    (hrejects : rejects P impl password = false)
    (huid : atIndex impl.ownUserIds userIdIndex = some uid) (now : UInt32) (reasonCode : UInt8)
    (reasonText : Buffer) :
    ∃ impl', RevokeUserIdWith P Faults.none now password userIdIndex reasonCode reasonText impl =
      (NO_ERROR, impl') := by
  have hkey := hreachable.ownKeysGenerated.master (ownKeyGenerated_of_accepted hrejects)
  have hsigned := hkey.sign_ne_nil hlawful 0x30
    (buildUserIdCertificationDocument (buildOwnMasterPubBody impl) uid.uidText)
    (buildRevocationReasonSubpacket reasonCode reasonText.1) now
  rw [RevokeUserIdWith, huid]
  dsimp only
  rw [hrejects, if_neg Bool.false_ne_true]
  exact ⟨_, if_neg hsigned⟩

end Owner

/-- In every state of an engine, a successful revocation keeps its reason exactly where the
text is no longer than 65522 octets. -/
theorem revocationReason_iff {P : Primitives} (hlawful : P.Lawful) {impl : Impl}
    (hreachable : Reachable P impl) (faults : Faults) (now : UInt32) (password : Bytes)
    (reasonCode : UInt8) (reasonText : Buffer) :
    (∀ buffer outcome impl' (certificate : Buffer),
      RevokeKeyArmoredWith P faults now password reasonCode reasonText buffer impl =
          .ok (outcome, impl') → outcome.status = NO_ERROR → certificate.1 = outcome.output →
        (CertificateReasonKept P impl certificate reasonCode reasonText.1 ↔
          reasonText.1.length ≤ 65522)) ∧
    (∀ userIdIndex impl',
      RevokeUserIdWith P faults now password userIdIndex reasonCode reasonText impl =
          (NO_ERROR, impl') →
        ((∃ uid, atIndex impl'.ownUserIds userIdIndex = some uid ∧
            ReasonKept P impl
              (buildUserIdCertificationDocument (buildOwnMasterPubBody impl) uid.uidText)
              uid.revocationSigPacket reasonCode reasonText.1) ↔
          reasonText.1.length ≤ 65522)) ∧
    ∀ subkeyIndex impl',
      RevokeSubkeyWith P faults now password subkeyIndex reasonCode reasonText impl =
          (NO_ERROR, impl') →
        ((∃ subkey, atIndex impl'.ownSubkeys subkeyIndex = some subkey ∧
            ReasonKept P impl
              (buildSubkeyBindingDocument (buildOwnMasterPubBody impl)
                (buildOwnSubkeyPubBody impl.keyAlgorithm subkey))
              subkey.revocationSigPacket reasonCode reasonText.1) ↔
          reasonText.1.length ≤ 65522) :=
  ⟨fun _ _ _ _ h hstatus hcertificate =>
      revokeKeyArmored_iff hlawful hreachable h hstatus hcertificate,
    fun _ _ h => revokeUserId_iff hlawful hreachable h,
    fun _ _ h => revokeSubkey_iff hlawful hreachable h⟩

/-- A fresh curve identity. -/
def revoker : Impl := freshOwner standIn (Env.numbered 1000 7) (ascii "alice") (ascii "pw") 0

theorem revoker_reachable : Reachable standIn revoker :=
  freshOwner_reachable (P := standIn) (Env.numbered 1000 7) ⟨ascii "alice", by decide⟩ 0
    (by decide) (show ascii "pw" ≠ [] by decide)

theorem revoker_accepts : rejects standIn revoker (ascii "pw") = false := by decide

/-- It revokes its user ID and keeps the reason. -/
theorem revocationReason_iff_lost : ∃ impl' uid,
    RevokeUserIdWith standIn Faults.none 2000 (ascii "pw") 0 2 ⟨ascii "lost", by decide⟩ revoker =
        (NO_ERROR, impl') ∧
      atIndex impl'.ownUserIds 0 = some uid ∧
        ReasonKept standIn revoker
          (buildUserIdCertificationDocument (buildOwnMasterPubBody revoker) uid.uidText)
          uid.revocationSigPacket 2 (ascii "lost") := by
  obtain ⟨impl', h⟩ := revokeUserId_noError standIn_lawful revoker_reachable revoker_accepts
    (show atIndex revoker.ownUserIds 0 = some _ from rfl) 2000 2 ⟨ascii "lost", by decide⟩
  obtain ⟨uid, huid, hkept⟩ := ((revocationReason_iff standIn_lawful revoker_reachable Faults.none
    2000 (ascii "pw") 2 ⟨ascii "lost", by decide⟩).2.1 0 impl' h).mpr (by decide)
  exact ⟨impl', uid, h, huid, hkept⟩

/-- A text one octet longer than the hashed area holds. -/
def longReason : Buffer := ⟨List.replicate 65523 SPACE, by rw [List.length_replicate]; norm_num⟩

/-- The user ID is revoked, and the reason is lost. -/
theorem longReason_lost : ∃ impl',
    RevokeUserIdWith standIn Faults.none 2000 (ascii "pw") 0 2 longReason revoker =
        (NO_ERROR, impl') ∧
      ¬ ∃ uid, atIndex impl'.ownUserIds 0 = some uid ∧
        ReasonKept standIn revoker
          (buildUserIdCertificationDocument (buildOwnMasterPubBody revoker) uid.uidText)
          uid.revocationSigPacket 2 longReason.1 := by
  obtain ⟨impl', h⟩ := revokeUserId_noError standIn_lawful revoker_reachable revoker_accepts
    (show atIndex revoker.ownUserIds 0 = some _ from rfl) 2000 2 longReason
  refine ⟨impl', h, ?_⟩
  rw [revokeUserId_iff standIn_lawful revoker_reachable h, longReason, List.length_replicate]
  norm_num

end HashCryptoLib.Pgp
