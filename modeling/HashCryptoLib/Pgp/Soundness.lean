import HashCryptoLib.Pgp.BufferRoundTrip
import HashCryptoLib.Pgp.HashPreimage
import Mathlib.Data.Set.Basic

/-!
What an accepted signature proves. The octets that are signed determine the
document, the signature type and the hashed subpackets, so a packet that
verifies over a document was issued over that document; but a verifier does not
look at the type, and takes a certification for a signature of the certified
octets.
-/

namespace HashCryptoLib.Pgp

open BigEndian

/-! ### The signed octets -/

/-- A signature that was made: its type, the document, the hashed subpackets. -/
structure Issued where
  signatureType : UInt8
  documentData : Bytes
  hashedSubpackets : Bytes
  length_hashedSubpackets : hashedSubpackets.length < 2 ^ 31

def VerificationKey.pkAlgorithm : VerificationKey → UInt8
  | .rsa _ => PGP_ALGO_RSA
  | .ed25519 _ => PGP_ALGO_EDDSA

def VerificationKey.hashAlgorithm : VerificationKey → UInt8
  | .rsa _ => 8
  | .ed25519 _ => 10

/-- The octets that are signed with a document of a given type. -/
def VerificationKey.signedOctets (key : VerificationKey) (signatureType : UInt8)
    (documentData hashedSubpackets : Bytes) : Bytes :=
  toBeHashed documentData signatureType key.pkAlgorithm key.hashAlgorithm hashedSubpackets

/-- Whether the signature value in a packet is one of these octets. -/
def VerificationKey.accepts (P : Primitives) (key : VerificationKey) (parsed : ParsedSignature)
    (signedOctets : Bytes) : Option Bool :=
  match key with
  | .rsa key =>
    P.rsaVerify key signedOctets
      (toOctets (rsaModulusByteLength key.modulus) (ofOctets parsed.signatureMpiValue))
  | .ed25519 key =>
    some (P.ed25519Verify key (P.sha512 signedOctets).1
      ⟨toOctets 32 (ofOctets parsed.signatureMpiValue) ++
        toOctets 32 (ofOctets parsed.signatureMpiValue2), parsed.length_rawSignature⟩)

/-- The signature a packet contains, if it is one for this kind of key. -/
def VerificationKey.parse (key : VerificationKey) (signaturePacketBytes : Bytes) :
    Option ParsedSignature :=
  ((signaturePacketBody signaturePacketBytes).bind parseSignaturePacketBody).filter fun parsed =>
    parsed.pkAlgorithm = key.pkAlgorithm ∧ parsed.hashAlgorithm = key.hashAlgorithm

/-- Verifying looks at the signature value and at nothing else in the packet
but what is hashed. -/
theorem VerificationKey.verify_eq (P : Primitives) (key : VerificationKey)
    (documentData signaturePacketBytes : Bytes) :
    key.verify P documentData signaturePacketBytes =
      (key.parse signaturePacketBytes).bind fun parsed =>
        key.accepts P parsed
          (key.signedOctets parsed.signatureType documentData parsed.hashedSubpackets) := by
  cases hparsed : (signaturePacketBody signaturePacketBytes).bind parseSignaturePacketBody with
  | none =>
      cases key <;> simp [VerificationKey.verify, verifySignaturePacket,
        verifyEd25519SignaturePacket, VerificationKey.parse, hparsed]
  | some parsed =>
      rw [VerificationKey.parse, hparsed, Option.filter_some]
      by_cases hkind : parsed.pkAlgorithm = key.pkAlgorithm ∧
          parsed.hashAlgorithm = key.hashAlgorithm
      · rw [if_pos (decide_eq_true hkind), Option.bind_some]
        have hkind' := not_or.mpr ⟨not_not.mpr hkind.1, not_not.mpr hkind.2⟩
        cases key <;> simp only [VerificationKey.verify, verifySignaturePacket,
          verifyEd25519SignaturePacket, hparsed] <;> exact if_neg hkind'
      · rw [if_neg (by simpa using hkind), Option.bind_none]
        cases key <;> simp only [VerificationKey.verify, verifySignaturePacket,
          verifyEd25519SignaturePacket, hparsed] <;>
            exact if_pos (not_and_or.mp hkind)

/-! ### Soundness -/

/-- The signature that was issued is the one the packet contains. -/
def Carries (P : Primitives) (key : VerificationKey) (signaturePacketBytes : Bytes)
    (issued : Issued) : Prop :=
  ∃ parsed, key.parse signaturePacketBytes = some parsed ∧
    parsed.signatureType = issued.signatureType ∧
    parsed.hashedSubpackets = issued.hashedSubpackets ∧
    key.accepts P parsed (key.signedOctets issued.signatureType issued.documentData
      issued.hashedSubpackets) = some true

/-- The packet is of one of the types that sign documents. -/
def IsDocumentSignature (key : VerificationKey) (signaturePacketBytes : Bytes) : Prop :=
  ∃ parsed, key.parse signaturePacketBytes = some parsed ∧
    (parsed.signatureType = 0x00 ∨ parsed.signatureType = 0x01)

/-- The signature value in a packet is neither forged nor fits a second document
by a collision of digests, among the known documents: where the key accepts it,
its owner has signed just these octets. -/
def Unforged (P : Primitives) (key : VerificationKey) (issued : Set Issued) (known : Set Buffer)
    (signaturePacketBytes : Bytes) : Prop :=
  ∀ parsed, key.parse signaturePacketBytes = some parsed → ∀ document ∈ known,
    key.accepts P parsed (key.signedOctets parsed.signatureType document.1
      parsed.hashedSubpackets) = some true →
    ∃ signed ∈ issued, key.signedOctets parsed.signatureType document.1 parsed.hashedSubpackets =
      key.signedOctets signed.signatureType signed.documentData signed.hashedSubpackets

section Sound

variable {P : Primitives} {impl : Impl} {issued : Set Issued} {known : Set Buffer}
  {signaturePacketBytes : Bytes}

theorem hashedSubpackets_of_parse {key : VerificationKey} {parsed : ParsedSignature}
    (h : key.parse signaturePacketBytes = some parsed) :
    parsed.hashedSubpackets.length < 2 ^ 31 := by
  rw [VerificationKey.parse, Option.filter_eq_some_iff, Option.bind_eq_some_iff] at h
  obtain ⟨⟨body, -, hbody⟩, -⟩ := h
  exact (hashedSubpackets_of_parseSignaturePacketBody hbody).trans (by norm_num)

/-- What verifies was issued, with this type, over this document. -/
theorem Unforged.carried {key : VerificationKey}
    (h : Unforged P key issued known signaturePacketBytes) {document : Buffer}
    (hknown : document ∈ known)
    (hvalid : key.verify P document.1 signaturePacketBytes = some true) :
    ∃ signed ∈ issued, signed.documentData = document.1 ∧
      Carries P key signaturePacketBytes signed := by
  rw [key.verify_eq, Option.bind_eq_some_iff] at hvalid
  obtain ⟨parsed, hparsed, haccepts⟩ := hvalid
  obtain ⟨signed, hsigned, hoctets⟩ := h parsed hparsed document hknown haccepts
  obtain ⟨hdocument, htype, hhashed⟩ := toBeHashed_injective (hashedSubpackets_of_parse hparsed)
    signed.length_hashedSubpackets hoctets
  refine ⟨signed, hsigned, hdocument.symm, parsed, hparsed, htype, hhashed, ?_⟩
  rw [← hoctets]
  exact haccepts

/-- A packet that carries a signature verifies over its document, whatever its type. -/
theorem Carries.verify {key : VerificationKey} {signed : Issued}
    (h : Carries P key signaturePacketBytes signed) :
    key.verify P signed.documentData signaturePacketBytes = some true := by
  obtain ⟨parsed, hparsed, htype, hhashed, haccepts⟩ := h
  rw [key.verify_eq, hparsed, Option.bind_some, htype, hhashed]
  exact haccepts

/-- The packet is a document signature of the owner's over this document. -/
def SignsDocument (P : Primitives) (key : VerificationKey) (issued : Set Issued)
    (signaturePacketBytes documentData : Bytes) : Prop :=
  IsDocumentSignature key signaturePacketBytes ∧
    ∃ signed ∈ issued, signed.documentData = documentData ∧
      Carries P key signaturePacketBytes signed

/-- Neither call finds this packet valid over a known document, unless it is a
document signature of the owner's over it. -/
def SoundlyVerified (P : Primitives) (impl : Impl) (issued : Set Issued) (known : Set Buffer)
    (signature : Buffer) : Prop :=
  let key := selectPeerVerificationKeyMaterial impl signature.1
  (∀ document ∈ known, (VerifyBuffer P document signature impl).isValid = some true →
    SignsDocument P key issued signature.1 document.1) ∧
  ∀ document ∈ known, ∀ password message buffer outcome,
    DecryptAndVerifyBuffer P password message buffer impl = .ok outcome →
    outcome.isValid = some true → outcome.output = document.1 →
    (∃ plaintext, parseAndDecryptMessageWithAnyOwnSubkey P impl message.1 true =
      .ok (plaintext, some signature.1)) →
    SignsDocument P key issued signature.1 document.1

/-- Where a verdict comes from. -/
theorem VerifyBuffer_isValid {document signature : Buffer}
    (h : (VerifyBuffer P document signature impl).isValid = some true) :
    verifyWithPeer P impl document.1 signature.1 = some true := by
  unfold VerifyBuffer at h
  split at h
  · cases h
  · split at h
    · cases h
    · rename_i verified hverified
      rw [hverified]
      exact h

theorem deliver_isValid {buffer : Option Int32} {margin : ℕ} {data : Bytes} {outcome : Outcome}
    (h : deliver buffer margin data = .ok outcome) : outcome.isValid = none := by
  unfold deliver at h
  cases buffer with
  | none => rw [← Except.ok.inj h]
  | some capacity =>
      dsimp only at h
      split_ifs at h <;> rw [← Except.ok.inj h]

theorem DecryptAndVerifyBuffer_isValid {password : Bytes} {message : Buffer}
    {buffer : Option Int32} {outcome : Outcome}
    (h : DecryptAndVerifyBuffer P password message buffer impl = .ok outcome)
    (hvalid : outcome.isValid = some true) :
    ∃ signature, parseAndDecryptMessageWithAnyOwnSubkey P impl message.1 true =
        .ok (some outcome.output, signature) ∧
      verifyWithPeer P impl outcome.output (signature.getD []) = some true := by
  unfold DecryptAndVerifyBuffer at h
  split at h
  · obtain rfl := Except.ok.inj h
    cases hvalid
  · split at h
    · cases h
    · obtain rfl := Except.ok.inj h
      cases hvalid
    · rename_i plaintext signature hopens
      split at h
      · obtain rfl := Except.ok.inj h
        cases hvalid
      · rename_i verified hverified
        cases hdeliver : deliver buffer 0 plaintext with
        | error fault =>
            rw [hdeliver] at h
            cases h
        | ok delivery =>
            rw [hdeliver] at h
            have houtcome := Except.ok.inj h
            dsimp only at houtcome
            split at houtcome
            · rename_i hstatus
              obtain ⟨rfl, -⟩ := deliver_eq_delivered hdeliver hstatus
              rw [← houtcome] at hvalid ⊢
              obtain rfl := Option.some.inj hvalid
              exact ⟨signature, hopens, hverified⟩
            · rw [← houtcome, deliver_isValid hdeliver] at hvalid
              cases hvalid

/-- Verification is sound for a packet exactly if it is a document signature,
or carries no signature of the owner's at all: the type is never looked at. -/
theorem soundlyVerified_iff (himported : impl.peerKeyImported = true) (signature : Buffer)
    (hunforged : Unforged P (selectPeerVerificationKeyMaterial impl signature.1) issued known
      signature.1) :
    SoundlyVerified P impl issued known signature ↔
      IsDocumentSignature (selectPeerVerificationKeyMaterial impl signature.1) signature.1 ∨
        ∀ signed ∈ issued, ∀ document ∈ known, document.1 = signed.documentData →
          ¬ Carries P (selectPeerVerificationKeyMaterial impl signature.1) signature.1 signed := by
  constructor
  · rintro ⟨hbuffer, -⟩
    by_cases hcarries : ∃ signed ∈ issued, ∃ document ∈ known,
        document.1 = signed.documentData ∧
          Carries P (selectPeerVerificationKeyMaterial impl signature.1) signature.1 signed
    · obtain ⟨signed, hsigned, document, hknown, hdocument, hcarried⟩ := hcarries
      have hvalid := hcarried.verify
      have hfull : signature.1 ≠ [] := by
        rintro hnil
        obtain ⟨parsed, hparsed, -⟩ := hcarried
        rw [hnil] at hparsed
        cases hparsed
      left
      refine (hbuffer document hknown ?_).1
      rw [VerifyBuffer, if_neg (by simp [himported, hfull]), verifyWithPeer, hdocument, hvalid]
    · right
      intro signed hsigned document hknown hdocument hcarried
      exact hcarries ⟨signed, hsigned, document, hknown, hdocument, hcarried⟩
  · intro hcondition
    have hsound (document : Buffer) (hknown : document ∈ known)
        (hvalid : verifyWithPeer P impl document.1 signature.1 = some true) :
        SignsDocument P (selectPeerVerificationKeyMaterial impl signature.1) issued signature.1
          document.1 := by
      obtain ⟨signed, hsigned, hdocument, hcarried⟩ := hunforged.carried hknown hvalid
      rcases hcondition with htype | hnone
      · exact ⟨htype, signed, hsigned, hdocument, hcarried⟩
      · exact absurd hcarried (hnone signed hsigned document hknown hdocument.symm)
    constructor
    · intro document hknown hvalid
      exact hsound document hknown (VerifyBuffer_isValid hvalid)
    · intro document hknown password message buffer outcome hcall hvalid houtput hembedded
      obtain ⟨plaintext, hopens⟩ := hembedded
      obtain ⟨embedded, hopens', hverified⟩ := DecryptAndVerifyBuffer_isValid hcall hvalid
      rw [hopens] at hopens'
      obtain ⟨-, rfl⟩ := Prod.mk.inj (Except.ok.inj hopens')
      rw [houtput] at hverified
      exact hsound document hknown hverified

end Sound

/-! ### A signature of a document, and the certification of a user ID -/

/-- An engine that has imported an identity's block. -/
def shortLivedVerifier : Impl :=
  (ImportPeerPublicKey standIn 1500 shortLivedBlock (Impl.new PGP_KEY_ALGORITHM_RSA 1024)).2

def shortLivedSignature : Buffer :=
  ⟨shortLivedOwner.masterSigningKey.sign standIn 0 (ascii "hi") [] 1500, by decide +kernel⟩

/-- The only signature that the owner issued. -/
def shortLivedIssued : Issued where
  signatureType := 0
  documentData := ascii "hi"
  hashedSubpackets := hashedSubpacketsOf 1500 []
  length_hashedSubpackets := by decide

theorem shortLivedSignature_parse :
    ((selectPeerVerificationKeyMaterial shortLivedVerifier shortLivedSignature.1).parse
        shortLivedSignature.1).map
        (fun parsed => (parsed.signatureType, parsed.hashedSubpackets)) =
      some (shortLivedIssued.signatureType, shortLivedIssued.hashedSubpackets) := by
  rw [shortLivedVerifier, shortLivedOwner_published.import]
  decide +kernel

/-- Of an owner who has signed one document, the signature of it is sound. -/
theorem soundlyVerified_iff_shortLived :
    SoundlyVerified standIn shortLivedVerifier {shortLivedIssued} {⟨ascii "hi", by decide⟩}
      shortLivedSignature := by
  have himport := shortLivedOwner_published.import 1500 (Impl.new PGP_KEY_ALGORITHM_RSA 1024)
  refine (soundlyVerified_iff (by rw [shortLivedVerifier, himport]; rfl) _ ?_).mpr (.inl ?_)
  · rintro parsed hparsed document rfl -
    have hfields := shortLivedSignature_parse
    rw [hparsed] at hfields
    obtain ⟨htype, hhashed⟩ := Prod.mk.inj (Option.some.inj hfields)
    exact ⟨shortLivedIssued, rfl, by rw [htype, hhashed]; rfl⟩
  · obtain ⟨parsed, hparsed, hfields⟩ := Option.map_eq_some_iff.mp shortLivedSignature_parse
    exact ⟨parsed, hparsed, .inl (congrArg Prod.fst hfields)⟩

/-- The self-certification in an identity, and the octets it certifies. -/
def shortLivedCertification : Buffer :=
  ⟨(shortLivedOwner.ownUserIds.map PgpOwnUserId.certSigPacket).headD [], by decide +kernel⟩

def shortLivedCertified : Buffer :=
  ⟨buildUserIdCertificationDocument (buildOwnMasterPubBody shortLivedOwner) (ascii "alice"),
    by decide +kernel⟩

/-- A certification is accepted as a signature of the octets it certifies. -/
theorem shortLivedCertification_accepted :
    ((signaturePacketBody shortLivedCertification.1).bind parseSignaturePacketBody).map
        ParsedSignature.signatureType = some 0x13 ∧
      VerifyBuffer standIn shortLivedCertified shortLivedCertification
          shortLivedVerifier =
        { status := NO_ERROR, isValid := some true } := by
  rw [shortLivedVerifier, shortLivedOwner_published.import]
  decide +kernel

end HashCryptoLib.Pgp
