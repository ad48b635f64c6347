import HashCryptoLib.Pgp.BufferRoundTrip

/-!
A signer and a verifier who have imported each other's blocks. What the signer
signs always verifies; what it also encrypts, the verifier reads under the same
condition as any other message.
-/

namespace HashCryptoLib.Pgp

open BigEndian

/-! ### Signing and verifying -/

section Signing

variable {P : Primitives} {impl : Impl}

/-- A generated key always signs. -/
theorem SigningKey.Generated.sign_ne_nil (hlawful : P.Lawful) {key : SigningKey}
    {verifier : VerificationKey} (h : key.Generated P verifier) (signatureType : UInt8)
    (documentData extra : Bytes) (now : UInt32) :
    key.sign P signatureType documentData extra now ≠ [] := by
  obtain ⟨algorithm, rsaKey, ed25519Key, keyId⟩ := key
  cases algorithm with
  | PGP_KEY_ALGORITHM_RSA =>
      obtain ⟨seed, bits, hbits, hkey, -⟩ := h
      dsimp only at hkey
      subst hkey
      exact buildSignaturePacket_ne_nil hlawful seed hbits signatureType documentData extra keyId now
  | PGP_KEY_ALGORITHM_ED25519_X25519 =>
      exact buildEd25519SignaturePacket_ne_nil P ed25519Key signatureType documentData extra keyId now

/-- The active signing key came out of a generator. -/
theorem OwnKeysGenerated.active (hkeys : OwnKeysGenerated P impl)
    (hgenerated : impl.ownKeyGenerated = true) :
    ∃ verifier, (selectActiveSigningKeyMaterial impl).Generated P verifier := by
  rcases selectActiveSigningKeyMaterial_cases impl with hactive | ⟨subkey, hmem, hflags, hactive⟩
  · rw [hactive]
    exact ⟨_, hkeys.master hgenerated⟩
  · obtain ⟨verifier, -, hpair⟩ := (hkeys.subkeys subkey hmem).signingKey hflags
    rw [hactive]
    exact ⟨verifier, hpair⟩

theorem SigningKey.length_sign (P : Primitives) {key : SigningKey}
    (hmodulus : key.rsaKey.modulus.size ≤ 4096) (signatureType : UInt8) (documentData : Bytes)
    (now : UInt32) : (key.sign P signatureType documentData [] now).length ≤ 1206 := by
  by_cases hsigned : key.sign P signatureType documentData [] now = []
  · simp [hsigned]
  · obtain ⟨leftHash, signatureMpis, -, hpacket, hlen⟩ := key.sign_eq P hmodulus hsigned
    rw [hpacket]
    refine (writePacket_length_le _ _).trans ?_
    simpa using hlen

/-- What an identity signs verifies wherever its block has been imported. -/
def VerifiesWhatIsSigned (P : Primitives) (signer : Impl) (block : Buffer) : Prop :=
  ∀ password ≠ [], checkPasswordHash P signer.passwordCheckHash password = true →
  ∀ signedAt document (capacity : Int32), 2048 ≤ capacity.toInt → ∃ signature : Buffer,
    SignBuffer P signedAt password document (some capacity) signer =
      .ok (delivered signature.1) ∧
    ∀ now verifier, VerifyBuffer P document signature (ImportPeerPublicKey P now block verifier).2 =
      { status := NO_ERROR, isValid := some true }

theorem verifiesWhatIsSigned (hlawful : P.Lawful) {block : Buffer}
    (hpublished : Published P impl block) : VerifiesWhatIsSigned P impl block := by
  intro password hne hpassword signedAt document capacity hcapacity
  have hkeys := hpublished.reachable.ownKeysGenerated
  have hgenerated := hpublished.generated
  obtain ⟨verificationKey, hactive⟩ := hkeys.active hgenerated
  have hsigned := hactive.sign_ne_nil hlawful 0 document.1 [] signedAt
  have hlength := SigningKey.length_sign P (hkeys.activeModulus_size hgenerated) 0 document.1
    signedAt
  refine ⟨⟨(selectActiveSigningKeyMaterial impl).sign P 0 document.1 [] signedAt, by omega⟩, ?_, ?_⟩
  · rw [SignBuffer, if_neg (by simp [rejects_eq_false hgenerated hne hpassword])]
    simp only [hsigned, if_false]
    exact deliver_of_le 0 (by omega)
  · intro now verifier
    have hvalid := verifyWithPeer_active hlawful hpublished.reachable hgenerated
      hpublished.distinct now verifier hsigned
    rw [hpublished.import, VerifyBuffer,
      if_neg (by simp [Impl.importPeer, hsigned])]
    simp only [hvalid]

end Signing

/-! ### Encrypting as well -/

section Exchange

variable {P : Primitives} {signer verifier : Impl} {now : UInt32}

/-- A signer also encrypts what it signs, to the verifier and to whomever else
can be encrypted to. -/
def EncryptsWhatIsSigned (P : Primitives) (signer : Impl) (verifierBlock : Buffer)
    (now : UInt32) : Prop :=
  ∀ additionalRecipients : List PgpEncryptionRecipient,
    (∀ recipient ∈ additionalRecipients,
      recipient.rsaPublicKey.modulus.size ≤ 2 ^ 16 ∧ Encryptable P recipient) →
  ∀ password ≠ [], checkPasswordHash P signer.passwordCheckHash password = true →
  ∀ env (document : Buffer),
    let sender : Impl :=
      { (ImportPeerPublicKey P now verifierBlock signer).2 with additionalRecipients }
    ∃ message : Bytes,
      buildEncryptedSignedMessageMultiRecipient P env sender.recipients
        (selectActiveSigningKeyMaterial sender) sender.symmetricCipherPreference.octet document.1 =
          some message ∧
      message.length ≤ 2 * document.1.length + 2 ^ 18 * sender.recipients.length ∧
      ∀ capacity : Int32, (message.length : ℤ) ≤ capacity.toInt →
        EncryptAndSignBuffer P env password document (some capacity) sender =
          .ok (delivered message)

/-- What a signer also encrypts to the verifier, whomever else it encrypts to,
the verifier reads and finds valid. -/
def VerifiesWhatIsEncryptedAndSigned (P : Primitives) (signer verifier : Impl)
    (signerBlock verifierBlock : Buffer) (now : UInt32) : Prop :=
  ∀ additionalRecipients : List PgpEncryptionRecipient,
    (∀ recipient ∈ additionalRecipients, recipient.rsaPublicKey.modulus.size ≤ 2 ^ 16) →
    OwnsKeyIds P verifier additionalRecipients →
  ∀ password ≠ [], checkPasswordHash P signer.passwordCheckHash password = true →
  ∀ env document buffer outcome,
    EncryptAndSignBuffer P env password document buffer
        { (ImportPeerPublicKey P now verifierBlock signer).2 with additionalRecipients } =
      .ok outcome → outcome.status = NO_ERROR →
  ∀ message : Buffer, message.1 = outcome.output →
  ∀ verifierPassword ≠ [], checkPasswordHash P verifier.passwordCheckHash verifierPassword = true →
  ∀ now' (capacity : Int32), (document.1.length : ℤ) ≤ capacity.toInt →
    DecryptAndVerifyBuffer P verifierPassword message (some capacity)
        (ImportPeerPublicKey P now' signerBlock verifier).2 =
      .ok { delivered document.1 with isValid := some true }

/-- A successful call delivers a message that was built, and signed with the
active key. -/
theorem EncryptAndSignBuffer_noError {sender : Impl} {env : MessageEnv} {password : Bytes}
    {document : Buffer} {buffer : Option Int32} {outcome : Outcome}
    (h : EncryptAndSignBuffer P env password document buffer sender = .ok outcome)
    (hstatus : outcome.status = NO_ERROR) :
    ∃ message, buildEncryptedSignedMessageMultiRecipient P env sender.recipients
        (selectActiveSigningKeyMaterial sender) sender.symmetricCipherPreference.octet document.1 =
          some message ∧ outcome = delivered message := by
  unfold EncryptAndSignBuffer at h
  split at h
  · obtain rfl := Except.ok.inj h
    cases hstatus
  · split at h
    · obtain rfl := Except.ok.inj h
      cases hstatus
    · rename_i message hbuild
      exact ⟨message, hbuild, (deliver_eq_delivered h hstatus).1⟩

theorem EncryptAndSignBuffer_some {sender : Impl} {env : MessageEnv} {password : Bytes}
    {document : Buffer} {message : Bytes} (himported : sender.peerKeyImported = true)
    (hpassword : rejects P sender password = false) (buffer : Option Int32)
    (hbuild : buildEncryptedSignedMessageMultiRecipient P env sender.recipients
      (selectActiveSigningKeyMaterial sender) sender.symmetricCipherPreference.octet document.1 =
        some message) :
    EncryptAndSignBuffer P env password document buffer sender =
      deliver buffer (sender.recipients.length * 2) message := by
  rw [EncryptAndSignBuffer, if_neg (by simp [himported, hpassword]), hbuild]

/-- Opening a message that is validly signed is delivering it with the verdict. -/
theorem DecryptAndVerifyBuffer_opens {impl : Impl} {message : Buffer}
    {plaintext signature password : Bytes} (himported : impl.peerKeyImported = true)
    (hpassword : rejects P impl password = false) (hmessage : message.1 ≠ [])
    (hopens : parseAndDecryptMessageWithAnyOwnSubkey P impl message.1 true =
      .ok (some plaintext, some signature))
    (hvalid : verifyWithPeer P impl plaintext signature = some true) {capacity : Int32}
    (hcapacity : (plaintext.length : ℤ) ≤ capacity.toInt) :
    DecryptAndVerifyBuffer P password message (some capacity) impl =
      .ok { delivered plaintext with isValid := some true } := by
  rw [DecryptAndVerifyBuffer, if_neg (by simp [himported, hpassword, hmessage]), hopens]
  simp only [Option.getD_some, hvalid, deliver_of_le 0 hcapacity]
  rfl

theorem DecryptAndVerifyBuffer_unopened {impl : Impl} {message : Buffer} {password : Bytes}
    (himported : impl.peerKeyImported = true) (hpassword : rejects P impl password = false)
    (hmessage : message.1 ≠ [])
    (hunopened : parseAndDecryptMessageWithAnyOwnSubkey P impl message.1 true = .ok (none, none))
    (buffer : Option Int32) :
    DecryptAndVerifyBuffer P password message buffer impl = .ok { status := INVALID_DATA } := by
  rw [DecryptAndVerifyBuffer, if_neg (by simp [himported, hpassword, hmessage]), hunopened]

/-! What an import leaves alone. -/

theorem selectActiveSigningKeyMaterial_importPeer (impl : Impl)
    (parsed : ParsedPeerPublicKeyBlock) :
    selectActiveSigningKeyMaterial (impl.importPeer parsed) = selectActiveSigningKeyMaterial impl :=
  rfl

theorem rejects_importPeer (P : Primitives) (impl : Impl) (parsed : ParsedPeerPublicKeyBlock)
    (password : Bytes) : rejects P (impl.importPeer parsed) password = rejects P impl password :=
  rfl

theorem anyOwnSubkey_importPeer (P : Primitives) (impl : Impl) (parsed : ParsedPeerPublicKeyBlock)
    (message : Bytes) (wantSignature : Bool) :
    parseAndDecryptMessageWithAnyOwnSubkey P (impl.importPeer parsed) message wantSignature =
      parseAndDecryptMessageWithAnyOwnSubkey P impl message wantSignature :=
  rfl

variable {signerBlock verifierBlock : Buffer}

/-- What a generated key signs is not much longer than what it signs. -/
theorem SigningKey.length_signedContent (P : Primitives) {key : SigningKey}
    (hmodulus : key.rsaKey.modulus.size ≤ 4096) (document : Bytes) (now : UInt32) :
    (key.onePass ++ writePacket PGP_TAG_LITERAL_DATA (literalBody document) ++
      key.sign P 0 document [] now).length ≤ document.length + 1300 := by
  have hsig := SigningKey.length_sign P hmodulus 0 document now
  have hliteral := writePacket_length_le PGP_TAG_LITERAL_DATA (literalBody document)
  have hbody := length_literalBody document
  have honePass : key.onePass.length ≤ 13 + 6 := by
    refine (writePacket_length_le _ _).trans ?_
    simp
  simp only [List.length_append]
  omega

/-- A signed message is made wherever there is a key to sign with, and all the
recipients can be encrypted to. -/
theorem Published.build_signed (hlawful : P.Lawful) (hsigner : Published P signer signerBlock)
    {recipients : List PgpEncryptionRecipient} (hne : recipients ≠ [])
    (hencryptable : ∀ recipient ∈ recipients, Encryptable P recipient)
    (hsized : ∀ recipient ∈ recipients, recipient.rsaPublicKey.modulus.size ≤ 2 ^ 16)
    (env : MessageEnv) (cipher : PgpSymmetricAlgorithm) (document : Bytes) :
    ∃ message, buildEncryptedSignedMessageMultiRecipient P env recipients
        (selectActiveSigningKeyMaterial signer) cipher.octet document = some message ∧
      message.length ≤ 2 * document.length + 2 ^ 18 * recipients.length := by
  have hkeys := hsigner.reachable.ownKeysGenerated
  obtain ⟨_, hgenerated⟩ := hkeys.active hsigner.generated
  have hsigned := hgenerated.sign_ne_nil hlawful 0 document [] env.now
  have hcontent := SigningKey.length_signedContent P (hkeys.activeModulus_size hsigner.generated)
    document env.now
  obtain ⟨message, hmessage⟩ := encryptContent_encryptable hencryptable env cipher
    ((selectActiveSigningKeyMaterial signer).onePass ++
      writePacket PGP_TAG_LITERAL_DATA (literalBody document) ++
        (selectActiveSigningKeyMaterial signer).sign P 0 document [] env.now)
  have hlength := length_encryptContent hsized hmessage
  have hdeflated := hlawful.deflate_length ((selectActiveSigningKeyMaterial signer).onePass ++
    writePacket PGP_TAG_LITERAL_DATA (literalBody document) ++
      (selectActiveSigningKeyMaterial signer).sign P 0 document [] env.now)
  have hpos := List.length_pos_iff.mpr hne
  refine ⟨message, ?_, by omega⟩
  rw [buildEncryptedSignedMessageMultiRecipient, if_neg hne]
  simp only [hsigned, if_false, hmessage]

/-- With a usable encryption subkey of the verifier, nothing keeps the signer
from encrypting to it. -/
theorem encryptsWhatIsSigned (hlawful : P.Lawful) (hagrees : P.Agrees)
    (hsigner : Published P signer signerBlock) (hverifier : Published P verifier verifierBlock)
    (husable : ∃ subkey ∈ verifier.ownSubkeys, subkey.usable now = true ∧
      subkey.isEd25519Sign = false) :
    EncryptsWhatIsSigned P signer verifierBlock now := by
  intro additionalRecipients hothers password hne hpassword env document sender
  obtain ⟨usable, hmem, husable, hencrypts⟩ := husable
  obtain ⟨chosen, hchosen, hchosenEncrypts, hrecipient⟩ :=
    exportedRecipient_own hverifier.reachable.ownKeysGenerated hmem husable hencrypts
  have hkey := (hverifier.reachable.ownKeysGenerated.subkeys chosen hchosen).decryptionKey
    hchosenEncrypts
  -- what the import made of the signer
  obtain ⟨himported, hactive, hpasses, hprimary, hadditional⟩ :
      sender.peerKeyImported = true ∧
      selectActiveSigningKeyMaterial sender = selectActiveSigningKeyMaterial signer ∧
      rejects P sender password = rejects P signer password ∧
      sender.primaryRecipient = verifier.exportedRecipient now ∧
      sender.additionalRecipients = additionalRecipients := by
    simp only [sender, hverifier.import]
    exact ⟨rfl, rfl, rfl, Impl.importPeer_primaryRecipient _ _, trivial⟩
  have hmember : ∀ recipient ∈ sender.recipients,
      recipient.rsaPublicKey.modulus.size ≤ 2 ^ 16 ∧ Encryptable P recipient := by
    intro recipient hrecipientMem
    rcases List.mem_cons.mp hrecipientMem with rfl | hother
    · rw [hprimary, hrecipient]
      exact ⟨hkey.modulus_size.trans (by norm_num), hkey.encryptable hlawful hagrees⟩
    · exact hothers recipient (hadditional ▸ hother)
  obtain ⟨message, hbuild, hlength⟩ := hsigner.build_signed hlawful
    (show sender.recipients ≠ [] by simp [Impl.recipients])
    (fun recipient hmem => (hmember recipient hmem).2)
    (fun recipient hmem => (hmember recipient hmem).1) env sender.symmetricCipherPreference
    document.1
  rw [← hactive] at hbuild
  refine ⟨message, hbuild, hlength, fun capacity hcapacity => ?_⟩
  rw [EncryptAndSignBuffer_some himported
    (hpasses.trans (rejects_eq_false hsigner.generated hne hpassword)) _ hbuild]
  exact deliver_of_le _ hcapacity

theorem verifiesWhatIsEncryptedAndSigned (hlawful : P.Lawful)
    (hsigner : Published P signer signerBlock) (hverifier : Published P verifier verifierBlock)
    (husable : ∃ subkey ∈ verifier.ownSubkeys, subkey.usable now = true ∧
      subkey.isEd25519Sign = false) :
    VerifiesWhatIsEncryptedAndSigned P signer verifier signerBlock verifierBlock now := by
  intro additionalRecipients hsized hothers password hne hpassword env document buffer outcome
    hencrypt hstatus message hmessage verifierPassword hne' hpassword' now' capacity hcapacity
  have hsender := Sender.of_import now hverifier.reachable hverifier.generated
    hverifier.exported signer _ hsized hothers
  obtain ⟨built, hbuild, rfl⟩ := EncryptAndSignBuffer_noError hencrypt hstatus
  obtain rfl : message.1 = built := hmessage
  have hkeys := hverifier.reachable.ownKeysGenerated
  have hmodulus := hsigner.reachable.ownKeysGenerated.activeModulus_size hsigner.generated
  rw [hverifier.import] at hsender hbuild
  -- importing a block leaves the signing keys alone
  have hactive : selectActiveSigningKeyMaterial
      { signer.importPeer ((exportedIdentity verifier).chooseSubkey now) with
        additionalRecipients } = selectActiveSigningKeyMaterial signer := rfl
  rw [hactive] at hbuild
  have hismessage : IsMessage P env _ _ document.1 message.1 := .inr ⟨_, hmodulus, hbuild⟩
  obtain ⟨hsigned, -⟩ := buildEncryptedSignedMessage_content hlawful document.2 hmodulus hbuild
  have hopens := hsender.opens hlawful hkeys hverifier.generated hverifier.distinct husable
    hismessage (document.1, some _) fun key haddressed =>
      (parse_encryptedSigned hlawful haddressed document.2 hmodulus hbuild true).2
  obtain ⟨content, hcontent⟩ := hismessage.content
  have hvalid := verifyWithPeer_active hlawful hsigner.reachable hsigner.generated hsigner.distinct
    now' verifier hsigned
  have hpasses := rejects_eq_false hverifier.generated hne' hpassword'
  rw [← anyOwnSubkey_importPeer P verifier ((exportedIdentity signer).chooseSubkey now')] at hopens
  rw [← rejects_importPeer P verifier ((exportedIdentity signer).chooseSubkey now')] at hpasses
  rw [hsigner.import]
  exact DecryptAndVerifyBuffer_opens rfl hpasses (encryptContent_ne_nil hcontent) hopens hvalid
    hcapacity

/-- An RSA verifier without a usable subkey cannot read what a signer delivers. -/
theorem Sender.sign_master (hlawful : P.Lawful) {sender : Impl}
    (hsender : Sender P verifier now sender) (honly : sender.additionalRecipients = [])
    (hsigner : Published P signer signerBlock) (hverifier : Published P verifier verifierBlock)
    (hactive : selectActiveSigningKeyMaterial sender = selectActiveSigningKeyMaterial signer)
    (halgorithm : verifier.keyAlgorithm = PGP_KEY_ALGORITHM_RSA)
    (hnone : ∀ subkey ∈ verifier.ownSubkeys, subkey.usable now = false) {password : Bytes}
    (hpassword : rejects P sender password = false) (env : MessageEnv)
    (document : Buffer) (hshort : document.1.length ≤ 2 ^ 16) :
    ∃ message : Buffer,
      EncryptAndSignBuffer P env password document (some Int32.maxValue) sender =
        .ok (delivered message.1) ∧
      ∀ verifierPassword ≠ [],
        checkPasswordHash P verifier.passwordCheckHash verifierPassword = true → ∀ parsed buffer,
        DecryptAndVerifyBuffer P verifierPassword message buffer (verifier.importPeer parsed) =
          .ok { status := INVALID_DATA } := by
  have hkeys := hsigner.reachable.ownKeysGenerated
  have hmodulus := hkeys.activeModulus_size hsigner.generated
  obtain ⟨_, hgenerated⟩ := hkeys.active hsigner.generated
  have hsigned := hgenerated.sign_ne_nil hlawful 0 document.1 [] env.now
  have hshortContent := SigningKey.length_signedContent P hmodulus document.1 env.now
  obtain ⟨message, hcontent⟩ := hsender.encryptContent_master hlawful honly
    hverifier.reachable.ownKeysGenerated hverifier.generated halgorithm hnone env
    sender.symmetricCipherPreference (show ((selectActiveSigningKeyMaterial signer).onePass ++
      writePacket PGP_TAG_LITERAL_DATA (literalBody document.1) ++
      (selectActiveSigningKeyMaterial signer).sign P 0 document.1 [] env.now).length ≤ 2 ^ 17 by
        omega)
  have hbuild : buildEncryptedSignedMessageMultiRecipient P env sender.recipients
      (selectActiveSigningKeyMaterial signer) sender.symmetricCipherPreference.octet document.1 =
        some message.1 := by
    rw [buildEncryptedSignedMessageMultiRecipient, if_neg (by simp [Impl.recipients])]
    simp only [hsigned, if_false, hcontent]
  refine ⟨message, ?_, ?_⟩
  · rw [EncryptAndSignBuffer_some hsender.imported hpassword _ (hactive ▸ hbuild), deliver_maxValue]
  · intro verifierPassword hne hpassword' parsed buffer
    have hunopened := hsender.unopened hlawful honly hverifier.reachable.ownKeysGenerated
      hverifier.generated hverifier.distinct halgorithm hnone (.inr ⟨_, hmodulus, hbuild⟩) true
    have hpasses := rejects_eq_false hverifier.generated hne hpassword'
    rw [← anyOwnSubkey_importPeer P verifier parsed] at hunopened
    rw [← rejects_importPeer P verifier parsed] at hpasses
    exact DecryptAndVerifyBuffer_unopened rfl hpasses (encryptContent_ne_nil hcontent) hunopened
      buffer

/-- An RSA verifier without a usable subkey is sent what it cannot read. -/
theorem VerifiesWhatIsEncryptedAndSigned.usable (hlawful : P.Lawful)
    (hsigner : Published P signer signerBlock) (hverifier : Published P verifier verifierBlock)
    (hverifies : VerifiesWhatIsEncryptedAndSigned P signer verifier signerBlock verifierBlock now)
    (halgorithm : verifier.keyAlgorithm = PGP_KEY_ALGORITHM_RSA) :
    ∃ subkey ∈ verifier.ownSubkeys, subkey.usable now = true := by
  by_contra hnone
  have hunusable : ∀ subkey ∈ verifier.ownSubkeys, subkey.usable now = false := by
    simpa using hnone
  obtain ⟨password, hne, hpassword⟩ := hsigner.reachable.hasPassword hsigner.generated
  obtain ⟨verifierPassword, hne', hpassword'⟩ :=
    hverifier.reachable.hasPassword hverifier.generated
  have hsender := Sender.of_import now hverifier.reachable hverifier.generated
    hverifier.exported signer [] (by simp) (by simp [OwnsKeyIds])
  have hverified := hverifies [] (by simp) (by simp [OwnsKeyIds]) password hne hpassword
  rw [hverifier.import] at hsender hverified
  obtain ⟨message, hencrypt, hdecrypt⟩ := hsender.sign_master hlawful rfl hsigner hverifier rfl
    halgorithm hunusable (rejects_eq_false hsigner.generated hne hpassword)
    ⟨Octets.zero 32, Octets.zero 16, id, now⟩ ⟨[], by decide⟩ (by decide)
  have hdelivered := hverified _ _ _ _ hencrypt rfl message rfl verifierPassword hne' hpassword'
    now 0 (by decide)
  rw [hsigner.import, hdecrypt verifierPassword hne' hpassword'] at hdelivered
  cases congrArg Outcome.status (Except.ok.inj hdelivered)

/-- A curve verifier without a usable encryption subkey is sent nothing. -/
theorem EncryptsWhatIsSigned.usable (hlawful : P.Lawful)
    (hsigner : Published P signer signerBlock) (hverifier : Published P verifier verifierBlock)
    (hencrypts : EncryptsWhatIsSigned P signer verifierBlock now)
    (halgorithm : verifier.keyAlgorithm = PGP_KEY_ALGORITHM_ED25519_X25519) :
    ∃ subkey ∈ verifier.ownSubkeys, subkey.usable now = true ∧ subkey.isEd25519Sign = false := by
  by_contra hnone
  obtain ⟨password, hne, hpassword⟩ := hsigner.reachable.hasPassword hsigner.generated
  obtain ⟨message, hbuild, -, -⟩ := hencrypts [] (by simp) password hne hpassword
    ⟨Octets.zero 32, Octets.zero 16, id, now⟩ ⟨[], by decide⟩
  have hmodulus := hsigner.reachable.ownKeysGenerated.activeModulus_size hsigner.generated
  rw [hverifier.import] at hbuild
  obtain ⟨content, hcontent⟩ := IsMessage.content (.inr ⟨_, hmodulus, hbuild⟩)
  have hunusable : ∀ subkey ∈ verifier.ownSubkeys, subkey.usable now = true →
      subkey.isEd25519Sign = true := by simpa using hnone
  have hprimary : Impl.primaryRecipient
      { signer.importPeer ((exportedIdentity verifier).chooseSubkey now) with
        additionalRecipients := [] } = verifier.exportedRecipient now :=
    Impl.importPeer_primaryRecipient signer _
  cases hcontent.symm.trans (encryptContent_curve hlawful hprimary halgorithm hunusable _ _ _)

/-- What an identity signs verifies. What it also encrypts is made and read
exactly where the verifier has a usable encryption subkey. -/
theorem signed_iff_usable (hlawful : P.Lawful) (hagrees : P.Agrees)
    (hsigner : Published P signer signerBlock) (hverifier : Published P verifier verifierBlock)
    (now : UInt32) :
    (VerifiesWhatIsSigned P signer signerBlock ∧ EncryptsWhatIsSigned P signer verifierBlock now ∧
      VerifiesWhatIsEncryptedAndSigned P signer verifier signerBlock verifierBlock now) ↔
        ∃ subkey ∈ verifier.ownSubkeys, subkey.usable now = true ∧
          subkey.isEd25519Sign = false := by
  constructor
  · rintro ⟨-, hencrypts, hverifies⟩
    cases halgorithm : verifier.keyAlgorithm with
    | PGP_KEY_ALGORITHM_RSA =>
        obtain ⟨subkey, hmem, husable⟩ := hverifies.usable hlawful hsigner hverifier halgorithm
        exact ⟨subkey, hmem, husable,
          hverifier.reachable.ownKeysGenerated.rsa_encrypts halgorithm hmem⟩
    | PGP_KEY_ALGORITHM_ED25519_X25519 =>
        exact hencrypts.usable hlawful hsigner hverifier halgorithm
  · intro husable
    exact ⟨verifiesWhatIsSigned hlawful hsigner,
      encryptsWhatIsSigned hlawful hagrees hsigner hverifier husable,
      verifiesWhatIsEncryptedAndSigned hlawful hsigner hverifier husable⟩

end Exchange

/-! ### An identity that writes to itself -/

/-- As long as its subkey has not expired, all of it goes well. -/
theorem signed_iff_usable_shortLived :
    VerifiesWhatIsSigned standIn shortLivedOwner shortLivedBlock ∧
      EncryptsWhatIsSigned standIn shortLivedOwner shortLivedBlock 1500 ∧
      VerifiesWhatIsEncryptedAndSigned standIn shortLivedOwner shortLivedOwner shortLivedBlock
        shortLivedBlock 1500 :=
  (signed_iff_usable standIn_lawful standIn_agrees shortLivedOwner_published
    shortLivedOwner_published 1500).mpr (by decide +kernel)

/-- Afterwards it still encrypts what it signs, and cannot read it. -/
theorem shortLivedOwner_unverified : ∃ message : Buffer,
    EncryptAndSignBuffer standIn mixedEnv (ascii "pw") ⟨ascii "hi", by decide⟩
        (some Int32.maxValue) (ImportPeerPublicKey standIn 3000 shortLivedBlock shortLivedOwner).2 =
      .ok (delivered message.1) ∧
    DecryptAndVerifyBuffer standIn (ascii "pw") message (some Int32.maxValue)
        (ImportPeerPublicKey standIn 3000 shortLivedBlock shortLivedOwner).2 =
      .ok { status := INVALID_DATA } := by
  obtain ⟨hsender, honly⟩ := shortLivedOwner_published.sender_only 3000
    shortLivedOwner (by decide +kernel)
  rw [shortLivedOwner_published.import] at hsender honly ⊢
  generalize (exportedIdentity shortLivedOwner).chooseSubkey 3000 = parsed at hsender honly ⊢
  have hpasses := rejects_eq_false shortLivedOwner_published.generated (by decide)
    shortLivedOwner_password
  rw [← rejects_importPeer standIn shortLivedOwner parsed] at hpasses
  obtain ⟨message, hencrypt, hdecrypt⟩ := hsender.sign_master standIn_lawful honly
    shortLivedOwner_published shortLivedOwner_published
    (selectActiveSigningKeyMaterial_importPeer shortLivedOwner parsed) (by decide +kernel)
    shortLivedOwner_expired hpasses mixedEnv ⟨ascii "hi", by decide⟩ (by decide)
  have hunread := hdecrypt (ascii "pw") (by decide) shortLivedOwner_password parsed
    (some Int32.maxValue)
  exact ⟨message, hencrypt, hunread⟩

end HashCryptoLib.Pgp
