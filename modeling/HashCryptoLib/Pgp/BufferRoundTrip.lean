import HashCryptoLib.Pgp.Engine
import HashCryptoLib.Pgp.StandIn
import HashCryptoLib.Pgp.OutputSizes

/-!
Two engines and what one encrypts to the other. The recipient tries each of its
subkeys; the sender has chosen one of them, or, for an RSA identity without a
usable subkey, the master key, which the recipient does not try.
-/

namespace HashCryptoLib.Pgp

open BigEndian

/-! ### The search of a recipient -/

section Recipient

variable {P : Primitives} {impl : Impl}

theorem rejects_eq_false {password : Bytes} (hgenerated : impl.ownKeyGenerated = true)
    (hne : password ≠ []) (hpassword : checkPasswordHash P impl.passwordCheckHash password = true) :
    rejects P impl password = false := by
  simp [rejects, hgenerated, hne, hpassword]

/-- Every key the recipient tries belongs to one of its subkeys. -/
theorem OwnKeysGenerated.tried (hkeys : OwnKeysGenerated P impl)
    (hgenerated : impl.ownKeyGenerated = true) {key : DecryptionKey}
    (hkey : key ∈ impl.flatDecryptionKey :: impl.subkeyDecryptionKeys) :
    ∃ subkey ∈ impl.ownSubkeys, key = subkey.decryptionKey impl.keyAlgorithm := by
  have hmem : key ∈ impl.subkeyDecryptionKeys := by
    rcases List.mem_cons.mp hkey with rfl | hmem
    · exact List.mem_of_mem_head? (hkeys.mirror hgenerated)
    · exact hmem
  obtain ⟨subkey, hsubkey, rfl⟩ := List.mem_map.mp hmem
  exact ⟨subkey, hsubkey, rfl⟩

/-- A message that one subkey opens, and which every other either opens to the
same or finds nothing in, is opened. -/
theorem anyOwnSubkey_opens (hkeys : OwnKeysGenerated P impl)
    (hgenerated : impl.ownKeyGenerated = true)
    {subkey : PgpOwnSubkey} (hmem : subkey ∈ impl.ownSubkeys) {message : Bytes}
    {wantSignature : Bool} {result : Bytes × Option Bytes}
    (hopens : parseAndDecryptMessage P (subkey.decryptionKey impl.keyAlgorithm) message
      wantSignature = .ok (some result.1, result.2))
    (hothers : ∀ other ∈ impl.ownSubkeys,
      parseAndDecryptMessage P (other.decryptionKey impl.keyAlgorithm) message wantSignature =
          .ok (some result.1, result.2) ∨
        parseAndDecryptMessage P (other.decryptionKey impl.keyAlgorithm) message wantSignature =
          .ok (none, none)) :
    parseAndDecryptMessageWithAnyOwnSubkey P impl message wantSignature =
      .ok (some result.1, result.2) := by
  refine tryKeys_of_mem (List.mem_cons_of_mem _ (List.mem_map_of_mem hmem)) hopens ?_
  intro key hkey
  obtain ⟨other, hother, rfl⟩ := hkeys.tried hgenerated hkey
  exact hothers other hother

end Recipient

/-! ### A sender and its recipient -/

/-- Under the key ID of a subkey there is only that subkey among the recipients. -/
def OwnsKeyIds (P : Primitives) (impl : Impl) (recipients : List PgpEncryptionRecipient) : Prop :=
  ∀ recipient ∈ recipients, ∀ subkey ∈ impl.ownSubkeys, recipient.keyId = subkey.keyId →
    subkey.isEd25519Sign = false ∧
      recipient = (subkey.decryptionKey impl.keyAlgorithm).recipient P

/-- What `sender` is to an identity whose block it has imported: it encrypts to
the recipient in the block, and to whomever else it knows. -/
structure Sender (P : Primitives) (impl : Impl) (now : UInt32) (sender : Impl) : Prop where
  imported : sender.peerKeyImported = true
  primary : sender.primaryRecipient = impl.exportedRecipient now
  sized : ∀ recipient ∈ sender.recipients, recipient.rsaPublicKey.modulus.size ≤ 2 ^ 16
  others : OwnsKeyIds P impl sender.additionalRecipients

section Exchange

variable {P : Primitives} {impl sender : Impl} {now : UInt32}

theorem exportPublicKeyArmored_ne_nil (impl : Impl) : exportPublicKeyArmored impl ≠ [] := by
  have hstart : ascii "-----" <+: exportPublicKeyArmored impl := ⟨_, rfl⟩
  intro hnil
  rw [hnil, List.prefix_nil] at hstart
  exact absurd hstart (by decide)

theorem ImportPeerPublicKey_export (hreachable : Reachable P impl)
    (hgenerated : impl.ownKeyGenerated = true) {block : Buffer}
    (hblock : block.1 = exportPublicKeyArmored impl) (before : Impl) :
    ImportPeerPublicKey P now block before =
      (NO_ERROR, before.importPeer ((exportedIdentity impl).chooseSubkey now)) := by
  rw [ImportPeerPublicKey, hblock, if_neg (exportPublicKeyArmored_ne_nil impl),
    decodeKeyBlockToBinary_export, Option.bind_some,
    parsePeerPublicKeyBlock_export hreachable.wellFormed hgenerated]

/-- Importing the block of an identity makes a sender, whomever else it
encrypts to. -/
theorem Sender.of_import (now : UInt32) (hreachable : Reachable P impl) (hgenerated : impl.ownKeyGenerated = true)
    {block : Buffer} (hblock : block.1 = exportPublicKeyArmored impl) (before : Impl)
    (additionalRecipients : List PgpEncryptionRecipient)
    (hsized : ∀ recipient ∈ additionalRecipients, recipient.rsaPublicKey.modulus.size ≤ 2 ^ 16)
    (hothers : OwnsKeyIds P impl additionalRecipients) :
    Sender P impl now
      { (ImportPeerPublicKey P now block before).2 with additionalRecipients } := by
  rw [ImportPeerPublicKey_export hreachable hgenerated hblock]
  have hparsed : ((exportedIdentity impl).chooseSubkey now).Sized :=
    parsePeerPublicKeyBlock_sized
      (parsePeerPublicKeyBlock_export hreachable.wellFormed hgenerated now)
  have hprimary := Impl.importPeer_primaryRecipient before ((exportedIdentity impl).chooseSubkey now)
  refine ⟨rfl, hprimary, fun recipient hmem => ?_, hothers⟩
  rcases List.mem_cons.mp hmem with rfl | hadditional
  · change (before.importPeer _).primaryRecipient.rsaPublicKey.modulus.size ≤ 2 ^ 16
    rw [hprimary]
    exact hparsed.recipient
  · exact hsized recipient hadditional

theorem EncryptBuffer_none {env : MessageEnv} {plaintext : Buffer}
    (himported : sender.peerKeyImported = true) (buffer : Option Int32)
    (hbuild : buildEncryptedMessageMultiRecipient P env sender.recipients
      sender.symmetricCipherPreference.octet plaintext.1 = none) :
    EncryptBuffer P env plaintext buffer sender = .ok { status := UNEXPECTED_ERROR } := by
  rw [EncryptBuffer, if_neg (by simp [himported]), hbuild]

theorem EncryptBuffer_some {env : MessageEnv} {plaintext : Buffer} {message : Bytes}
    (himported : sender.peerKeyImported = true) (buffer : Option Int32)
    (hbuild : buildEncryptedMessageMultiRecipient P env sender.recipients
      sender.symmetricCipherPreference.octet plaintext.1 = some message) :
    EncryptBuffer P env plaintext buffer sender =
      deliver buffer (sender.recipients.length * 2) message := by
  rw [EncryptBuffer, if_neg (by simp [himported]), hbuild]

/-- A successful encryption delivers a built message. -/
theorem EncryptBuffer_noError {env : MessageEnv} {plaintext : Buffer} {buffer : Option Int32}
    {outcome : Outcome} (h : EncryptBuffer P env plaintext buffer sender = .ok outcome)
    (hstatus : outcome.status = NO_ERROR) :
    ∃ message, buildEncryptedMessageMultiRecipient P env sender.recipients
        sender.symmetricCipherPreference.octet plaintext.1 = some message ∧
      outcome = delivered message := by
  unfold EncryptBuffer at h
  split at h
  · obtain rfl := Except.ok.inj h
    cases hstatus
  · split at h
    · obtain rfl := Except.ok.inj h
      cases hstatus
    · rename_i message hbuild
      exact ⟨message, hbuild, (deliver_eq_delivered h hstatus).1⟩

/-- Opening a message is decrypting it, given the password and room for the
plaintext. -/
theorem DecryptBuffer_opens {message : Buffer} {plaintext password : Bytes}
    (hgenerated : impl.ownKeyGenerated = true) (hne : password ≠ [])
    (hpassword : checkPasswordHash P impl.passwordCheckHash password = true)
    (hmessage : message.1 ≠ []) {signature : Option Bytes}
    (hopens : parseAndDecryptMessageWithAnyOwnSubkey P impl message.1 false =
      .ok (some plaintext, signature)) {capacity : Int32}
    (hcapacity : (plaintext.length : ℤ) ≤ capacity.toInt) :
    DecryptBuffer P password message (some capacity) impl = .ok (delivered plaintext) := by
  simp only [DecryptBuffer, rejects_eq_false hgenerated hne hpassword, hmessage, hopens]
  simpa using deliver_of_le 0 hcapacity

theorem DecryptBuffer_unopened {message : Buffer} {password : Bytes}
    (hgenerated : impl.ownKeyGenerated = true) (hne : password ≠ [])
    (hpassword : checkPasswordHash P impl.passwordCheckHash password = true)
    (hmessage : message.1 ≠ []) {signature : Option Bytes}
    (hunopened : parseAndDecryptMessageWithAnyOwnSubkey P impl message.1 false =
      .ok (none, signature)) (buffer : Option Int32) :
    DecryptBuffer P password message buffer impl = .ok { status := INVALID_DATA } := by
  simp [DecryptBuffer, rejects_eq_false hgenerated hne hpassword, hmessage, hunopened]

/-- A subkey whose key ID is among the recipients' is addressed. -/
theorem addressed_of_keyId {recipients : List PgpEncryptionRecipient}
    (hkeys : OwnKeysGenerated P impl) (howns : OwnsKeyIds P impl recipients)
    (hsized : ∀ recipient ∈ recipients, recipient.rsaPublicKey.modulus.size ≤ 2 ^ 16)
    {subkey : PgpOwnSubkey} (hmem : subkey ∈ impl.ownSubkeys)
    (hkeyId : ∃ recipient ∈ recipients, recipient.keyId = subkey.keyId) :
    Addressed P (subkey.decryptionKey impl.keyAlgorithm) recipients := by
  obtain ⟨recipient, hrecipient, hsame⟩ := hkeyId
  have hfound : (recipients.find? fun recipient => recipient.keyId = subkey.keyId).isSome :=
    List.find?_isSome.mpr ⟨recipient, hrecipient, decide_eq_true hsame⟩
  obtain ⟨first, hfirst⟩ := Option.isSome_iff_exists.mp hfound
  obtain ⟨hfirstId, before, after, rfl, hbefore⟩ := List.find?_eq_some_iff_append.mp hfirst
  obtain ⟨hencrypts, rfl⟩ := howns first (by simp) subkey hmem (of_decide_eq_true hfirstId)
  refine ⟨(hkeys.subkeys subkey hmem).decryptionKey hencrypts, ⟨before, after, rfl, ?_⟩, hsized⟩
  intro other hother hsame
  simpa [show other.keyId = subkey.keyId from hsame] using hbefore other hother

/-- The keys of a recipient whose usable encryption subkey a sender has chosen. -/
theorem Sender.ownsKeyIds (hsender : Sender P impl now sender) (hkeys : OwnKeysGenerated P impl)
    (hdistinct : impl.DistinctKeyIds)
    (husable : ∃ subkey ∈ impl.ownSubkeys, subkey.usable now = true ∧
      subkey.isEd25519Sign = false) :
    OwnsKeyIds P impl sender.recipients ∧
      ∃ subkey ∈ impl.ownSubkeys, ∃ recipient ∈ sender.recipients,
        recipient.keyId = subkey.keyId := by
  obtain ⟨usable, husableMem, husable, husableEncrypts⟩ := husable
  obtain ⟨chosen, hchosenMem, hencrypts, hchosen⟩ :=
    exportedRecipient_own hkeys husableMem husable husableEncrypts
  have hprimary : sender.primaryRecipient =
      (chosen.decryptionKey impl.keyAlgorithm).recipient P := hsender.primary.trans hchosen
  have hkeyId : sender.primaryRecipient.keyId = chosen.keyId := by
    rw [hprimary, DecryptionKey.recipient_keyId]
    rfl
  refine ⟨?_, chosen, hchosenMem, sender.primaryRecipient, List.mem_cons_self, hkeyId⟩
  intro recipient hrecipient subkey hmem hsame
  rcases List.mem_cons.mp hrecipient with rfl | hadditional
  · obtain rfl : chosen = subkey :=
      List.inj_on_of_nodup_map hdistinct.of_cons hchosenMem hmem (hkeyId.symm.trans hsame)
    exact ⟨hencrypts, hprimary⟩
  · exact hsender.others recipient hadditional subkey hmem hsame

theorem OwnKeysGenerated.rsa_encrypts (hkeys : OwnKeysGenerated P impl)
    (halgorithm : impl.keyAlgorithm = PGP_KEY_ALGORITHM_RSA) {subkey : PgpOwnSubkey}
    (hmem : subkey ∈ impl.ownSubkeys) : subkey.isEd25519Sign = false :=
  (halgorithm ▸ hkeys.subkeys subkey hmem).1

section Messages

variable {env : MessageEnv} {plaintext : Buffer} {message : Bytes}

/-- A recipient with a usable encryption subkey opens what is encrypted to it:
every own subkey is addressed, and opens the message, or finds nothing in it. -/
theorem Sender.opens (hlawful : P.Lawful) (hsender : Sender P impl now sender)
    (hkeys : OwnKeysGenerated P impl) (hgenerated : impl.ownKeyGenerated = true)
    (hdistinct : impl.DistinctKeyIds)
    (husable : ∃ subkey ∈ impl.ownSubkeys, subkey.usable now = true ∧
      subkey.isEd25519Sign = false)
    (hmessage : IsMessage P env sender.recipients sender.symmetricCipherPreference plaintext.1
      message) {wantSignature : Bool} (result : Bytes × Option Bytes)
    (haddressed : ∀ key, Addressed P key sender.recipients →
      parseAndDecryptMessage P key message wantSignature = .ok (some result.1, result.2)) :
    parseAndDecryptMessageWithAnyOwnSubkey P impl message wantSignature =
      .ok (some result.1, result.2) := by
  obtain ⟨howns, chosen, hchosen, hkeyId⟩ := hsender.ownsKeyIds hkeys hdistinct husable
  refine anyOwnSubkey_opens hkeys hgenerated hchosen
    (haddressed _ (addressed_of_keyId hkeys howns hsender.sized hchosen hkeyId)) ?_
  intro other hother
  by_cases hother' : ∃ recipient ∈ sender.recipients, recipient.keyId = other.keyId
  · exact .inl (haddressed _ (addressed_of_keyId hkeys howns hsender.sized hother hother'))
  · refine .inr (parse_unaddressed hlawful ?_ hsender.sized plaintext.2 hmessage wantSignature)
    exact fun recipient hmem hsame => hother' ⟨recipient, hmem, hsame⟩

/-- What is encrypted to the master key, no own subkey opens. -/
theorem Sender.unopened (hlawful : P.Lawful) (hsender : Sender P impl now sender)
    (honly : sender.additionalRecipients = []) (hkeys : OwnKeysGenerated P impl)
    (hgenerated : impl.ownKeyGenerated = true) (hdistinct : impl.DistinctKeyIds)
    (halgorithm : impl.keyAlgorithm = PGP_KEY_ALGORITHM_RSA)
    (hnone : ∀ subkey ∈ impl.ownSubkeys, subkey.usable now = false)
    (hmessage : IsMessage P env sender.recipients sender.symmetricCipherPreference plaintext.1
      message) (wantSignature : Bool) :
    parseAndDecryptMessageWithAnyOwnSubkey P impl message wantSignature = .ok (none, none) := by
  refine tryKeys_none fun key hkey => ?_
  obtain ⟨subkey, hmem, rfl⟩ := hkeys.tried hgenerated hkey
  have hother : impl.ownMasterKeyId ≠ subkey.keyId := by
    intro hsame
    apply (List.nodup_cons.mp hdistinct).1
    rw [hsame]
    exact List.mem_map_of_mem hmem
  refine parse_unaddressed hlawful ?_ hsender.sized plaintext.2 hmessage wantSignature
  intro recipient hrecipient
  rw [Impl.recipients, honly, hsender.primary, List.mem_singleton,
    exportedRecipient_master halgorithm hnone] at hrecipient
  subst hrecipient
  exact hother

theorem buildPkeskPackets_length_le {recipients : List PgpEncryptionRecipient}
    {sessionKey pkesks : Bytes} {cipherAlgorithmOctet : UInt8} {seed : ℕ → ℕ} {i : ℕ}
    (hsized : ∀ recipient ∈ recipients, recipient.rsaPublicKey.modulus.size ≤ 2 ^ 16)
    (hkey : sessionKey.length ≤ 32)
    (h : buildPkeskPackets P sessionKey cipherAlgorithmOctet seed i recipients = some pkesks) :
    pkesks.length ≤ 2 ^ 17 * recipients.length := by
  induction recipients generalizing i pkesks with
  | nil =>
      obtain rfl := Option.some.inj h
      simp
  | cons recipient recipients ih =>
      obtain ⟨tail, others, hencrypt, hothers, rfl⟩ := buildPkeskPackets_cons h
      have hrest := ih (fun other hmem => hsized other (.tail _ hmem)) hothers
      have hplain := length_sessionKeyPlain cipherAlgorithmOctet sessionKey
      have htail := encryptSessionKey_length (hsized recipient (.head _)) (by omega) hencrypt
      obtain ⟨hbody, -⟩ := pkeskBody_length (hsized recipient (.head _)) (by omega) hencrypt
      have hpacket := writePacket_length_le PGP_TAG_PKESK
        (pkeskBody recipient.keyId recipient.algorithm tail)
      rw [List.length_append, List.length_cons]
      omega

/-- A message is not much longer than its content and its session key packets. -/
theorem length_encryptContent {recipients : List PgpEncryptionRecipient}
    {cipher : PgpSymmetricAlgorithm} {content : Bytes}
    (hsized : ∀ recipient ∈ recipients, recipient.rsaPublicKey.modulus.size ≤ 2 ^ 16)
    (hbuild : encryptContent P env recipients cipher.octet content = some message) :
    message.length ≤ (P.deflate content).length + 2 ^ 17 * recipients.length + 64 := by
  rw [encryptContent, Option.map_eq_some_iff] at hbuild
  obtain ⟨pkesks, hpkesks, rfl⟩ := hbuild
  have hpackets := buildPkeskPackets_length_le hsized (env.length_sessionKeyFor_le cipher.octet)
    hpkesks
  have hseip := writePacket_length_le PGP_TAG_SEIP (1 :: cfbEncrypt P
    (env.sessionKeyFor cipher.octet) (Octets.zero 16)
      (plainForCfb P env.prefixOctets (compressedPacket P content)))
  have hcompressed := writePacket_length_le PGP_TAG_COMPRESSED_DATA (1 :: P.deflate content)
  simp only [List.length_cons, length_cfbEncrypt, length_plainForCfb] at hseip hcompressed
  simp only [seipPacket, compressedPacket, List.length_append] at hseip ⊢
  omega

/-- The public half of a generated RSA master key is the exported one. -/
theorem OwnKeysGenerated.masterPublicKey (hkeys : OwnKeysGenerated P impl)
    (hgenerated : impl.ownKeyGenerated = true)
    (halgorithm : impl.keyAlgorithm = PGP_KEY_ALGORITHM_RSA) :
    ∃ seed bits, IsRsaKeySize bits ∧
      impl.ownMasterPublicKey = (P.generateRsaKey seed bits).1.publicKey := by
  have hmaster := hkeys.master hgenerated
  simp only [SigningKey.Generated, Impl.masterSigningKey, Impl.masterVerificationKey,
    halgorithm] at hmaster
  obtain ⟨seed, bits, hbits, hkey, hpublic⟩ := hmaster
  exact ⟨seed, bits, hbits, by rw [← hkey]; exact VerificationKey.rsa.inj hpublic⟩

/-- Content is encrypted to recipients that can be encrypted to. -/
theorem encryptContent_encryptable {recipients : List PgpEncryptionRecipient}
    (hencryptable : ∀ recipient ∈ recipients, Encryptable P recipient) (env : MessageEnv)
    (cipher : PgpSymmetricAlgorithm) (content : Bytes) :
    ∃ message, encryptContent P env recipients cipher.octet content = some message := by
  obtain ⟨pkesks, hpkesks⟩ := buildPkeskPackets_encryptable hencryptable
    (env.length_sessionKeyFor_le cipher.octet)
  exact ⟨_, Option.map_eq_some_iff.mpr ⟨pkesks, hpkesks, rfl⟩⟩

/-- Nothing keeps a sender from encrypting to an RSA master key. -/
theorem encryptContent_exported (hlawful : P.Lawful) (hkeys : OwnKeysGenerated P impl)
    (hgenerated : impl.ownKeyGenerated = true)
    (halgorithm : impl.keyAlgorithm = PGP_KEY_ALGORITHM_RSA)
    (hnone : ∀ subkey ∈ impl.ownSubkeys, subkey.usable now = false) (env : MessageEnv)
    (cipher : PgpSymmetricAlgorithm) (content : Bytes) :
    ∃ message, encryptContent P env [impl.exportedRecipient now] cipher.octet content =
      some message := by
  obtain ⟨seed, bits, hbits, hpublic⟩ := hkeys.masterPublicKey hgenerated halgorithm
  have hencryptable : ∀ recipient ∈ [impl.exportedRecipient now], Encryptable P recipient := by
    intro recipient hmem
    rw [List.mem_singleton.mp hmem, exportedRecipient_master halgorithm hnone]
    exact .rsa hlawful rfl hbits hpublic
  exact encryptContent_encryptable hencryptable env cipher content

/-- Nothing can be encrypted to a curve identity without a usable encryption subkey. -/
theorem encryptContent_curve (hlawful : P.Lawful)
    (hprimary : sender.primaryRecipient = impl.exportedRecipient now)
    (halgorithm : impl.keyAlgorithm = PGP_KEY_ALGORITHM_ED25519_X25519)
    (hnone : ∀ subkey ∈ impl.ownSubkeys, subkey.usable now = true → subkey.isEd25519Sign = true)
    (env : MessageEnv) (content : Bytes) (cipher : PgpSymmetricAlgorithm) :
    encryptContent P env sender.recipients cipher.octet content = none := by
  have hfails := exportedRecipient_curve hlawful halgorithm hnone
  simp [Impl.recipients, hprimary, encryptContent, buildPkeskPackets,
    buildPkeskPacketForRecipient, hfails]

/-- Where there is a message, there is a usable encryption subkey, except for an
RSA identity. -/
theorem Sender.usable_of_message (hlawful : P.Lawful) (hsender : Sender P impl now sender)
    (hkeys : OwnKeysGenerated P impl)
    (husable : impl.keyAlgorithm = PGP_KEY_ALGORITHM_RSA →
      ∃ subkey ∈ impl.ownSubkeys, subkey.usable now = true) {cipher : PgpSymmetricAlgorithm}
    {content : Bytes} (hmessage : IsMessage P env sender.recipients cipher content message) :
    ∃ subkey ∈ impl.ownSubkeys, subkey.usable now = true ∧ subkey.isEd25519Sign = false := by
  cases halgorithm : impl.keyAlgorithm with
  | PGP_KEY_ALGORITHM_RSA =>
      obtain ⟨subkey, hmem, husable⟩ := husable halgorithm
      exact ⟨subkey, hmem, husable, hkeys.rsa_encrypts halgorithm hmem⟩
  | PGP_KEY_ALGORITHM_ED25519_X25519 =>
      by_contra hnone
      obtain ⟨content, hcontent⟩ := hmessage.content
      rw [encryptContent_curve hlawful hsender.primary halgorithm (by simpa using hnone)] at hcontent
      cases hcontent

/-- A sender encrypts short content to an RSA identity without a usable subkey. -/
theorem Sender.encryptContent_master (hlawful : P.Lawful) (hsender : Sender P impl now sender)
    (honly : sender.additionalRecipients = []) (hkeys : OwnKeysGenerated P impl)
    (hgenerated : impl.ownKeyGenerated = true)
    (halgorithm : impl.keyAlgorithm = PGP_KEY_ALGORITHM_RSA)
    (hnone : ∀ subkey ∈ impl.ownSubkeys, subkey.usable now = false) (env : MessageEnv)
    (cipher : PgpSymmetricAlgorithm) {content : Bytes} (hshort : content.length ≤ 2 ^ 17) :
    ∃ message : Buffer,
      encryptContent P env sender.recipients cipher.octet content = some message.1 := by
  have hrecipients : sender.recipients = [impl.exportedRecipient now] := by
    rw [Impl.recipients, hsender.primary, honly]
  obtain ⟨message, hcontent⟩ := encryptContent_exported hlawful hkeys hgenerated halgorithm
    hnone env cipher content
  have hlength := length_encryptContent (hrecipients ▸ hsender.sized) hcontent
  rw [List.length_singleton] at hlength
  have hdeflated := hlawful.deflate_length content
  exact ⟨⟨message, by omega⟩, by rw [hrecipients, hcontent]⟩

theorem deliver_maxValue (margin : ℕ) (data : Buffer) :
    deliver (some Int32.maxValue) margin data.1 = .ok (delivered data.1) := by
  have hmax : Int32.maxValue.toInt = 2 ^ 31 - 1 := by decide
  have hdata := data.2
  exact deliver_of_le margin (by omega)

/-- An RSA identity without a usable subkey does not read what is delivered to it. -/
theorem Sender.encrypt_master (hlawful : P.Lawful) (hsender : Sender P impl now sender)
    (honly : sender.additionalRecipients = []) (hkeys : OwnKeysGenerated P impl)
    (hgenerated : impl.ownKeyGenerated = true) (hdistinct : impl.DistinctKeyIds)
    (halgorithm : impl.keyAlgorithm = PGP_KEY_ALGORITHM_RSA)
    (hnone : ∀ subkey ∈ impl.ownSubkeys, subkey.usable now = false) (env : MessageEnv)
    (plaintext : Buffer) (hshort : plaintext.1.length ≤ 2 ^ 16) :
    ∃ message : Buffer,
      EncryptBuffer P env plaintext (some Int32.maxValue) sender = .ok (delivered message.1) ∧
      ∀ password ≠ [], checkPasswordHash P impl.passwordCheckHash password = true → ∀ buffer,
        DecryptBuffer P password message buffer impl = .ok { status := INVALID_DATA } := by
  have hpacket := writePacket_length_le PGP_TAG_LITERAL_DATA (literalBody plaintext.1)
  have hbody := length_literalBody plaintext.1
  obtain ⟨message, hcontent⟩ := hsender.encryptContent_master hlawful honly hkeys hgenerated
    halgorithm hnone env sender.symmetricCipherPreference
    (show (writePacket PGP_TAG_LITERAL_DATA (literalBody plaintext.1)).length ≤ 2 ^ 17 by omega)
  have hbuild : buildEncryptedMessageMultiRecipient P env sender.recipients
      sender.symmetricCipherPreference.octet plaintext.1 = some message.1 := by
    rw [buildEncryptedMessageMultiRecipient, if_neg (by simp [Impl.recipients]), hcontent]
  refine ⟨message, ?_, ?_⟩
  · rw [EncryptBuffer_some hsender.imported _ hbuild, deliver_maxValue]
  · intro password hne hpassword buffer
    have hunopened := hsender.unopened hlawful honly hkeys hgenerated hdistinct halgorithm hnone
      (.inl hbuild) false
    exact DecryptBuffer_unopened hgenerated hne hpassword (encryptContent_ne_nil hcontent)
      hunopened buffer

end Messages

/-! ### Encrypting and decrypting -/

/-- Whatever a sender encrypts to the identity whose block it imported, that
identity decrypts. -/
def DecryptsWhatIsEncrypted (P : Primitives) (impl : Impl) (block : Buffer) (now : UInt32) : Prop :=
  ∀ before, Reachable P before → OwnsKeyIds P impl before.additionalRecipients →
    ∀ env plaintext buffer outcome,
      EncryptBuffer P env plaintext buffer (ImportPeerPublicKey P now block before).2 =
        .ok outcome → outcome.status = NO_ERROR →
    ∀ message : Buffer, message.1 = outcome.output →
    ∀ password ≠ [], checkPasswordHash P impl.passwordCheckHash password = true →
    ∀ capacity : Int32, (plaintext.1.length : ℤ) ≤ capacity.toInt →
      DecryptBuffer P password message (some capacity) impl = .ok (delivered plaintext.1)

/-- No sender encrypts to an identity without a usable encryption subkey. -/
def RefusedWithoutKey (P : Primitives) (impl : Impl) (block : Buffer) (now : UInt32) : Prop :=
  (∀ subkey ∈ impl.ownSubkeys, subkey.usable now = true → subkey.isEd25519Sign = true) →
  ∀ before, Reachable P before → ∀ env plaintext buffer, ∃ outcome,
    EncryptBuffer P env plaintext buffer (ImportPeerPublicKey P now block before).2 =
      .ok outcome ∧ outcome.status ≠ NO_ERROR

/-- An identity in a reachable state, whose key IDs tell its keys apart, and the
block it exports. -/
structure Published (P : Primitives) (impl : Impl) (block : Buffer) : Prop where
  reachable : Reachable P impl
  generated : impl.ownKeyGenerated = true
  distinct : impl.DistinctKeyIds
  exported : block.1 = exportPublicKeyArmored impl

section Buffers

variable {block : Buffer}

theorem Published.import (h : Published P impl block) (now : UInt32) (before : Impl) :
    ImportPeerPublicKey P now block before =
      (NO_ERROR, before.importPeer ((exportedIdentity impl).chooseSubkey now)) :=
  ImportPeerPublicKey_export h.reachable h.generated h.exported before

theorem Published.sender_import (h : Published P impl block) (now : UInt32) {before : Impl}
    (hbefore : Reachable P before) (hothers : OwnsKeyIds P impl before.additionalRecipients) :
    Sender P impl now (ImportPeerPublicKey P now block before).2 := by
  have hsender := Sender.of_import now h.reachable h.generated h.exported before _
    hbefore.peerKeysSized.additional hothers
  rw [h.import] at hsender ⊢
  exact hsender

/-- Nothing is built for a curve identity without a usable encryption subkey. -/
theorem EncryptBuffer_curve (hlawful : P.Lawful) (hpublished : Published P impl block)
    (halgorithm : impl.keyAlgorithm = PGP_KEY_ALGORITHM_ED25519_X25519)
    (hnone : ∀ subkey ∈ impl.ownSubkeys, subkey.usable now = true → subkey.isEd25519Sign = true)
    (before : Impl) (env : MessageEnv) (plaintext : Buffer) (buffer : Option Int32) :
    EncryptBuffer P env plaintext buffer (ImportPeerPublicKey P now block before).2 =
      .ok { status := UNEXPECTED_ERROR } := by
  rw [hpublished.import]
  refine EncryptBuffer_none (by simp [Impl.importPeer]) buffer ?_
  rw [buildEncryptedMessageMultiRecipient, ite_eq_left_iff]
  intro hrecipients
  exact encryptContent_curve hlawful (Impl.importPeer_primaryRecipient _ _) halgorithm hnone env _ _

theorem decryptsWhatIsEncrypted (hlawful : P.Lawful) (hpublished : Published P impl block)
    (husable : impl.keyAlgorithm = PGP_KEY_ALGORITHM_RSA →
      ∃ subkey ∈ impl.ownSubkeys, subkey.usable now = true) :
    DecryptsWhatIsEncrypted P impl block now := by
  have hkeys := hpublished.reachable.ownKeysGenerated
  intro before hbefore hothers env plaintext buffer outcome hencrypt hstatus message hmessage
    password hne hpassword capacity hcapacity
  have hsender := hpublished.sender_import now hbefore hothers
  obtain ⟨built, hbuild, rfl⟩ := EncryptBuffer_noError hencrypt hstatus
  obtain rfl : message.1 = built := hmessage
  have hencrypts := hsender.usable_of_message hlawful hkeys husable (.inl hbuild)
  have hopens := hsender.opens hlawful hkeys hpublished.generated hpublished.distinct hencrypts
    (.inl hbuild) (plaintext.1, none) fun key haddressed =>
      parse_encrypted hlawful haddressed plaintext.2 hbuild
  have hfull := encryptContent_ne_nil (buildEncryptedMessage_content hlawful plaintext.2 hbuild).2.2
  exact DecryptBuffer_opens hpublished.generated hne hpassword hfull hopens hcapacity

theorem refusedWithoutKey (hlawful : P.Lawful) (hpublished : Published P impl block)
    (husable : impl.keyAlgorithm = PGP_KEY_ALGORITHM_RSA →
      ∃ subkey ∈ impl.ownSubkeys, subkey.usable now = true) :
    RefusedWithoutKey P impl block now := by
  intro hnone before hbefore env plaintext buffer
  cases halgorithm : impl.keyAlgorithm with
  | PGP_KEY_ALGORITHM_RSA =>
      obtain ⟨subkey, hmem, husable⟩ := husable halgorithm
      have hsign := hpublished.reachable.ownKeysGenerated.rsa_encrypts halgorithm hmem
      rw [hnone subkey hmem husable] at hsign
      cases hsign
  | PGP_KEY_ALGORITHM_ED25519_X25519 =>
      exact ⟨_, EncryptBuffer_curve hlawful hpublished halgorithm hnone before env
        plaintext buffer, by decide⟩

/-- An engine without additional recipients encrypts to the one identity. -/
theorem Published.sender_only (h : Published P impl block) (now : UInt32) (before : Impl)
    (hbefore : before.additionalRecipients = []) :
    Sender P impl now (ImportPeerPublicKey P now block before).2 ∧
      (ImportPeerPublicKey P now block before).2.additionalRecipients = [] := by
  have hsender := Sender.of_import now h.reachable h.generated h.exported before
    before.additionalRecipients (by simp [hbefore])
    (by simp [OwnsKeyIds, hbefore])
  rw [h.import] at hsender ⊢
  exact ⟨hsender, hbefore⟩

/-- Encryption and decryption agree on the keys of every identity, except that
an RSA identity without a usable subkey is sent what it cannot read. -/
theorem encrypted_iff_usable (hlawful : P.Lawful) (hpublished : Published P impl block)
    (now : UInt32) :
    (DecryptsWhatIsEncrypted P impl block now ∧ RefusedWithoutKey P impl block now) ↔
      (impl.keyAlgorithm = PGP_KEY_ALGORITHM_RSA →
        ∃ subkey ∈ impl.ownSubkeys, subkey.usable now = true) := by
  constructor
  · rintro ⟨hdecrypts, -⟩ halgorithm
    by_contra hnone
    have hunusable : ∀ subkey ∈ impl.ownSubkeys, subkey.usable now = false := by
      simpa using hnone
    obtain ⟨hsender, honly⟩ := hpublished.sender_only now
      (Impl.new PGP_KEY_ALGORITHM_RSA 0) rfl
    obtain ⟨message, hencrypt, hdecrypt⟩ := hsender.encrypt_master hlawful honly
      hpublished.reachable.ownKeysGenerated hpublished.generated hpublished.distinct halgorithm
      hunusable ⟨Octets.zero 32, Octets.zero 16, id, now⟩ ⟨[], by decide⟩ (by decide)
    obtain ⟨password, hne, hpassword⟩ := hpublished.reachable.hasPassword hpublished.generated
    have hdelivered := hdecrypts _ (.new PGP_KEY_ALGORITHM_RSA 0) (by simp [OwnsKeyIds, Impl.new])
      _ _ _ _ hencrypt rfl message rfl password hne hpassword 0 (by decide)
    rw [hdecrypt password hne hpassword] at hdelivered
    cases congrArg Outcome.status (Except.ok.inj hdelivered)
  · intro husable
    exact ⟨decryptsWhatIsEncrypted hlawful hpublished husable,
      refusedWithoutKey hlawful hpublished husable⟩

end Buffers

end Exchange

/-! ### An identity whose subkey expires -/

/-- An RSA identity that expires a thousand seconds after its creation. -/
def shortLivedOwner : Impl :=
  (GenerateKeyPair standIn (Env.numbered 1000 7) ⟨ascii "alice", length_alice⟩ (ascii "pw") 1000
    (Impl.new PGP_KEY_ALGORITHM_RSA 1024)).2

theorem shortLivedOwner_expired :
    ∀ subkey ∈ shortLivedOwner.ownSubkeys, subkey.usable 3000 = false := by
  decide +kernel

theorem shortLivedOwner_password :
    checkPasswordHash standIn shortLivedOwner.passwordCheckHash (ascii "pw") = true := by
  decide +kernel

/-- The block that others import. -/
theorem length_shortLivedBlock : (exportPublicKeyArmored shortLivedOwner).length < 2 ^ 31 := by
  rw [exportPublicKeyArmored, length_armorEncode]
  decide +kernel

def shortLivedBlock : Buffer := ⟨exportPublicKeyArmored shortLivedOwner, length_shortLivedBlock⟩

theorem shortLivedOwner_published : Published standIn shortLivedOwner shortLivedBlock where
  reachable := .call (.new PGP_KEY_ALGORITHM_RSA 1024) (Env.numbered 1000 7)
    (.generateKeyPair ⟨ascii "alice", length_alice⟩ (ascii "pw") 1000)
  generated := by decide +kernel
  distinct := by
    rw [Impl.DistinctKeyIds]
    decide +kernel
  exported := rfl

/-- Before the subkey expires, what is encrypted is decrypted. -/
theorem encrypted_iff_usable_shortLived :
    DecryptsWhatIsEncrypted standIn shortLivedOwner shortLivedBlock 1500 ∧
      RefusedWithoutKey standIn shortLivedOwner shortLivedBlock 1500 :=
  (encrypted_iff_usable standIn_lawful shortLivedOwner_published 1500).mpr fun _ => by
    decide +kernel

/-- After it has expired, a message is still encrypted, and not decrypted. -/
theorem shortLivedOwner_unread : ∃ message : Buffer,
    EncryptBuffer standIn mixedEnv ⟨ascii "hi", by decide⟩ (some Int32.maxValue)
        (ImportPeerPublicKey standIn 3000 shortLivedBlock (Impl.new PGP_KEY_ALGORITHM_RSA 1024)).2 =
      .ok (delivered message.1) ∧
    DecryptBuffer standIn (ascii "pw") message (some Int32.maxValue) shortLivedOwner =
      .ok { status := INVALID_DATA } := by
  obtain ⟨hsender, honly⟩ := shortLivedOwner_published.sender_only 3000
    (Impl.new PGP_KEY_ALGORITHM_RSA 1024) rfl
  obtain ⟨message, hencrypt, hdecrypt⟩ := hsender.encrypt_master standIn_lawful honly
    shortLivedOwner_published.reachable.ownKeysGenerated shortLivedOwner_published.generated
    shortLivedOwner_published.distinct (by decide +kernel) shortLivedOwner_expired mixedEnv
    ⟨ascii "hi", by decide⟩ (by decide)
  exact ⟨message, hencrypt, hdecrypt _ (by decide) shortLivedOwner_password _⟩

end HashCryptoLib.Pgp
