import HashCryptoLib.Pgp.FileRoundTrip
import HashCryptoLib.Pgp.SignedRoundTrip

/-!
The calls on buffers and those on files read each other's messages. The buffer call reads what
was written to a file for any of the own subkeys. The file call reads what was built in memory for
the first one, but nothing that is signed: it knows no packet in front of the literal one.
-/

namespace HashCryptoLib.Pgp

open BigEndian Cursor

/-! ### What the buffer calls find in a written message -/

section Protected

variable {P : Primitives} {tag compAlgo : UInt8} {body compData packets content : Bytes}

theorem parseProtected_writePacket (prefixOctets : Octets 16) (htag : tag < 64)
    (hbody : body.length < 2 ^ 32) (wantSignature : Bool) :
    ∃ header : PacketHeader, header.tag = tag ∧
      ((plainForCfb P prefixOctets (writePacket tag body)).drop header.bodyPos).take
        header.bodyLength = body ∧
      readPacketHeader (plainForCfb P prefixOctets (writePacket tag body)) 18
        (some (18 + (writePacket tag body).length)) false = some header ∧
      ¬ header.bodyPos + header.bodyLength > 18 + (writePacket tag body).length ∧
      parseProtected P (plainForCfb P prefixOctets (writePacket tag body)) wantSignature =
        parseInnerPacket P (plainForCfb P prefixOctets (writePacket tag body)) 18
          (18 + (writePacket tag body).length) wantSignature := by
  have hat := plainForCfb_at P prefixOctets (writePacket tag body)
  have hlen := length_plainForCfb P prefixOctets (writePacket tag body)
  have hloop := reassembleLoop_packets (.single htag hbody) hat []
  obtain ⟨header, hread, hheaderTag, hoctets, hend, -⟩ := readPacket_of_at htag hbody hat
  have hinner : reassemblePartialBodyLengthRange
      (plainForCfb P prefixOctets (writePacket tag body)) 18
      (18 + (writePacket tag body).length) = .ok none := by
    rw [reassemblePartialBodyLengthRange, if_neg (by omega)]
    exact hloop
  have htake : ((plainForCfb P prefixOctets (writePacket tag body)).drop
      header.bodyPos).take header.bodyLength = body := by
    unfold readOctets at hoctets
    split_ifs at hoctets
    exact Option.some.inj hoctets
  refine ⟨header, hheaderTag, htake, hread _ _, by rw [hend]; exact lt_irrefl _, ?_⟩
  rw [parseProtected, checkMdc_plainForCfb]
  simp only [hinner]

theorem parseProtected_literal (prefixOctets : Octets 16) (hbody : body.length < 2 ^ 32)
    (wantSignature : Bool) :
    parseProtected P (plainForCfb P prefixOctets (writePacket PGP_TAG_LITERAL_DATA body))
      wantSignature = .ok (some (body, none)) := by
  obtain ⟨header, htag, htake, hread, hend, heq⟩ := @parseProtected_writePacket P
    PGP_TAG_LITERAL_DATA body prefixOctets (by decide) hbody wantSignature
  have hnot : PGP_TAG_LITERAL_DATA ≠ PGP_TAG_COMPRESSED_DATA := by decide
  rw [heq, parseInnerPacket, hread]
  simp only [if_neg hend, htag, hnot, if_false, if_true, htake]

theorem parseProtected_compressed (prefixOctets : Octets 16)
    (hbody : (compAlgo :: compData).length < 2 ^ 32)
    (hwhole : decompressBody P compAlgo compData = some packets)
    (hpackets : IsPacketSequence packets) (wantSignature : Bool) :
    parseProtected P (plainForCfb P prefixOctets
        (writePacket PGP_TAG_COMPRESSED_DATA (compAlgo :: compData))) wantSignature =
      .ok (parseDecompressedPackets packets wantSignature) := by
  obtain ⟨header, htag, htake, hread, hend, heq⟩ := @parseProtected_writePacket P
    PGP_TAG_COMPRESSED_DATA (compAlgo :: compData) prefixOctets (by decide) hbody wantSignature
  rw [heq, parseInnerPacket, hread]
  simp only [if_neg hend, htag, if_true, htake, hwhole, reassembledOr_packets hpackets]
  rfl

end Protected

section Messages

variable {P : Primitives} {key : DecryptionKey} {message : MessageEnv}
  {recipients : List PgpEncryptionRecipient} {cipher : PgpSymmetricAlgorithm} {tag : UInt8}
  {body file : Bytes}

theorem protectedMessage_packets
    (hmodulus : ∀ recipient ∈ recipients, recipient.rsaPublicKey.modulus.size ≤ 2 ^ 16)
    (hsize : (writePacket tag body).length + 41 < 2 ^ 32)
    (h : protectedMessage P message recipients cipher.octet (writePacket tag body) = some file) :
    ∃ pkesks, buildPkeskPackets P (message.sessionKeyFor cipher.octet) cipher.octet
        message.seed 0 recipients = some pkesks ∧
      file = pkesks ++ seipPacket P (message.sessionKeyFor cipher.octet) message.prefixOctets
        (writePacket tag body) ∧ IsPacketSequence file := by
  obtain ⟨pkesks, hbuilt, rfl⟩ := Option.map_eq_some_iff.mp h
  have hseip : (1 :: cfbEncrypt P (message.sessionKeyFor cipher.octet) (Octets.zero 16)
      (plainForCfb P message.prefixOctets (writePacket tag body))).length < 2 ^ 32 := by
    simpa [length_plainForCfb] using hsize
  exact ⟨pkesks, hbuilt, rfl, (buildPkeskPackets_packets
    (message.length_sessionKeyFor_le cipher.octet) hmodulus hbuilt).append
      (.single (by decide) hseip)⟩

/-- A key that is addressed gets at what is protected. -/
theorem openMessage_protected (hlawful : P.Lawful) (haddressed : Addressed P key recipients)
    (hsize : (writePacket tag body).length + 41 < 2 ^ 32)
    (h : protectedMessage P message recipients cipher.octet (writePacket tag body) = some file)
    (wantSignature : Bool) :
    openMessage P key file wantSignature =
      parseProtected P (plainForCfb P message.prefixOctets (writePacket tag body))
        wantSignature := by
  obtain ⟨hgenerated, ⟨before, after, rfl, hbefore⟩, hmodulus⟩ := haddressed
  obtain ⟨pkesks, hbuilt, rfl, hpackets⟩ := protectedMessage_packets hmodulus hsize h
  have hat := at_whole (pkesks ++ seipPacket P (message.sessionKeyFor cipher.octet)
    message.prefixOctets (writePacket tag body))
  rw [List.append_assoc] at hat
  obtain ⟨pos, hpos, hfound⟩ := findSessionKey_own hlawful hgenerated
    (message.length_sessionKeyFor_le cipher.octet) hbefore hmodulus hbuilt (by decide) (by decide)
    (by simpa [length_plainForCfb] using hsize) hat
  simp only [openMessage, reassembledOr_packets hpackets, hfound, Option.bind_some,
    sessionKeyOf_sessionKeyPlain (message.length_sessionKeyFor cipher.octet),
    decryptSeip_seipPacket hsize hpos]

theorem openMessage_protected_unaddressed
    (hskip : ∀ recipient ∈ recipients, recipient.keyId ≠ key.keyId)
    (hmodulus : ∀ recipient ∈ recipients, recipient.rsaPublicKey.modulus.size ≤ 2 ^ 16)
    (hsize : (writePacket tag body).length + 41 < 2 ^ 32)
    (h : protectedMessage P message recipients cipher.octet (writePacket tag body) = some file)
    (wantSignature : Bool) : openMessage P key file wantSignature = .ok none := by
  obtain ⟨pkesks, hbuilt, rfl, hpackets⟩ := protectedMessage_packets hmodulus hsize h
  have hat := at_whole (pkesks ++ seipPacket P (message.sessionKeyFor cipher.octet)
    message.prefixOctets (writePacket tag body))
  rw [List.append_assoc] at hat
  obtain ⟨pos, hpos, hskipped⟩ := findSessionKey_skip key none
    (message.length_sessionKeyFor_le cipher.octet) hmodulus (.inr hskip) hbuilt hat
  have hend := findSessionKey_end P key none (by decide) (by decide)
    (by simpa [length_plainForCfb] using hsize) hpos
  simp only [openMessage, reassembledOr_packets hpackets, hskipped, hend, Option.bind_none]

/-- Whoever tries all of its subkeys reads what is protected, where one of them is addressed. -/
theorem anyOwnSubkey_protected {impl : Impl} {content : Bytes} (hlawful : P.Lawful)
    (hkeys : OwnKeysGenerated P impl) (hgenerated : impl.ownKeyGenerated = true)
    (howns : OwnsKeyIds P impl recipients)
    (hmodulus : ∀ recipient ∈ recipients, recipient.rsaPublicKey.modulus.size ≤ 2 ^ 16)
    (hsize : (writePacket tag body).length + 41 < 2 ^ 32)
    (h : protectedMessage P message recipients cipher.octet (writePacket tag body) = some file)
    (hholds : parseProtected P (plainForCfb P message.prefixOctets (writePacket tag body)) false =
      .ok (some (literalBody content, none))) :
    ((∃ subkey ∈ impl.ownSubkeys, ∃ recipient ∈ recipients, recipient.keyId = subkey.keyId) →
      parseAndDecryptMessageWithAnyOwnSubkey P impl file false = .ok (some content, none)) ∧
    (¬ (∃ subkey ∈ impl.ownSubkeys, ∃ recipient ∈ recipients, recipient.keyId = subkey.keyId) →
      parseAndDecryptMessageWithAnyOwnSubkey P impl file false = .ok (none, none)) := by
  have hopens {subkey : PgpOwnSubkey} (hmem : subkey ∈ impl.ownSubkeys)
      (hkeyId : ∃ recipient ∈ recipients, recipient.keyId = subkey.keyId) :
      parseAndDecryptMessage P (subkey.decryptionKey impl.keyAlgorithm) file false =
        .ok (some content, none) := by
    have haddressed := addressed_of_keyId hkeys howns hmodulus hmem hkeyId
    rw [parseAndDecryptMessage, openMessage_protected hlawful haddressed hsize h, hholds]
    simp only [Except.map, literalContent_literalBody]
  have hskips {subkey : PgpOwnSubkey}
      (hnone : ¬ ∃ recipient ∈ recipients, recipient.keyId = subkey.keyId) :
      parseAndDecryptMessage P (subkey.decryptionKey impl.keyAlgorithm) file false =
        .ok (none, none) := by
    have hskip : ∀ recipient ∈ recipients,
        recipient.keyId ≠ (subkey.decryptionKey impl.keyAlgorithm).keyId :=
      fun recipient hmem hsame => hnone ⟨recipient, hmem, hsame⟩
    rw [parseAndDecryptMessage, openMessage_protected_unaddressed hskip hmodulus hsize h]
    rfl
  constructor
  · rintro ⟨chosen, hchosen, hkeyId⟩
    apply @anyOwnSubkey_opens P impl hkeys hgenerated chosen hchosen file false (content, none)
      (hopens hchosen hkeyId)
    intro other hother
    by_cases haddressed : ∃ recipient ∈ recipients, recipient.keyId = other.keyId
    · exact .inl (hopens hother haddressed)
    · exact .inr (hskips haddressed)
  · intro hnone
    apply tryKeys_none
    intro key hkey
    obtain ⟨subkey, hmem, rfl⟩ := hkeys.tried hgenerated hkey
    exact hskips fun haddressed => hnone ⟨subkey, hmem, haddressed⟩

end Messages

/-! ### From a file to a buffer -/

section Owner

variable {P : Primitives} {owner sender : Impl} {now : UInt32} {block file : Buffer}
  {message : MessageEnv} {tag : UInt8} {body content : Bytes}

/-- An identity reads in a buffer what was written to any of its subkeys. -/
theorem Published.opens_protected (hlawful : P.Lawful) (hpublished : Published P owner block)
    (hsender : Sender P owner now sender)
    (husable : ∃ subkey ∈ owner.ownSubkeys, subkey.usable now = true ∧
      subkey.isEd25519Sign = false)
    (hsize : (writePacket tag body).length + 41 < 2 ^ 32)
    (h : protectedMessage P message sender.recipients sender.symmetricCipherPreference.octet
      (writePacket tag body) = some file.1)
    (hholds : parseProtected P (plainForCfb P message.prefixOctets (writePacket tag body)) false =
      .ok (some (literalBody content, none))) :
    parseAndDecryptMessageWithAnyOwnSubkey P owner file.1 false = .ok (some content, none) := by
  have hkeys := hpublished.reachable.ownKeysGenerated
  obtain ⟨howns, haddressed⟩ := hsender.ownsKeyIds hkeys hpublished.distinct husable
  exact (anyOwnSubkey_protected hlawful hkeys hpublished.generated howns hsender.sized hsize h
    hholds).1 haddressed

theorem length_protectedMessage {recipients : List PgpEncryptionRecipient}
    {cipherAlgorithmOctet : UInt8} {packet sent : Bytes}
    (h : protectedMessage P message recipients cipherAlgorithmOctet packet = some sent) :
    packet.length + 41 < sent.length := by
  obtain ⟨pkesks, -, rfl⟩ := Option.map_eq_some_iff.mp h
  have hwritten := length_writePacket PGP_TAG_SEIP (1 :: cfbEncrypt P
    (message.sessionKeyFor cipherAlgorithmOctet) (Octets.zero 16)
      (plainForCfb P message.prefixOctets packet))
  rw [List.length_cons, length_cfbEncrypt, length_plainForCfb, packetSize] at hwritten
  rw [List.length_append, seipPacket]
  omega

variable (P message) in
/-- One of the two calls that encrypt a file has written `sent` for `content`. -/
def FileSent (sender : Impl) (content sent : Bytes) : Prop :=
  ∃ plainFilePath sentFilePath sentFiles sentFiles' sentPath, sentFiles' sentPath = some sent ∧
    ((∃ env : EncryptFileEnv, OpensFor env plainFilePath sentFilePath sentFiles content sentPath ∧
      EncryptFile P message plainFilePath sentFilePath sender sentFiles env =
        (NO_ERROR, sentFiles')) ∨
    ∃ (env : CompressedFileEnv) (deflators : Deflators P)
      (compressionAlgorithm : PgpFileCompressionAlgorithm),
      OpensFor env.toEncryptFileEnv plainFilePath sentFilePath sentFiles content sentPath ∧
      EncryptFileCompressed message plainFilePath sentFilePath sender sentFiles deflators
        compressionAlgorithm env = (NO_ERROR, sentFiles'))

/-- Both write a message whose protected packet is read as the literal packet around the
content. -/
theorem FileSent.written {sent : Bytes} (h : FileSent P message sender content sent) :
    ∃ tag body,
      protectedMessage P message sender.recipients sender.symmetricCipherPreference.octet
        (writePacket tag body) = some sent ∧
      (content.length + 6 < 2 ^ 32 → body.length < 2 ^ 32 → parseProtected P
        (plainForCfb P message.prefixOctets (writePacket tag body)) false =
          .ok (some (literalBody content, none))) := by
  have hliteral (hcontent : content.length + 6 < 2 ^ 32) :
      (literalBody content).length < 2 ^ 32 := by
    rw [length_literalBody]
    exact hcontent
  obtain ⟨_, _, _, _, _, hfile, ⟨_, hopens, hcall⟩ | ⟨_, deflators, algorithm, hopens, hcall⟩⟩ := h
  · exact ⟨PGP_TAG_LITERAL_DATA, literalBody content, EncryptFile_written hopens hcall hfile,
      fun _ hbody => parseProtected_literal _ hbody false⟩
  · refine ⟨PGP_TAG_COMPRESSED_DATA, _, EncryptFileCompressed_written hopens hcall hfile,
      fun hcontent hbody => ?_⟩
    rw [parseProtected_compressed _ hbody (deflators.decompressBody_whole algorithm _)
      (.single (by decide) (hliteral hcontent)),
      parseDecompressedPackets_literal (hliteral hcontent)]

/-- What was encrypted to a file is decrypted in a buffer, whichever subkey it is for. -/
theorem DecryptBuffer_sent (hlawful : P.Lawful) (hpublished : Published P owner block)
    (husable : ∃ subkey ∈ owner.ownSubkeys, subkey.usable now = true ∧
      subkey.isEd25519Sign = false)
    (hsender : Sender P owner now sender) (hsent : FileSent P message sender content file.1)
    {password : Bytes} (hne : password ≠ [])
    (hpassword : checkPasswordHash P owner.passwordCheckHash password = true) {capacity : Int32}
    (hcapacity : (content.length : ℤ) ≤ capacity.toInt) :
    DecryptBuffer P password file (some capacity) owner = .ok (delivered content) := by
  have hfile := file.2
  have hroom := capacity.toInt_lt
  obtain ⟨tag, body, hmessage, hreads⟩ := hsent.written
  have hlength := length_protectedMessage hmessage
  have hbody := length_writePacket tag body
  rw [packetSize] at hbody
  exact DecryptBuffer_opens hpublished.generated hne hpassword
    (List.length_pos_iff.mp (by omega)) (hpublished.opens_protected hlawful hsender husable
      (by omega) hmessage (hreads (by omega) (by omega))) hcapacity

/-- The front and the protected packet are all there is. -/
theorem FrontFits.length_lt {recipients : List PgpEncryptionRecipient}
    {cipherAlgorithmOctet : UInt8} {packet sent : Bytes}
    (hfits : FrontFits P message recipients cipherAlgorithmOctet packet)
    (h : protectedMessage P message recipients cipherAlgorithmOctet packet = some sent) :
    sent.length < PREFIX_SIZE + packet.length + 47 := by
  obtain ⟨pkesks, hbuilt, hfront⟩ := hfits
  obtain ⟨pkesks', hbuilt', rfl⟩ := Option.map_eq_some_iff.mp h
  obtain rfl := Option.some.inj (hbuilt.symm.trans hbuilt')
  have hseip := writePacket_length_le PGP_TAG_SEIP (1 :: cfbEncrypt P
    (message.sessionKeyFor cipherAlgorithmOctet) (Octets.zero 16)
      (plainForCfb P message.prefixOctets packet))
  rw [List.length_cons, length_cfbEncrypt, length_plainForCfb] at hseip
  rw [List.length_append, seipPacket]
  omega

theorem DecryptBuffer_sent_hi : ∃ (importer : Impl) (file : Buffer),
    FileSent standIn mixedEnv importer (ascii "hi") file.1 ∧
    DecryptBuffer standIn (ascii "pw") file (some 2) shortLivedOwner =
      .ok (delivered (ascii "hi")) := by
  have hserves := servingSendEnv_serves (ascii "hi")
  obtain ⟨importer, hsender, halone⟩ := shortLivedOwner_imported
  obtain ⟨-, -, hmessages⟩ := shortLivedOwner_reached hsender halone
  obtain ⟨file, hmessage, hfits⟩ :=
    hmessages (writePacket PGP_TAG_LITERAL_DATA (literalBody (ascii "hi")))
  have hsent := (EncryptFile_noError_iff hserves.toServes).mpr
    ⟨hsender.imported, file, hmessage, rfl⟩
  have hlength := hfits.length_lt hmessage
  have hpacket : (writePacket PGP_TAG_LITERAL_DATA (literalBody (ascii "hi"))).length = 10 := rfl
  have hfile : FileSent standIn mixedEnv importer (ascii "hi") file :=
    ⟨_, _, _, _, _, Function.update_self .., .inl ⟨_, hserves.toOpensFor, hsent⟩⟩
  exact ⟨importer, ⟨file, by rw [PREFIX_SIZE] at hlength; omega⟩, hfile, DecryptBuffer_sent
    standIn_lawful shortLivedOwner_published shortLivedOwner_usable hsender hfile (by decide)
    shortLivedOwner_password (by decide)⟩

end Owner

/-! ### From a buffer to a file -/

section Buffers

variable {P : Primitives} {message : MessageEnv} {inflators : Inflators P} {env : FileEnv}
  {password inputFilePath outputFilePath : Bytes} {impl sender : Impl} {document : Buffer}
  {buffer : Option Int32} {outcome : Outcome} {files files' : FileSystem} {outputPath : WidePath}

/-- The file call takes a message that was built in memory as it takes one that was written to a
file. -/
theorem DecryptFile_EncryptBuffer_iff (hlawful : P.Lawful)
    (hencrypt : EncryptBuffer P message document buffer sender = .ok outcome)
    (hstatus : outcome.status = NO_ERROR)
    (hserves : env.Serves inputFilePath outputFilePath files outcome.output outputPath)
    (hreader : Reader P impl password sender.recipients) :
    DecryptFile P inflators env password inputFilePath outputFilePath impl files =
        (NO_ERROR, files') ↔
      (∃ recipient ∈ sender.recipients, recipient.keyId = impl.flatDecryptionKey.keyId) ∧
        FrontFits P message sender.recipients sender.symmetricCipherPreference.octet
          (compressedPacket P (writePacket PGP_TAG_LITERAL_DATA (literalBody document.1))) ∧
        3 ≤ (P.deflate (writePacket PGP_TAG_LITERAL_DATA (literalBody document.1))).length ∧
        files' = files.moved outputPath document.1 := by
  have hdocument := document.2
  obtain ⟨built, hbuild, rfl⟩ := EncryptBuffer_noError hencrypt hstatus
  obtain ⟨hliteral, hdeflated, hmessage⟩ :=
    buildEncryptedMessage_content hlawful hdocument hbuild
  have hwhole : decompressBody P 1
      (P.deflate (writePacket PGP_TAG_LITERAL_DATA (literalBody document.1))) =
        some (writePacket PGP_TAG_LITERAL_DATA (literalBody document.1)) :=
    hlawful.inflate_deflate _
  exact DecryptFile_compressed_iff hlawful hserves hreader hmessage hwhole (by omega) (by omega)

/-- Somebody encrypts a short text for the identity whose subkey expires. -/
theorem shortLivedOwner_encrypts {importer : Impl}
    (hsender : Sender standIn shortLivedOwner 1500 importer)
    (halone : importer.additionalRecipients = []) : ∃ message : Buffer,
    EncryptBuffer standIn mixedEnv ⟨ascii "hi", by decide⟩ (some Int32.maxValue) importer =
      .ok (delivered message.1) ∧
    FrontFits standIn mixedEnv importer.recipients importer.symmetricCipherPreference.octet
      (compressedPacket standIn (writePacket PGP_TAG_LITERAL_DATA (literalBody (ascii "hi")))) := by
  obtain ⟨-, -, hmessages⟩ := shortLivedOwner_reached hsender halone
  obtain ⟨message, hmessage, hfits⟩ := hmessages
    (compressedPacket standIn (writePacket PGP_TAG_LITERAL_DATA (literalBody (ascii "hi"))))
  have hlength := hfits.length_lt hmessage
  have hpacket : (compressedPacket standIn (writePacket PGP_TAG_LITERAL_DATA
      (literalBody (ascii "hi")))).length = 13 := rfl
  have hbuild : buildEncryptedMessageMultiRecipient standIn mixedEnv importer.recipients
      importer.symmetricCipherPreference.octet (⟨ascii "hi", by decide⟩ : Buffer).1 =
        some message :=
    (if_neg (List.cons_ne_nil _ _)).trans hmessage
  refine ⟨⟨message, by rw [PREFIX_SIZE] at hlength; omega⟩, ?_, hfits⟩
  rw [EncryptBuffer_some hsender.imported _ hbuild]
  exact deliver_maxValue _ ⟨message, by rw [PREFIX_SIZE] at hlength; omega⟩

theorem DecryptFile_EncryptBuffer_hi : ∃ importer outcome,
    EncryptBuffer standIn mixedEnv ⟨ascii "hi", by decide⟩ (some Int32.maxValue) importer =
      .ok outcome ∧ outcome.status = NO_ERROR ∧
    DecryptFile standIn standInInflators servingEnv (ascii "pw") (ascii "a") (ascii "b")
      shortLivedOwner (fileAtA outcome.output) =
        (NO_ERROR, (fileAtA outcome.output).moved [98] (ascii "hi")) := by
  obtain ⟨importer, hsender, halone⟩ := shortLivedOwner_imported
  obtain ⟨hreader, haddressed, -⟩ := shortLivedOwner_reached hsender halone
  obtain ⟨message, hencrypt, hfits⟩ := shortLivedOwner_encrypts hsender halone
  exact ⟨importer, _, hencrypt, rfl, (DecryptFile_EncryptBuffer_iff standIn_lawful hencrypt rfl
    (servingEnv_serves message.1) hreader).mpr ⟨haddressed, hfits, by decide, rfl⟩⟩

/-- A packet that was written behind another one is not the first. -/
theorem IsPacket.tag_eq {tag tag' : UInt8} {body body' rest : Bytes}
    (h : IsPacket tag body (writePacket tag' body' ++ rest)) (htag : tag' < 64)
    (hbody : body'.length < 2 ^ 32) : tag = tag' := by
  obtain ⟨header, length, ahead, hheader, -, hoctets⟩ := isPacket_iff.mp h
  rw [← packetHeaderFor_append, List.append_assoc] at hoctets
  exact ((headerOf_writePacket htag hbody).unique hheader hoctets).1.symm

theorem EncryptAndSignBuffer_accepted {signPassword : Bytes}
    (h : EncryptAndSignBuffer P message signPassword document buffer sender = .ok outcome)
    (hstatus : outcome.status = NO_ERROR) : rejects P sender signPassword = false := by
  by_contra hrejects
  rw [EncryptAndSignBuffer, if_pos (.inr (Bool.not_eq_false _ ▸ hrejects))] at h
  obtain rfl := Except.ok.inj h
  cases hstatus

/-- A short document is encrypted and signed for an RSA identity. -/
theorem Published.signed_message {owner : Impl} {now : UInt32} {block : Buffer}
    (hlawful : P.Lawful) (hpublished : Published P owner block)
    (halgorithm : owner.keyAlgorithm = PGP_KEY_ALGORITHM_RSA)
    (husable : ∃ subkey ∈ owner.ownSubkeys, subkey.usable now = true ∧
      subkey.isEd25519Sign = false)
    (hsender : Sender P owner now sender) (halone : sender.additionalRecipients = [])
    (hreachable : Reachable P sender) {signPassword : Bytes}
    (hpasses : rejects P sender signPassword = false) (env : MessageEnv) (document : Buffer)
    (hshort : document.1.length ≤ 2 ^ 16) : ∃ message : Buffer,
      EncryptAndSignBuffer P env signPassword document (some Int32.maxValue) sender =
        .ok (delivered message.1) := by
  have hkeys := hreachable.ownKeysGenerated
  have hgenerated := ownKeyGenerated_of_not_rejects hpasses
  obtain ⟨_, hactive⟩ := hkeys.active hgenerated
  have hsigned := hactive.sign_ne_nil hlawful 0 document.1 [] env.now
  -- the three packets are short, so that the message has an int length
  have hsignature := SigningKey.length_sign P (hkeys.activeModulus_size hgenerated) 0 document.1
    env.now
  have honePass : (selectActiveSigningKeyMaterial sender).onePass.length ≤ 13 + 6 := by
    refine (writePacket_length_le _ _).trans ?_
    simp
  have hliteral := writePacket_length_le PGP_TAG_LITERAL_DATA (literalBody document.1)
  rw [length_literalBody] at hliteral
  generalize hpackets : (selectActiveSigningKeyMaterial sender).onePass ++
    writePacket PGP_TAG_LITERAL_DATA (literalBody document.1) ++
      (selectActiveSigningKeyMaterial sender).sign P 0 document.1 [] env.now = packets
  have hlength := congrArg List.length hpackets
  rw [List.length_append, List.length_append] at hlength
  have hdeflated := hlawful.deflate_length packets
  have hcompressed := writePacket_length_le PGP_TAG_COMPRESSED_DATA (1 :: P.deflate packets)
  rw [List.length_cons] at hcompressed
  obtain ⟨message, hmessage⟩ := hpublished.message_rsa hlawful halgorithm hsender halone husable env
    sender.symmetricCipherPreference (compressedPacket P packets)
  have hwhole := (frontFits_of_few (hpublished.modulus_size hsender halone husable)
    (by simp [Impl.recipients, halone]) hmessage).length_lt hmessage
  rw [PREFIX_SIZE, compressedPacket] at hwhole
  have hbuild : buildEncryptedSignedMessageMultiRecipient P env sender.recipients
      (selectActiveSigningKeyMaterial sender) sender.symmetricCipherPreference.octet document.1 =
        some message := by
    rw [buildEncryptedSignedMessageMultiRecipient, if_neg (by simp [Impl.recipients])]
    dsimp only
    rw [if_neg hsigned, hpackets]
    exact hmessage
  refine ⟨⟨message, by omega⟩, ?_⟩
  rw [EncryptAndSignBuffer_some hsender.imported hpasses _ hbuild]
  exact deliver_maxValue _ ⟨message, by omega⟩

/-- What is encrypted and signed the file call never takes, whatever the system does: it looks for
the literal packet at the start of what was compressed. -/
theorem DecryptFile_EncryptAndSignBuffer {signPassword : Bytes} {inputPath : WidePath}
    (hlawful : P.Lawful) (hreachable : Reachable P sender)
    (hencrypt : EncryptAndSignBuffer P message signPassword document buffer sender = .ok outcome)
    (hstatus : outcome.status = NO_ERROR) (hreader : Reader P impl password sender.recipients)
    (hinput : env.widePath inputFilePath = some inputPath)
    (hcontent : files inputPath = some outcome.output) :
    (DecryptFile P inflators env password inputFilePath outputFilePath impl files).1 ≠
      NO_ERROR := by
  obtain ⟨built, hbuild, rfl⟩ := EncryptAndSignBuffer_noError hencrypt hstatus
  have hmodulus := hreachable.ownKeysGenerated.activeModulus_size
    (ownKeyGenerated_of_not_rejects (EncryptAndSignBuffer_accepted hencrypt hstatus))
  obtain ⟨-, onePassBody, sigBody, -, -, honePass, -, -, hdeflated, hmessage⟩ :=
    buildEncryptedSignedMessage_content hlawful document.2 hmodulus hbuild
  generalize hpackets : writePacket PGP_TAG_ONE_PASS_SIG onePassBody ++
    writePacket PGP_TAG_LITERAL_DATA (literalBody document.1) ++
      writePacket PGP_TAG_SIGNATURE sigBody = packets at hdeflated hmessage
  intro hnoError
  obtain ⟨inputPath', outputPath, content, written, hreaches, -⟩ | ⟨hfailed, -⟩ :=
    @DecryptFile_cases P inflators env password inputFilePath outputFilePath impl files
  swap
  · exact hfailed hnoError
  obtain rfl := Option.some.inj (hinput.symm.trans hreaches.input)
  obtain rfl := Option.some.inj (hcontent.symm.trans hreaches.content_eq)
  obtain ⟨header, hparse, hstream⟩ := hreaches.streamed
  have hcompressed := writePacket_length_le PGP_TAG_COMPRESSED_DATA (1 :: P.deflate packets)
  rw [List.length_cons] at hcompressed
  obtain ⟨-, -, encrypted, hencLength, hstart, -, hdeciphered⟩ :=
    @parseEncryptedFileHeader_message P message sender.recipients _ PGP_TAG_COMPRESSED_DATA
      (1 :: P.deflate packets) _ password impl header hlawful hreader hmessage (by omega) hparse
  obtain ⟨trailer, hencloses⟩ := plainForCfb_encloses P message.prefixOctets
    (show PGP_TAG_COMPRESSED_DATA < 64 by decide)
    (show (1 :: P.deflate packets).length < 2 ^ 32 by rw [List.length_cons]; omega)
  rw [← hdeciphered] at hencloses
  have hauthentic := decryptSeipBodyStreaming_sound hencLength hstart hencloses hstream
  rw [hdeciphered] at hauthentic
  obtain ⟨htag, -⟩ | ⟨-, compAlgo, compData, decompressed, literal, hbody, hwhole, hliteral, -⟩ :=
    hauthentic.holds (by decide)
  · cases htag
  obtain ⟨rfl, rfl⟩ := List.cons.inj hbody
  obtain rfl := Option.some.inj ((hlawful.inflate_deflate packets).symm.trans hwhole)
  -- the first packet is the announcement of the signature
  rw [← hpackets, List.append_assoc] at hliteral
  exact absurd (hliteral.tag_eq (by decide) honePass) (by decide)

theorem Reachable.importPeerPublicKey (h : Reachable P impl) (now : UInt32) (block : Buffer) :
    Reachable P (ImportPeerPublicKey P now block impl).2 :=
  .call h (Env.numbered now 0) (.importPeerPublicKey block)

/-- The identity writes to itself, and signs. -/
theorem DecryptFile_EncryptAndSignBuffer_hi : ∃ writer outcome,
    EncryptAndSignBuffer standIn mixedEnv (ascii "pw") ⟨ascii "hi", by decide⟩
      (some Int32.maxValue) writer = .ok outcome ∧ outcome.status = NO_ERROR ∧
    (DecryptFile standIn standInInflators servingEnv (ascii "pw") (ascii "a") (ascii "b")
      shortLivedOwner (fileAtA outcome.output)).1 ≠ NO_ERROR := by
  obtain ⟨hsender, halone⟩ := shortLivedOwner_published.sender_only 1500 shortLivedOwner
    (by decide +kernel)
  have hreachable := shortLivedOwner_published.reachable.importPeerPublicKey 1500 shortLivedBlock
  have hpasses := rejects_eq_false shortLivedOwner_published.generated (by decide)
    shortLivedOwner_password
  rw [shortLivedOwner_published.import] at hsender halone hreachable
  generalize (exportedIdentity shortLivedOwner).chooseSubkey 1500 = parsed
    at hsender halone hreachable
  rw [← rejects_importPeer standIn shortLivedOwner parsed] at hpasses
  generalize shortLivedOwner.importPeer parsed = writer at hsender halone hreachable hpasses
  dsimp only at hsender halone hreachable
  obtain ⟨message, hencrypt⟩ := shortLivedOwner_published.signed_message standIn_lawful
    (by decide +kernel) shortLivedOwner_usable hsender halone hreachable hpasses mixedEnv
    ⟨ascii "hi", by decide⟩ (by decide)
  obtain ⟨hreader, -, -⟩ := shortLivedOwner_reached hsender halone
  exact ⟨writer, _, hencrypt, rfl, DecryptFile_EncryptAndSignBuffer standIn_lawful hreachable
    hencrypt rfl hreader servingEnv_input rfl⟩

end Buffers

end HashCryptoLib.Pgp
