import HashCryptoLib.Pgp.FileExactness

/-!
From one file to another and back. The streamed decryption opens what the encrypting calls write
exactly where the first subkey is among the recipients and the front of the file is short enough,
and it gives back what was encrypted. Of the messages that are built in memory it opens those
without a signature.
-/

namespace HashCryptoLib.Pgp

open BigEndian Chunks Cursor Results

section Message

variable {P : Primitives} {message : MessageEnv} {recipients : List PgpEncryptionRecipient}
  {cipher : PgpSymmetricAlgorithm} {tag : UInt8} {body file : Bytes} {inflators : Inflators P}
  {env : FileEnv} {password inputFilePath outputFilePath : Bytes} {impl : Impl}
  {files files' : FileSystem} {outputPath : WidePath}

/-- The one who decrypts: its password is right, and no recipient but its first subkey has the key
ID of that. -/
structure Reader (P : Primitives) (impl : Impl) (password : Bytes)
    (recipients : List PgpEncryptionRecipient) : Prop where
  accepted : rejects P impl password = false
  own : KeyIdIsOwn P impl.flatDecryptionKey recipients
  modulus_size : ∀ recipient ∈ recipients, recipient.rsaPublicKey.modulus.size ≤ 2 ^ 16

/-- Where a written message can be read: it is for the first subkey, its front is read in one
piece, and the packet in it has six octets at least. -/
structure Readable (P : Primitives) (impl : Impl) (message : MessageEnv)
    (recipients : List PgpEncryptionRecipient) (cipherAlgorithmOctet : UInt8) (packet : Bytes) :
    Prop where
  addressed : ∃ recipient ∈ recipients, recipient.keyId = impl.flatDecryptionKey.keyId
  front : FrontFits P message recipients cipherAlgorithmOctet packet
  long : 6 ≤ packet.length

/-- Where the front of a written message was taken, it is for the first subkey, and what is read
behind it is what was protected. -/
theorem parseEncryptedFileHeader_message {header : DecryptFileHeader} (hlawful : P.Lawful)
    (hreader : Reader P impl password recipients)
    (hmessage : protectedMessage P message recipients cipher.octet (writePacket tag body) =
      some file) (hsize : (writePacket tag body).length + 41 < 2 ^ 32)
    (hparse : parseEncryptedFileHeader P impl.flatDecryptionKey file = some header) :
    (∃ recipient ∈ recipients, recipient.keyId = impl.flatDecryptionKey.keyId) ∧
      FrontFits P message recipients cipher.octet (writePacket tag body) ∧
      ∃ encrypted, encrypted.length = header.encLength ∧
        (startReader P header (file.drop header.filePos)).Reads P header encrypted ∧
        encrypted.length = (writePacket tag body).length + 40 ∧
        decipheredData P header encrypted =
          plainForCfb P message.prefixOctets (writePacket tag body) := by
  obtain ⟨-, hown, hmodulus⟩ := hreader
  obtain ⟨found, pos, hfind, hkey, hreads⟩ := parseEncryptedFileHeader_reads hparse
  obtain ⟨seip, hseip⟩ := parseEncryptedFileHeader_seip hparse hfind
  obtain ⟨haddressed, hfits⟩ := findFileSessionKey_message_only hlawful hmodulus hown hsize hmessage
    hfind (by rintro rfl; cases hkey) hseip
  -- so the session key that was found is the one of the message
  obtain ⟨found', pos', encrypted, hfind', hkey', hprotected, -, hlength, hplain⟩ :=
    findFileSessionKey_message hlawful hmodulus hown hsize hmessage haddressed hfits
  obtain ⟨rfl, rfl⟩ := Prod.mk.inj (Option.some.inj (hfind.symm.trans hfind'))
  obtain ⟨hencLength, hstart⟩ := hreads encrypted hprotected
  refine ⟨haddressed, hfits, encrypted, hencLength, hstart, hlength, ?_⟩
  rw [← hplain, Option.some.inj (hkey'.symm.trans hkey), decipheredData]

/-- A written message is decrypted exactly where it can be read, to what the packet in it says. -/
theorem DecryptFile_message_iff (hlawful : P.Lawful)
    (hserves : env.Serves inputFilePath outputFilePath files file outputPath)
    (hreader : Reader P impl password recipients)
    (hmessage : protectedMessage P message recipients cipher.octet (writePacket tag body) =
      some file) (htag : tag < 64) (hsize : (writePacket tag body).length + 41 < 2 ^ 32) :
    DecryptFile P inflators env password inputFilePath outputFilePath impl files =
        (NO_ERROR, files') ↔
      Readable P impl message recipients cipher.octet (writePacket tag body) ∧
        ∃ plaintext, Holds P tag body plaintext ∧ files' = files.moved outputPath plaintext := by
  have hbody : body.length < 2 ^ 32 := by
    have hwritten := length_writePacket tag body
    rw [packetSize] at hwritten
    omega
  constructor
  · intro hcall
    obtain ⟨-, header, written, hparse, hstream, rfl⟩ := DecryptFile_reads hserves hcall
    obtain ⟨haddressed, hfits, encrypted, hencLength, hstart, hlength, hdeciphered⟩ :=
      parseEncryptedFileHeader_message hlawful hreader hmessage hsize hparse
    obtain ⟨trailer, hencloses⟩ := plainForCfb_encloses P message.prefixOctets htag hbody
    rw [← hdeciphered] at hencloses
    obtain ⟨hlong, hauthentic⟩ := (decryptSeipBodyStreaming_ok_iff hserves.unfailing hencLength
      hstart hencloses).mp hstream
    rw [hdeciphered, authenticStream_plainForCfb_iff _ htag hbody] at hauthentic
    exact ⟨⟨haddressed, hfits, by omega⟩, written, hauthentic, rfl⟩
  · rintro ⟨⟨haddressed, hfits, hlong⟩, plaintext, hholds, rfl⟩
    exact DecryptFile_says hserves hreader.accepted (says_of_message hlawful hreader.own
      hreader.modulus_size htag hsize hlong hmessage haddressed hfits hholds).1

end Message

section Packets

variable {P : Primitives} {message : MessageEnv} {recipients : List PgpEncryptionRecipient}
  {cipher : PgpSymmetricAlgorithm} {file content : Bytes} {inflators : Inflators P}
  {env : FileEnv} {password inputFilePath outputFilePath : Bytes} {impl : Impl}
  {files files' : FileSystem} {outputPath : WidePath}

/-- A message around a literal packet. -/
theorem DecryptFile_literal_iff (hlawful : P.Lawful)
    (hserves : env.Serves inputFilePath outputFilePath files file outputPath)
    (hreader : Reader P impl password recipients)
    (hmessage : protectedMessage P message recipients cipher.octet
      (writePacket PGP_TAG_LITERAL_DATA (literalBody content)) = some file)
    (hsize : content.length + 53 < 2 ^ 32) :
    DecryptFile P inflators env password inputFilePath outputFilePath impl files =
        (NO_ERROR, files') ↔
      (∃ recipient ∈ recipients, recipient.keyId = impl.flatDecryptionKey.keyId) ∧
        FrontFits P message recipients cipher.octet
          (writePacket PGP_TAG_LITERAL_DATA (literalBody content)) ∧
        files' = files.moved outputPath content := by
  have hpacket := length_writePacket PGP_TAG_LITERAL_DATA (literalBody content)
  rw [length_literalBody, packetSize] at hpacket
  rw [DecryptFile_message_iff hlawful hserves hreader hmessage (by decide)
    (by rw [length_writePacket, length_literalBody]; exact protectedSize_fits_iff.mpr hsize)]
  constructor
  · rintro ⟨⟨haddressed, hfits, -⟩, plaintext, hholds, rfl⟩
    rw [holds_literalBody_iff.mp hholds]
    exact ⟨haddressed, hfits, rfl⟩
  · rintro ⟨haddressed, hfits, rfl⟩
    exact ⟨⟨haddressed, hfits, by omega⟩, content, holds_literalBody_iff.mpr rfl, rfl⟩

/-- A message around a compressed literal packet. What the compressor puts out has three octets
at least. -/
theorem DecryptFile_compressed_iff (hlawful : P.Lawful)
    (hserves : env.Serves inputFilePath outputFilePath files file outputPath)
    (hreader : Reader P impl password recipients) {compAlgo : UInt8} {compressed : Bytes}
    (hmessage : protectedMessage P message recipients cipher.octet
      (writePacket PGP_TAG_COMPRESSED_DATA (compAlgo :: compressed)) = some file)
    (hwhole : decompressBody P compAlgo compressed =
      some (writePacket PGP_TAG_LITERAL_DATA (literalBody content)))
    (hsize : content.length + 6 < 2 ^ 32) (hfits : compressed.length + 48 < 2 ^ 32) :
    DecryptFile P inflators env password inputFilePath outputFilePath impl files =
        (NO_ERROR, files') ↔
      (∃ recipient ∈ recipients, recipient.keyId = impl.flatDecryptionKey.keyId) ∧
        FrontFits P message recipients cipher.octet
          (writePacket PGP_TAG_COMPRESSED_DATA (compAlgo :: compressed)) ∧
        3 ≤ compressed.length ∧ files' = files.moved outputPath content := by
  have hliteral : (literalBody content).length < 2 ^ 32 := by
    rw [length_literalBody]
    exact hsize
  have hpacket := length_writePacket PGP_TAG_COMPRESSED_DATA (compAlgo :: compressed)
  rw [List.length_cons, packetSize] at hpacket
  have hlong : 6 ≤ (writePacket PGP_TAG_COMPRESSED_DATA (compAlgo :: compressed)).length ↔
      3 ≤ compressed.length := by
    rw [hpacket]
    split_ifs <;> omega
  rw [DecryptFile_message_iff hlawful hserves hreader hmessage (by decide)
    (by rw [length_writePacket, List.length_cons]; exact protectedSize_fits_iff.mpr hfits)]
  constructor
  · rintro ⟨⟨haddressed, hfront, hsix⟩, plaintext, hholds, rfl⟩
    rw [(holds_compressed_iff hliteral hwhole).mp hholds]
    exact ⟨haddressed, hfront, hlong.mp hsix, rfl⟩
  · rintro ⟨haddressed, hfront, hthree, rfl⟩
    exact ⟨⟨haddressed, hfront, hlong.mpr hthree⟩, content,
      (holds_compressed_iff hliteral hwhole).mpr rfl, rfl⟩

end Packets

/-! ### An identity and its sender -/

section Owner

variable {P : Primitives} {owner sender : Impl} {now : UInt32} {block : Buffer}

/-- An identity with a usable subkey that encrypts can read what is sent to it. -/
theorem Published.reader (hpublished : Published P owner block) (hsender : Sender P owner now sender)
    (husable : ∃ subkey ∈ owner.ownSubkeys, subkey.usable now = true ∧
      subkey.isEd25519Sign = false) {password : Bytes}
    (haccepted : rejects P owner password = false) : Reader P owner password sender.recipients := by
  have hkeys := hpublished.reachable.ownKeysGenerated
  refine ⟨haccepted, ?_, hsender.sized⟩
  intro recipient hmem hsame
  obtain ⟨subkey, hsubkey, hflat⟩ := hkeys.tried hpublished.generated List.mem_cons_self
  rw [hflat] at hsame ⊢
  obtain ⟨hencrypts, hrecipient⟩ :=
    (hsender.ownsKeyIds hkeys hpublished.distinct husable).1 recipient hmem subkey hsubkey hsame
  exact ⟨(hkeys.subkeys subkey hsubkey).decryptionKey hencrypts, hrecipient⟩

/-- The one recipient has a key of a common size. -/
theorem Published.modulus_size (hpublished : Published P owner block)
    (hsender : Sender P owner now sender) (halone : sender.additionalRecipients = [])
    (husable : ∃ subkey ∈ owner.ownSubkeys, subkey.usable now = true ∧
      subkey.isEd25519Sign = false) :
    ∀ recipient ∈ sender.recipients, recipient.rsaPublicKey.modulus.size ≤ 4096 := by
  have hkeys := hpublished.reachable.ownKeysGenerated
  obtain ⟨usable, hmem, husable, hencrypts⟩ := husable
  obtain ⟨chosen, hchosen, hchosenEncrypts, heq⟩ := exportedRecipient_own hkeys hmem husable hencrypts
  rw [Impl.recipients, halone, hsender.primary, heq]
  exact List.forall_mem_singleton.mpr
    ((hkeys.subkeys chosen hchosen).decryptionKey hchosenEncrypts).modulus_size

/-- Something is always sent to an RSA identity. -/
theorem Published.message_rsa (hlawful : P.Lawful) (hpublished : Published P owner block)
    (halgorithm : owner.keyAlgorithm = PGP_KEY_ALGORITHM_RSA) (hsender : Sender P owner now sender)
    (halone : sender.additionalRecipients = [])
    (husable : ∃ subkey ∈ owner.ownSubkeys, subkey.usable now = true ∧
      subkey.isEd25519Sign = false) (message : MessageEnv) (cipher : PgpSymmetricAlgorithm)
    (packet : Bytes) :
    ∃ file, protectedMessage P message sender.recipients cipher.octet packet = some file := by
  have hkeys := hpublished.reachable.ownKeysGenerated
  obtain ⟨usable, hmem, husable, hencrypts⟩ := husable
  obtain ⟨chosen, hchosen, hchosenEncrypts, heq⟩ := exportedRecipient_own hkeys hmem husable hencrypts
  have hrsa := ((hkeys.subkeys chosen hchosen).decryptionKey hchosenEncrypts).recipient_rsa halgorithm
  obtain ⟨pkesks, hbuilt⟩ := @buildPkeskPackets_rsa P (message.sessionKeyFor cipher.octet)
    cipher.octet message.seed 0 hlawful [(chosen.decryptionKey owner.keyAlgorithm).recipient P]
    (List.forall_mem_singleton.mpr hrsa) (message.length_sessionKeyFor_le _)
  rw [Impl.recipients, halone, hsender.primary, heq]
  exact ⟨_, Option.map_eq_some_iff.mpr ⟨pkesks, hbuilt, rfl⟩⟩

theorem Impl.flatDecryptionKey_keyId (impl : Impl) :
    impl.flatDecryptionKey.keyId = impl.ownSubkeyKeyId :=
  rfl

/-- The only subkey is the first one. -/
theorem Published.exportedRecipient_sole (hpublished : Published P owner block)
    (hsole : owner.ownSubkeys.length = 1)
    (husable : ∃ subkey ∈ owner.ownSubkeys, subkey.usable now = true ∧
      subkey.isEd25519Sign = false) :
    (owner.exportedRecipient now).keyId = owner.ownSubkeyKeyId := by
  have hkeys := hpublished.reachable.ownKeysGenerated
  obtain ⟨usable, hmem, husable, hencrypts⟩ := husable
  obtain ⟨chosen, hchosen, -, heq⟩ := exportedRecipient_own hkeys hmem husable hencrypts
  obtain ⟨first, hfirst, hflat⟩ := hkeys.tried hpublished.generated List.mem_cons_self
  obtain ⟨subkey, hsubkey⟩ := List.length_eq_one_iff.mp hsole
  rw [hsubkey, List.mem_singleton] at hchosen hfirst
  rw [heq, DecryptionKey.recipient_keyId, ← owner.flatDecryptionKey_keyId, hflat, hchosen, hfirst]

end Owner

/-! ### From one file to another -/

section Calls

variable {P : Primitives} {message : MessageEnv} {inflators : Inflators P} {env : FileEnv}
  {password plainFilePath sentFilePath inputFilePath outputFilePath content file : Bytes}
  {sender receiver : Impl} {sentFiles sentFiles' files files' : FileSystem}
  {sentPath outputPath : WidePath}

/-- What is in the output file of a call that succeeded. -/
theorem EncryptFile_written {sendEnv : EncryptFileEnv}
    (hopens : OpensFor sendEnv plainFilePath sentFilePath sentFiles content sentPath)
    (hsent : EncryptFile P message plainFilePath sentFilePath sender sentFiles sendEnv =
      (NO_ERROR, sentFiles')) (hfile : sentFiles' sentPath = some file) :
    protectedMessage P message sender.recipients sender.symmetricCipherPreference.octet
      (writePacket PGP_TAG_LITERAL_DATA (literalBody content)) = some file := by
  obtain ⟨content', sentPath', file', hopens', hmessage, hcall⟩ | ⟨hstatus, -⟩ :=
    @EncryptFile_cases P message plainFilePath sentFilePath sender sentFiles sendEnv
  · obtain ⟨rfl, rfl⟩ := hopens.unique hopens'
    obtain rfl := (Prod.mk.inj (hsent.symm.trans hcall)).2
    rw [Function.update_self] at hfile
    rw [hmessage, hfile]
  · exact absurd (congrArg Prod.fst hsent) hstatus

theorem EncryptFileCompressed_written {sendEnv : CompressedFileEnv} {deflators : Deflators P}
    {compressionAlgorithm : PgpFileCompressionAlgorithm}
    (hopens : OpensFor sendEnv.toEncryptFileEnv plainFilePath sentFilePath sentFiles content
      sentPath)
    (hsent : EncryptFileCompressed message plainFilePath sentFilePath sender sentFiles deflators
      compressionAlgorithm sendEnv = (NO_ERROR, sentFiles'))
    (hfile : sentFiles' sentPath = some file) :
    protectedMessage P message sender.recipients sender.symmetricCipherPreference.octet
      (writePacket PGP_TAG_COMPRESSED_DATA (compressionAlgorithm.octet ::
        deflators.whole compressionAlgorithm
          (writePacket PGP_TAG_LITERAL_DATA (literalBody content)))) = some file := by
  obtain ⟨content', sentPath', file', hopens', hmessage, hcall⟩ | ⟨hstatus, -⟩ :=
    @EncryptFileCompressed_cases P message plainFilePath sentFilePath sender sentFiles deflators
      compressionAlgorithm sendEnv
  · obtain ⟨rfl, rfl⟩ := hopens.unique hopens'
    obtain rfl := (Prod.mk.inj (hsent.symm.trans hcall)).2
    rw [Function.update_self] at hfile
    rw [hmessage, hfile]
  · exact absurd (congrArg Prod.fst hsent) hstatus

theorem shortLivedOwner_usable : ∃ subkey ∈ shortLivedOwner.ownSubkeys,
    subkey.usable 1500 = true ∧ subkey.isEd25519Sign = false := by
  decide +kernel

theorem shortLivedOwner_sole : shortLivedOwner.ownSubkeys.length = 1 := by
  decide +kernel

/-- Somebody imports the block of the identity whose subkey expires. -/
theorem shortLivedOwner_imported : ∃ importer, Sender standIn shortLivedOwner 1500 importer ∧
    importer.additionalRecipients = [] :=
  ⟨_, shortLivedOwner_published.sender_only 1500 (Impl.new PGP_KEY_ALGORITHM_RSA 1024) rfl⟩

/-- What is sent to the identity whose subkey expires, before it does, the identity reads. -/
theorem shortLivedOwner_reached {importer : Impl}
    (hsender : Sender standIn shortLivedOwner 1500 importer)
    (halone : importer.additionalRecipients = []) :
    Reader standIn shortLivedOwner (ascii "pw") importer.recipients ∧
    (∃ recipient ∈ importer.recipients,
      recipient.keyId = shortLivedOwner.flatDecryptionKey.keyId) ∧
    ∀ packet, ∃ file, protectedMessage standIn mixedEnv importer.recipients
        importer.symmetricCipherPreference.octet packet = some file ∧
      FrontFits standIn mixedEnv importer.recipients importer.symmetricCipherPreference.octet
        packet := by
  refine ⟨shortLivedOwner_published.reader hsender shortLivedOwner_usable
    (rejects_eq_false shortLivedOwner_published.generated (by decide) shortLivedOwner_password),
    ⟨_, .head _, ?_⟩, fun packet => ?_⟩
  · rw [hsender.primary, Impl.flatDecryptionKey_keyId]
    exact shortLivedOwner_published.exportedRecipient_sole shortLivedOwner_sole
      shortLivedOwner_usable
  · obtain ⟨file, hmessage⟩ := shortLivedOwner_published.message_rsa standIn_lawful
      (by decide +kernel) hsender halone shortLivedOwner_usable mixedEnv _ packet
    exact ⟨file, hmessage, frontFits_of_few
      (shortLivedOwner_published.modulus_size hsender halone shortLivedOwner_usable)
      (by simp [Impl.recipients, halone]) hmessage⟩

/-- A system that does all it is asked for. -/
def servingSendEnv : CompressedFileEnv where
  write _ _ := true
  onProgress _ _ := true
  widePath path := some (path.map UInt8.toUInt16)
  openInput := true
  createOutput := true
  outputAfterDelete := none
  writeTemp _ _ := true
  createTemp := true
  reopenTemp := true
  readTemp := true
  deleteTemp := true
  tempAfterDelete := none

theorem servingSendEnv_serves (content : Bytes) :
    servingSendEnv.Serves (ascii "a") (ascii "c") (fileAtA content) content [99] where
  output := by decide
  input := ⟨[97], by decide, rfl, by decide⟩
  unfailing := ⟨fun _ _ => rfl, fun _ _ => rfl⟩
  opened := rfl
  created := rfl
  temp_unfailing := ⟨fun _ _ => rfl, fun _ _ => rfl⟩
  temp_created := rfl
  temp_reopened := rfl
  temp_read := rfl
  temp_ne := by decide

/-- What was encrypted from a file to a file is decrypted to the same content, exactly where the
first subkey is among the recipients and the front of the file fits. -/
theorem DecryptFile_EncryptFile_iff {sendEnv : EncryptFileEnv} (hlawful : P.Lawful)
    (hopens : OpensFor sendEnv plainFilePath sentFilePath sentFiles content sentPath)
    (hsent : EncryptFile P message plainFilePath sentFilePath sender sentFiles sendEnv =
      (NO_ERROR, sentFiles')) (hfile : sentFiles' sentPath = some file)
    (hsize : content.length + 53 < 2 ^ 32)
    (hserves : env.Serves inputFilePath outputFilePath files file outputPath)
    (hreader : Reader P receiver password sender.recipients) :
    DecryptFile P inflators env password inputFilePath outputFilePath receiver files =
        (NO_ERROR, files') ↔
      (∃ recipient ∈ sender.recipients, recipient.keyId = receiver.flatDecryptionKey.keyId) ∧
        FrontFits P message sender.recipients sender.symmetricCipherPreference.octet
          (writePacket PGP_TAG_LITERAL_DATA (literalBody content)) ∧
        files' = files.moved outputPath content :=
  DecryptFile_literal_iff hlawful hserves hreader (EncryptFile_written hopens hsent hfile) hsize

/-- A short text, encrypted and decrypted. -/
theorem DecryptFile_EncryptFile_hi : ∃ importer sentFiles' file,
    EncryptFile standIn mixedEnv (ascii "a") (ascii "c") importer (fileAtA (ascii "hi"))
      servingSendEnv.toEncryptFileEnv = (NO_ERROR, sentFiles') ∧ sentFiles' [99] = some file ∧
    DecryptFile standIn standInInflators servingEnv (ascii "pw") (ascii "a") (ascii "b")
      shortLivedOwner (fileAtA file) = (NO_ERROR, (fileAtA file).moved [98] (ascii "hi")) := by
  have hserves := servingSendEnv_serves (ascii "hi")
  obtain ⟨importer, hsender, halone⟩ := shortLivedOwner_imported
  obtain ⟨hreader, haddressed, hmessages⟩ := shortLivedOwner_reached hsender halone
  obtain ⟨file, hmessage, hfits⟩ :=
    hmessages (writePacket PGP_TAG_LITERAL_DATA (literalBody (ascii "hi")))
  have hsent := (EncryptFile_noError_iff hserves.toServes).mpr
    ⟨hsender.imported, file, hmessage, rfl⟩
  exact ⟨importer, _, file, hsent, Function.update_self .., (DecryptFile_EncryptFile_iff standIn_lawful
    hserves.toOpensFor hsent (Function.update_self ..) (by decide) (servingEnv_serves file)
    hreader).mpr ⟨haddressed, hfits, rfl⟩⟩

/-- The same for what was compressed first. -/
theorem DecryptFile_EncryptFileCompressed_iff {sendEnv : CompressedFileEnv} (hlawful : P.Lawful)
    {deflators : Deflators P} {compressionAlgorithm : PgpFileCompressionAlgorithm}
    {compressed : Bytes}
    (hopens : OpensFor sendEnv.toEncryptFileEnv plainFilePath sentFilePath sentFiles content
      sentPath)
    (hsent : EncryptFileCompressed message plainFilePath sentFilePath sender sentFiles deflators
      compressionAlgorithm sendEnv = (NO_ERROR, sentFiles'))
    (hfile : sentFiles' sentPath = some file)
    (hcompressed : deflators.whole compressionAlgorithm
      (writePacket PGP_TAG_LITERAL_DATA (literalBody content)) = compressed)
    (hsize : content.length + 6 < 2 ^ 32) (hfits : compressed.length + 48 < 2 ^ 32)
    (hserves : env.Serves inputFilePath outputFilePath files file outputPath)
    (hreader : Reader P receiver password sender.recipients) :
    DecryptFile P inflators env password inputFilePath outputFilePath receiver files =
        (NO_ERROR, files') ↔
      (∃ recipient ∈ sender.recipients, recipient.keyId = receiver.flatDecryptionKey.keyId) ∧
        FrontFits P message sender.recipients sender.symmetricCipherPreference.octet
          (writePacket PGP_TAG_COMPRESSED_DATA (compressionAlgorithm.octet :: compressed)) ∧
        3 ≤ compressed.length ∧ files' = files.moved outputPath content := by
  have hmessage := EncryptFileCompressed_written hopens hsent hfile
  have hback := deflators.decompressBody_whole compressionAlgorithm
    (writePacket PGP_TAG_LITERAL_DATA (literalBody content))
  rw [hcompressed] at hmessage hback
  exact DecryptFile_compressed_iff hlawful hserves hreader hmessage hback hsize hfits

/-- A compressor that puts out what it is given. -/
def storing : Deflating some where
  put data := data
  whole data := data
  put_append _ piece := ⟨piece, rfl⟩
  put_whole _ := ⟨[], (List.append_nil _).symm⟩
  inverse_whole _ := rfl

def standInDeflators : Deflators standIn := ⟨storing, storing⟩

/-- The same text, compressed in between. -/
theorem DecryptFile_EncryptFileCompressed_hi : ∃ importer sentFiles' file,
    EncryptFileCompressed mixedEnv (ascii "a") (ascii "c") importer (fileAtA (ascii "hi"))
      standInDeflators PGP_FILE_COMPRESSION_ALGORITHM_ZLIB servingSendEnv =
        (NO_ERROR, sentFiles') ∧ sentFiles' [99] = some file ∧
    DecryptFile standIn standInInflators servingEnv (ascii "pw") (ascii "a") (ascii "b")
      shortLivedOwner (fileAtA file) = (NO_ERROR, (fileAtA file).moved [98] (ascii "hi")) := by
  have hserves := servingSendEnv_serves (ascii "hi")
  obtain ⟨importer, hsender, halone⟩ := shortLivedOwner_imported
  obtain ⟨hreader, haddressed, hmessages⟩ := shortLivedOwner_reached hsender halone
  obtain ⟨file, hmessage, hfits⟩ := hmessages (writePacket PGP_TAG_COMPRESSED_DATA
    (2 :: writePacket PGP_TAG_LITERAL_DATA (literalBody (ascii "hi"))))
  have hsent := (@EncryptFileCompressed_noError_iff standIn mixedEnv _ _ importer _ servingSendEnv
    standInDeflators PGP_FILE_COMPRESSION_ALGORITHM_ZLIB _ _ _ hserves).mpr
    ⟨hsender.imported, file, hmessage, rfl⟩
  exact ⟨importer, _, file, hsent, Function.update_self .., (DecryptFile_EncryptFileCompressed_iff
    standIn_lawful hserves.toOpensFor hsent (Function.update_self ..) rfl (by decide) (by decide)
    (servingEnv_serves file) hreader).mpr ⟨haddressed, hfits, by decide, rfl⟩⟩

/-- An identity's sender without other recipients writes what the identity can decrypt from a
file exactly as long as the subkey that is chosen is the first one. -/
theorem DecryptFile_owner_iff {sendEnv : EncryptFileEnv} {owner : Impl} {now : UInt32}
    {block : Buffer} (hlawful : P.Lawful) (hpublished : Published P owner block)
    (husable : ∃ subkey ∈ owner.ownSubkeys, subkey.usable now = true ∧
      subkey.isEd25519Sign = false)
    (hsender : Sender P owner now sender) (halone : sender.additionalRecipients = [])
    (hopens : OpensFor sendEnv plainFilePath sentFilePath sentFiles content sentPath)
    (hsent : EncryptFile P message plainFilePath sentFilePath sender sentFiles sendEnv =
      (NO_ERROR, sentFiles')) (hfile : sentFiles' sentPath = some file)
    (hsize : content.length + 53 < 2 ^ 32)
    (hserves : env.Serves inputFilePath outputFilePath files file outputPath)
    (haccepted : rejects P owner password = false) :
    DecryptFile P inflators env password inputFilePath outputFilePath owner files =
        (NO_ERROR, files') ↔
      (owner.exportedRecipient now).keyId = owner.ownSubkeyKeyId ∧
        files' = files.moved outputPath content := by
  have hmessage := EncryptFile_written hopens hsent hfile
  have hfits : FrontFits P message sender.recipients sender.symmetricCipherPreference.octet
      (writePacket PGP_TAG_LITERAL_DATA (literalBody content)) := by
    refine frontFits_of_few (hpublished.modulus_size hsender halone husable) ?_ hmessage
    simp [Impl.recipients, halone]
  rw [DecryptFile_literal_iff hlawful hserves (hpublished.reader hsender husable haccepted) hmessage
    hsize, and_iff_right hfits]
  simp only [Impl.recipients, halone, hsender.primary, List.mem_singleton, exists_eq_left,
    Impl.flatDecryptionKey_keyId]

theorem DecryptFile_owner_hi : ∃ importer sentFiles' file,
    EncryptFile standIn mixedEnv (ascii "a") (ascii "c") importer (fileAtA (ascii "hi"))
      servingSendEnv.toEncryptFileEnv = (NO_ERROR, sentFiles') ∧ sentFiles' [99] = some file ∧
    DecryptFile standIn standInInflators servingEnv (ascii "pw") (ascii "a") (ascii "b")
      shortLivedOwner (fileAtA file) = (NO_ERROR, (fileAtA file).moved [98] (ascii "hi")) := by
  have hserves := servingSendEnv_serves (ascii "hi")
  obtain ⟨importer, hsender, halone⟩ := shortLivedOwner_imported
  obtain ⟨-, -, hmessages⟩ := shortLivedOwner_reached hsender halone
  obtain ⟨file, hmessage, -⟩ :=
    hmessages (writePacket PGP_TAG_LITERAL_DATA (literalBody (ascii "hi")))
  have hsent := (EncryptFile_noError_iff hserves.toServes).mpr
    ⟨hsender.imported, file, hmessage, rfl⟩
  exact ⟨importer, _, file, hsent, Function.update_self .., (DecryptFile_owner_iff standIn_lawful
    shortLivedOwner_published shortLivedOwner_usable hsender halone hserves.toOpensFor hsent
    (Function.update_self ..) (by decide) (servingEnv_serves file)
    (rejects_eq_false shortLivedOwner_published.generated (by decide)
      shortLivedOwner_password)).mpr
    ⟨shortLivedOwner_published.exportedRecipient_sole shortLivedOwner_sole shortLivedOwner_usable,
      rfl⟩⟩

end Calls

end HashCryptoLib.Pgp
