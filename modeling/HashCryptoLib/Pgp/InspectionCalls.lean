import HashCryptoLib.Lib.Hex
import HashCryptoLib.Pgp.ClearSignRoundTrip
import HashCryptoLib.Pgp.FileSigning
import HashCryptoLib.Pgp.FileInterchange
import HashCryptoLib.Pgp.PacketTree
import HashCryptoLib.Pgp.PeerReplacement
import HashCryptoLib.Pgp.PrimaryFlag

/-!
The calls that look into a message without its key. What they say of a message that this engine
has made is what the engine did: they list the recipients it was encrypted for, one record for
each, or the key that signed. So an identity that finds the text of one of its own key IDs among
the records will read the message, and one that does not will not.
-/

namespace HashCryptoLib.Pgp

open BigEndian Cursor Search

/-! ### The calls -/

def PGP_COMPRESSION_NOT_PRESENT : ℤ := -1
def PGP_COMPRESSION_UNKNOWN_NEEDS_DECRYPTION : ℤ := -2

/-- What a call leaves behind, and what it was asked for. -/
structure Answer (α : Type) where
  outcome : Outcome
  answer : Option α := none
  deriving DecidableEq, Repr

section Calls

variable {α : Type} (P : Primitives) (input : Buffer)

/-- The calls answer from what inspection reports. -/
def answerFrom (answer : PgpInspectedMessage → Except Fault (Answer α)) :
    Except Fault (Answer α) :=
  if input.1 = [] then .ok { outcome := { status := INVALID_ARGUMENT } }
  else
    match inspectMessageBuffer P input.1 with
    | .error fault => .error fault
    | .ok none => .ok { outcome := { status := INVALID_DATA } }
    | .ok (some inspected) => answer inspected

def told (value : α) : Except Fault (Answer α) :=
  .ok { outcome := { status := NO_ERROR }, answer := some value }

def IsPublicKeyEncrypted : Except Fault (Answer Bool) :=
  answerFrom P input fun inspected => told inspected.hasPkesk

def IsPasswordEncrypted : Except Fault (Answer Bool) :=
  answerFrom P input fun inspected => told inspected.hasSkesk

def IsIntegrityProtected : Except Fault (Answer Bool) :=
  answerFrom P input fun inspected => told inspected.hasIntegrityProtectedData

def GetCompression : Except Fault (Answer ℤ) :=
  answerFrom P input fun inspected =>
    match inspected.compressionAlgorithm with
    | some algorithm => told algorithm.toNat
    | none =>
      if inspected.hasIntegrityProtectedData || inspected.hasUnprotectedEncryptedData then
        told PGP_COMPRESSION_UNKNOWN_NEEDS_DECRYPTION
      else told PGP_COMPRESSION_NOT_PRESENT

end Calls

/-! ### The lists -/

def COLON : UInt8 := 58
def QUESTION_MARK : UInt8 := 63

def formatInspectionOctetHex (value : UInt8) : Bytes :=
  [hexDigits.getD (value >>> 4).toNat 0, hexDigits.getD (value &&& 0xF).toNat 0]

def formatInspectionKeyIdHex (keyId : Option Bytes) : Bytes :=
  match keyId with
  | none => List.replicate 16 QUESTION_MARK
  | some keyId => keyId.flatMap formatInspectionOctetHex

/-- An empty list needs no buffer. -/
def writeInspectionRecords (records : Bytes) (buffer : Option Int32) : Except Fault Outcome :=
  if castInt records.length = 0 then .ok { status := NO_ERROR, outputSize := some 0 }
  else deliver buffer 0 records

/-- The records, each with the zero behind it, and their number, which is told in any case. -/
def listRecords {σ : Type} (record : σ → Bytes) (items : List σ) (buffer : Option Int32) :
    Except Fault (Answer ℤ) :=
  (writeInspectionRecords (items.flatMap fun item => record item ++ [0]) buffer).map fun outcome =>
    { outcome, answer := some (castInt items.length) }

section Lists

variable (P : Primitives) (input : Buffer) (buffer : Option Int32)

def ListEncryptionKeyIds : Except Fault (Answer ℤ) :=
  answerFrom P input fun inspected =>
    listRecords (fun keyId => formatInspectionKeyIdHex (some keyId)) inspected.recipientKeyIds
      buffer

def ListSigningKeyIds : Except Fault (Answer ℤ) :=
  answerFrom P input fun inspected =>
    listRecords (fun signature => formatInspectionKeyIdHex signature.issuerKeyId)
      inspected.signatures buffer

def ListSignatures : Except Fault (Answer ℤ) :=
  answerFrom P input fun inspected =>
    listRecords (fun signature => formatInspectionKeyIdHex signature.issuerKeyId ++
        COLON :: formatInspectionOctetHex signature.signatureType ++
          COLON :: formatInspectionOctetHex signature.hashAlgorithm)
      inspected.signatures buffer

end Lists

def GetSubkeyKeyId (subkeyIndex : ℤ) (buffer : Option Int32) (impl : Impl) : Outcome :=
  if hasRoom buffer = false then { status := BUFFER_TOO_SMALL }
  else
    match atIndex impl.ownSubkeys subkeyIndex with
    | none => { status := INVALID_ARGUMENT }
    | some subkey => { status := NO_ERROR, output := keyIdText subkey.keyId }

def DecryptStringArmored (P : Primitives) (password : Bytes) (inputString : Buffer)
    (buffer : Option Int32) (impl : Impl) : Except Fault Outcome :=
  if rejects P impl password ∨ inputString.1 = [] then .ok { status := INVALID_ARGUMENT }
  else
    match armorDecode inputString.1 with
    | none => .ok { status := INVALID_DATA }
    | some (_, message) =>
      match parseAndDecryptMessageWithAnyOwnSubkey P impl message false with
      | .error fault => .error fault
      | .ok (none, _) => .ok { status := INVALID_DATA }
      | .ok (some plaintext, _) => deliver buffer 0 plaintext

/-! ### Answers -/

section Answers

variable {P : Primitives} {input : Buffer} {inspected : PgpInspectedMessage}

theorem answerFrom_some {α : Type} (h : inspectMessageBuffer P input.1 = .ok (some inspected))
    (answer : PgpInspectedMessage → Except Fault (Answer α)) :
    answerFrom P input answer = answer inspected := by
  have hne : input.1 ≠ [] := by
    intro hnil
    rw [hnil] at h
    cases h
  rw [answerFrom, if_neg hne, h]

/-- What an empty list says. -/
def nothingListed : Except Fault (Answer ℤ) :=
  .ok { outcome := { status := NO_ERROR, outputSize := some 0 }, answer := some 0 }

theorem listRecords_nil {σ : Type} (record : σ → Bytes) (buffer : Option Int32) :
    listRecords record [] buffer = nothingListed := by
  have hzero : castInt ([] : List σ).length = 0 := castInt_of_lt (show 0 < 2 ^ 31 by decide)
  rw [listRecords, writeInspectionRecords, List.flatMap_nil, hzero]
  rfl

/-- A size that is not a multiple of 2^32 is no empty list to the caller. -/
theorem castInt_ne_zero {size : ℕ} (h : ¬ 2 ^ 32 ∣ size) : castInt size ≠ 0 := by
  intro hzero
  have hdvd := Int.dvd_of_bmod_eq_zero hzero
  exact h (by exact_mod_cast hdvd)

/-- Records of one odd size, and not too many, are handed out like any other data. -/
theorem listRecords_of_odd {σ : Type} {record : σ → Bytes} {items : List σ} {size : ℕ}
    (hsize : ∀ item ∈ items, (record item ++ [0]).length = size) (hodd : Nat.Coprime (2 ^ 32) size)
    (hne : items ≠ []) (hfew : items.length < 2 ^ 31) (buffer : Option Int32) :
    listRecords record items buffer =
      (deliver buffer 0 (items.flatMap fun item => record item ++ [0])).map fun outcome =>
        { outcome, answer := some (items.length : ℤ) } := by
  have hlength : (items.flatMap fun item => record item ++ [0]).length = size * items.length := by
    rw [List.length_flatMap, List.map_congr_left hsize, List.map_const',
      List.sum_replicate_nat, Nat.mul_comm]
  have hpos := List.length_pos_iff.mpr hne
  rw [listRecords, writeInspectionRecords, if_neg, castInt_of_lt hfew]
  rw [hlength]
  -- 2^32 is prime to the size of a record, so it would divide their number
  refine castInt_ne_zero fun hdvd => ?_
  have hle := Nat.le_of_dvd hpos (hodd.dvd_of_dvd_mul_left hdvd)
  omega

theorem listRecords_singleton {σ : Type} (record : σ → Bytes) (item : σ) {size : ℕ}
    (hsize : (record item ++ [0]).length = size) (hodd : Nat.Coprime (2 ^ 32) size)
    (buffer : Option Int32) :
    listRecords record [item] buffer = (deliver buffer 0 (record item ++ [0])).map fun outcome =>
      { outcome, answer := some 1 } := by
  rw [listRecords_of_odd (List.forall_mem_singleton.mpr hsize) hodd (List.cons_ne_nil item [])
    (show [item].length < 2 ^ 31 from show 1 < 2 ^ 31 by decide), List.flatMap_singleton]
  rfl

end Answers

/-! ### Key IDs as texts -/

theorem keyIdText_eq (keyId : Octets 8) :
    keyIdText keyId = Hex.encode (fun nibble => hexDigits.getD nibble 0) keyId.1 ++ [0] := by
  refine congrArg (· ++ [0]) (List.flatMap_congr fun octet _ => ?_)
  rw [Hex.toNat_shiftRight_four, Hex.toNat_and_fifteen]
  rfl

/-- The place of a digit in the alphabet. -/
theorem idxOf_hexDigits :
    ∀ nibble < 16, hexDigits.idxOf? (hexDigits.getD nibble 0) = some nibble := by
  decide

theorem keyIdText_injective : Function.Injective keyIdText := by
  intro keyId keyId' h
  rw [keyIdText_eq, keyIdText_eq] at h
  exact Subtype.ext (@Hex.encode_injective _ _ (fun digit => hexDigits.idxOf? digit)
    idxOf_hexDigits _ _ (List.append_cancel_right h))

theorem length_keyIdText (keyId : Octets 8) : (keyIdText keyId).length = 17 := by
  rw [keyIdText_eq, List.length_append, Hex.length_encode, Octets.length_eq]
  rfl

theorem formatInspectionKeyIdHex_append (keyId : Octets 8) :
    formatInspectionKeyIdHex (some keyId.1) ++ [0] = keyIdText keyId := rfl

/-! ### The packets that are written -/

section Written

variable {P : Primitives} {octets input : Bytes} {packets : List (UInt8 × Bytes)}

/-- A written packet is framed in the new format. -/
theorem exists_framedPacket {tag : UInt8} {body : Bytes} (htag : tag < 64)
    (hbody : body.length < 2 ^ 32) : ∃ packet : FramedPacket,
      packet.octets = writePacket tag body ∧ packet.content = (tag, body) := by
  rcases Nat.lt_or_ge body.length 192 with hone | hone
  · refine ⟨⟨tag, body, .newFormat .oneOctet, htag, hone⟩, ?_, rfl⟩
    rw [writePacket, appendNewFormatLength, if_pos hone]
    rfl
  rcases Nat.lt_or_ge body.length 8384 with htwo | htwo
  · refine ⟨⟨tag, body, .newFormat .twoOctets, htag, hone, htwo⟩, ?_, rfl⟩
    rw [writePacket, appendNewFormatLength, if_neg (by omega), if_pos htwo]
    rfl
  · refine ⟨⟨tag, body, .newFormat .fiveOctets, htag, hbody⟩, ?_, rfl⟩
    rw [writePacket, appendNewFormatLength, if_neg (by omega), if_neg (by omega)]
    rfl

/-- Written packets are a stream, and each is received whole. -/
theorem IsPacketList.exists_stream (h : IsPacketList octets packets) : ∃ stream : PacketStream,
    stream.octets = octets ∧ stream.contents = packets ∧ stream.Whole := by
  obtain ⟨rfl, hshort⟩ := h
  suffices hfront : ∃ front : List FramedPacket,
      streamOf front = packets.flatMap (fun packet => writePacket packet.1 packet.2) ∧
        front.map FramedPacket.content = packets ∧ ∀ packet ∈ front, packet.Whole by
    obtain ⟨front, hoctets, hcontents, hwhole⟩ := hfront
    exact ⟨⟨front, none⟩, by rw [← hoctets]; exact List.append_nil _,
      by rw [← hcontents]; exact List.append_nil _, hwhole⟩
  induction packets with
  | nil => exact ⟨[], rfl, rfl, List.forall_mem_nil _⟩
  | cons packet packets ih =>
      obtain ⟨⟨htag, hbody⟩, hrest⟩ := List.forall_mem_cons.mp hshort
      obtain ⟨front, hoctets, hcontents, hwhole⟩ := ih hrest
      obtain ⟨framed, hframed, hcontent⟩ := exists_framedPacket htag hbody
      have hsame : framed.body = packet.2 := congrArg Prod.snd hcontent
      refine ⟨framed :: front, ?_, ?_, List.forall_mem_cons.mpr ⟨.of_short ?_, hwhole⟩⟩
      · rw [List.flatMap_cons, ← hoctets, ← hframed]
        rfl
      · rw [List.map_cons, hcontents, hcontent]
      · rw [hsame]
        exact hbody

/-- Inspection of written packets, as they are or in armor. -/
theorem inspectMessageBuffer_written (h : IsPacketList octets packets)
    (hinput : Rendering octets input) :
    inspectMessageBuffer P input = (inspectPackets P 3 packets {}).map fun out =>
      if out.sawAnyPacket then some out else none := by
  obtain ⟨stream, rfl, rfl, hwhole⟩ := h.exists_stream
  exact inspectMessageBuffer_stream hwhole hinput

end Written

/-! ### Messages that are encrypted -/

/-- What the calls say of a message that is encrypted for these recipients. -/
structure SaysEncryptedFor (P : Primitives) (recipients : List PgpEncryptionRecipient)
    (input : Buffer) : Prop where
  publicKey : IsPublicKeyEncrypted P input = told true
  password : IsPasswordEncrypted P input = told false
  integrity : IsIntegrityProtected P input = told true
  compression : GetCompression P input = told PGP_COMPRESSION_UNKNOWN_NEEDS_DECRYPTION
  keyIds : ∀ buffer, ListEncryptionKeyIds P input buffer =
    (deliver buffer 0 (recipients.flatMap fun recipient => keyIdText recipient.keyId)).map
      fun outcome => { outcome, answer := some (recipients.length : ℤ) }
  signingKeyIds : ∀ buffer, ListSigningKeyIds P input buffer = nothingListed
  signatures : ∀ buffer, ListSignatures P input buffer = nothingListed

/-- One of the calls that encrypt for the sender's recipients has made this message. -/
inductive Sent (P : Primitives) (sender : Impl) (content : Bytes) : Bytes → Prop
  | encryptBuffer {env : MessageEnv} {document : Buffer} {buffer : Option Int32}
      {outcome : Outcome} (hdocument : document.1 = content)
      (hcall : EncryptBuffer P env document buffer sender = .ok outcome)
      (hstatus : outcome.status = NO_ERROR) : Sent P sender content outcome.output
  | encryptAndSignBuffer {env : MessageEnv} {password : Bytes} {document : Buffer}
      {buffer : Option Int32} {outcome : Outcome} (hdocument : document.1 = content)
      (hcall : EncryptAndSignBuffer P env password document buffer sender = .ok outcome)
      (hstatus : outcome.status = NO_ERROR) : Sent P sender content outcome.output
  | encryptFile {env : MessageEnv} {sent : Bytes} (hsent : FileSent P env sender content sent) :
      Sent P sender content sent

/-- One of the two calls that write armor has. -/
inductive SentArmored (P : Primitives) (sender : Impl) (content : Bytes) : Bytes → Prop
  | encryptStringArmored {env : MessageEnv} {document : Buffer} {buffer : Option Int32}
      {outcome : Outcome} (hdocument : document.1 = content)
      (hcall : EncryptStringArmored P env document buffer sender = .ok outcome)
      (hstatus : outcome.status = NO_ERROR) : SentArmored P sender content outcome.output
  | encryptAndSignStringArmored {env : MessageEnv} {password : Bytes} {document : Buffer}
      {buffer : Option Int32} {outcome : Outcome} (hdocument : document.1 = content)
      (hcall : EncryptAndSignStringArmored P env password document buffer sender = .ok outcome)
      (hstatus : outcome.status = NO_ERROR) : SentArmored P sender content outcome.output

/-- A message for the sender's recipients, in which the content is found. -/
def Carried (P : Primitives) (sender : Impl) (content message : Bytes) : Prop :=
  ∃ env tag body,
    protectedMessage P env sender.recipients sender.symmetricCipherPreference.octet
      (writePacket tag body) = some message ∧
    (P.Lawful → content.length < 2 ^ 31 → body.length < 2 ^ 32 →
      parseProtected P (plainForCfb P env.prefixOctets (writePacket tag body)) false =
        .ok (some (literalBody content, none)))

section Sender

variable {P : Primitives} {sender : Impl} {env : MessageEnv} {document : Buffer}
  {content message text : Bytes}

theorem carried_of_build (hbuild : buildEncryptedMessageMultiRecipient P env sender.recipients
      sender.symmetricCipherPreference.octet document.1 = some message) :
    Carried P sender document.1 message := by
  have hcontent : encryptContent P env sender.recipients sender.symmetricCipherPreference.octet
      (writePacket PGP_TAG_LITERAL_DATA (literalBody document.1)) = some message := by
    rw [buildEncryptedMessageMultiRecipient] at hbuild
    split_ifs at hbuild
    exact hbuild
  refine ⟨env, PGP_TAG_COMPRESSED_DATA, _, hcontent, fun hlawful hshort hbody => ?_⟩
  have hliteral : (literalBody document.1).length < 2 ^ 32 := by
    rw [length_literalBody]
    omega
  rw [parseProtected_compressed _ hbody (hlawful.inflate_deflate _) (.single (by decide) hliteral),
    parseDecompressedPackets_literal hliteral]

theorem carried_of_buildSigned (hreachable : Reachable P sender)
    (hgenerated : sender.ownKeyGenerated = true)
    (hbuild : buildEncryptedSignedMessageMultiRecipient P env sender.recipients
      (selectActiveSigningKeyMaterial sender) sender.symmetricCipherPreference.octet document.1 =
        some message) : Carried P sender document.1 message := by
  have hmodulus := hreachable.ownKeysGenerated.activeModulus_size hgenerated
  rw [buildEncryptedSignedMessageMultiRecipient] at hbuild
  dsimp only at hbuild
  split_ifs at hbuild with hrecipients hsigned
  obtain ⟨leftHash, signatureMpis, -, hsig, hsigBody⟩ :=
    (selectActiveSigningKeyMaterial sender).sign_eq P hmodulus hsigned
  rw [List.length_nil] at hsigBody
  rw [hsig] at hbuild
  obtain ⟨onePassBody, honePass, hshort⟩ : ∃ onePassBody,
      (selectActiveSigningKeyMaterial sender).onePass =
        writePacket PGP_TAG_ONE_PASS_SIG onePassBody ∧ onePassBody.length = 13 :=
    ⟨_, rfl, by simp⟩
  rw [honePass] at hbuild
  refine ⟨env, PGP_TAG_COMPRESSED_DATA, _, hbuild, fun hlawful hcontent hbody => ?_⟩
  have hliteral : (literalBody document.1).length < 2 ^ 32 := by
    rw [length_literalBody]
    omega
  have hpackets := ((IsPacketSequence.single (show PGP_TAG_ONE_PASS_SIG < 64 by decide)
    (show onePassBody.length < 2 ^ 32 by omega)).append
      (.single (show PGP_TAG_LITERAL_DATA < 64 by decide) hliteral)).append
        (.single (show PGP_TAG_SIGNATURE < 64 by decide) (hsigBody.trans_lt (by norm_num)))
  rw [parseProtected_compressed _ hbody (hlawful.inflate_deflate _) hpackets,
    parseDecompressedPackets_signed (by omega) hliteral (by omega)]
  rfl

theorem Sent.carried (hreachable : Reachable P sender) (h : Sent P sender content message) :
    Carried P sender content message := by
  cases h with
  | encryptBuffer hdocument hcall hstatus =>
      obtain ⟨built, hbuild, rfl⟩ := EncryptBuffer_noError hcall hstatus
      exact hdocument ▸ carried_of_build hbuild
  | encryptAndSignBuffer hdocument hcall hstatus =>
      obtain ⟨built, hbuild, rfl⟩ := EncryptAndSignBuffer_noError hcall hstatus
      have hgenerated := ownKeyGenerated_of_not_rejects
        (EncryptAndSignBuffer_accepted hcall hstatus)
      exact hdocument ▸ carried_of_buildSigned hreachable hgenerated hbuild
  | encryptFile hsent =>
      obtain ⟨tag, body, hmessage, hreads⟩ := hsent.written
      exact ⟨_, tag, body, hmessage, fun _ hcontent => hreads (by omega)⟩

theorem SentArmored.carried (hreachable : Reachable P sender)
    (h : SentArmored P sender content text) :
    ∃ message, text = armorEncode (ascii "PGP MESSAGE") message ∧
      Carried P sender content message := by
  cases h with
  | encryptStringArmored hdocument hcall hstatus =>
      rw [EncryptStringArmored] at hcall
      split_ifs at hcall
      · obtain rfl := Except.ok.inj hcall
        cases hstatus
      · split at hcall
        · obtain rfl := Except.ok.inj hcall
          cases hstatus
        · rename_i message hbuild
          obtain ⟨rfl, -⟩ := deliver_eq_delivered hcall hstatus
          exact ⟨message, rfl, hdocument ▸ carried_of_build hbuild⟩
  | encryptAndSignStringArmored hdocument hcall hstatus =>
      rw [EncryptAndSignStringArmored] at hcall
      split_ifs at hcall with hrejects
      · obtain rfl := Except.ok.inj hcall
        cases hstatus
      · split at hcall
        · obtain rfl := Except.ok.inj hcall
          cases hstatus
        · rename_i message hbuild
          obtain ⟨rfl, -⟩ := deliver_eq_delivered hcall hstatus
          have hgenerated := ownKeyGenerated_of_not_rejects
            (Bool.eq_false_iff.mpr (not_or.mp hrejects).2)
          exact ⟨message, rfl, hdocument ▸ carried_of_buildSigned hreachable hgenerated hbuild⟩

/-- The session key packets name the recipients in their order. -/
theorem buildPkeskPackets_list {sessionKey pkesks : Bytes} {cipherAlgorithmOctet : UInt8}
    {seed : ℕ → ℕ} {i : ℕ} {recipients : List PgpEncryptionRecipient}
    (hkey : sessionKey.length ≤ 32)
    (hmodulus : ∀ recipient ∈ recipients, recipient.rsaPublicKey.modulus.size ≤ 2 ^ 16)
    (hbuild : buildPkeskPackets P sessionKey cipherAlgorithmOctet seed i recipients =
      some pkesks) :
    ∃ bodies : List Bytes, IsPacketList pkesks (bodies.map (PGP_TAG_PKESK, ·)) ∧
      bodies.flatMap inspectPkesk = recipients.map (fun recipient => recipient.keyId.1) ∧
        bodies.length = recipients.length ∧ recipients.length ≤ pkesks.length := by
  induction recipients generalizing i pkesks with
  | nil =>
      obtain rfl := Option.some.inj hbuild
      exact ⟨[], .nil, rfl, rfl, le_rfl⟩
  | cons recipient recipients ih =>
      obtain ⟨tail, others, hencrypt, hothers, rfl⟩ := buildPkeskPackets_cons hbuild
      have hplain := length_sessionKeyPlain cipherAlgorithmOctet sessionKey
      obtain ⟨hlength, hbody⟩ := pkeskBody_length (hmodulus recipient List.mem_cons_self)
        (by omega) hencrypt
      obtain ⟨bodies, hlist, hkeyIds, hcount, hle⟩ :=
        ih (fun other hmem => hmodulus other (List.mem_cons_of_mem _ hmem)) hothers
      have hone : inspectPkesk (pkeskBody recipient.keyId recipient.algorithm tail) =
          [recipient.keyId.1] := by
        rw [inspectPkesk, if_pos ⟨by omega, rfl⟩]
        exact congrArg ([·]) (List.take_left' recipient.keyId.length_eq)
      have hpos := List.length_pos_iff.mpr
        (writePacket_ne_nil PGP_TAG_PKESK (pkeskBody recipient.keyId recipient.algorithm tail))
      -- no packet is empty, so there are no more recipients than octets
      refine ⟨_ :: bodies, (IsPacketList.single (by decide) hbody).append hlist, ?_, ?_, ?_⟩
      · rw [List.flatMap_cons, hone, hkeyIds]
        rfl
      · rw [List.length_cons, List.length_cons, hcount]
      · rw [List.length_append, List.length_cons]
        omega

/-- Inspection reports the recipients of a message that is carried, and that it is encrypted. -/
theorem Carried.inspected (hreachable : Reachable P sender) (h : Carried P sender content message)
    (hshort : message.length < 2 ^ 31) {input : Bytes} (hinput : Rendering message input) :
    sender.recipients.length < 2 ^ 31 ∧
    inspectMessageBuffer P input = .ok (some
      { sawAnyPacket := true
        hasPkesk := true
        hasIntegrityProtectedData := true
        recipientKeyIds := sender.recipients.map fun recipient => recipient.keyId.1 }) := by
  obtain ⟨env, tag, body, hmessage, -⟩ := h
  have hsize := length_protectedMessage hmessage
  obtain ⟨pkesks, hbuilt, rfl, -⟩ := protectedMessage_packets
    hreachable.peerKeysSized.recipients (by omega) hmessage
  obtain ⟨bodies, hlist, hkeyIds, hcount, hle⟩ := buildPkeskPackets_list
    (env.length_sessionKeyFor_le _) hreachable.peerKeysSized.recipients hbuilt
  have hseip : (1 :: cfbEncrypt P (env.sessionKeyFor sender.symmetricCipherPreference.octet)
      (Octets.zero 16) (plainForCfb P env.prefixOctets (writePacket tag body))).length <
        2 ^ 32 := by
    rw [List.length_cons, length_cfbEncrypt, length_plainForCfb]
    omega
  have hpackets := hlist.append (.single (show PGP_TAG_SEIP < 64 by decide) hseip)
  -- what is protected is not looked into
  have hnested (body : Bytes) : nestedPackets P 3 PGP_TAG_SEIP body = .ok none := by
    rw [nestedPackets.eq_def,
      if_pos (Or.inl (show PGP_TAG_SEIP ≠ PGP_TAG_COMPRESSED_DATA by decide))]
  have hsome : bodies.isEmpty = false := by
    cases bodies with
    | nil => cases hcount
    | cons => rfl
  rw [List.length_append] at hshort
  refine ⟨by omega, ?_⟩
  rw [inspectMessageBuffer_written hpackets hinput, inspectPackets_append, inspectPackets_pkesks]
  simp only [inspectPackets, inspectPacket, hnested, hkeyIds, hsome]
  rfl

/-- So the calls say whom the sender has encrypted it for. -/
theorem Carried.answers (hreachable : Reachable P sender) (h : Carried P sender content message)
    (hshort : message.length < 2 ^ 31) {input : Buffer} (hinput : Rendering message input.1) :
    SaysEncryptedFor P sender.recipients input := by
  obtain ⟨hfew, hreport⟩ := h.inspected hreachable hshort hinput
  constructor
  · rw [IsPublicKeyEncrypted, answerFrom_some hreport]
  · rw [IsPasswordEncrypted, answerFrom_some hreport]
  · rw [IsIntegrityProtected, answerFrom_some hreport]
  · rw [GetCompression, answerFrom_some hreport]
    rfl
  · intro buffer
    have hsize : ∀ keyId ∈ sender.recipients.map (fun recipient => recipient.keyId.1),
        (formatInspectionKeyIdHex (some keyId) ++ [0]).length = 17 := by
      intro keyId hmem
      obtain ⟨recipient, -, rfl⟩ := List.mem_map.mp hmem
      exact length_keyIdText recipient.keyId
    rw [ListEncryptionKeyIds, answerFrom_some hreport, listRecords_of_odd hsize (by decide)
      (by simp [Impl.recipients]) (by rw [List.length_map]; exact hfew), List.flatMap_map,
      List.length_map]
    rfl
  · intro buffer
    rw [ListSigningKeyIds, answerFrom_some hreport, listRecords_nil]
  · intro buffer
    rw [ListSignatures, answerFrom_some hreport, listRecords_nil]

/-- A message in armor. -/
theorem Rendering.armoredMessage (octets : Bytes) :
    Rendering octets (armorEncode (ascii "PGP MESSAGE") octets) :=
  .armored (by decide) (by decide)

theorem length_le_armorEncode (label data : Bytes) :
    data.length ≤ (armorEncode label data).length := by
  rw [length_armorEncode, armorSize]
  omega

/-- What the calls say of any message that a sender has handed out or written: it is encrypted
under public keys and integrity protection, for the sender's recipients in their order, and
nothing else of it can be seen. -/
theorem sent_saysEncryptedFor (hreachable : Reachable P sender) {input : Buffer}
    (h : Sent P sender content input.1 ∨ SentArmored P sender content input.1) :
    SaysEncryptedFor P sender.recipients input := by
  have hshort := input.2
  rcases h with hsent | hsent
  · exact (hsent.carried hreachable).answers hreachable hshort .binary
  · obtain ⟨message, htext, hcarried⟩ := hsent.carried hreachable
    have hle := length_le_armorEncode (ascii "PGP MESSAGE") message
    rw [← htext] at hle
    exact hcarried.answers hreachable (by omega) (htext ▸ Rendering.armoredMessage message)

end Sender

/-- Somebody who has imported the block of the identity whose subkey expires writes to it. -/
theorem shortLivedOwner_sent : ∃ (importer : Impl) (input : Buffer), Reachable standIn importer ∧
    Sender standIn shortLivedOwner 1500 importer ∧ importer.additionalRecipients = [] ∧
      Sent standIn importer (ascii "hi") input.1 := by
  obtain ⟨hsender, halone⟩ := shortLivedOwner_published.sender_only 1500
    (Impl.new PGP_KEY_ALGORITHM_RSA 1024) rfl
  obtain ⟨message, hencrypt, -⟩ := shortLivedOwner_encrypts hsender halone
  exact ⟨_, message, (Reachable.new PGP_KEY_ALGORITHM_RSA 1024).importPeerPublicKey 1500
    shortLivedBlock, hsender, halone, .encryptBuffer rfl hencrypt rfl⟩

theorem sent_saysEncryptedFor_hi : ∃ (importer : Impl) (input : Buffer),
    Sent standIn importer (ascii "hi") input.1 ∧
      SaysEncryptedFor standIn importer.recipients input := by
  obtain ⟨importer, input, hreachable, -, -, hsent⟩ := shortLivedOwner_sent
  exact ⟨importer, input, hsent, sent_saysEncryptedFor hreachable (.inl hsent)⟩

/-! ### Who will read it -/

section Readers

variable {P : Primitives} {impl sender : Impl} {content message : Bytes} {listing : Answer ℤ}

/-- One of the identity's own key IDs, as it is told, is among the records that were listed. -/
def Listed (impl : Impl) (listing : Answer ℤ) : Prop :=
  ∃ subkeyIndex < impl.ownSubkeys.length,
    (GetSubkeyKeyId subkeyIndex (some 17) impl).output ∈
      Chunks.chunksOf 17 listing.outcome.output

instance : Decidable (Listed impl listing) :=
  inferInstanceAs (Decidable (∃ subkeyIndex, subkeyIndex < impl.ownSubkeys.length ∧ _))

theorem GetSubkeyKeyId_output {i : ℕ} (h : i < impl.ownSubkeys.length) :
    (GetSubkeyKeyId i (some 17) impl).output = keyIdText impl.ownSubkeys[i].keyId := by
  have hat : atIndex impl.ownSubkeys (i : ℤ) = some impl.ownSubkeys[i] := by
    rw [atIndex, if_pos (Int.natCast_nonneg i), Int.toNat_natCast, List.getElem?_eq_getElem h]
  rw [GetSubkeyKeyId, if_neg (by decide), hat]

/-- Key IDs and their texts correspond. -/
theorem listed_iff {recipients : List PgpEncryptionRecipient}
    (hlisting : listing.outcome.output = recipients.flatMap fun recipient =>
      keyIdText recipient.keyId) :
    Listed impl listing ↔
      ∃ subkey ∈ impl.ownSubkeys, ∃ recipient ∈ recipients, recipient.keyId = subkey.keyId := by
  have hrecords : Chunks.chunksOf 17 listing.outcome.output =
      recipients.map fun recipient => keyIdText recipient.keyId := by
    rw [hlisting]
    exact Chunks.chunksOf_flatMap (by decide) fun recipient _ => length_keyIdText recipient.keyId
  rw [Listed, hrecords]
  constructor
  · rintro ⟨i, hi, hmem⟩
    obtain ⟨recipient, hrecipient, htext⟩ := List.mem_map.mp hmem
    rw [GetSubkeyKeyId_output hi] at htext
    exact ⟨_, List.getElem_mem hi, recipient, hrecipient, keyIdText_injective htext⟩
  · rintro ⟨subkey, hsubkey, recipient, hrecipient, hsame⟩
    obtain ⟨i, hi, rfl⟩ := List.getElem_of_mem hsubkey
    exact ⟨i, hi, by
      rw [GetSubkeyKeyId_output hi, ← hsame]
      exact List.mem_map_of_mem hrecipient⟩

theorem Carried.ne_nil (h : Carried P sender content message) : message ≠ [] := by
  obtain ⟨_, _, _, hmessage, -⟩ := h
  have hlength := length_protectedMessage hmessage
  exact List.length_pos_iff.mp (by omega)

/-- An identity opens what is carried exactly if it finds itself listed. -/
theorem Carried.opened (hlawful : P.Lawful) (hsender : Reachable P sender)
    (hreader : Reachable P impl) (hgenerated : impl.ownKeyGenerated = true)
    (howns : OwnsKeyIds P impl sender.recipients) (hcontent : content.length < 2 ^ 31)
    (hshort : message.length < 2 ^ 31) (h : Carried P sender content message)
    (hlisting : listing.outcome.output = sender.recipients.flatMap fun recipient =>
      keyIdText recipient.keyId) :
    parseAndDecryptMessageWithAnyOwnSubkey P impl message false =
      .ok (if Listed impl listing then some content else none, none) := by
  obtain ⟨env, tag, body, hmessage, hreads⟩ := h
  have hlength := length_protectedMessage hmessage
  have hbody := length_writePacket tag body
  rw [packetSize] at hbody
  obtain ⟨hopened, hskipped⟩ := anyOwnSubkey_protected hlawful hreader.ownKeysGenerated hgenerated
    howns hsender.peerKeysSized.recipients (by omega) hmessage
      (hreads hlawful hcontent (by omega))
  rw [← listed_iff hlisting] at hopened hskipped
  split_ifs with hlisted
  · exact hopened hlisted
  · exact hskipped hlisted

theorem SaysEncryptedFor.records {recipients : List PgpEncryptionRecipient} {input : Buffer}
    {buffer : Option Int32} (h : SaysEncryptedFor P recipients input)
    (hlisting : ListEncryptionKeyIds P input buffer = .ok listing)
    (hstatus : listing.outcome.status = NO_ERROR) :
    listing.outcome.output = recipients.flatMap fun recipient => keyIdText recipient.keyId := by
  rw [h.keyIds] at hlisting
  cases hdeliver : deliver buffer 0
      (recipients.flatMap fun recipient => keyIdText recipient.keyId) with
  | error fault =>
      rw [hdeliver] at hlisting
      cases hlisting
  | ok outcome =>
      rw [hdeliver] at hlisting
      obtain rfl := Except.ok.inj hlisting
      obtain ⟨rfl, -⟩ := deliver_eq_delivered hdeliver hstatus
      rfl

/-- Whoever has looked for itself among the recipients of a message knows what decrypting it will
give: the content, or no more than that it is not for this identity. -/
theorem decrypts_iff_listed (hlawful : P.Lawful) (hsender : Reachable P sender)
    (hreader : Reachable P impl) (howns : OwnsKeyIds P impl sender.recipients) {password : Bytes}
    (hpasses : rejects P impl password = false) {input : Buffer} {buffer : Option Int32}
    (hlisting : ListEncryptionKeyIds P input buffer = .ok listing)
    (hstatus : listing.outcome.status = NO_ERROR) {capacity : Int32}
    (hcapacity : (content.length : ℤ) ≤ capacity.toInt) :
    (Sent P sender content input.1 →
      DecryptBuffer P password input (some capacity) impl =
        .ok (if Listed impl listing then delivered content else { status := INVALID_DATA })) ∧
    (SentArmored P sender content input.1 →
      DecryptStringArmored P password input (some capacity) impl =
        .ok (if Listed impl listing then delivered content else { status := INVALID_DATA })) := by
  have hinput := input.2
  have hroom := capacity.toInt_lt
  have hgenerated := ownKeyGenerated_of_not_rejects hpasses
  have hopens {message : Bytes} (hcarried : Carried P sender content message)
      (hshort : message.length < 2 ^ 31) (hrendered : Rendering message input.1) :=
    hcarried.opened hlawful hsender hreader hgenerated howns (by omega) hshort
      ((hcarried.answers hsender hshort hrendered).records hlisting hstatus)
  constructor
  · intro hsent
    have hcarried := hsent.carried hsender
    have hneg : ¬ (rejects P impl password = true ∨ input.1 = []) := by
      simp [hpasses, hcarried.ne_nil]
    rw [DecryptBuffer, if_neg hneg, hopens hcarried hinput .binary]
    split_ifs
    · exact deliver_of_le 0 hcapacity
    · rfl
  · intro hsent
    obtain ⟨message, htext, hcarried⟩ := hsent.carried hsender
    have hle := length_le_armorEncode (ascii "PGP MESSAGE") message
    rw [← htext] at hle
    have hpos := List.length_pos_iff.mpr hcarried.ne_nil
    have hneg : ¬ (rejects P impl password = true ∨ input.1 = []) := by
      simp [hpasses, List.length_pos_iff.mp (hpos.trans_le hle)]
    have hrendered : Rendering message input.1 := htext ▸ Rendering.armoredMessage message
    have hdecode := armorDecode_armorEncode (show DASH ∉ ascii "PGP MESSAGE" by decide) message []
    rw [List.append_nil, ← htext] at hdecode
    rw [DecryptStringArmored, if_neg hneg, hdecode]
    dsimp only
    rw [hopens hcarried (by omega) hrendered]
    split_ifs
    · exact deliver_of_le 0 hcapacity
    · rfl

theorem decrypts_iff_listed_hi : ∃ (input : Buffer) (listing : Answer ℤ),
    ListEncryptionKeyIds standIn input (some 17) = .ok listing ∧
      Listed shortLivedOwner listing ∧
      DecryptBuffer standIn (ascii "pw") input (some 2) shortLivedOwner =
        .ok (delivered (ascii "hi")) := by
  obtain ⟨importer, input, hreachable, hsender, halone, hsent⟩ := shortLivedOwner_sent
  have hlists := (hsent.carried hreachable).answers hreachable input.2 .binary
  have hrecipients : importer.recipients = [importer.primaryRecipient] :=
    congrArg (importer.primaryRecipient :: ·) halone
  have hlisting : ListEncryptionKeyIds standIn input (some 17) =
      .ok { outcome := delivered (keyIdText importer.primaryRecipient.keyId)
            answer := some 1 } := by
    have hroom : ((keyIdText importer.primaryRecipient.keyId).length : ℤ) ≤
        (17 : Int32).toInt := by
      rw [length_keyIdText]
      decide
    rw [hlists.keyIds, hrecipients, List.flatMap_singleton, deliver_of_le 0 hroom]
    rfl
  obtain ⟨howns, haddressed⟩ := hsender.ownsKeyIds
    shortLivedOwner_published.reachable.ownKeysGenerated shortLivedOwner_published.distinct
    shortLivedOwner_usable
  have hlisted := (listed_iff (hlists.records hlisting rfl)).mpr haddressed
  have hpasses := rejects_eq_false shortLivedOwner_published.generated (by decide)
    shortLivedOwner_password
  have hroom : ((ascii "hi").length : ℤ) ≤ (2 : Int32).toInt := by decide
  have hdecrypted := (decrypts_iff_listed standIn_lawful hreachable
    shortLivedOwner_published.reachable howns hpasses hlisting rfl hroom).1 hsent
  rw [if_pos hlisted] at hdecrypted
  exact ⟨input, _, hlisting, hlisted, hdecrypted⟩

end Readers

/-! ### Signatures that are handed out -/

/-- What the calls say of a signature by this key alone, or behind a clear-signed text. -/
structure SaysSignedBy (P : Primitives) (key : SigningKey) (signatureType : UInt8)
    (input : Buffer) : Prop where
  publicKey : IsPublicKeyEncrypted P input = told false
  password : IsPasswordEncrypted P input = told false
  integrity : IsIntegrityProtected P input = told false
  compression : GetCompression P input = told PGP_COMPRESSION_NOT_PRESENT
  keyIds : ∀ buffer, ListEncryptionKeyIds P input buffer = nothingListed
  signingKeyIds : ∀ buffer, ListSigningKeyIds P input buffer =
    (deliver buffer 0 (keyIdText key.keyId)).map fun outcome => { outcome, answer := some 1 }
  signatures : ∀ buffer, ListSignatures P input buffer =
    (deliver buffer 0 (formatInspectionKeyIdHex (some key.keyId.1) ++
        COLON :: formatInspectionOctetHex signatureType ++
          COLON :: formatInspectionOctetHex key.hashAlgorithm ++ [0])).map fun outcome =>
      { outcome, answer := some 1 }

/-- One of the calls that sign has handed out or written this signature. A clear-signed text is
looked into from the first marker of a signature on, which has to be that of its own. -/
inductive Signed (P : Primitives) (impl : Impl) : SigningKey → UInt8 → Bytes → Prop
  | signBuffer {now : UInt32} {password : Bytes} {document : Buffer} {buffer : Option Int32}
      {outcome : Outcome} (hcall : SignBuffer P now password document buffer impl = .ok outcome)
      (hstatus : outcome.status = NO_ERROR) :
      Signed P impl (selectActiveSigningKeyMaterial impl) 0x00 outcome.output
  | signFile {now : UInt32} {password inputFilePath signatureFilePath content signature : Bytes}
      {files files' : FileSystem} {env : EncryptFileEnv} {signaturePath : WidePath}
      (hopens : OpensFor env inputFilePath signatureFilePath files content signaturePath)
      (hcall : SignFile P now password inputFilePath signatureFilePath impl files env =
        (NO_ERROR, files')) (hfile : files' signaturePath = some signature) :
      Signed P impl impl.masterSigningKey 0x00 signature
  | clearSignString {now : UInt32} {password : Bytes} {text : Buffer} {buffer : Option Int32}
      {outcome : Outcome} (hcall : ClearSignString P now password text buffer impl = .ok outcome)
      (hstatus : outcome.status = NO_ERROR)
      (hclean : ∀ line ∈ splitAndCanonicalizeLines text.1, ¬ signatureMarker <:+: line) :
      Signed P impl (selectActiveSigningKeyMaterial impl) 0x01 outcome.output

section Signer

variable {P : Primitives} {impl : Impl} {key : SigningKey} {signatureType : UInt8}

theorem inspectSignaturePacketBody_fields {body : Bytes} {signature : PgpInspectedSignature}
    (h : inspectSignaturePacketBody body = some signature) (hversion : body[0]? = some 4) :
    signature.signatureType = body.getD 1 0 ∧ signature.hashAlgorithm = body.getD 3 0 := by
  rw [inspectSignaturePacketBody, hversion, if_neg (by decide), if_pos rfl] at h
  dsimp only at h
  split_ifs at h
  · obtain rfl := Option.some.inj h
    exact ⟨rfl, rfl⟩
  · obtain rfl := Option.some.inj h
    exact ⟨rfl, rfl⟩

/-- What inspection reports of a document signature. -/
theorem SigningKey.exists_inspected_sign (P : Primitives) {document : Bytes} {now : UInt32}
    (hmodulus : key.rsaKey.modulus.size ≤ 4096)
    (hsigned : key.sign P signatureType document [] now ≠ []) :
    ∃ body, key.sign P signatureType document [] now = writePacket PGP_TAG_SIGNATURE body ∧
      body.length < 2 ^ 32 ∧
      inspectSignaturePacketBody body =
        some ⟨some key.keyId.1, signatureType, key.hashAlgorithm⟩ := by
  obtain ⟨leftHash, signatureMpis, hleft, hpacket, hlength⟩ := key.sign_eq P hmodulus hsigned
  have hissuer := @inspectSignaturePacketBody_build signatureType key.pkAlgorithm
    key.hashAlgorithm leftHash signatureMpis now key.keyId hleft
  refine ⟨_, hpacket, hlength.trans_lt (by norm_num), ?_⟩
  obtain ⟨signature, hsignature, hkeyId⟩ := Option.bind_eq_some_iff.mp hissuer
  obtain ⟨htype, hhash⟩ := inspectSignaturePacketBody_fields hsignature rfl
  obtain ⟨issuerKeyId, type, hashAlgorithm⟩ := signature
  dsimp only at htype hhash hkeyId
  rw [hsignature, hkeyId, htype, hhash]
  rfl

/-- What a clear-signed text is looked into for. -/
theorem decodeInspectionInputToBinary_clearSigned (keyAlgorithm : PgpKeyAlgorithm)
    {lines : List Bytes} (hclean : ∀ line ∈ lines, ¬ signatureMarker <:+: line)
    (sigPacket : Bytes) :
    decodeInspectionInputToBinary (clearSigned keyAlgorithm lines sigPacket) = some sigPacket := by
  have hstart : signedMessageMarker <+: clearSigned keyAlgorithm lines sigPacket := by
    refine List.IsPrefix.trans ?_ (List.prefix_append _ _)
    cases keyAlgorithm <;> decide
  have hdashes : (clearSigned keyAlgorithm lines sigPacket).take 5 = ascii "-----" := by
    cases keyAlgorithm <;> rfl
  have hne : clearSigned keyAlgorithm lines sigPacket ≠ [] := by
    intro hnil
    rw [hnil] at hdashes
    cases hdashes
  -- the header ends with a LF, which is in no marker
  have hheader : clearSignHeader keyAlgorithm = (clearSignHeader keyAlgorithm).dropLast ++ [LF] ∧
      ¬ signatureMarker <:+: (clearSignHeader keyAlgorithm).dropLast := by
    cases keyAlgorithm <;> decide
  have hfind : find signatureMarker (clearSigned keyAlgorithm lines sigPacket) =
      some ((clearSignHeader keyAlgorithm).length + (writtenLines lines).length) := by
    obtain ⟨hends, hnone⟩ := hheader
    have hlength := congrArg List.length hends
    rw [List.length_append, List.length_singleton] at hlength
    rw [clearSigned, hends, List.append_assoc, List.singleton_append,
      find_append_cons_of_not_infix (by decide) hnone, find_marker_writtenLines hclean,
      find_marker_armor, ← hends, hlength]
    rfl
  have hdecode := armorDecode_armorEncode (show DASH ∉ ascii "PGP SIGNATURE" by decide) sigPacket []
  rw [List.append_nil] at hdecode
  rw [decodeInspectionInputToBinary, if_neg hne, if_pos hdashes,
    if_pos (List.isPrefixOf_iff_prefix.mpr hstart), hfind, Option.bind_some, clearSigned,
    ← List.append_assoc, ← List.length_append, List.drop_left, hdecode]
  rfl

theorem SignBuffer_noError {now : UInt32} {password : Bytes} {document : Buffer}
    {buffer : Option Int32} {outcome : Outcome}
    (h : SignBuffer P now password document buffer impl = .ok outcome)
    (hstatus : outcome.status = NO_ERROR) :
    rejects P impl password = false ∧
      (selectActiveSigningKeyMaterial impl).sign P 0x00 document.1 [] now ≠ [] ∧
      outcome.output = (selectActiveSigningKeyMaterial impl).sign P 0x00 document.1 [] now := by
  unfold SignBuffer at h
  split_ifs at h with hrejected
  · obtain rfl := Except.ok.inj h
    cases hstatus
  · dsimp only at h
    split_ifs at h with hunsigned
    · obtain rfl := Except.ok.inj h
      cases hstatus
    · obtain ⟨rfl, -⟩ := deliver_eq_delivered h hstatus
      exact ⟨Bool.eq_false_iff.mpr hrejected, hunsigned, rfl⟩

theorem ClearSignString_accepted {now : UInt32} {password : Bytes} {text : Buffer}
    {buffer : Option Int32} {outcome : Outcome}
    (h : ClearSignString P now password text buffer impl = .ok outcome)
    (hstatus : outcome.status = NO_ERROR) : rejects P impl password = false := by
  by_contra hrejects
  rw [ClearSignString, if_pos (Bool.not_eq_false _ ▸ hrejects)] at h
  obtain rfl := Except.ok.inj h
  cases hstatus

/-- A packet is looked at as it is. -/
theorem decodeInspectionInputToBinary_writePacket (tag : UInt8) (body : Bytes) :
    decodeInspectionInputToBinary (writePacket tag body) = some (writePacket tag body) := by
  have hdash : (writePacket tag body).head? ≠ some DASH :=
    fun h => newFormat_ne_dash tag (Option.some.inj h)
  rcases Rendering.binary.decode hdash with hdecode | ⟨hnil, -⟩
  · exact hdecode
  · exact absurd hnil (writePacket_ne_nil tag body)

/-- The packet that is looked at, of what is handed out. -/
theorem Signed.exists_packet (hreachable : Reachable P impl) {output : Bytes}
    (h : Signed P impl key signatureType output) : ∃ document now,
      key.sign P signatureType document [] now ≠ [] ∧ key.rsaKey.modulus.size ≤ 4096 ∧
      decodeInspectionInputToBinary output =
        some (key.sign P signatureType document [] now) := by
  have hwhole {key : SigningKey} (document : Bytes) (now : UInt32)
      (hmodulus : key.rsaKey.modulus.size ≤ 4096) (hsigned : key.sign P 0x00 document [] now ≠ []) :
      decodeInspectionInputToBinary (key.sign P 0x00 document [] now) =
        some (key.sign P 0x00 document [] now) := by
    obtain ⟨body, hpacket, -⟩ := key.exists_inspected_sign P hmodulus hsigned
    rw [hpacket]
    exact decodeInspectionInputToBinary_writePacket PGP_TAG_SIGNATURE body
  have hactive {password : Bytes} (hpasses : rejects P impl password = false) :=
    hreachable.ownKeysGenerated.activeModulus_size (ownKeyGenerated_of_not_rejects hpasses)
  cases h with
  | signBuffer hcall hstatus =>
      obtain ⟨hpasses, hsigned, houtput⟩ := SignBuffer_noError hcall hstatus
      rw [houtput]
      exact ⟨_, _, hsigned, hactive hpasses, hwhole _ _ (hactive hpasses) hsigned⟩
  | signFile hopens hcall hfile =>
      obtain ⟨rfl, hsigned⟩ := SignFile_written hopens hcall hfile
      have hmodulus := hreachable.masterModulus_size
      exact ⟨_, _, hsigned, hmodulus, hwhole _ _ hmodulus hsigned⟩
  | clearSignString hcall hstatus hclean =>
      obtain ⟨hsigned, houtput, -⟩ := ClearSignString_noError hcall hstatus
      have hpasses := ClearSignString_accepted hcall hstatus
      rw [houtput]
      exact ⟨_, _, hsigned, hactive hpasses,
        decodeInspectionInputToBinary_clearSigned impl.keyAlgorithm hclean _⟩

/-- Inspection reports one signature, and nothing else. -/
theorem inspectMessageBuffer_sign {document input : Bytes} {now : UInt32}
    (hmodulus : key.rsaKey.modulus.size ≤ 4096)
    (hsigned : key.sign P signatureType document [] now ≠ [])
    (hinput : decodeInspectionInputToBinary input =
      some (key.sign P signatureType document [] now)) :
    inspectMessageBuffer P input = .ok (some
      { sawAnyPacket := true
        signatures := [⟨some key.keyId.1, signatureType, key.hashAlgorithm⟩] }) := by
  obtain ⟨body, hpacket, hbody, hinspected⟩ := key.exists_inspected_sign P hmodulus hsigned
  rw [hpacket] at hinput
  -- behind a clear-signed text or alone, the same packet is looked at
  have hsame : inspectMessageBuffer P input =
      inspectMessageBuffer P (writePacket PGP_TAG_SIGNATURE body) := by
    rw [inspectMessageBuffer, inspectMessageBuffer, hinput,
      decodeInspectionInputToBinary_writePacket]
  have hnested : nestedPackets P 3 PGP_TAG_SIGNATURE body = .ok none := by
    rw [nestedPackets.eq_def,
      if_pos (Or.inl (show PGP_TAG_SIGNATURE ≠ PGP_TAG_COMPRESSED_DATA by decide))]
  have hnoted : ({} : PgpInspectedMessage).note PGP_TAG_SIGNATURE body =
      { sawAnyPacket := true
        signatures := [⟨some key.keyId.1, signatureType, key.hashAlgorithm⟩] } := by
    have hreport : ({} : PgpInspectedMessage).note PGP_TAG_SIGNATURE body =
      { sawAnyPacket := true, signatures := (inspectSignaturePacketBody body).toList } := rfl
    rw [hreport, hinspected]
    rfl
  rw [hsame, inspectMessageBuffer_written (.single (by decide) hbody) .binary]
  simp only [inspectPackets, inspectPacket, hnested, hnoted]
  rfl

/-- What the calls say of a signature that was handed out or written: there is one, by the key
that made it, and nothing else. -/
theorem signed_saysSignedBy (hreachable : Reachable P impl) {input : Buffer}
    (h : Signed P impl key signatureType input.1) : SaysSignedBy P key signatureType input := by
  obtain ⟨document, now, hsigned, hmodulus, hinput⟩ := h.exists_packet hreachable
  have hreport := inspectMessageBuffer_sign hmodulus hsigned hinput
  have hlength := length_keyIdText key.keyId
  constructor
  · rw [IsPublicKeyEncrypted, answerFrom_some hreport]
  · rw [IsPasswordEncrypted, answerFrom_some hreport]
  · rw [IsIntegrityProtected, answerFrom_some hreport]
  · rw [GetCompression, answerFrom_some hreport]
    rfl
  · intro buffer
    rw [ListEncryptionKeyIds, answerFrom_some hreport, listRecords_nil]
  · intro buffer
    rw [ListSigningKeyIds, answerFrom_some hreport]
    exact listRecords_singleton _ _ hlength (by decide) buffer
  · intro buffer
    have hrecord : ((formatInspectionKeyIdHex (some key.keyId.1) ++
        COLON :: formatInspectionOctetHex signatureType ++
          COLON :: formatInspectionOctetHex key.hashAlgorithm) ++ [0]).length = 23 := by
      rw [← formatInspectionKeyIdHex_append, List.length_append, List.length_singleton] at hlength
      simp only [List.length_append, List.length_cons, formatInspectionOctetHex, List.length_nil]
      omega
    rw [ListSignatures, answerFrom_some hreport]
    exact listRecords_singleton _ _ hrecord (by decide) buffer

end Signer

/-- A short text that is signed in a file. -/
theorem signed_saysSignedBy_hi : ∃ input : Buffer,
    Signed standIn shortLivedOwner shortLivedOwner.masterSigningKey 0x00 input.1 ∧
      SaysSignedBy standIn shortLivedOwner.masterSigningKey 0x00 input := by
  have hcall := shortLivedOwner_signs (ascii "hi")
  have hreachable := shortLivedOwner_published.reachable
  have hlength := @SigningKey.length_sign standIn shortLivedOwner.masterSigningKey
    hreachable.masterModulus_size 0 (ascii "hi") 1500
  generalize shortLivedOwner.masterSigningKey.sign standIn 0 (ascii "hi") [] 1500 = signature
    at hcall hlength
  have hfile : Function.update (fileAtA (ascii "hi")) [99] (some signature) [99] =
      some signature := Function.update_self ..
  have hsigned := Signed.signFile (servingSendEnv_serves (ascii "hi")).toOpensFor hcall hfile
  exact ⟨⟨signature, by omega⟩, hsigned, signed_saysSignedBy hreachable hsigned⟩

end HashCryptoLib.Pgp
