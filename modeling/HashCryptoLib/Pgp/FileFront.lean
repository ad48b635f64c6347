import HashCryptoLib.Pgp.EncryptionSizes
import HashCryptoLib.Pgp.FileEncryption
import HashCryptoLib.Pgp.FileSafety

/-!
The front of an encrypted file. The search for the session key sees the first octets of the file
only, looks at one key, and goes on behind the packet it was looking for. Over the session key
packets of a written message it finds the session key where one of them is for this key, if all of
them and the header behind them lie in what was read.
-/

namespace HashCryptoLib.Pgp

open BigEndian Cursor

/-! ### Headers in a buffer that is cut off -/

section Headers

variable {content header rest : Bytes} {pos size : ℕ} {tag : UInt8} {length : BodyLength}
  {packet : PacketHeader}

theorem readPacketHeader_accepting {data : Bytes} {dataEnd : Option ℕ}
    (h : readPacketHeader data pos dataEnd false = some packet) :
    readPacketHeader data pos dataEnd true = some packet := by
  rw [readPacketHeader] at h ⊢
  dsimp only at h ⊢
  cases hfirst : data[pos]? with
  | none =>
      rw [hfirst] at h
      cases h
  | some first =>
      rw [hfirst] at h
      dsimp only at h ⊢
      by_cases h80 : first &&& 0x80 = 0
      · rw [if_pos h80] at h
        cases h
      rw [if_neg h80] at h ⊢
      by_cases h40 : first &&& 0x40 = 0
      · rw [if_neg (not_not.mpr h40)] at h ⊢
        exact h
      rw [if_pos h40] at h ⊢
      cases hlength : data[pos + 1]? with
      | none =>
          rw [hlength] at h
          cases h
      | some lenFirst =>
          rw [hlength] at h
          dsimp only at h ⊢
          by_cases h192 : lenFirst < 192
          · rwa [if_pos h192] at h ⊢
          rw [if_neg h192] at h ⊢
          by_cases h224 : lenFirst < 224
          · rwa [if_pos h224] at h ⊢
          rw [if_neg h224] at h ⊢
          by_cases h255 : lenFirst < 255
          · rw [if_pos h255] at h
            cases h
          · rwa [if_neg h255] at h ⊢

/-- What is read as a header in the first octets is the header that stands there. -/
theorem readPacketHeader_take {acceptPartial : Bool}
    (h : readPacketHeader (content.take size) pos none acceptPartial = some packet)
    (hheader : HeaderOf tag header length) (hat : At content pos (header ++ rest)) :
    ∃ available, packet = ⟨tag, length.announced available, pos + header.length,
      length.isChunked⟩ := by
  have hread : readPacketHeader (content.take size) pos none true = some packet := by
    cases acceptPartial with
    | false => exact readPacketHeader_accepting h
    | true => exact h
  obtain ⟨tag', header', length', rest', hheader', hat', rfl⟩ := HeaderOf.of_read_eq hread
  have hwhole := hat'.extend (content.drop size)
  rw [List.take_append_drop, List.append_assoc] at hwhole
  obtain ⟨rfl, rfl, -, rfl⟩ := hheader.unique hheader' (hat.unique hwhole)
  exact ⟨_, rfl⟩

theorem headerOf_writePacket {body : Bytes} (htag : tag < 64) (hfits : body.length < 2 ^ 32) :
    HeaderOf tag (packetHeaderFor tag body.length) (.definite body.length) := by
  have hannounces := announces_appendNewFormatLength body.length
  rw [Nat.mod_eq_of_lt hfits] at hannounces
  exact .newFormat htag hannounces

end Headers

/-! ### One packet -/

section Packets

variable {P : Primitives} {key : DecryptionKey} {buf tail rest plain : Bytes} {bodyPos pos : ℕ}
  {found : Option Bytes}

theorem tryFilePkesk_skip {keyId : Octets 8} {algorithm : PgpKeyAlgorithm}
    (hne : keyId ≠ key.keyId)
    (h : At buf bodyPos (pkeskBody keyId algorithm tail ++ rest)) (pkeskEnd : ℕ) :
    tryFilePkesk P key buf bodyPos pkeskEnd found = some found := by
  obtain ⟨-, hkeyId, -, -⟩ := pkeskBody_at h
  have hother : readOctets buf (bodyPos + 1) 8 ≠ some key.keyId.1 := by
    rw [hkeyId]
    exact fun heq => hne (Subtype.ext (Option.some.inj heq))
  rw [tryFilePkesk]
  split
  · rfl
  split
  · rfl
  rw [if_pos (Or.inr hother)]

/-- One's own packet gives the cleartext it was built from, also when it comes again. -/
theorem tryFilePkesk_own (hlawful : P.Lawful) (hgenerated : key.Generated P) {seed : ℕ}
    (hplain : plain.length ≤ 35)
    (hencrypt : encryptSessionKey P (key.recipient P) plain seed = some tail)
    (hfound : found = none ∨ found = some plain)
    (h : At buf bodyPos (pkeskBody key.keyId key.algorithm tail ++ rest)) :
    tryFilePkesk P key buf bodyPos (bodyPos + 10 + tail.length) found = some (some plain) := by
  obtain ⟨hversion, hkeyId, hoctet, htail⟩ := pkeskBody_at h
  rw [tryFilePkesk, if_neg fun h => h.elim (by omega) fun hne => hne hversion, if_neg (by omega),
    if_neg fun h => h.elim (fun hne => hne hoctet) fun hne => hne hkeyId]
  dsimp only
  cases halgorithm : key.algorithm with
  | PGP_KEY_ALGORITHM_RSA =>
      simp only [DecryptionKey.Generated, halgorithm] at hgenerated
      obtain ⟨genSeed, bits, hbits, hkey⟩ := hgenerated
      rw [encryptSessionKey_rsa P halgorithm, Option.map_eq_some_iff] at hencrypt
      obtain ⟨pkcsCipher, hcipher, rfl⟩ := hencrypt
      have hopen := openRsaPkesk_own hlawful hbits hkey hcipher htail
      dsimp only
      rcases hfound with rfl | rfl
      · rw [if_pos rfl, hopen]
      · rw [if_neg (by simp), if_neg]
        -- what the packet says of its length was checked when it was opened
        rintro (hshort | hshort)
        · rw [openRsaPkesk, if_pos hshort] at hopen
          cases hopen
        · rw [openRsaPkesk] at hopen
          dsimp only at hopen
          split_ifs at hopen
  | PGP_KEY_ALGORITHM_ED25519_X25519 =>
      simp only [DecryptionKey.Generated, halgorithm] at hgenerated
      obtain ⟨genSeed, hkey⟩ := hgenerated
      obtain ⟨sharedSecret, wrapped, hagree, hwrapped, rfl⟩ :=
        encryptSessionKey_x25519 P halgorithm hencrypt
      rw [List.append_assoc, List.cons_append] at htail
      have hopen := openEcdhPkesk_own hlawful hplain hkey hagree hwrapped htail
      have hend : bodyPos + 10 + (encodeNativePointMpi (P.x25519PublicKey
          (P.generateX25519PrivateKey seed)) ++ (UInt8.ofNat wrapped.length :: wrapped)).length =
          bodyPos + 10 + 36 + wrapped.length := by
        simp only [List.length_append, length_encodeNativePointMpi, List.length_cons]
        omega
      dsimp only
      rw [hend, hopen]
      rfl

/-! ### The search -/

theorem findFileSessionKey_packet {body : Bytes} (hbody : body.length < 2 ^ 32)
    (h : At buf pos (writePacket PGP_TAG_PKESK body ++ rest)) :
    ∃ bodyPos, At buf bodyPos (body ++ rest) ∧
      bodyPos + body.length = pos + (writePacket PGP_TAG_PKESK body).length ∧
      ∀ found', tryFilePkesk P key buf bodyPos (bodyPos + body.length) found = some found' →
        findFileSessionKey P key buf pos found =
          findFileSessionKey P key buf (bodyPos + body.length) found' := by
  obtain ⟨bodyPos, hread, hat⟩ := readPacketHeader_writePacket (by decide) hbody h
  refine ⟨bodyPos, hat, ?_, fun found' htry => ?_⟩
  · have hlength := hat.length_eq
    rw [h.length_eq, List.length_append, List.length_append] at hlength
    omega
  · rw [findFileSessionKey]
    split
    · rename_i hnone
      rw [hread] at hnone
      cases hnone
    rename_i header hsome
    rw [hread] at hsome
    cases hsome
    rw [dif_neg (not_or.mpr ⟨by simp, Nat.not_lt.mpr hat.le⟩)]
    simp only [htry]

variable {sessionKey pkesks : Bytes} {cipherAlgorithmOctet : UInt8} {seed : ℕ → ℕ} {i : ℕ}
  {recipients : List PgpEncryptionRecipient}

/-- The key ID of `key` stands for that key only, which came out of a generator. -/
def KeyIdIsOwn (P : Primitives) (key : DecryptionKey) (recipients : List PgpEncryptionRecipient) :
    Prop :=
  ∀ recipient ∈ recipients, recipient.keyId = key.keyId →
    key.Generated P ∧ recipient = key.recipient P

theorem DecryptionKey.Generated.keyIdIsOwn (h : key.Generated P) :
    KeyIdIsOwn P key [key.recipient P] :=
  fun _ hmem _ => ⟨h, List.mem_singleton.mp hmem⟩

/-- Over the packets for some recipients, the search finds the cleartext where the key is one of
theirs, and nothing new where it is not. -/
theorem findFileSessionKey_packets (hlawful : P.Lawful)
    (hkey : sessionKey.length ≤ 32)
    (hmodulus : ∀ recipient ∈ recipients, recipient.rsaPublicKey.modulus.size ≤ 2 ^ 16)
    (hown : KeyIdIsOwn P key recipients)
    (hfound : found = none ∨ found = some (sessionKeyPlain cipherAlgorithmOctet sessionKey))
    (hbuild : buildPkeskPackets P sessionKey cipherAlgorithmOctet seed i recipients = some pkesks)
    (h : At buf pos (pkesks ++ rest)) :
    findFileSessionKey P key buf pos found =
      findFileSessionKey P key buf (pos + pkesks.length)
        (if ∃ recipient ∈ recipients, recipient.keyId = key.keyId then
          some (sessionKeyPlain cipherAlgorithmOctet sessionKey) else found) := by
  induction recipients generalizing i pos pkesks found with
  | nil =>
      obtain rfl := Option.some.inj hbuild
      rw [if_neg (by simp)]
      rfl
  | cons recipient recipients ih =>
      obtain ⟨tail, others, hencrypt, hothers, rfl⟩ := buildPkeskPackets_cons hbuild
      have hplain := length_sessionKeyPlain cipherAlgorithmOctet sessionKey
      obtain ⟨hlen, hbody⟩ := pkeskBody_length (hmodulus recipient List.mem_cons_self)
        (by omega) hencrypt
      rw [List.append_assoc] at h
      obtain ⟨bodyPos, hat, hend, hstep⟩ :=
        @findFileSessionKey_packet P key buf (others ++ rest) pos found _ hbody h
      have hnext := hat.advance
      have hmodulus' := fun other hmem => hmodulus other (List.mem_cons_of_mem recipient hmem)
      have hown' : KeyIdIsOwn P key recipients :=
        fun other hmem => hown other (List.mem_cons_of_mem recipient hmem)
      rw [List.length_append, ← Nat.add_assoc, ← hend]
      by_cases hmine : recipient.keyId = key.keyId
      · obtain ⟨hgenerated, rfl⟩ := hown recipient List.mem_cons_self hmine
        rw [DecryptionKey.recipient_keyId, DecryptionKey.recipient_algorithm] at *
        have htry := tryFilePkesk_own hlawful hgenerated (by omega) hencrypt hfound hat
        rw [Nat.add_assoc, ← hlen] at htry
        rw [hstep _ htry, ih hmodulus' hown' (.inr rfl) hothers hnext, ite_self,
          if_pos ⟨_, List.mem_cons_self, DecryptionKey.recipient_keyId P key⟩]
      · rw [hstep found (tryFilePkesk_skip hmine hat _), ih hmodulus' hown' hfound hothers hnext]
        congr 2
        simp [hmine]

/-- In front of another packet the search stops. -/
theorem findFileSessionKey_end {content header rest : Bytes} {length : BodyLength} {tag : UInt8}
    {size : ℕ} (hheader : HeaderOf tag header length) (hne : tag ≠ PGP_TAG_PKESK)
    (hat : At content pos (header ++ rest)) :
    findFileSessionKey P key (content.take size) pos found = some (found, pos) := by
  rw [findFileSessionKey]
  split
  · rfl
  · rename_i packet hread
    obtain ⟨available, rfl⟩ := readPacketHeader_take hread hheader hat
    rw [dif_pos (Or.inl hne)]

/-- Where a protected packet is found, all the session key packets have been seen. -/
theorem findFileSessionKey_stops {content header rest : Bytes} {length : BodyLength} {tag : UInt8}
    {size pos' : ℕ} {found' : Option Bytes} {seip : PacketHeader} (hkey : sessionKey.length ≤ 32)
    (hmodulus : ∀ recipient ∈ recipients, recipient.rsaPublicKey.modulus.size ≤ 2 ^ 16)
    (hbuild : buildPkeskPackets P sessionKey cipherAlgorithmOctet seed i recipients = some pkesks)
    (hheader : HeaderOf tag header length) (hne : tag ≠ PGP_TAG_PKESK)
    (hat : At content pos (pkesks ++ (header ++ rest)))
    (h : findFileSessionKey P key (content.take size) pos found = some (found', pos'))
    (hseip : readSeipHeader (content.take size) pos' = some seip) :
    pos' = pos + pkesks.length := by
  induction recipients generalizing i pos pkesks found with
  | nil =>
      obtain rfl := Option.some.inj hbuild
      rw [findFileSessionKey_end hheader hne hat] at h
      exact (Prod.mk.inj (Option.some.inj h)).2.symm
  | cons recipient recipients ih =>
      obtain ⟨tail, others, hencrypt, hothers, rfl⟩ := buildPkeskPackets_cons hbuild
      have hplain := length_sessionKeyPlain cipherAlgorithmOctet sessionKey
      obtain ⟨-, hbody⟩ := pkeskBody_length (hmodulus recipient List.mem_cons_self)
        (by omega) hencrypt
      generalize pkeskBody recipient.keyId recipient.algorithm tail = body at *
      have hhere := hat
      rw [← packetHeaderFor_append, List.append_assoc, List.append_assoc] at hhere
      have hpkesk := @headerOf_writePacket PGP_TAG_PKESK body (by decide) hbody
      have hstuck : pos' ≠ pos := by
        rintro rfl
        obtain ⟨hread, htag, -⟩ := readSeipHeader_cases hseip
        obtain ⟨available, rfl⟩ := readPacketHeader_take hread hpkesk hhere
        cases htag
      rw [findFileSessionKey] at h
      split at h
      · exact absurd (Prod.mk.inj (Option.some.inj h)).2.symm hstuck
      rename_i packet hread
      obtain ⟨available, rfl⟩ := readPacketHeader_take hread hpkesk hhere
      split at h
      · exact absurd (Prod.mk.inj (Option.some.inj h)).2.symm hstuck
      split at h
      · cases h
      rename_i found'' htry
      rw [List.append_assoc] at hat
      have hend : pos + (packetHeaderFor PGP_TAG_PKESK body.length).length + body.length =
          pos + (writePacket PGP_TAG_PKESK body).length := by
        rw [← packetHeaderFor_append, List.length_append, Nat.add_assoc]
      rw [show (BodyLength.definite body.length).announced available = body.length from rfl] at h
      dsimp only at h
      rw [hend] at h
      rw [ih (fun other hmem => hmodulus other (List.mem_cons_of_mem _ hmem)) hothers hat.advance h,
        List.length_append, Nat.add_assoc]

end Packets

/-! ### The protected packet behind them -/

/-- The header of the protected packet at `pos`, and the version behind it, lie in the first `size`
octets. -/
def SeipInReach (content : Bytes) (pos size : ℕ) : Prop :=
  ∃ header length rest, HeaderOf PGP_TAG_SEIP header length ∧ At content pos (header ++ rest) ∧
    pos + header.length < size

section Front

variable {P : Primitives} {key : DecryptionKey} {content cipher : Bytes} {pos size : ℕ}

/-- A protected packet, from its header on. -/
theorem ProtectedPacket.header (h : ProtectedPacket content pos cipher) :
    ∃ header length ahead rest, HeaderOf PGP_TAG_SEIP header length ∧
      length.Carries (1 :: ahead) (1 :: cipher) ∧ (length.isChunked = true → ∀ available,
        1 ≤ length.announced available) ∧ At content pos (header ++ 1 :: (ahead ++ rest)) := by
  obtain ⟨packet, htag, hbody, rest, hat⟩ := h
  obtain ⟨header, length, ahead, hheader, hcarries, hoctets⟩ :=
    isPacket_iff.mp (.inl ⟨packet, htag, hbody, rfl⟩)
  rw [hoctets, List.append_assoc] at hat
  cases hheader with
  | newFormat htag hlength =>
      obtain ⟨rfl, -⟩ := id hcarries
      exact ⟨_, _, cipher, rest, .newFormat htag hlength, hcarries,
        fun h => absurd h Bool.false_ne_true, hat⟩
  | chunked htag hlength =>
      obtain ⟨exponent, -, rfl, -⟩ := hlength.more
      have hone : 1 ≤ 2 ^ exponent := Nat.one_le_two_pow
      obtain ⟨-, ahead', rfl, -⟩ := Chunked.take hcarries hone
      exact ⟨_, _, ahead', rest, .chunked htag hlength, hcarries, fun _ _ => hone, hat⟩
  | oldFormat form hsmall => exact absurd hsmall (by decide)
  | indeterminate hsmall => exact absurd hsmall (by decide)

/-- The header that is read is the one that stands there. -/
theorem readSeipHeader_eq {seip : PacketHeader} {tag : UInt8} {header rest : Bytes}
    {length : BodyLength} (h : readSeipHeader (content.take size) pos = some seip)
    (hheader : HeaderOf tag header length) (hat : At content pos (header ++ rest)) :
    tag = PGP_TAG_SEIP ∧ pos + header.length < size ∧ ∃ available,
      seip = ⟨tag, length.announced available, pos + header.length, length.isChunked⟩ := by
  obtain ⟨hread, htag, hlt⟩ := readSeipHeader_cases h
  obtain ⟨available, rfl⟩ := readPacketHeader_take hread hheader hat
  rw [List.length_take] at hlt
  exact ⟨htag, hlt.trans_le (Nat.min_le_left _ _), available, rfl⟩

/-- The header is read where it is in reach. -/
theorem readSeipHeader_isSome_iff (hpacket : ProtectedPacket content pos cipher) :
    (∃ seip, readSeipHeader (content.take size) pos = some seip) ↔ SeipInReach content pos size := by
  obtain ⟨header, length, ahead, rest, hheader, -, -, hat⟩ := hpacket.header
  constructor
  · rintro ⟨seip, hseip⟩
    exact ⟨header, length, _, hheader, hat, (readSeipHeader_eq hseip hheader hat).2.1⟩
  · rintro ⟨header', length', rest', hheader', hat', hreach⟩
    obtain ⟨-, rfl, -, -⟩ := hheader.unique hheader' (hat.unique hat')
    have hbuf := hat.take (show pos ≤ size by omega)
    obtain ⟨room, hroom⟩ : ∃ room, size - pos = header.length + (room + 1) :=
      ⟨size - pos - header.length - 1, by omega⟩
    rw [hroom, List.take_length_add_append, List.take_succ_cons] at hbuf
    rw [readSeipHeader, hheader.read hbuf, Option.filter_some, if_pos]
    · exact ⟨_, rfl⟩
    · exact decide_eq_true ⟨rfl, hbuf.advance.head⟩

/-- The front of a file with a protected packet in reach is taken in. -/
theorem parseEncryptedFileHeader_some {found : Option Bytes} {sessionKey : Bytes}
    (hfind : findFileSessionKey P key (content.take PREFIX_SIZE) 0 none = some (found, pos))
    (hkey : found.bind sessionKeyOf = some sessionKey)
    (hpacket : ProtectedPacket content pos cipher) (hreach : SeipInReach content pos PREFIX_SIZE) :
    ∃ header, parseEncryptedFileHeader P key content = some header := by
  obtain ⟨seip, hseip⟩ := (readSeipHeader_isSome_iff hpacket).mpr hreach
  rw [parseEncryptedFileHeader]
  dsimp only
  rw [hfind]
  dsimp only
  rw [hkey]
  dsimp only
  rw [hseip]
  dsimp only
  by_cases hchunks : seip.isPartial = true
  · obtain ⟨ahead, rest, hat, ⟨hwhole, -⟩ | ⟨-, hchunked⟩⟩ := protectedPacket_ahead hseip hpacket
    · exact absurd (hwhole.symm.trans hchunks) Bool.false_ne_true
    obtain ⟨hle, ahead₁, rfl, hrest⟩ := hchunked.take le_rfl
    rw [List.append_assoc] at hat
    have hnext := hat.advance
    rw [Nat.sub_self] at hrest
    rw [List.length_take_of_le hle] at hnext
    have hfirst : 1 ≤ seip.bodyLength := by
      obtain ⟨header, length, ahead, rest, hheader, -, hfirst, hhere⟩ := hpacket.header
      obtain ⟨-, -, available, rfl⟩ := readSeipHeader_eq hseip hheader hhere
      exact hfirst hchunks available
    rw [if_pos hchunks, scanPartialBodyTotalLength_chunked hrest hnext]
    dsimp only
    rw [if_neg (by omega)]
    exact ⟨_, rfl⟩
  · rw [if_neg hchunks]
    exact ⟨_, rfl⟩

/-- The header of the protected packet was found where the session key packets end. -/
theorem parseEncryptedFileHeader_seip {header : DecryptFileHeader} {found : Option Bytes}
    (h : parseEncryptedFileHeader P key content = some header)
    (hfind : findFileSessionKey P key (content.take PREFIX_SIZE) 0 none = some (found, pos)) :
    ∃ seip, readSeipHeader (content.take PREFIX_SIZE) pos = some seip := by
  rw [parseEncryptedFileHeader] at h
  dsimp only at h
  rw [hfind] at h
  dsimp only at h
  split at h
  · cases h
  split at h
  · cases h
  · exact ⟨_, ‹_›⟩

end Front

/-! ### The front of a written message -/

/-- The session key packets, and the header of the protected packet behind them, end in front of the
last octet that is read of the file in one piece. -/
def FrontFits (P : Primitives) (message : MessageEnv) (recipients : List PgpEncryptionRecipient)
    (cipherAlgorithmOctet : UInt8) (packet : Bytes) : Prop :=
  ∃ pkesks, buildPkeskPackets P (message.sessionKeyFor cipherAlgorithmOctet) cipherAlgorithmOctet
      message.seed 0 recipients = some pkesks ∧
    pkesks.length + (packetHeaderFor PGP_TAG_SEIP (packet.length + 41)).length < PREFIX_SIZE

section Sizes

variable {P : Primitives} {recipient : PgpEncryptionRecipient} {plain sessionKey pkesks : Bytes}
  {cipherAlgorithmOctet : UInt8} {seed : ℕ → ℕ} {i octets : ℕ}

/-- In a session key packet the key takes as many octets as the modulus, or six blocks. -/
theorem pkeskSize_le {n : ℕ} (hmodulus : recipient.rsaPublicKey.modulus.size ≤ 4096)
    (hplain : plain.length ≤ 35) (h : cipherOctets P recipient plain n = some octets) :
    pkeskSize recipient octets ≤ 527 := by
  rw [cipherOctets] at h
  rw [pkeskSize, packetSize]
  cases halgorithm : recipient.algorithm with
  | PGP_KEY_ALGORITHM_RSA =>
      rw [halgorithm] at h
      obtain ⟨pkcsCipher, -, rfl⟩ := Option.map_eq_some_iff.mp h
      have hle := octetsOfBits_size_le (ofOctets_lt pkcsCipher.1)
      have hbytes : rsaModulusByteLength recipient.rsaPublicKey.modulus ≤ 512 := by
        unfold rsaModulusByteLength octetsOfBits
        omega
      rw [Octets.length_eq] at hle
      dsimp only
      split_ifs <;> omega
  | PGP_KEY_ALGORITHM_ED25519_X25519 =>
      rw [halgorithm] at h
      obtain ⟨sharedSecret, -, rfl⟩ := Option.map_eq_some_iff.mp h
      obtain ⟨-, -, hpadded⟩ := padPkcs5_facts plain
      dsimp only
      split_ifs <;> omega

theorem length_buildPkeskPackets_le {recipients : List PgpEncryptionRecipient}
    (hmodulus : ∀ recipient ∈ recipients, recipient.rsaPublicKey.modulus.size ≤ 4096)
    (hkey : sessionKey.length ≤ 32)
    (h : buildPkeskPackets P sessionKey cipherAlgorithmOctet seed i recipients = some pkesks) :
    pkesks.length ≤ 527 * recipients.length := by
  induction recipients generalizing i pkesks with
  | nil =>
      obtain rfl := Option.some.inj h
      simp
  | cons recipient recipients ih =>
      rw [buildPkeskPackets] at h
      have hsize := length_buildPkeskPacketForRecipient P recipient sessionKey
        cipherAlgorithmOctet (seed i)
      have hplain := length_sessionKeyPlain cipherAlgorithmOctet sessionKey
      split_ifs at h with hempty
      obtain ⟨others, hothers, rfl⟩ := Option.map_eq_some_iff.mp h
      have hrest := ih (fun other hmem => hmodulus other (.tail _ hmem)) hothers
      cases hcipher : cipherOctets P recipient (sessionKeyPlain cipherAlgorithmOctet sessionKey)
          (seed i) with
      | none =>
          rw [hcipher] at hsize
          exact absurd (List.length_eq_zero_iff.mp hsize) hempty
      | some octets =>
          have hle := pkeskSize_le (hmodulus recipient (.head _)) (by omega) hcipher
          rw [hcipher, Option.elim_some] at hsize
          rw [List.length_append, List.length_cons]
          omega

/-- A session key is encrypted to every RSA key that came out of a generator. -/
theorem buildPkeskPackets_rsa (hlawful : P.Lawful) {recipients : List PgpEncryptionRecipient}
    (hrsa : ∀ recipient ∈ recipients, recipient.algorithm = PGP_KEY_ALGORITHM_RSA ∧
      ∃ n bits, IsRsaKeySize bits ∧
        recipient.rsaPublicKey = (P.generateRsaKey n bits).1.publicKey)
    (hkey : sessionKey.length ≤ 32) :
    ∃ pkesks, buildPkeskPackets P sessionKey cipherAlgorithmOctet seed i recipients =
      some pkesks := by
  refine buildPkeskPackets_encryptable (fun recipient hmem => ?_) hkey
  obtain ⟨halgorithm, n, bits, hbits, hpublic⟩ := hrsa recipient hmem
  exact .rsa hlawful halgorithm hbits hpublic

theorem OwnKeysGenerated.flat_generated {impl : Impl} (hkeys : OwnKeysGenerated P impl)
    (hgenerated : impl.ownKeyGenerated = true)
    (halgorithm : impl.keyAlgorithm = PGP_KEY_ALGORITHM_RSA) :
    impl.flatDecryptionKey.Generated P := by
  obtain ⟨subkey, hmem, hkey⟩ := hkeys.tried hgenerated List.mem_cons_self
  rw [hkey]
  exact (hkeys.subkeys subkey hmem).decryptionKey (hkeys.rsa_encrypts halgorithm hmem)

/-- The front of a message is short enough for 124 recipients with keys of the common sizes. -/
theorem frontFits_of_few {message : MessageEnv} {recipients : List PgpEncryptionRecipient}
    {cipher : PgpSymmetricAlgorithm} {packet file : Bytes}
    (hmodulus : ∀ recipient ∈ recipients, recipient.rsaPublicKey.modulus.size ≤ 4096)
    (hfew : recipients.length ≤ 124)
    (h : protectedMessage P message recipients cipher.octet packet = some file) :
    FrontFits P message recipients cipher.octet packet := by
  obtain ⟨pkesks, hbuilt, -⟩ := Option.map_eq_some_iff.mp h
  have hle := length_buildPkeskPackets_le hmodulus (message.length_sessionKeyFor_le cipher.octet)
    hbuilt
  have hheader := length_appendNewFormatLength_le (packet.length + 41)
  refine ⟨pkesks, hbuilt, ?_⟩
  rw [packetHeaderFor, List.length_cons, PREFIX_SIZE]
  omega

end Sizes

section Message

variable {P : Primitives} {key : DecryptionKey} {message : MessageEnv}
  {recipients : List PgpEncryptionRecipient} {cipher : PgpSymmetricAlgorithm} {packet file : Bytes}

/-- A written message: the session key packets, and behind them the protected packet. -/
theorem protectedMessage_parts (hsize : packet.length + 41 < 2 ^ 32)
    (h : protectedMessage P message recipients cipher.octet packet = some file) :
    ∃ pkesks encrypted, buildPkeskPackets P (message.sessionKeyFor cipher.octet) cipher.octet
        message.seed 0 recipients = some pkesks ∧
      encrypted.length = packet.length + 40 ∧
      cfbDecrypt P (message.sessionKeyFor cipher.octet) (Octets.zero 16) encrypted =
        plainForCfb P message.prefixOctets packet ∧
      ProtectedPacket file pkesks.length encrypted ∧
      HeaderOf PGP_TAG_SEIP (packetHeaderFor PGP_TAG_SEIP (packet.length + 41))
        (.definite (packet.length + 41)) ∧
      file = pkesks ++ (packetHeaderFor PGP_TAG_SEIP (packet.length + 41) ++ 1 :: encrypted) := by
  obtain ⟨pkesks, hbuilt, rfl⟩ := Option.map_eq_some_iff.mp h
  generalize hencrypted : cfbEncrypt P (message.sessionKeyFor cipher.octet) (Octets.zero 16)
    (plainForCfb P message.prefixOctets packet) = encrypted
  have hlength : encrypted.length = packet.length + 40 := by
    rw [← hencrypted, length_cfbEncrypt, length_plainForCfb]
  have hbody : (1 :: encrypted).length = packet.length + 41 := by
    rw [List.length_cons, hlength]
  have hseip : seipPacket P (message.sessionKeyFor cipher.octet) message.prefixOctets packet =
      packetHeaderFor PGP_TAG_SEIP (packet.length + 41) ++ 1 :: encrypted := by
    rw [seipPacket, hencrypted, ← packetHeaderFor_append, hbody]
  have hheader := @headerOf_writePacket PGP_TAG_SEIP (1 :: encrypted) (by decide) (hbody ▸ hsize)
  rw [hbody] at hheader
  refine ⟨pkesks, encrypted, hbuilt, hlength, ?_, ?_, hheader, by rw [hseip]⟩
  · rw [← hencrypted, cfbDecrypt_cfbEncrypt]
  · have hpacket : IsPacket PGP_TAG_SEIP (1 :: encrypted)
        (seipPacket P (message.sessionKeyFor cipher.octet) message.prefixOctets packet) :=
      isPacket_iff.mpr ⟨_, _, _, hheader, ⟨rfl, hbody⟩, hseip⟩
    obtain ⟨framed, htag, hframed, hoctets⟩ | ⟨hsmall, -⟩ := hpacket
    · exact ⟨framed, htag, hframed, [], by rw [List.append_nil, hoctets]; exact at_append _ _⟩
    · exact absurd hsmall (by decide)

/-- The session key of a message is found where its front fits, and the key is a recipient's. -/
theorem findFileSessionKey_message (hlawful : P.Lawful)
    (hmodulus : ∀ recipient ∈ recipients, recipient.rsaPublicKey.modulus.size ≤ 2 ^ 16)
    (hown : KeyIdIsOwn P key recipients) (hsize : packet.length + 41 < 2 ^ 32)
    (h : protectedMessage P message recipients cipher.octet packet = some file)
    (haddressed : ∃ recipient ∈ recipients, recipient.keyId = key.keyId)
    (hfits : FrontFits P message recipients cipher.octet packet) :
    ∃ found pos encrypted,
      findFileSessionKey P key (file.take PREFIX_SIZE) 0 none = some (found, pos) ∧
      found.bind sessionKeyOf = some (message.sessionKeyFor cipher.octet) ∧
      ProtectedPacket file pos encrypted ∧ SeipInReach file pos PREFIX_SIZE ∧
      encrypted.length = packet.length + 40 ∧
      cfbDecrypt P (message.sessionKeyFor cipher.octet) (Octets.zero 16) encrypted =
        plainForCfb P message.prefixOctets packet := by
  obtain ⟨pkesks, encrypted, hbuilt, hlength, hplain, hprotected, hheader, rfl⟩ :=
    protectedMessage_parts hsize h
  obtain ⟨pkesks', hbuilt', hreach⟩ := hfits
  obtain rfl := Option.some.inj (hbuilt.symm.trans hbuilt')
  have hat := at_append pkesks (packetHeaderFor PGP_TAG_SEIP (packet.length + 41) ++ 1 :: encrypted)
  refine ⟨some (sessionKeyPlain cipher.octet (message.sessionKeyFor cipher.octet)), pkesks.length,
    encrypted, ?_, ?_, hprotected, ⟨_, _, _, hheader, hat, hreach⟩, hlength, hplain⟩
  · have hbuf : At ((pkesks ++ (packetHeaderFor PGP_TAG_SEIP (packet.length + 41) ++
        1 :: encrypted)).take PREFIX_SIZE) 0 (pkesks ++ (packetHeaderFor PGP_TAG_SEIP
          (packet.length + 41) ++ 1 :: encrypted).take (PREFIX_SIZE - pkesks.length)) := by
      rw [List.take_append, List.take_of_length_le (by omega)]
      exact at_zero _
    rw [findFileSessionKey_packets hlawful (message.length_sessionKeyFor_le cipher.octet)
      hmodulus hown (.inl rfl) hbuilt hbuf, if_pos haddressed, Nat.zero_add]
    exact findFileSessionKey_end hheader (by decide) hat
  · exact sessionKeyOf_sessionKeyPlain (message.length_sessionKeyFor cipher.octet)

/-- Where the search of a message ends in front of the protected packet with a session key, its
front fits, and the key is a recipient's. -/
theorem findFileSessionKey_message_only (hlawful : P.Lawful)
    (hmodulus : ∀ recipient ∈ recipients, recipient.rsaPublicKey.modulus.size ≤ 2 ^ 16)
    (hown : KeyIdIsOwn P key recipients) (hsize : packet.length + 41 < 2 ^ 32)
    (h : protectedMessage P message recipients cipher.octet packet = some file)
    {found : Option Bytes} {pos : ℕ} {seip : PacketHeader}
    (hfind : findFileSessionKey P key (file.take PREFIX_SIZE) 0 none = some (found, pos))
    (hfound : found ≠ none)
    (hseip : readSeipHeader (file.take PREFIX_SIZE) pos = some seip) :
    (∃ recipient ∈ recipients, recipient.keyId = key.keyId) ∧
      FrontFits P message recipients cipher.octet packet := by
  obtain ⟨pkesks, encrypted, hbuilt, -, -, -, hheader, rfl⟩ := protectedMessage_parts hsize h
  have hkey := message.length_sessionKeyFor_le cipher.octet
  obtain rfl : pos = 0 + pkesks.length := findFileSessionKey_stops hkey hmodulus hbuilt hheader
    (by decide) (at_zero _) hfind hseip
  rw [Nat.zero_add] at *
  have hat := at_append pkesks (packetHeaderFor PGP_TAG_SEIP (packet.length + 41) ++ 1 :: encrypted)
  obtain ⟨-, hreach, -⟩ := readSeipHeader_eq hseip hheader hat
  refine ⟨?_, pkesks, hbuilt, hreach⟩
  by_contra hforeign
  have hbuf : At ((pkesks ++ (packetHeaderFor PGP_TAG_SEIP (packet.length + 41) ++
      1 :: encrypted)).take PREFIX_SIZE) 0 (pkesks ++ (packetHeaderFor PGP_TAG_SEIP
        (packet.length + 41) ++ 1 :: encrypted).take (PREFIX_SIZE - pkesks.length)) := by
    rw [List.take_append, List.take_of_length_le (by omega)]
    exact at_zero _
  rw [findFileSessionKey_packets hlawful hkey hmodulus hown (.inl rfl) hbuilt hbuf,
    if_neg hforeign, Nat.zero_add, findFileSessionKey_end hheader (by decide) hat] at hfind
  exact hfound (Prod.mk.inj (Option.some.inj hfind)).1.symm

end Message

end HashCryptoLib.Pgp
