import HashCryptoLib.Pgp.Message
import HashCryptoLib.Pgp.StandIn

/-!
What a built message gives each of its recipients. Every layer the builder adds
is taken off by one lemma about the parser: nothing is reassembled in a sequence
of whole packets, the session key is found among the packets of the others, the
modification detection code is where it was put, and the packets inside the
compressed one are read back in order.
-/

namespace HashCryptoLib.Pgp

open BigEndian Cursor

/-! ### Whole packets -/

/-- A sequence of new-format packets of definite length. -/
inductive IsPacketSequence : Bytes → Prop
  | nil : IsPacketSequence []
  | cons {tag : UInt8} {body rest : Bytes} (htag : tag < 64) (hbody : body.length < 2 ^ 32)
      (hrest : IsPacketSequence rest) : IsPacketSequence (writePacket tag body ++ rest)

theorem IsPacketSequence.single {tag : UInt8} {body : Bytes} (htag : tag < 64)
    (hbody : body.length < 2 ^ 32) : IsPacketSequence (writePacket tag body) := by
  simpa using IsPacketSequence.cons htag hbody .nil

theorem IsPacketSequence.append {xs ys : Bytes} (hx : IsPacketSequence xs)
    (hy : IsPacketSequence ys) : IsPacketSequence (xs ++ ys) := by
  induction hx with
  | nil => exact hy
  | cons htag hbody hrest ih =>
      rw [List.append_assoc]
      exact .cons htag hbody ih

/-- The loop copies whole packets and rewrites none. -/
theorem reassembleLoop_packets {data xs rest : Bytes} {pos : ℕ} (hxs : IsPacketSequence xs)
    (h : At data pos (xs ++ rest)) (out : Bytes) :
    reassembleLoop data (pos + xs.length) pos out false = .ok none := by
  induction hxs generalizing pos out with
  | nil =>
      rw [List.length_nil, Nat.add_zero, reassembleLoop, dif_neg (by omega)]
      rfl
  | @cons tag body more htag hbody hmore ih =>
      rw [List.append_assoc] at h
      obtain ⟨bodyPos, hread, hat⟩ := readPacketHeader_writePacket htag hbody h
      have hlen := h.length_eq
      have hlen' := hat.length_eq
      have hbegin := bodyPos_gt (hread none false)
      simp only [List.length_append] at hlen hlen' hbegin ⊢
      have hnext := ih hat.advance
      have hend : bodyPos + body.length + more.length =
          pos + ((writePacket tag body).length + more.length) := by omega
      rw [hend] at hnext
      have hlong : 0 < (writePacket tag body).length :=
        List.length_pos_iff.mpr (writePacket_ne_nil tag body)
      have hcopy : ∃ packet, copyRange data pos (bodyPos + body.length) = .ok packet :=
        ⟨_, if_pos ⟨by omega, by omega⟩⟩
      obtain ⟨packet, hpacket⟩ := hcopy
      have hsub : ¬ body.length >
          sizeSub (pos + ((writePacket tag body).length + more.length)) bodyPos := by
        rw [sizeSub, if_pos (by omega)]
        omega
      rw [reassembleLoop, dif_pos (by omega)]
      split
      · rename_i hnone
        rw [hread] at hnone
        cases hnone
      · rename_i header hsome
        rw [hread] at hsome
        cases hsome
        simp only [if_true, if_neg hsub, hpacket]
        exact hnext _

theorem reassembledOr_packets {data : Bytes} (h : IsPacketSequence data) :
    reassembledOr data = .ok data := by
  have hloop := reassembleLoop_packets h (at_whole data) []
  rw [Nat.zero_add] at hloop
  simp only [reassembledOr, reassemblePartialBodyLengths, reassemblePartialBodyLengthRange]
  rw [if_neg (by omega), hloop]
  rfl

/-- A whole packet, its body and the position behind it. -/
theorem readPacket_of_at {data body rest : Bytes} {pos : ℕ} {tag : UInt8} (htag : tag < 64)
    (hbody : body.length < 2 ^ 32) (h : At data pos (writePacket tag body ++ rest)) :
    ∃ header, (∀ dataEnd acceptPartial,
        readPacketHeader data pos dataEnd acceptPartial = some header) ∧
      header.tag = tag ∧ readOctets data header.bodyPos header.bodyLength = some body ∧
      header.bodyPos + header.bodyLength = pos + (writePacket tag body).length ∧
      At data (header.bodyPos + header.bodyLength) rest := by
  obtain ⟨bodyPos, hread, hat⟩ := readPacketHeader_writePacket htag hbody h
  have hlen := h.length_eq
  have hlen' := hat.length_eq
  simp only [List.length_append] at hlen hlen'
  exact ⟨_, hread, rfl, readOctets_of_at hat, by simp only; omega, hat.advance⟩

/-! ### The literal packet and what stands around it -/

theorem length_literalBody (plaintext : Bytes) :
    (literalBody plaintext).length = plaintext.length + 6 := by
  simp only [literalBody, List.length_cons, List.length_append, length_appendBigEndian32]
  omega

theorem literalContent_literalBody (plaintext : Bytes) :
    literalContent (literalBody plaintext) = some plaintext := by
  have hlen := length_literalBody plaintext
  have hname : ((literalBody plaintext).getD 1 0).toNat = 0 := rfl
  simp only [literalContent, hname]
  rw [if_neg (by omega), if_neg (by omega)]
  rfl

/-- A lone literal packet. -/
theorem parseDecompressedPackets_literal {body : Bytes} (hbody : body.length < 2 ^ 32) :
    parseDecompressedPackets (writePacket PGP_TAG_LITERAL_DATA body) false =
      some (body, none) := by
  obtain ⟨header, hread, htag, hoctets, -, -⟩ :=
    readPacket_of_at (by decide) hbody (at_whole (writePacket PGP_TAG_LITERAL_DATA body))
  have hnot : PGP_TAG_LITERAL_DATA ≠ PGP_TAG_ONE_PASS_SIG := by decide
  simp [parseDecompressedPackets, hread, htag, hoctets, hnot]

/-- A literal packet between a one-pass signature and a signature. -/
theorem parseDecompressedPackets_signed {onePassBody body sigBody : Bytes} {wantSignature : Bool}
    (honePass : onePassBody.length < 2 ^ 32) (hbody : body.length < 2 ^ 32)
    (hsig : sigBody.length < 2 ^ 32) :
    parseDecompressedPackets (writePacket PGP_TAG_ONE_PASS_SIG onePassBody ++
        writePacket PGP_TAG_LITERAL_DATA body ++ writePacket PGP_TAG_SIGNATURE sigBody)
        wantSignature =
      some (body, if wantSignature then some (writePacket PGP_TAG_SIGNATURE sigBody) else none) := by
  have hat : At (writePacket PGP_TAG_ONE_PASS_SIG onePassBody ++
      writePacket PGP_TAG_LITERAL_DATA body ++ writePacket PGP_TAG_SIGNATURE sigBody) 0
      (writePacket PGP_TAG_ONE_PASS_SIG onePassBody ++ (writePacket PGP_TAG_LITERAL_DATA body ++
        (writePacket PGP_TAG_SIGNATURE sigBody ++ []))) := by
    simpa using at_zero _
  generalize writePacket PGP_TAG_ONE_PASS_SIG onePassBody ++
      writePacket PGP_TAG_LITERAL_DATA body ++ writePacket PGP_TAG_SIGNATURE sigBody = packets at hat ⊢
  obtain ⟨first, hfirst, htag₁, -, -, hat₁⟩ := readPacket_of_at (by decide) honePass hat
  obtain ⟨literal, hliteral, htag₂, hoctets, -, hat₂⟩ := readPacket_of_at (by decide) hbody hat₁
  obtain ⟨signature, hsignature, htag₃, -, hend, hat₃⟩ := readPacket_of_at (by decide) hsig hat₂
  have htake := hat₂.take_eq
  have hlen := hat₃.length_eq
  have hsigLength : signature.bodyPos + signature.bodyLength -
      (literal.bodyPos + literal.bodyLength) = (writePacket PGP_TAG_SIGNATURE sigBody).length := by
    omega
  cases wantSignature with
  | false =>
      simp [parseDecompressedPackets, hfirst, htag₁, hliteral, htag₂, hoctets]
  | true =>
      simp only [parseDecompressedPackets, hfirst, htag₁, hliteral, htag₂, hoctets, hsignature,
        htag₃, Option.bind_eq_bind, Option.bind_some, hsigLength, htake]
      simp [hlen]

/-! ### The protected packet -/

section Protected

variable (P : Primitives) (prefixOctets : Octets 16)

theorem length_plainForCfb (content : Bytes) :
    (plainForCfb P prefixOctets content).length = content.length + 40 := by
  simp only [plainForCfb, List.length_append, List.length_drop, Octets.length_eq, List.length_cons,
    List.length_nil]
  omega

/-- The content starts at octet 18, and the modification detection code follows
it. -/
theorem plainForCfb_at (content : Bytes) :
    At (plainForCfb P prefixOctets content) 18 (content ++ ([0xD3, 0x14] ++ (P.sha1
      (prefixOctets.1 ++ prefixOctets.1.drop 14 ++ content ++ [0xD3, 0x14])).1)) := by
  have hstart : (prefixOctets.1 ++ prefixOctets.1.drop 14).length = 18 := by simp
  refine ⟨prefixOctets.1 ++ prefixOctets.1.drop 14, ?_, hstart⟩
  simp only [plainForCfb, List.append_assoc]

theorem checkMdc_plainForCfb (content : Bytes) :
    checkMdc P (plainForCfb P prefixOctets content) = some (18 + content.length) := by
  have hlen := length_plainForCfb P prefixOctets content
  have htag : ((plainForCfb P prefixOctets content).drop (18 + content.length)).take 2 =
      [0xD3, 0x14] := (plainForCfb_at P prefixOctets content).advance.take_eq
  have hoffset : (plainForCfb P prefixOctets content).length - 20 =
      (prefixOctets.1 ++ prefixOctets.1.drop 14 ++ content ++ [0xD3, 0x14]).length := by
    simp only [hlen, List.length_append, List.length_drop, Octets.length_eq, List.length_cons,
      List.length_nil]
    omega
  have htagOffset : (plainForCfb P prefixOctets content).length - 20 - 2 =
      18 + content.length := by omega
  simp only [checkMdc, htagOffset]
  rw [if_neg (by omega), if_neg (not_not.mpr htag), hoffset, plainForCfb, List.take_left,
    List.drop_left, if_neg (by simp)]

variable {P}

/-- Deciphered content is a compressed packet around a packet sequence. -/
theorem parseProtected_plainForCfb (hlawful : P.Lawful) {content : Bytes}
    (hpackets : IsPacketSequence content) (hdeflated : (P.deflate content).length + 1 < 2 ^ 32)
    (wantSignature : Bool) :
    parseProtected P (plainForCfb P prefixOctets (compressedPacket P content)) wantSignature =
      .ok (parseDecompressedPackets content wantSignature) := by
  have hat := plainForCfb_at P prefixOctets (compressedPacket P content)
  have hbody : (1 :: P.deflate content).length < 2 ^ 32 := hdeflated
  have hlen := length_plainForCfb P prefixOctets (compressedPacket P content)
  have hloop := reassembleLoop_packets (.single (by decide) hbody) hat []
  obtain ⟨header, hread, htag, hoctets, hend, -⟩ := readPacket_of_at (by decide) hbody hat
  have hinner : reassemblePartialBodyLengthRange
      (plainForCfb P prefixOctets (compressedPacket P content)) 18
      (18 + (compressedPacket P content).length) = .ok none := by
    rw [reassemblePartialBodyLengthRange, if_neg (by omega)]
    exact hloop
  have htake : ((plainForCfb P prefixOctets (compressedPacket P content)).drop
      header.bodyPos).take header.bodyLength = 1 :: P.deflate content := by
    unfold readOctets at hoctets
    split_ifs at hoctets
    exact Option.some.inj hoctets
  have hinflated : decompressBody P 1 (P.deflate content) = some content := by
    simp [decompressBody, hlawful.inflate_deflate]
  rw [parseProtected, checkMdc_plainForCfb]
  simp only [hinner, parseInnerPacket, hread, htag, if_true]
  rw [if_neg (by rw [hend]; exact lt_irrefl _)]
  simp only [htake, hinflated, reassembledOr_packets hpackets]
  rfl

end Protected

/-! ### Whole messages -/

section Messages

variable {P : Primitives} {env : MessageEnv} {cipher : PgpSymmetricAlgorithm}

theorem buildPkeskPackets_packets {sessionKey pkesks : Bytes} {cipherAlgorithmOctet : UInt8}
    {seed : ℕ → ℕ} {i : ℕ} {recipients : List PgpEncryptionRecipient}
    (hkey : sessionKey.length ≤ 32)
    (hmodulus : ∀ recipient ∈ recipients, recipient.rsaPublicKey.modulus.size ≤ 2 ^ 16)
    (hbuild : buildPkeskPackets P sessionKey cipherAlgorithmOctet seed i recipients =
      some pkesks) : IsPacketSequence pkesks := by
  induction recipients generalizing i pkesks with
  | nil =>
      obtain rfl := Option.some.inj hbuild
      exact .nil
  | cons recipient recipients ih =>
      obtain ⟨tail, others, hencrypt, hothers, rfl⟩ := buildPkeskPackets_cons hbuild
      have hplain := length_sessionKeyPlain cipherAlgorithmOctet sessionKey
      obtain ⟨-, hbody⟩ := pkeskBody_length (hmodulus recipient List.mem_cons_self) (by omega)
        hencrypt
      exact .cons (by decide) hbody
        (ih (fun other hmem => hmodulus other (List.mem_cons_of_mem _ hmem)) hothers)

theorem MessageEnv.length_sessionKeyFor (env : MessageEnv) (cipherAlgorithmOctet : UInt8) :
    (env.sessionKeyFor cipherAlgorithmOctet).length =
      pgpSymmetricSessionKeyLength cipherAlgorithmOctet := by
  have hle : pgpSymmetricSessionKeyLength cipherAlgorithmOctet ≤ 32 := by
    unfold pgpSymmetricSessionKeyLength
    split_ifs <;> norm_num
  rw [MessageEnv.sessionKeyFor, List.length_take, Octets.length_eq, Nat.min_eq_left hle]

theorem MessageEnv.length_sessionKeyFor_le (env : MessageEnv) (cipherAlgorithmOctet : UInt8) :
    (env.sessionKeyFor cipherAlgorithmOctet).length ≤ 32 := by
  rw [MessageEnv.sessionKeyFor, List.length_take, Octets.length_eq]
  exact min_le_right _ _

theorem decryptSeip_seipPacket {sessionKey message content rest : Bytes} {pos : ℕ}
    {prefixOctets : Octets 16} (hlength : content.length + 41 < 2 ^ 32)
    (h : At message pos (seipPacket P sessionKey prefixOctets content ++ rest)) :
    decryptSeip P sessionKey message pos = some (plainForCfb P prefixOctets content) := by
  have hbody : (1 :: cfbEncrypt P sessionKey (Octets.zero 16)
      (plainForCfb P prefixOctets content)).length < 2 ^ 32 := by
    simpa [length_plainForCfb] using hlength
  obtain ⟨header, hread, htag, hoctets, -, -⟩ := readPacket_of_at (by decide) hbody h
  simp only [decryptSeip, hread, htag, hoctets, cfbDecrypt_cfbEncrypt]
  simp

/-- The packets of a built message, and the sizes they are read back with. -/
theorem encryptContent_packets {recipients : List PgpEncryptionRecipient}
    (hmodulus : ∀ recipient ∈ recipients, recipient.rsaPublicKey.modulus.size ≤ 2 ^ 16)
    {content message : Bytes} (hlength : (P.deflate content).length + 64 < 2 ^ 32)
    (hbuild : encryptContent P env recipients cipher.octet content = some message) :
    ∃ pkesks, buildPkeskPackets P (env.sessionKeyFor cipher.octet) cipher.octet env.seed 0
        recipients = some pkesks ∧
      message = pkesks ++ seipPacket P (env.sessionKeyFor cipher.octet) env.prefixOctets
        (compressedPacket P content) ∧
      IsPacketSequence message ∧ (compressedPacket P content).length + 41 < 2 ^ 32 := by
  have hshort := env.length_sessionKeyFor_le cipher.octet
  rw [encryptContent, Option.map_eq_some_iff] at hbuild
  obtain ⟨pkesks, hpkesks, rfl⟩ := hbuild
  have hcompressed : (compressedPacket P content).length + 41 < 2 ^ 32 := by
    have hheader := length_appendNewFormatLength_le (1 :: P.deflate content).length
    simp only [compressedPacket, writePacket, List.length_cons, List.length_append] at hheader ⊢
    omega
  have hseip : (1 :: cfbEncrypt P (env.sessionKeyFor cipher.octet) (Octets.zero 16)
      (plainForCfb P env.prefixOctets (compressedPacket P content))).length < 2 ^ 32 := by
    simpa [length_plainForCfb] using hcompressed
  exact ⟨pkesks, hpkesks, rfl,
    (buildPkeskPackets_packets hshort hmodulus hpkesks).append (.single (by decide) hseip),
    hcompressed⟩

theorem encryptContent_ne_nil {recipients : List PgpEncryptionRecipient}
    {cipherAlgorithmOctet : UInt8} {content message : Bytes}
    (hbuild : encryptContent P env recipients cipherAlgorithmOctet content = some message) :
    message ≠ [] := by
  rw [encryptContent, Option.map_eq_some_iff] at hbuild
  obtain ⟨pkesks, -, rfl⟩ := hbuild
  exact List.append_ne_nil_of_right_ne_nil _ (writePacket_ne_nil _ _)

/-- A recipient opens the message and finds the packets that were put into it. -/
theorem openMessage_encryptContent (hlawful : P.Lawful) {key : DecryptionKey}
    (hgenerated : key.Generated P) {before after : List PgpEncryptionRecipient}
    (hbefore : ∀ recipient ∈ before, recipient.keyId ≠ key.keyId)
    (hmodulus : ∀ recipient ∈ before ++ key.recipient P :: after,
      recipient.rsaPublicKey.modulus.size ≤ 2 ^ 16)
    {content message : Bytes} (hpackets : IsPacketSequence content)
    (hlength : (P.deflate content).length + 64 < 2 ^ 32)
    (hbuild : encryptContent P env (before ++ key.recipient P :: after) cipher.octet content =
      some message) (wantSignature : Bool) :
    openMessage P key message wantSignature =
      .ok (parseDecompressedPackets content wantSignature) := by
  have hsessionKey := env.length_sessionKeyFor cipher.octet
  obtain ⟨pkesks, hpkesks, rfl, hmessage, hcompressed⟩ :=
    encryptContent_packets hmodulus hlength hbuild
  have hat := at_whole (pkesks ++ seipPacket P (env.sessionKeyFor cipher.octet) env.prefixOctets
    (compressedPacket P content))
  rw [List.append_assoc] at hat
  obtain ⟨pos, hpos, hfound⟩ := findSessionKey_own hlawful hgenerated
    (env.length_sessionKeyFor_le cipher.octet) hbefore hmodulus hpkesks (by decide) (by decide)
    (by simpa [length_plainForCfb] using hcompressed) hat
  have hprotected := parseProtected_plainForCfb env.prefixOctets hlawful hpackets (by omega)
    wantSignature
  simp only [openMessage, reassembledOr_packets hmessage, hfound, Option.bind_some,
    sessionKeyOf_sessionKeyPlain hsessionKey, decryptSeip_seipPacket hcompressed hpos, hprotected]

/-- Whoever is not addressed finds no session key. -/
theorem openMessage_unaddressed {key : DecryptionKey} {recipients : List PgpEncryptionRecipient}
    (hskip : ∀ recipient ∈ recipients, recipient.keyId ≠ key.keyId)
    (hmodulus : ∀ recipient ∈ recipients, recipient.rsaPublicKey.modulus.size ≤ 2 ^ 16)
    {content message : Bytes} (hlength : (P.deflate content).length + 64 < 2 ^ 32)
    (hbuild : encryptContent P env recipients cipher.octet content = some message)
    (wantSignature : Bool) : openMessage P key message wantSignature = .ok none := by
  obtain ⟨pkesks, hpkesks, rfl, hmessage, hcompressed⟩ :=
    encryptContent_packets hmodulus hlength hbuild
  have hat := at_whole (pkesks ++ seipPacket P (env.sessionKeyFor cipher.octet) env.prefixOctets
    (compressedPacket P content))
  rw [List.append_assoc] at hat
  obtain ⟨pos, hpos, hskipped⟩ := findSessionKey_skip key none
    (env.length_sessionKeyFor_le cipher.octet) hmodulus (.inr hskip) hpkesks hat
  have hend := findSessionKey_end P key none (by decide) (by decide)
    (by simpa [length_plainForCfb] using hcompressed) hpos
  simp only [openMessage, reassembledOr_packets hmessage, hskipped, hend, Option.bind_none]

theorem writePacket_length_le (tag : UInt8) (body : Bytes) :
    (writePacket tag body).length ≤ body.length + 6 := by
  have hheader := length_appendNewFormatLength_le body.length
  simp only [writePacket, List.length_cons, List.length_append]
  omega

/-- Where one's own key stands among the recipients of a message. -/
structure Addressed (P : Primitives) (key : DecryptionKey)
    (recipients : List PgpEncryptionRecipient) : Prop where
  generated : key.Generated P
  split : ∃ before after, recipients = before ++ key.recipient P :: after ∧
    ∀ recipient ∈ before, recipient.keyId ≠ key.keyId
  modulus_size : ∀ recipient ∈ recipients, recipient.rsaPublicKey.modulus.size ≤ 2 ^ 16

variable {key : DecryptionKey} {recipients : List PgpEncryptionRecipient} {plaintext message : Bytes}

/-- The content of an unsigned message, and the sizes it is read back with. -/
theorem buildEncryptedMessage_content (hlawful : P.Lawful) (hplaintext : plaintext.length < 2 ^ 31)
    (hbuild : buildEncryptedMessageMultiRecipient P env recipients cipher.octet plaintext =
      some message) :
    (literalBody plaintext).length < 2 ^ 32 ∧
      (P.deflate (writePacket PGP_TAG_LITERAL_DATA (literalBody plaintext))).length + 64 < 2 ^ 32 ∧
      encryptContent P env recipients cipher.octet
        (writePacket PGP_TAG_LITERAL_DATA (literalBody plaintext)) = some message := by
  have hbody := length_literalBody plaintext
  have hpacket := writePacket_length_le PGP_TAG_LITERAL_DATA (literalBody plaintext)
  have hdeflated := hlawful.deflate_length (writePacket PGP_TAG_LITERAL_DATA (literalBody plaintext))
  rw [buildEncryptedMessageMultiRecipient] at hbuild
  split_ifs at hbuild
  exact ⟨by omega, by omega, hbuild⟩

/-- The content of a signed message, and the sizes it is read back with. -/
theorem buildEncryptedSignedMessage_content (hlawful : P.Lawful)
    (hplaintext : plaintext.length < 2 ^ 31) {signingKey : SigningKey}
    (hsigning : signingKey.rsaKey.modulus.size ≤ 4096)
    (hbuild : buildEncryptedSignedMessageMultiRecipient P env recipients signingKey cipher.octet
      plaintext = some message) :
    signingKey.sign P 0 plaintext [] env.now ≠ [] ∧
      ∃ onePassBody sigBody, signingKey.onePass = writePacket PGP_TAG_ONE_PASS_SIG onePassBody ∧
        signingKey.sign P 0 plaintext [] env.now = writePacket PGP_TAG_SIGNATURE sigBody ∧
        onePassBody.length < 2 ^ 32 ∧ (literalBody plaintext).length < 2 ^ 32 ∧
        sigBody.length < 2 ^ 32 ∧
        (P.deflate (writePacket PGP_TAG_ONE_PASS_SIG onePassBody ++
          writePacket PGP_TAG_LITERAL_DATA (literalBody plaintext) ++
          writePacket PGP_TAG_SIGNATURE sigBody)).length + 64 < 2 ^ 32 ∧
        encryptContent P env recipients cipher.octet (writePacket PGP_TAG_ONE_PASS_SIG onePassBody ++
          writePacket PGP_TAG_LITERAL_DATA (literalBody plaintext) ++
          writePacket PGP_TAG_SIGNATURE sigBody) = some message := by
  rw [buildEncryptedSignedMessageMultiRecipient] at hbuild
  dsimp only at hbuild
  split_ifs at hbuild with hrecipients hsigned
  refine ⟨hsigned, ?_⟩
  obtain ⟨leftHash, signatureMpis, -, hsig, hsigBody⟩ := signingKey.sign_eq P hsigning hsigned
  rw [List.length_nil] at hsigBody
  rw [hsig] at hbuild ⊢
  generalize signatureBody 0 signingKey.pkAlgorithm signingKey.hashAlgorithm
    (hashedSubpacketsOf env.now []) (unhashedSubpacketsOf signingKey.keyId) leftHash
    signatureMpis = sigBody at hsigBody hbuild ⊢
  obtain ⟨onePassBody, honePass, hshort⟩ : ∃ onePassBody,
      signingKey.onePass = writePacket PGP_TAG_ONE_PASS_SIG onePassBody ∧
      onePassBody.length = 13 := ⟨_, rfl, by simp⟩
  rw [honePass] at hbuild
  have hliteral := length_literalBody plaintext
  have hdeflated := hlawful.deflate_length (writePacket PGP_TAG_ONE_PASS_SIG onePassBody ++
    writePacket PGP_TAG_LITERAL_DATA (literalBody plaintext) ++
    writePacket PGP_TAG_SIGNATURE sigBody)
  have hlen₁ := writePacket_length_le PGP_TAG_ONE_PASS_SIG onePassBody
  have hlen₂ := writePacket_length_le PGP_TAG_LITERAL_DATA (literalBody plaintext)
  have hlen₃ := writePacket_length_le PGP_TAG_SIGNATURE sigBody
  simp only [List.length_append] at hdeflated
  exact ⟨onePassBody, sigBody, honePass, rfl, by omega, by omega, by omega, by omega, hbuild⟩

/-- An addressed key opens a message to its plaintext. -/
theorem parse_encrypted (hlawful : P.Lawful) (haddressed : Addressed P key recipients)
    (hplaintext : plaintext.length < 2 ^ 31)
    (hbuild : buildEncryptedMessageMultiRecipient P env recipients cipher.octet plaintext =
      some message) :
    parseAndDecryptMessage P key message false = .ok (some plaintext, none) := by
  obtain ⟨before, after, rfl, hbefore⟩ := haddressed.split
  obtain ⟨hbody, hlength, hcontent⟩ := buildEncryptedMessage_content hlawful hplaintext hbuild
  have hopen := openMessage_encryptContent hlawful haddressed.generated hbefore
    haddressed.modulus_size (.single (by decide) hbody) hlength hcontent false
  rw [parseDecompressedPackets_literal hbody] at hopen
  rw [parseAndDecryptMessage, hopen]
  simp [Except.map, literalContent_literalBody]

/-- An addressed key opens a signed message to its plaintext and, where it is
asked for, the signature that was embedded. -/
theorem parse_encryptedSigned (hlawful : P.Lawful) (haddressed : Addressed P key recipients)
    (hplaintext : plaintext.length < 2 ^ 31) {signingKey : SigningKey}
    (hsigning : signingKey.rsaKey.modulus.size ≤ 4096)
    (hbuild : buildEncryptedSignedMessageMultiRecipient P env recipients signingKey cipher.octet
      plaintext = some message) (wantSignature : Bool) :
    signingKey.sign P 0 plaintext [] env.now ≠ [] ∧
    parseAndDecryptMessage P key message wantSignature =
      .ok (some plaintext,
        if wantSignature then some (signingKey.sign P 0 plaintext [] env.now) else none) := by
  obtain ⟨before, after, rfl, hbefore⟩ := haddressed.split
  obtain ⟨hsigned, onePassBody, sigBody, -, hsig, hlen₁, hlen₂, hlen₃, hlength, hcontent⟩ :=
    buildEncryptedSignedMessage_content hlawful hplaintext hsigning hbuild
  refine ⟨hsigned, ?_⟩
  have hpackets : IsPacketSequence (writePacket PGP_TAG_ONE_PASS_SIG onePassBody ++
      writePacket PGP_TAG_LITERAL_DATA (literalBody plaintext) ++
      writePacket PGP_TAG_SIGNATURE sigBody) :=
    ((IsPacketSequence.single (by decide) hlen₁).append
      (.single (by decide) hlen₂)).append (.single (by decide) hlen₃)
  have hopen := openMessage_encryptContent hlawful haddressed.generated hbefore
    haddressed.modulus_size hpackets hlength hcontent wantSignature
  rw [parseDecompressedPackets_signed hlen₁ hlen₂ hlen₃] at hopen
  rw [parseAndDecryptMessage, hopen, hsig]
  simp [Except.map, literalContent_literalBody]

/-- A message of either kind, signed with a key of a supported size. -/
def IsMessage (P : Primitives) (env : MessageEnv) (recipients : List PgpEncryptionRecipient)
    (cipher : PgpSymmetricAlgorithm) (plaintext message : Bytes) : Prop :=
  buildEncryptedMessageMultiRecipient P env recipients cipher.octet plaintext = some message ∨
    ∃ signingKey : SigningKey, signingKey.rsaKey.modulus.size ≤ 4096 ∧
      buildEncryptedSignedMessageMultiRecipient P env recipients signingKey cipher.octet
        plaintext = some message

theorem IsMessage.content (h : IsMessage P env recipients cipher plaintext message) :
    ∃ content, encryptContent P env recipients cipher.octet content = some message := by
  rcases h with hbuild | ⟨signingKey, -, hbuild⟩
  · rw [buildEncryptedMessageMultiRecipient] at hbuild
    split_ifs at hbuild
    exact ⟨_, hbuild⟩
  · rw [buildEncryptedSignedMessageMultiRecipient] at hbuild
    dsimp only at hbuild
    split_ifs at hbuild
    exact ⟨_, hbuild⟩

/-- A key that is not addressed opens neither kind of message. -/
theorem parse_unaddressed (hlawful : P.Lawful)
    (hskip : ∀ recipient ∈ recipients, recipient.keyId ≠ key.keyId)
    (hmodulus : ∀ recipient ∈ recipients, recipient.rsaPublicKey.modulus.size ≤ 2 ^ 16)
    (hplaintext : plaintext.length < 2 ^ 31)
    (hmessage : IsMessage P env recipients cipher plaintext message) (wantSignature : Bool) :
    parseAndDecryptMessage P key message wantSignature = .ok (none, none) := by
  have hopen : openMessage P key message wantSignature = .ok none := by
    rcases hmessage with hbuild | ⟨signingKey, hsigning, hbuild⟩
    · obtain ⟨-, hlength, hcontent⟩ := buildEncryptedMessage_content hlawful hplaintext hbuild
      exact openMessage_unaddressed hskip hmodulus hlength hcontent wantSignature
    · obtain ⟨-, onePassBody, sigBody, -, -, -, -, -, hlength, hcontent⟩ :=
        buildEncryptedSignedMessage_content hlawful hplaintext hsigning hbuild
      exact openMessage_unaddressed hskip hmodulus hlength hcontent wantSignature
  rw [parseAndDecryptMessage, hopen]
  rfl

/-- A key among distinct ones is addressed by the message to all of them. -/
theorem addressed_of_mem {keys : List DecryptionKey}
    (hgenerated : ∀ key ∈ keys, key.Generated P) (hdistinct : (keys.map (·.keyId)).Nodup)
    (hkey : key ∈ keys) : Addressed P key (keys.map (·.recipient P)) where
  generated := hgenerated key hkey
  split := by
    obtain ⟨before, after, rfl⟩ := List.append_of_mem hkey
    refine ⟨before.map (·.recipient P), after.map (·.recipient P), by simp, ?_⟩
    intro recipient hmem
    obtain ⟨other, hother, rfl⟩ := List.mem_map.mp hmem
    rw [List.map_append, List.map_cons, List.nodup_append] at hdistinct
    rw [DecryptionKey.recipient_keyId]
    exact hdistinct.2.2 _ (List.mem_map_of_mem hother) _ List.mem_cons_self
  modulus_size := by
    intro recipient hmem
    obtain ⟨other, hother, rfl⟩ := List.mem_map.mp hmem
    exact (hgenerated other hother).modulus_size.trans (by norm_num)

/-- Every recipient of a message reads the plaintext, and on a signed message
also the signature that was embedded. -/
theorem every_recipient_decrypts (hlawful : P.Lawful) (env : MessageEnv)
    (cipher : PgpSymmetricAlgorithm) {keys : List DecryptionKey}
    (hgenerated : ∀ key ∈ keys, key.Generated P) (hdistinct : (keys.map (·.keyId)).Nodup)
    {signingKey : SigningKey} (hsigning : signingKey.rsaKey.modulus.size ≤ 4096)
    (plaintext : Buffer) {key : DecryptionKey} (hkey : key ∈ keys) :
    (∀ message, buildEncryptedMessageMultiRecipient P env (keys.map (·.recipient P))
        cipher.octet plaintext.1 = some message →
      parseAndDecryptMessage P key message false = .ok (some plaintext.1, none)) ∧
    (∀ message, buildEncryptedSignedMessageMultiRecipient P env (keys.map (·.recipient P))
        signingKey cipher.octet plaintext.1 = some message →
      parseAndDecryptMessage P key message true =
        .ok (some plaintext.1, some (signingKey.sign P 0 plaintext.1 [] env.now))) := by
  have haddressed := addressed_of_mem hgenerated hdistinct hkey
  refine ⟨fun message hbuild => parse_encrypted hlawful haddressed plaintext.2 hbuild, ?_⟩
  intro message hbuild
  exact (parse_encryptedSigned hlawful haddressed plaintext.2 hsigning hbuild true).2

/-- An RSA key and a curve key. -/
def mixedKeys : List DecryptionKey := [
  { algorithm := PGP_KEY_ALGORITHM_RSA
    rsaSubkey := (standIn.generateRsaKey 5 1024).1
    x25519PrivateKey := Octets.zero 32
    fingerprint := Octets.zero 20
    keyId := ⟨[1, 2, 3, 4, 5, 6, 7, 8], rfl⟩ },
  { algorithm := PGP_KEY_ALGORITHM_ED25519_X25519
    rsaSubkey := {}
    x25519PrivateKey := standIn.generateX25519PrivateKey 6
    fingerprint := Octets.zero 20
    keyId := ⟨[8, 7, 6, 5, 4, 3, 2, 1], rfl⟩ }]

def mixedSigningKey : SigningKey where
  algorithm := PGP_KEY_ALGORITHM_ED25519_X25519
  rsaKey := {}
  ed25519Key := (standIn.generateEd25519Key 9).1
  keyId := ⟨[1, 1, 1, 1, 2, 2, 2, 2], rfl⟩

def mixedEnv : MessageEnv where
  sessionKey := Octets.zero 32
  prefixOctets := Octets.zero 16
  seed i := i + 1
  now := 1000

theorem mixedKeys_generated : ∀ key ∈ mixedKeys, key.Generated standIn := by
  intro key hkey
  simp only [mixedKeys, List.mem_cons, List.not_mem_nil, or_false] at hkey
  rcases hkey with rfl | rfl
  · exact ⟨5, 1024, .inl rfl, rfl⟩
  · exact ⟨6, rfl⟩

theorem mixedKeys_message : (buildEncryptedMessageMultiRecipient standIn mixedEnv
    (mixedKeys.map (·.recipient standIn)) PgpSymmetricAlgorithm.PGP_SYMMETRIC_AES256.octet
    (ascii "hi")).isSome = true := by
  decide +kernel

theorem mixedKeys_signedMessage : (buildEncryptedSignedMessageMultiRecipient standIn mixedEnv
    (mixedKeys.map (·.recipient standIn)) mixedSigningKey
    PgpSymmetricAlgorithm.PGP_SYMMETRIC_AES256.octet (ascii "hi")).isSome = true := by
  decide +kernel

/-- The curve recipient of a message to an RSA key and a curve key. -/
theorem every_recipient_decrypts_mixed : ∃ key ∈ mixedKeys,
    key.algorithm = PGP_KEY_ALGORITHM_ED25519_X25519 ∧
    (∃ message, buildEncryptedMessageMultiRecipient standIn mixedEnv
        (mixedKeys.map (·.recipient standIn)) PgpSymmetricAlgorithm.PGP_SYMMETRIC_AES256.octet
        (ascii "hi") = some message ∧
      parseAndDecryptMessage standIn key message false = .ok (some (ascii "hi"), none)) ∧
    (∃ message, buildEncryptedSignedMessageMultiRecipient standIn mixedEnv
        (mixedKeys.map (·.recipient standIn)) mixedSigningKey
        PgpSymmetricAlgorithm.PGP_SYMMETRIC_AES256.octet (ascii "hi") = some message ∧
      parseAndDecryptMessage standIn key message true =
        .ok (some (ascii "hi"), some (mixedSigningKey.sign standIn 0 (ascii "hi") [] 1000))) := by
  have hkey : mixedKeys[1] ∈ mixedKeys := List.getElem_mem _
  have hdistinct : (mixedKeys.map (·.keyId)).Nodup := by decide
  obtain ⟨hencrypted, hsigned⟩ := every_recipient_decrypts standIn_lawful mixedEnv
    PgpSymmetricAlgorithm.PGP_SYMMETRIC_AES256 mixedKeys_generated hdistinct
    (show mixedSigningKey.rsaKey.modulus.size ≤ 4096 by decide) ⟨ascii "hi", by decide⟩ hkey
  obtain ⟨message, hmessage⟩ := Option.isSome_iff_exists.mp mixedKeys_message
  obtain ⟨signed, hsignedMessage⟩ := Option.isSome_iff_exists.mp mixedKeys_signedMessage
  exact ⟨_, hkey, rfl, ⟨message, hmessage, hencrypted message hmessage⟩,
    ⟨signed, hsignedMessage, hsigned signed hsignedMessage⟩⟩

end Messages

end HashCryptoLib.Pgp
