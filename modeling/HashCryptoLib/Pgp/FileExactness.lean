import HashCryptoLib.Pgp.FileAcceptance
import HashCryptoLib.Pgp.FileFront

/-!
Which files the streamed decryption takes. What it has taken was framed in a way that its loops
take, so that on a system that does not fail the messages it opens are exactly the authentic ones
in such a framing.
-/

namespace HashCryptoLib.Pgp

open BigEndian Cursor Chunks

/-! ### The loops over a body -/

section Loops

variable {P : Primitives} {header : DecryptFileHeader} {cipher octets octets' tail content : Bytes}
  {s s' : SeipReader} {body body' : InnerBody}

theorem InnerBody.Ahead.streams_of_done (h : body.Ahead octets content)
    (hdone : body.done = true) : body.Streams octets content := by
  rw [InnerBody.Ahead] at h
  rw [InnerBody.done] at hdone
  rw [InnerBody.Streams]
  split_ifs at h hdone ⊢
  · rw [Bool.and_eq_true, beq_iff_eq] at hdone
    rw [hdone.1] at h ⊢
    exact Chunked.final_iff.mpr (Chunked.final_iff.mp h)
  · exact h

theorem InnerBody.Ahead.streams_of_take {count : ℕ} (h : body.Ahead octets content)
    (hcount : count ≤ body.remaining)
    (hrest : (body.take count).Streams (octets.drop count) (content.drop count)) :
    body.Streams octets content := by
  obtain ⟨htake, -, hlong, -⟩ := h.take hcount
  rw [InnerBody.Ahead] at h
  rw [show (body.take count).Streams _ _ = if body.innerPartial then _ else _ from rfl] at hrest
  rw [InnerBody.Streams]
  split_ifs at h hrest ⊢
  · have hall := hrest.append (content.take count)
    rw [List.take_append_drop, ← htake, List.take_append_drop, htake,
      List.length_take_of_le hlong] at hall
    rwa [show (body.take count).remaining + count = body.remaining from
      Nat.sub_add_cancel hcount] at hall
  · exact h

/-- A chunk whose header was stepped over is not empty. -/
theorem ensureInnerChunk_streamed (hreads : s.Reads P header cipher)
    (hat : At (decipheredData P header cipher) s.streamPos (octets ++ tail))
    (hahead : body.Ahead octets content)
    (h : ensureInnerChunk P header s body = some (s', body'))
    (hat' : At (decipheredData P header cipher) s'.streamPos (octets' ++ tail))
    (hstreams : body'.Streams octets' content) : body.Streams octets content := by
  induction hsize : octets.length using Nat.strong_induction_on generalizing s body octets with
  | _ size ih =>
      by_cases hinert : body.innerPartial = false ∨ body.remaining ≠ 0
      · rw [ensureInnerChunk, if_pos hinert] at h
        obtain ⟨rfl, rfl⟩ := Prod.mk.inj (Option.some.inj h)
        obtain rfl := List.append_cancel_right (hat.unique hat')
        exact hstreams
      by_cases hfinal : body.innerFinalChunk = true
      · rw [ensureInnerChunk, if_neg hinert, if_pos hfinal] at h
        cases h
      obtain ⟨hwhole, hzero⟩ := not_or.mp hinert
      have hchunks := Bool.of_not_eq_false hwhole
      rw [InnerBody.Ahead, if_pos hchunks, not_not.mp hzero,
        Bool.eq_false_of_not_eq_true hfinal] at hahead
      obtain ⟨announced, n, more, ahead, hannounced, rfl, hrest⟩ := hahead.header
      rw [List.append_assoc] at hat
      obtain ⟨s₁, hreads₁, hat₁, hnext⟩ := ensureInnerChunk_next hreads hinert hfinal hannounced hat
      rw [hnext] at h
      have hstreams₁ := ih ahead.length
        (by have hpos := hannounced.pos; rw [← hsize, List.length_append]; omega) hreads₁ hat₁
        (by rw [InnerBody.Ahead, if_pos hchunks]; exact hrest) h rfl
      -- behind the header of an empty last chunk, the loop finds no other one
      have hn : n ≠ 0 := by
        rintro rfl
        cases more with
        | true =>
            obtain ⟨exponent, -, hzero, -⟩ := hannounced.more
            exact absurd hzero (Nat.two_pow_pos _).ne
        | false =>
            rw [ensureInnerChunk, if_neg (by simp [hchunks]), if_pos (by rfl)] at h
            cases h
      rw [InnerBody.Streams, if_pos hchunks] at hstreams₁ ⊢
      rw [not_not.mp hzero, Bool.eq_false_of_not_eq_true hfinal]
      exact .next ⟨hannounced, hn⟩ hstreams₁

/-- A loop that has come to the end of a body has met no empty chunk but at its start. -/
theorem streamBody_streamed {σ : Type} {limit : ℕ} {hlimit : 0 < limit}
    {sink : σ → Bytes → Except Failure σ} {state state' : σ} (hreads : s.Reads P header cipher)
    (hat : At (decipheredData P header cipher) s.streamPos (octets ++ tail))
    (hahead : body.Ahead octets content)
    (h : streamBody P header limit hlimit sink s body state = .ok (s', state')) :
    body.Streams octets content := by
  fun_induction streamBody P header limit hlimit sink s body state generalizing octets content with
  | case1 s body state hdone => exact hahead.streams_of_done hdone
  | case2 => cases h
  | case3 => cases h
  | case4 => cases h
  | case5 s body state hgoes s₁ body' hchunk s₂ hpending takeNow next hsink =>
      rename_i ih
      obtain ⟨hreads₁, octets₁, hat₁, hahead₁⟩ := ensureInnerChunk_reads hreads hat hahead hchunk
      obtain ⟨hreads₂, hpos₂, -⟩ := hreads₁.ensurePending hpending
      have hat₂ := hpos₂ ▸ hat₁
      have hcount : takeNow ≤ body'.remaining :=
        (Nat.min_le_left _ _).trans (Nat.min_le_right _ _)
      obtain ⟨-, hlong, -, hahead₂⟩ := hahead₁.take hcount
      have hnext := SeipReader.Reads.consume_at hat₂
        (show takeNow ≤ (octets₁ ++ tail).length by rw [List.length_append]; omega)
      rw [List.drop_append_of_le_length hlong] at hnext
      have htake : takeNow ≤ s₂.pending.length := (Nat.min_le_left _ _).trans (Nat.min_le_left _ _)
      exact ensureInnerChunk_streamed hreads hat hahead hchunk hat₁
        (hahead₁.streams_of_take hcount (ih (hreads₂.consumeForHash htake) hnext hahead₂ h))

end Loops

/-! ### The packet inside -/

section Inner

variable {P : Primitives} {inflators : Inflators P} {env : OutputEnv} {header : DecryptFileHeader}
  {cipher octets tail content written : Bytes} {s s' : SeipReader} {body : InnerBody}

/-- The first chunk of a literal packet that was written out holds the fields. -/
theorem decryptLiteral_fits (hreads : s.Reads P header cipher)
    (hat : At (decipheredData P header cipher) s.streamPos (octets ++ tail))
    (hahead : body.Ahead octets content)
    (h : decryptLiteral P env header s body = .ok (s', written)) :
    2 + (content.getD 1 0).toNat + 4 ≤ body.remaining := by
  rw [decryptLiteral] at h
  cases hpending : s.ensurePending P header 2 with
  | none =>
      rw [hpending] at h
      cases h
  | some s₁ =>
      obtain ⟨hreads₁, hpos₁, htwo⟩ := hreads.ensurePending hpending
      rw [← hpos₁] at hat
      rw [hpending] at h
      dsimp only at h
      generalize hsize : (s₁.pending.getD 1 0).toNat = filenameLength at h
      have hfits : 2 + filenameLength + 4 ≤ body.remaining := by
        by_contra hshort
        simp only [if_pos (not_le.mp hshort)] at h
        split_ifs at h
        split at h
        · cases h
        split at h
        · cases h
        · cases h
      obtain ⟨htake, hlong, -, -⟩ := hahead.take hfits
      have hfront := (hreads₁.take_pending hat htwo).1
      rw [List.take_append_of_le_length (by omega)] at hfront
      rwa [← getD_of_take htake (by omega), ← getD_of_take hfront (by norm_num), hsize]

theorem decryptLiteral_streamed (hreads : s.Reads P header cipher)
    (hat : At (decipheredData P header cipher) s.streamPos (octets ++ tail))
    (hahead : body.Ahead octets content)
    (h : decryptLiteral P env header s body = .ok (s', written)) :
    body.Streams octets content := by
  have hfields := decryptLiteral_fits hreads hat hahead h
  obtain ⟨s₁, hreads₁, hat₁, hcall⟩ :=
    decryptLiteral_fields env hreads hat hahead rfl hfields
  rw [hcall] at h
  obtain ⟨-, -, -, hrest⟩ := hahead.take hfields
  exact hahead.streams_of_take hfields (streamBody_streamed hreads₁ hat₁ hrest h)

theorem decompressingBody_streamed {algorithm : UInt8} {decoded : Decoded}
    (hreads : s.Reads P header cipher)
    (hat : At (decipheredData P header cipher) s.streamPos (octets ++ tail))
    (hahead : body.Ahead octets content)
    (h : decompressingBody P inflators env header algorithm s body = .ok (s', decoded)) :
    body.Streams octets content := by
  have hinflate {whole : Bytes → Option Bytes} {inflating : Inflating whole}
      (h : inflateBody P env header inflating s body = .ok (s', decoded)) :
      body.Streams octets content := by
    rw [inflateBody] at h
    cases hstream : streamBody P header INFLATE_PIECE (by decide) (putPiece env inflating) s body
        {} with
    | error failure =>
        rw [hstream] at h
        cases h
    | ok result => exact streamBody_streamed hreads hat hahead hstream
  rw [decompressingBody] at h
  split_ifs at h
  · rw [bzip2Body] at h
    cases hstream : streamBody P header INFLATE_PIECE (by decide)
        (fun fed piece => (.ok (fed ++ piece) : Except Failure Bytes)) s body [] with
    | error failure =>
        rw [hstream] at h
        cases h
    | ok result => exact streamBody_streamed hreads hat hahead hstream
  · exact hinflate h
  · exact hinflate h
  · exact hinflate h

theorem decryptCompressed_streamed (hreads : s.Reads P header cipher)
    (hat : At (decipheredData P header cipher) s.streamPos (octets ++ tail))
    (hahead : body.Ahead octets content)
    (h : decryptCompressed P inflators env header s body = .ok (s', written)) :
    body.Streams octets content := by
  rw [decryptCompressed] at h
  dsimp only at h
  by_cases hlong : body.remaining < 1 ∨ body.innerPartial = false ∧
      body.remaining > header.encLength - 20 - s.streamPos - 2
  · rw [if_pos hlong] at h
    cases h
  rw [if_neg hlong] at h
  have hone : 1 ≤ body.remaining := not_lt.mp (not_or.mp hlong).1
  cases hpending : s.ensurePending P header 1 with
  | none =>
      rw [hpending] at h
      cases h
  | some s₁ =>
      obtain ⟨hreads₁, hpos₁, hone'⟩ := hreads.ensurePending hpending
      rw [← hpos₁] at hat
      obtain ⟨-, hoctets, -, hrest⟩ := hahead.take hone
      have hat₂ := SeipReader.Reads.consume_at hat
        (show 1 ≤ (octets ++ tail).length by rw [List.length_append]; omega)
      rw [List.drop_append_of_le_length hoctets] at hat₂
      rw [hpending] at h
      dsimp only at h
      split_ifs at h
      cases hinner : decompressingBody P inflators env header (s₁.pending.headD 0)
          (s₁.consumeForHash header 1) (body.take 1) with
      | error failure =>
          rw [hinner] at h
          cases h
      | ok result =>
          exact hahead.streams_of_take hone
            (decompressingBody_streamed (hreads₁.consumeForHash hone') hat₂ hrest hinner)

/-- What was written out of the packet inside came in a framing that the loops take. -/
theorem decryptInner_streamed {tag : UInt8} (hreads : s.Reads P header cipher)
    (hat : At (decipheredData P header cipher) s.streamPos (octets ++ tail))
    (hahead : body.Ahead octets content)
    (h : decryptInner P inflators env header tag s body = .ok (s', written)) :
    body.Streams octets content ∧
      (tag = PGP_TAG_LITERAL_DATA → 2 + (content.getD 1 0).toNat + 4 ≤ body.remaining) := by
  rw [decryptInner] at h
  split_ifs at h with hcompressed hliteral
  · exact ⟨decryptCompressed_streamed hreads hat hahead h,
      fun htag => absurd (hcompressed.symm.trans htag) (by decide)⟩
  · exact ⟨decryptLiteral_streamed hreads hat hahead h,
      fun _ => decryptLiteral_fits hreads hat hahead h⟩

end Inner

/-! ### The protected packet -/

/-- Protected data whose code is right for all of it, around a packet that the loops take. -/
def AuthenticStream (P : Primitives) (plain plaintext : Bytes) : Prop :=
  ∃ front packet tag body, front.length = 18 ∧ Streamable tag body packet ∧
    Holds P tag body plaintext ∧
    plain = front ++ packet ++
      ([0xD3, 0x14] ++ (P.sha1 (front ++ packet ++ [0xD3, 0x14])).1)

theorem Streamable.isPacket {tag : UInt8} {body octets : Bytes} (h : Streamable tag body octets) :
    IsPacket tag body octets := by
  obtain ⟨header, length, ahead, hheader, hcarries, hoctets, -⟩ := h
  exact isPacket_iff.mpr ⟨header, length, ahead, hheader, hcarries, hoctets⟩

/-- On a system that does not fail, whole protected data is taken exactly where it is authentic,
no shorter than a compressed packet can make it, and around a packet that the loops take. -/
theorem decryptSeipBodyStreaming_ok_iff {P : Primitives} {inflators : Inflators P} {env : OutputEnv}
    {header : DecryptFileHeader} {cipher file packet trailer plaintext : Bytes}
    (henv : env.Unfailing) (hlength : cipher.length = header.encLength)
    (hstart : (startReader P header file).Reads P header cipher)
    (hencloses : Encloses (decipheredData P header cipher) packet trailer) :
    decryptSeipBodyStreaming P inflators env header file = .ok plaintext ↔
      46 ≤ cipher.length ∧ AuthenticStream P (decipheredData P header cipher) plaintext := by
  constructor
  · intro h
    have hlong : 46 ≤ cipher.length := by
      rw [decryptSeipBodyStreaming] at h
      split_ifs at h with hshort
      omega
    obtain ⟨front, packet, tag, body, hfront, hpacket, hholds, hplain⟩ :=
      decryptSeipBodyStreaming_sound hlength hstart hencloses h
    refine ⟨hlong, front, packet, tag, body, hfront, ?_, hholds, hplain⟩
    obtain ⟨innerHeader, length, ahead, hheader, hcarries, rfl⟩ := isPacket_iff.mp hpacket
    obtain ⟨s, hreads, hat, hcall⟩ := decryptSeipBodyStreaming_inner env inflators hlength hlong
      hstart hfront (by rw [List.length_append, (P.sha1 _).2]; rfl) hheader hplain
    refine ⟨innerHeader, length, ahead, hheader, hcarries, rfl, ?_⟩
    rintro first rfl
    rw [hcall] at h
    cases hinner : decryptInner P inflators env header tag s
        ⟨BodyLength.isChunked (.chunked first), BodyLength.announced (.chunked first) ahead.length,
          false⟩ with
    | error failure =>
        rw [hinner] at h
        cases h
    | ok result =>
        obtain ⟨hstreams, hfits⟩ := decryptInner_streamed hreads hat
          (InnerBody.ahead_of_carries hcarries) hinner
        exact ⟨hstreams, hfits⟩
  · rintro ⟨hlong, front, packet, tag, body, hfront, hstreamable, hholds, hplain⟩
    exact decryptSeipBodyStreaming_accepts henv hlength hlong hstart hfront hstreamable hholds hplain

/-! ### What the encrypting calls write -/

section Holds

variable {P : Primitives} {tag : UInt8} {body plaintext content : Bytes}

theorem AuthenticStream.authentic {plain : Bytes} (h : AuthenticStream P plain plaintext) :
    Authentic P plain plaintext := by
  obtain ⟨front, packet, tag, body, hfront, hstreamable, hholds, hplain⟩ := h
  exact ⟨front, packet, tag, body, hfront, hstreamable.isPacket, hholds, hplain⟩

/-- The protected data has one packet in it. -/
theorem Authentic.holds {prefixOctets : Octets 16} (htag : tag < 64)
    (h : Authentic P (plainForCfb P prefixOctets (writePacket tag body)) plaintext) :
    Holds P tag body plaintext := by
  obtain ⟨front', packet, tag', body', hfront', hpacket, hholds, hplain⟩ := h
  have hfront : (prefixOctets.1 ++ prefixOctets.1.drop 14).length = 18 := by
    rw [List.length_append, List.length_drop, Octets.length_eq]
  rw [plainForCfb, List.append_assoc _ [0xD3, 0x14]] at hplain
  have hpackets := List.append_inj_left' hplain (by simp)
  obtain ⟨-, rfl⟩ := List.append_inj hpackets (hfront.trans hfront'.symm)
  obtain ⟨rfl, rfl, -⟩ := (isPacket_writePacket_iff htag).mp hpacket
  exact hholds

/-- What the encrypting calls put under the encryption is framed as the streamed decryption takes
it, and says what its packet says. -/
theorem authenticStream_plainForCfb_iff (prefixOctets : Octets 16) (htag : tag < 64)
    (hfits : body.length < 2 ^ 32) :
    AuthenticStream P (plainForCfb P prefixOctets (writePacket tag body)) plaintext ↔
      Holds P tag body plaintext := by
  constructor
  · exact fun h => h.authentic.holds htag
  · intro hholds
    refine ⟨prefixOctets.1 ++ prefixOctets.1.drop 14, writePacket tag body, tag, body, ?_, ?_,
      hholds, ?_⟩
    · rw [List.length_append, List.length_drop, Octets.length_eq]
    · exact ⟨packetHeaderFor tag body.length, .definite body.length, body,
        headerOf_writePacket htag hfits, ⟨rfl, rfl⟩, (packetHeaderFor_append tag body).symm,
        fun first h => BodyLength.noConfusion h⟩
    · rw [plainForCfb, List.append_assoc _ [0xD3, 0x14]]

theorem plainForCfb_encloses (P : Primitives) (prefixOctets : Octets 16) (htag : tag < 64)
    (hfits : body.length < 2 ^ 32) :
    ∃ trailer, Encloses (plainForCfb P prefixOctets (writePacket tag body))
      (writePacket tag body) trailer := by
  rw [plainForCfb, List.append_assoc _ [0xD3, 0x14]]
  refine ⟨_, _, rfl, ?_, ?_, tag, body, (isPacket_writePacket_iff htag).mpr ⟨rfl, rfl, hfits⟩⟩
  · rw [List.length_append, List.length_drop, Octets.length_eq]
  · rw [List.length_append, Octets.length_eq]
    rfl

theorem holds_literalBody_iff :
    Holds P PGP_TAG_LITERAL_DATA (literalBody content) plaintext ↔ plaintext = content := by
  constructor
  · rintro (⟨-, hcontent⟩ | ⟨htag, -⟩)
    · rw [literalContent_literalBody] at hcontent
      exact (Option.some.inj hcontent).symm
    · cases htag
  · rintro rfl
    exact .inl ⟨rfl, literalContent_literalBody plaintext⟩

theorem holds_compressed_iff {compAlgo : UInt8} {compData : Bytes}
    (hsize : (literalBody content).length < 2 ^ 32)
    (hwhole : decompressBody P compAlgo compData =
      some (writePacket PGP_TAG_LITERAL_DATA (literalBody content))) :
    Holds P PGP_TAG_COMPRESSED_DATA (compAlgo :: compData) plaintext ↔ plaintext = content := by
  constructor
  · rintro (⟨htag, -⟩ | ⟨-, compAlgo', compData', decompressed, literal, hbody, hwhole', hliteral,
      hcontent⟩)
    · cases htag
    · obtain ⟨rfl, rfl⟩ := List.cons.inj hbody
      obtain rfl := Option.some.inj (hwhole.symm.trans hwhole')
      obtain ⟨-, rfl, -⟩ := (isPacket_writePacket_iff (by decide)).mp hliteral
      rw [literalContent_literalBody] at hcontent
      exact (Option.some.inj hcontent).symm
  · rintro rfl
    exact .inr ⟨rfl, compAlgo, compData, _, literalBody plaintext, rfl, hwhole,
      (isPacket_writePacket_iff (by decide)).mpr ⟨rfl, rfl, hsize⟩,
      literalContent_literalBody plaintext⟩

end Holds

/-! ### The call -/

/-- A system that does what a call asks for, with the input file in place and apart from the
files that are written. -/
structure FileEnv.Serves (env : FileEnv) (inputFilePath outputFilePath : Bytes) (files : FileSystem)
    (content : Bytes) (outputPath : WidePath) : Prop where
  unfailing : env.toOutputEnv.Unfailing
  opened : env.openInput = true
  created : env.createTemp = true
  moved : env.moveTemp = true
  output : env.widePath outputFilePath = some outputPath
  input : ∃ inputPath, env.widePath inputFilePath = some inputPath ∧
    files inputPath = some content ∧ outputPath ≠ inputPath ∧ pgptmpPath outputPath ≠ inputPath

/-- Where the output goes, and nothing is left of the temporary file. -/
def FileSystem.moved (files : FileSystem) (outputPath : WidePath) (plaintext : Bytes) : FileSystem :=
  Function.update (Function.update files (pgptmpPath outputPath) none) outputPath (some plaintext)

/-- The message a file holds lies in reach, in a framing that the streamed decryption takes, its
code is right for all of it, and it says `plaintext`. -/
def SaysStreamed (P : Primitives) (key : DecryptionKey) (content plaintext : Bytes) : Prop :=
  ∃ found pos sessionKey cipher,
    findFileSessionKey P key (content.take PREFIX_SIZE) 0 none = some (found, pos) ∧
      found.bind sessionKeyOf = some sessionKey ∧ ProtectedPacket content pos cipher ∧
      SeipInReach content pos PREFIX_SIZE ∧ 46 ≤ cipher.length ∧
      AuthenticStream P (cfbDecrypt P sessionKey (Octets.zero 16) cipher) plaintext

/-- What a written message says, where it is addressed to the key and its front fits. -/
theorem says_of_message {P : Primitives} {key : DecryptionKey} {message : MessageEnv}
    {recipients : List PgpEncryptionRecipient} {cipher : PgpSymmetricAlgorithm} {tag : UInt8}
    {body file plaintext : Bytes} (hlawful : P.Lawful) (hown : KeyIdIsOwn P key recipients)
    (hmodulus : ∀ recipient ∈ recipients, recipient.rsaPublicKey.modulus.size ≤ 2 ^ 16)
    (htag : tag < 64) (hsize : (writePacket tag body).length + 41 < 2 ^ 32)
    (hlong : 6 ≤ (writePacket tag body).length)
    (hmessage : protectedMessage P message recipients cipher.octet (writePacket tag body) =
      some file)
    (haddressed : ∃ recipient ∈ recipients, recipient.keyId = key.keyId)
    (hfits : FrontFits P message recipients cipher.octet (writePacket tag body))
    (hholds : Holds P tag body plaintext) :
    SaysStreamed P key file plaintext ∧ WholeMessage P key file := by
  obtain ⟨found, pos, encrypted, hfind, hkey, hprotected, hreach, hlength, hplain⟩ :=
    findFileSessionKey_message hlawful hmodulus hown hsize hmessage haddressed hfits
  have hbody : body.length < 2 ^ 32 := by
    have hwritten := length_writePacket tag body
    rw [packetSize] at hwritten
    omega
  have hauthentic := (authenticStream_plainForCfb_iff message.prefixOctets htag hbody).mpr hholds
  obtain ⟨trailer, hencloses⟩ := plainForCfb_encloses P message.prefixOctets htag hbody
  rw [← hplain] at hauthentic hencloses
  exact ⟨⟨found, pos, _, encrypted, hfind, hkey, hprotected, hreach, by omega, hauthentic⟩,
    found, pos, _, encrypted, hfind, hkey, hprotected, _, trailer, hencloses⟩

/-- Every content can be written to the first subkey of an RSA identity. -/
theorem says_to_owner {P : Primitives} {owner : Impl} (hlawful : P.Lawful)
    (hkeys : OwnKeysGenerated P owner) (hgenerated : owner.ownKeyGenerated = true)
    (halgorithm : owner.keyAlgorithm = PGP_KEY_ALGORITHM_RSA) (message : MessageEnv)
    (cipher : PgpSymmetricAlgorithm) (content : Bytes) (hsize : content.length + 53 < 2 ^ 32) :
    ∃ file, SaysStreamed P owner.flatDecryptionKey file content ∧
      WholeMessage P owner.flatDecryptionKey file := by
  have hkey := hkeys.flat_generated hgenerated halgorithm
  have hmodulus : ∀ recipient ∈ [owner.flatDecryptionKey.recipient P],
      recipient.rsaPublicKey.modulus.size ≤ 4096 :=
    List.forall_mem_singleton.mpr hkey.modulus_size
  obtain ⟨pkesks, hbuilt⟩ := @buildPkeskPackets_rsa P (message.sessionKeyFor cipher.octet)
    cipher.octet message.seed 0 hlawful [owner.flatDecryptionKey.recipient P]
    (List.forall_mem_singleton.mpr (hkey.recipient_rsa halgorithm))
    (message.length_sessionKeyFor_le _)
  obtain ⟨file, hmessage⟩ : ∃ file, protectedMessage P message
      [owner.flatDecryptionKey.recipient P] cipher.octet
      (writePacket PGP_TAG_LITERAL_DATA (literalBody content)) = some file :=
    ⟨_, Option.map_eq_some_iff.mpr ⟨pkesks, hbuilt, rfl⟩⟩
  have hwritten := length_writePacket PGP_TAG_LITERAL_DATA (literalBody content)
  rw [length_literalBody, packetSize] at hwritten
  refine ⟨file, says_of_message hlawful hkey.keyIdIsOwn
    (fun recipient hmem => (hmodulus recipient hmem).trans (by norm_num)) (by decide) ?_ (by omega)
    hmessage ⟨_, .head _, DecryptionKey.recipient_keyId _ _⟩
    (frontFits_of_few hmodulus (by simp) hmessage) (holds_literalBody_iff.mpr rfl)⟩
  rw [length_writePacket, length_literalBody]
  exact protectedSize_fits_iff.mpr hsize

section Call

variable {P : Primitives} {inflators : Inflators P} {env : FileEnv}
  {password inputFilePath outputFilePath content : Bytes} {impl : Impl} {files : FileSystem}
  {outputPath : WidePath}

theorem replaceOutput_serves {inputPath : WidePath} (written : Bytes) (files : FileSystem)
    (hmoved : env.moveTemp = true) (hne : outputPath ≠ inputPath) :
    replaceOutput env inputPath outputPath written files =
      (NO_ERROR, files.moved outputPath written) := by
  rw [replaceOutput, if_pos ⟨hmoved, hne⟩]
  congr 1
  funext path
  rw [FileSystem.moved]
  by_cases houtput : path = outputPath
  · rw [houtput, Function.update_self, Function.update_self]
  rw [Function.update_of_ne houtput, Function.update_of_ne houtput]
  by_cases htemp : path = pgptmpPath outputPath
  · rw [htemp, Function.update_self, Function.update_self]
  rw [Function.update_of_ne htemp, Function.update_of_ne htemp]
  split_ifs
  · rw [Function.update_of_ne houtput, Function.update_of_ne htemp]
  · rw [Function.update_of_ne htemp]

theorem FileEnv.Serves.reaches (hserves : env.Serves inputFilePath outputFilePath files content
      outputPath) (haccepted : rejects P impl password = false) {plaintext : Bytes}
    {header : DecryptFileHeader}
    (hparse : parseEncryptedFileHeader P impl.flatDecryptionKey content = some header)
    (hstream : decryptSeipBodyStreaming P inflators env.toOutputEnv header
      (content.drop header.filePos) = .ok plaintext) :
    ∃ inputPath, outputPath ≠ inputPath ∧ Reaches P inflators env password inputFilePath
      outputFilePath impl files inputPath outputPath content plaintext := by
  obtain ⟨inputPath, hinput, hcontent, hne, htemp⟩ := hserves.input
  exact ⟨inputPath, hne, haccepted, hinput, hserves.output, hserves.opened, hcontent,
    hserves.created, htemp, header, hparse, hstream⟩

/-- What is said in reach, framed as the loops take it and with a code that is right, is decrypted
on a system that does what it is asked for. -/
theorem DecryptFile_says {plaintext : Bytes}
    (hserves : env.Serves inputFilePath outputFilePath files content outputPath)
    (haccepted : rejects P impl password = false)
    (hstated : SaysStreamed P impl.flatDecryptionKey content plaintext) :
    DecryptFile P inflators env password inputFilePath outputFilePath impl files =
      (NO_ERROR, files.moved outputPath plaintext) := by
  obtain ⟨found, pos, sessionKey, cipher, hfind, hkey, hpacket, hreach, hlong, hauthentic⟩ := hstated
  obtain ⟨header, hparse⟩ := parseEncryptedFileHeader_some hfind hkey hpacket hreach
  obtain ⟨found', pos', hfind', hkey', hreads⟩ := parseEncryptedFileHeader_reads hparse
  obtain ⟨rfl, rfl⟩ := Prod.mk.inj (Option.some.inj (hfind.symm.trans hfind'))
  obtain rfl := Option.some.inj (hkey.symm.trans hkey')
  obtain ⟨hlength, hstart⟩ := hreads cipher hpacket
  obtain ⟨front, packet, tag, body, hfront, hstreamable, hholds, hplain⟩ := hauthentic
  have hstream : decryptSeipBodyStreaming P inflators env.toOutputEnv header
      (content.drop header.filePos) = .ok plaintext :=
    decryptSeipBodyStreaming_accepts hserves.unfailing hlength hlong hstart hfront hstreamable
      hholds hplain
  obtain ⟨inputPath, hne, hreaches⟩ := hserves.reaches haccepted hparse hstream
  obtain ⟨inputPath', outputPath', content', written, hreaches', hreplace⟩ | ⟨-, -, hearly⟩ :=
    @DecryptFile_cases P inflators env password inputFilePath outputFilePath impl files
  · obtain ⟨rfl, rfl, rfl, rfl⟩ := hreaches.unique hreaches'
    rw [hreplace, replaceOutput_serves plaintext files hserves.moved hne]
  · exact absurd hreaches (hearly _ _ _ _)

/-- What a call that succeeds has read and written, on such a system. -/
theorem DecryptFile_reads {files' : FileSystem}
    (hserves : env.Serves inputFilePath outputFilePath files content outputPath)
    (hcall : DecryptFile P inflators env password inputFilePath outputFilePath impl files =
      (NO_ERROR, files')) :
    rejects P impl password = false ∧ ∃ header written,
      parseEncryptedFileHeader P impl.flatDecryptionKey content = some header ∧
      decryptSeipBodyStreaming P inflators env.toOutputEnv header (content.drop header.filePos) =
        .ok written ∧ files' = files.moved outputPath written := by
  obtain ⟨inputPath, outputPath', content', written, hreaches, hreplace⟩ | ⟨hstatus, -⟩ :=
    @DecryptFile_cases P inflators env password inputFilePath outputFilePath impl files
  · obtain ⟨inputPath', hinput, hcontent, hne, -⟩ := hserves.input
    obtain rfl := Option.some.inj (hinput.symm.trans hreaches.input)
    obtain rfl := Option.some.inj (hserves.output.symm.trans hreaches.output)
    obtain rfl := Option.some.inj (hcontent.symm.trans hreaches.content_eq)
    rw [hreplace, replaceOutput_serves written files hserves.moved hne] at hcall
    obtain ⟨header, hparse, hstream⟩ := hreaches.streamed
    exact ⟨hreaches.accepted, header, written, hparse, hstream, (Prod.mk.inj hcall).2.symm⟩
  · exact absurd (congrArg Prod.fst hcall) hstatus

/-- What the call takes, of a whole message on a system that does what it is asked for: exactly
what is said in reach, framed as the loops take it, and with a code that is right. -/
theorem DecryptFile_noError_iff {files' : FileSystem}
    (hserves : env.Serves inputFilePath outputFilePath files content outputPath)
    (hwhole : WholeMessage P impl.flatDecryptionKey content) :
    DecryptFile P inflators env password inputFilePath outputFilePath impl files =
        (NO_ERROR, files') ↔
      rejects P impl password = false ∧ ∃ plaintext,
        SaysStreamed P impl.flatDecryptionKey content plaintext ∧
          files' = files.moved outputPath plaintext := by
  constructor
  · intro hcall
    obtain ⟨haccepted, header, written, hparse, hstream, hfiles⟩ := DecryptFile_reads hserves hcall
    refine ⟨haccepted, written, ?_, hfiles⟩
    obtain ⟨found, pos, hfind, hkey, hreads⟩ := parseEncryptedFileHeader_reads hparse
    obtain ⟨found', pos', sessionKey, cipher, hfind', hkey', hpacket, packet, trailer,
      hencloses⟩ := hwhole
    obtain ⟨rfl, rfl⟩ := Prod.mk.inj (Option.some.inj (hfind.symm.trans hfind'))
    obtain rfl := Option.some.inj (hkey.symm.trans hkey')
    obtain ⟨hlength, hstart⟩ := hreads cipher hpacket
    obtain ⟨hlong, hauthentic⟩ := (decryptSeipBodyStreaming_ok_iff hserves.unfailing hlength hstart
      hencloses).mp hstream
    refine ⟨found, pos, header.sessionKey, cipher, hfind, hkey, hpacket, ?_, hlong, hauthentic⟩
    exact (readSeipHeader_isSome_iff hpacket).mp (parseEncryptedFileHeader_seip hparse hfind)
  · rintro ⟨haccepted, plaintext, hstated, rfl⟩
    exact DecryptFile_says hserves haccepted hstated

end Call

/-! ### A short text -/

/-- One file in one place. -/
def fileAtA (content : Bytes) : FileSystem := fun path => if path = [97] then some content else none

/-- A system that does all it is asked for. -/
def servingEnv : FileEnv := { unmovedEnv with moveTemp := true }

theorem servingEnv_input : servingEnv.widePath (ascii "a") = some [97] := by
  decide

theorem servingEnv_serves (content : Bytes) :
    servingEnv.Serves (ascii "a") (ascii "b") (fileAtA content) content [98] where
  unfailing := ⟨fun _ _ => rfl, fun _ _ => rfl⟩
  opened := rfl
  created := rfl
  moved := rfl
  output := by decide
  input := ⟨[97], servingEnv_input, rfl, by decide, by decide⟩

/-- A short text, decrypted from one file to another. -/
theorem DecryptFile_hi : ∃ file, DecryptFile standIn standInInflators servingEnv (ascii "pw")
    (ascii "a") (ascii "b") shortLivedOwner (fileAtA file) =
      (NO_ERROR, (fileAtA file).moved [98] (ascii "hi")) := by
  obtain ⟨file, hstated, hwhole⟩ := says_to_owner standIn_lawful
    shortLivedOwner_published.reachable.ownKeysGenerated shortLivedOwner_published.generated
    (by decide +kernel) mixedEnv .PGP_SYMMETRIC_AES256 (ascii "hi") (by decide)
  exact ⟨file, (DecryptFile_noError_iff (servingEnv_serves file) hwhole).mpr
    ⟨rejects_eq_false shortLivedOwner_published.generated (by decide) shortLivedOwner_password,
      ascii "hi", hstated, rfl⟩⟩

end HashCryptoLib.Pgp
