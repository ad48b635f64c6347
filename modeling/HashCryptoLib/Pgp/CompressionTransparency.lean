import HashCryptoLib.Pgp.MessageRoundTrip
import HashCryptoLib.Pgp.PacketStream

/-!
One content in two messages: its packets stand in the protected packet as they
are, or inside a compressed packet. The two are parsed by different branches. A
lone literal packet comes out the same from both, in any framing; but only the
branch behind the decompressor steps over a leading one-pass signature, and the
other one takes no first packet but a literal or a compressed one.
-/

namespace HashCryptoLib.Pgp

open BigEndian Cursor

/-! ### Messages and what they carry -/

/-- The key opens the message, and what its protected packet deciphers to has
`content` between the random prefix and the modification detection code. -/
def OpensTo (P : Primitives) (key : DecryptionKey) (input content : Bytes) : Prop :=
  ∃ message pos found sessionKey prefixOctets, reassembledOr input = .ok message ∧
    findSessionKey P key message 0 none = .ok (some (found, pos)) ∧
    found.bind sessionKeyOf = some sessionKey ∧
    decryptSeip P sessionKey message pos = some (plainForCfb P prefixOctets content)

/-- What the caller gets who asks for no signature. -/
def plaintextOf (P : Primitives) (key : DecryptionKey) (input : Bytes) :
    Except Fault (Option Bytes) :=
  (parseAndDecryptMessage P key input false).map Prod.fst

/-- A literal packet, and nothing else. -/
def PacketStream.IsLiteral (stream : PacketStream) : Prop :=
  ∃ body, stream.contents = [(PGP_TAG_LITERAL_DATA, body)]

/-- A literal packet between a one-pass signature, which has thirteen octets, and
a signature. -/
def PacketStream.IsSigned (stream : PacketStream) : Prop :=
  ∃ onePass body signature, onePass.length = 13 ∧ stream.contents =
    [(PGP_TAG_ONE_PASS_SIG, onePass), (PGP_TAG_LITERAL_DATA, body), (PGP_TAG_SIGNATURE, signature)]

/-- The content of the literal packet as it is received, if it has one. -/
def PacketStream.readable (stream : PacketStream) : Option Bytes :=
  ((stream.received.find? (·.1 = PGP_TAG_LITERAL_DATA)).map Prod.snd).bind literalContent

/-- Packets of one of the two shapes, and two messages that open to them: one as
they are, the other inside a compressed packet, in any framing, whose data the
decompressor of its algorithm takes back to them. -/
structure CarriedTwice (P : Primitives) (key : DecryptionKey) where
  packets : PacketStream
  shape : packets.IsLiteral ∨ packets.IsSigned
  outer : PacketStream
  algorithm : UInt8
  data : Bytes
  outer_contents : outer.contents = [(PGP_TAG_COMPRESSED_DATA, algorithm :: data)]
  decompressed : decompressBody P algorithm data = some packets.octets
  direct : Bytes
  compressed : Bytes
  opens_direct : OpensTo P key direct packets.octets
  opens_compressed : OpensTo P key compressed outer.octets

/-- Both messages are accepted with the same plaintext, or both rejected. -/
def CarriedTwice.Transparent {P : Primitives} {key : DecryptionKey} (m : CarriedTwice P key) :
    Prop :=
  plaintextOf P key m.direct = plaintextOf P key m.compressed

/-! ### The packet in the protected one -/

section Inner

variable {P : Primitives} {innerData body more : Bytes} {innerPos innerEnd bodyPos : ℕ}
  {tag : UInt8} {wantSignature : Bool}

theorem parseInnerPacket_literal
    (hread : readPacketHeader innerData innerPos (some innerEnd) false =
      some ⟨PGP_TAG_LITERAL_DATA, body.length, bodyPos, false⟩)
    (hat : At innerData bodyPos (body ++ more)) (hend : bodyPos + body.length ≤ innerEnd) :
    parseInnerPacket P innerData innerPos innerEnd wantSignature = .ok (some (body, none)) := by
  have htag : PGP_TAG_LITERAL_DATA ≠ PGP_TAG_COMPRESSED_DATA := by decide
  rw [parseInnerPacket, hread]
  dsimp only
  rw [if_neg (by omega), if_neg htag, if_pos rfl, hat.take_eq]

theorem parseInnerPacket_compressed {compAlgo : UInt8} {compData decompressed packets : Bytes}
    (hread : readPacketHeader innerData innerPos (some innerEnd) false =
      some ⟨PGP_TAG_COMPRESSED_DATA, (compAlgo :: compData).length, bodyPos, false⟩)
    (hat : At innerData bodyPos (compAlgo :: compData ++ more))
    (hend : bodyPos + (compAlgo :: compData).length ≤ innerEnd)
    (hdecompressed : decompressBody P compAlgo compData = some decompressed)
    (hpackets : reassembledOr decompressed = .ok packets) :
    parseInnerPacket P innerData innerPos innerEnd wantSignature =
      .ok (parseDecompressedPackets packets wantSignature) := by
  rw [parseInnerPacket, hread]
  dsimp only
  rw [if_neg (by omega), if_pos rfl, hat.take_eq]
  dsimp only
  rw [hdecompressed]
  dsimp only
  rw [hpackets]
  rfl

theorem parseInnerPacket_other (hcompressed : tag ≠ PGP_TAG_COMPRESSED_DATA)
    (hliteral : tag ≠ PGP_TAG_LITERAL_DATA)
    (hread : readPacketHeader innerData innerPos (some innerEnd) false =
      some ⟨tag, body.length, bodyPos, false⟩) :
    parseInnerPacket P innerData innerPos innerEnd wantSignature = .ok none := by
  rw [parseInnerPacket, hread]
  dsimp only
  rw [if_neg hcompressed, if_neg hliteral]
  split_ifs <;> rfl

/-- The parser comes to the first packet of the content, whether the splice left
it where it is or copied it. -/
theorem parseProtected_first (prefixOctets : Octets 16) (stream : PacketStream)
    {others : List (UInt8 × Bytes)} (hfirst : stream.received = (tag, body) :: others)
    (wantSignature : Bool) :
    ∃ innerData innerPos innerEnd bodyPos more,
      parseProtected P (plainForCfb P prefixOctets stream.octets) wantSignature =
        parseInnerPacket P innerData innerPos innerEnd wantSignature ∧
      readPacketHeader innerData innerPos (some innerEnd) false =
        some ⟨tag, body.length, bodyPos, false⟩ ∧
      At innerData bodyPos (body ++ more) ∧ bodyPos + body.length ≤ innerEnd := by
  have hplain := plainForCfb_at P prefixOctets stream.octets
  have hrange := stream.reassembleRange_octets hplain
  rw [parseProtected, checkMdc_plainForCfb]
  dsimp only
  rw [hrange]
  by_cases hany : ∃ packet ∈ stream.front, packet.IsPartial
  · rw [if_pos hany]
    obtain ⟨bodyPos, more, -, hread, hat, hend, -⟩ :=
      stream.read_first hfirst (at_whole stream.spliced)
    rw [Nat.zero_add] at hread
    rw [List.length_append] at hend
    exact ⟨stream.spliced, 0, stream.spliced.length, bodyPos, more ++ [], rfl, hread false, hat,
      by omega⟩
  · rw [if_neg hany]
    rw [← PacketStream.spliced_eq hany] at hplain ⊢
    obtain ⟨bodyPos, more, -, hread, hat, hend, -⟩ := stream.read_first hfirst hplain
    rw [List.length_append] at hend
    exact ⟨_, 18, 18 + stream.spliced.length, bodyPos, _, rfl, hread false, hat, by omega⟩

end Inner

/-! ### The packets behind the decompressor -/

section Decompressed

variable {stream : PacketStream}

theorem PacketStream.IsLiteral.received (h : stream.IsLiteral) :
    ∃ body, stream.received = [(PGP_TAG_LITERAL_DATA, body)] := by
  obtain ⟨body, hcontents⟩ := h
  have htags := stream.received_tags
  rw [hcontents] at htags
  obtain ⟨⟨tag, received⟩, others, hreceived, rfl, hothers⟩ := List.map_eq_cons_iff.mp htags
  obtain rfl := List.map_eq_nil_iff.mp hothers
  exact ⟨received, hreceived⟩

theorem PacketStream.IsSigned.received (h : stream.IsSigned) :
    ∃ onePass body signature, stream.received = [(PGP_TAG_ONE_PASS_SIG, onePass),
      (PGP_TAG_LITERAL_DATA, body), (PGP_TAG_SIGNATURE, signature)] := by
  obtain ⟨onePass, body, signature, -, hcontents⟩ := h
  have htags := stream.received_tags
  rw [hcontents] at htags
  obtain ⟨⟨tag₁, first⟩, others₁, hreceived, rfl, htags₁⟩ := List.map_eq_cons_iff.mp htags
  obtain ⟨⟨tag₂, second⟩, others₂, rfl, rfl, htags₂⟩ := List.map_eq_cons_iff.mp htags₁
  obtain ⟨⟨tag₃, third⟩, others₃, rfl, rfl, htags₃⟩ := List.map_eq_cons_iff.mp htags₂
  obtain rfl := List.map_eq_nil_iff.mp htags₃
  exact ⟨first, second, third, hreceived⟩

theorem parseDecompressedPackets_isLiteral {body : Bytes}
    (hreceived : stream.received = [(PGP_TAG_LITERAL_DATA, body)]) :
    parseDecompressedPackets stream.spliced false = some (body, none) := by
  have hnot : PGP_TAG_LITERAL_DATA ≠ PGP_TAG_ONE_PASS_SIG := by decide
  obtain ⟨bodyPos, more, -, hread, hat, -⟩ := stream.read_first hreceived (at_whole stream.spliced)
  have hfirst : readPacketHeader stream.spliced 0 none false =
      some ⟨PGP_TAG_LITERAL_DATA, body.length, bodyPos, false⟩ := by
    rw [Nat.zero_add] at hread
    exact hread false
  simp [parseDecompressedPackets, hfirst, hnot, readOctets_of_at hat]

/-- The one-pass signature is stepped over, and the signature never come to. -/
theorem parseDecompressedPackets_isSigned (h : stream.IsSigned) {first second : UInt8 × Bytes}
    {body : Bytes} (hreceived : stream.received = [first, (PGP_TAG_LITERAL_DATA, body), second]) :
    parseDecompressedPackets stream.spliced false = some (body, none) := by
  obtain ⟨onePass, literal, signature, hlength, hcontents⟩ := h
  have hwhole := PacketStream.whole_first hcontents (by omega)
  obtain ⟨bodyPos, more, behind, hread, hat, hend, hbehind, hmore⟩ :=
    stream.read_first hreceived (at_whole stream.spliced)
  have htag : first.1 = PGP_TAG_ONE_PASS_SIG := by
    have htags := stream.received_tags
    rw [hcontents, hreceived] at htags
    exact (List.cons.inj htags).1
  rw [Nat.zero_add] at hread hend
  have hfirst : readPacketHeader stream.spliced 0 none false =
      some ⟨first.1, first.2.length, bodyPos, false⟩ := hread false
  obtain rfl := hmore hwhole
  obtain ⟨literalPos, rest, -, hsecond, hliteral, -⟩ := behind.read_first hbehind hat.advance
  rw [List.length_append, ← Nat.add_assoc] at hend
  rw [hend] at hsecond
  have hliteralHeader : readPacketHeader stream.spliced (bodyPos + first.2.length) none false =
      some ⟨PGP_TAG_LITERAL_DATA, body.length, literalPos, false⟩ := hsecond false
  simp [parseDecompressedPackets, hfirst, htag, hliteralHeader, readOctets_of_at hliteral]

end Decompressed

/-! ### The two messages -/

section Carried

variable {P : Primitives} {key : DecryptionKey}

/-- What comes out of a message depends on what it carries. -/
theorem OpensTo.plaintextOf {input content : Bytes} (h : OpensTo P key input content) :
    ∃ prefixOctets, plaintextOf P key input =
      (parseProtected P (plainForCfb P prefixOctets content) false).map
        (Option.bind · fun opened => literalContent opened.1) := by
  obtain ⟨message, pos, found, sessionKey, prefixOctets, hmessage, hfound, hkey, hplain⟩ := h
  refine ⟨prefixOctets, ?_⟩
  have hopen : openMessage P key input false =
      parseProtected P (plainForCfb P prefixOctets content) false := by
    rw [openMessage, hmessage]
    dsimp only
    rw [hfound]
    dsimp only
    rw [hkey, Option.bind_some, hplain]
  rw [Pgp.plaintextOf, parseAndDecryptMessage, hopen]
  cases parseProtected P (plainForCfb P prefixOctets content) false with
  | error fault => rfl
  | ok opened => cases opened <;> rfl

theorem PacketStream.readable_of_literal {stream : PacketStream} {body : Bytes}
    (h : stream.received = [(PGP_TAG_LITERAL_DATA, body)]) :
    stream.readable = literalContent body := by
  rw [readable, h]
  rfl

theorem PacketStream.readable_of_signed {stream : PacketStream} {onePass body signature : Bytes}
    (h : stream.received = [(PGP_TAG_ONE_PASS_SIG, onePass), (PGP_TAG_LITERAL_DATA, body),
      (PGP_TAG_SIGNATURE, signature)]) :
    stream.readable = literalContent body := by
  rw [readable, h]
  rfl

namespace CarriedTwice

/-- A lone literal packet is read where it stands. -/
theorem plaintextOf_direct_literal (m : CarriedTwice P key) (h : m.packets.IsLiteral) :
    plaintextOf P key m.direct = .ok m.packets.readable := by
  obtain ⟨body, hreceived⟩ := h.received
  obtain ⟨prefixOctets, hplain⟩ := m.opens_direct.plaintextOf
  obtain ⟨innerData, innerPos, innerEnd, bodyPos, more, hparse, hread, hat, hend⟩ :=
    parseProtected_first (P := P) prefixOctets m.packets hreceived false
  rw [hplain, hparse, parseInnerPacket_literal hread hat hend,
    PacketStream.readable_of_literal hreceived]
  rfl

/-- A one-pass signature in front is not stepped over. -/
theorem plaintextOf_direct_signed (m : CarriedTwice P key) (h : m.packets.IsSigned) :
    plaintextOf P key m.direct = .ok none := by
  obtain ⟨onePass, body, signature, hreceived⟩ := h.received
  obtain ⟨prefixOctets, hplain⟩ := m.opens_direct.plaintextOf
  obtain ⟨innerData, innerPos, innerEnd, bodyPos, more, hparse, hread, -, -⟩ :=
    parseProtected_first (P := P) prefixOctets m.packets hreceived false
  rw [hplain, hparse, parseInnerPacket_other (by decide) (by decide) hread]
  rfl

/-- Behind the decompressor both shapes are read. -/
theorem plaintextOf_compressed (m : CarriedTwice P key) (hwhole : m.outer.Whole) :
    plaintextOf P key m.compressed = .ok m.packets.readable := by
  have houter : m.outer.received = [(PGP_TAG_COMPRESSED_DATA, m.algorithm :: m.data)] :=
    hwhole.received_eq.trans m.outer_contents
  obtain ⟨prefixOctets, hplain⟩ := m.opens_compressed.plaintextOf
  obtain ⟨innerData, innerPos, innerEnd, bodyPos, more, hparse, hread, hat, hend⟩ :=
    parseProtected_first (P := P) prefixOctets m.outer houter false
  rw [hplain, hparse, parseInnerPacket_compressed hread hat hend m.decompressed
    m.packets.reassembledOr_octets]
  rcases m.shape with hliteral | hsigned
  · obtain ⟨body, hreceived⟩ := hliteral.received
    rw [parseDecompressedPackets_isLiteral hreceived, PacketStream.readable_of_literal hreceived]
    rfl
  · obtain ⟨onePass, body, signature, hreceived⟩ := hsigned.received
    rw [parseDecompressedPackets_isSigned hsigned hreceived,
      PacketStream.readable_of_signed hreceived]
    rfl

/-- Where the compressed packet is received whole, compression makes no difference
to a lone literal packet, and to a signed one only if it cannot be read. -/
theorem transparent_iff (m : CarriedTwice P key) (hwhole : m.outer.Whole) :
    m.Transparent ↔ m.packets.IsLiteral ∨ m.packets.readable = none := by
  rw [Transparent, m.plaintextOf_compressed hwhole]
  constructor
  · intro htransparent
    rcases m.shape with hliteral | hsigned
    · exact Or.inl hliteral
    · rw [m.plaintextOf_direct_signed hsigned] at htransparent
      exact Or.inr (Except.ok.inj htransparent).symm
  · rintro (hliteral | hunreadable)
    · exact m.plaintextOf_direct_literal hliteral
    · rcases m.shape with hliteral | hsigned
      · exact m.plaintextOf_direct_literal hliteral
      · rw [m.plaintextOf_direct_signed hsigned, hunreadable]

end CarriedTwice

/-- A message that was built around the content opens to it. -/
theorem opensTo_seipPacket (hlawful : P.Lawful) (hgenerated : key.Generated P) {env : MessageEnv}
    {cipher : PgpSymmetricAlgorithm} {content pkesks : Bytes}
    (hmodulus : (key.recipient P).rsaPublicKey.modulus.size ≤ 2 ^ 16)
    (hlength : content.length + 41 < 2 ^ 32)
    (hbuild : buildPkeskPackets P (env.sessionKeyFor cipher.octet) cipher.octet env.seed 0
      [key.recipient P] = some pkesks) :
    OpensTo P key (pkesks ++ seipPacket P (env.sessionKeyFor cipher.octet) env.prefixOctets content)
      content := by
  have hshort := env.length_sessionKeyFor_le cipher.octet
  have hseip : (1 :: cfbEncrypt P (env.sessionKeyFor cipher.octet) (Octets.zero 16)
      (plainForCfb P env.prefixOctets content)).length < 2 ^ 32 := by
    simpa [length_plainForCfb] using hlength
  have hmoduli : ∀ recipient ∈ [key.recipient P], recipient.rsaPublicKey.modulus.size ≤ 2 ^ 16 := by
    simpa using hmodulus
  have hpackets : IsPacketSequence
      (pkesks ++ seipPacket P (env.sessionKeyFor cipher.octet) env.prefixOctets content) :=
    (buildPkeskPackets_packets hshort hmoduli hbuild).append (.single (by decide) hseip)
  have hat := at_whole (pkesks ++ seipPacket P (env.sessionKeyFor cipher.octet) env.prefixOctets
    content)
  rw [List.append_assoc] at hat
  have hbefore : ∀ recipient ∈ ([] : List PgpEncryptionRecipient), recipient.keyId ≠ key.keyId :=
    List.forall_mem_nil _
  obtain ⟨pos, hpos, hfound⟩ := findSessionKey_own hlawful hgenerated hshort hbefore hmoduli hbuild
    (by decide) (by decide) hseip hat
  exact ⟨_, pos, _, _, _, reassembledOr_packets hpackets, hfound,
    sessionKeyOf_sessionKeyPlain (env.length_sessionKeyFor cipher.octet),
    decryptSeip_seipPacket hlength hpos⟩

end Carried

/-! ### A literal packet and a signed one -/

/-- A message to the curve key, around this content. -/
def sealedContent (content : Bytes) : Bytes :=
  (buildPkeskPackets standIn
      (mixedEnv.sessionKeyFor PgpSymmetricAlgorithm.PGP_SYMMETRIC_AES256.octet)
      PgpSymmetricAlgorithm.PGP_SYMMETRIC_AES256.octet mixedEnv.seed 0
      [mixedKeys[1].recipient standIn]).getD [] ++
    seipPacket standIn (mixedEnv.sessionKeyFor PgpSymmetricAlgorithm.PGP_SYMMETRIC_AES256.octet)
      mixedEnv.prefixOctets content

theorem opensTo_sealedContent {content : Bytes} (hlength : content.length + 41 < 2 ^ 32) :
    OpensTo standIn mixedKeys[1] (sealedContent content) content := by
  have hbuild : (buildPkeskPackets standIn
      (mixedEnv.sessionKeyFor PgpSymmetricAlgorithm.PGP_SYMMETRIC_AES256.octet)
      PgpSymmetricAlgorithm.PGP_SYMMETRIC_AES256.octet mixedEnv.seed 0
      [mixedKeys[1].recipient standIn]).isSome = true := by
    decide +kernel
  obtain ⟨pkesks, hpkesks⟩ := Option.isSome_iff_exists.mp hbuild
  rw [sealedContent, hpkesks, Option.getD_some]
  exact opensTo_seipPacket standIn_lawful (mixedKeys_generated _ (List.getElem_mem _)) (by decide)
    hlength hpkesks

/-- Short packets carried as they are, and in a compressed packet of indeterminate
length, whose data stand in for what the compressor made of them. -/
def carriedTwice (packets : PacketStream) (shape : packets.IsLiteral ∨ packets.IsSigned)
    (hlength : packets.octets.length + 43 < 2 ^ 32) : CarriedTwice standIn mixedKeys[1] where
  packets := packets
  shape := shape
  outer := ⟨[], some ⟨PGP_TAG_COMPRESSED_DATA, 1 :: packets.octets, compressedDataTag_lt⟩⟩
  algorithm := 1
  data := packets.octets
  outer_contents := rfl
  decompressed := rfl
  direct := sealedContent packets.octets
  compressed := sealedContent
    (indeterminateOctet PGP_TAG_COMPRESSED_DATA :: 1 :: packets.octets)
  opens_direct := opensTo_sealedContent (by omega)
  opens_compressed := opensTo_sealedContent (by simpa [OpenPacket.octets] using hlength)

/-- The literal packet of a greeting. -/
def greetingPacket (framing : Framing)
    (legal : framing.Legal PGP_TAG_LITERAL_DATA (literalBody (ascii "hi"))) : FramedPacket :=
  ⟨PGP_TAG_LITERAL_DATA, literalBody (ascii "hi"), framing, legal⟩

/-- A literal packet in chunks of four and two octets, and the rest. -/
theorem chunkedGreeting_transparent :
    (carriedTwice ⟨[greetingPacket (.partialBody [2, 1] .oneOctet)
        ⟨by decide, List.cons_ne_nil _ _, by decide, by decide, by decide, by decide,
          show _ < 192 by decide⟩], none⟩ (Or.inl ⟨_, rfl⟩) (by decide)).Transparent :=
  (CarriedTwice.transparent_iff _ fun _ hmem => absurd hmem List.not_mem_nil).mpr (Or.inl ⟨_, rfl⟩)

/-- The greeting between a one-pass signature and a signature. -/
def signedGreeting : PacketStream where
  front := [
    ⟨PGP_TAG_ONE_PASS_SIG, [3, 0, 10, 22, 1, 1, 1, 1, 2, 2, 2, 2, 1], .newFormat .oneOctet,
      by decide, show _ < 192 by decide⟩,
    greetingPacket (.newFormat .oneOctet) ⟨by decide, show _ < 192 by decide⟩,
    ⟨PGP_TAG_SIGNATURE, [4, 0, 22, 10, 0, 0, 0, 0, 18, 52, 0, 1, 1, 0, 1, 1], .newFormat .oneOctet,
      by decide, show _ < 192 by decide⟩]
  last := none

theorem signedGreeting_isSigned : signedGreeting.IsSigned := ⟨_, _, _, rfl, rfl⟩

/-- It is read from the compressed packet, and rejected where it stands as it is. -/
theorem signedGreeting_rejected :
    ¬ (carriedTwice signedGreeting (Or.inr signedGreeting_isSigned) (by decide)).Transparent := by
  intro htransparent
  have hwhole : (carriedTwice signedGreeting (Or.inr signedGreeting_isSigned)
      (by decide)).outer.Whole := fun _ hmem => absurd hmem List.not_mem_nil
  rw [CarriedTwice.Transparent, CarriedTwice.plaintextOf_direct_signed _ signedGreeting_isSigned,
    CarriedTwice.plaintextOf_compressed _ hwhole] at htransparent
  have hreadable : signedGreeting.readable = some (ascii "hi") := by decide
  exact Option.some_ne_none _ (hreadable.symm.trans (Except.ok.inj htransparent).symm)

end HashCryptoLib.Pgp
