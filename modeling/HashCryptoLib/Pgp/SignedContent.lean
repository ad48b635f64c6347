import HashCryptoLib.Pgp.BufferRoundTrip

/-!
What a caller may take for granted when a message is opened and a signature was
asked for: that the content was an announcement, a literal packet and a signature,
and that these are what came back. Compressed content is only accepted with a
signature behind the literal packet, but nobody looks for the announcement in
front of it; and a literal packet that is not compressed is accepted as it is.
-/

namespace HashCryptoLib.Pgp

open BigEndian

/-! ### Packets in a part of a buffer -/

/-- The octets of a buffer from one position to another. -/
structure Region where
  data : Bytes
  first : ℕ
  last : ℕ

/-- A packet at `pos` that ends at `next`, and no later than `endPos`. -/
def PacketIn (data : Bytes) (endPos pos : ℕ) (tag : UInt8) (body : Bytes) (next : ℕ) : Prop :=
  ∃ header, readPacketHeader data pos (some endPos) false = some header ∧ header.tag = tag ∧
    body = (data.drop header.bodyPos).take header.bodyLength ∧
      next = header.bodyPos + header.bodyLength ∧ next ≤ endPos

theorem PacketIn.unique {data body body' : Bytes} {endPos pos next next' : ℕ} {tag tag' : UInt8}
    (h : PacketIn data endPos pos tag body next) (h' : PacketIn data endPos pos tag' body' next') :
    tag = tag' ∧ body = body' ∧ next = next' := by
  obtain ⟨header, hread, rfl, rfl, rfl, -⟩ := h
  obtain ⟨header', hread', rfl, rfl, rfl, -⟩ := h'
  obtain rfl := Option.some.inj (hread.symm.trans hread')
  exact ⟨rfl, rfl, rfl⟩

/-! ### Signed content -/

/-- The content starts with an announcement, a literal packet and a signature, which carry
`plaintext` and `signature`; with `exact` nothing stands behind them. -/
def SignedContent (exact : Bool) (content : Region) (plaintext signature : Bytes) : Prop :=
  ∃ announcement literal signatureBody second third behind,
    PacketIn content.data content.last content.first PGP_TAG_ONE_PASS_SIG announcement second ∧
      PacketIn content.data content.last second PGP_TAG_LITERAL_DATA literal third ∧
      PacketIn content.data content.last third PGP_TAG_SIGNATURE signatureBody behind ∧
      literalContent literal = some plaintext ∧
      signature = (content.data.drop third).take (behind - third) ∧
      (exact = true → behind = content.last)

/-- The decompressed packets, with their chunks put together. -/
def Decompresses (P : Primitives) (body : Bytes) (content : Region) : Prop :=
  ∃ compAlgo compData decompressed, body = compAlgo :: compData ∧
    decompressBody P compAlgo compData = some decompressed ∧
      reassembledOr decompressed = .ok content.data ∧ content.first = 0 ∧
        content.last = content.data.length

/-- The content of a message: what was protected, or what a compressed packet there
holds. -/
inductive HoldsContent (P : Primitives) (exact : Bool) (region : Region) : Region → Prop
  | uncompressed : HoldsContent P exact region region
  | compressed {body : Bytes} {behind : ℕ} {content : Region}
      (hpacket : PacketIn region.data region.last region.first PGP_TAG_COMPRESSED_DATA body behind)
      (hbehind : exact = true → behind = region.last) (h : Decompresses P body content) :
      HoldsContent P exact region content

/-! ### Opening a message -/

section Open

variable {P : Primitives} {key : DecryptionKey} {input : Bytes} {wantSignature : Bool}

/-- The octets between the random octets in front and the code at the end. -/
def protectedRegion (P : Primitives) (plain : Bytes) : Except Fault (Option Region) :=
  match checkMdc P plain with
  | none => .ok none
  | some mdcTagOffset =>
    match reassemblePartialBodyLengthRange plain 18 mdcTagOffset with
    | .error fault => .error fault
    | .ok (some inner) => .ok (some ⟨inner, 0, inner.length⟩)
    | .ok none => .ok (some ⟨plain, 18, mdcTagOffset⟩)

theorem parseProtected_iff {plain : Bytes} {result : Bytes × Option Bytes} :
    parseProtected P plain wantSignature = .ok (some result) ↔
      ∃ region, protectedRegion P plain = .ok (some region) ∧
        parseInnerPacket P region.data region.first region.last wantSignature =
          .ok (some result) := by
  rw [parseProtected, protectedRegion]
  cases checkMdc P plain with
  | none => simp
  | some mdcTagOffset =>
      dsimp only
      cases reassemblePartialBodyLengthRange plain 18 mdcTagOffset with
      | error fault => simp
      | ok inner => cases inner <;> simp

/-- What a message holds that this key opens. -/
def DecryptedRegion (P : Primitives) (key : DecryptionKey) (input : Bytes) (region : Region) :
    Prop :=
  ∃ message found pos sessionKey plain, reassembledOr input = .ok message ∧
    findSessionKey P key message 0 none = .ok (some (found, pos)) ∧
      found.bind sessionKeyOf = some sessionKey ∧
        decryptSeip P sessionKey message pos = some plain ∧
          protectedRegion P plain = .ok (some region)

theorem DecryptedRegion.unique {region region' : Region} (h : DecryptedRegion P key input region)
    (h' : DecryptedRegion P key input region') : region = region' := by
  obtain ⟨message, found, pos, sessionKey, plain, hmessage, hfound, hkey, hplain, hregion⟩ := h
  obtain ⟨message', found', pos', sessionKey', plain', hmessage', hfound', hkey', hplain',
    hregion'⟩ := h'
  obtain rfl := Except.ok.inj (hmessage.symm.trans hmessage')
  obtain ⟨rfl, rfl⟩ := Prod.mk.inj (Option.some.inj (Except.ok.inj (hfound.symm.trans hfound')))
  obtain rfl := Option.some.inj (hkey.symm.trans hkey')
  obtain rfl := Option.some.inj (hplain.symm.trans hplain')
  exact Option.some.inj (Except.ok.inj (hregion.symm.trans hregion'))

theorem openMessage_iff {result : Bytes × Option Bytes} :
    openMessage P key input wantSignature = .ok (some result) ↔
      ∃ region, DecryptedRegion P key input region ∧
        parseInnerPacket P region.data region.first region.last wantSignature =
          .ok (some result) := by
  rw [openMessage]
  constructor
  · intro h
    cases hmessage : reassembledOr input with
    | error fault =>
        rw [hmessage] at h
        cases h
    | ok message =>
        rw [hmessage] at h
        dsimp only at h
        cases hfound : findSessionKey P key message 0 none with
        | error fault =>
            rw [hfound] at h
            cases h
        | ok search =>
            rw [hfound] at h
            cases search with
            | none => cases h
            | some search =>
                obtain ⟨found, pos⟩ := search
                dsimp only at h
                cases hplain : (found.bind sessionKeyOf).bind fun sessionKey =>
                    decryptSeip P sessionKey message pos with
                | none =>
                    rw [hplain] at h
                    cases h
                | some plain =>
                    rw [hplain] at h
                    obtain ⟨sessionKey, hkey, hplain⟩ := Option.bind_eq_some_iff.mp hplain
                    obtain ⟨region, hregion, hparse⟩ := parseProtected_iff.mp h
                    exact ⟨region, ⟨message, found, pos, sessionKey, plain, hmessage, hfound, hkey,
                      hplain, hregion⟩, hparse⟩
  · rintro ⟨region, ⟨message, found, pos, sessionKey, plain, hmessage, hfound, hkey, hplain,
      hregion⟩, hparse⟩
    rw [hmessage]
    dsimp only
    rw [hfound]
    dsimp only
    rw [hkey, Option.bind_some, hplain]
    exact parseProtected_iff.mpr ⟨region, hregion, hparse⟩

theorem parseAndDecryptMessage_iff {plaintext : Bytes} {signature : Option Bytes} :
    parseAndDecryptMessage P key input wantSignature = .ok (some plaintext, signature) ↔
      ∃ region literal, DecryptedRegion P key input region ∧
        parseInnerPacket P region.data region.first region.last wantSignature =
            .ok (some (literal, signature)) ∧
          literalContent literal = some plaintext := by
  rw [parseAndDecryptMessage]
  constructor
  · intro h
    cases hopen : openMessage P key input wantSignature with
    | error fault =>
        rw [hopen] at h
        cases h
    | ok result =>
        rw [hopen] at h
        have hresult := Except.ok.inj h
        cases result with
        | none => cases hresult
        | some result =>
            obtain ⟨literal, found⟩ := result
            obtain ⟨hcontent, rfl⟩ := Prod.mk.inj hresult
            obtain ⟨region, hregion, hparse⟩ := openMessage_iff.mp hopen
            exact ⟨region, literal, hregion, hparse, hcontent⟩
  · rintro ⟨region, literal, hregion, hparse, hcontent⟩
    rw [openMessage_iff.mpr ⟨region, hregion, hparse⟩]
    exact congrArg (fun content => Except.ok (content, signature)) hcontent

theorem packetIn_of_read {data : Bytes} {endPos pos : ℕ} {header : PacketHeader}
    (hread : readPacketHeader data pos (some endPos) false = some header)
    (hend : header.bodyPos + header.bodyLength ≤ endPos) :
    PacketIn data endPos pos header.tag ((data.drop header.bodyPos).take header.bodyLength)
      (header.bodyPos + header.bodyLength) :=
  ⟨header, hread, rfl, rfl, rfl, hend⟩

/-- The two ways of opening the packet inside, and nothing else. -/
theorem parseInnerPacket_iff {data literal : Bytes} {first last : ℕ} {signature : Option Bytes} :
    parseInnerPacket P data first last wantSignature = .ok (some (literal, signature)) ↔
      (signature = none ∧ ∃ next, PacketIn data last first PGP_TAG_LITERAL_DATA literal next) ∨
        ∃ body next content, PacketIn data last first PGP_TAG_COMPRESSED_DATA body next ∧
          Decompresses P body content ∧
            parseDecompressedPackets content.data wantSignature = some (literal, signature) := by
  rw [parseInnerPacket]
  constructor
  -- the branches of the parser: all but two give nothing
  · intro h
    cases hread : readPacketHeader data first (some last) false with
    | none =>
        rw [hread] at h
        cases h
    | some header =>
        rw [hread] at h
        dsimp only at h
        by_cases hover : header.bodyPos + header.bodyLength > last
        · rw [if_pos hover] at h
          cases h
        rw [if_neg hover] at h
        have hpacket := packetIn_of_read hread (Nat.le_of_not_lt hover)
        by_cases hcompressed : header.tag = PGP_TAG_COMPRESSED_DATA
        · rw [if_pos hcompressed] at h
          rw [hcompressed] at hpacket
          cases hbody : (data.drop header.bodyPos).take header.bodyLength with
          | nil =>
              rw [hbody] at h
              cases h
          | cons compAlgo compData =>
              rw [hbody] at h hpacket
              dsimp only at h
              cases hdecompress : decompressBody P compAlgo compData with
              | none =>
                  rw [hdecompress] at h
                  cases h
              | some decompressed =>
                  rw [hdecompress] at h
                  dsimp only at h
                  cases hpackets : reassembledOr decompressed with
                  | error fault =>
                      rw [hpackets] at h
                      cases h
                  | ok packets =>
                      rw [hpackets] at h
                      exact Or.inr ⟨_, _, ⟨packets, 0, packets.length⟩, hpacket,
                        ⟨compAlgo, compData, decompressed, rfl, hdecompress, hpackets, rfl, rfl⟩,
                        Except.ok.inj h⟩
        rw [if_neg hcompressed] at h
        by_cases hliteral : header.tag = PGP_TAG_LITERAL_DATA
        · rw [if_pos hliteral] at h
          rw [hliteral] at hpacket
          obtain ⟨rfl, rfl⟩ := Prod.mk.inj (Option.some.inj (Except.ok.inj h))
          exact Or.inl ⟨rfl, _, hpacket⟩
        · rw [if_neg hliteral] at h
          cases h
  · rintro (⟨rfl, next, header, hread, htag, rfl, rfl, hend⟩ |
      ⟨body, next, content, ⟨header, hread, htag, rfl, rfl, hend⟩,
        ⟨compAlgo, compData, decompressed, hbody, hdecompress, hpackets, -, -⟩, hparse⟩)
    · rw [hread]
      dsimp only
      rw [if_neg (by omega), if_neg (by rw [htag]; decide), if_pos htag]
    · rw [hread]
      dsimp only
      rw [if_neg (by omega), if_pos htag, hbody]
      dsimp only
      rw [hdecompress]
      dsimp only
      rw [hpackets]
      exact congrArg Except.ok hparse

/-- Where the literal packet of decompressed packets stands: behind an announcement, or
in front. -/
def LiteralStart (packets : Bytes) (start : ℕ) : Prop :=
  (∃ announcement, PacketIn packets packets.length 0 PGP_TAG_ONE_PASS_SIG announcement start) ∨
    start = 0

theorem readPacketHeader_length (data : Bytes) (pos : ℕ) (acceptPartial : Bool) :
    readPacketHeader data pos (some data.length) acceptPartial =
      readPacketHeader data pos none acceptPartial := rfl

/-- What is done at the header of the literal packet, where a signature is asked for. -/
def literalAndSignature (packets : Bytes) (literal : PacketHeader) : Option (Bytes × Option Bytes) :=
  if literal.tag ≠ PGP_TAG_LITERAL_DATA then none
  else
    (readOctets packets literal.bodyPos literal.bodyLength).bind fun body =>
      let sigPacketStart := literal.bodyPos + literal.bodyLength
      (readPacketHeader packets sigPacketStart none false).bind fun signature =>
        if signature.tag ≠ PGP_TAG_SIGNATURE ∨
            signature.bodyPos + signature.bodyLength > packets.length then none
        else
          some (body, some ((packets.drop sigPacketStart).take
            (signature.bodyPos + signature.bodyLength - sigPacketStart)))

theorem parseDecompressedPackets_eq (packets : Bytes) :
    parseDecompressedPackets packets true =
      (readPacketHeader packets 0 none false).bind fun first =>
        if first.tag = PGP_TAG_ONE_PASS_SIG then
          (readPacketHeader packets (first.bodyPos + first.bodyLength) none false).bind
            (literalAndSignature packets)
        else literalAndSignature packets first := rfl

theorem literalAndSignature_iff {packets body : Bytes} {literal : PacketHeader}
    {found : Option Bytes} :
    literalAndSignature packets literal = some (body, found) ↔
      literal.tag = PGP_TAG_LITERAL_DATA ∧
        readOctets packets literal.bodyPos literal.bodyLength = some body ∧
        ∃ signatureBody behind,
          PacketIn packets packets.length (literal.bodyPos + literal.bodyLength) PGP_TAG_SIGNATURE
              signatureBody behind ∧
            found = some ((packets.drop (literal.bodyPos + literal.bodyLength)).take
              (behind - (literal.bodyPos + literal.bodyLength))) := by
  rw [literalAndSignature]
  constructor
  · intro h
    split_ifs at h with htag
    obtain ⟨body', hbody, h⟩ := Option.bind_eq_some_iff.mp h
    obtain ⟨signature, hread, h⟩ := Option.bind_eq_some_iff.mp h
    split_ifs at h with hbad
    obtain ⟨hsignature, hend⟩ := not_or.mp hbad
    obtain ⟨rfl, rfl⟩ := Prod.mk.inj (Option.some.inj h)
    have hpacket := packetIn_of_read hread (Nat.le_of_not_lt hend)
    rw [not_not.mp hsignature] at hpacket
    exact ⟨not_not.mp htag, hbody, _, _, hpacket, rfl⟩
  · rintro ⟨htag, hbody, signatureBody, behind, ⟨signature, hread, hsignature, -, rfl, hend⟩, rfl⟩
    rw [readPacketHeader_length] at hread
    rw [if_neg (not_not.mpr htag), hbody, Option.bind_some]
    dsimp only
    rw [hread, Option.bind_some, if_neg (by rw [hsignature]; simp; omega)]

/-- Where a signature is asked for, it stands behind the literal packet. -/
theorem parseDecompressedPackets_iff {packets literal : Bytes} {found : Option Bytes} :
    parseDecompressedPackets packets true = some (literal, found) ↔
      ∃ start third signatureBody behind, LiteralStart packets start ∧
        PacketIn packets packets.length start PGP_TAG_LITERAL_DATA literal third ∧
          PacketIn packets packets.length third PGP_TAG_SIGNATURE signatureBody behind ∧
            found = some ((packets.drop third).take (behind - third)) := by
  rw [parseDecompressedPackets_eq]
  have hliteral {start : ℕ} {header : PacketHeader}
      (hread : readPacketHeader packets start none false = some header) (htag : header.tag =
        PGP_TAG_LITERAL_DATA) (hbody : readOctets packets header.bodyPos header.bodyLength =
        some literal) : PacketIn packets packets.length start PGP_TAG_LITERAL_DATA literal
          (header.bodyPos + header.bodyLength) := by
    rw [readOctets] at hbody
    split_ifs at hbody with hend
    obtain rfl := Option.some.inj hbody
    exact ⟨header, hread, htag, rfl, rfl, hend⟩
  constructor
  · intro h
    obtain ⟨first, hfirst, h⟩ := Option.bind_eq_some_iff.mp h
    split_ifs at h with hannounced
    · obtain ⟨header, hread, h⟩ := Option.bind_eq_some_iff.mp h
      obtain ⟨htag, hbody, signatureBody, behind, hsignature, hfound⟩ := literalAndSignature_iff.mp h
      have hannouncement := @packetIn_of_read packets packets.length _ _ hfirst
        (lt_length_of_read hread).le
      rw [hannounced] at hannouncement
      exact ⟨_, _, signatureBody, behind, Or.inl ⟨_, hannouncement⟩, hliteral hread htag hbody,
        hsignature, hfound⟩
    · obtain ⟨htag, hbody, signatureBody, behind, hsignature, hfound⟩ := literalAndSignature_iff.mp h
      exact ⟨_, _, signatureBody, behind, Or.inr rfl, hliteral hfirst htag hbody, hsignature, hfound⟩
  · rintro ⟨start, third, signatureBody, behind, hstart,
      ⟨header, hread, htag, rfl, rfl, hend⟩, hsignature, hfound⟩
    rw [readPacketHeader_length] at hread
    have hsigned : literalAndSignature packets header =
        some ((packets.drop header.bodyPos).take header.bodyLength, found) :=
      literalAndSignature_iff.mpr ⟨htag, if_pos hend, signatureBody, behind, hsignature, hfound⟩
    rcases hstart with ⟨announcement, first, hfirst, hannounced, -, rfl, -⟩ | rfl
    · rw [readPacketHeader_length] at hfirst
      rw [hfirst, Option.bind_some, if_pos hannounced, hread, Option.bind_some, hsigned]
    · rw [hread, Option.bind_some, if_neg (by rw [htag]; decide), hsigned]

theorem Decompresses.unique {body : Bytes} {content content' : Region}
    (h : Decompresses P body content) (h' : Decompresses P body content') : content = content' := by
  obtain ⟨data, first, last⟩ := content
  obtain ⟨data', first', last'⟩ := content'
  obtain ⟨compAlgo, compData, decompressed, rfl, hdecompress, hdata, hfirst, hlast⟩ := h
  obtain ⟨compAlgo', compData', decompressed', hbody, hdecompress', hdata', hfirst', hlast'⟩ := h'
  dsimp only at hdata hfirst hlast hdata' hfirst' hlast'
  obtain ⟨rfl, rfl⟩ := List.cons.inj hbody
  obtain rfl := Option.some.inj (hdecompress.symm.trans hdecompress')
  obtain rfl : data = data' := Except.ok.inj (hdata.symm.trans hdata')
  rw [hfirst, hfirst', hlast, hlast']

end Open

/-! ### The contract -/

section Contract

variable (P : Primitives) (exact : Bool) (key : DecryptionKey) (input : Bytes)

/-- A message that is opened where a signature is asked for has signed content, and what
comes back is that. -/
def FailClosed : Prop :=
  ∀ plaintext found, parseAndDecryptMessage P key input true = .ok (some plaintext, found) →
    ∃ region content signature, DecryptedRegion P key input region ∧
      HoldsContent P exact region content ∧ SignedContent exact content plaintext signature ∧
        found = some signature

/-- The kinds of messages that are opened all the same are not met: a literal packet that
is not compressed; compressed packets that start with the literal packet; and, with
`exact`, more behind the signature or behind the compressed packet. -/
structure NotLax : Prop where
  bare : ∀ region literal next, DecryptedRegion P key input region →
    PacketIn region.data region.last region.first PGP_TAG_LITERAL_DATA literal next →
      literalContent literal = none
  unannounced : ∀ region body behind content literal third signatureBody next,
    DecryptedRegion P key input region →
    PacketIn region.data region.last region.first PGP_TAG_COMPRESSED_DATA body behind →
    Decompresses P body content →
    PacketIn content.data content.last content.first PGP_TAG_LITERAL_DATA literal third →
    PacketIn content.data content.last third PGP_TAG_SIGNATURE signatureBody next →
      literalContent literal = none
  whole : exact = true → ∀ region body behind content announcement second literal third
      signatureBody next,
    DecryptedRegion P key input region →
    PacketIn region.data region.last region.first PGP_TAG_COMPRESSED_DATA body behind →
    Decompresses P body content →
    PacketIn content.data content.last content.first PGP_TAG_ONE_PASS_SIG announcement second →
    PacketIn content.data content.last second PGP_TAG_LITERAL_DATA literal third →
    PacketIn content.data content.last third PGP_TAG_SIGNATURE signatureBody next →
      literalContent literal ≠ none → behind = region.last ∧ next = content.last

variable {P exact key input}

/-- A message with compressed content, a literal packet and a signature is opened. -/
theorem opens_compressed {region content : Region} {body literal signatureBody plaintext : Bytes}
    {behind start third next : ℕ} (hregion : DecryptedRegion P key input region)
    (hpacket : PacketIn region.data region.last region.first PGP_TAG_COMPRESSED_DATA body behind)
    (hcontent : Decompresses P body content) (hstart : LiteralStart content.data start)
    (hliteral : PacketIn content.data content.last start PGP_TAG_LITERAL_DATA literal third)
    (hsignature : PacketIn content.data content.last third PGP_TAG_SIGNATURE signatureBody next)
    (hplain : literalContent literal = some plaintext) :
    parseAndDecryptMessage P key input true =
      .ok (some plaintext, some ((content.data.drop third).take (next - third))) := by
  have hlast := hcontent
  obtain ⟨-, -, -, -, -, -, -, hlast⟩ := hlast
  rw [hlast] at hliteral hsignature
  exact parseAndDecryptMessage_iff.mpr ⟨region, literal, hregion,
    parseInnerPacket_iff.mpr (Or.inr ⟨body, behind, content, hpacket, hcontent,
      parseDecompressedPackets_iff.mpr ⟨start, third, signatureBody, next, hstart, hliteral,
        hsignature, rfl⟩⟩), hplain⟩

/-- What a message with compressed content may be opened to, where the contract holds. -/
theorem FailClosed.signed (h : FailClosed P exact key input) {region content : Region}
    {body plaintext : Bytes} {found : Option Bytes} {behind : ℕ}
    (hregion : DecryptedRegion P key input region)
    (hpacket : PacketIn region.data region.last region.first PGP_TAG_COMPRESSED_DATA body behind)
    (hcontent : Decompresses P body content)
    (hopens : parseAndDecryptMessage P key input true = .ok (some plaintext, found)) :
    (exact = true → behind = region.last) ∧
      ∃ signature, SignedContent exact content plaintext signature := by
  obtain ⟨region', content', signature, hregion', hholds, hsigned, -⟩ := h _ _ hopens
  obtain rfl := hregion.unique hregion'
  cases hholds with
  | uncompressed =>
      obtain ⟨announcement, _, _, _, _, _, hannouncement, -⟩ := hsigned
      exact absurd (hpacket.unique hannouncement).1 (by decide)
  | compressed hpacket' hbehind hcontent' =>
      obtain ⟨-, rfl, rfl⟩ := hpacket.unique hpacket'
      obtain rfl := hcontent.unique hcontent'
      exact ⟨hbehind, signature, hsigned⟩

variable (P exact key input) in
/-- The contract holds exactly for the messages that are of none of these kinds. -/
theorem failClosed_iff : FailClosed P exact key input ↔ NotLax P exact key input := by
  constructor
  · intro h
    refine ⟨fun region literal next hregion hliteral => ?_,
      fun region body behind content literal third signatureBody next hregion hpacket hcontent
        hliteral hsignature => ?_,
      fun hexact region body behind content announcement second literal third signatureBody next
        hregion hpacket hcontent hannouncement hliteral hsignature hplain => ?_⟩
    · by_contra hplain
      obtain ⟨plaintext, hplain⟩ := Option.ne_none_iff_exists'.mp hplain
      obtain ⟨-, -, signature, -, -, -, hfound⟩ := h plaintext none
        (parseAndDecryptMessage_iff.mpr ⟨region, literal, hregion,
          parseInnerPacket_iff.mpr (Or.inl ⟨rfl, next, hliteral⟩), hplain⟩)
      cases hfound
    · by_contra hplain
      obtain ⟨plaintext, hplain⟩ := Option.ne_none_iff_exists'.mp hplain
      have hfirst : content.first = 0 := by
        obtain ⟨-, -, -, -, -, -, hfirst, -⟩ := hcontent
        exact hfirst
      obtain ⟨-, signature, announcement, _, _, _, _, _, hannouncement, -⟩ := h.signed hregion
        hpacket hcontent (opens_compressed hregion hpacket hcontent (Or.inr rfl)
          (hfirst ▸ hliteral) hsignature hplain)
      exact absurd (hliteral.unique hannouncement).1 (by decide)
    · obtain ⟨plaintext, hplain⟩ := Option.ne_none_iff_exists'.mp hplain
      have hstart : LiteralStart content.data second := by
        obtain ⟨-, -, -, -, -, -, hfirst, hlast⟩ := hcontent
        rw [hfirst, hlast] at hannouncement
        exact Or.inl ⟨announcement, hannouncement⟩
      obtain ⟨hbehind, signature, announcement', literal', signatureBody', second', third', next',
        hannouncement', hliteral', hsignature', -, -, hnext⟩ := h.signed hregion hpacket hcontent
          (opens_compressed hregion hpacket hcontent hstart hliteral hsignature hplain)
      obtain ⟨-, -, rfl⟩ := hannouncement.unique hannouncement'
      obtain ⟨-, -, rfl⟩ := hliteral.unique hliteral'
      obtain ⟨-, -, rfl⟩ := hsignature.unique hsignature'
      exact ⟨hbehind hexact, hnext hexact⟩
  · intro h plaintext found hopens
    obtain ⟨region, literal, hregion, hparse, hplain⟩ := parseAndDecryptMessage_iff.mp hopens
    rcases parseInnerPacket_iff.mp hparse with ⟨-, next, hliteral⟩ |
      ⟨body, behind, content, hpacket, hcontent, hpackets⟩
    · rw [h.bare region literal next hregion hliteral] at hplain
      cases hplain
    · obtain ⟨start, third, signatureBody, next, hstart, hliteral, hsignature, rfl⟩ :=
        parseDecompressedPackets_iff.mp hpackets
      have hwhere := hcontent
      obtain ⟨-, -, -, -, -, -, hfirst, hlast⟩ := hwhere
      rw [← hlast] at hliteral hsignature
      rcases hstart with ⟨announcement, hannouncement⟩ | rfl
      · rw [← hlast, ← hfirst] at hannouncement
        have hends (hexact : exact = true) := h.whole hexact region body behind content announcement
          start literal third signatureBody next hregion hpacket hcontent hannouncement hliteral
          hsignature (by rw [hplain]; exact Option.some_ne_none _)
        exact ⟨region, content, _, hregion, .compressed hpacket (fun hexact => (hends hexact).1)
          hcontent, ⟨announcement, literal, signatureBody, start, third, next, hannouncement,
            hliteral, hsignature, hplain, rfl, fun hexact => (hends hexact).2⟩, rfl⟩
      · rw [← hfirst] at hliteral
        rw [h.unannounced region body behind content literal third signatureBody next hregion hpacket
          hcontent hliteral hsignature] at hplain
        cases hplain

end Contract

/-! ### A message without a signature -/

/-- A literal packet that is neither compressed nor signed, encrypted for the identity whose
subkey expires. -/
def bareLetter : Bytes :=
  (buildPkeskPackets standIn (mixedEnv.sessionKeyFor 9) 9 mixedEnv.seed 0
    [{ rsaPublicKey := shortLivedOwner.ownSubkeyPrivateKey.publicKey
       rsaKeyId := shortLivedOwner.ownSubkeyKeyId }]).getD [] ++
    seipPacket standIn (mixedEnv.sessionKeyFor 9) mixedEnv.prefixOctets
      (writePacket PGP_TAG_LITERAL_DATA (literalBody (ascii "hi")))

theorem bareLetter_plain :
    parseAndDecryptMessage standIn shortLivedOwner.flatDecryptionKey bareLetter true =
      .ok (some (ascii "hi"), none) := by
  decide +kernel

/-- It is opened, without a signature. -/
theorem bareLetter_opens :
    parseAndDecryptMessage standIn shortLivedOwner.flatDecryptionKey bareLetter true =
        .ok (some (ascii "hi"), none) ∧
      ¬ FailClosed standIn false shortLivedOwner.flatDecryptionKey bareLetter := by
  refine ⟨bareLetter_plain, fun h => ?_⟩
  obtain ⟨-, -, signature, -, -, -, hfound⟩ := h _ _ bareLetter_plain
  cases hfound

end HashCryptoLib.Pgp
