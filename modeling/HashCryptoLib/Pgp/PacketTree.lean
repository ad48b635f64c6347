import HashCryptoLib.Pgp.PacketStream
import HashCryptoLib.Pgp.SignatureLayout

/-!
Inspection of what is not encrypted. A message is a tree of packets: signatures,
one-pass signatures and literal packets, and compressed packets with a message
inside. Inspection follows the tree through every framing and every compression,
down to three compressed packets, and reports its signatures in their order. What
it misses stands behind a packet that is too long for the length it is spliced
with.
-/

namespace HashCryptoLib.Pgp

open BigEndian Cursor

/-! ### Trees and what there is to report -/

inductive PacketTree
  | signature (signature : SignatureLayout)
  | onePass (onePass : OnePassLayout)
  | literal (body : Bytes)
  | compressed (algorithm : UInt8) (inside : List PacketTree)

mutual

/-- The signatures of a packet, and of the packets in it. -/
def PacketTree.signatures : PacketTree → List PgpInspectedSignature
  | .signature signature => [signature.inspected]
  | .onePass onePass => [onePass.inspected]
  | .literal _ => []
  | .compressed _ inside => signaturesOf inside

/-- The signatures of a message, in the order of the document. -/
def signaturesOf : List PacketTree → List PgpInspectedSignature
  | [] => []
  | tree :: trees => tree.signatures ++ signaturesOf trees

end

def PacketTree.compression : PacketTree → Option UInt8
  | .compressed algorithm _ => some algorithm
  | _ => none

/-- What there is to report of a message: its signatures, and the algorithm of the
first compressed packet; nothing in it is encrypted. -/
def reportOf (trees : List PacketTree) : PgpInspectedMessage where
  sawAnyPacket := !trees.isEmpty
  compressionAlgorithm := trees.findSome? PacketTree.compression
  signatures := signaturesOf trees

/-! ### Trees and octets -/

mutual

/-- A packet with this tag and body stands for the tree, with no more compressed
packets inside one another than the depth says. The packets in a compressed one
come in any framing that is admitted. -/
inductive IsBody (P : Primitives) (Admits : PacketStream → Prop) :
    ℕ → PacketTree → BlockPacket → Prop
  | signature {depth : ℕ} {signature : SignatureLayout} :
      IsBody P Admits depth (.signature signature) (PGP_TAG_SIGNATURE, signature.octets)
  | onePass {depth : ℕ} {onePass : OnePassLayout} :
      IsBody P Admits depth (.onePass onePass) (PGP_TAG_ONE_PASS_SIG, onePass.octets)
  | literal {depth : ℕ} {body : Bytes} :
      IsBody P Admits depth (.literal body) (PGP_TAG_LITERAL_DATA, body)
  | compressed {depth : ℕ} {algorithm : UInt8} {data : Bytes} {inside : List PacketTree}
      {stream : PacketStream} (hdata : decompressBody P algorithm data = some stream.octets)
      (hadmits : Admits stream) (hinside : AreBodies P Admits depth inside stream.contents) :
      IsBody P Admits (depth + 1) (.compressed algorithm inside)
        (PGP_TAG_COMPRESSED_DATA, algorithm :: data)

inductive AreBodies (P : Primitives) (Admits : PacketStream → Prop) :
    ℕ → List PacketTree → List BlockPacket → Prop
  | nil {depth : ℕ} : AreBodies P Admits depth [] []
  | cons {depth : ℕ} {tree : PacketTree} {trees : List PacketTree} {packet : BlockPacket}
      {packets : List BlockPacket} (hfirst : IsBody P Admits depth tree packet)
      (hrest : AreBodies P Admits depth trees packets) :
      AreBodies P Admits depth (tree :: trees) (packet :: packets)

end

/-- The stream is a serialisation of the message. -/
structure Serialises (P : Primitives) (Admits : PacketStream → Prop) (depth : ℕ)
    (trees : List PacketTree) (stream : PacketStream) : Prop where
  admits : Admits stream
  bodies : AreBodies P Admits depth trees stream.contents

/-- The octets as they are, or in the armor that the engine writes. -/
inductive Rendering (octets : Bytes) : Bytes → Prop
  | binary : Rendering octets octets
  | armored {label : Bytes} (hdash : DASH ∉ label) (hlabel : label ≠ ascii "PGP SIGNED MESSAGE") :
      Rendering octets (armorEncode label octets)

/-- Inspection reports just what there is to report; of no packets at all, nothing. -/
def ReportedAsIs (P : Primitives) (trees : List PacketTree) (input : Bytes) : Prop :=
  inspectMessageBuffer P input = .ok (if trees = [] then none else some (reportOf trees))

/-! ### The walk over a tree -/

theorem PgpInspectedMessage.join_assoc (first second third : PgpInspectedMessage) :
    (first.join second).join third = first.join (second.join third) := by
  simp [PgpInspectedMessage.join, Bool.or_assoc, Option.or_assoc]

theorem reportOf_cons (tree : PacketTree) (trees : List PacketTree) :
    reportOf (tree :: trees) = (reportOf [tree]).join (reportOf trees) := by
  simp only [reportOf, PgpInspectedMessage.join, signaturesOf, List.findSome?_cons,
    List.findSome?_nil, List.append_nil]
  cases tree.compression <;> simp

theorem note_eq_join (out : PgpInspectedMessage) (tag : UInt8) (body : Bytes) :
    out.note tag body = out.join (({} : PgpInspectedMessage).note tag body) := by
  rw [← note_join, join_empty]

section Walk

variable {P : Primitives} {depth : ℕ} {tree : PacketTree} {packet : BlockPacket}

/-- A packet that has no packets in it. -/
theorem inspectPacket_leaf {tag : UInt8} {body : Bytes} (htag : tag ≠ PGP_TAG_COMPRESSED_DATA)
    (hreport : ({} : PgpInspectedMessage).note tag body = reportOf [tree])
    (out : PgpInspectedMessage) :
    inspectPacket P depth (tag, body) out = .ok (out.join (reportOf [tree])) := by
  rw [inspectPacket, nestedPackets.eq_def, if_pos (Or.inl htag), note_eq_join, hreport]

/-- What the walk of a compressed packet reports: its algorithm, and what a reader
finds in the stream inside. -/
theorem inspectPacket_compressed {algorithm : UInt8} {data : Bytes} {stream : PacketStream}
    (hdata : decompressBody P algorithm data = some stream.octets) (out : PgpInspectedMessage) :
    inspectPacket P (depth + 1) (PGP_TAG_COMPRESSED_DATA, algorithm :: data) out =
      inspectPackets P depth (blockPackets stream.spliced 0)
        (out.join { sawAnyPacket := true, compressionAlgorithm := some algorithm }) := by
  have hnote : out.note PGP_TAG_COMPRESSED_DATA (algorithm :: data) =
      out.join { sawAnyPacket := true, compressionAlgorithm := some algorithm } := by
    rw [note_eq_join]
    rfl
  have hnested : nestedPackets P (depth + 1) PGP_TAG_COMPRESSED_DATA (algorithm :: data) =
      if stream.octets = [] then .ok none else .ok (some stream.spliced) := by
    rw [nestedPackets.eq_def, if_neg (by simp)]
    dsimp only
    rw [hdata]
    dsimp only
    rw [stream.reassembledOr_octets]
    rfl
  rw [inspectPacket, hnested, hnote]
  by_cases hempty : stream.octets = []
  · have hspliced := stream.reassembledOr_octets
    rw [hempty] at hspliced
    have hnil : stream.spliced = [] :=
      Except.ok.inj (hspliced.symm.trans (PacketStream.mk [] none).reassembledOr_octets)
    rw [if_pos hempty, hnil, blockPackets_end (by simp)]
    rfl
  · rw [if_neg hempty]
    dsimp only
    rw [Nat.add_sub_cancel, inspectPacketSequence_eq]

/-- One packet, where the packets in a compressed one are reported as they should be. -/
theorem inspectPacket_isBody
    (ih : ∀ (smaller : ℕ) (trees : List PacketTree) (packets : List BlockPacket)
      (out : PgpInspectedMessage), smaller < depth →
      AreBodies P PacketStream.Whole smaller trees packets →
      inspectPackets P smaller packets out = .ok (out.join (reportOf trees)))
    (h : IsBody P PacketStream.Whole depth tree packet) (out : PgpInspectedMessage) :
    inspectPacket P depth packet out = .ok (out.join (reportOf [tree])) := by
  cases h with
  | @signature _ signature =>
      refine inspectPacket_leaf (by decide) ?_ out
      show ({ sawAnyPacket := true, signatures := [] ++
        (inspectSignaturePacketBody signature.octets).toList } : PgpInspectedMessage) = _
      rw [signature.inspectSignaturePacketBody_octets]
      rfl
  | @onePass _ onePass =>
      refine inspectPacket_leaf (by decide) ?_ out
      show ({ sawAnyPacket := true, signatures := [] ++ inspectOnePass onePass.octets } :
        PgpInspectedMessage) = _
      rw [onePass.inspectOnePass_octets]
      rfl
  | literal => exact inspectPacket_leaf (by decide) rfl out
  | @compressed smaller algorithm data inside stream hdata hwhole hinside =>
      have hreport : reportOf [.compressed algorithm inside] =
          PgpInspectedMessage.join { sawAnyPacket := true, compressionAlgorithm := some algorithm }
            (reportOf inside) := by
        simp [reportOf, PgpInspectedMessage.join, signaturesOf, PacketTree.signatures,
          PacketTree.compression]
      rw [inspectPacket_compressed hdata, PacketStream.blockPackets_spliced _ _ hwhole (at_zero _),
        hreport, ← PgpInspectedMessage.join_assoc]
      exact ih smaller inside _ _ (Nat.lt_succ_self _) hinside

/-- The packets of a message, by the depth and then one after another. -/
theorem inspectPackets_areBodies (depth : ℕ) : ∀ (trees : List PacketTree)
    (packets : List BlockPacket) (out : PgpInspectedMessage),
    AreBodies P PacketStream.Whole depth trees packets →
      inspectPackets P depth packets out = .ok (out.join (reportOf trees)) := by
  induction depth using Nat.strong_induction_on with
  | _ depth ih =>
      intro trees
      induction trees with
      | nil =>
          intro packets out h
          cases h
          exact congrArg Except.ok (join_empty out).symm
      | cons tree trees ihtrees =>
          intro packets out h
          cases h with
          | cons hfirst hrest =>
              rw [inspectPackets, inspectPacket_isBody
                (fun smaller trees packets out hlt => ih smaller hlt trees packets out) hfirst]
              dsimp only
              rw [ihtrees _ _ hrest, reportOf_cons tree trees, PgpInspectedMessage.join_assoc]

end Walk

/-! ### Whole messages -/

section Message

variable {P : Primitives} {octets input : Bytes}

theorem newFormat_ne_dash : ∀ tag : UInt8, 0xC0 ||| tag ≠ DASH := by decide +kernel

theorem oldFormat_ne_dash (form : OldLength) : ∀ tag : UInt8, form.firstOctet tag ≠ DASH := by
  cases form <;> decide +kernel

theorem indeterminate_ne_dash : ∀ tag : UInt8, indeterminateOctet tag ≠ DASH := by decide +kernel

/-- No packet starts with a dash. -/
theorem FramedPacket.head_ne_dash (packet : FramedPacket) : packet.octets.head? ≠ some DASH := by
  obtain ⟨tag, body, framing, hlegal⟩ := packet
  cases framing with
  | newFormat form => exact fun h => newFormat_ne_dash tag (Option.some.inj h)
  | oldFormat form => exact fun h => oldFormat_ne_dash form tag (Option.some.inj h)
  | partialBody exponents final => exact fun h => newFormat_ne_dash tag (Option.some.inj h)

theorem PacketStream.head_ne_dash (stream : PacketStream) : stream.octets.head? ≠ some DASH := by
  obtain ⟨front, last⟩ := stream
  cases front with
  | nil =>
      cases last with
      | none => exact fun h => nomatch h
      | some packet => exact fun h => indeterminate_ne_dash packet.tag (Option.some.inj h)
  | cons packet front =>
      have hoctets : (PacketStream.mk (packet :: front) last).octets =
          packet.octets ++ (PacketStream.mk front last).octets := by
        simp [octets, streamOf]
      rw [hoctets, List.head?_append_of_ne_nil _ packet.octets_ne_nil]
      exact packet.head_ne_dash

theorem takeWhile_dash {label : Bytes} (hdash : DASH ∉ label) (rest : Bytes) :
    (label ++ DASH :: rest).takeWhile (· ≠ DASH) = label := by
  rw [List.takeWhile_append_of_pos, List.takeWhile_cons_of_neg, List.append_nil]
  · simp
  · intro c hmem
    exact decide_eq_true fun hc => hdash (hc ▸ hmem)

/-- Only the label of a clear-signed message is taken for one. -/
theorem not_signedMessage {label : Bytes} (hdash : DASH ∉ label)
    (hlabel : label ≠ ascii "PGP SIGNED MESSAGE") (data : Bytes) :
    ¬ signedMessageMarker <+: armorEncode label data := by
  rintro ⟨rest, hrest⟩
  have hmarker : signedMessageMarker =
      ascii "-----BEGIN " ++ (ascii "PGP SIGNED MESSAGE" ++ (DASH :: ascii "----")) := by
    decide
  have hbreak : ascii "-----\r\n" = DASH :: ascii "----\r\n" := by decide
  simp only [armorEncode, hmarker, hbreak, List.append_assoc, List.cons_append] at hrest
  have hsame := List.append_cancel_left hrest
  have htaken := congrArg (List.takeWhile (· ≠ DASH)) hsame
  rw [takeWhile_dash (by decide), takeWhile_dash hdash] at htaken
  exact hlabel htaken.symm

theorem Rendering.decode (h : Rendering octets input) (hdash : octets.head? ≠ some DASH) :
    decodeInspectionInputToBinary input = some octets ∨
      octets = [] ∧ decodeInspectionInputToBinary input = none := by
  cases h with
  | binary =>
      cases octets with
      | nil => exact Or.inr ⟨rfl, rfl⟩
      | cons first rest =>
          have hdashes : (first :: rest).take 5 ≠ ascii "-----" := fun htake =>
            hdash (congrArg some (List.cons.inj htake).1)
          left
          rw [decodeInspectionInputToBinary, if_neg (List.cons_ne_nil _ _), if_neg hdashes]
  | @armored label hlabelDash hlabel =>
      have hdecode := armorDecode_armorEncode hlabelDash octets []
      rw [List.append_nil] at hdecode
      have hne : armorEncode label octets ≠ [] := by
        simp [armorEncode]
      have hdashes : (armorEncode label octets).take 5 = ascii "-----" := by
        have hbegin : ascii "-----BEGIN " = ascii "-----" ++ ascii "BEGIN " := by decide
        simp only [armorEncode, hbegin, List.append_assoc]
        exact List.take_left' rfl
      have hmarker : signedMessageMarker.isPrefixOf (armorEncode label octets) = false := by
        rw [Bool.eq_false_iff, ne_eq, List.isPrefixOf_iff_prefix]
        exact not_signedMessage hlabelDash hlabel octets
      left
      rw [decodeInspectionInputToBinary, if_neg hne, if_pos hdashes, hmarker, hdecode]
      rfl

/-- Inspection of a stream whose packets are received whole. -/
theorem inspectMessageBuffer_stream {stream : PacketStream} (hwhole : stream.Whole)
    (hinput : Rendering stream.octets input) :
    inspectMessageBuffer P input = (inspectPackets P 3 stream.contents {}).map fun out =>
      if out.sawAnyPacket then some out else none := by
  have hreassembled := stream.reassembledOr_octets
  rw [inspectMessageBuffer]
  rcases hinput.decode stream.head_ne_dash with hbinary | ⟨hoctets, hnone⟩
  · rw [hbinary]
    cases hoctets : stream.octets with
    | nil =>
        rw [PacketStream.contents_eq_nil hoctets]
        rfl
    | cons first rest =>
        rw [hoctets] at hreassembled
        dsimp only
        rw [hreassembled]
        dsimp only
        rw [inspectPacketSequence_eq, PacketStream.blockPackets_spliced _ _ hwhole (at_zero _)]
  · rw [hnone, PacketStream.contents_eq_nil hoctets]
    rfl

/-- Inspection reports a message as it is wherever no packet of it, however deep, comes
in chunks of 2^32 octets or more. -/
theorem inspectMessageBuffer_tree {trees : List PacketTree} {stream : PacketStream}
    (htree : Serialises P PacketStream.Whole 3 trees stream)
    (hinput : Rendering stream.octets input) : ReportedAsIs P trees input := by
  have hreport := inspectPackets_areBodies 3 trees stream.contents {} htree.bodies
  rw [empty_join] at hreport
  rw [ReportedAsIs, inspectMessageBuffer_stream htree.admits hinput, hreport]
  cases trees <;> rfl

end Message

/-! ### A signature behind a literal packet -/

/-- An Ed25519 signature whose hashed area has a version-4 fingerprint, of zeros, and whose
other area has an issuer. -/
def plainSignature : SignatureLayout :=
  .v4 0 22 10 ⟨[⟨33, 4 :: List.replicate 20 0, .oneOctet, show _ < 192 by decide⟩], by decide⟩
    ⟨[⟨16, [1, 1, 1, 1, 2, 2, 2, 2], .fiveOctets, show _ < 2 ^ 32 by decide⟩], by decide⟩
    [18, 52, 0, 1, 1, 0, 1, 1]

def plainSignaturePacket : FramedPacket :=
  ⟨PGP_TAG_SIGNATURE, plainSignature.octets, .oldFormat .oneOctet, by decide, by decide⟩

/-- A literal packet and a signature, as a producer without one-pass signatures writes them. -/
def signedLiteral (literal : FramedPacket) : PacketStream :=
  ⟨[literal, plainSignaturePacket], none⟩

/-- They stand in a compressed packet of indeterminate length. -/
def compressedLetter (data : Bytes) : PacketStream :=
  ⟨[], some ⟨PGP_TAG_COMPRESSED_DATA, 1 :: data, compressedDataTag_lt⟩⟩

theorem compressedLetter_serialises {P : Primitives} {Admits : PacketStream → Prop}
    {literal : FramedPacket} {data : Bytes} (htag : literal.tag = PGP_TAG_LITERAL_DATA)
    (hdata : decompressBody P 1 data = some (signedLiteral literal).octets)
    (hinside : Admits (signedLiteral literal)) (houter : Admits (compressedLetter data)) :
    Serialises P Admits 3 [.compressed 1 [.literal literal.body, .signature plainSignature]]
      (compressedLetter data) := by
  refine ⟨houter, .cons (.compressed hdata hinside (.cons ?_ (.cons .signature .nil))) .nil⟩
  show IsBody P Admits 2 _ (literal.tag, literal.body)
  rw [htag]
  exact .literal

/-- A greeting in chunks of four and two octets, and the rest. -/
def chunkedGreeting : FramedPacket where
  tag := PGP_TAG_LITERAL_DATA
  body := literalBody (ascii "hi")
  framing := .partialBody [2, 1] .oneOctet
  legal := ⟨by decide, List.cons_ne_nil _ _, by decide, by decide, by decide, by decide,
    show _ < 192 by decide⟩

/-- The letter with the greeting is reported as it is, in armor. -/
theorem compressedLetter_reported :
    ReportedAsIs standIn [.compressed 1 [.literal chunkedGreeting.body, .signature plainSignature]]
      (armorEncode (ascii "PGP MESSAGE")
        (compressedLetter (signedLiteral chunkedGreeting).octets).octets) := by
  have hinside : (signedLiteral chunkedGreeting).Whole := by
    intro packet hmem
    rcases List.mem_cons.mp hmem with rfl | hmem
    · exact .of_short (by decide)
    · rw [List.mem_singleton.mp hmem]
      exact .of_short (by decide)
  exact inspectMessageBuffer_tree
    (compressedLetter_serialises rfl rfl hinside fun _ hmem => absurd hmem List.not_mem_nil)
    (.armored (by decide) (by decide))

/-- A compressor that has one octet for this content. -/
def inflatesTo (content : Bytes) : Primitives where
  __ := standIn
  inflate data := if data = [7] then some content else standIn.inflate data

theorem inflatesTo_one (content : Bytes) :
    decompressBody (inflatesTo content) 1 [7] = some content := by
  simp [decompressBody, inflatesTo]

/-- Of a packet whose length is written as zero a reader gets the empty body, and nothing
behind it where the body starts with no packet. -/
theorem blockPackets_emptied {packet : FramedPacket} {lost : Bytes}
    (hreceived : packet.received = []) (hlost : packet.lost = 0 :: lost) (behind : Bytes) :
    blockPackets (packet.spliced ++ behind) 0 = [(packet.tag, [])] := by
  obtain ⟨bodyPos, hread, hat, -⟩ := packet.readPacketHeader_spliced (at_zero _)
  have hbody := readOctets_of_at hat
  rw [hreceived, hlost, List.nil_append, List.cons_append] at hat
  rw [blockPackets_cons (hread none false) hbody, hreceived]
  show _ :: blockPackets _ (bodyPos + 0) = _
  rw [Nat.add_zero, blockPackets_stop (readPacketHeader_notHeader hat.head (by decide) _ _)]

theorem hugePacket_emptied :
    hugePacket.received = [] ∧ ∃ lost, hugePacket.lost = 0 :: lost := by
  have hpartial : hugePacket.IsPartial := trivial
  have hlength : hugePacket.body.length = 2 ^ 32 := List.length_replicate
  have hfirst : hugePacket.body.head? = some 0 := by
    rw [hugePacket, List.head?_replicate, if_neg (by norm_num)]
  rw [FramedPacket.received, FramedPacket.lost, if_pos hpartial, if_pos hpartial, hlength,
    Nat.mod_self, List.take_zero, List.drop_zero]
  exact ⟨rfl, List.head?_eq_some_iff.mp hfirst⟩

/-- Where a reader of the stream inside comes to no signature, none is reported. -/
theorem compressedLetter_unreported {P : Primitives} {literal : FramedPacket} {data : Bytes}
    (hdata : decompressBody P 1 data = some (signedLiteral literal).octets)
    (hlost : blockPackets (literal.spliced ++ plainSignaturePacket.spliced) 0 =
      [(PGP_TAG_LITERAL_DATA, [])]) :
    ¬ ReportedAsIs P [.compressed 1 [.literal literal.body, .signature plainSignature]]
      (compressedLetter data).octets := by
  have houter : (compressedLetter data).Whole := fun _ hmem => absurd hmem List.not_mem_nil
  have hcontents : (compressedLetter data).contents = [(PGP_TAG_COMPRESSED_DATA, 1 :: data)] := rfl
  have hspliced : (signedLiteral literal).spliced =
      literal.spliced ++ plainSignaturePacket.spliced := by
    simp [signedLiteral, PacketStream.spliced]
  have hpacket := @inspectPacket_compressed P 2 _ _ _ hdata {}
  rw [hspliced, hlost] at hpacket
  intro hreported
  rw [ReportedAsIs, inspectMessageBuffer_stream houter .binary, hcontents, inspectPackets,
    hpacket] at hreported
  have hsignatures := congrArg (fun report => (report.toOption.bind id).map
    PgpInspectedMessage.signatures) hreported
  cases hsignatures

/-- Behind a literal packet of 2^32 zero octets in chunks the signature is not found: the
packet is spliced with the length zero, and its octets are read for packets. -/
theorem hugeLetter_unreported :
    Serialises (inflatesTo (signedLiteral hugePacket).octets) (fun _ => True) 3
        [.compressed 1 [.literal hugePacket.body, .signature plainSignature]]
        (compressedLetter [7]) ∧
      ¬ ReportedAsIs (inflatesTo (signedLiteral hugePacket).octets)
        [.compressed 1 [.literal hugePacket.body, .signature plainSignature]]
        (compressedLetter [7]).octets := by
  have hinflate := inflatesTo_one (signedLiteral hugePacket).octets
  obtain ⟨hreceived, lost, hlost⟩ := hugePacket_emptied
  exact ⟨compressedLetter_serialises rfl hinflate trivial trivial,
    compressedLetter_unreported hinflate (blockPackets_emptied hreceived hlost _)⟩

end HashCryptoLib.Pgp
