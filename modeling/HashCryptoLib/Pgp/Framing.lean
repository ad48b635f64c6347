import HashCryptoLib.Pgp.Packet

/-!
The legal framings of a packet, and what the partial-body-length splice makes of
them. A packet may carry a definite length in the new format (one, two or five
octets) or in the old one (one, two or four octets), or it may be cut into
power-of-two chunks with a definite chunk at the end. The splice rewrites the
last kind only, and the packet walk then reads the packets that were framed.
-/

namespace HashCryptoLib.Pgp

open BigEndian Cursor

/-! ### The framings -/

/-- The definite lengths of the new format. A length may be written in a longer
form than it needs. -/
inductive NewLength
  | oneOctet
  | twoOctets
  | fiveOctets
  deriving DecidableEq, Repr

/-- The lengths a form can hold. -/
def NewLength.Fits : NewLength → ℕ → Prop
  | .oneOctet, length => length < 192
  | .twoOctets, length => 192 ≤ length ∧ length < 8384
  | .fiveOctets, length => length < 2 ^ 32

def NewLength.octets : NewLength → ℕ → Bytes
  | .oneOctet, length => [UInt8.ofNat length]
  | .twoOctets, length =>
    [UInt8.ofNat ((length - 192) / 256 + 192), UInt8.ofNat ((length - 192) % 256)]
  | .fiveOctets, length => 0xFF :: toOctets 4 length

/-- The definite lengths of the old format, by their length type. -/
inductive OldLength
  | oneOctet
  | twoOctets
  | fourOctets
  deriving DecidableEq, Repr

def OldLength.size : OldLength → ℕ
  | .oneOctet => 1
  | .twoOctets => 2
  | .fourOctets => 4

def OldLength.lengthType : OldLength → UInt8
  | .oneOctet => 0
  | .twoOctets => 1
  | .fourOctets => 2

/-- The first octet of an old-format header. -/
def OldLength.firstOctet (form : OldLength) (tag : UInt8) : UInt8 :=
  (0x80 : UInt8) ||| (tag <<< (2 : UInt8)) ||| form.lengthType

inductive Framing
  | newFormat (form : NewLength)
  | oldFormat (form : OldLength)
  /-- Chunks of 2 to the given exponents, then a final one. -/
  | partialBody (exponents : List ℕ) (final : NewLength)
  deriving DecidableEq, Repr

/-- The octets of the chunks of a body from some chunk on, each behind its
length. -/
def chunkOctets : List ℕ → NewLength → Bytes → Bytes
  | [], final, body => final.octets body.length ++ body
  | exponent :: exponents, final, body =>
    UInt8.ofNat (224 + exponent) ::
      (body.take (2 ^ exponent) ++ chunkOctets exponents final (body.drop (2 ^ exponent)))

/-- The chunks take what they announce from the body, and what is left for the
final one fits its form. -/
def LegalChunks : List ℕ → NewLength → Bytes → Prop
  | [], final, body => final.Fits body.length
  | exponent :: exponents, final, body =>
    exponent ≤ 30 ∧ 2 ^ exponent ≤ body.length ∧
      LegalChunks exponents final (body.drop (2 ^ exponent))

/-- Which packets a framing can carry: an old-format header has room for a
four-bit tag, a new-format one for six bits. -/
def Framing.Legal (framing : Framing) (tag : UInt8) (body : Bytes) : Prop :=
  match framing with
  | .newFormat form => tag < 64 ∧ form.Fits body.length
  | .oldFormat form => tag < 16 ∧ body.length < 256 ^ form.size
  | .partialBody exponents final =>
    tag < 64 ∧ exponents ≠ [] ∧ LegalChunks exponents final body

/-- A packet together with a legal framing of it. -/
structure FramedPacket where
  tag : UInt8
  body : Bytes
  framing : Framing
  legal : framing.Legal tag body

namespace FramedPacket

def octets (packet : FramedPacket) : Bytes :=
  match packet.framing with
  | .newFormat form =>
    (0xC0 ||| packet.tag) :: (form.octets packet.body.length ++ packet.body)
  | .oldFormat form =>
    form.firstOctet packet.tag :: (toOctets form.size packet.body.length ++ packet.body)
  | .partialBody exponents final =>
    (0xC0 ||| packet.tag) :: chunkOctets exponents final packet.body

def IsPartial (packet : FramedPacket) : Prop :=
  match packet.framing with
  | .partialBody _ _ => True
  | _ => False

instance (packet : FramedPacket) : Decidable packet.IsPartial :=
  match h : packet.framing with
  | .newFormat _ => isFalse (by simp [IsPartial, h])
  | .oldFormat _ => isFalse (by simp [IsPartial, h])
  | .partialBody _ _ => isTrue (by simp [IsPartial, h])

/-- What a packet is rewritten to: a partial body as one definite packet, and
anything else as it stands. -/
def spliced (packet : FramedPacket) : Bytes :=
  if packet.IsPartial then writePacket packet.tag packet.body else packet.octets

end FramedPacket

/-- A packet stream: the packets one behind another. -/
def streamOf (packets : List FramedPacket) : Bytes := (packets.map FramedPacket.octets).flatten

/-- The packet walk, as every reader of a packet sequence makes it: header,
body, next position. `none` is a header or body that is not all there. -/
def walkPackets (data : Bytes) (pos : ℕ) : Option (List (UInt8 × Bytes)) :=
  if pos < data.length then
    match _hhead : readPacketHeader data pos none false with
    | none => none
    | some header =>
      match readOctets data header.bodyPos header.bodyLength with
      | none => none
      | some body =>
        (walkPackets data (header.bodyPos + header.bodyLength)).map ((header.tag, body) :: ·)
  else some []
termination_by data.length - pos
decreasing_by
  have := bodyPos_gt _hhead
  omega

/-! ### Reading a framed header -/

/-- A definite length is decoded whatever follows it. -/
theorem decodeNewFormatBodyLength_octets {form : NewLength} {length : ℕ}
    (hfits : form.Fits length) (rest : Bytes) :
    decodeNewFormatBodyLength (form.octets length ++ rest) =
      some ((form.octets length).length, length, false) := by
  cases form with
  | oneOctet =>
      have hnat := toNat_shortLength hfits
      have hlt : UInt8.ofNat length < 192 := by
        rw [UInt8.lt_iff_toNat_lt, hnat]
        exact hfits
      simp [NewLength.octets, decodeNewFormatBodyLength, hlt, hnat]
  | twoOctets =>
      obtain ⟨hge, hlt, hvalue⟩ := mediumLength hfits.1 hfits.2
      have h192 : ¬ UInt8.ofNat ((length - 192) / 256 + 192) < 192 := by
        rw [UInt8.lt_iff_toNat_lt]
        exact not_lt.mpr hge
      have h224 : UInt8.ofNat ((length - 192) / 256 + 192) < 224 := by
        rw [UInt8.lt_iff_toNat_lt]
        exact hlt
      simp only [NewLength.octets, List.cons_append, List.nil_append, decodeNewFormatBodyLength,
        h192, h224, if_true, if_false, List.head?_cons, Option.map_some, hvalue,
        List.length_cons, List.length_nil]
  | fiveOctets =>
      have hread := readOctets_of_at (at_zero (toOctets 4 length ++ rest))
      rw [length_toOctets] at hread
      simp only [NewLength.octets, List.cons_append, decodeNewFormatBodyLength]
      rw [if_neg (by decide), if_neg (by decide), if_neg (by decide), hread, Option.map_some,
        ofOctets_toOctets_of_lt (show length < 256 ^ 4 from hfits)]
      simp

/-- The octet of a partial length, as the decoders test it. -/
theorem partial_octet {exponent : ℕ} (h : exponent ≤ 30) :
    ¬ UInt8.ofNat (224 + exponent) < 192 ∧ ¬ UInt8.ofNat (224 + exponent) < 224 ∧
      UInt8.ofNat (224 + exponent) < 255 ∧
      (UInt8.ofNat (224 + exponent) &&& 0x1F).toNat = exponent := by
  have hall : ∀ exponent : Fin 31, ¬ UInt8.ofNat (224 + exponent) < 192 ∧
      ¬ UInt8.ofNat (224 + exponent) < 224 ∧ UInt8.ofNat (224 + exponent) < 255 ∧
      (UInt8.ofNat (224 + exponent) &&& 0x1F).toNat = exponent := by
    decide
  exact hall ⟨exponent, by omega⟩

theorem decodeNewFormatBodyLength_partialChunk {exponent : ℕ} (h : exponent ≤ 30) (rest : Bytes) :
    decodeNewFormatBodyLength (UInt8.ofNat (224 + exponent) :: rest) =
      some (1, 2 ^ exponent, true) := by
  obtain ⟨h192, h224, h255, hvalue⟩ := partial_octet h
  simp only [decodeNewFormatBodyLength, h192, h224, h255, if_true, if_false, hvalue]

/-- A caller that accepts partial lengths gets the first chunk. -/
theorem readPacketHeader_partialChunk {data rest : Bytes} {pos exponent : ℕ} {tag : UInt8}
    (htag : tag < 64) (hexponent : exponent ≤ 30)
    (h : At data pos ((0xC0 ||| tag) :: UInt8.ofNat (224 + exponent) :: rest))
    (dataEnd : Option ℕ) :
    readPacketHeader data pos dataEnd true = some ⟨tag, 2 ^ exponent, pos + 2, true⟩ := by
  obtain ⟨h80, h40, h3f⟩ := newFormat_octet tag htag
  obtain ⟨h192, h224, h255, hvalue⟩ := partial_octet hexponent
  simp only [readPacketHeader, h.head, h.next.head, h80, h40, h3f, h192, h224, h255, hvalue,
    ne_eq, not_false_eq_true, if_true, if_false]

/-- The octet of an old-format header, as the reader takes it apart. -/
theorem oldFormat_octet (form : OldLength) : ∀ tag : UInt8, tag < 16 →
    form.firstOctet tag &&& 0x80 ≠ 0 ∧ form.firstOctet tag &&& 0x40 = 0 ∧
      (form.firstOctet tag >>> 2) &&& 0x0F = tag ∧
      form.firstOctet tag &&& 0x03 = form.lengthType := by
  cases form <;> decide +kernel

theorem readPacketHeader_oldFormat {data rest : Bytes} {pos length : ℕ} {tag : UInt8}
    {form : OldLength} (htag : tag < 16) (hfits : length < 256 ^ form.size)
    (h : At data pos (form.firstOctet tag :: (toOctets form.size length ++ rest)))
    (dataEnd : Option ℕ) (acceptPartial : Bool) :
    readPacketHeader data pos dataEnd acceptPartial =
      some ⟨tag, length, pos + 1 + form.size, false⟩ := by
  obtain ⟨h80, h40, htag', htype⟩ := oldFormat_octet form tag htag
  have hread := readOctets_of_at h.next
  rw [length_toOctets] at hread
  have hvalue := ofOctets_toOctets_of_lt hfits
  simp only [readPacketHeader, h.head, h80, h40, htag', htype, ne_eq, not_true_eq_false, if_false]
  cases form with
  | oneOctet =>
      simp only [OldLength.size] at hread hvalue
      simp [OldLength.lengthType, OldLength.size, hread, hvalue]
  | twoOctets =>
      simp only [OldLength.size] at hread hvalue
      simp [OldLength.lengthType, OldLength.size, hread, hvalue]
  | fourOctets =>
      simp only [OldLength.size] at hread hvalue
      simp [OldLength.lengthType, OldLength.size, hread, hvalue]

namespace FramedPacket

/-- A packet with a definite length is read as its tag, its length and the
position of its body, whatever follows it and whoever asks. -/
theorem readPacketHeader_octets {packet : FramedPacket} {data rest : Bytes} {pos : ℕ}
    (hwhole : ¬ packet.IsPartial) (h : At data pos (packet.octets ++ rest)) :
    ∃ bodyPos, (∀ dataEnd acceptPartial, readPacketHeader data pos dataEnd acceptPartial =
        some ⟨packet.tag, packet.body.length, bodyPos, false⟩) ∧
      At data bodyPos (packet.body ++ rest) ∧
      bodyPos + packet.body.length = pos + packet.octets.length := by
  obtain ⟨tag, body, framing, hlegal⟩ := packet
  cases framing with
  | newFormat form =>
      simp only [octets, List.cons_append, List.append_assoc] at h
      have hlen := decodeNewFormatBodyLength_octets hlegal.2 (body ++ rest)
      refine ⟨pos + 1 + (form.octets body.length).length,
        readPacketHeader_newFormat hlegal.1 h hlen, h.next.advance, ?_⟩
      simp only [octets, List.length_cons, List.length_append]
      omega
  | oldFormat form =>
      simp only [octets, List.cons_append, List.append_assoc] at h
      have hat := h.next.advance
      rw [length_toOctets] at hat
      refine ⟨_, readPacketHeader_oldFormat hlegal.1 hlegal.2 h, hat, ?_⟩
      simp only [octets, List.length_cons, List.length_append, length_toOctets]
      omega
  | partialBody exponents final => exact absurd trivial hwhole

theorem octets_ne_nil (packet : FramedPacket) : packet.octets ≠ [] := by
  obtain ⟨tag, body, framing, hlegal⟩ := packet
  cases framing <;> simp [octets]

end FramedPacket

/-! ### Splicing the chunks -/

theorem copyRange_of_at {data xs rest : Bytes} {pos : ℕ} (h : At data pos (xs ++ rest)) :
    copyRange data pos (pos + xs.length) = .ok xs := by
  rw [copyRange, if_pos ⟨by omega, h.le⟩, Nat.add_sub_cancel_left, h.take_eq]

theorem sizeSub_of_le {a b : ℕ} (h : b ≤ a) : sizeSub a b = a - b := if_pos h

/-- The final chunk ends the body. -/
theorem spliceChunks_last {data chunk rest : Bytes} {endPos pos : ℕ}
    (h : At data pos (chunk ++ rest)) (hend : pos + chunk.length ≤ endPos) (body : Bytes) :
    spliceChunks data endPos pos chunk.length false body =
      .ok (some (body ++ chunk, pos + chunk.length)) := by
  have hfits : ¬ chunk.length > sizeSub endPos pos := by
    rw [sizeSub_of_le (by omega)]
    omega
  rw [spliceChunks, if_neg hfits, copyRange_of_at h]
  simp

/-- Any other chunk is appended and the length behind it decoded. -/
theorem spliceChunks_next {data chunk rest : Bytes} {pos nextLength : ℕ} {nextPartial : Bool}
    (endPos : ℕ) (header : Bytes) (h : At data pos (chunk ++ (header ++ rest)))
    (hend : pos + chunk.length + header.length ≤ endPos) (hheader : header ≠ [])
    (hdec : ∀ rest, decodeNewFormatBodyLength (header ++ rest) =
      some (header.length, nextLength, nextPartial)) (body : Bytes) :
    spliceChunks data endPos pos chunk.length true body =
      spliceChunks data endPos (pos + chunk.length + header.length) nextLength nextPartial
        (body ++ chunk) := by
  have hfits : ¬ chunk.length > sizeSub endPos pos := by
    rw [sizeSub_of_le (by omega)]
    omega
  have hpos : 0 < header.length := List.length_pos_iff.mpr hheader
  -- the decoder sees the octets up to the end of the range, the header among them
  have hview : (data.drop (pos + chunk.length)).take (endPos - (pos + chunk.length)) =
      header ++ rest.take (endPos - (pos + chunk.length) - header.length) := by
    rw [h.advance.drop_eq, List.take_append, List.take_of_length_le (by omega)]
  rw [spliceChunks, if_neg hfits, copyRange_of_at h]
  simp only [Bool.true_eq_false, if_false]
  rw [dif_neg (by omega)]
  split
  · rename_i hnone
    rw [hview, hdec] at hnone
    cases hnone
  · rename_i hsome
    rw [hview, hdec] at hsome
    cases hsome
    rfl

theorem NewLength.octets_ne_nil (form : NewLength) (length : ℕ) : form.octets length ≠ [] := by
  cases form <;> simp [NewLength.octets]

/-- The chunks of a body are put together whatever their number and sizes. -/
theorem spliceChunks_chunkOctets {data rest : Bytes} (endPos : ℕ) {final : NewLength}
    {exponents : List ℕ} :
    ∀ {exponent pos : ℕ} {content : Bytes} (body : Bytes),
      LegalChunks (exponent :: exponents) final content →
      At data pos (content.take (2 ^ exponent) ++
        (chunkOctets exponents final (content.drop (2 ^ exponent)) ++ rest)) →
      pos + 2 ^ exponent + (chunkOctets exponents final (content.drop (2 ^ exponent))).length ≤
        endPos →
      spliceChunks data endPos pos (2 ^ exponent) true body =
        .ok (some (body ++ content, pos + 2 ^ exponent +
          (chunkOctets exponents final (content.drop (2 ^ exponent))).length)) := by
  induction exponents with
  | nil =>
      intro exponent pos content body hlegal h hend
      obtain ⟨-, hle, hfits⟩ := hlegal
      have hlen : (content.take (2 ^ exponent)).length = 2 ^ exponent :=
        List.length_take_of_le hle
      simp only [chunkOctets, List.append_assoc, List.length_append] at h hend ⊢
      have hnext := spliceChunks_next endPos _ h (by omega) (final.octets_ne_nil _)
        (decodeNewFormatBodyLength_octets hfits) body
      have hat := h.advance.advance
      rw [hlen] at hnext hat
      rw [hnext, spliceChunks_last hat (by omega), List.append_assoc, List.take_append_drop]
      simp only [Nat.add_assoc]
  | cons next exponents ih =>
      intro exponent pos content body hlegal h hend
      obtain ⟨-, hle, hrest⟩ := hlegal
      have hlen : (content.take (2 ^ exponent)).length = 2 ^ exponent :=
        List.length_take_of_le hle
      have htake : ((content.drop (2 ^ exponent)).take (2 ^ next)).length = 2 ^ next :=
        List.length_take_of_le hrest.2.1
      simp only [chunkOctets, List.length_cons, List.length_append, htake] at h hend ⊢
      have hnext := spliceChunks_next endPos [UInt8.ofNat (224 + next)] h
        (by simp only [List.length_singleton]; omega) (List.cons_ne_nil _ _)
        (decodeNewFormatBodyLength_partialChunk hrest.1) body
      have hat := h.advance.next
      rw [List.append_eq, List.append_assoc] at hat
      rw [hlen] at hnext hat
      rw [hnext, List.length_singleton, ih _ hrest hat (by omega), List.append_assoc,
        List.take_append_drop]
      congr 3
      omega

/-! ### Splicing the packets -/

/-- One round of the loop at octets that are no header. -/
theorem reassembleLoop_notHeader {data : Bytes} {endPos pos : ℕ} (hpos : pos < endPos)
    (hread : readPacketHeader data pos (some endPos) true = none) (out : Bytes)
    (rewroteAny : Bool) :
    reassembleLoop data endPos pos out rewroteAny =
      (copyRange data pos endPos).map fun tail =>
        if rewroteAny then some (out ++ tail) else none := by
  rw [reassembleLoop, dif_pos hpos]
  split
  · rfl
  · rename_i hsome
    rw [hread] at hsome
    cases hsome

/-- One round at a packet of definite length. -/
theorem reassembleLoop_whole {data packet : Bytes} {endPos pos bodyLength bodyPos : ℕ} {tag : UInt8}
    (bodyEnd : ℕ) (hpos : pos < endPos)
    (hread : readPacketHeader data pos (some endPos) true = some ⟨tag, bodyLength, bodyPos, false⟩)
    (hend : (if bodyLength > sizeSub endPos bodyPos then endPos else bodyPos + bodyLength) = bodyEnd)
    (hcopy : copyRange data pos bodyEnd = .ok packet) (out : Bytes) (rewroteAny : Bool) :
    reassembleLoop data endPos pos out rewroteAny =
      reassembleLoop data endPos bodyEnd (out ++ packet) rewroteAny := by
  rw [reassembleLoop, dif_pos hpos]
  split
  · rename_i hnone
    rw [hread] at hnone
    cases hnone
  · rename_i hsome
    rw [hread] at hsome
    cases hsome
    simp only [if_true, hend, hcopy]

/-- One round at a packet whose chunks are put together. -/
theorem reassembleLoop_spliced {data body : Bytes} {endPos pos bodyLength bodyPos next : ℕ}
    {tag : UInt8} (hpos : pos < endPos)
    (hread : readPacketHeader data pos (some endPos) true = some ⟨tag, bodyLength, bodyPos, true⟩)
    (hsplice : spliceChunks data endPos bodyPos bodyLength true [] = .ok (some (body, next)))
    (out : Bytes) (rewroteAny : Bool) :
    reassembleLoop data endPos pos out rewroteAny =
      reassembleLoop data endPos next (out ++ writePacket tag body) true := by
  rw [reassembleLoop, dif_pos hpos]
  split
  · rename_i hnone
    rw [hread] at hnone
    cases hnone
  · rename_i hsome
    rw [hread] at hsome
    cases hsome
    simp only [Bool.true_eq_false, if_false]
    split
    · rename_i herror
      rw [hsplice] at herror
      cases herror
    · rename_i hnone
      rw [hsplice] at hnone
      cases hnone
    · rename_i hspliced
      rw [hsplice] at hspliced
      cases hspliced
      rfl

/-- One round at a packet whose chunks cannot be put together. -/
theorem reassembleLoop_unspliced {data : Bytes} {endPos pos bodyLength bodyPos : ℕ}
    {tag : UInt8} (hpos : pos < endPos)
    (hread : readPacketHeader data pos (some endPos) true = some ⟨tag, bodyLength, bodyPos, true⟩)
    (hsplice : spliceChunks data endPos bodyPos bodyLength true [] = .ok none)
    (out : Bytes) (rewroteAny : Bool) :
    reassembleLoop data endPos pos out rewroteAny = .ok none := by
  rw [reassembleLoop, dif_pos hpos]
  split
  · rename_i hnone
    rw [hread] at hnone
    cases hnone
  · rename_i hsome
    rw [hread] at hsome
    cases hsome
    simp only [Bool.true_eq_false, if_false]
    split
    · rename_i herror
      rw [hsplice] at herror
      cases herror
    · rfl
    · rename_i hspliced
      rw [hsplice] at hspliced
      cases hspliced

/-- A packet with a definite length is copied as it stands. -/
theorem reassembleLoop_definite {packet : FramedPacket} {data rest : Bytes} {endPos pos : ℕ}
    (hwhole : ¬ packet.IsPartial) (h : At data pos (packet.octets ++ rest))
    (hend : pos + packet.octets.length ≤ endPos) (out : Bytes) (rewroteAny : Bool) :
    reassembleLoop data endPos pos out rewroteAny =
      reassembleLoop data endPos (pos + packet.octets.length) (out ++ packet.octets)
        rewroteAny := by
  obtain ⟨bodyPos, hread, hat, hbody⟩ := packet.readPacketHeader_octets hwhole h
  have hfits : ¬ packet.body.length > sizeSub endPos bodyPos := by
    rw [sizeSub_of_le (by omega)]
    omega
  have hlt : 0 < packet.octets.length := List.length_pos_iff.mpr packet.octets_ne_nil
  exact reassembleLoop_whole _ (by omega) (hread _ _) (by rw [if_neg hfits, hbody])
    (copyRange_of_at h) out rewroteAny

/-- A packet with partial lengths becomes one definite packet. -/
theorem reassembleLoop_partialChunk {packet : FramedPacket} {data rest : Bytes} {endPos pos : ℕ}
    (hchunked : packet.IsPartial) (h : At data pos (packet.octets ++ rest))
    (hend : pos + packet.octets.length ≤ endPos) (out : Bytes) (rewroteAny : Bool) :
    reassembleLoop data endPos pos out rewroteAny =
      reassembleLoop data endPos (pos + packet.octets.length)
        (out ++ writePacket packet.tag packet.body) true := by
  obtain ⟨tag, body, framing, hlegal⟩ := packet
  cases framing with
  | newFormat form => exact absurd hchunked id
  | oldFormat form => exact absurd hchunked id
  | partialBody exponents final =>
      obtain ⟨htag, hne, hchunks⟩ := hlegal
      cases exponents with
      | nil => exact absurd rfl hne
      | cons exponent exponents =>
          have hlen : (body.take (2 ^ exponent)).length = 2 ^ exponent :=
            List.length_take_of_le hchunks.2.1
          simp only [FramedPacket.octets, chunkOctets, List.cons_append, List.append_assoc,
            List.length_cons, List.length_append, hlen] at h hend ⊢
          have hread := readPacketHeader_partialChunk htag hchunks.1 h (some endPos)
          have hsplice := spliceChunks_chunkOctets endPos [] hchunks h.next.next
            (by omega)
          rw [reassembleLoop_spliced (by omega) hread hsplice, List.nil_append]
          congr 1
          omega

/-- The splice over a stream of packets: it rewrites the partial ones, remembers
whether there was one, and goes on behind the stream. -/
theorem reassembleLoop_streamOf {data rest : Bytes} (endPos : ℕ) (packets : List FramedPacket) :
    ∀ {pos : ℕ} (out : Bytes) (rewroteAny : Bool), At data pos (streamOf packets ++ rest) →
      pos + (streamOf packets).length ≤ endPos →
      reassembleLoop data endPos pos out rewroteAny =
        reassembleLoop data endPos (pos + (streamOf packets).length)
          (out ++ (packets.map FramedPacket.spliced).flatten)
          (rewroteAny || decide (∃ packet ∈ packets, packet.IsPartial)) := by
  induction packets with
  | nil =>
      intro pos out rewroteAny h hend
      simp [streamOf]
  | cons packet packets ih =>
      intro pos out rewroteAny h hend
      have hstream : streamOf (packet :: packets) = packet.octets ++ streamOf packets := by
        simp [streamOf]
      rw [hstream, List.append_assoc] at h
      rw [hstream, List.length_append] at hend
      by_cases hchunked : packet.IsPartial
      · rw [reassembleLoop_partialChunk hchunked h (by omega), ih _ _ h.advance (by omega), hstream]
        simp [FramedPacket.spliced, hchunked, Nat.add_assoc]
      · rw [reassembleLoop_definite hchunked h (by omega), ih _ _ h.advance (by omega), hstream]
        simp [FramedPacket.spliced, hchunked, Nat.add_assoc]

/-- A stream without partial packets is what the splice would make of it. -/
theorem flatten_spliced {packets : List FramedPacket}
    (hwhole : ∀ packet ∈ packets, ¬ packet.IsPartial) :
    (packets.map FramedPacket.spliced).flatten = streamOf packets := by
  rw [streamOf]
  apply congrArg List.flatten
  apply List.map_congr_left
  intro packet hmem
  exact if_neg (hwhole packet hmem)

/-! ### What the readers accept

A header that is read at all is one of the framings, so that the octets in front
of it are a stream of packets. -/

/-- A definite length that is decoded stands there in one of the forms. -/
theorem octets_of_decode {header : Bytes} {headerSize length : ℕ}
    (h : decodeNewFormatBodyLength header = some (headerSize, length, false)) :
    ∃ form : NewLength, form.Fits length ∧ headerSize = (form.octets length).length ∧
      header = form.octets length ++ header.drop headerSize := by
  cases header with
  | nil => simp [decodeNewFormatBodyLength] at h
  | cons first rest =>
      have hfirst := first.toNat_lt
      simp only [decodeNewFormatBodyLength, UInt8.lt_iff_toNat_lt, UInt8.reduceToNat] at h
      split_ifs at h with h192 h224 h255
      · simp only [Option.some.injEq, Prod.mk.injEq, and_true] at h
        obtain ⟨rfl, rfl⟩ := h
        exact ⟨.oneOctet, h192, rfl, by simp [NewLength.octets]⟩
      · cases rest with
        | nil => simp at h
        | cons second rest =>
            have hsecond := second.toNat_lt
            simp only [List.head?_cons, Option.map_some, Option.some.injEq, Prod.mk.injEq,
              and_true] at h
            obtain ⟨rfl, rfl⟩ := h
            refine ⟨.twoOctets, ⟨by omega, by omega⟩, rfl, ?_⟩
            have hhigh : UInt8.ofNat (((first.toNat - 192) * 256 + second.toNat + 192 - 192) / 256 +
                192) = first := by
              apply UInt8.toNat_inj.mp
              rw [UInt8.toNat_ofNat']
              omega
            have hlow : UInt8.ofNat (((first.toNat - 192) * 256 + second.toNat + 192 - 192) %
                256) = second := by
              apply UInt8.toNat_inj.mp
              rw [UInt8.toNat_ofNat']
              omega
            simp only [NewLength.octets, hhigh, hlow, List.drop_succ_cons, List.drop_zero,
              List.cons_append, List.nil_append]
      · simp at h
      · simp only [Option.map_eq_some_iff, Prod.mk.injEq, and_true] at h
        obtain ⟨octets, hread, rfl, rfl⟩ := h
        rw [readOctets, List.drop_zero] at hread
        split_ifs at hread with hlong
        have hoctets := Option.some.inj hread
        have hlen : octets.length = 4 := by
          rw [← hoctets, List.length_take]
          omega
        have hbound := ofOctets_lt octets
        have hback := toOctets_ofOctets octets
        rw [hlen] at hbound hback
        have hff : first = 0xFF := by
          apply UInt8.toNat_inj.mp
          show first.toNat = 255
          omega
        refine ⟨.fiveOctets, hbound, by simp [NewLength.octets], ?_⟩
        simp only [NewLength.octets, hback, hff, List.drop_succ_cons, List.cons_append]
        rw [← hoctets, List.take_append_drop]

theorem partial_octet_of_decode : ∀ first : UInt8, ¬ first < 224 → first < 255 →
    (first &&& 0x1F).toNat ≤ 30 ∧ UInt8.ofNat (224 + (first &&& 0x1F).toNat) = first := by
  decide +kernel

theorem partial_of_decode {header : Bytes} {headerSize length : ℕ}
    (h : decodeNewFormatBodyLength header = some (headerSize, length, true)) :
    ∃ exponent ≤ 30, length = 2 ^ exponent ∧ headerSize = 1 ∧
      header = UInt8.ofNat (224 + exponent) :: header.drop 1 := by
  cases header with
  | nil => simp [decodeNewFormatBodyLength] at h
  | cons first rest =>
      simp only [decodeNewFormatBodyLength] at h
      split_ifs at h with h192 h224 h255
      · simp at h
      · simp at h
      · obtain ⟨hle, hback⟩ := partial_octet_of_decode first h224 h255
        simp only [Option.some.injEq, Prod.mk.injEq, and_true] at h
        obtain ⟨rfl, rfl⟩ := h
        exact ⟨_, hle, rfl, rfl, by rw [hback]; rfl⟩
      · simp at h

/-- What is decoded does not depend on what follows. -/
theorem decodeNewFormatBodyLength_mono {header : Bytes} {headerSize length : ℕ} {more : Bool}
    (h : decodeNewFormatBodyLength header = some (headerSize, length, more)) (rest : Bytes) :
    decodeNewFormatBodyLength (header ++ rest) = some (headerSize, length, more) ∧
      headerSize ≤ header.length := by
  cases more with
  | false =>
      obtain ⟨form, hfits, hsize, hheader⟩ := octets_of_decode h
      have hlen := congrArg List.length hheader
      rw [List.length_append] at hlen
      rw [hheader, List.append_assoc, decodeNewFormatBodyLength_octets hfits, hsize]
      exact ⟨rfl, by simp⟩
  | true =>
      obtain ⟨exponent, hle, rfl, rfl, hheader⟩ := partial_of_decode h
      rw [hheader, List.cons_append, decodeNewFormatBodyLength_partialChunk hle]
      exact ⟨rfl, by simp⟩

/-- The first octet tells how long a length is. -/
theorem headerSize_eq {tail : Bytes} {first : UInt8} {headerSize length : ℕ} {more : Bool}
    (h : decodeNewFormatBodyLength (first :: tail) = some (headerSize, length, more)) :
    headerSize = newFormatBodyLengthHeaderSize first := by
  simp only [decodeNewFormatBodyLength] at h
  simp only [newFormatBodyLengthHeaderSize]
  split_ifs at h ⊢
  · simp_all
  · simp only [Option.map_eq_some_iff, Prod.mk.injEq] at h
    obtain ⟨second, -, rfl, -, -⟩ := h
    rfl
  · simp_all
  · simp only [Option.map_eq_some_iff, Prod.mk.injEq] at h
    obtain ⟨octets, -, rfl, -, -⟩ := h
    rfl

/-- A new-format header is its first octet and a length. -/
theorem readPacketHeader_new {data more : Bytes} {pos : ℕ} {first : UInt8}
    (h : At data pos (first :: more)) (h80 : first &&& 0x80 ≠ 0) (h40 : first &&& 0x40 ≠ 0)
    (dataEnd : Option ℕ) :
    readPacketHeader data pos dataEnd true = (decodeNewFormatBodyLength more).map fun length =>
      ⟨first &&& 0x3F, length.2.1, pos + 1 + length.1, length.2.2⟩ := by
  have hlenFirst := h.next.getElem?_eq 0
  have hsecond := h.next.getElem?_eq 1
  rw [Nat.add_zero] at hlenFirst
  simp only [readPacketHeader, h.head, h80, h40, hlenFirst, ne_eq, not_false_eq_true, if_true,
    if_false]
  cases more with
  | nil => simp [decodeNewFormatBodyLength]
  | cons lenFirst more =>
      have hlong : readOctets data (pos + 2) 4 = readOctets more 0 4 := by
        have hlength := h.length_eq
        have hdrop := h.next.next.drop_eq
        simp only [List.length_cons] at hlength
        simp only [readOctets, hdrop, hlength, List.drop_zero]
        congr 1
        exact propext (by omega)
      simp only [List.getElem?_cons_zero, List.getElem?_cons_succ] at hsecond ⊢
      simp only [decodeNewFormatBodyLength]
      split_ifs
      · rfl
      · rw [show pos + 2 = pos + 1 + 1 from rfl, hsecond, ← List.head?_eq_getElem?, Option.map_map]
        rfl
      · rfl
      · rw [hlong, Option.map_map]
        rfl

/-- An old-format header of definite length is its first octet and a number. -/
theorem readPacketHeader_old {data more : Bytes} {pos : ℕ} {first : UInt8} {form : OldLength}
    (h : At data pos (first :: more)) (h80 : first &&& 0x80 ≠ 0) (h40 : first &&& 0x40 = 0)
    (htype : first &&& 0x03 = form.lengthType) (dataEnd : Option ℕ) (acceptPartial : Bool) :
    readPacketHeader data pos dataEnd acceptPartial =
      (readOctets more 0 form.size).map fun octets =>
        ⟨(first >>> 2) &&& 0x0F, ofOctets octets, pos + 1 + form.size, false⟩ := by
  have hread : readOctets data (pos + 1) form.size = readOctets more 0 form.size := by
    have hlength := h.length_eq
    have hdrop := h.next.drop_eq
    simp only [List.length_cons] at hlength
    simp only [readOctets, hdrop, hlength, List.drop_zero]
    congr 1
    exact propext (by omega)
  simp only [readPacketHeader, h.head, h80, h40, htype, ne_eq, not_true_eq_false, if_false]
  rw [← hread]
  cases form <;> simp [OldLength.lengthType, OldLength.size]

/-- The body of an old-format packet of indeterminate length runs to the end. -/
theorem readPacketHeader_indeterminate {data more : Bytes} {pos endPos : ℕ} {first : UInt8}
    (h : At data pos (first :: more)) (h80 : first &&& 0x80 ≠ 0) (h40 : first &&& 0x40 = 0)
    (htype : first &&& 0x03 = 3) (hend : pos + 1 ≤ endPos) (acceptPartial : Bool) :
    readPacketHeader data pos (some endPos) acceptPartial =
      some ⟨(first >>> 2) &&& 0x0F, endPos - (pos + 1), pos + 1, false⟩ := by
  simp only [readPacketHeader, h.head, h80, h40, htype, ne_eq, not_true_eq_false, if_false,
    Option.getD_some]
  rw [if_neg (by decide), if_neg (by decide), if_neg (by decide), if_neg (by omega)]

theorem newFormat_of_octet : ∀ first : UInt8, first &&& 0x80 ≠ 0 → first &&& 0x40 ≠ 0 →
    first &&& 0x3F < 64 ∧ 0xC0 ||| (first &&& 0x3F) = first := by
  decide +kernel

theorem oldFormat_of_octet (form : OldLength) : ∀ first : UInt8, first &&& 0x80 ≠ 0 →
    first &&& 0x40 = 0 → first &&& 0x03 = form.lengthType →
    (first >>> 2) &&& 0x0F < 16 ∧ form.firstOctet ((first >>> 2) &&& 0x0F) = first := by
  cases form <;> decide +kernel

theorem lengthType_cases : ∀ first : UInt8,
    first &&& 0x03 = OldLength.oneOctet.lengthType ∨
      first &&& 0x03 = OldLength.twoOctets.lengthType ∨
      first &&& 0x03 = OldLength.fourOctets.lengthType ∨ first &&& 0x03 = 3 := by
  decide +kernel

/-! ### Walking the packets -/

theorem walkPackets_step {data body rest : Bytes} {pos bodyPos : ℕ} {tag : UInt8}
    (hlt : pos < data.length)
    (hread : readPacketHeader data pos none false = some ⟨tag, body.length, bodyPos, false⟩)
    (h : At data bodyPos (body ++ rest)) :
    walkPackets data pos =
      (walkPackets data (bodyPos + body.length)).map ((tag, body) :: ·) := by
  have hbody := readOctets_of_at h
  rw [walkPackets, if_pos hlt]
  split
  · rename_i hnone
    rw [hread] at hnone
    cases hnone
  · rename_i hsome
    rw [hread] at hsome
    cases hsome
    simp only [hbody]

/-- A length of 2^32 or more is written without its high bits. -/
theorem decodeNewFormatBodyLength_truncated {length : ℕ} (h : 2 ^ 32 ≤ length) (rest : Bytes) :
    decodeNewFormatBodyLength (appendNewFormatLength length ++ rest) =
      some (5, length % 2 ^ 32, false) := by
  have hread := readOctets_of_at (at_zero (toOctets 4 length ++ rest))
  rw [length_toOctets] at hread
  rw [appendNewFormatLength, if_neg (by omega), if_neg (by omega)]
  simp only [List.cons_append, decodeNewFormatBodyLength, appendBigEndian32]
  rw [if_neg (by decide), if_neg (by decide), if_neg (by decide), hread, Option.map_some,
    ofOctets_toOctets]
  norm_num

/-- Such a packet is not read back as it was written. -/
theorem walkPackets_truncated {data body rest : Bytes} {pos : ℕ} {tag : UInt8} (htag : tag < 64)
    (hlong : 2 ^ 32 ≤ body.length) (h : At data pos (writePacket tag body ++ rest))
    (packets : List (UInt8 × Bytes)) : walkPackets data pos ≠ some ((tag, body) :: packets) := by
  intro hwalk
  rw [writePacket, List.cons_append, List.append_assoc] at h
  have hread := readPacketHeader_newFormat htag h
    (decodeNewFormatBodyLength_truncated hlong (body ++ rest)) none false
  rw [walkPackets, if_pos h.lt] at hwalk
  split at hwalk
  · cases hwalk
  · rename_i header hsome
    rw [hread] at hsome
    cases hsome
    split at hwalk
    · cases hwalk
    · rename_i short hshort
      simp only [Option.map_eq_some_iff, List.cons.injEq, Prod.mk.injEq, true_and] at hwalk
      obtain ⟨-, -, rfl, -⟩ := hwalk
      rw [readOctets] at hshort
      split_ifs at hshort
      have hlen := congrArg List.length (Option.some.inj hshort)
      simp only [List.length_take, List.length_drop] at hlen
      omega

theorem FramedPacket.tag_lt {packet : FramedPacket} (hchunked : packet.IsPartial) :
    packet.tag < 64 := by
  obtain ⟨tag, body, framing, hlegal⟩ := packet
  cases framing with
  | newFormat form => exact absurd hchunked id
  | oldFormat form => exact absurd hchunked id
  | partialBody exponents final => exact hlegal.1

/-- The packet a framed packet stands for. -/
def FramedPacket.content (packet : FramedPacket) : UInt8 × Bytes := (packet.tag, packet.body)

/-- The walk over the spliced stream gives back the packets exactly when no
partial body outgrows the length field it is rewritten with. -/
theorem walkPackets_spliced {data : Bytes} (packets : List FramedPacket) :
    ∀ {pos : ℕ}, At data pos (packets.map FramedPacket.spliced).flatten →
      (walkPackets data pos = some (packets.map FramedPacket.content) ↔
        ∀ packet ∈ packets, packet.IsPartial → packet.body.length < 2 ^ 32) := by
  induction packets with
  | nil =>
      intro pos h
      have hlen := h.length_eq
      rw [walkPackets, if_neg (by simp at hlen; omega)]
      simp
  | cons packet packets ih =>
      intro pos h
      simp only [List.map_cons, List.flatten_cons] at h
      have hlt : packet.spliced ≠ [] := by
        rw [FramedPacket.spliced]
        split_ifs
        · exact writePacket_ne_nil _ _
        · exact packet.octets_ne_nil
      have hlt : pos < data.length := h.lt_iff.mpr (by simp [hlt])
      simp only [List.map_cons, List.forall_mem_cons]
      by_cases hchunked : packet.IsPartial
      · rw [FramedPacket.spliced, if_pos hchunked] at h
        by_cases hfits : packet.body.length < 2 ^ 32
        · obtain ⟨bodyPos, hread, hat⟩ := readPacketHeader_writePacket (packet.tag_lt hchunked) hfits h
          rw [walkPackets_step hlt (hread none false) hat, ← ih hat.advance]
          simp only [FramedPacket.content, Option.map_eq_some_iff, List.cons.injEq, true_and,
          exists_eq_right, hfits, implies_true]
        · have hwrong := walkPackets_truncated (packet.tag_lt hchunked) (by omega) h
            (packets.map FramedPacket.content)
          exact ⟨fun hwalk => absurd hwalk hwrong, fun hall => absurd (hall.1 hchunked) hfits⟩
      · rw [FramedPacket.spliced, if_neg hchunked] at h
        obtain ⟨bodyPos, hread, hat, hend⟩ := packet.readPacketHeader_octets hchunked h
        rw [walkPackets_step hlt (hread none false) hat, ← ih hat.advance]
        simp [FramedPacket.content, hchunked]

/-- What the splice owes a stream: it says whether it rewrote anything, and the
buffer its callers go on with, their own when it did not, walks to the packets
that were framed. -/
def Reassembles (packets : List FramedPacket) : Prop :=
  ∃ out, reassemblePartialBodyLengths (streamOf packets) = .ok out ∧
    (out = none ↔ ∀ packet ∈ packets, ¬ packet.IsPartial) ∧
    walkPackets (out.getD (streamOf packets)) 0 = some (packets.map FramedPacket.content)

/-- What the splice answers on a stream. -/
theorem reassemblePartialBodyLengths_streamOf (packets : List FramedPacket) :
    reassemblePartialBodyLengths (streamOf packets) =
      .ok (if ∃ packet ∈ packets, packet.IsPartial
        then some (packets.map FramedPacket.spliced).flatten else none) := by
  have hloop := reassembleLoop_streamOf (streamOf packets).length packets [] false
    (at_whole (streamOf packets)) (by omega)
  rw [reassemblePartialBodyLengths, reassemblePartialBodyLengthRange, if_neg (by omega), hloop,
    reassembleLoop, dif_neg (by omega)]
  simp

theorem reassembles_iff_walk (packets : List FramedPacket) :
    Reassembles packets ↔
      walkPackets (packets.map FramedPacket.spliced).flatten 0 =
        some (packets.map FramedPacket.content) := by
  rw [Reassembles, reassemblePartialBodyLengths_streamOf]
  by_cases hany : ∃ packet ∈ packets, packet.IsPartial
  · have hsome : ¬ ∀ packet ∈ packets, ¬ packet.IsPartial := by simpa using hany
    rw [if_pos hany]
    simp only [Except.ok.injEq, exists_eq_left', Option.getD_some, reduceCtorEq, hsome, true_and]
  · have hwhole : ∀ packet ∈ packets, ¬ packet.IsPartial := by simpa using hany
    rw [if_neg hany]
    simp only [Except.ok.injEq, exists_eq_left', Option.getD_none, true_iff,
      flatten_spliced hwhole]
    exact ⟨fun h => h.2, fun h => ⟨hwhole, h⟩⟩

/-- The splice keeps a stream's packets exactly when every body that came in
chunks is shorter than 2^32 octets. -/
theorem reassembles_iff_short (packets : List FramedPacket) :
    Reassembles packets ↔
      ∀ packet ∈ packets, packet.IsPartial → packet.body.length < 2 ^ 32 := by
  rw [reassembles_iff_walk]
  exact walkPackets_spliced packets (at_zero _)

theorem legalChunks_four {body : Bytes} (h : body.length = 2 ^ 32) :
    LegalChunks [30, 30, 30, 30] .oneOctet body := by
  simp only [LegalChunks, NewLength.Fits, List.length_drop, h]
  omega

/-- A literal packet of 2^32 zero octets in four chunks of 2^30 and an empty
final one. -/
def hugePacket : FramedPacket where
  tag := PGP_TAG_LITERAL_DATA
  body := List.replicate (2 ^ 32) 0
  framing := .partialBody [30, 30, 30, 30] .oneOctet
  legal := ⟨by decide, List.cons_ne_nil _ _, legalChunks_four List.length_replicate⟩

theorem hugePacket_lost : ¬ Reassembles [hugePacket] := by
  rw [reassembles_iff_walk]
  intro hwalk
  have hlong : hugePacket.body.length = 2 ^ 32 := List.length_replicate
  have hshort := (walkPackets_spliced [hugePacket] (at_zero _)).mp hwalk hugePacket
    (List.mem_singleton_self _) trivial
  rw [hlong] at hshort
  exact lt_irrefl _ hshort

end HashCryptoLib.Pgp
