import HashCryptoLib.Pgp.Message
import HashCryptoLib.Pgp.PacketForm
import HashCryptoLib.Pgp.PeerBlock

/-!
Streams of packets in any legal framing. The last packet of a stream may be of
indeterminate length, and then ends where the stream ends. What a reader meets is
the spliced stream, in which a packet that came in chunks has a four-octet length:
one that is too long for it loses what is behind.
-/

namespace HashCryptoLib.Pgp

open BigEndian Cursor

/-! ### One packet behind the splice -/

namespace FramedPacket

/-- The length of a packet survives the splice. -/
def Whole (packet : FramedPacket) : Prop := packet.IsPartial → packet.body.length < 2 ^ 32

/-- The body that a reader gets behind the splice. -/
def received (packet : FramedPacket) : Bytes :=
  if packet.IsPartial then packet.body.take (packet.body.length % 2 ^ 32) else packet.body

/-- What is left of the body behind it. -/
def lost (packet : FramedPacket) : Bytes :=
  if packet.IsPartial then packet.body.drop (packet.body.length % 2 ^ 32) else []

theorem received_append_lost (packet : FramedPacket) :
    packet.received ++ packet.lost = packet.body := by
  rw [received, lost]
  split_ifs
  · exact List.take_append_drop _ _
  · exact List.append_nil _

theorem Whole.lost_eq {packet : FramedPacket} (h : packet.Whole) : packet.lost = [] := by
  rw [lost]
  split_ifs with hchunked
  · rw [Nat.mod_eq_of_lt (h hchunked), List.drop_length]
  · rfl

theorem Whole.received_eq {packet : FramedPacket} (h : packet.Whole) :
    packet.received = packet.body := by
  have hbody := packet.received_append_lost
  rw [h.lost_eq, List.append_nil] at hbody
  exact hbody

theorem Whole.of_short {packet : FramedPacket} (h : packet.body.length < 2 ^ 32) : packet.Whole :=
  fun _ => h

/-- A spliced packet is read with its tag and what is received of its body. -/
theorem readPacketHeader_spliced {packet : FramedPacket} {data rest : Bytes} {pos : ℕ}
    (h : At data pos (packet.spliced ++ rest)) :
    ∃ bodyPos, (∀ dataEnd acceptPartial, readPacketHeader data pos dataEnd acceptPartial =
        some ⟨packet.tag, packet.received.length, bodyPos, false⟩) ∧
      At data bodyPos (packet.received ++ (packet.lost ++ rest)) ∧
      bodyPos + packet.body.length = pos + packet.spliced.length := by
  by_cases hchunked : packet.IsPartial
  · have htag := packet.tag_lt hchunked
    rw [spliced, if_pos hchunked, writePacket, List.cons_append, List.append_assoc] at h
    have hlength : decodeNewFormatBodyLength
        (appendNewFormatLength packet.body.length ++ (packet.body ++ rest)) =
          some ((appendNewFormatLength packet.body.length).length, packet.received.length,
            false) := by
      rw [received, if_pos hchunked, List.length_take, Nat.min_eq_left (Nat.mod_le _ _)]
      rcases Nat.lt_or_ge packet.body.length (2 ^ 32) with hshort | hlong
      · rw [Nat.mod_eq_of_lt hshort]
        exact decodeNewFormatBodyLength_append hshort _
      · rw [decodeNewFormatBodyLength_truncated hlong, appendNewFormatLength, if_neg (by omega),
          if_neg (by omega)]
        rfl
    refine ⟨pos + 1 + (appendNewFormatLength packet.body.length).length,
      readPacketHeader_newFormat htag h hlength, ?_, ?_⟩
    · rw [← List.append_assoc, packet.received_append_lost]
      exact h.next.advance
    · rw [spliced, if_pos hchunked, writePacket, List.length_cons, List.length_append]
      omega
  · rw [spliced, if_neg hchunked] at h
    obtain ⟨bodyPos, hread, hat, hend⟩ := packet.readPacketHeader_octets hchunked h
    refine ⟨bodyPos, ?_, ?_, ?_⟩
    · rw [received, if_neg hchunked]
      exact hread
    · rw [← List.append_assoc, packet.received_append_lost]
      exact hat
    · rw [spliced, if_neg hchunked]
      exact hend

end FramedPacket

/-! ### Streams -/

/-- An old-format packet of indeterminate length. -/
structure OpenPacket where
  tag : UInt8
  body : Bytes
  tag_lt : tag < 16

def OpenPacket.octets (packet : OpenPacket) : Bytes := indeterminateOctet packet.tag :: packet.body

theorem OpenPacket.readPacketHeader_octets {packet : OpenPacket} {data rest : Bytes} {pos : ℕ}
    (h : At data pos (packet.octets ++ rest)) (acceptPartial : Bool) :
    readPacketHeader data pos (some (pos + packet.octets.length)) acceptPartial =
      some ⟨packet.tag, packet.body.length, pos + 1, false⟩ := by
  obtain ⟨h80, h40, htag, htype⟩ := indeterminate_octet packet.tag packet.tag_lt
  have hlength : pos + packet.octets.length = pos + 1 + packet.body.length := by
    rw [OpenPacket.octets, List.length_cons]
    omega
  rw [OpenPacket.octets, List.cons_append] at h
  rw [hlength, readPacketHeader_indeterminate h h80 h40 htype (Nat.le_add_right _ _), htag,
    Nat.add_sub_cancel_left]

/-- Packets, of which the last may be of indeterminate length. -/
structure PacketStream where
  front : List FramedPacket
  last : Option OpenPacket

namespace PacketStream

def octets (stream : PacketStream) : Bytes :=
  streamOf stream.front ++ stream.last.elim [] OpenPacket.octets

/-- The stream as the splice leaves it. -/
def spliced (stream : PacketStream) : Bytes :=
  (stream.front.map FramedPacket.spliced).flatten ++ stream.last.elim [] OpenPacket.octets

/-- The tags and bodies of the packets. -/
def contents (stream : PacketStream) : List (UInt8 × Bytes) :=
  stream.front.map FramedPacket.content ++
    (stream.last.map fun packet => (packet.tag, packet.body)).toList

/-- The tags, and what is received of the bodies. -/
def received (stream : PacketStream) : List (UInt8 × Bytes) :=
  stream.front.map (fun packet => (packet.tag, packet.received)) ++
    (stream.last.map fun packet => (packet.tag, packet.body)).toList

/-- No packet outgrows the length it is spliced with. -/
def Whole (stream : PacketStream) : Prop := ∀ packet ∈ stream.front, packet.Whole

theorem Whole.received_eq {stream : PacketStream} (h : stream.Whole) :
    stream.received = stream.contents := by
  refine congrArg (· ++ _) (List.map_congr_left fun packet hmem => ?_)
  rw [(h packet hmem).received_eq]
  rfl

/-- A packet of indeterminate length is the last round of the splice. -/
theorem reassembleLoop_last {data rest : Bytes} (last : Option OpenPacket) {pos : ℕ}
    (h : At data pos (last.elim [] OpenPacket.octets ++ rest)) (out : Bytes) (rewroteAny : Bool) :
    reassembleLoop data (pos + (last.elim [] OpenPacket.octets).length) pos out rewroteAny =
      .ok (if rewroteAny then some (out ++ last.elim [] OpenPacket.octets) else none) := by
  cases last with
  | none =>
      simp only [Option.elim_none, List.length_nil, List.append_nil]
      rw [reassembleLoop, dif_neg (by omega)]
  | some packet =>
      simp only [Option.elim_some] at h ⊢
      have hread := packet.readPacketHeader_octets h true
      have hlength : packet.octets.length = 1 + packet.body.length := by
        rw [OpenPacket.octets, List.length_cons, Nat.add_comm]
      have hfits : ¬ packet.body.length > sizeSub (pos + packet.octets.length) (pos + 1) := by
        rw [sizeSub_of_le (by omega)]
        omega
      rw [reassembleLoop_whole (pos + packet.octets.length) (by omega) hread
        (by rw [if_neg hfits]; omega) (copyRange_of_at h), reassembleLoop, dif_neg (by omega)]

/-- The splice over a stream that stands in other data. -/
theorem reassembleRange_octets {data rest : Bytes} {pos : ℕ} (stream : PacketStream)
    (h : At data pos (stream.octets ++ rest)) :
    reassemblePartialBodyLengthRange data pos (pos + stream.octets.length) =
      .ok (if ∃ packet ∈ stream.front, packet.IsPartial then some stream.spliced else none) := by
  have hle := h.le
  rw [octets, List.append_assoc] at h
  have hloop := reassembleLoop_streamOf (pos + stream.octets.length) stream.front [] false h
    (by rw [octets, List.length_append]; omega)
  have hend : pos + stream.octets.length = pos + (streamOf stream.front).length +
      (stream.last.elim [] OpenPacket.octets).length := by
    rw [octets, List.length_append, Nat.add_assoc]
  rw [reassemblePartialBodyLengthRange, if_neg (by omega), hloop, hend,
    reassembleLoop_last stream.last h.advance, List.nil_append, Bool.false_or]
  simp only [decide_eq_true_eq, spliced]

/-- A stream that the splice does not touch is what the splice would leave. -/
theorem spliced_eq {stream : PacketStream} (h : ¬ ∃ packet ∈ stream.front, packet.IsPartial) :
    stream.spliced = stream.octets := by
  rw [spliced, octets, flatten_spliced fun packet hmem hchunked => h ⟨packet, hmem, hchunked⟩]

theorem reassembledOr_octets (stream : PacketStream) :
    reassembledOr stream.octets = .ok stream.spliced := by
  have hrange := reassembleRange_octets stream (at_whole stream.octets)
  rw [Nat.zero_add] at hrange
  rw [reassembledOr, reassemblePartialBodyLengths, hrange]
  by_cases hany : ∃ packet ∈ stream.front, packet.IsPartial
  · rw [if_pos hany]
    rfl
  · rw [if_neg hany, spliced_eq hany]
    rfl

/-! ### The packets a reader finds -/

/-- The first packet of a spliced stream, and the stream behind it where nothing
of that packet is lost. -/
theorem read_first {data rest : Bytes} {pos : ℕ} {tag : UInt8} {body : Bytes}
    {others : List (UInt8 × Bytes)} (stream : PacketStream)
    (hfirst : stream.received = (tag, body) :: others)
    (h : At data pos (stream.spliced ++ rest)) :
    ∃ (bodyPos : ℕ) (more : Bytes) (behind : PacketStream), (∀ acceptPartial,
        readPacketHeader data pos (some (pos + stream.spliced.length)) acceptPartial =
          some ⟨tag, body.length, bodyPos, false⟩) ∧
      At data bodyPos (body ++ (more ++ rest)) ∧
      bodyPos + (body ++ more).length = pos + stream.spliced.length ∧
      behind.received = others ∧
      ((∀ packet ∈ stream.front.head?, packet.Whole) → more = behind.spliced) := by
  obtain ⟨front, last⟩ := stream
  cases front with
  | nil =>
      cases last with
      | none => cases hfirst
      | some packet =>
          obtain ⟨hpacket, rfl⟩ := List.cons.inj hfirst
          obtain ⟨rfl, rfl⟩ := Prod.mk.inj hpacket
          have hspliced : (PacketStream.mk [] (some packet)).spliced = packet.octets := rfl
          rw [hspliced] at h ⊢
          refine ⟨pos + 1, [], ⟨[], none⟩, packet.readPacketHeader_octets h, h.next, ?_, rfl,
            fun _ => rfl⟩
          rw [OpenPacket.octets, List.append_nil, List.length_cons]
          omega
  | cons packet front =>
      obtain ⟨hpacket, hothers⟩ := List.cons.inj hfirst
      obtain ⟨rfl, rfl⟩ := Prod.mk.inj hpacket
      have hspliced : (PacketStream.mk (packet :: front) last).spliced =
          packet.spliced ++ (PacketStream.mk front last).spliced := by
        simp [spliced]
      rw [hspliced] at h ⊢
      rw [List.append_assoc] at h
      obtain ⟨bodyPos, hread, hat, hend⟩ := packet.readPacketHeader_spliced h
      refine ⟨bodyPos, packet.lost ++ (PacketStream.mk front last).spliced, ⟨front, last⟩, hread _,
        ?_, ?_, hothers, ?_⟩
      · rw [List.append_assoc]
        exact hat
      · rw [← List.append_assoc, packet.received_append_lost, List.length_append,
          List.length_append]
        omega
      · intro hwhole
        rw [(hwhole packet rfl).lost_eq]
        rfl

/-- Where every packet is received whole, a reader of the spliced stream finds the
packets of the stream. -/
theorem blockPackets_spliced {data : Bytes} (front : List FramedPacket) (last : Option OpenPacket) :
    ∀ {pos : ℕ}, (PacketStream.mk front last).Whole →
      At data pos (PacketStream.mk front last).spliced →
      blockPackets data pos = (PacketStream.mk front last).contents := by
  induction front with
  | nil =>
      intro pos _ h
      cases last with
      | none => exact blockPackets_end fun hlt => h.lt_iff.mp hlt rfl
      | some packet =>
          have hat : At data pos (packet.octets ++ []) := by
            rw [List.append_nil]
            exact h
          have hlength := hat.length_eq
          rw [List.append_nil] at hlength
          have hread := packet.readPacketHeader_octets hat false
          rw [← hlength] at hread
          have hbody : At data (pos + 1) (packet.body ++ []) := hat.next
          rw [blockPackets_cons hread (readOctets_of_at hbody), blockPackets_end]
          · rfl
          · rw [hlength, OpenPacket.octets, List.length_cons]
            dsimp only
            omega
  | cons packet front ih =>
      intro pos hwhole h
      obtain ⟨hfirst, hrest⟩ := List.forall_mem_cons.mp hwhole
      have hspliced : (PacketStream.mk (packet :: front) last).spliced =
          packet.spliced ++ (PacketStream.mk front last).spliced := by
        simp [spliced]
      rw [hspliced] at h
      obtain ⟨bodyPos, hread, hat, -⟩ := packet.readPacketHeader_spliced h
      rw [hfirst.lost_eq, List.nil_append] at hat
      rw [blockPackets_cons (hread none false) (readOctets_of_at hat), ih hrest hat.advance,
        hfirst.received_eq]
      rfl

theorem contents_eq_nil {stream : PacketStream} (h : stream.octets = []) :
    stream.contents = [] := by
  obtain ⟨front, last⟩ := stream
  obtain ⟨hfront, hlast⟩ := List.append_eq_nil_iff.mp h
  cases front with
  | nil =>
      cases last with
      | none => rfl
      | some packet => cases hlast
  | cons packet front =>
      obtain ⟨hpacket, -⟩ := List.append_eq_nil_iff.mp hfront
      exact absurd hpacket packet.octets_ne_nil

theorem received_tags (stream : PacketStream) :
    stream.received.map Prod.fst = stream.contents.map Prod.fst := by
  simp only [received, contents, List.map_append, List.map_map]
  rfl

/-- A short packet in front is received as it is. -/
theorem whole_first {tag : UInt8} {body : Bytes} {others : List (UInt8 × Bytes)}
    {stream : PacketStream} (hfirst : stream.contents = (tag, body) :: others)
    (hshort : body.length < 2 ^ 32) : ∀ packet ∈ stream.front.head?, packet.Whole := by
  obtain ⟨front, last⟩ := stream
  cases front with
  | nil => exact fun packet hmem => nomatch hmem
  | cons packet front =>
      intro head hmem
      obtain rfl : packet = head := Option.some.inj hmem
      obtain ⟨-, rfl⟩ := Prod.mk.inj (List.cons.inj hfirst).1
      exact .of_short hshort

end PacketStream

end HashCryptoLib.Pgp
