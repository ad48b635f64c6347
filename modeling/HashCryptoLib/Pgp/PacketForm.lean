import HashCryptoLib.Lib.ChunkedBody
import HashCryptoLib.Pgp.Framing

/-!
Packets as a reader meets them: a header, and ahead of it the octets of a body,
whose end the header tells in one of three ways. A reader that goes on from
where the header ends knows no more than that; the legal framings, and the
packets of indeterminate length, are just what such readers can meet.
-/

namespace HashCryptoLib.Pgp

open BigEndian Cursor

/-- The first octet of an old-format packet of indeterminate length. -/
def indeterminateOctet (tag : UInt8) : UInt8 := (0x80 : UInt8) ||| (tag <<< (2 : UInt8)) ||| 3

/-- The test for an old-format packet of indeterminate length. -/
def isIndeterminate (first : UInt8) : Bool := first &&& 0xC0 == 0x80 && first &&& 0x03 == 3

/-- One packet in one of its legal framings, or an old-format packet of
indeterminate length, whose body is all that follows. -/
def IsPacket (tag : UInt8) (body octets : Bytes) : Prop :=
  (∃ packet : FramedPacket, packet.tag = tag ∧ packet.body = body ∧ packet.octets = octets) ∨
    tag < 16 ∧ octets = indeterminateOctet tag :: body

/-- Where a body ends: after so many octets, with the data, or with the last of
its chunks. -/
inductive BodyLength
  | definite (length : ℕ)
  | indeterminate
  | chunked (first : ℕ)
  deriving DecidableEq, Repr

/-- A new-format length, with nothing behind it. -/
def Announces (header : Bytes) (length : ℕ) (more : Bool) : Prop :=
  decodeNewFormatBodyLength header = some (header.length, length, more)

namespace BodyLength

/-- The octets ahead of a reader behind the header, and the body in them. -/
def Carries : BodyLength → Bytes → Bytes → Prop
  | definite length, octets, body => octets = body ∧ body.length = length
  | indeterminate, octets, body => octets = body
  | chunked first, octets, body => Chunked Announces first false octets body

/-- What is stored as the length of a body, with `available` octets behind the
header. -/
def announced : BodyLength → ℕ → ℕ
  | definite length, _ => length
  | indeterminate, available => available
  | chunked first, _ => first

def isChunked : BodyLength → Bool
  | chunked _ => true
  | _ => false

end BodyLength

/-- The octets of a packet header with this tag. -/
inductive HeaderOf (tag : UInt8) : Bytes → BodyLength → Prop
  | newFormat {header : Bytes} {length : ℕ} (htag : tag < 64)
      (h : Announces header length false) :
      HeaderOf tag ((0xC0 ||| tag) :: header) (.definite length)
  | chunked {header : Bytes} {length : ℕ} (htag : tag < 64) (h : Announces header length true) :
      HeaderOf tag ((0xC0 ||| tag) :: header) (.chunked length)
  | oldFormat {length : ℕ} (form : OldLength) (htag : tag < 16)
      (hfits : length < 256 ^ form.size) :
      HeaderOf tag (form.firstOctet tag :: toOctets form.size length) (.definite length)
  | indeterminate (htag : tag < 16) : HeaderOf tag [indeterminateOctet tag] .indeterminate

/-! ### Framings and chunks -/

theorem chunked_chunkOctets {exponents : List ℕ} {final : NewLength} {body : Bytes}
    (h : LegalChunks exponents final body) :
    Chunked Announces 0 false (chunkOctets exponents final body) body := by
  induction exponents generalizing body with
  | nil =>
      have hdecode := decodeNewFormatBodyLength_octets (show final.Fits body.length from h) []
      rw [List.append_nil] at hdecode
      exact .next hdecode .of_length
  | cons exponent exponents ih =>
      obtain ⟨hexponent, hlength, hlegal⟩ := h
      have hdecode := decodeNewFormatBodyLength_partialChunk hexponent []
      have hahead := (ih hlegal).append (body.take (2 ^ exponent))
      rw [List.take_append_drop, List.length_take, Nat.min_eq_left hlength, Nat.zero_add] at hahead
      show Chunked Announces 0 false ([UInt8.ofNat (224 + exponent)] ++ _) body
      exact .next hdecode hahead

theorem Announces.final {header : Bytes} {length : ℕ} (h : Announces header length false) :
    ∃ form : NewLength, form.Fits length ∧ header = form.octets length := by
  obtain ⟨form, hfits, hsize, hheader⟩ := octets_of_decode h
  rw [List.drop_length, List.append_nil] at hheader
  exact ⟨form, hfits, hheader⟩

theorem Announces.more {header : Bytes} {length : ℕ} (h : Announces header length true) :
    ∃ exponent ≤ 30, length = 2 ^ exponent ∧ header = [UInt8.ofNat (224 + exponent)] := by
  obtain ⟨exponent, hle, hlength, hsize, hheader⟩ := partial_of_decode h
  rw [List.drop_eq_nil_of_le hsize.le] at hheader
  exact ⟨exponent, hle, hlength, hheader⟩

theorem Announces.pos {header : Bytes} {length : ℕ} {more : Bool}
    (h : Announces header length more) : 0 < header.length := headerSize_pos h

theorem chunkOctets_of_chunked {octets body : Bytes} (h : Chunked Announces 0 false octets body) :
    ∃ exponents final, LegalChunks exponents final body ∧
      octets = chunkOctets exponents final body := by
  induction hlength : octets.length using Nat.strong_induction_on generalizing octets body with
  | _ size ih =>
      obtain ⟨header, n, more, ahead, hheader, rfl, hahead⟩ := h.header
      cases more with
      | false =>
          obtain ⟨rfl, rfl⟩ := Chunked.final_iff.mp hahead
          obtain ⟨form, hfits, rfl⟩ := hheader.final
          exact ⟨[], form, hfits, rfl⟩
      | true =>
          have hpos := hheader.pos
          obtain ⟨hle, rest, rfl, hrest⟩ := hahead.take le_rfl
          rw [Nat.sub_self] at hrest
          rw [List.length_append, List.length_append] at hlength
          obtain ⟨exponents, final, hlegal, rfl⟩ := ih rest.length (by omega) hrest rfl
          obtain ⟨exponent, hexponent, rfl, rfl⟩ := hheader.more
          exact ⟨exponent :: exponents, final, ⟨hexponent, hle, hlegal⟩, rfl⟩

/-- A packet, as a header and what it says is ahead. -/
theorem isPacket_iff {tag : UInt8} {body octets : Bytes} :
    IsPacket tag body octets ↔ ∃ header length ahead, HeaderOf tag header length ∧
      length.Carries ahead body ∧ octets = header ++ ahead := by
  constructor
  · rintro (⟨⟨tag, body, framing, hlegal⟩, rfl, rfl, rfl⟩ | ⟨htag, rfl⟩)
    · cases framing with
      | newFormat form =>
          have hdecode := decodeNewFormatBodyLength_octets hlegal.2 []
          rw [List.append_nil] at hdecode
          exact ⟨_, _, body, .newFormat hlegal.1 hdecode, ⟨rfl, rfl⟩, rfl⟩
      | oldFormat form => exact ⟨_, _, body, .oldFormat form hlegal.1 hlegal.2, ⟨rfl, rfl⟩, rfl⟩
      | partialBody exponents final =>
          obtain ⟨htag, hne, hchunks⟩ := hlegal
          obtain ⟨exponent, exponents, rfl⟩ := List.exists_cons_of_ne_nil hne
          have hdecode := decodeNewFormatBodyLength_partialChunk hchunks.1 []
          have hahead := (chunked_chunkOctets hchunks.2.2).append (body.take (2 ^ exponent))
          rw [List.take_append_drop, List.length_take, Nat.min_eq_left hchunks.2.1,
            Nat.zero_add] at hahead
          exact ⟨_, _, _, .chunked htag hdecode, hahead, rfl⟩
    · exact ⟨_, _, body, .indeterminate htag, rfl, rfl⟩
  · rintro ⟨header, length, ahead, hheader, hcarries, rfl⟩
    cases hheader with
    | newFormat htag h =>
        obtain ⟨form, hfits, rfl⟩ := h.final
        obtain ⟨rfl, rfl⟩ := hcarries
        exact .inl ⟨⟨tag, ahead, .newFormat form, htag, hfits⟩, rfl, rfl, rfl⟩
    | oldFormat form htag hfits =>
        obtain ⟨rfl, rfl⟩ := hcarries
        exact .inl ⟨⟨tag, ahead, .oldFormat form, htag, hfits⟩, rfl, rfl, rfl⟩
    | chunked htag h =>
        have hall : Chunked Announces 0 false _ body := .next h hcarries
        obtain ⟨exponent, hexponent, rfl, rfl⟩ := h.more
        obtain ⟨hle, rest, rfl, hrest⟩ := Chunked.take hcarries le_rfl
        rw [Nat.sub_self] at hrest
        obtain ⟨exponents, final, hlegal, rfl⟩ := chunkOctets_of_chunked hrest
        exact .inl ⟨⟨tag, body, .partialBody (exponent :: exponents) final, htag,
          List.cons_ne_nil _ _, hexponent, hle, hlegal⟩, rfl, rfl, rfl⟩
    | indeterminate htag =>
        obtain rfl := hcarries
        exact .inr ⟨htag, rfl⟩

/-! ### Reading a header -/

/-- What is decoded as a length announces one. -/
theorem announces_of_decode {data : Bytes} {headerSize length : ℕ} {more : Bool}
    (h : decodeNewFormatBodyLength data = some (headerSize, length, more)) :
    ∃ header rest, data = header ++ rest ∧ headerSize = header.length ∧
      Announces header length more := by
  cases more with
  | false =>
      obtain ⟨form, hfits, hsize, hdata⟩ := octets_of_decode h
      have hdecode := decodeNewFormatBodyLength_octets hfits []
      rw [List.append_nil] at hdecode
      exact ⟨_, _, hdata, hsize, hdecode⟩
  | true =>
      obtain ⟨exponent, hexponent, rfl, hsize, hdata⟩ := partial_of_decode h
      exact ⟨[UInt8.ofNat (224 + exponent)], _, hdata, hsize,
        decodeNewFormatBodyLength_partialChunk hexponent []⟩

theorem indeterminate_octet : ∀ tag : UInt8, tag < 16 →
    indeterminateOctet tag &&& 0x80 ≠ 0 ∧ indeterminateOctet tag &&& 0x40 = 0 ∧
      (indeterminateOctet tag >>> 2) &&& 0x0F = tag ∧ indeterminateOctet tag &&& 0x03 = 3 := by
  decide +kernel

theorem indeterminate_of_octet : ∀ first : UInt8, first &&& 0x80 ≠ 0 → first &&& 0x40 = 0 →
    first &&& 0x03 = 3 →
      (first >>> 2) &&& 0x0F < 16 ∧ indeterminateOctet ((first >>> 2) &&& 0x0F) = first := by
  decide +kernel

section Headers

variable {data header rest more : Bytes} {pos : ℕ} {tag first : UInt8} {length : BodyLength}
  {packet : PacketHeader}

theorem HeaderOf.read (hheader : HeaderOf tag header length) (h : At data pos (header ++ rest)) :
    readPacketHeader data pos none true =
      some ⟨tag, length.announced rest.length, pos + header.length, length.isChunked⟩ := by
  have hlength := h.length_eq
  cases hheader with
  | newFormat htag hlen =>
      obtain ⟨h80, h40, h3f⟩ := newFormat_octet tag htag
      obtain ⟨hdecode, -⟩ := decodeNewFormatBodyLength_mono hlen rest
      rw [List.cons_append] at h
      rw [readPacketHeader_new h h80 h40, hdecode, h3f, Option.map_some, Nat.add_right_comm pos 1]
      rfl
  | chunked htag hlen =>
      obtain ⟨h80, h40, h3f⟩ := newFormat_octet tag htag
      obtain ⟨hdecode, -⟩ := decodeNewFormatBodyLength_mono hlen rest
      rw [List.cons_append] at h
      rw [readPacketHeader_new h h80 h40, hdecode, h3f, Option.map_some, Nat.add_right_comm pos 1]
      rfl
  | oldFormat form htag hfits =>
      rw [List.cons_append] at h
      rw [readPacketHeader_oldFormat htag hfits h, List.length_cons, length_toOctets,
        Nat.add_right_comm pos 1]
      rfl
  | indeterminate htag =>
      obtain ⟨h80, h40, htag', htype⟩ := indeterminate_octet tag htag
      have hend : data.length = pos + 1 + rest.length := by
        rw [hlength, List.length_append, List.length_singleton, Nat.add_assoc]
      have hread := readPacketHeader_indeterminate h h80 h40 htype
        (hend ▸ Nat.le_add_right (pos + 1) rest.length) true
      rw [htag', hend, Nat.add_sub_cancel_left] at hread
      rw [← hend] at hread
      exact hread

theorem HeaderOf.of_read_old {form : OldLength} (h : At data pos (first :: more))
    (h80 : first &&& 0x80 ≠ 0) (h40 : first &&& 0x40 = 0)
    (htype : first &&& 0x03 = form.lengthType)
    (hread : readPacketHeader data pos none true = some packet) :
    ∃ header length rest, HeaderOf packet.tag header length ∧ At data pos (header ++ rest) := by
  rw [readPacketHeader_old h h80 h40 htype, Option.map_eq_some_iff] at hread
  obtain ⟨octets, hoctets, rfl⟩ := hread
  obtain ⟨htag, hback⟩ := oldFormat_of_octet form first h80 h40 htype
  rw [readOctets, List.drop_zero] at hoctets
  split_ifs at hoctets with hlong
  obtain rfl := Option.some.inj hoctets
  have hsize : (more.take form.size).length = form.size := by
    rw [List.length_take]
    omega
  have hvalue := toOctets_ofOctets (more.take form.size)
  have hfits := ofOctets_lt (more.take form.size)
  rw [hsize] at hvalue hfits
  refine ⟨_, _, more.drop form.size, .oldFormat form htag hfits, ?_⟩
  rw [hback, hvalue, List.cons_append, List.take_append_drop]
  exact h

/-- What is read as a header is one. -/
theorem HeaderOf.of_read (h : readPacketHeader data pos none true = some packet) :
    ∃ header length rest, HeaderOf packet.tag header length ∧ At data pos (header ++ rest) := by
  cases hfirst : data[pos]? with
  | none => simp [readPacketHeader, hfirst] at h
  | some first =>
      obtain ⟨hpos, hget⟩ := List.getElem?_eq_some_iff.mp hfirst
      have hat : At data pos (first :: data.drop (pos + 1)) := by
        rw [at_iff, ← hget]
        exact ⟨hpos.le, List.drop_eq_getElem_cons hpos⟩
      by_cases h80 : first &&& 0x80 = 0
      · simp [readPacketHeader, hfirst, h80] at h
      by_cases h40 : first &&& 0x40 = 0
      · rcases lengthType_cases first with htype | htype | htype | htype
        · exact of_read_old hat h80 h40 htype h
        · exact of_read_old hat h80 h40 htype h
        · exact of_read_old hat h80 h40 htype h
        · have hread := readPacketHeader_indeterminate hat h80 h40 htype
            (show pos + 1 ≤ data.length from hpos) true
          obtain ⟨htag, hback⟩ := indeterminate_of_octet first h80 h40 htype
          obtain rfl := Option.some.inj (h.symm.trans hread)
          refine ⟨_, _, data.drop (pos + 1), .indeterminate htag, ?_⟩
          rw [hback]
          exact hat
      · rw [readPacketHeader_new hat h80 h40, Option.map_eq_some_iff] at h
        obtain ⟨⟨size, n, more⟩, hdecode, rfl⟩ := h
        obtain ⟨htag, hback⟩ := newFormat_of_octet first h80 h40
        obtain ⟨header, rest, hdata, -, hannounces⟩ := announces_of_decode hdecode
        rw [hdata, ← List.cons_append, ← hback] at hat
        cases more with
        | false => exact ⟨_, _, rest, .newFormat htag hannounces, hat⟩
        | true => exact ⟨_, _, rest, .chunked htag hannounces, hat⟩

theorem HeaderOf.of_read_eq (h : readPacketHeader data pos none true = some packet) :
    ∃ tag header length rest, HeaderOf tag header length ∧ At data pos (header ++ rest) ∧
      packet = ⟨tag, length.announced rest.length, pos + header.length, length.isChunked⟩ := by
  obtain ⟨header, length, rest, hheader, hat⟩ := of_read h
  exact ⟨packet.tag, header, length, rest, hheader, hat,
    Option.some.inj (h.symm.trans (hheader.read hat))⟩

theorem HeaderOf.ne_nil (h : HeaderOf tag header length) : header ≠ [] := by
  cases h <;> exact List.cons_ne_nil _ _

theorem HeaderOf.length_le (h : HeaderOf tag header length) : header.length ≤ 6 := by
  cases h with
  | newFormat htag hlen =>
      obtain ⟨form, -, rfl⟩ := hlen.final
      cases form <;> simp [NewLength.octets]
  | chunked htag hlen =>
      obtain ⟨exponent, -, -, rfl⟩ := hlen.more
      simp
  | oldFormat form htag hfits =>
      cases form <;> simp [OldLength.size]
  | indeterminate htag => simp

theorem not_isIndeterminate_new : ∀ tag : UInt8, tag < 64 →
    isIndeterminate (0xC0 ||| tag) = false := by
  decide +kernel

theorem not_isIndeterminate_old (form : OldLength) : ∀ tag : UInt8, tag < 16 →
    isIndeterminate (form.firstOctet tag) = false := by
  cases form <;> decide +kernel

theorem isIndeterminate_octet : ∀ tag : UInt8, tag < 16 →
    isIndeterminate (indeterminateOctet tag) = true := by
  decide +kernel

/-- The first octet tells whether the length is indeterminate. -/
theorem HeaderOf.isIndeterminate_iff (h : HeaderOf tag header length) :
    isIndeterminate (header.headD 0) = true ↔ length = .indeterminate := by
  cases h with
  | newFormat htag => simp [not_isIndeterminate_new tag htag]
  | chunked htag => simp [not_isIndeterminate_new tag htag]
  | oldFormat form htag => simp [not_isIndeterminate_old form tag htag]
  | indeterminate htag => simp [isIndeterminate_octet tag htag]

/-- A body of indeterminate length takes all that is left, the others what their headers say. -/
theorem HeaderOf.remaining_eq (h : HeaderOf tag header length) {left seen ahead : ℕ}
    (hleft : left = ahead) :
    (if isIndeterminate (header.headD 0) = true then left else length.announced seen) =
      length.announced ahead := by
  have hiff := h.isIndeterminate_iff
  cases length with
  | definite n =>
      rw [if_neg (hiff.not.mpr BodyLength.noConfusion)]
      rfl
  | chunked first =>
      rw [if_neg (hiff.not.mpr BodyLength.noConfusion)]
      rfl
  | indeterminate =>
      rw [if_pos (hiff.mpr rfl)]
      exact hleft

/-- No octets start with two headers. -/
theorem HeaderOf.unique {tag' : UInt8} {header' rest' : Bytes} {length' : BodyLength}
    (h : HeaderOf tag header length) (h' : HeaderOf tag' header' length')
    (heq : header ++ rest = header' ++ rest') :
    tag = tag' ∧ header = header' ∧ rest = rest' ∧ length = length' := by
  have hread := h.read (at_zero (header ++ rest))
  have hread' := h'.read (at_zero (header' ++ rest'))
  rw [heq, hread', Option.some.injEq, PacketHeader.mk.injEq] at hread
  obtain ⟨htag, hannounced, hpos, hchunked⟩ := hread
  obtain ⟨rfl, rfl⟩ := List.append_inj heq (by omega)
  refine ⟨htag.symm, rfl, rfl, ?_⟩
  have hindeterminate := h.isIndeterminate_iff.symm.trans h'.isIndeterminate_iff
  cases length <;> cases length' <;>
    simp_all [BodyLength.announced, BodyLength.isChunked]

end Headers

end HashCryptoLib.Pgp
