import HashCryptoLib.Lib.BigEndian
import HashCryptoLib.Lib.Cursor
import Mathlib.Data.FinEnum

/-!
Packet framing: the byte and integer plumbing of the engine, new-format
length headers, packet headers in both formats, and the partial-body-length
readers. Every reader here takes a buffer and a position, as in the source,
and answers `none` where the source returns `false`.
-/

namespace HashCryptoLib

abbrev Bytes := List UInt8

instance : LawfulBEq Bytes := inferInstance

/-- An `unsigned char[n]` array. -/
abbrev Octets (n : ℕ) := { b : Bytes // b.length = n }

@[simp] theorem Octets.length_eq {n : ℕ} (octets : Octets n) : octets.1.length = n := octets.2

namespace Pgp

open BigEndian Cursor

def PGP_TAG_PKESK : UInt8 := 1
def PGP_TAG_SIGNATURE : UInt8 := 2
def PGP_TAG_ONE_PASS_SIG : UInt8 := 4
def PGP_TAG_SECRET_KEY : UInt8 := 5
def PGP_TAG_PUBLIC_KEY : UInt8 := 6
def PGP_TAG_SECRET_SUBKEY : UInt8 := 7
def PGP_TAG_COMPRESSED_DATA : UInt8 := 8

theorem compressedDataTag_lt : PGP_TAG_COMPRESSED_DATA < 16 := by decide

def PGP_TAG_USER_ID : UInt8 := 13
def PGP_TAG_LITERAL_DATA : UInt8 := 11
def PGP_TAG_PUBLIC_SUBKEY : UInt8 := 14
def PGP_TAG_SEIP : UInt8 := 18

/-! ### Byte and integer plumbing -/

/-- The two octets appended for a value cast to `uint16_t`. -/
def appendBigEndian16 (value : ℕ) : Bytes := toOctets 2 value

/-- The four octets appended for a value cast to `uint32_t`. -/
def appendBigEndian32 (value : ℕ) : Bytes := toOctets 4 value

@[simp] theorem length_appendBigEndian16 (value : ℕ) : (appendBigEndian16 value).length = 2 :=
  length_toOctets 2 value

@[simp] theorem length_appendBigEndian32 (value : ℕ) : (appendBigEndian32 value).length = 4 :=
  length_toOctets 4 value

def xorOctets (octets mask : Bytes) : Bytes := List.zipWith (· ^^^ ·) octets mask

@[simp] theorem length_xorOctets (octets mask : Bytes) :
    (xorOctets octets mask).length = min octets.length mask.length := List.length_zipWith

theorem xorOctets_xorOctets {octets mask : Bytes} (h : octets.length ≤ mask.length) :
    xorOctets (xorOctets octets mask) mask = octets := by
  induction octets generalizing mask with
  | nil => rfl
  | cons octet octets ih =>
      cases mask with
      | nil => simp at h
      | cons m mask =>
          have htail : octets.length ≤ mask.length := by simpa using h
          have hxor := ih htail
          simp only [xorOctets] at hxor
          simp only [xorOctets, List.zipWith_cons_cons, UInt8.xor_assoc, UInt8.xor_self,
            UInt8.xor_zero, hxor]

/-- `n` octets of `data` from `pos`, when they are all there. -/
def readOctets (data : Bytes) (pos n : ℕ) : Option Bytes :=
  if pos + n ≤ data.length then some ((data.drop pos).take n) else none

def readBigEndian16 (data : Bytes) (pos : ℕ) : ℕ :=
  ofOctets ((data.drop pos).take 2)

/-- The length octets of a new-format header. A length of 2^32 or more loses
its high bits in the cast to `uint32_t`. -/
def appendNewFormatLength (length : ℕ) : Bytes :=
  if length < 192 then [UInt8.ofNat length]
  else if length < 8384 then
    [UInt8.ofNat ((length - 192) / 256 + 192), UInt8.ofNat ((length - 192) % 256)]
  else 0xFF :: appendBigEndian32 length

def writePacket (tag : UInt8) (body : Bytes) : Bytes :=
  (0xC0 ||| tag) :: (appendNewFormatLength body.length ++ body)

/-! ### Packet headers -/

/-- What `readPacketHeader` stores in its out-parameters; `bodyPos` is the
value of `pos` afterwards. -/
structure PacketHeader where
  tag : UInt8
  bodyLength : ℕ
  bodyPos : ℕ
  isPartial : Bool
  deriving DecidableEq, Repr

/-- `dataEnd` is `none` for the default argument, `acceptPartial` says whether
the caller passes a non-null `isPartialLength`. -/
def readPacketHeader (data : Bytes) (pos : ℕ) (dataEnd : Option ℕ)
    (acceptPartial : Bool) : Option PacketHeader :=
  let effectiveEnd := dataEnd.getD data.length
  match data[pos]? with
  | none => none
  | some first =>
    if first &&& 0x80 = 0 then none
    else if first &&& 0x40 ≠ 0 then
      let tag := first &&& 0x3F
      match data[pos + 1]? with
      | none => none
      | some lenFirst =>
        if lenFirst < 192 then some ⟨tag, lenFirst.toNat, pos + 2, false⟩
        else if lenFirst < 224 then
          (data[pos + 2]?).map fun second =>
            ⟨tag, (lenFirst.toNat - 192) * 256 + second.toNat + 192, pos + 3, false⟩
        else if lenFirst < 255 then
          if acceptPartial then some ⟨tag, 2 ^ (lenFirst &&& 0x1F).toNat, pos + 2, true⟩
          else none
        else
          (readOctets data (pos + 2) 4).map fun octets =>
            ⟨tag, ofOctets octets, pos + 6, false⟩
    else
      let tag := (first >>> 2) &&& 0x0F
      let lengthType := first &&& 0x03
      if lengthType = 0 then
        (readOctets data (pos + 1) 1).map fun octets => ⟨tag, ofOctets octets, pos + 2, false⟩
      else if lengthType = 1 then
        (readOctets data (pos + 1) 2).map fun octets => ⟨tag, ofOctets octets, pos + 3, false⟩
      else if lengthType = 2 then
        (readOctets data (pos + 1) 4).map fun octets => ⟨tag, ofOctets octets, pos + 5, false⟩
      else if pos + 1 > effectiveEnd then none
      else some ⟨tag, effectiveEnd - (pos + 1), pos + 1, false⟩

def newFormatBodyLengthHeaderSize (first : UInt8) : ℕ :=
  if first < 192 then 1 else if first < 224 then 2 else if first < 255 then 1 else 5

/-- One bare length header: its size, the chunk length, and whether another
chunk follows. -/
def decodeNewFormatBodyLength (header : Bytes) : Option (ℕ × ℕ × Bool) :=
  match header with
  | [] => none
  | first :: rest =>
    if first < 192 then some (1, first.toNat, false)
    else if first < 224 then
      rest.head?.map fun second => (2, (first.toNat - 192) * 256 + second.toNat + 192, false)
    else if first < 255 then some (1, 2 ^ (first &&& 0x1F).toNat, true)
    else (readOctets rest 0 4).map fun octets => (5, ofOctets octets, false)

theorem headerSize_pos {header : Bytes} {headerSize chunkLength : ℕ} {isPartial : Bool}
    (h : decodeNewFormatBodyLength header = some (headerSize, chunkLength, isPartial)) :
    0 < headerSize := by
  cases header with
  | nil => simp [decodeNewFormatBodyLength] at h
  | cons first rest =>
      simp only [decodeNewFormatBodyLength] at h
      split_ifs at h <;> simp_all <;> omega

theorem bodyPos_gt {data : Bytes} {pos : ℕ} {dataEnd : Option ℕ} {acceptPartial : Bool}
    {header : PacketHeader}
    (h : readPacketHeader data pos dataEnd acceptPartial = some header) :
    pos < header.bodyPos := by
  unfold readPacketHeader at h
  dsimp only at h
  split at h
  · cases h
  · split_ifs at h
    all_goals try split at h
    all_goals try split_ifs at h
    all_goals simp only [Option.map_eq_some_iff, Option.some.injEq, reduceCtorEq] at h
    all_goals first
      | (subst h; simp)
      | (obtain ⟨_, _, rfl⟩ := h; simp)

theorem lt_length_of_read {data : Bytes} {pos : ℕ} {dataEnd : Option ℕ} {acceptPartial : Bool}
    {header : PacketHeader} (h : readPacketHeader data pos dataEnd acceptPartial = some header) :
    pos < data.length := by
  by_contra hover
  rw [readPacketHeader, List.getElem?_eq_none (Nat.le_of_not_lt hover)] at h
  cases h

theorem readPacketHeader_notHeader {data : Bytes} {pos : ℕ} {first : UInt8}
    (hfirst : data[pos]? = some first) (h : first &&& 0x80 = 0) (dataEnd : Option ℕ)
    (acceptPartial : Bool) : readPacketHeader data pos dataEnd acceptPartial = none := by
  rw [readPacketHeader, hfirst]
  exact if_pos h

theorem bodyPos_le_length {data : Bytes} {pos : ℕ} {dataEnd : Option ℕ} {acceptPartial : Bool}
    {header : PacketHeader}
    (h : readPacketHeader data pos dataEnd acceptPartial = some header) :
    header.bodyPos ≤ data.length := by
  have hlt := lt_length_of_read h
  unfold readPacketHeader at h
  dsimp only at h
  split at h
  · cases h
  · split_ifs at h
    all_goals try split at h
    all_goals try split_ifs at h
    all_goals
      simp only [Option.map_eq_some_iff, Option.some.injEq, reduceCtorEq, readOctets,
        Option.ite_none_right_eq_some] at h
    all_goals first
      | (subst h; dsimp only; grind)
      | (obtain ⟨_, hread, rfl⟩ := h; dsimp only; grind)

/-! ### Partial body lengths -/

/-- The chunk walk of `dechunkPartialBody`: content appended, leftover raw
octets, and the chunk state afterwards. -/
def dechunkPartialBody (raw : Bytes) (chunkRemaining : ℕ) (finalChunk : Bool)
    (content : Bytes) : Option (Bytes × Bytes × ℕ × Bool) :=
  if hraw : raw = [] then some (content, raw, chunkRemaining, finalChunk)
  else if _hrem : chunkRemaining > 0 then
    let take := min chunkRemaining raw.length
    dechunkPartialBody (raw.drop take) (chunkRemaining - take) finalChunk
      (content ++ raw.take take)
  else if finalChunk then some (content, raw, chunkRemaining, finalChunk)
  else if raw.length < newFormatBodyLengthHeaderSize (raw.head hraw) then
    some (content, raw, chunkRemaining, finalChunk)
  else
    match _hdec : decodeNewFormatBodyLength raw with
    | none => none
    | some (headerSize, chunkLength, isPartial) =>
      dechunkPartialBody (raw.drop headerSize) chunkLength (!isPartial) content
termination_by raw.length
decreasing_by
  · have := List.length_pos_iff.mpr hraw
    simp only [List.length_drop]
    omega
  · have := List.length_pos_iff.mpr hraw
    have := headerSize_pos _hdec
    simp only [List.length_drop]
    omega

/-- A read the language leaves undefined: past the end of a buffer. -/
inductive Fault
  | outOfBounds
  deriving DecidableEq, Repr

/-- `size_t` subtraction, which wraps. -/
def sizeSub (a b : ℕ) : ℕ := if b ≤ a then a - b else 2 ^ 64 + a - b

/-- `insert(out.end(), data.begin() + first, data.begin() + last)`. -/
def copyRange (data : Bytes) (first last : ℕ) : Except Fault Bytes :=
  if first ≤ last ∧ last ≤ data.length then .ok ((data.drop first).take (last - first))
  else .error .outOfBounds

/-- The chunk loop of `reassemblePartialBodyLengthRange`: the spliced body and
the position behind it. -/
def spliceChunks (data : Bytes) (endPos pos chunkLength : ℕ) (moreChunks : Bool)
    (body : Bytes) : Except Fault (Option (Bytes × ℕ)) :=
  if chunkLength > sizeSub endPos pos then .ok none
  else
    match copyRange data pos (pos + chunkLength) with
    | .error fault => .error fault
    | .ok chunk =>
      if moreChunks = false then .ok (some (body ++ chunk, pos + chunkLength))
      else if _hend : pos + chunkLength ≥ endPos then .ok none
      else
        match _hdec : decodeNewFormatBodyLength
            ((data.drop (pos + chunkLength)).take (endPos - (pos + chunkLength))) with
        | none => .ok none
        | some (headerSize, nextLength, nextPartial) =>
          spliceChunks data endPos (pos + chunkLength + headerSize) nextLength nextPartial
            (body ++ chunk)
termination_by endPos - pos
decreasing_by
  have := headerSize_pos _hdec
  omega

theorem spliceChunks_le {data : Bytes} {endPos pos chunkLength : ℕ} {moreChunks : Bool}
    {body body' : Bytes} {next : ℕ}
    (h : spliceChunks data endPos pos chunkLength moreChunks body = .ok (some (body', next))) :
    pos ≤ next := by
  fun_induction spliceChunks data endPos pos chunkLength moreChunks body <;> grind

/-- The packet loop of `reassemblePartialBodyLengthRange`; `none` is the
source's `false`, after which its `out` is meaningless. -/
def reassembleLoop (data : Bytes) (endPos pos : ℕ) (out : Bytes) (rewroteAny : Bool) :
    Except Fault (Option Bytes) :=
  if _hpos : pos < endPos then
    match _hhead : readPacketHeader data pos (some endPos) true with
    | none =>
      (copyRange data pos endPos).map fun tail => if rewroteAny then some (out ++ tail) else none
    | some header =>
      if header.isPartial = false then
        let bodyEnd := if header.bodyLength > sizeSub endPos header.bodyPos then endPos
          else header.bodyPos + header.bodyLength
        match copyRange data pos bodyEnd with
        | .error fault => .error fault
        | .ok packet => reassembleLoop data endPos bodyEnd (out ++ packet) rewroteAny
      else
        match _hbody : spliceChunks data endPos header.bodyPos header.bodyLength true [] with
        | .error fault => .error fault
        | .ok none => .ok none
        | .ok (some (body, next)) =>
          reassembleLoop data endPos next (out ++ writePacket header.tag body) true
  else .ok (if rewroteAny then some out else none)
termination_by endPos - pos
decreasing_by
  · have := bodyPos_gt _hhead
    split_ifs <;> omega
  · have := bodyPos_gt _hhead
    have := spliceChunks_le _hbody
    omega

/-- `.ok (some out)` is the source's `true`. -/
def reassemblePartialBodyLengthRange (data : Bytes) (first last : ℕ) :
    Except Fault (Option Bytes) :=
  if first > last ∨ last > data.length then .ok none
  else reassembleLoop data last first [] false

def reassemblePartialBodyLengths (data : Bytes) : Except Fault (Option Bytes) :=
  reassemblePartialBodyLengthRange data 0 data.length

/-! ### Reading back what was written -/

theorem length_appendNewFormatLength_le (length : ℕ) :
    (appendNewFormatLength length).length ≤ 5 := by
  unfold appendNewFormatLength
  split_ifs <;> simp [appendBigEndian32]

theorem writePacket_ne_nil (tag : UInt8) (body : Bytes) : writePacket tag body ≠ [] := by
  simp [writePacket]

theorem readOctets_of_at {data xs rest : Bytes} {pos : ℕ} (h : At data pos (xs ++ rest)) :
    readOctets data pos xs.length = some xs := by
  rw [readOctets, if_pos h.le, h.take_eq]

/-- A 16-bit field holds the low 16 bits of what was written. -/
theorem readBigEndian16_mod {data rest : Bytes} {pos value : ℕ}
    (h : At data pos (appendBigEndian16 value ++ rest)) :
    readBigEndian16 data pos = value % 2 ^ 16 := by
  have htake := h.take_eq
  rw [appendBigEndian16, length_toOctets] at htake
  rw [readBigEndian16, htake, ofOctets_toOctets]
  norm_num

theorem readBigEndian16_of_at {data rest : Bytes} {pos value : ℕ} (hvalue : value < 2 ^ 16)
    (h : At data pos (appendBigEndian16 value ++ rest)) : readBigEndian16 data pos = value := by
  rw [readBigEndian16_mod h, Nat.mod_eq_of_lt hvalue]

theorem toNat_shortLength {n : ℕ} (h : n < 192) : (UInt8.ofNat n).toNat = n := by
  rw [UInt8.toNat_ofNat']
  omega

/-- The two octets of a medium length, as the reader recombines them. -/
theorem mediumLength {n : ℕ} (hlow : 192 ≤ n) (hhigh : n < 8384) :
    192 ≤ (UInt8.ofNat ((n - 192) / 256 + 192)).toNat ∧
      (UInt8.ofNat ((n - 192) / 256 + 192)).toNat < 224 ∧
      ((UInt8.ofNat ((n - 192) / 256 + 192)).toNat - 192) * 256 +
        (UInt8.ofNat ((n - 192) % 256)).toNat + 192 = n := by
  simp only [UInt8.toNat_ofNat']
  omega

/-- A length that fits in 32 bits decodes to itself, whatever follows it. -/
theorem decodeNewFormatBodyLength_append {n : ℕ} (hn : n < 2 ^ 32) (rest : Bytes) :
    decodeNewFormatBodyLength (appendNewFormatLength n ++ rest) =
      some ((appendNewFormatLength n).length, n, false) := by
  unfold appendNewFormatLength
  split_ifs with hshort hmedium
  · have hnat := toNat_shortLength hshort
    have hlt : UInt8.ofNat n < 192 := by rw [UInt8.lt_iff_toNat_lt, hnat]; exact hshort
    simp [decodeNewFormatBodyLength, hlt, hnat]
  · obtain ⟨hge, hlt, hvalue⟩ := mediumLength (by omega) hmedium
    have h192 : ¬ UInt8.ofNat ((n - 192) / 256 + 192) < 192 := by
      rw [UInt8.lt_iff_toNat_lt]; exact not_lt.mpr hge
    have h224 : UInt8.ofNat ((n - 192) / 256 + 192) < 224 := by
      rw [UInt8.lt_iff_toNat_lt]; exact hlt
    simp only [List.cons_append, List.nil_append, decodeNewFormatBodyLength, h192, h224,
      if_true, if_false, List.head?_cons, Option.map_some, hvalue, List.length_cons,
      List.length_nil]
  · have hread := readOctets_of_at (at_zero (appendBigEndian32 n ++ rest))
    rw [appendBigEndian32, length_toOctets] at hread
    simp only [List.cons_append, decodeNewFormatBodyLength, appendBigEndian32]
    rw [if_neg (by decide), if_neg (by decide), if_neg (by decide), hread, Option.map_some,
      ofOctets_toOctets_of_lt (by simpa using hn)]
    simp

theorem newFormat_octet : ∀ tag : UInt8, tag < 64 →
    (0xC0 ||| tag) &&& 0x80 ≠ 0 ∧ (0xC0 ||| tag) &&& 0x40 ≠ 0 ∧ (0xC0 ||| tag) &&& 0x3F = tag := by
  decide +kernel

/-- A new-format header reads its length with the chunk decoder, when that
length is definite. -/
theorem readPacketHeader_newFormat {data : Bytes} {pos : ℕ} {tag : UInt8} {lengthRest : Bytes}
    {headerSize bodyLength : ℕ} (htag : tag < 64)
    (h : At data pos ((0xC0 ||| tag) :: lengthRest))
    (hlen : decodeNewFormatBodyLength lengthRest = some (headerSize, bodyLength, false))
    (dataEnd : Option ℕ) (acceptPartial : Bool) :
    readPacketHeader data pos dataEnd acceptPartial =
      some ⟨tag, bodyLength, pos + 1 + headerSize, false⟩ := by
  obtain ⟨h80, h40, h3f⟩ := newFormat_octet tag htag
  cases lengthRest with
  | nil => simp [decodeNewFormatBodyLength] at hlen
  | cons first rest =>
      have hfirst := h.next.head
      have hsecond := h.next.getElem?_eq 1
      have hlong : readOctets data (pos + 2) 4 = readOctets rest 0 4 := by
        have hlength := h.length_eq
        have hdrop := h.next.next.drop_eq
        simp only [List.length_cons] at hlength
        simp only [readOctets, hdrop, hlength, List.drop_zero]
        congr 1
        exact propext (by omega)
      simp only [readPacketHeader, h.head, h80, h40, h3f, ne_eq, not_false_eq_true, if_true,
        if_false, hfirst]
      simp only [decodeNewFormatBodyLength] at hlen
      split_ifs at hlen with h192 h224 h255
      · simp only [Option.some.injEq, Prod.mk.injEq, and_true] at hlen
        obtain ⟨rfl, rfl⟩ := hlen
        simp [h192]
      · cases rest with
        | nil => simp at hlen
        | cons second rest =>
            simp only [List.head?_cons, Option.map_some, Option.some.injEq, Prod.mk.injEq,
              and_true] at hlen
            obtain ⟨rfl, rfl⟩ := hlen
            simp only [List.getElem?_cons_succ, List.getElem?_cons_zero] at hsecond
            simp [h192, h224, hsecond]
      · simp at hlen
      · simp only [Option.map_eq_some_iff, Prod.mk.injEq, and_true] at hlen
        obtain ⟨octets, hread, rfl, rfl⟩ := hlen
        simp [h192, h224, h255, hlong, hread]

/-- A written packet is read back as its tag, its body length and the position
of its body, whatever follows it. -/
theorem readPacketHeader_writePacket {data body rest : Bytes} {pos : ℕ} {tag : UInt8}
    (htag : tag < 64) (hbody : body.length < 2 ^ 32)
    (h : At data pos (writePacket tag body ++ rest)) :
    ∃ bodyPos, (∀ dataEnd acceptPartial, readPacketHeader data pos dataEnd acceptPartial =
        some ⟨tag, body.length, bodyPos, false⟩) ∧ At data bodyPos (body ++ rest) := by
  rw [writePacket, List.cons_append, List.append_assoc] at h
  have hlen := decodeNewFormatBodyLength_append hbody (body ++ rest)
  exact ⟨_, readPacketHeader_newFormat htag h hlen, h.next.advance⟩

end Pgp
end HashCryptoLib
