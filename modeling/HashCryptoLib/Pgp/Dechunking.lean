import HashCryptoLib.Pgp.LiteralDrain
import HashCryptoLib.Pgp.RangeConfinement

/-!
The two ways of taking the length headers out of a body: octet streams that come
in pieces, and a buffer that holds all of it. However a stream is cut, the chunk
walk ends where it ends on the whole; and it ends with the last chunk exactly
where the splice of the buffer succeeds, with the same body.
-/

namespace HashCryptoLib.Pgp

open BigEndian Cursor

/-! ### Pieces -/

/-- What a caller of `dechunkPartialBody` keeps between two calls. -/
structure ChunkFeed where
  content : Bytes
  raw : Bytes
  chunkRemaining : ℕ
  finalChunk : Bool
  deriving DecidableEq, Repr

namespace ChunkFeed

/-- One call on the octets left over and the next piece. -/
def feed (s : ChunkFeed) (piece : Bytes) : Option ChunkFeed :=
  (dechunkPartialBody (s.raw ++ piece) s.chunkRemaining s.finalChunk s.content).map
    fun (content, raw, chunkRemaining, finalChunk) => { content, raw, chunkRemaining, finalChunk }

/-- One call for each piece. -/
def feedPieces (s : ChunkFeed) (pieces : List Bytes) : Option ChunkFeed := pieces.foldlM feed s

end ChunkFeed

/-- A header that is all there can be decoded. -/
theorem decode_isSome {raw : Bytes} (hraw : raw ≠ [])
    (h : newFormatBodyLengthHeaderSize (raw.head hraw) ≤ raw.length) :
    decodeNewFormatBodyLength raw ≠ none := by
  obtain ⟨first, rest, rfl⟩ := List.exists_cons_of_ne_nil hraw
  rw [List.head_cons, newFormatBodyLengthHeaderSize, List.length_cons] at h
  rw [decodeNewFormatBodyLength]
  split_ifs at h ⊢ with hshort hmedium hpartial
  · exact Option.some_ne_none _
  · cases rest with
    | nil => simp at h
    | cons second rest => exact Option.some_ne_none _
  · exact Option.some_ne_none _
  · rw [readOctets, if_pos (by omega)]
    exact Option.some_ne_none _

/-- The walk never fails. -/
theorem dechunkPartialBody_ne_none (raw : Bytes) (chunkRemaining : ℕ) (finalChunk : Bool)
    (content : Bytes) : dechunkPartialBody raw chunkRemaining finalChunk content ≠ none := by
  fun_induction dechunkPartialBody raw chunkRemaining finalChunk content with
  | case1 => exact Option.some_ne_none _
  | case2 _ _ _ _ _ _ _ ih => exact ih
  | case3 => exact Option.some_ne_none _
  | case4 => exact Option.some_ne_none _
  | case5 raw _ _ _ hraw _ _ hlong hdec =>
      exact absurd hdec (decode_isSome hraw (Nat.le_of_not_lt hlong))
  | case6 _ _ _ _ _ _ _ _ _ _ _ _ ih => exact ih

namespace ChunkFeed

theorem feed_ne_none (s : ChunkFeed) (piece : Bytes) : s.feed piece ≠ none := by
  rw [feed, Ne, Option.map_eq_none_iff]
  exact dechunkPartialBody_ne_none _ _ _ _

/-- A call on two pieces together ends where the two calls end. -/
theorem feed_append {s s' : ChunkFeed} {piece : Bytes} (h : s.feed piece = some s')
    (more : Bytes) : s.feed (piece ++ more) = s'.feed more := by
  obtain ⟨⟨content, raw, chunkRemaining, finalChunk⟩, hwalk, rfl⟩ := Option.map_eq_some_iff.mp h
  obtain ⟨out, rfl, -, -, -, -, hresume, -⟩ := dechunkPartialBody_some hwalk
  rw [feed, feed, ← List.append_assoc, hresume]

/-- Only the octets matter, not how they are cut. -/
theorem feedPieces_flatten {s : ChunkFeed} (hraw : s.feed [] = some s) (pieces : List Bytes) :
    s.feedPieces pieces = s.feed pieces.flatten := by
  induction pieces generalizing s with
  | nil => exact hraw.symm
  | cons piece pieces ih =>
      obtain ⟨next, hnext⟩ := Option.ne_none_iff_exists'.mp (s.feed_ne_none piece)
      have hagain := feed_append hnext []
      rw [List.append_nil, hnext] at hagain
      rw [feedPieces, List.foldlM_cons, hnext, List.flatten_cons, feed_append hnext]
      exact ih hagain.symm

end ChunkFeed

/-! ### Chunks in a buffer -/

section Splice

variable {data body body' out out' : Bytes} {pos endPos next chunkLength : ℕ} {moreChunks : Bool}

theorem window_drop (data : Bytes) (pos endPos k : ℕ) :
    (window data pos endPos).drop k = window data (pos + k) endPos := by
  rw [window, window, List.drop_take, List.drop_drop, Nat.sub_sub]

/-- A chunk that lies in the range stands at the front of what is left of it. -/
theorem window_chunk {chunk : Bytes} (hfits : pos + chunkLength ≤ endPos)
    (hcopy : copyRange data pos (pos + chunkLength) = .ok chunk) :
    window data pos endPos = chunk ++ window data (pos + chunkLength) endPos ∧
      chunk.length = chunkLength := by
  rw [copyRange] at hcopy
  split_ifs at hcopy with hrange
  obtain rfl := Except.ok.inj hcopy
  rw [Nat.add_sub_cancel_left]
  refine ⟨?_, by rw [List.length_take, List.length_drop]; omega⟩
  rw [← window_drop, window]
  conv_lhs => rw [← List.take_append_drop chunkLength ((data.drop pos).take _)]
  rw [List.take_take, Nat.min_eq_left (by omega)]

/-- Behind the last chunk the walk stops. -/
theorem dechunkPartialBody_final (raw content : Bytes) :
    dechunkPartialBody raw 0 true content = some (content, raw, 0, true) := by
  by_cases hraw : raw = []
  · rw [hraw, dechunkPartialBody_nil]
  · rw [dechunkPartialBody, dif_neg hraw, dif_neg (lt_irrefl 0), if_pos rfl]

/-- A walk that ends inside a header is not at the end of the last chunk. -/
theorem dechunkPartialBody_cut {raw : Bytes} (h : decodeNewFormatBodyLength raw = none)
    (content : Bytes) : dechunkPartialBody raw 0 false content = some (content, raw, 0, false) := by
  by_cases hraw : raw = []
  · rw [hraw, dechunkPartialBody_nil]
  rw [dechunkPartialBody, dif_neg hraw, dif_neg (by simp), if_neg (by simp), if_pos]
  by_contra hlong
  exact decode_isSome hraw (Nat.le_of_not_lt hlong) h

/-- The splice of the chunks succeeds where the walk ends with the last one, and gives
what the walk gives: induction on the loop, one chunk at a time. -/
theorem spliceChunks_iff (hend : endPos ≤ data.length) (hpos : pos ≤ endPos) :
    spliceChunks data endPos pos chunkLength moreChunks body = .ok (some (body', next)) ↔
      next ≤ endPos ∧
        dechunkPartialBody (window data pos endPos) chunkLength (!moreChunks) body =
          some (body', window data next endPos, 0, true) := by
  fun_induction spliceChunks data endPos pos chunkLength moreChunks body with
  | case1 pos chunkLength moreChunks body hlong =>
      -- the range ends inside the chunk
      rw [sizeSub_of_le hpos, ← length_window pos hend] at hlong
      have hwalk := dechunkPartialBody_piece hlong.le [] (!moreChunks) body
      rw [List.append_nil, dechunkPartialBody_nil] at hwalk
      rw [hwalk]
      simp only [Except.ok.injEq, reduceCtorEq, Option.some.injEq, Prod.mk.injEq, false_iff]
      omega
  | case2 pos chunkLength moreChunks body hfits fault hcopy =>
      -- the loop is handed a copy that the buffer has
      rw [sizeSub_of_le hpos] at hfits
      rw [copyRange, if_pos ⟨by omega, by omega⟩] at hcopy
      cases hcopy
  | case3 pos chunkLength body hfits chunk hcopy =>
      rw [sizeSub_of_le hpos] at hfits
      obtain ⟨hsplit, hchunk⟩ := window_chunk (show pos + chunkLength ≤ endPos by omega) hcopy
      have hwalk := dechunkPartialBody_piece hchunk.le (window data (pos + chunkLength) endPos)
        true body
      rw [hchunk, Nat.sub_self, dechunkPartialBody_final] at hwalk
      rw [hsplit, Bool.not_false, hwalk]
      simp only [Except.ok.injEq, Option.some.injEq, Prod.mk.injEq, and_true]
      constructor
      · rintro ⟨rfl, rfl⟩
        exact ⟨by omega, rfl, rfl⟩
      · rintro ⟨hnext, rfl, hwindow⟩
        have hlength := congrArg List.length hwindow
        rw [length_window _ hend, length_window _ hend] at hlength
        exact ⟨rfl, by omega⟩
  | case4 pos chunkLength moreChunks body hfits chunk hcopy hmore hover =>
      rw [sizeSub_of_le hpos] at hfits
      obtain ⟨hsplit, hchunk⟩ := window_chunk (show pos + chunkLength ≤ endPos by omega) hcopy
      have hwalk := dechunkPartialBody_piece hchunk.le (window data (pos + chunkLength) endPos)
        false body
      -- another chunk was announced, and the range ends behind this one
      have hnone : window data (pos + chunkLength) endPos = [] := by
        rw [← List.length_eq_zero_iff, length_window _ hend]
        omega
      rw [hchunk, Nat.sub_self, hnone, dechunkPartialBody_nil] at hwalk
      rw [hsplit, hnone, Bool.of_not_eq_false hmore, Bool.not_true, hwalk]
      simp
  | case5 pos chunkLength moreChunks body hfits chunk hcopy hmore hover hdec =>
      change decodeNewFormatBodyLength (window data (pos + chunkLength) endPos) = none at hdec
      rw [sizeSub_of_le hpos] at hfits
      obtain ⟨hsplit, hchunk⟩ := window_chunk (show pos + chunkLength ≤ endPos by omega) hcopy
      have hwalk := dechunkPartialBody_piece hchunk.le (window data (pos + chunkLength) endPos)
        false body
      rw [hchunk, Nat.sub_self, dechunkPartialBody_cut hdec] at hwalk
      rw [hsplit, Bool.of_not_eq_false hmore, Bool.not_true, hwalk]
      simp
  | case6 pos chunkLength moreChunks body hfits chunk hcopy hmore hover headerSize nextLength
      nextPartial hdec ih =>
      rw [sizeSub_of_le hpos] at hfits
      obtain ⟨hsplit, hchunk⟩ := window_chunk (show pos + chunkLength ≤ endPos by omega) hcopy
      have hwalk := dechunkPartialBody_piece hchunk.le (window data (pos + chunkLength) endPos)
        false body
      obtain ⟨header, rest, hwindow, rfl, hannounces⟩ := announces_of_decode hdec
      -- behind the header the loop and the walk stand at the same octet
      have hrest : rest = window data (pos + chunkLength + header.length) endPos := by
        rw [← window_drop, window, hwindow, List.drop_left]
      have hwindow' : window data (pos + chunkLength) endPos = header ++ rest := hwindow
      have hheader : pos + chunkLength + header.length ≤ endPos := by
        have hlength := congrArg List.length hwindow'
        rw [length_window _ hend, List.length_append] at hlength
        omega
      rw [hchunk, Nat.sub_self, hwindow', dechunkPartialBody_header hannounces, hrest] at hwalk
      rw [ih hheader, hsplit, hwindow', hrest, Bool.of_not_eq_false hmore, Bool.not_true, hwalk]

/-- In a buffer that holds the range, the chunk loop reads inside the buffer. -/
theorem spliceChunks_ok (fault : Fault) (hend : endPos ≤ data.length) (hpos : pos ≤ endPos) :
    spliceChunks data endPos pos chunkLength moreChunks body ≠ .error fault := by
  fun_induction spliceChunks data endPos pos chunkLength moreChunks body with
  | case2 pos chunkLength moreChunks body hfits fault hcopy =>
      rw [sizeSub_of_le hpos] at hfits
      rw [copyRange, if_pos ⟨by omega, by omega⟩] at hcopy
      cases hcopy
  | case6 pos chunkLength moreChunks body hfits chunk hcopy hmore hover headerSize nextLength
      nextPartial hdec ih =>
      obtain ⟨header, rest, hwindow, rfl, -⟩ := announces_of_decode hdec
      have hlength := congrArg List.length hwindow
      rw [List.length_append, List.length_take, List.length_drop] at hlength
      exact ih (by omega)
  | _ =>
      intro h
      cases h

/-- Nor does the packet loop read past the end of a whole buffer. -/
theorem reassembleLoop_ok {data out : Bytes} {pos : ℕ} {rewroteAny : Bool}
    (hpos : pos ≤ data.length) (fault : Fault) :
    reassembleLoop data data.length pos out rewroteAny ≠ .error fault := by
  have hwithin {pos : ℕ} (header : PacketHeader)
      (hread : readPacketHeader data pos (some data.length) true = some header) :
      pos ≤ (if header.bodyLength > sizeSub data.length header.bodyPos then data.length
          else header.bodyPos + header.bodyLength) ∧
        (if header.bodyLength > sizeSub data.length header.bodyPos then data.length
          else header.bodyPos + header.bodyLength) ≤ data.length := by
    have hbody := bodyPos_le_length hread
    have hgt := bodyPos_gt hread
    rw [sizeSub_of_le hbody]
    split_ifs <;> omega
  fun_induction reassembleLoop data data.length pos out rewroteAny with
  | case1 pos out rewroteAny hlt hread =>
      rw [copyRange, if_pos ⟨hlt.le, le_rfl⟩]
      intro h
      cases h
  | case2 pos out rewroteAny hlt header hread hwhole bodyEnd fault' hcopy =>
      have hcopied : copyRange data pos bodyEnd = .ok _ := if_pos (hwithin header hread)
      rw [hcopied] at hcopy
      cases hcopy
  | case3 pos out rewroteAny hlt header hread hwhole bodyEnd packet hcopy ih =>
      exact ih (hwithin header hread).2
  | case4 pos out rewroteAny hlt header hread hchunked fault' hsplice =>
      exact absurd hsplice (spliceChunks_ok fault' le_rfl (bodyPos_le_length hread))
  | case5 =>
      intro h
      cases h
  | case6 pos out rewroteAny hlt header hread hchunked body next hsplice ih =>
      exact ih ((spliceChunks_iff le_rfl (bodyPos_le_length hread)).mp hsplice).1
  | case7 =>
      intro h
      cases h

/-- The chunks of a whole buffer are put together without a read past its end. -/
theorem reassembledOr_ok (data : Bytes) : ∃ message, reassembledOr data = .ok message := by
  rw [reassembledOr, reassemblePartialBodyLengths, reassemblePartialBodyLengthRange,
    if_neg (by omega)]
  cases hloop : reassembleLoop data data.length 0 [] false with
  | error fault => exact absurd hloop (reassembleLoop_ok (Nat.zero_le _) fault)
  | ok reassembled => exact ⟨_, rfl⟩

/-- What has been put out stays. -/
theorem reassembleLoop_extends {rewroteAny : Bool}
    (h : reassembleLoop data endPos pos out rewroteAny = .ok (some out')) : out <+: out' := by
  fun_induction reassembleLoop data endPos pos out rewroteAny with
  | case1 pos out rewroteAny hpos hread =>
      cases hcopy : copyRange data pos endPos with
      | error fault =>
          rw [hcopy] at h
          cases h
      | ok tail =>
          rw [hcopy] at h
          have hout : (if rewroteAny then some (out ++ tail) else none) = some out' :=
            Except.ok.inj h
          split_ifs at hout
          exact ⟨tail, Option.some.inj hout⟩
  | case2 => cases h
  | case3 pos out rewroteAny hpos packet hread hwhole bodyEnd octets hcopy ih =>
      exact (List.prefix_append out octets).trans (ih h)
  | case4 => cases h
  | case5 => cases h
  | case6 pos out rewroteAny hpos packet hread hpartial body next hsplice ih =>
      exact (List.prefix_append out _).trans (ih h)
  | case7 pos out rewroteAny hpos =>
      have hout := Except.ok.inj h
      split_ifs at hout
      exact (Option.some.inj hout) ▸ List.prefix_refl _

end Splice

/-! ### The two readers of one body -/

/-- The header of a packet in chunks stands at `pos`, and ends in the range. -/
structure ChunkedAt (data : Bytes) (endPos pos : ℕ) (packet : PacketHeader) : Prop where
  read : readPacketHeader data pos (some endPos) true = some packet
  isPartial : packet.isPartial = true
  bodyPos_le : packet.bodyPos ≤ endPos
  end_le : endPos ≤ data.length

theorem feed_iff {data body : Bytes} {pos endPos next chunkLength : ℕ} :
    ChunkFeed.feed ⟨[], [], chunkLength, false⟩ (window data pos endPos) =
        some ⟨body, window data next endPos, 0, true⟩ ↔
      dechunkPartialBody (window data pos endPos) chunkLength false [] =
        some (body, window data next endPos, 0, true) := by
  rw [ChunkFeed.feed, List.nil_append, Option.map_eq_some_iff]
  constructor
  · rintro ⟨⟨content, raw, chunkRemaining, finalChunk⟩, hwalk, heq⟩
    rw [ChunkFeed.mk.injEq] at heq
    obtain ⟨rfl, rfl, rfl, rfl⟩ := heq
    exact hwalk
  · exact fun hwalk => ⟨_, hwalk, rfl⟩

/-- A stream in pieces leaves what it leaves as a whole; the splice of a packet
succeeds where the walk over the octets behind its header ends with the last chunk, with
the same body; and that body is what the rewritten packet holds. -/
theorem dechunk_agrees :
    (∀ content chunkRemaining finalChunk pieces,
      ChunkFeed.feedPieces ⟨content, [], chunkRemaining, finalChunk⟩ pieces =
        ChunkFeed.feed ⟨content, [], chunkRemaining, finalChunk⟩ pieces.flatten) ∧
      ∀ data endPos pos packet, ChunkedAt data endPos pos packet →
        (∀ body next,
          spliceChunks data endPos packet.bodyPos packet.bodyLength true [] =
              .ok (some (body, next)) ↔
            next ≤ endPos ∧
              ChunkFeed.feed ⟨[], [], packet.bodyLength, false⟩ (window data packet.bodyPos endPos) =
                some ⟨body, window data next endPos, 0, true⟩) ∧
        ∀ out rewroteAny out',
          reassembleLoop data endPos pos out rewroteAny = .ok (some out') →
          ∃ body next,
            ChunkFeed.feed ⟨[], [], packet.bodyLength, false⟩ (window data packet.bodyPos endPos) =
                some ⟨body, window data next endPos, 0, true⟩ ∧
              out ++ writePacket packet.tag body <+: out' := by
  refine ⟨fun content chunkRemaining finalChunk pieces => ?_, fun data endPos pos packet hat => ?_⟩
  · refine ChunkFeed.feedPieces_flatten ?_ pieces
    rw [ChunkFeed.feed, List.append_nil, dechunkPartialBody_nil]
    rfl
  have hsplice (body : Bytes) (next : ℕ) := @spliceChunks_iff data [] body packet.bodyPos endPos next
    packet.bodyLength true hat.end_le hat.bodyPos_le
  refine ⟨fun body next => by rw [hsplice, feed_iff, Bool.not_true], fun out rewroteAny out' h => ?_⟩
  obtain ⟨tag, bodyLength, bodyPos, isPartial⟩ := packet
  obtain rfl : isPartial = true := hat.isPartial
  have hpos : pos < endPos := (bodyPos_gt hat.read).trans_le hat.bodyPos_le
  cases hchunks : spliceChunks data endPos bodyPos bodyLength true [] with
  | error fault => exact absurd hchunks (spliceChunks_ok fault hat.end_le hat.bodyPos_le)
  | ok spliced =>
      cases spliced with
      | none =>
          rw [reassembleLoop_unspliced hpos hat.read hchunks] at h
          cases h
      | some spliced =>
          obtain ⟨body, next⟩ := spliced
          obtain ⟨-, hwalk⟩ := (hsplice body next).mp hchunks
          rw [reassembleLoop_spliced hpos hat.read hchunks] at h
          exact ⟨body, next, feed_iff.mpr hwalk, reassembleLoop_extends h⟩

/-- A literal packet of two chunks, of one octet each. -/
def twoChunks : Bytes := [0xCB, 0xE0, 97, 1, 98]

theorem dechunk_agrees_twoChunks :
    ∃ body next,
      ChunkFeed.feed ⟨[], [], 1, false⟩ (window twoChunks 2 5) =
          some ⟨body, window twoChunks next 5, 0, true⟩ ∧
        [] ++ writePacket 11 body <+: [0xCB, 2, 97, 98] :=
  (dechunk_agrees.2 twoChunks 5 0 ⟨11, 1, 2, true⟩
    ⟨by decide, rfl, by decide, by decide⟩).2 [] false _ (by decide +kernel)

end HashCryptoLib.Pgp
