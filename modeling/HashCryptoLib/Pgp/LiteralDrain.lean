import HashCryptoLib.Pgp.FileDecryption
import HashCryptoLib.Pgp.Message

/-!
What comes out of a decompressor is one literal packet, met in pieces of any
size. Whatever the pieces are, the state behind them is one of three: no header
yet, a header and not all of the fields in front of the content, or content. If
the packet is complete at the end, what has been written is its content.
-/

namespace HashCryptoLib.Pgp

open BigEndian Cursor

/-! ### The chunk walk -/

section Dechunk

variable {raw content content' raw' : Bytes} {chunkRemaining chunkRemaining' : ℕ}
  {finalChunk finalChunk' : Bool}

@[simp] theorem dechunkPartialBody_nil (chunkRemaining : ℕ) (finalChunk : Bool) (content : Bytes) :
    dechunkPartialBody [] chunkRemaining finalChunk content =
      some (content, [], chunkRemaining, finalChunk) := by
  rw [dechunkPartialBody, dif_pos rfl]

/-- A piece within the current chunk is content. -/
theorem dechunkPartialBody_piece {piece : Bytes} (hpiece : piece.length ≤ chunkRemaining)
    (more : Bytes) (finalChunk : Bool) (content : Bytes) :
    dechunkPartialBody (piece ++ more) chunkRemaining finalChunk content =
      dechunkPartialBody more (chunkRemaining - piece.length) finalChunk (content ++ piece) := by
  by_cases hnil : piece = []
  · rw [hnil, List.nil_append, List.length_nil, Nat.sub_zero, List.append_nil]
  have hpos := List.length_pos_iff.mpr hnil
  rw [dechunkPartialBody, dif_neg (by simp [hnil]), dif_pos (by omega), List.length_append]
  dsimp only
  by_cases hend : more = [] ∨ chunkRemaining = piece.length
  · -- the walk stops just behind the piece
    have htake : min chunkRemaining (piece.length + more.length) = piece.length := by
      rcases hend with rfl | hend
      · rw [List.length_nil]
        omega
      · omega
    rw [htake, List.drop_left, List.take_left]
  · obtain ⟨hmore, hlong⟩ := not_or.mp hend
    have htake : min chunkRemaining (piece.length + more.length) =
        piece.length + min (chunkRemaining - piece.length) more.length := by
      omega
    rw [htake, List.drop_length_add_append, List.take_length_add_append, ← List.append_assoc]
    conv_rhs => rw [dechunkPartialBody, dif_neg hmore, dif_pos (by omega)]
    rw [Nat.sub_add_eq]

/-- A header between two chunks is stepped over. -/
theorem dechunkPartialBody_header {header : Bytes} {length : ℕ} {more : Bool}
    (h : Announces header length more) (rest content : Bytes) :
    dechunkPartialBody (header ++ rest) 0 false content =
      dechunkPartialBody rest length (!more) content := by
  obtain ⟨first, header', rfl⟩ := List.exists_cons_of_length_pos h.pos
  obtain ⟨hdecode, -⟩ := decodeNewFormatBodyLength_mono h rest
  have hsize := headerSize_eq h
  rw [dechunkPartialBody, dif_neg (by simp), dif_neg (by simp), if_neg (by simp), if_neg]
  · split
    · rename_i hnone
      rw [hdecode] at hnone
      cases hnone
    · rename_i hsome
      rw [hdecode] at hsome
      cases hsome
      rw [List.drop_left]
  · rw [show (first :: header' ++ rest).head _ = first from rfl, ← hsize, List.length_append]
    omega

/-- How the walk ends: all the octets are consumed, or the next header is cut short, or
the last chunk is at its end. -/
def ChunksEnd (raw : Bytes) (chunkRemaining : ℕ) (finalChunk : Bool) : Prop :=
  raw = [] ∨ chunkRemaining = 0 ∧ (finalChunk = true ∨ raw.length < 5)

/-- What the walk has done: `out` is what was appended. -/
theorem dechunkPartialBody_some
    (h : dechunkPartialBody raw chunkRemaining finalChunk content =
      some (content', raw', chunkRemaining', finalChunk')) :
    ∃ out, content' = content ++ out ∧ out.length + raw'.length ≤ raw.length ∧
      ChunksEnd raw' chunkRemaining' finalChunk' ∧
      (chunkRemaining = 0 → finalChunk = true → out = []) ∧
      (∀ octets body, Chunked Announces chunkRemaining' finalChunk' (raw' ++ octets) body →
        Chunked Announces chunkRemaining finalChunk (raw ++ octets) (out ++ body)) ∧
      (∀ more front, dechunkPartialBody (raw ++ more) chunkRemaining finalChunk front =
        dechunkPartialBody (raw' ++ more) chunkRemaining' finalChunk' (front ++ out)) ∧
      ∀ front, dechunkPartialBody raw chunkRemaining finalChunk front =
        some (front ++ out, raw', chunkRemaining', finalChunk') := by
  fun_induction dechunkPartialBody raw chunkRemaining finalChunk content with
  | case1 chunkRemaining finalChunk content =>
      cases h
      exact ⟨[], by simp, le_rfl, Or.inl rfl, fun _ _ => rfl, fun _ _ h => h,
        fun _ _ => by simp, fun _ => by simp⟩
  | case2 raw chunkRemaining finalChunk content hraw hrem take ih =>
      -- a piece of the chunk in hand is taken; the walk goes on in its rest
      obtain ⟨out, rfl, hlength, hend, hfinal, hcarries, hresume, hfront⟩ := ih h
      have htake : (raw.take take).length = take := by
        rw [List.length_take]
        omega
      have hle : take ≤ chunkRemaining := Nat.min_le_left _ _
      have hpiece := dechunkPartialBody_piece (htake.trans_le hle)
      rw [htake] at hpiece
      refine ⟨raw.take take ++ out, by rw [List.append_assoc], ?_, hend, fun hzero => ?_, ?_, ?_, ?_⟩
      · rw [List.length_drop] at hlength
        rw [List.length_append, htake]
        omega
      · omega
      · intro octets body hahead
        have hchunk := (hcarries octets body hahead).append (raw.take take)
        rw [htake, Nat.sub_add_cancel hle, ← List.append_assoc, List.take_append_drop,
          ← List.append_assoc] at hchunk
        exact hchunk
      · intro more front
        have hwalk := hpiece (raw.drop take ++ more) finalChunk front
        rw [← List.append_assoc, List.take_append_drop, hresume] at hwalk
        rw [hwalk, List.append_assoc]
      · intro front
        have hwalk := hpiece (raw.drop take) finalChunk front
        rw [List.take_append_drop, hfront] at hwalk
        rw [hwalk, List.append_assoc]
  | case3 raw chunkRemaining content hraw hrem =>
      cases h
      refine ⟨[], by simp, by simp, Or.inr ⟨by omega, Or.inl rfl⟩, fun _ _ => rfl, fun _ _ h => h,
        fun _ _ => by simp, fun front => ?_⟩
      rw [dechunkPartialBody, dif_neg hraw, dif_neg hrem, if_pos rfl, List.append_nil]
  | case4 raw chunkRemaining finalChunk content hraw hrem hfinal hshort =>
      cases h
      refine ⟨[], by simp, by simp, Or.inr ⟨by omega, Or.inr (hshort.trans_le ?_)⟩, fun _ _ => rfl,
        fun _ _ h => h, fun _ _ => by simp, fun front => ?_⟩
      · rw [newFormatBodyLengthHeaderSize]
        split_ifs <;> omega
      · rw [dechunkPartialBody, dif_neg hraw, dif_neg hrem, if_neg hfinal, if_pos hshort,
          List.append_nil]
  | case5 => cases h
  | case6 raw chunkRemaining finalChunk content hraw hrem hfinal hlong headerSize chunkLength
      isPartial hdec ih =>
      -- the next header is complete; it is consumed and nothing is put out
      obtain ⟨out, rfl, hlength, hend, -, hcarries, hresume, hfront⟩ := ih h
      obtain ⟨header, rest, rfl, rfl, hannounces⟩ := announces_of_decode hdec
      obtain rfl : chunkRemaining = 0 := by omega
      rw [List.drop_left] at hlength hcarries hresume hfront
      have hstep := dechunkPartialBody_header hannounces
      rw [Bool.eq_false_of_not_eq_true hfinal]
      refine ⟨out, rfl, ?_, hend, fun _ htrue => absurd htrue Bool.false_ne_true, ?_, ?_, ?_⟩
      · rw [List.length_append]
        omega
      · intro octets body hahead
        rw [List.append_assoc]
        exact .next hannounces (hcarries octets body hahead)
      · intro more front
        rw [List.append_assoc, hstep, hresume]
      · intro front
        rw [hstep, hfront]

end Dechunk

/-! ### The state between two pieces -/

namespace Decoded

/-- How the body of the literal packet, as far as it has come, lies in the octets behind
the header. -/
def Freed (s : Decoded) : BodyLength → Bytes → Bytes → Prop
  | .definite n, ahead, body =>
    s.literalIndeterminate = false ∧ s.literalPartial = false ∧ s.literalBodyLength = n ∧
      body = ahead
  | .indeterminate, ahead, body =>
    s.literalIndeterminate = true ∧ s.literalPartial = false ∧ body = ahead
  | .chunked first, ahead, body =>
    s.literalIndeterminate = true ∧ s.literalPartial = true ∧
      dechunkPartialBody ahead first false [] =
        some (body, s.literalRawPending, s.literalChunkRemaining, s.literalFinalChunk)

/-- `total`, all that has come so far, starts with a header, and with so much of a body. -/
structure HasBody (total : Bytes) (s : Decoded) (header : Bytes) (length : BodyLength)
    (body : Bytes) : Prop where
  header_of : HeaderOf PGP_TAG_LITERAL_DATA header length
  parsed : s.literalHeaderParsed = true
  end_eq : s.literalHeaderEnd = header.length
  freed : ∃ ahead, total = header ++ ahead ∧ s.Freed length ahead body

/-- The fields in front of the content: format, file name and date. -/
def IsFront (front : Bytes) : Prop := front.length = 2 + (front.getD 1 0).toNat + 4

/-- The three states, behind all of `total`. -/
inductive Follows (total : Bytes) (s : Decoded) : Prop
  | waiting (heq : s = { decodedPending := total })
  | header {header body : Bytes} {length : BodyLength} (hbody : HasBody total s header length body)
      (hparsed : s.literalPrefixParsed = false) (hpending : s.decodedPending = header ++ body)
      (hwritten : s.written = [])
  | content {header front body : Bytes} {length : BodyLength}
      (hbody : HasBody total s header length body) (hparsed : s.literalPrefixParsed = true)
      (hfront : IsFront front) (hpending : body = front ++ s.written ++ s.decodedPending)
      (hremaining : ∀ n, length = .definite n →
        front.length + s.written.length + s.contentRemaining = n)

/-- What the chunk walk leaves unread is short, unless the last chunk is at its end. -/
def RawShort (s : Decoded) : Prop :=
  s.literalPartial = true →
    s.literalRawPending.length < 5 ∨ s.literalChunkRemaining = 0 ∧ s.literalFinalChunk = true

variable {total available header body : Bytes} {length : BodyLength} {s s' : Decoded}

theorem dechunk_cases (h : s.dechunk = .ok s') :
    ∃ content raw chunkRemaining finalChunk,
      dechunkPartialBody s.literalRawPending s.literalChunkRemaining s.literalFinalChunk
        s.decodedPending = some (content, raw, chunkRemaining, finalChunk) ∧
      s' = { s with
        decodedPending := content, literalRawPending := raw
        literalChunkRemaining := chunkRemaining, literalFinalChunk := finalChunk } := by
  rw [dechunk] at h
  split at h
  · cases h
  · rename_i content raw chunkRemaining finalChunk hwalk
    exact ⟨content, raw, chunkRemaining, finalChunk, hwalk, (Except.ok.inj h).symm⟩

theorem rawShort_of_chunksEnd
    (h : ChunksEnd s.literalRawPending s.literalChunkRemaining s.literalFinalChunk) :
    RawShort s := by
  intro _
  rcases h with hnil | ⟨hzero, hfinal | hshort⟩
  · left
    rw [hnil]
    norm_num
  · exact Or.inr ⟨hzero, hfinal⟩
  · exact Or.inl hshort

/-- The first part appends to the body and to what is pending alike. -/
theorem takeIn_hasBody (hbody : HasBody total s header length body)
    (h : s.takeIn available = .ok s') :
    ∃ more, HasBody (total ++ available) s' header length (body ++ more) ∧
      s'.decodedPending = s.decodedPending ++ more ∧
      s'.literalPrefixParsed = s.literalPrefixParsed ∧ s'.written = s.written ∧
      s'.contentRemaining = s.contentRemaining := by
  obtain ⟨hheader, hparsed, hend, ahead, rfl, hfreed⟩ := hbody
  rw [takeIn] at h
  cases length with
  | definite n =>
      obtain ⟨hindeterminate, hchunked, hlength, rfl⟩ := hfreed
      rw [if_neg (Bool.eq_false_iff.mp hchunked)] at h
      cases h
      exact ⟨available, ⟨hheader, hparsed, hend, body ++ available, List.append_assoc ..,
        hindeterminate, hchunked, hlength, rfl⟩, rfl, rfl, rfl, rfl⟩
  | indeterminate =>
      obtain ⟨hindeterminate, hchunked, rfl⟩ := hfreed
      rw [if_neg (Bool.eq_false_iff.mp hchunked)] at h
      cases h
      exact ⟨available, ⟨hheader, hparsed, hend, body ++ available, List.append_assoc ..,
        hindeterminate, hchunked, rfl⟩, rfl, rfl, rfl, rfl⟩
  | chunked first =>
      obtain ⟨hindeterminate, hchunked, hwalk⟩ := hfreed
      rw [if_pos hchunked] at h
      obtain ⟨content, raw, chunkRemaining, finalChunk, hnext, rfl⟩ := dechunk_cases h
      obtain ⟨out, hcontent, -, -, -, -, -, hfront⟩ := dechunkPartialBody_some hnext
      obtain ⟨body', hbody', -, -, -, -, hresume, -⟩ := dechunkPartialBody_some hwalk
      have hall := hresume available []
      rw [List.nil_append] at hbody'
      rw [List.nil_append, ← hbody', hfront] at hall
      exact ⟨out, ⟨hheader, hparsed, hend, ahead ++ available, List.append_assoc ..,
        hindeterminate, hchunked, hall⟩, hcontent, rfl, rfl, rfl⟩

theorem takeIn_follows (hfollows : Follows total s) (h : s.takeIn available = .ok s') :
    Follows (total ++ available) s' := by
  cases hfollows with
  | waiting heq =>
      subst heq
      cases h
      exact .waiting rfl
  | header hbody hparsed hpending hwritten =>
      obtain ⟨more, hbody', hpending', hparsed', hwritten', -⟩ := takeIn_hasBody hbody h
      refine .header hbody' (hparsed'.trans hparsed) ?_ (hwritten'.trans hwritten)
      rw [hpending', hpending, List.append_assoc]
  | content hbody hparsed hfront hpending hremaining =>
      obtain ⟨more, hbody', hpending', hparsed', hwritten', hremaining'⟩ := takeIn_hasBody hbody h
      refine .content hbody' (hparsed'.trans hparsed) hfront ?_ ?_
      · rw [hpending', hwritten', hpending, List.append_assoc]
      · rw [hwritten', hremaining']
        exact hremaining

theorem takeIn_length (hshort : RawShort s) (h : s.takeIn available = .ok s') :
    RawShort s' ∧ s'.decodedPending.length ≤ s.decodedPending.length + 5 + available.length := by
  rw [takeIn] at h
  by_cases hchunked : s.literalPartial = true
  · rw [if_pos hchunked] at h
    obtain ⟨content, raw, chunkRemaining, finalChunk, hwalk, rfl⟩ := dechunk_cases h
    obtain ⟨out, rfl, hlength, hend, hfinal, -⟩ := dechunkPartialBody_some hwalk
    refine ⟨rawShort_of_chunksEnd hend, ?_⟩
    simp only [List.length_append] at hlength ⊢
    rcases hshort hchunked with hraw | ⟨hzero, hlast⟩
    · omega
    · rw [hfinal hzero hlast, List.length_nil]
      omega
  · rw [if_neg hchunked] at h
    cases h
    refine ⟨fun htrue => absurd htrue hchunked, ?_⟩
    simp only [List.length_append]
    omega

theorem headD_append {header : Bytes} (h : header ≠ []) (rest : Bytes) :
    (header ++ rest).headD 0 = header.headD 0 := by
  cases header with
  | nil => exact absurd rfl h
  | cons first header => rfl

/-- The second part finds the header. -/
theorem parseHeader_follows (hfollows : Follows total s) (hshort : RawShort s)
    (h : s.parseHeader = .ok s') :
    Follows total s' ∧ RawShort s' ∧ s'.decodedPending.length ≤ s.decodedPending.length ∧
      (s'.literalHeaderParsed = true ∨ s'.decodedPending.length ≤ 512) := by
  rw [parseHeader] at h
  by_cases hparsed : s.literalHeaderParsed = true
  · rw [if_pos hparsed] at h
    cases h
    exact ⟨hfollows, hshort, le_rfl, Or.inl hparsed⟩
  rw [if_neg hparsed] at h
  cases hfollows with
  | header hbody => exact absurd hbody.parsed hparsed
  | content hbody => exact absurd hbody.parsed hparsed
  | waiting heq =>
      subst heq
      dsimp only at h
      cases hread : readPacketHeader total 0 none true with
      | none =>
          rw [hread] at h
          dsimp only at h
          split_ifs at h with hlong
          cases h
          exact ⟨.waiting rfl, hshort, le_rfl, Or.inr (Nat.le_of_not_gt hlong)⟩
      | some literal =>
          obtain ⟨tag, header, length, ahead, hheader, hat, rfl⟩ := HeaderOf.of_read_eq hread
          obtain rfl : total = header ++ ahead := hat.drop_eq
          have hfirst := headD_append hheader.ne_nil ahead
          rw [hread] at h
          dsimp only at h
          rw [Nat.zero_add, List.take_left, List.drop_left, hfirst] at h
          by_cases htag : tag = PGP_TAG_LITERAL_DATA
          · rw [if_neg (not_not.mpr htag)] at h
            subst htag
            cases length with
            | definite n =>
                have hdefinite : isIndeterminate (header.headD 0) = false :=
                  Bool.eq_false_iff.mpr fun h => (nomatch hheader.isIndeterminate_iff.mp h)
                cases h
                exact ⟨.header ⟨hheader, rfl, rfl, ahead, rfl, (Bool.or_false _).trans hdefinite, rfl,
                  rfl, rfl⟩ rfl rfl rfl, (nomatch ·), le_rfl, Or.inl rfl⟩
            | indeterminate =>
                have hindeterminate := hheader.isIndeterminate_iff.mpr rfl
                cases h
                exact ⟨.header ⟨hheader, rfl, rfl, ahead, rfl, (Bool.or_false _).trans hindeterminate,
                  rfl, rfl⟩ rfl rfl rfl, (nomatch ·), le_rfl, Or.inl rfl⟩
            | chunked first =>
                obtain ⟨content, raw, chunkRemaining, finalChunk, hwalk, rfl⟩ := dechunk_cases h
                obtain ⟨out, rfl, hlength, hend, -, -, -, hfront⟩ := dechunkPartialBody_some hwalk
                refine ⟨.header ⟨hheader, rfl, rfl, ahead, rfl, Bool.or_true _, rfl, hfront []⟩ rfl
                  rfl rfl, rawShort_of_chunksEnd hend, ?_, Or.inl rfl⟩
                simp only [List.length_append] at hlength ⊢
                omega
          · rw [if_pos htag] at h
            cases h

/-- The third part drops the fields in front of the content. -/
theorem parsePrefix_follows (hfollows : Follows total s) (hshort : RawShort s)
    (h : s.parsePrefix = .ok s') :
    Follows total s' ∧ RawShort s' ∧ s'.decodedPending.length ≤ s.decodedPending.length ∧
      s'.literalHeaderParsed = s.literalHeaderParsed ∧
      (s'.literalHeaderParsed = true → s'.literalPrefixParsed = false →
        s'.decodedPending.length ≤ 512) := by
  rw [parsePrefix] at h
  cases hfollows with
  | waiting heq =>
      subst heq
      cases h
      exact ⟨.waiting rfl, hshort, le_rfl, rfl, (nomatch ·)⟩
  | content hbody hparsed hfront hpending hremaining =>
      rw [if_pos (Or.inr hparsed)] at h
      cases h
      refine ⟨.content hbody hparsed hfront hpending hremaining, hshort, le_rfl, rfl, ?_⟩
      intro _ hfalse
      rw [hparsed] at hfalse
      cases hfalse
  | @header header body length hbody hparsed hpending hwritten =>
      have hend := hbody.end_eq
      have hsize := hbody.header_of.length_le
      rw [if_neg (by simp [hbody.parsed, hparsed]), hend, hpending] at h
      rw [List.getElem?_append_right (Nat.le_add_right _ _), Nat.add_sub_cancel_left] at h
      cases hname : body[1]? with
      | none =>
          rw [hname] at h
          cases h
          refine ⟨.header hbody hparsed hpending hwritten, hshort, le_rfl, rfl, fun _ _ => ?_⟩
          rw [List.getElem?_eq_none_iff] at hname
          rw [hpending, List.length_append]
          omega
      | some filenameLength =>
          have hbyte := filenameLength.toNat_lt
          rw [hname] at h
          dsimp only at h
          generalize hsum : 2 + filenameLength.toNat + 4 = prefixLength at h
          -- a name that does not fit in the announced body is refused
          by_cases hmisfit : s.literalIndeterminate = false ∧ s.literalBodyLength < prefixLength
          · rw [if_pos hmisfit] at h
            cases h
          rw [if_neg hmisfit, List.length_append] at h
          -- the fields in front of the content are not all there yet
          by_cases hwait : header.length + body.length < header.length + prefixLength
          · rw [if_pos hwait] at h
            cases h
            refine ⟨.header hbody hparsed hpending hwritten, hshort, le_rfl, rfl, fun _ _ => ?_⟩
            rw [hpending, List.length_append]
            omega
          rw [if_neg hwait, List.drop_length_add_append] at h
          cases h
          have hlength : (body.take prefixLength).length = prefixLength := by
            rw [List.length_take]
            omega
          have hfront : IsFront (body.take prefixLength) := by
            rw [IsFront, hlength, List.getD_eq_getElem?_getD, List.getElem?_take_of_lt (by omega),
              hname]
            exact hsum.symm
          refine ⟨.content ⟨hbody.header_of, hbody.parsed, rfl, hbody.freed⟩ rfl hfront ?_ ?_,
            hshort, ?_, rfl, fun _ => (nomatch ·)⟩
          · rw [hwritten, List.append_nil, List.take_append_drop]
          · rintro n rfl
            obtain ⟨ahead, -, hindeterminate, -, hn, -⟩ := hbody.freed
            have hfits : prefixLength ≤ n := hn ▸ not_lt.mp fun h => hmisfit ⟨hindeterminate, h⟩
            dsimp only
            rw [hwritten, hlength, List.length_nil, if_neg (by simp [hindeterminate]), hn]
            omega
          · rw [hpending, List.length_drop, List.length_append]
            omega

/-- The last part writes what is pending of the content. -/
theorem writeContent_follows {env : OutputEnv} (hfollows : Follows total s)
    (hlength : s.decodedPending.length < 2 ^ 32) (h : s.writeContent env = .ok s') :
    Follows total s' ∧ (RawShort s → RawShort s') ∧
      s'.literalHeaderParsed = s.literalHeaderParsed ∧
      s'.literalPrefixParsed = s.literalPrefixParsed ∧
      (s.literalPrefixParsed = false → s' = s) ∧
      (s.literalPrefixParsed = true → s'.decodedPending = []) := by
  rw [writeContent] at h
  cases hfollows with
  | waiting heq =>
      subst heq
      cases h
      exact ⟨.waiting rfl, id, rfl, rfl, fun _ => rfl, (nomatch ·)⟩
  | header hbody hparsed hpending hwritten =>
      rw [if_pos hparsed] at h
      cases h
      refine ⟨.header hbody hparsed hpending hwritten, id, rfl, rfl, fun _ => rfl, fun htrue => ?_⟩
      rw [hparsed] at htrue
      cases htrue
  | @content header front body length hbody hparsed hfront hpending hremaining =>
      rw [if_neg (by simp [hparsed])] at h
      have hfalse : ¬ s.literalPrefixParsed = false := by simp [hparsed]
      -- more is pending than the header announced
      by_cases hmore : s.literalIndeterminate = false ∧
          s.decodedPending.length > s.contentRemaining
      · rw [if_pos hmore] at h
        cases h
      rw [if_neg hmore] at h
      by_cases hnil : s.decodedPending = []
      · rw [if_pos hnil] at h
        cases h
        exact ⟨.content hbody hparsed hfront hpending hremaining, id, rfl, rfl,
          fun h => absurd h hfalse, fun _ => hnil⟩
      rw [if_neg hnil] at h
      dsimp only at h
      -- the cast of the source keeps the length, which is below 2^32
      rw [Nat.mod_eq_of_lt hlength, List.take_length] at h
      by_cases hwrite : env.write s.written s.decodedPending = false
      · rw [if_pos hwrite] at h
        cases h
      rw [if_neg hwrite] at h
      generalize hleft : (if s.literalIndeterminate = true then s.contentRemaining
        else s.contentRemaining - s.decodedPending.length) = contentRemaining at h
      generalize (if s.literalIndeterminate = true then 0 else _) = total at h
      split_ifs at h
      cases h
      refine ⟨.content ⟨hbody.header_of, hbody.parsed, hbody.end_eq, hbody.freed⟩ hparsed hfront ?_ ?_,
        id, rfl, rfl, fun h => absurd h hfalse, fun _ => rfl⟩
      · rw [hpending, List.append_nil, List.append_assoc]
      · rintro n rfl
        obtain ⟨ahead, -, hindeterminate, -⟩ := hbody.freed
        have hsum := hremaining n rfl
        rw [if_neg (by simp [hindeterminate])] at hleft
        have hfits : s.decodedPending.length ≤ s.contentRemaining :=
          not_lt.mp fun h => hmore ⟨hindeterminate, h⟩
        dsimp only
        rw [List.length_append]
        omega

/-! ### The run -/

/-- The state between two pieces: short of the cast, and nothing pending of the content. -/
structure Drained (total : Bytes) (s : Decoded) : Prop where
  follows : Follows total s
  short : RawShort s
  pending_le : s.decodedPending.length ≤ 512
  pending_nil : s.literalPrefixParsed = true → s.decodedPending = []

theorem drained_nil : Drained [] {} :=
  ⟨.waiting rfl, (nomatch ·), Nat.zero_le _, fun _ => rfl⟩

theorem drainDecoded_cases {env : OutputEnv} (h : s.drainDecoded env available = .ok s') :
    ∃ s₁ s₂ s₃, s.takeIn available = .ok s₁ ∧ s₁.parseHeader = .ok s₂ ∧
      s₂.parsePrefix = .ok s₃ ∧ s₃.writeContent env = .ok s' := by
  rw [drainDecoded] at h
  cases h₁ : s.takeIn available with
  | error failure =>
      rw [h₁] at h
      cases h
  | ok s₁ =>
      rw [h₁] at h
      cases h₂ : s₁.parseHeader with
      | error failure =>
          simp only [bind, Except.bind, h₂] at h
          cases h
      | ok s₂ =>
          cases h₃ : s₂.parsePrefix with
          | error failure =>
              simp only [bind, Except.bind, h₂, h₃] at h
              cases h
          | ok s₃ =>
              simp only [bind, Except.bind, h₂, h₃] at h
              exact ⟨s₁, s₂, s₃, rfl, h₂, h₃, h⟩

theorem drainDecoded_drained {env : OutputEnv} (hdrained : Drained total s)
    (havailable : available.length < 2 ^ 31) (h : s.drainDecoded env available = .ok s') :
    Drained (total ++ available) s' := by
  obtain ⟨s₁, s₂, s₃, h₁, h₂, h₃, h₄⟩ := drainDecoded_cases h
  obtain ⟨hfollows, hshort, hpending, -⟩ := hdrained
  obtain ⟨hshort₁, hlength₁⟩ := takeIn_length hshort h₁
  obtain ⟨hfollows₂, hshort₂, hlength₂, hwaits⟩ :=
    parseHeader_follows (takeIn_follows hfollows h₁) hshort₁ h₂
  obtain ⟨hfollows₃, hshort₃, hlength₃, hparsed, hfields⟩ :=
    parsePrefix_follows hfollows₂ hshort₂ h₃
  obtain ⟨hfollows₄, hshort₄, -, hcontent, hsame, hwritten⟩ :=
    writeContent_follows hfollows₃ (by omega) h₄
  refine ⟨hfollows₄, hshort₄ hshort₃, ?_, fun h => hwritten (hcontent ▸ h)⟩
  by_cases hdone : s₃.literalPrefixParsed = true
  · rw [hwritten hdone]
    exact Nat.zero_le _
  · rw [hsame (Bool.eq_false_iff.mpr hdone)]
    by_cases hheader : s₃.literalHeaderParsed = true
    · exact hfields hheader (Bool.eq_false_iff.mpr hdone)
    · exact hlength₃.trans (hwaits.resolve_left (hparsed ▸ hheader))

/-- A literal packet that is complete at the end has been written to its last octet. -/
theorem written_of_complete (hdrained : Drained total s) (hcomplete : s.complete = true) :
    ∃ body, IsPacket PGP_TAG_LITERAL_DATA body total ∧ literalContent body = some s.written := by
  simp only [complete, Bool.and_eq_true, Bool.or_eq_true, beq_iff_eq, Bool.not_eq_true'] at hcomplete
  obtain ⟨⟨hdone, hremains⟩, hchunks⟩ := hcomplete
  cases hdrained.follows with
  | waiting heq =>
      rw [heq] at hdone
      cases hdone
  | header hbody hparsed =>
      rw [hparsed] at hdone
      cases hdone
  | @content header front body length hbody hparsed hfront hpending hremaining =>
      rw [hdrained.pending_nil hdone, List.append_nil] at hpending
      subst hpending
      refine ⟨front ++ s.written, ?_, ?_⟩
      · obtain ⟨hheader, -, -, ahead, rfl, hfreed⟩ := hbody
        refine isPacket_iff.mpr ⟨header, length, ahead, hheader, ?_, rfl⟩
        cases length with
        | definite n =>
            obtain ⟨hindeterminate, -, -, rfl⟩ := hfreed
            have hsum := hremaining n rfl
            have hzero := hremains.resolve_left (by simp [hindeterminate])
            refine ⟨rfl, ?_⟩
            rw [List.length_append]
            omega
        | indeterminate => exact hfreed.2.2.symm
        | chunked first =>
            obtain ⟨-, hchunked, hwalk⟩ := hfreed
            obtain ⟨⟨hfinal, hzero⟩, hraw⟩ := hchunks.resolve_left (by simp [hchunked])
            obtain ⟨out, hout, -, -, -, hcarries, -⟩ := dechunkPartialBody_some hwalk
            have hall := hcarries [] []
            rw [hfinal, hzero, hraw, List.append_nil, List.append_nil, List.append_nil] at hall
            rw [List.nil_append] at hout
            rw [hout]
            exact hall .done
      · rw [IsFront] at hfront
        have hname : (front ++ s.written).getD 1 0 = front.getD 1 0 := by
          rw [List.getD_eq_getElem?_getD, List.getElem?_append_left (by omega),
            List.getD_eq_getElem?_getD]
        rw [literalContent, if_neg (by rw [List.length_append]; omega)]
        dsimp only
        rw [hname, show 1 + 1 + (front.getD 1 0).toNat + 4 = front.length from hfront.symm,
          if_neg (by rw [List.length_append]; omega), List.drop_left]

end Decoded

end HashCryptoLib.Pgp
