import HashCryptoLib.Pgp.Framing

/-!
What the range splice looks at. `reassemblePartialBodyLengthRange` keeps track
of the end of its range, but the header reader it calls is bounded by the whole
buffer only. The splice is therefore confined to its range exactly when no
packet header is cut short by the end of it.
-/

namespace HashCryptoLib.Pgp

open BigEndian Cursor

/-! ### The positions the splice subscripts -/

/-- Positions in a bare length header, by the octets that are there. -/
def decodeNewFormatBodyLengthIndices (header : Bytes) : List ℕ :=
  match header with
  | [] => []
  | first :: _ =>
    if header.length < newFormatBodyLengthHeaderSize first then [0]
    else List.range (newFormatBodyLengthHeaderSize first)

/-- Length octets of an old-format header, by its length type. -/
def oldFormatLengthOctets (lengthType : UInt8) : ℕ :=
  if lengthType = 0 then 1 else if lengthType = 1 then 2 else if lengthType = 2 then 4 else 0

def readPacketHeaderIndices (data : Bytes) (pos : ℕ) : List ℕ :=
  match data[pos]? with
  | none => []
  | some first =>
    if first &&& 0x80 = 0 then [pos]
    else if first &&& 0x40 ≠ 0 then
      pos :: (decodeNewFormatBodyLengthIndices (data.drop (pos + 1))).map (pos + 1 + ·)
    else
      let octets := oldFormatLengthOctets (first &&& 0x03)
      pos :: if pos + 1 + octets ≤ data.length then List.range' (pos + 1) octets else []

def spliceChunksIndices (data : Bytes) (endPos pos chunkLength : ℕ) (moreChunks : Bool) :
    List ℕ :=
  if chunkLength > sizeSub endPos pos then []
  else List.range' pos chunkLength ++
    if moreChunks = false then []
    else if _hend : pos + chunkLength ≥ endPos then []
    else
      let header := (data.drop (pos + chunkLength)).take (endPos - (pos + chunkLength))
      (decodeNewFormatBodyLengthIndices header).map (pos + chunkLength + ·) ++
        match _hdec : decodeNewFormatBodyLength header with
        | none => []
        | some (headerSize, nextLength, nextPartial) =>
          spliceChunksIndices data endPos (pos + chunkLength + headerSize) nextLength nextPartial
termination_by endPos - pos
decreasing_by
  have := headerSize_pos _hdec
  omega

def reassembleLoopIndices (data : Bytes) (endPos pos : ℕ) : List ℕ :=
  if _hpos : pos < endPos then
    readPacketHeaderIndices data pos ++
      match _hhead : readPacketHeader data pos (some endPos) true with
      | none => List.range' pos (endPos - pos)
      | some header =>
        if header.isPartial = false then
          let bodyEnd := if header.bodyLength > sizeSub endPos header.bodyPos then endPos
            else header.bodyPos + header.bodyLength
          List.range' pos (bodyEnd - pos) ++ reassembleLoopIndices data endPos bodyEnd
        else
          spliceChunksIndices data endPos header.bodyPos header.bodyLength true ++
            match _hbody : spliceChunks data endPos header.bodyPos header.bodyLength true [] with
            | .ok (some (_, next)) => reassembleLoopIndices data endPos next
            | _ => []
  else []
termination_by endPos - pos
decreasing_by
  · have := bodyPos_gt _hhead
    split_ifs <;> omega
  · have := bodyPos_gt _hhead
    have := spliceChunks_le _hbody
    omega

/-- Every position of `data` that the call reads, in the order it reads them. -/
def reassemblePartialBodyLengthRangeIndices (data : Bytes) (first last : ℕ) : List ℕ :=
  if first > last ∨ last > data.length then [] else reassembleLoopIndices data last first

/-! ### Headers cut short -/

/-- `data[first, last)`. -/
def window (data : Bytes) (first last : ℕ) : Bytes := (data.drop first).take (last - first)

/-- The octets are the beginning of a packet header, but not all of it. -/
def CutHeader (tail : Bytes) : Prop :=
  (∃ first ∈ tail.head?, first &&& 0x80 ≠ 0) ∧ readPacketHeader tail 0 none true = none

/-- The octets are a sequence of packets and then a header that is cut short. -/
def CutShort (octets : Bytes) : Prop :=
  ∃ packets tail, octets = streamOf packets ++ tail ∧ CutHeader tail

/-- The splice looks at nothing but `data[first, last)`: another buffer with
the same octets there gives the same answer, and it reads nowhere else. -/
def Confined (data : Bytes) (first last : ℕ) : Prop :=
  (∀ other : Bytes, last ≤ other.length → window other first last = window data first last →
    reassemblePartialBodyLengthRange other first last =
      reassemblePartialBodyLengthRange data first last) ∧
  ∀ i ∈ reassemblePartialBodyLengthRangeIndices data first last, first ≤ i ∧ i < last

theorem not_cutShort_nil : ¬ CutShort [] := by
  rintro ⟨packets, tail, hnil, ⟨first, hfirst, -⟩, -⟩
  obtain ⟨-, rfl⟩ := List.append_eq_nil_iff.mp hnil.symm
  simp at hfirst

theorem CutShort.cons {packet : FramedPacket} {octets : Bytes} (h : CutShort octets) :
    CutShort (packet.octets ++ octets) := by
  obtain ⟨packets, tail, rfl, htail⟩ := h
  exact ⟨packet :: packets, tail, by simp [streamOf], htail⟩

theorem CutHeader.cutShort {tail : Bytes} (h : CutHeader tail) : CutShort tail :=
  ⟨[], tail, rfl, h⟩

/-! ### The chunk loop stays in its range -/

theorem decodeIndices_lt {header : Bytes} :
    ∀ i ∈ decodeNewFormatBodyLengthIndices header, i < header.length := by
  intro i hi
  cases header with
  | nil => simp [decodeNewFormatBodyLengthIndices] at hi
  | cons first rest =>
      simp only [decodeNewFormatBodyLengthIndices] at hi
      split_ifs at hi
      · simp at hi
        simp [hi]
      · simp only [List.mem_range] at hi
        omega

theorem sizeSub_add (pos a b : ℕ) : sizeSub (pos + a) (pos + b) = sizeSub a b := by
  simp only [sizeSub, Nat.add_le_add_iff_left]
  split_ifs <;> omega

/-- What is left of a range, behind what stands before it in the buffer. -/
theorem at_drop {data octets after : Bytes} {pos : ℕ} (offset : ℕ)
    (h : At data pos (octets ++ after)) (hle : offset ≤ octets.length) : At data (pos + offset) (octets.drop offset ++ after) := by
  have hat : At data pos (octets.take offset ++ (octets.drop offset ++ after)) := by
    rwa [← List.append_assoc, List.take_append_drop]
  have hnext := hat.advance
  rwa [List.length_take_of_le hle] at hnext

theorem at_take {data octets after : Bytes} {pos : ℕ} (offset length : ℕ)
    (h : At data pos (octets ++ after)) (hle : offset + length ≤ octets.length) :
    At data (pos + offset) ((octets.drop offset).take length ++
      (octets.drop (offset + length) ++ after)) := by
  have hat := at_drop offset h (by omega)
  rwa [← List.take_append_drop length (octets.drop offset), List.append_assoc,
    List.drop_drop] at hat

/-- The octets a chunk header is decoded from end with the range. -/
theorem headerView {data octets after : Bytes} {pos : ℕ} (offset : ℕ)
    (h : At data pos (octets ++ after)) (hle : offset ≤ octets.length) :
    (data.drop (pos + offset)).take (pos + octets.length - (pos + offset)) =
      octets.drop offset := by
  rw [(at_drop offset h hle).drop_eq, Nat.add_sub_add_left, ← List.length_drop, List.take_left]

theorem decode_le {octets : Bytes} {offset headerSize length : ℕ} {more : Bool}
    (hle : offset ≤ octets.length)
    (h : decodeNewFormatBodyLength (octets.drop offset) = some (headerSize, length, more)) :
    offset + headerSize ≤ octets.length := by
  have hsize := (decodeNewFormatBodyLength_mono h []).2
  rw [List.length_drop] at hsize
  omega

section Round

variable {data chunk : Bytes} {endPos pos chunkLength : ℕ}

/-- What a round of the chunk loop returns, and what it reads: nothing, where the chunk does not
lie in the range. -/
theorem splice_tooLong (data : Bytes) (hlong : chunkLength > sizeSub endPos pos)
    (moreChunks : Bool) (body : Bytes) :
    spliceChunks data endPos pos chunkLength moreChunks body = .ok none ∧
      spliceChunksIndices data endPos pos chunkLength moreChunks = [] := by
  rw [spliceChunks, spliceChunksIndices, if_pos hlong, if_pos hlong]
  exact ⟨rfl, rfl⟩

/-- The last chunk is copied. -/
theorem splice_copied (hfits : ¬ chunkLength > sizeSub endPos pos)
    (hcopy : copyRange data pos (pos + chunkLength) = .ok chunk) (body : Bytes) :
    spliceChunks data endPos pos chunkLength false body =
        .ok (some (body ++ chunk, pos + chunkLength)) ∧
      spliceChunksIndices data endPos pos chunkLength false = List.range' pos chunkLength := by
  rw [spliceChunks, spliceChunksIndices, if_neg hfits, if_neg hfits, hcopy]
  simp

/-- Another chunk is copied, and the range ends with it. -/
theorem splice_ended (hfits : ¬ chunkLength > sizeSub endPos pos)
    (hcopy : copyRange data pos (pos + chunkLength) = .ok chunk)
    (hend : pos + chunkLength ≥ endPos) (body : Bytes) :
    spliceChunks data endPos pos chunkLength true body = .ok none ∧
      spliceChunksIndices data endPos pos chunkLength true = List.range' pos chunkLength := by
  rw [spliceChunks, spliceChunksIndices, if_neg hfits, if_neg hfits, hcopy]
  simp only [Bool.true_eq_false, if_false]
  rw [dif_pos hend, dif_pos hend, List.append_nil]
  exact ⟨rfl, rfl⟩

variable {header : Bytes} (hfits : ¬ chunkLength > sizeSub endPos pos)
  (hcopy : copyRange data pos (pos + chunkLength) = .ok chunk) (hend : pos + chunkLength < endPos)
  (hview : (data.drop (pos + chunkLength)).take (endPos - (pos + chunkLength)) = header)

include hfits hcopy hend hview

/-- There is no whole header behind the chunk. -/
theorem splice_headerless (hdec : decodeNewFormatBodyLength header = none) (body : Bytes) :
    spliceChunks data endPos pos chunkLength true body = .ok none ∧
      spliceChunksIndices data endPos pos chunkLength true = List.range' pos chunkLength ++
        (decodeNewFormatBodyLengthIndices header).map (pos + chunkLength + ·) := by
  rw [spliceChunks, spliceChunksIndices, if_neg hfits, if_neg hfits, hcopy]
  simp only [Bool.true_eq_false, if_false]
  rw [dif_neg (by omega), dif_neg (by omega), hview]
  constructor
  · split
    · rfl
    · rename_i hsome
      rw [hdec] at hsome
      cases hsome
  · split
    · rw [List.append_nil]
    · rename_i hsome
      rw [hdec] at hsome
      cases hsome

/-- The loop goes on behind the header. -/
theorem splice_resumed {headerSize nextLength : ℕ} {nextPartial : Bool}
    (hdec : decodeNewFormatBodyLength header = some (headerSize, nextLength, nextPartial))
    (body : Bytes) :
    spliceChunks data endPos pos chunkLength true body =
        spliceChunks data endPos (pos + chunkLength + headerSize) nextLength nextPartial
          (body ++ chunk) ∧
      spliceChunksIndices data endPos pos chunkLength true = List.range' pos chunkLength ++
        ((decodeNewFormatBodyLengthIndices header).map (pos + chunkLength + ·) ++
          spliceChunksIndices data endPos (pos + chunkLength + headerSize) nextLength
            nextPartial) := by
  rw [spliceChunks, spliceChunksIndices, if_neg hfits, if_neg hfits, hcopy]
  simp only [Bool.true_eq_false, if_false]
  rw [dif_neg (by omega), dif_neg (by omega), hview]
  constructor
  · split
    · rename_i hnone
      rw [hdec] at hnone
      cases hnone
    · rename_i hsome
      rw [hdec] at hsome
      cases hsome
      rfl
  · split
    · rename_i hnone
      rw [hdec] at hnone
      cases hnone
    · rename_i hsome
      rw [hdec] at hsome
      cases hsome
      rfl

end Round

section Within

variable {data octets after : Bytes} {pos offset chunkLength : ℕ}

/-- A chunk that lies in the range is copied out of it. -/
theorem copyRange_chunk (h : At data pos (octets ++ after))
    (hle : offset + chunkLength ≤ octets.length) :
    copyRange data (pos + offset) (pos + offset + chunkLength) =
      .ok ((octets.drop offset).take chunkLength) := by
  have hcopied := copyRange_of_at (at_take offset chunkLength h hle)
  rwa [List.length_take_of_le (by rw [List.length_drop]; omega)] at hcopied

theorem chunk_within (pos : ℕ) (hle : offset + chunkLength ≤ octets.length) :
    ∀ i ∈ List.range' (pos + offset) chunkLength, pos ≤ i ∧ i < pos + octets.length := by
  intro i hi
  rw [List.mem_range'_1] at hi
  omega

theorem header_within (pos : ℕ) (hle : offset ≤ octets.length) :
    ∀ i ∈ (decodeNewFormatBodyLengthIndices (octets.drop offset)).map (pos + offset + ·),
      pos ≤ i ∧ i < pos + octets.length := by
  intro i hi
  obtain ⟨j, hj, rfl⟩ := List.mem_map.mp hi
  have hlt := decodeIndices_lt j hj
  rw [List.length_drop] at hlt
  omega

end Within

/-- Inside a range the splice of one packet sees the octets of the range only:
its answer is theirs, whatever stands around them, and it reads nowhere else. -/
theorem spliceChunks_local (octets : Bytes) (offset chunkLength : ℕ) (moreChunks : Bool)
    (body : Bytes) (hle : offset ≤ octets.length) :
    ∃ result : Option (Bytes × ℕ), (∀ r ∈ result, offset ≤ r.2 ∧ r.2 ≤ octets.length) ∧
      ∀ (data after : Bytes) (pos : ℕ), At data pos (octets ++ after) →
        spliceChunks data (pos + octets.length) (pos + offset) chunkLength moreChunks body =
          .ok (result.map fun r => (r.1, pos + r.2)) ∧
        ∀ i ∈ spliceChunksIndices data (pos + octets.length) (pos + offset) chunkLength moreChunks,
          pos ≤ i ∧ i < pos + octets.length := by
  induction hn : octets.length - offset using Nat.strong_induction_on
    generalizing offset chunkLength moreChunks body with
  | _ n ih =>
  by_cases hlong : chunkLength > sizeSub octets.length offset
  · refine ⟨none, by simp, fun data after pos h => ?_⟩
    obtain ⟨hsplice, hindices⟩ := splice_tooLong data
      (sizeSub_add pos octets.length offset ▸ hlong) moreChunks body
    rw [hsplice, hindices]
    exact ⟨rfl, by simp⟩
  have hchunk := hlong
  rw [sizeSub_of_le hle, not_lt] at hchunk
  have hfits : ∀ pos, ¬ chunkLength > sizeSub (pos + octets.length) (pos + offset) :=
    fun pos => sizeSub_add pos octets.length offset ▸ hlong
  cases moreChunks with
  | false =>
      refine ⟨some (body ++ (octets.drop offset).take chunkLength, offset + chunkLength),
        by simp; omega, fun data after pos h => ?_⟩
      obtain ⟨hsplice, hindices⟩ := splice_copied (hfits pos) (copyRange_chunk h (by omega)) body
      rw [hsplice, hindices, Option.map_some, Nat.add_assoc]
      exact ⟨rfl, chunk_within pos (by omega)⟩
  | true =>
      by_cases hend : offset + chunkLength ≥ octets.length
      · refine ⟨none, by simp, fun data after pos h => ?_⟩
        obtain ⟨hsplice, hindices⟩ := splice_ended (hfits pos) (copyRange_chunk h (by omega))
          (by omega) body
        rw [hsplice, hindices]
        exact ⟨rfl, chunk_within pos (by omega)⟩
      -- what the loop sees behind the chunk is the rest of the range
      have hview : ∀ (data after : Bytes) (pos : ℕ), At data pos (octets ++ after) →
          (data.drop (pos + offset + chunkLength)).take
            (pos + octets.length - (pos + offset + chunkLength)) =
            octets.drop (offset + chunkLength) := by
        intro data after pos h
        have hrest := headerView (offset + chunkLength) h (by omega)
        rwa [← Nat.add_assoc] at hrest
      have hheader : ∀ pos, ∀ i ∈ (decodeNewFormatBodyLengthIndices
          (octets.drop (offset + chunkLength))).map (pos + offset + chunkLength + ·),
          pos ≤ i ∧ i < pos + octets.length := by
        intro pos
        have hwithin := @header_within octets (offset + chunkLength) pos (by omega)
        rwa [← Nat.add_assoc] at hwithin
      cases hdec : decodeNewFormatBodyLength (octets.drop (offset + chunkLength)) with
      | none =>
          refine ⟨none, by simp, fun data after pos h => ?_⟩
          obtain ⟨hsplice, hindices⟩ := splice_headerless (hfits pos)
            (copyRange_chunk h (by omega)) (by omega) (hview data after pos h) hdec body
          rw [hsplice, hindices, List.forall_mem_append]
          exact ⟨rfl, chunk_within pos (by omega), hheader pos⟩
      | some header =>
          obtain ⟨headerSize, nextLength, nextPartial⟩ := header
          have hsize := decode_le (by omega) hdec
          have hpos := headerSize_pos hdec
          -- the answer is that of the rest of the range, with this chunk in front
          obtain ⟨result, hresult, hlocal⟩ := ih
            (octets.length - (offset + chunkLength + headerSize)) (by omega)
            (offset + chunkLength + headerSize) nextLength nextPartial
            (body ++ (octets.drop offset).take chunkLength) hsize rfl
          refine ⟨result, fun r hr => ?_, fun data after pos h => ?_⟩
          · have hbounds := hresult r hr
            omega
          obtain ⟨hrest, hnext⟩ := hlocal data after pos h
          rw [← Nat.add_assoc, ← Nat.add_assoc] at hrest hnext
          obtain ⟨hsplice, hindices⟩ := splice_resumed (hfits pos)
            (copyRange_chunk h (by omega)) (by omega) (hview data after pos h) hdec body
          rw [hsplice, hindices, List.forall_mem_append, List.forall_mem_append]
          exact ⟨hrest, chunk_within pos (by omega), hheader pos, hnext⟩

/-! ### What a splice consumed -/

theorem splice_last {octets body body' : Bytes} {offset chunkLength next : ℕ}
    (hle : offset ≤ octets.length)
    (h : spliceChunks octets octets.length offset chunkLength false body = .ok (some (body', next))) :
    offset + chunkLength ≤ octets.length ∧ next = offset + chunkLength := by
  rw [spliceChunks, sizeSub_of_le hle] at h
  by_cases hlong : chunkLength > octets.length - offset
  · rw [if_pos hlong] at h
    simp at h
  · have hat := at_take offset chunkLength (at_whole octets) (by omega)
    have hcopy := copyRange_of_at hat
    rw [if_neg hlong] at h
    rw [Nat.zero_add, List.length_take_of_le (by rw [List.length_drop]; omega)] at hcopy
    rw [hcopy] at h
    simp only [if_true, Except.ok.injEq, Option.some.injEq, Prod.mk.injEq] at h
    exact ⟨by omega, h.2.symm⟩

theorem splice_next {octets body body' : Bytes} {offset chunkLength next : ℕ}
    (hle : offset ≤ octets.length)
    (h : spliceChunks octets octets.length offset chunkLength true body = .ok (some (body', next))) :
    ∃ headerSize nextLength nextPartial, offset + chunkLength + headerSize ≤ octets.length ∧
      0 < headerSize ∧
      decodeNewFormatBodyLength (octets.drop (offset + chunkLength)) =
        some (headerSize, nextLength, nextPartial) ∧
      spliceChunks octets octets.length (offset + chunkLength + headerSize) nextLength nextPartial
        (body ++ (octets.drop offset).take chunkLength) = .ok (some (body', next)) := by
  rw [spliceChunks, sizeSub_of_le hle] at h
  by_cases hlong : chunkLength > octets.length - offset
  · rw [if_pos hlong] at h
    simp at h
  · rw [if_neg hlong] at h
    have hcopy := copyRange_of_at (at_take offset chunkLength (at_whole octets) (by omega))
    have hview := headerView (offset + chunkLength) (at_whole octets) (by omega)
    rw [Nat.zero_add, List.length_take_of_le (by rw [List.length_drop]; omega)] at hcopy
    rw [Nat.zero_add, Nat.zero_add] at hview
    rw [hcopy] at h
    simp only [Bool.true_eq_false, if_false] at h
    by_cases hend : offset + chunkLength ≥ octets.length
    · rw [dif_pos hend] at h
      simp at h
    · rw [dif_neg hend, hview] at h
      split at h
      · simp at h
      · rename_i headerSize nextLength nextPartial hdec
        exact ⟨headerSize, nextLength, nextPartial, decode_le (by omega) hdec, headerSize_pos hdec,
          hdec, h⟩

/-- The octets of a chunk and of the header behind it. -/
theorem drop_chunk {octets : Bytes} {offset chunkLength headerSize : ℕ} (header : Bytes)
    (hheader : octets.drop (offset + chunkLength) =
      header ++ (octets.drop (offset + chunkLength)).drop headerSize) :
    octets.drop offset = (octets.drop offset).take chunkLength ++
      (header ++ octets.drop (offset + chunkLength + headerSize)) := by
  rw [List.drop_drop] at hheader
  conv_lhs => rw [← List.take_append_drop chunkLength (octets.drop offset), List.drop_drop, hheader]

/-- A splice that succeeds consumed the chunks of some body: induction on the
octets that are left, one chunk at a time. -/
theorem chunks_of_splice {octets body' : Bytes} {next : ℕ} (n : ℕ) :
    ∀ {exponent offset : ℕ} {body : Bytes}, octets.length - offset ≤ n → exponent ≤ 30 →
      offset ≤ octets.length →
      spliceChunks octets octets.length offset (2 ^ exponent) true body =
        .ok (some (body', next)) →
      ∃ exponents final content, LegalChunks (exponent :: exponents) final content ∧
        octets.drop offset = content.take (2 ^ exponent) ++
          (chunkOctets exponents final (content.drop (2 ^ exponent)) ++ octets.drop next) := by
  induction n with
  | zero =>
      intro exponent offset body hn hexponent hle h
      obtain ⟨headerSize, -, -, hfits, hpos, -, -⟩ := splice_next hle h
      have hchunk := Nat.two_pow_pos exponent
      omega
  | succ n ih =>
      intro exponent offset body hn hexponent hle h
      obtain ⟨headerSize, nextLength, nextPartial, hfits, hpos, hdec, hrest⟩ := splice_next hle h
      have hchunk : ((octets.drop offset).take (2 ^ exponent)).length = 2 ^ exponent :=
        List.length_take_of_le (by rw [List.length_drop]; omega)
      cases nextPartial with
      | false =>
          obtain ⟨form, hform, rfl, hheader⟩ := octets_of_decode hdec
          obtain ⟨hlast, rfl⟩ := splice_last hfits hrest
          have hfinal : ((octets.drop (offset + 2 ^ exponent + (form.octets nextLength).length)).take
              nextLength).length = nextLength :=
            List.length_take_of_le (by rw [List.length_drop]; omega)
          refine ⟨[], form, (octets.drop offset).take (2 ^ exponent) ++
            (octets.drop (offset + 2 ^ exponent + (form.octets nextLength).length)).take nextLength,
            ⟨hexponent, by rw [List.length_append]; omega, ?_⟩, ?_⟩
          · rw [List.drop_left' hchunk, LegalChunks, hfinal]
            exact hform
          · have hsplit := List.take_append_drop nextLength
              (octets.drop (offset + 2 ^ exponent + (form.octets nextLength).length))
            rw [List.drop_drop] at hsplit
            rw [List.take_left' hchunk, List.drop_left' hchunk, chunkOctets, hfinal,
              List.append_assoc, hsplit]
            exact drop_chunk _ hheader
      | true =>
          obtain ⟨nextExponent, hnext, rfl, rfl, hheader⟩ := partial_of_decode hdec
          obtain ⟨exponents, final, content, hlegal, hoctets⟩ := ih (by omega) hnext hfits hrest
          refine ⟨nextExponent :: exponents, final, (octets.drop offset).take (2 ^ exponent) ++ content,
            ⟨hexponent, by rw [List.length_append]; omega, ?_⟩, ?_⟩
          · rw [List.drop_left' hchunk]
            exact hlegal
          · rw [List.take_left' hchunk, List.drop_left' hchunk, chunkOctets, List.cons_append,
              List.append_assoc, ← hoctets]
            exact drop_chunk [UInt8.ofNat (224 + nextExponent)] hheader

/-! ### The header at a position of the range -/

/-- What the header reader finds at the beginning of some octets, whatever
stands around them: no header, the header of a definite body, which is a packet
when its body ends before the octets do, or the header of a first chunk. -/
inductive LocalHeader (octets : Bytes) : Prop
  | notHeader
      (hread : ∀ (data after : Bytes) (pos : ℕ), At data pos (octets ++ after) →
        readPacketHeader data pos (some (pos + octets.length)) true = none)
  | definite (tag : UInt8) (headerLength bodyLength : ℕ)
      (hle : headerLength ≤ octets.length)
      (hread : ∀ (data after : Bytes) (pos : ℕ), At data pos (octets ++ after) →
        readPacketHeader data pos (some (pos + octets.length)) true =
          some ⟨tag, bodyLength, pos + headerLength, false⟩)
      (hpacket : headerLength + bodyLength < octets.length → ∃ packet : FramedPacket,
        octets = packet.octets ++ octets.drop (headerLength + bodyLength))
  | chunked (tag : UInt8) (exponent : ℕ) (rest : Bytes) (htag : tag < 64)
      (hexponent : exponent ≤ 30)
      (hoctets : octets = (0xC0 ||| tag) :: UInt8.ofNat (224 + exponent) :: rest)

theorem readOctets_mono {more octets : Bytes} {n : ℕ} (h : readOctets more 0 n = some octets)
    (rest : Bytes) : readOctets (more ++ rest) 0 n = some octets ∧ n ≤ more.length ∧
      octets = more.take n := by
  rw [readOctets] at h
  split_ifs at h with hle
  rw [List.drop_zero, Option.some.injEq] at h
  rw [readOctets, if_pos (by rw [List.length_append]; omega), List.drop_zero,
    List.take_append_of_le_length (by omega)]
  exact ⟨congrArg some h, by omega, h.symm⟩

/-- Unless the octets end inside a header, what the reader finds is theirs. -/
theorem localHeader {octets : Bytes} (hne : octets ≠ []) (hcut : ¬ CutHeader octets) :
    LocalHeader octets := by
  cases octets with
  | nil => exact absurd rfl hne
  | cons first more =>
    have hself : At (first :: more) 0 (first :: more) := at_zero _
    by_cases h80 : first &&& 0x80 = 0
    · refine .notHeader fun data after pos h => ?_
      simp [readPacketHeader, h.head, h80]
    by_cases h40 : first &&& 0x40 = 0
    -- the three old formats with a length differ in the number of its octets only
    · have hold : ∀ form : OldLength, first &&& 0x03 = form.lengthType →
          LocalHeader (first :: more) := by
        intro form htype
        have hread := fun (data after : Bytes) pos (h : At data pos ((first :: more) ++ after)) =>
          readPacketHeader_old h h80 h40 htype (some (pos + (first :: more).length)) true
        cases hoctets : readOctets more 0 form.size with
        | none =>
            refine absurd ⟨⟨first, rfl, h80⟩, ?_⟩ hcut
            rw [readPacketHeader_old hself h80 h40 htype, hoctets]
            rfl
        | some octets =>
            obtain ⟨htag, hfirst⟩ := oldFormat_of_octet form first h80 h40 htype
            obtain ⟨-, hsize, htake⟩ := readOctets_mono hoctets []
            have hlen : octets.length = form.size := by
              rw [htake, List.length_take]
              omega
            have hbound := ofOctets_lt octets
            have hback := toOctets_ofOctets octets
            rw [hlen] at hbound hback
            refine .definite ((first >>> 2) &&& 0x0F) (1 + form.size) (ofOctets octets)
              (by rw [List.length_cons]; omega) (fun data after pos h => ?_) (fun hfits => ?_)
            · rw [hread data after pos h, List.append_eq, (readOctets_mono hoctets after).1, Option.map_some,
                Nat.add_assoc]
            · rw [List.length_cons] at hfits
              have hbody : ((more.drop form.size).take (ofOctets octets)).length =
                  ofOctets octets := List.length_take_of_le (by rw [List.length_drop]; omega)
              refine ⟨⟨(first >>> 2) &&& 0x0F, (more.drop form.size).take (ofOctets octets),
                .oldFormat form, htag, by rw [hbody]; exact hbound⟩, ?_⟩
              simp only [FramedPacket.octets, hbody, hfirst, hback]
              rw [show 1 + form.size + ofOctets octets = form.size + ofOctets octets + 1 by omega,
                List.drop_succ_cons, List.cons_append, List.append_assoc, ← List.drop_drop,
                List.take_append_drop, htake, List.take_append_drop]
      rcases lengthType_cases first with htype | htype | htype | htype
      · exact hold .oneOctet htype
      · exact hold .twoOctets htype
      · exact hold .fourOctets htype
      -- an indeterminate length takes what the caller's limit leaves
      · refine .definite ((first >>> 2) &&& 0x0F) 1 more.length (by simp)
          (fun data after pos h => ?_) (fun hfits => ?_)
        · rw [readPacketHeader_indeterminate h h80 h40 htype (by simp), List.length_cons]
          congr 3
          omega
        · rw [List.length_cons] at hfits
          omega
    · obtain ⟨htag, hfirst⟩ := newFormat_of_octet first h80 h40
      cases hdec : decodeNewFormatBodyLength more with
      | none =>
          refine absurd ⟨⟨first, rfl, h80⟩, ?_⟩ hcut
          rw [readPacketHeader_new hself h80 h40, hdec]
          rfl
      | some length =>
          obtain ⟨headerSize, bodyLength, morePartial⟩ := length
          have hsize := (decodeNewFormatBodyLength_mono hdec []).2
          cases morePartial with
          | true =>
              obtain ⟨exponent, hexponent, -, -, hmore⟩ := partial_of_decode hdec
              refine .chunked (first &&& 0x3F) exponent (more.drop 1) htag hexponent ?_
              rw [hfirst, ← hmore]
          | false =>
              obtain ⟨form, hform, hlen, hmore⟩ := octets_of_decode hdec
              refine .definite (first &&& 0x3F) (1 + headerSize) bodyLength
                (by rw [List.length_cons]; omega) (fun data after pos h => ?_) (fun hfits => ?_)
              · rw [readPacketHeader_new h h80 h40, List.append_eq, (decodeNewFormatBodyLength_mono hdec after).1,
                  Option.map_some, Nat.add_assoc]
              · rw [List.length_cons] at hfits
                have hbody : ((more.drop headerSize).take bodyLength).length = bodyLength :=
                  List.length_take_of_le (by rw [List.length_drop]; omega)
                refine ⟨⟨first &&& 0x3F, (more.drop headerSize).take bodyLength, .newFormat form,
                  htag, by rw [hbody]; exact hform⟩, ?_⟩
                simp only [FramedPacket.octets, hbody, hfirst]
                rw [show 1 + headerSize + bodyLength = headerSize + bodyLength + 1 by omega,
                  List.drop_succ_cons, List.cons_append, List.append_assoc, ← List.drop_drop,
                  List.take_append_drop, ← hmore]

theorem decodeIndices_of_decode {header : Bytes} {headerSize length : ℕ} {more : Bool}
    (h : decodeNewFormatBodyLength header = some (headerSize, length, more)) (rest : Bytes) :
    ∀ i ∈ decodeNewFormatBodyLengthIndices (header ++ rest), i < headerSize := by
  intro i hi
  have hpos := headerSize_pos h
  cases header with
  | nil => simp [decodeNewFormatBodyLength] at h
  | cons first tail =>
      have hsize := headerSize_eq h
      simp only [List.cons_append, decodeNewFormatBodyLengthIndices] at hi
      split_ifs at hi
      · rw [List.mem_singleton] at hi
        omega
      · rw [List.mem_range] at hi
        omega

theorem oldFormatLengthOctets_le {more : Bytes} {first : UInt8} (h80 : ¬ first &&& 0x80 = 0)
    (h40 : first &&& 0x40 = 0) (hcut : ¬ CutHeader (first :: more)) :
    oldFormatLengthOctets (first &&& 0x03) ≤ more.length := by
  have hold : ∀ form : OldLength, first &&& 0x03 = form.lengthType →
      oldFormatLengthOctets (first &&& 0x03) ≤ more.length := by
    intro form htype
    have hsize : oldFormatLengthOctets form.lengthType = form.size := by cases form <;> rfl
    rw [htype, hsize]
    cases hoctets : readOctets more 0 form.size with
    | none =>
        refine absurd ⟨⟨first, rfl, h80⟩, ?_⟩ hcut
        rw [readPacketHeader_old (at_zero _) h80 h40 htype, hoctets]
        rfl
    | some octets => exact (readOctets_mono hoctets []).2.1
  rcases lengthType_cases first with htype | htype | htype | htype
  · exact hold .oneOctet htype
  · exact hold .twoOctets htype
  · exact hold .fourOctets htype
  · rw [htype]
    exact Nat.zero_le _

/-- Unless the octets end inside a header, the header reader reads nowhere else. -/
theorem readPacketHeaderIndices_local {data octets after : Bytes} {pos : ℕ} (hne : octets ≠ [])
    (hcut : ¬ CutHeader octets) (h : At data pos (octets ++ after)) :
    ∀ i ∈ readPacketHeaderIndices data pos, pos ≤ i ∧ i < pos + octets.length := by
  cases octets with
  | nil => exact absurd rfl hne
  | cons first more =>
    have hself : At (first :: more) 0 (first :: more) := at_zero _
    have hlength := h.length_eq
    rw [List.length_append, List.length_cons] at hlength
    rw [List.length_cons]
    intro i hi
    simp only [readPacketHeaderIndices, h.head] at hi
    by_cases h80 : first &&& 0x80 = 0
    · rw [if_pos h80, List.mem_singleton] at hi
      omega
    rw [if_neg h80] at hi
    by_cases h40 : first &&& 0x40 = 0
    · rw [if_neg (not_not.mpr h40), List.mem_cons] at hi
      have hold : oldFormatLengthOctets (first &&& 0x03) ≤ more.length :=
        oldFormatLengthOctets_le h80 h40 hcut
      rcases hi with rfl | hi
      · omega
      · split_ifs at hi
        · rw [List.mem_range'_1] at hi
          omega
        · simp at hi
    · rw [if_pos h40, h.next.drop_eq, List.mem_cons, List.append_eq] at hi
      cases hdec : decodeNewFormatBodyLength more with
      | none =>
          refine absurd ⟨⟨first, rfl, h80⟩, ?_⟩ hcut
          rw [readPacketHeader_new hself h80 h40, hdec]
          rfl
      | some length =>
          have hsize := (decodeNewFormatBodyLength_mono hdec []).2
          rcases hi with rfl | hi
          · omega
          · obtain ⟨j, hj, rfl⟩ := List.mem_map.mp hi
            have hlt := decodeIndices_of_decode hdec after j hj
            omega

/-! ### The packet loop stays in its range -/

theorem reassembleLoopIndices_notHeader {data : Bytes} {endPos pos : ℕ} (hpos : pos < endPos)
    (hread : readPacketHeader data pos (some endPos) true = none) :
    reassembleLoopIndices data endPos pos =
      readPacketHeaderIndices data pos ++ List.range' pos (endPos - pos) := by
  rw [reassembleLoopIndices, dif_pos hpos]
  split
  · rfl
  · rename_i hsome
    rw [hread] at hsome
    cases hsome

theorem reassembleLoopIndices_whole {data : Bytes} {endPos pos bodyLength bodyPos : ℕ}
    {tag : UInt8} (bodyEnd : ℕ) (hpos : pos < endPos)
    (hread : readPacketHeader data pos (some endPos) true = some ⟨tag, bodyLength, bodyPos, false⟩)
    (hend : (if bodyLength > sizeSub endPos bodyPos then endPos else bodyPos + bodyLength) =
      bodyEnd) :
    reassembleLoopIndices data endPos pos = readPacketHeaderIndices data pos ++
      (List.range' pos (bodyEnd - pos) ++ reassembleLoopIndices data endPos bodyEnd) := by
  rw [reassembleLoopIndices, dif_pos hpos]
  split
  · rename_i hnone
    rw [hread] at hnone
    cases hnone
  · rename_i hsome
    rw [hread] at hsome
    cases hsome
    simp only [if_true, hend]

/-- The positions a round at a first chunk reads: header, chunks, and what
follows when the chunks were put together. -/
theorem mem_reassembleLoopIndices_chunked {data : Bytes} {endPos pos bodyLength bodyPos i : ℕ}
    {tag : UInt8} (hpos : pos < endPos)
    (hread : readPacketHeader data pos (some endPos) true = some ⟨tag, bodyLength, bodyPos, true⟩)
    (hi : i ∈ reassembleLoopIndices data endPos pos) :
    i ∈ readPacketHeaderIndices data pos ∨
      i ∈ spliceChunksIndices data endPos bodyPos bodyLength true ∨
      ∃ body next, spliceChunks data endPos bodyPos bodyLength true [] = .ok (some (body, next)) ∧
        i ∈ reassembleLoopIndices data endPos next := by
  rw [reassembleLoopIndices, dif_pos hpos, List.mem_append] at hi
  refine hi.imp_right fun hi => ?_
  split at hi
  · rename_i hnone
    rw [hread] at hnone
    cases hnone
  · rename_i hsome
    rw [hread] at hsome
    cases hsome
    simp only [Bool.true_eq_false, if_false, List.mem_append] at hi
    refine hi.imp_right fun hi => ?_
    split at hi
    · rename_i body next hspliced
      exact ⟨body, next, hspliced, hi⟩
    · simp at hi

/-- The end of a definite body, kept inside the range. -/
theorem bodyEnd_add (pos bodyLength : ℕ) {length headerLength : ℕ} (hle : headerLength ≤ length) :
    (if bodyLength > sizeSub (pos + length) (pos + headerLength) then pos + length
      else pos + headerLength + bodyLength) = pos + min length (headerLength + bodyLength) := by
  rw [sizeSub_add, sizeSub_of_le hle]
  split_ifs <;> omega

/-- The octets behind a packet are not cut short unless all of them are. -/
theorem not_cutShort_drop {octets : Bytes} {k : ℕ} (hcut : ¬ CutShort octets)
    (hpacket : k < octets.length → ∃ packet : FramedPacket,
      octets = packet.octets ++ octets.drop k) : ¬ CutShort (octets.drop k) := by
  intro hrest
  by_cases hk : k < octets.length
  · obtain ⟨packet, hoctets⟩ := hpacket hk
    apply hcut
    rw [hoctets]
    exact hrest.cons
  · rw [List.drop_eq_nil_of_le (by omega)] at hrest
    exact not_cutShort_nil hrest

/-- A packet whose chunks a splice put together. -/
theorem packet_of_chunks {tag : UInt8} {exponent next : ℕ} {rest body : Bytes} (htag : tag < 64)
    (hexponent : exponent ≤ 30)
    (h : spliceChunks ((0xC0 ||| tag) :: UInt8.ofNat (224 + exponent) :: rest)
      (rest.length + 2) 2 (2 ^ exponent) true [] = .ok (some (body, next))) :
    ∃ packet : FramedPacket, (0xC0 ||| tag) :: UInt8.ofNat (224 + exponent) :: rest =
      packet.octets ++ ((0xC0 ||| tag) :: UInt8.ofNat (224 + exponent) :: rest).drop next := by
  obtain ⟨exponents, final, content, hlegal, hoctets⟩ := chunks_of_splice _ le_rfl hexponent
    (by simp) h
  refine ⟨⟨tag, content, .partialBody (exponent :: exponents) final, htag, by simp, hlegal⟩, ?_⟩
  simp only [List.drop_succ_cons, List.drop_zero] at hoctets
  simp only [FramedPacket.octets, chunkOctets, List.cons_append, List.append_assoc, ← hoctets]

/-- Behind `k` of the octets of a range the packet loop sees these octets only: its answer is theirs,
whatever stands around them, and it reads nowhere else. -/
def LoopLocal (octets : Bytes) (k : ℕ) (out : Bytes) (rewroteAny : Bool) : Prop :=
  ∃ result : Option Bytes, ∀ (data after : Bytes) (pos : ℕ), At data pos (octets ++ after) →
    reassembleLoop data (pos + octets.length) (pos + k) out rewroteAny = .ok result ∧
      ∀ i ∈ reassembleLoopIndices data (pos + octets.length) (pos + k),
        pos ≤ i ∧ i < pos + octets.length

section Local

variable {octets out : Bytes} {rewroteAny : Bool}

/-- The rest of a range is a range of its own. -/
theorem LoopLocal.behind {k : ℕ} (hle : k ≤ octets.length)
    (h : LoopLocal (octets.drop k) 0 out rewroteAny) : LoopLocal octets k out rewroteAny := by
  obtain ⟨result, hlocal⟩ := h
  have hlen : (octets.drop k).length = octets.length - k := List.length_drop
  refine ⟨result, fun data after pos h => ?_⟩
  have hat := hlocal data after (pos + k) (at_drop k h hle)
  rw [show pos + k + (octets.drop k).length = pos + octets.length by omega] at hat
  exact ⟨hat.1, fun i hi => by have := hat.2 i hi; omega⟩

theorem loopLocal_nil (out : Bytes) (rewroteAny : Bool) : LoopLocal [] 0 out rewroteAny := by
  refine ⟨if rewroteAny then some out else none, fun data after pos h => ?_⟩
  rw [reassembleLoop, reassembleLoopIndices, dif_neg (by simp), dif_neg (by simp)]
  exact ⟨rfl, by simp⟩

/-- Octets that are no header are copied to the end of the range. -/
theorem loopLocal_notHeader (hne : octets ≠ []) (hcut : ¬ CutHeader octets)
    (hread : ∀ (data after : Bytes) (pos : ℕ), At data pos (octets ++ after) →
      readPacketHeader data pos (some (pos + octets.length)) true = none) :
    LoopLocal octets 0 out rewroteAny := by
  have hlong : 0 < octets.length := List.length_pos_iff.mpr hne
  refine ⟨if rewroteAny then some (out ++ octets) else none, fun data after pos h => ?_⟩
  have hindices := readPacketHeaderIndices_local hne hcut h
  have hnone := hread data after pos h
  rw [Nat.add_zero]
  constructor
  · rw [reassembleLoop_notHeader (by omega) hnone, copyRange_of_at h]
    rfl
  · rw [reassembleLoopIndices_notHeader (by omega) hnone, List.forall_mem_append]
    refine ⟨hindices, fun i hi => ?_⟩
    rw [List.mem_range'_1] at hi
    omega

/-- A packet of definite length is copied, or what there is of it. -/
theorem loopLocal_definite {tag : UInt8} {headerLength bodyLength k : ℕ} (hne : octets ≠ [])
    (hcut : ¬ CutHeader octets) (hle : headerLength ≤ octets.length)
    (hread : ∀ (data after : Bytes) (pos : ℕ), At data pos (octets ++ after) →
      readPacketHeader data pos (some (pos + octets.length)) true =
        some ⟨tag, bodyLength, pos + headerLength, false⟩)
    (hk : k = min octets.length (headerLength + bodyLength))
    (hrest : LoopLocal octets k (out ++ octets.take k) rewroteAny) :
    LoopLocal octets 0 out rewroteAny := by
  have hlong : 0 < octets.length := List.length_pos_iff.mpr hne
  obtain ⟨result, hlocal⟩ := hrest
  refine ⟨result, fun data after pos h => ?_⟩
  have hindices := readPacketHeaderIndices_local hne hcut h
  have hsome := hread data after pos h
  have hcopy := copyRange_of_at (at_take 0 k h (by omega))
  rw [Nat.add_zero, List.drop_zero, List.length_take_of_le (by omega)] at hcopy
  have hend := bodyEnd_add pos bodyLength hle
  rw [← hk] at hend
  obtain ⟨hloop, hmore⟩ := hlocal data after pos h
  rw [Nat.add_zero]
  constructor
  · rw [reassembleLoop_whole _ (by omega) hsome hend hcopy]
    exact hloop
  · rw [reassembleLoopIndices_whole _ (by omega) hsome hend, List.forall_mem_append,
      List.forall_mem_append]
    refine ⟨hindices, fun i hi => ?_, hmore⟩
    rw [List.mem_range'_1] at hi
    omega

/-- A packet in chunks is spliced, as far as its chunks can be put together. -/
theorem loopLocal_chunked {tag : UInt8} {exponent : ℕ} {rest : Bytes} (htag : tag < 64)
    (hexponent : exponent ≤ 30)
    (hoctets : octets = (0xC0 ||| tag) :: UInt8.ofNat (224 + exponent) :: rest)
    (hcut : ¬ CutHeader octets)
    (hrest : ∀ body next, spliceChunks octets octets.length 2 (2 ^ exponent) true [] =
      .ok (some (body, next)) → 2 ≤ next → next ≤ octets.length →
        LoopLocal octets next (out ++ writePacket tag body) true) :
    LoopLocal octets 0 out rewroteAny := by
  have htwo : octets.length = rest.length + 2 := by
    rw [hoctets]
    simp
  have hne : octets ≠ [] := List.ne_nil_of_length_pos (by omega)
  have hread : ∀ (data after : Bytes) (pos : ℕ), At data pos (octets ++ after) →
      readPacketHeader data pos (some (pos + octets.length)) true =
        some ⟨tag, 2 ^ exponent, pos + 2, true⟩ := by
    intro data after pos h
    rw [hoctets] at h
    exact readPacketHeader_partialChunk htag hexponent h _
  obtain ⟨splice, hbounds, hsplice⟩ :=
    spliceChunks_local octets 2 (2 ^ exponent) true [] (by omega)
  cases splice with
  | none =>
      refine ⟨none, fun data after pos h => ?_⟩
      have hindices := readPacketHeaderIndices_local hne hcut h
      have hsome := hread data after pos h
      obtain ⟨hnone, hchunks⟩ := hsplice data after pos h
      rw [Option.map_none] at hnone
      refine ⟨reassembleLoop_unspliced (by omega) hsome hnone _ _, fun i hi => ?_⟩
      rcases mem_reassembleLoopIndices_chunked (by omega) hsome hi with
        hi | hi | ⟨body, next, hspliced, -⟩
      · exact hindices i hi
      · exact hchunks i hi
      · rw [Nat.add_zero, hnone] at hspliced
        cases hspliced
  | some spliced =>
      obtain ⟨body, next⟩ := spliced
      obtain ⟨hbegin, hend⟩ := hbounds _ rfl
      have hself := (hsplice (octets ++ []) [] 0 (at_zero _)).1
      rw [List.append_nil, Nat.zero_add, Nat.zero_add, Option.map_some, Nat.zero_add] at hself
      obtain ⟨result, hlocal⟩ := hrest body next hself hbegin hend
      refine ⟨result, fun data after pos h => ?_⟩
      have hindices := readPacketHeaderIndices_local hne hcut h
      have hsome := hread data after pos h
      obtain ⟨hspliced, hchunks⟩ := hsplice data after pos h
      rw [Option.map_some] at hspliced
      obtain ⟨hloop, hmore⟩ := hlocal data after pos h
      refine ⟨?_, fun i hi => ?_⟩
      · rw [Nat.add_zero, reassembleLoop_spliced (by omega) hsome hspliced]
        exact hloop
      · rcases mem_reassembleLoopIndices_chunked (by omega) hsome hi with
          hi | hi | ⟨body', next', hother, hi⟩
        · exact hindices i hi
        · exact hchunks i hi
        · rw [Nat.add_zero, hspliced] at hother
          cases hother
          exact hmore i hi

end Local

/-- Unless the range ends inside a header, the splice sees the octets of the
range only: its answer is theirs, whatever stands around them. The induction is
on the octets that are left, one packet at a time. -/
theorem reassembleLoop_local (n : ℕ) :
    ∀ (octets out : Bytes) (rewroteAny : Bool), octets.length ≤ n → ¬ CutShort octets →
      LoopLocal octets 0 out rewroteAny := by
  induction n with
  | zero =>
      intro octets out rewroteAny hn hcut
      obtain rfl := List.length_eq_zero_iff.mp (Nat.le_zero.mp hn)
      exact loopLocal_nil out rewroteAny
  | succ n ih =>
      intro octets out rewroteAny hn hcut
      by_cases hne : octets = []
      · subst hne
        exact loopLocal_nil out rewroteAny
      have hheader : ¬ CutHeader octets := fun hhead => hcut hhead.cutShort
      -- behind `k` octets of the range the rest of it is a range of its own
      have hnext : ∀ (k : ℕ) (out : Bytes) (rewroteAny : Bool), 0 < k → k ≤ octets.length →
          ¬ CutShort (octets.drop k) → LoopLocal octets k out rewroteAny := by
        intro k out rewroteAny hpos hle hrest
        have hlen : (octets.drop k).length = octets.length - k := List.length_drop
        exact (ih (octets.drop k) out rewroteAny (by omega) hrest).behind hle
      cases localHeader hne hheader with
      | notHeader hread => exact loopLocal_notHeader hne hheader hread
      | definite tag headerLength bodyLength hle hread hpacket =>
          have hlong : 0 < octets.length := List.length_pos_iff.mpr hne
          have hbegin : 0 < headerLength := by
            have hgt := bodyPos_gt (hread (octets ++ []) [] 0 (at_zero _))
            simpa using hgt
          obtain ⟨k, hk⟩ : ∃ k, k = min octets.length (headerLength + bodyLength) := ⟨_, rfl⟩
          have hrest : ¬ CutShort (octets.drop k) := by
            apply not_cutShort_drop hcut
            intro hlt
            rw [hk, Nat.min_eq_right (by omega)]
            exact hpacket (by omega)
          exact loopLocal_definite hne hheader hle hread hk
            (hnext k _ rewroteAny (by omega) (by omega) hrest)
      | chunked tag exponent rest htag hexponent hoctets =>
          refine loopLocal_chunked htag hexponent hoctets hheader
            fun body next hspliced htwo hle => ?_
          have hrest : ¬ CutShort (octets.drop next) := by
            apply not_cutShort_drop hcut
            intro _
            rw [hoctets] at hspliced ⊢
            exact packet_of_chunks htag hexponent hspliced
          exact hnext next _ true (by omega) hle hrest

/-! ### A header that straddles the end of the range -/

theorem CutHeader.cases {tail : Bytes} (h : CutHeader tail) :
    ∃ first more, tail = first :: more ∧ first &&& 0x80 ≠ 0 ∧
      ((first &&& 0x40 ≠ 0 ∧ decodeNewFormatBodyLength more = none) ∨
        (first &&& 0x40 = 0 ∧ ∃ form : OldLength, first &&& 0x03 = form.lengthType ∧
          readOctets more 0 form.size = none)) := by
  obtain ⟨⟨first, hfirst, h80⟩, hread⟩ := h
  cases tail with
  | nil => simp at hfirst
  | cons first' more =>
      obtain rfl : first' = first := by simpa using hfirst
      have hself : At (first' :: more) 0 (first' :: more) := at_zero _
      refine ⟨first', more, rfl, h80, ?_⟩
      by_cases h40 : first' &&& 0x40 = 0
      · right
        have hold : ∀ form : OldLength, first' &&& 0x03 = form.lengthType →
            readOctets more 0 form.size = none := by
          intro form htype
          rw [readPacketHeader_old hself h80 h40 htype] at hread
          exact Option.map_eq_none_iff.mp hread
        refine ⟨h40, ?_⟩
        rcases lengthType_cases first' with htype | htype | htype | htype
        · exact ⟨.oneOctet, htype, hold _ htype⟩
        · exact ⟨.twoOctets, htype, hold _ htype⟩
        · exact ⟨.fourOctets, htype, hold _ htype⟩
        · simp [readPacketHeader, h80, h40, htype] at hread
      · left
        rw [readPacketHeader_new hself h80 h40] at hread
        exact ⟨h40, Option.map_eq_none_iff.mp hread⟩

/-- Where the buffer ends with the range, a header cut short is not read. -/
theorem CutHeader.unread {tail data : Bytes} {pos : ℕ} (h : CutHeader tail)
    (hat : At data pos tail) (dataEnd : Option ℕ) : readPacketHeader data pos dataEnd true = none := by
  obtain ⟨first, more, rfl, h80, ⟨h40, hdec⟩ | ⟨h40, form, htype, hoctets⟩⟩ := h.cases
  · rw [readPacketHeader_new hat h80 h40, hdec]
    rfl
  · rw [readPacketHeader_old hat h80 h40 htype, hoctets]
    rfl

/-- Octets that complete a number of `n` octets, so that it is not zero. -/
theorem complete_octets {xs : Bytes} {n : ℕ} (h : readOctets xs 0 n = none) :
    ∃ ext, (xs ++ ext).length = n ∧ readOctets (xs ++ ext) 0 n = some (xs ++ ext) ∧
      0 < ofOctets (xs ++ ext) := by
  have hlen : xs.length < n := by
    rw [readOctets] at h
    split_ifs at h
    omega
  have hall : (xs ++ (List.replicate (n - 1 - xs.length) 0 ++ [0xFF])).length = n := by
    simp only [List.length_append, List.length_replicate, List.length_singleton]
    omega
  refine ⟨List.replicate (n - 1 - xs.length) 0 ++ [0xFF], hall, ?_, ?_⟩
  · rw [readOctets, if_pos (by omega), List.drop_zero, List.take_of_length_le (by omega)]
  · rw [← List.append_assoc, ofOctets_append_singleton]
    exact Nat.add_pos_right _ (by decide)

/-- Octets that complete a length, so that it is not zero. -/
theorem complete_length {more : Bytes} (h : decodeNewFormatBodyLength more = none) :
    ∃ ext length, decodeNewFormatBodyLength (more ++ ext) =
        some ((more ++ ext).length, length, false) ∧
      more.length < (more ++ ext).length ∧ (more ++ ext).length ≤ 5 ∧ 0 < length ∧
      length < 2 ^ 32 := by
  cases more with
  | nil => exact ⟨[191], 191, by decide, by decide, by decide, by decide, by decide⟩
  | cons lenFirst rest =>
      have hbyte := lenFirst.toNat_lt
      simp only [decodeNewFormatBodyLength, UInt8.lt_iff_toNat_lt, UInt8.reduceToNat] at h
      split_ifs at h with h192 h224 h255
      · have hrest : rest = [] := by simpa using h
        subst hrest
        refine ⟨[0], (lenFirst.toNat - 192) * 256 + 192, ?_, by simp, by simp, by omega, by omega⟩
        simp [decodeNewFormatBodyLength, UInt8.lt_iff_toNat_lt, h192, h224]
      · obtain ⟨ext, hlen, hread, hpos⟩ := complete_octets (Option.map_eq_none_iff.mp h)
        have hlt := ofOctets_lt (rest ++ ext)
        rw [hlen] at hlt
        have hshort : rest.length < 4 := by
          have hnone := Option.map_eq_none_iff.mp h
          rw [readOctets] at hnone
          split_ifs at hnone
          omega
        refine ⟨ext, ofOctets (rest ++ ext), ?_, ?_, ?_, hpos, hlt⟩
        · simp only [List.cons_append, decodeNewFormatBodyLength, UInt8.lt_iff_toNat_lt,
            UInt8.reduceToNat, h192, h224, h255, if_false, hread, Option.map_some,
            List.length_cons, hlen]
        · rw [List.cons_append, List.length_cons, List.length_cons, hlen]
          omega
        · rw [List.cons_append, List.length_cons, hlen]

/-- Behind a header cut short there can be octets that complete it and announce
a body beyond the end of the buffer. -/
theorem CutHeader.completed {tail : Bytes} (h : CutHeader tail) :
    ∃ ext tag bodyLength headerLength, tail.length < headerLength ∧
      headerLength = (tail ++ ext).length ∧ headerLength ≤ 6 ∧ 0 < bodyLength ∧
      bodyLength < 2 ^ 32 ∧ ∀ (data : Bytes) (pos : ℕ) (dataEnd : Option ℕ),
        At data pos (tail ++ ext) → readPacketHeader data pos dataEnd true =
          some ⟨tag, bodyLength, pos + headerLength, false⟩ := by
  obtain ⟨first, more, rfl, h80, ⟨h40, hdec⟩ | ⟨h40, form, htype, hoctets⟩⟩ := h.cases
  · obtain ⟨ext, length, hcomplete, hlonger, hfive, hpos, hlt⟩ := complete_length hdec
    refine ⟨ext, first &&& 0x3F, length, (more ++ ext).length + 1, Nat.succ_lt_succ hlonger, by simp,
      by omega, hpos, hlt, fun data pos dataEnd hat => ?_⟩
    rw [readPacketHeader_new hat h80 h40, List.append_eq, hcomplete, Option.map_some,
      Nat.add_assoc, Nat.add_comm 1]
  · obtain ⟨ext, hlen, hread, hpos⟩ := complete_octets hoctets
    have hsize : form.size ≤ 4 := by cases form <;> decide
    have hshort : more.length < form.size := by
      rw [readOctets] at hoctets
      split_ifs at hoctets
      omega
    have hlt := ofOctets_lt (more ++ ext)
    rw [hlen] at hlt
    have hbound : 256 ^ form.size ≤ 2 ^ 32 := by cases form <;> decide
    refine ⟨ext, (first >>> 2) &&& 0x0F, ofOctets (more ++ ext), form.size + 1, by simpa using hshort,
      by simp [← hlen], by omega, hpos, by omega, fun data pos dataEnd hat => ?_⟩
    rw [readPacketHeader_old hat h80 h40 htype, List.append_eq, hread, Option.map_some,
      Nat.add_assoc, Nat.add_comm 1]

/-- A body that the buffer does not hold is copied from beyond its end. -/
theorem reassembleLoop_overrun {data : Bytes} {endPos pos bodyLength bodyPos : ℕ} {tag : UInt8}
    (bodyEnd : ℕ) (hpos : pos < endPos)
    (hread : readPacketHeader data pos (some endPos) true = some ⟨tag, bodyLength, bodyPos, false⟩)
    (hend : (if bodyLength > sizeSub endPos bodyPos then endPos else bodyPos + bodyLength) = bodyEnd)
    (hover : data.length < bodyEnd) (out : Bytes) (rewroteAny : Bool) :
    reassembleLoop data endPos pos out rewroteAny = .error .outOfBounds := by
  have hcopy : copyRange data pos bodyEnd = .error .outOfBounds := if_neg (by omega)
  rw [reassembleLoop, dif_pos hpos]
  split
  · rename_i hnone
    rw [hread] at hnone
    cases hnone
  · rename_i hsome
    rw [hread] at hsome
    cases hsome
    simp only [if_true, hend, hcopy]

/-! ### Confinement -/

theorem at_window {data : Bytes} {first last : ℕ} (hle : first ≤ last) (hlast : last ≤ data.length) :
    At data first (window data first last ++ data.drop last) := by
  rw [at_iff, window]
  refine ⟨by omega, ?_⟩
  conv_lhs => rw [← List.take_append_drop (last - first) (data.drop first), List.drop_drop]
  rw [Nat.add_sub_cancel' hle]

theorem length_window (first : ℕ) {data : Bytes} {last : ℕ} (hlast : last ≤ data.length) :
    (window data first last).length = last - first := by
  rw [window, List.length_take, List.length_drop]
  omega

theorem confined_of_not_cutShort {data : Bytes} {first last : ℕ} (hle : first ≤ last)
    (hlast : last ≤ data.length) (hcut : ¬ CutShort (window data first last)) :
    Confined data first last := by
  obtain ⟨result, hlocal⟩ := reassembleLoop_local _ (window data first last) [] false le_rfl hcut
  have hrange : ∀ other : Bytes, last ≤ other.length →
      window other first last = window data first last →
      reassemblePartialBodyLengthRange other first last = .ok result ∧
        ∀ i ∈ reassemblePartialBodyLengthRangeIndices other first last, first ≤ i ∧ i < last := by
    intro other hother hwindow
    have hat := at_window hle hother
    rw [hwindow] at hat
    obtain ⟨hloop, hindices⟩ := hlocal other _ first hat
    rw [length_window first hlast, Nat.add_sub_cancel' hle] at hloop hindices
    rw [reassemblePartialBodyLengthRange, if_neg (by omega),
      reassemblePartialBodyLengthRangeIndices, if_neg (by omega)]
    exact ⟨hloop, hindices⟩
  refine ⟨fun other hother hwindow => ?_, (hrange data hlast rfl).2⟩
  rw [(hrange other hother hwindow).1, (hrange data hlast rfl).1]

/-- With the octets of a range that is cut short, one buffer makes the splice
read beyond its end and another does not. -/
theorem not_confined_of_cutShort {data : Bytes} {first last : ℕ} (hle : first ≤ last)
    (hlast : last ≤ data.length) (hcut : CutShort (window data first last)) :
    ¬ Confined data first last := by
  rintro ⟨hsame, -⟩
  obtain ⟨packets, tail, hwindow, htail⟩ := hcut
  obtain ⟨ext, tag, bodyLength, headerLength, hlonger, hheader, hsix, hpos, hlt, hread⟩ :=
    htail.completed
  have hlen := length_window first hlast
  rw [hwindow, List.length_append] at hlen
  have htake : data.take last = data.take first ++ (streamOf packets ++ tail) := by
    rw [← hwindow, window, ← List.take_add, Nat.add_sub_cancel' hle]
  have hwhole : ∀ rest : Bytes, At (data.take last ++ rest) first (streamOf packets ++ (tail ++ rest)) :=
    fun rest => ⟨data.take first, by rw [htake]; simp, by rw [List.length_take]; omega⟩
  -- every buffer of the form gives what the splice makes of the tail
  have hloop : ∀ rest : Bytes,
      reassemblePartialBodyLengthRange (data.take last ++ rest) first last =
        reassembleLoop (data.take last ++ rest) last (first + (streamOf packets).length)
          ([] ++ (packets.map FramedPacket.spliced).flatten)
          (false || decide (∃ packet ∈ packets, packet.IsPartial)) := by
    intro rest
    rw [reassemblePartialBodyLengthRange, if_neg (by rw [List.length_append, List.length_take]; omega),
      reassembleLoop_streamOf last packets [] false (hwhole rest) (by omega)]
  have hanswer : ∀ rest : Bytes,
      reassemblePartialBodyLengthRange (data.take last ++ rest) first last =
        reassemblePartialBodyLengthRange data first last := by
    intro rest
    apply hsame
    · rw [List.length_append, List.length_take]
      omega
    · rw [window, window, List.drop_append_of_le_length (by rw [List.length_take]; omega),
        List.take_append_of_le_length (by rw [List.length_drop, List.length_take]; omega),
        List.drop_take, List.take_take, Nat.min_self]
  have htailLength : 0 < tail.length := by
    obtain ⟨first, more, rfl, -⟩ := htail.cases
    simp
  have hshort := (hanswer []).trans (hanswer ext).symm
  rw [hloop, hloop] at hshort
  have hatShort := (hwhole []).advance
  have hatLong := (hwhole ext).advance
  rw [List.append_nil tail] at hatShort
  have hnone := htail.unread hatShort (some last)
  have hsome := hread _ _ (some last) hatLong
  have hlong := hatLong.length_eq
  rw [reassembleLoop_notHeader (by omega) hnone,
    reassembleLoop_overrun _ (by omega) hsome (if_neg (by rw [sizeSub]; split_ifs <;> omega))
      (by omega)] at hshort
  rw [copyRange, if_pos ⟨by omega, by rw [List.append_nil, List.length_take]; omega⟩] at hshort
  cases hshort

/-- The splice is confined to its range exactly when the range does not end
inside a packet header. -/
theorem confined_iff {data : Bytes} {first last : ℕ} (hle : first ≤ last)
    (hlast : last ≤ data.length) :
    Confined data first last ↔ ¬ CutShort (window data first last) := by
  constructor
  · intro hconfined hcut
    exact not_confined_of_cutShort hle hlast hcut hconfined
  · exact confined_of_not_cutShort hle hlast

theorem confined_iff_whole : Confined [0xC2, 0x01, 0x07, 0xD3, 0x14] 0 3 ↔
    ¬ CutShort (window [0xC2, 0x01, 0x07, 0xD3, 0x14] 0 3) :=
  confined_iff (by decide) (by decide)

/-- A lone new-format tag octet in the range: the tag of the trailer behind it is
read as the first octet of its length. -/
theorem trailer_consumed : ¬ Confined [0xC2, 0xD3, 0x14] 0 1 :=
  not_confined_of_cutShort (by decide) (by decide)
    ⟨[], [0xC2], rfl, ⟨0xC2, rfl, by decide⟩, by decide⟩

end HashCryptoLib.Pgp
