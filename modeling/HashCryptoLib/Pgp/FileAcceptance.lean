import HashCryptoLib.Pgp.Dechunking
import HashCryptoLib.Pgp.FileSafety

/-!
What the streamed decryption takes. Where a protected packet is whole and nothing outside the
engine fails, the reader always gets the octets that are there, so that the call stops only at
what it refuses itself: a code that is wrong, and two framings of the packet inside that the
format allows. A partial body may not end with an empty chunk, and the first chunk of a literal
packet has to hold the fields in front of the content.
-/

namespace HashCryptoLib.Pgp

open BigEndian Cursor Chunks

/-! ### The reader gets what is there -/

section Chunks

variable {file octets rest ahead : Bytes} {chunkRemaining : ℕ} {finalChunk : Bool}

/-- The first octet tells how much to read of a header that is there. -/
theorem Announces.size_eq {header : Bytes} {first : UInt8} {n : ℕ} {more : Bool}
    (h : Announces (first :: header) n more) :
    newFormatBodyLengthHeaderSize first = header.length + 1 :=
  (headerSize_eq h).symm

theorem Announces.exists_cons {header tail : Bytes} {first : UInt8} {n : ℕ} {more : Bool}
    (h : Announces header n more) (hfile : first :: tail = header ++ rest) :
    ∃ header', header = first :: header' ∧ tail = header' ++ rest := by
  obtain ⟨first', header', rfl⟩ := List.exists_cons_of_length_pos h.pos
  obtain ⟨rfl, rfl⟩ := List.cons.inj hfile
  exact ⟨header', rfl, rfl⟩

/-- Where there is ciphertext ahead, the next chunk with some of it is found. -/
theorem nextCipherChunk_some (hchunked : Chunked Announces chunkRemaining finalChunk octets ahead)
    (hahead : ahead ≠ []) (hfile : file = octets ++ rest) :
    ∃ file' chunkRemaining' finalChunk', nextCipherChunk file chunkRemaining finalChunk =
      some (file', chunkRemaining', finalChunk') ∧ chunkRemaining' ≠ 0 := by
  fun_induction nextCipherChunk file chunkRemaining finalChunk generalizing octets with
  | case1 file chunkRemaining finalChunk hthere => exact ⟨_, _, _, rfl, hthere⟩
  | case2 file chunkRemaining hempty =>
      rw [not_not.mp hempty] at hchunked
      exact absurd (List.length_eq_zero_iff.mp (Chunked.final_iff.mp hchunked).2) hahead
  | case3 chunkRemaining finalChunk hempty hmore =>
      rw [not_not.mp hempty, Bool.eq_false_of_not_eq_true hmore] at hchunked
      obtain ⟨header, n, more, octets', hheader, rfl, -⟩ := hchunked.header
      have hpos := hheader.pos
      have hlength := congrArg List.length hfile
      simp only [List.length_append, List.length_nil] at hlength
      omega
  | case4 chunkRemaining finalChunk hempty hmore first tail hread =>
      rw [not_not.mp hempty, Bool.eq_false_of_not_eq_true hmore] at hchunked
      obtain ⟨header, n, more, octets', hheader, rfl, -⟩ := hchunked.header
      rw [List.append_assoc] at hfile
      obtain ⟨header', rfl, rfl⟩ := hheader.exists_cons hfile
      rw [hheader.size_eq, readOctets, if_pos (by simp)] at hread
      cases hread
  | case5 chunkRemaining finalChunk hempty hmore first tail chunkHeader hread hdec =>
      rw [not_not.mp hempty, Bool.eq_false_of_not_eq_true hmore] at hchunked
      obtain ⟨header, n, more, octets', hheader, rfl, -⟩ := hchunked.header
      rw [List.append_assoc] at hfile
      obtain ⟨header', rfl, rfl⟩ := hheader.exists_cons hfile
      have hthere := readOctets_of_at (at_zero (first :: header' ++ (octets' ++ rest)))
      rw [List.length_cons, ← hheader.size_eq] at hthere
      obtain rfl := Option.some.inj (hthere.symm.trans hread)
      rw [Announces, hdec] at hheader
      cases hheader
  | case6 chunkRemaining finalChunk hempty hmore first tail chunkHeader hread size chunkLength
      isPartial hdec ih =>
      rw [not_not.mp hempty, Bool.eq_false_of_not_eq_true hmore] at hchunked
      obtain ⟨header, n, more, octets', hheader, rfl, hoctets'⟩ := hchunked.header
      rw [List.append_assoc] at hfile
      obtain ⟨header', rfl, rfl⟩ := hheader.exists_cons hfile
      have hthere := readOctets_of_at (at_zero (first :: header' ++ (octets' ++ rest)))
      rw [List.length_cons, ← hheader.size_eq] at hthere
      obtain rfl := Option.some.inj (hthere.symm.trans hread)
      rw [hheader] at hdec
      cases hdec
      rw [hheader.size_eq, Nat.add_sub_cancel, List.drop_left] at ih ⊢
      exact ih hoctets' rfl

end Chunks

namespace SeipReader

variable {P : Primitives} {header : DecryptFileHeader} {cipher : Bytes} {s : SeipReader}

/-- What has been consumed, what is pending and what is still enciphered is the packet. -/
theorem Reads.length_eq (hreads : Reads P header cipher s) :
    s.streamPos + s.pending.length + s.cipherRemaining = cipher.length := by
  obtain ⟨rfl, hremaining, -, -, hrun, hpos, -⟩ := hreads
  have hlength := congrArg (fun deciphered => deciphered.1.length) hrun
  rw [Transducer.length_run, List.length_append] at hlength
  rw [List.length_append]
  omega

theorem Reads.nextCipher_some (hreads : Reads P header cipher s) (hmore : s.cipherRemaining ≠ 0) :
    ∃ file chunkRemaining finalChunk, s.nextCipher header = some (file, chunkRemaining, finalChunk) ∧
      file ≠ [] ∧ s.readCeiling header chunkRemaining ≠ 0 := by
  obtain ⟨-, hremaining, hfile, hahead, hrun, hpos, -⟩ := hreads
  rename_i fed ahead octets rest consumed
  have hne : ahead ≠ [] := by
    rintro rfl
    exact hmore hremaining.symm
  rw [SeipReader.nextCipher]
  rw [CipherAhead] at hahead
  simp only [readCeiling]
  by_cases hpartial : header.seipPartial = true
  · rw [if_pos hpartial] at hahead ⊢
    obtain ⟨file', chunkRemaining', finalChunk', hnext, hchunk⟩ :=
      nextCipherChunk_some hahead hne hfile
    refine ⟨file', chunkRemaining', finalChunk', hnext, ?_, ?_⟩
    · obtain ⟨octets', rfl, hahead'⟩ := nextCipherChunk_ahead hahead hfile hnext
      obtain ⟨-, octets'', rfl, -⟩ := hahead'.take (Nat.one_le_iff_ne_zero.mpr hchunk)
      simp [hne]
    · rw [if_pos hpartial]
      omega
  · rw [if_neg hpartial] at hahead ⊢
    refine ⟨_, _, _, rfl, ?_, ?_⟩
    · simp [hfile, hahead, hne]
    · rwa [if_neg hpartial]

theorem Reads.readCipher_some (hreads : Reads P header cipher s) (hmore : s.cipherRemaining ≠ 0) :
    ∃ s', s.readCipher P header = some s' := by
  obtain ⟨file, chunkRemaining, finalChunk, hnext, hfile, hceiling⟩ := hreads.nextCipher_some hmore
  rw [SeipReader.readCipher, if_neg hmore, hnext]
  dsimp only
  rw [if_neg]
  · exact ⟨_, rfl⟩
  · have hsize := pgpFileChunkSize_pos
    have hpos := List.length_pos_iff.mpr hfile
    rw [← List.length_eq_zero_iff, List.length_take]
    omega

/-- As many octets as the packet still has can be asked for. -/
theorem Reads.ensurePending_some {minBytes : ℕ} (hreads : Reads P header cipher s)
    (hle : s.streamPos + minBytes ≤ cipher.length) :
    ∃ s', s.ensurePending P header minBytes = some s' := by
  fun_induction SeipReader.ensurePending P header s minBytes with
  | case1 s _ => exact ⟨s, rfl⟩
  | case2 s hshort hread =>
      have hlength := hreads.length_eq
      obtain ⟨s', hsome⟩ := hreads.readCipher_some (show s.cipherRemaining ≠ 0 by omega)
      rw [hread] at hsome
      cases hsome
  | case3 s _ next hread ih =>
      obtain ⟨hnext, hpos⟩ := hreads.readCipher hread
      exact ih hnext (by rwa [hpos])

/-- The same, in terms of the octets that come next. -/
theorem Reads.ensurePending_at {octets : Bytes} {minBytes : ℕ} (hreads : Reads P header cipher s)
    (hat : At (decipheredData P header cipher) s.streamPos octets) (hle : minBytes ≤ octets.length) :
    ∃ s', s.ensurePending P header minBytes = some s' := by
  have hlength := hat.length_eq
  rw [length_decipheredData] at hlength
  exact hreads.ensurePending_some (by omega)

end SeipReader

/-! ### The loops over a body -/

/-- A chunk that is not empty. -/
def AnnouncesSome (header : Bytes) (length : ℕ) (more : Bool) : Prop :=
  Announces header length more ∧ length ≠ 0

/-- How the content lies in the octets to come, where the loop over a body takes it. -/
def InnerBody.Streams (body : InnerBody) (octets content : Bytes) : Prop :=
  if body.innerPartial then
    Chunked AnnouncesSome body.remaining body.innerFinalChunk octets content
  else octets = content ∧ content.length = body.remaining

section Loops

variable {P : Primitives} {header : DecryptFileHeader} {cipher tail : Bytes} {s : SeipReader}
  {body : InnerBody} {octets content : Bytes}

theorem InnerBody.Streams.ahead (h : body.Streams octets content) : body.Ahead octets content := by
  rw [InnerBody.Streams] at h
  rw [InnerBody.Ahead]
  split_ifs at h ⊢
  · exact h.imp And.left
  · exact h

/-- There is content as long as the loop goes on. -/
theorem InnerBody.Streams.ne_nil (h : body.Streams octets content) (hgoes : ¬ body.done = true) :
    content ≠ [] := by
  rintro rfl
  rw [InnerBody.Streams] at h
  rw [InnerBody.done] at hgoes
  split_ifs at h hgoes with hpartial
  · cases hfinal : body.innerFinalChunk with
    | true =>
        rw [hfinal] at h hgoes
        have hzero := (Chunked.final_iff.mp h).2
        exact hgoes (by simp [← hzero])
    | false =>
        rw [hfinal] at h
        generalize hremaining : body.remaining = remaining at h
        cases h with
        | next hheader h =>
            obtain ⟨hle, -⟩ := h.take le_rfl
            exact hheader.2 (Nat.le_zero.mp hle)
  · exact hgoes (by simp [← h.2])

theorem InnerBody.Streams.take {count : ℕ} (h : body.Streams octets content)
    (hcount : count ≤ body.remaining) :
    (body.take count).Streams (octets.drop count) (content.drop count) := by
  rw [InnerBody.Streams] at h
  rw [show (body.take count).Streams _ _ = if body.innerPartial then _ else _ from rfl]
  split_ifs at h ⊢
  · obtain ⟨hle, octets', rfl, hahead⟩ := h.take hcount
    have hlength : (content.take count).length = count := by
      rw [List.length_take]
      omega
    rw [List.drop_left' hlength]
    exact hahead
  · obtain ⟨rfl, hlength⟩ := h
    exact ⟨rfl, by rw [List.length_drop, hlength]; rfl⟩

/-- At the end of a chunk stands the header of the next one. -/
theorem InnerBody.Streams.header_of_empty (h : body.Streams octets content)
    (hempty : ¬ (body.innerPartial = false ∨ body.remaining ≠ 0))
    (hmore : ¬ body.innerFinalChunk = true) :
    ∃ announced n more octets', AnnouncesSome announced n more ∧ octets = announced ++ octets' ∧
      Chunked AnnouncesSome n (!more) octets' content := by
  obtain ⟨hwhole, hzero⟩ := not_or.mp hempty
  rw [InnerBody.Streams, if_pos (Bool.of_not_eq_false hwhole), not_not.mp hzero,
    Bool.eq_false_of_not_eq_true hmore] at h
  exact h.header

/-- At the end of a chunk that is not the last one, the header of the next one is stepped
over. -/
theorem ensureInnerChunk_next {announced rest : Bytes} {n : ℕ} {more : Bool}
    (hreads : s.Reads P header cipher) (hempty : ¬ (body.innerPartial = false ∨ body.remaining ≠ 0))
    (hmore : ¬ body.innerFinalChunk = true) (hannounced : Announces announced n more)
    (hat : At (decipheredData P header cipher) s.streamPos (announced ++ rest)) :
    ∃ s', s'.Reads P header cipher ∧ At (decipheredData P header cipher) s'.streamPos rest ∧
      ensureInnerChunk P header s body = ensureInnerChunk P header s'
        { body with remaining := n, innerFinalChunk := !more } := by
  have hpos := hannounced.pos
  obtain ⟨s₁, hfirst⟩ := hreads.ensurePending_at hat
    (show 1 ≤ (announced ++ rest).length by rw [List.length_append]; omega)
  obtain ⟨hreads₁, hpos₁, hone⟩ := hreads.ensurePending hfirst
  rw [← hpos₁] at hat
  have hsize : newFormatBodyLengthHeaderSize (s₁.pending.headD 0) = announced.length := by
    obtain ⟨first, announced', rfl⟩ := List.exists_cons_of_length_pos hpos
    obtain ⟨first', pending, hpending⟩ := List.exists_cons_of_length_pos hone
    have hfront := (hreads₁.take_pending hat hone).1
    rw [hpending] at hfront ⊢
    obtain rfl : first' = first := (List.cons.inj hfront).1
    exact hannounced.size_eq
  obtain ⟨s₂, hheader⟩ := hreads₁.ensurePending_at hat
    (show announced.length ≤ (announced ++ rest).length by simp)
  obtain ⟨hreads₂, hpos₂, hlong⟩ := hreads₁.ensurePending hheader
  rw [← hpos₂] at hat
  have htake := (hreads₂.take_pending hat hlong).1
  rw [List.take_left] at htake
  have hnext := SeipReader.Reads.consume_at hat
    (show announced.length ≤ (announced ++ rest).length by simp)
  rw [List.drop_left] at hnext
  refine ⟨_, hreads₂.consumeForHash hlong, hnext, ?_⟩
  rw [← hsize] at hheader htake
  rw [ensureInnerChunk, if_neg hempty, if_neg hmore]
  split
  · rename_i hnone
    rw [hfirst] at hnone
    cases hnone
  rename_i hsome
  obtain rfl := Option.some.inj (hfirst.symm.trans hsome)
  dsimp only
  split
  · rename_i hnone
    rw [hheader] at hnone
    cases hnone
  rename_i hsome
  obtain rfl := Option.some.inj (hheader.symm.trans hsome)
  split
  · rename_i hnone
    rw [htake, hannounced] at hnone
    cases hnone
  rename_i hsome
  rw [htake, hannounced] at hsome
  cases hsome
  rfl

/-- The headers in front of the next octet of content are stepped over. -/
theorem ensureInnerChunk_streams (hreads : s.Reads P header cipher)
    (hat : At (decipheredData P header cipher) s.streamPos (octets ++ tail))
    (hstreams : body.Streams octets content) (hne : content ≠ []) :
    ∃ s' body' octets', ensureInnerChunk P header s body = some (s', body') ∧
      s'.Reads P header cipher ∧
      At (decipheredData P header cipher) s'.streamPos (octets' ++ tail) ∧
      body'.Streams octets' content ∧ body'.remaining ≠ 0 := by
  by_cases hinert : body.innerPartial = false ∨ body.remaining ≠ 0
  · refine ⟨s, body, octets, by rw [ensureInnerChunk, if_pos hinert], hreads, hat, hstreams, ?_⟩
    rcases hinert with hwhole | hchunk
    · rw [InnerBody.Streams, if_neg (by simp [hwhole])] at hstreams
      rw [← hstreams.2]
      exact (List.length_pos_iff.mpr hne).ne'
    · exact hchunk
  have hmore : ¬ body.innerFinalChunk = true := by
    intro hfinal
    obtain ⟨hwhole, hzero⟩ := not_or.mp hinert
    rw [InnerBody.Streams, if_pos (Bool.of_not_eq_false hwhole), not_not.mp hzero, hfinal]
      at hstreams
    exact hne (List.length_eq_zero_iff.mp (Chunked.final_iff.mp hstreams).2)
  -- a chunk that is not empty follows
  obtain ⟨announced, n, more, octets', hannounced, rfl, hoctets'⟩ :=
    hstreams.header_of_empty hinert hmore
  rw [List.append_assoc] at hat
  obtain ⟨s', hreads', hat', hnext⟩ := ensureInnerChunk_next hreads hinert hmore hannounced.1 hat
  refine ⟨s', { body with remaining := n, innerFinalChunk := !more }, octets', ?_, hreads', hat', ?_,
    hannounced.2⟩
  · rw [hnext, ensureInnerChunk, if_pos (Or.inr hannounced.2)]
  · rw [InnerBody.Streams, if_pos (Bool.of_not_eq_false (not_or.mp hinert).1)]
    exact hoctets'

/-- One turn of the loop: the piece is the front of the content. -/
theorem streamBody_piece {s₁ s₂ : SeipReader} {body' : InnerBody} {limit : ℕ}
    (hreads : s.Reads P header cipher)
    (hat : At (decipheredData P header cipher) s.streamPos (octets ++ tail))
    (hstreams : body.Streams octets content) (hne : content ≠ [])
    (hchunk : ensureInnerChunk P header s body = some (s₁, body'))
    (hpending : s₁.ensurePending P header 1 = some s₂) {takeNow : ℕ}
    (htakeNow : takeNow = min (min s₂.pending.length body'.remaining) limit) :
    s₂.pending.take takeNow = content.take takeNow ∧
      (s₂.consumeForHash header takeNow).Reads P header cipher ∧ ∃ octets',
        At (decipheredData P header cipher) (s₂.consumeForHash header takeNow).streamPos
          (octets' ++ tail) ∧ (body'.take takeNow).Streams octets' (content.drop takeNow) := by
  obtain ⟨s₁', body'', octets₁, hchunk', hreads₁, hat₁, hstreams₁, -⟩ :=
    ensureInnerChunk_streams hreads hat hstreams hne
  obtain ⟨rfl, rfl⟩ := Prod.mk.inj (Option.some.inj (hchunk'.symm.trans hchunk))
  obtain ⟨hreads₂, hpos₂, -⟩ := hreads₁.ensurePending hpending
  rw [← hpos₂] at hat₁
  have htake : takeNow ≤ s₂.pending.length := by omega
  obtain ⟨hpiece, hlong, -⟩ := hstreams₁.ahead.take (show takeNow ≤ body''.remaining by omega)
  obtain ⟨hfront, -⟩ := hreads₂.take_pending hat₁ htake
  rw [List.take_append_of_le_length hlong, hpiece] at hfront
  have hnext := SeipReader.Reads.consume_at hat₁
    (show takeNow ≤ (octets₁ ++ tail).length by rw [List.length_append]; omega)
  rw [List.drop_append_of_le_length hlong] at hnext
  exact ⟨hfront, hreads₂.consumeForHash htake, _, hnext, hstreams₁.take (by omega)⟩

/-- The loop reaches the end of the body where what is done with the pieces goes on, whatever is
still to come. -/
theorem streamBody_accepts {σ : Type} {limit : ℕ} (hlimit : 0 < limit)
    {sink : σ → Bytes → Except Failure σ} {R : Bytes → σ → Prop} {total done : Bytes} {state : σ}
    (hsink : ∀ {done piece rest state}, done ++ piece ++ rest = total → piece.length ≤ limit →
      R done state → ∃ state', sink state piece = .ok state' ∧ R (done ++ piece) state')
    (hreads : s.Reads P header cipher)
    (hat : At (decipheredData P header cipher) s.streamPos (octets ++ tail))
    (hstreams : body.Streams octets content) (htotal : done ++ content = total)
    (hstate : R done state) :
    ∃ s' state', streamBody P header limit hlimit sink s body state = .ok (s', state') ∧
      s'.Reads P header cipher ∧ At (decipheredData P header cipher) s'.streamPos tail ∧
      R total state' := by
  have hgoal : ∃ s' state', streamBody P header limit hlimit sink s body state =
      .ok (s', state') ∧ R total state' := by
    fun_induction streamBody P header limit hlimit sink s body state
      generalizing octets content done with
    | case1 s body state hdone =>
        obtain ⟨-, rfl⟩ := hstreams.ahead.done hdone
        rw [List.append_nil] at htotal
        exact ⟨s, state, rfl, htotal ▸ hstate⟩
    | case2 s body state hgoes hchunk =>
        obtain ⟨s', body', -, hsome, -⟩ :=
          ensureInnerChunk_streams hreads hat hstreams (hstreams.ne_nil hgoes)
        rw [hchunk] at hsome
        cases hsome
    | case3 s body state hgoes s₁ body' hchunk hpending =>
        obtain ⟨s', body'', octets', hchunk', hreads', hat', hstreams', hremaining⟩ :=
          ensureInnerChunk_streams hreads hat hstreams (hstreams.ne_nil hgoes)
        obtain ⟨rfl, rfl⟩ := Prod.mk.inj (Option.some.inj (hchunk'.symm.trans hchunk))
        obtain ⟨-, hlong, -⟩ := hstreams'.ahead.take (Nat.one_le_iff_ne_zero.mpr hremaining)
        obtain ⟨s'', hsome⟩ := hreads'.ensurePending_at hat'
          (show 1 ≤ (octets' ++ tail).length by rw [List.length_append]; omega)
        rw [hpending] at hsome
        cases hsome
    | case4 s body state hgoes s₁ body' hchunk s₂ hpending takeNow failure =>
        rename_i hfails
        obtain ⟨hpiece, -⟩ :=
          streamBody_piece hreads hat hstreams (hstreams.ne_nil hgoes) hchunk hpending rfl
        obtain ⟨state', hsome, -⟩ := hsink
          (by rwa [List.append_assoc, List.take_append_drop takeNow content])
          ((List.length_take_le _ _).trans (Nat.min_le_right _ _)) hstate
        rw [show s₂.pending.take takeNow = _ from hpiece, hsome] at hfails
        cases hfails
    | case5 s body state hgoes s₁ body' hchunk s₂ hpending takeNow next hnext =>
        rename_i ih
        obtain ⟨hpiece, hreads', octets', hat', hstreams'⟩ :=
          streamBody_piece hreads hat hstreams (hstreams.ne_nil hgoes) hchunk hpending rfl
        have hsplit : done ++ content.take takeNow ++ content.drop takeNow = total := by
          rwa [List.append_assoc, List.take_append_drop]
        obtain ⟨state', hsome, hkept⟩ := hsink hsplit
          ((List.length_take_le _ _).trans (Nat.min_le_right _ _)) hstate
        rw [show s₂.pending.take takeNow = _ from hpiece, hsome] at hnext
        obtain rfl := Except.ok.inj hnext
        exact ih hreads' hat' hstreams' hsplit hkept
  obtain ⟨s', state', hstream, hfinal⟩ := hgoal
  obtain ⟨hreads', hat', -⟩ := streamBody_reads hreads hat hstreams.ahead hstream
  exact ⟨s', state', hstream, hreads', hat', hfinal⟩

end Loops

/-! ### The drain behind a decompressor -/

/-- The walk over all the chunks ends behind the last one. -/
theorem dechunkPartialBody_chunked {octets body : Bytes} {chunkRemaining : ℕ} {finalChunk : Bool}
    (h : Chunked Announces chunkRemaining finalChunk octets body) (front : Bytes) :
    dechunkPartialBody octets chunkRemaining finalChunk front = some (front ++ body, [], 0, true) := by
  induction h generalizing front with
  | done => rw [dechunkPartialBody_nil, List.append_nil]
  | @letter n final xs body x _ ih =>
      have hstep := dechunkPartialBody_piece (show [x].length ≤ n + 1 by simp) xs final front
      rw [List.singleton_append] at hstep
      rw [hstep, List.length_singleton, Nat.add_sub_cancel, ih, List.append_assoc,
        List.singleton_append]
  | next hheader _ ih => rw [dechunkPartialBody_header hheader, ih]

namespace Decoded

/-- A literal packet with this content. -/
structure LiteralPacket (header : Bytes) (length : BodyLength) (ahead body plaintext : Bytes) :
    Prop where
  header_of : HeaderOf PGP_TAG_LITERAL_DATA header length
  carries : length.Carries ahead body
  content : literalContent body = some plaintext

variable {total rest header ahead body plaintext available : Bytes} {length : BodyLength}
  {s : Decoded} {env : OutputEnv}

theorem dechunk_ok (s : Decoded) :
    ∃ s', s.dechunk = .ok s' ∧ s'.literalHeaderParsed = s.literalHeaderParsed := by
  rw [dechunk]
  cases hwalk : dechunkPartialBody s.literalRawPending s.literalChunkRemaining s.literalFinalChunk
      s.decodedPending with
  | none => exact absurd hwalk (dechunkPartialBody_ne_none _ _ _ _)
  | some _ => exact ⟨_, rfl, rfl⟩

theorem takeIn_ok (s : Decoded) (available : Bytes) : ∃ s', s.takeIn available = .ok s' := by
  rw [takeIn]
  split_ifs
  · obtain ⟨s', hs', -⟩ := dechunk_ok { s with literalRawPending := s.literalRawPending ++ available }
    exact ⟨s', hs'⟩
  · exact ⟨_, rfl⟩

/-- The header that was found is the one of the packet. -/
theorem HasBody.of_packet {header' body' : Bytes} {length' : BodyLength}
    (hbody : HasBody total s header' length' body') (hpacket : LiteralPacket header length ahead body plaintext)
    (htotal : total ++ rest = header ++ ahead) :
    header' = header ∧ length' = length ∧ ∃ ahead', ahead = ahead' ++ rest ∧
      s.Freed length ahead' body' := by
  obtain ⟨ahead', rfl, hfreed⟩ := hbody.freed
  rw [List.append_assoc] at htotal
  obtain ⟨-, rfl, rfl, rfl⟩ := hbody.header_of.unique hpacket.header_of htotal
  exact ⟨rfl, rfl, ahead', rfl, hfreed⟩

/-- The second part refuses nothing of a literal packet, and finds a header that is there. -/
theorem parseHeader_accepts (hpacket : LiteralPacket header length ahead body plaintext)
    (hfollows : Follows total s) (htotal : total ++ rest = header ++ ahead) :
    ∃ s', s.parseHeader = .ok s' ∧
      (header.length ≤ total.length → s'.literalHeaderParsed = true) := by
  rw [parseHeader]
  by_cases hparsed : s.literalHeaderParsed = true
  · rw [if_pos hparsed]
    exact ⟨s, rfl, fun _ => hparsed⟩
  rw [if_neg hparsed]
  cases hfollows with
  | header hbody => exact absurd hbody.parsed hparsed
  | content hbody => exact absurd hbody.parsed hparsed
  | waiting heq =>
      subst heq
      dsimp only
      by_cases hthere : header.length ≤ total.length
      · obtain ⟨more, rfl⟩ : ∃ more, total = header ++ more := by
          have hfront := congrArg (List.take header.length) htotal
          rw [List.take_append_of_le_length hthere, List.take_left] at hfront
          exact ⟨_, by rw [← hfront, List.take_append_drop]⟩
        rw [hpacket.header_of.read (at_zero _)]
        dsimp only
        rw [if_neg (not_not.mpr rfl)]
        by_cases hchunked : length.isChunked = true
        · rw [if_pos hchunked]
          obtain ⟨s', hs', hparsed'⟩ := dechunk_ok _
          exact ⟨s', hs', fun _ => hparsed'⟩
        · rw [if_neg hchunked]
          exact ⟨_, rfl, fun _ => rfl⟩
      · have hsmall := hpacket.header_of.length_le
        cases hread : readPacketHeader total 0 none true with
        | none =>
            dsimp only
            rw [if_neg (by omega)]
            exact ⟨_, rfl, fun h => absurd h hthere⟩
        | some literal =>
            -- a header that was read is all there
            obtain ⟨tag, header', length', ahead', hheader', hat, rfl⟩ := HeaderOf.of_read_eq hread
            obtain rfl : total = header' ++ ahead' := hat.drop_eq
            rw [List.append_assoc] at htotal
            obtain ⟨-, rfl, -⟩ := hheader'.unique hpacket.header_of htotal
            exact absurd (by simp) hthere

/-- A literal packet has its content behind the fields. -/
theorem LiteralPacket.fields (hpacket : LiteralPacket header length ahead body plaintext) :
    2 + (body.getD 1 0).toNat + 4 ≤ body.length ∧
      body.drop (2 + (body.getD 1 0).toNat + 4) = plaintext := by
  have hcontent := hpacket.content
  rw [literalContent] at hcontent
  split_ifs at hcontent with hshort
  dsimp only at hcontent
  split_ifs at hcontent with hlong
  exact ⟨not_lt.mp hlong, Option.some.inj hcontent⟩

/-- What has come of a body is its front, and all of it where all octets have come. -/
theorem Freed.front {ahead' body' : Bytes} (hcarries : length.Carries ahead body)
    (hfreed : s.Freed length ahead' body') (hahead : ahead = ahead' ++ rest) :
    (∀ n, length = .definite n → body = body' ++ rest) ∧ (rest = [] → body' = body) := by
  cases length with
  | definite n =>
      obtain ⟨rfl, -⟩ := hcarries
      obtain ⟨-, -, -, rfl⟩ := hfreed
      refine ⟨fun _ _ => hahead, ?_⟩
      rintro rfl
      rw [hahead, List.append_nil]
  | indeterminate =>
      obtain rfl := hcarries
      obtain ⟨-, -, rfl⟩ := hfreed
      refine ⟨fun _ h => (nomatch h), ?_⟩
      rintro rfl
      rw [hahead, List.append_nil]
  | chunked first =>
      obtain ⟨-, -, hwalk⟩ := hfreed
      refine ⟨fun _ h => (nomatch h), ?_⟩
      rintro rfl
      rw [List.append_nil] at hahead
      rw [← hahead, dechunkPartialBody_chunked hcarries] at hwalk
      exact (Prod.mk.inj (Option.some.inj hwalk)).1.symm

/-- The third part refuses nothing of a literal packet, and drops the fields of a whole one. -/
theorem parsePrefix_accepts (hpacket : LiteralPacket header length ahead body plaintext)
    (hfollows : Follows total s) (htotal : total ++ rest = header ++ ahead) :
    ∃ s', s.parsePrefix = .ok s' ∧
      (s.literalHeaderParsed = true → rest = [] → s'.literalPrefixParsed = true) := by
  rw [parsePrefix]
  cases hfollows with
  | waiting heq =>
      subst heq
      exact ⟨_, rfl, fun h => absurd h Bool.false_ne_true⟩
  | content hbody hparsed hfront hpending hremaining =>
      rw [if_pos (Or.inr hparsed)]
      exact ⟨s, rfl, fun _ _ => hparsed⟩
  | @header header' body' length' hbody hparsed hpending hwritten =>
      have hend := hbody.end_eq
      obtain ⟨rfl, rfl, ahead', hahead, hfreed⟩ := hbody.of_packet hpacket htotal
      obtain ⟨hdefinite, hwhole⟩ := hfreed.front hpacket.carries hahead
      obtain ⟨hfields, -⟩ := hpacket.fields
      have hheader := hbody.parsed
      rw [if_neg (by simp [hheader, hparsed]), hend, hpending,
        List.getElem?_append_right (Nat.le_add_right _ _), Nat.add_sub_cancel_left]
      cases hname : body'[1]? with
      | none =>
          refine ⟨s, rfl, fun _ hrest => ?_⟩
          have hshort := List.getElem?_eq_none_iff.mp hname
          rw [hwhole hrest] at hshort
          omega
      | some filenameLength =>
          have hget {more : Bytes} (heq : body = body' ++ more) :
              body.getD 1 0 = filenameLength := by
            obtain ⟨hlt, -⟩ := List.getElem?_eq_some_iff.mp hname
            rw [heq, List.getD_eq_getElem?_getD, List.getElem?_append_left hlt, hname]
            rfl
          dsimp only
          by_cases hmisfit : s.literalIndeterminate = false ∧
              s.literalBodyLength < 2 + filenameLength.toNat + 4
          · -- only a definite length is compared with what the fields take
            cases length' with
            | definite n =>
                have hsize := hpacket.carries.2
                have hn := hfreed.2.2.1
                rw [hget (hdefinite n rfl)] at hfields
                omega
            | indeterminate => exact absurd (hfreed.1.symm.trans hmisfit.1) (by simp)
            | chunked first => exact absurd (hfreed.1.symm.trans hmisfit.1) (by simp)
          rw [if_neg hmisfit]
          by_cases hwait : (header' ++ body').length < header'.length +
              (2 + filenameLength.toNat + 4)
          · rw [if_pos hwait]
            refine ⟨s, rfl, fun _ hrest => ?_⟩
            obtain rfl := hwhole hrest
            rw [hget (List.append_nil _).symm] at hfields
            rw [List.length_append] at hwait
            omega
          · rw [if_neg hwait]
            exact ⟨_, rfl, fun _ _ => rfl⟩

/-- The last part refuses nothing of a literal packet. -/
theorem writeContent_accepts (henv : env.Unfailing)
    (hpacket : LiteralPacket header length ahead body plaintext) (hfollows : Follows total s)
    (htotal : total ++ rest = header ++ ahead) : ∃ s', s.writeContent env = .ok s' := by
  rw [writeContent]
  cases hfollows with
  | waiting heq =>
      subst heq
      exact ⟨_, rfl⟩
  | header hbody hparsed =>
      rw [if_pos hparsed]
      exact ⟨s, rfl⟩
  | @content header' front body' length' hbody hparsed hfront hpending hremaining =>
      rw [if_neg (by simp [hparsed]), if_neg]
      · by_cases hnil : s.decodedPending = []
        · rw [if_pos hnil]
          exact ⟨s, rfl⟩
        · rw [if_neg hnil]
          dsimp only
          rw [if_neg (by rw [henv.write]; simp), if_neg (by rw [henv.onProgress]; simp)]
          exact ⟨_, rfl⟩
      · rintro ⟨hindeterminate, hlong⟩
        obtain ⟨rfl, rfl, ahead', hahead, hfreed⟩ := hbody.of_packet hpacket htotal
        obtain ⟨hdefinite, -⟩ := hfreed.front hpacket.carries hahead
        cases length' with
        | definite n =>
            have hsize := hpacket.carries.2
            rw [hdefinite n rfl, hpending] at hsize
            simp only [List.length_append] at hsize
            have hsum := hremaining n rfl
            omega
        | indeterminate => exact absurd (hfreed.1.symm.trans hindeterminate) (by simp)
        | chunked first => exact absurd (hfreed.1.symm.trans hindeterminate) (by simp)

/-- Behind a whole literal packet, with its fields dropped, nothing is missing. -/
theorem complete_of_whole (hpacket : LiteralPacket header length ahead body plaintext)
    (hfollows : Follows (header ++ ahead) s) (hparsed : s.literalPrefixParsed = true)
    (hnil : s.decodedPending = []) : s.complete = true ∧ s.written = plaintext := by
  cases hfollows with
  | waiting heq =>
      rw [heq] at hparsed
      cases hparsed
  | header hbody hfalse =>
      rw [hparsed] at hfalse
      cases hfalse
  | @content header' front body' length' hbody _ hfront hpending hremaining =>
      rw [hnil, List.append_nil] at hpending
      obtain ⟨rfl, rfl, ahead', hahead, hfreed⟩ :=
        hbody.of_packet hpacket (List.append_nil (header ++ ahead))
      obtain rfl := (hfreed.front hpacket.carries hahead).2 rfl
      rw [List.append_nil] at hahead
      subst hahead
      constructor
      · rw [complete, hparsed]
        cases length' with
        | definite n =>
            obtain ⟨-, hchunks, -⟩ := hfreed
            have hsum := hremaining n rfl
            have hsize := hpacket.carries.2
            rw [hpending, List.length_append] at hsize
            rw [hchunks, show s.contentRemaining = 0 by omega]
            simp
        | indeterminate =>
            obtain ⟨hindeterminate, hchunks, -⟩ := hfreed
            simp [hindeterminate, hchunks]
        | chunked first =>
            obtain ⟨hindeterminate, hchunks, hwalk⟩ := hfreed
            rw [dechunkPartialBody_chunked hpacket.carries, Option.some.injEq, Prod.mk.injEq,
              Prod.mk.injEq, Prod.mk.injEq] at hwalk
            obtain ⟨-, hraw, hzero, hfinal⟩ := hwalk
            simp [hindeterminate, hchunks, ← hraw, ← hzero, ← hfinal]
      · obtain ⟨-, hdrop⟩ := hpacket.fields
        rw [IsFront] at hfront
        have hname : body'.getD 1 0 = front.getD 1 0 := by
          rw [hpending, List.getD_eq_getElem?_getD, List.getElem?_append_left (by omega),
            List.getD_eq_getElem?_getD]
        rw [hname, ← hfront, hpending, List.drop_left] at hdrop
        exact hdrop

/-- The drain takes a literal packet in any pieces, and has its content at the end. -/
theorem drainDecoded_accepts (henv : env.Unfailing)
    (hpacket : LiteralPacket header length ahead body plaintext) (hdrained : Drained total s)
    (havailable : available.length < 2 ^ 31) (htotal : total ++ available ++ rest = header ++ ahead) :
    ∃ s', s.drainDecoded env available = .ok s' ∧ Drained (total ++ available) s' ∧
      (rest = [] → s'.complete = true ∧ s'.written = plaintext) := by
  obtain ⟨s₁, h₁⟩ := takeIn_ok s available
  have hfollows₁ := takeIn_follows hdrained.follows h₁
  obtain ⟨hshort₁, hlength₁⟩ := takeIn_length hdrained.short h₁
  obtain ⟨s₂, h₂, hheader⟩ := parseHeader_accepts hpacket hfollows₁ htotal
  obtain ⟨hfollows₂, hshort₂, hlength₂, -⟩ := parseHeader_follows hfollows₁ hshort₁ h₂
  obtain ⟨s₃, h₃, hfields⟩ := parsePrefix_accepts hpacket hfollows₂ htotal
  obtain ⟨hfollows₃, -, hlength₃, -⟩ := parsePrefix_follows hfollows₂ hshort₂ h₃
  obtain ⟨s₄, h₄⟩ := writeContent_accepts henv hpacket hfollows₃ htotal
  have hdrain : s.drainDecoded env available = .ok s₄ := by
    rw [drainDecoded]
    simp only [bind, Except.bind, h₁, h₂, h₃, h₄]
  have hdrained' := drainDecoded_drained hdrained havailable hdrain
  have hpending := hdrained.pending_le
  refine ⟨s₄, hdrain, hdrained', ?_⟩
  rintro rfl
  rw [List.append_nil] at htotal
  rw [htotal] at hheader hdrained'
  have hparsed := hfields (hheader (by simp)) rfl
  obtain ⟨-, -, -, hsame, -⟩ := writeContent_follows hfollows₃ (by omega) h₄
  rw [← hsame] at hparsed
  exact complete_of_whole hpacket hdrained'.follows hparsed (hdrained'.pending_nil hparsed)

end Decoded

/-! ### Decompressing -/

/-- What a decompressor says of all the octets, it begins to say of the first ones. -/
theorem Inflating.put_front {whole : Bytes → Option Bytes} (inflating : Inflating whole)
    {data rest out : Bytes} (h : inflating.put (data ++ rest) = some out) :
    ∃ before after, inflating.put data = some before ∧ out = before ++ after := by
  induction rest using List.reverseRecOn generalizing out with
  | nil =>
      rw [List.append_nil] at h
      exact ⟨out, [], h, (List.append_nil out).symm⟩
  | append_singleton rest octet ih =>
      rw [← List.append_assoc] at h
      obtain ⟨before, after, hput, rfl, -⟩ :=
        inflating.put_append (show [octet].length ≤ INFLATE_PIECE from Nat.le_of_ble_eq_true rfl) h
      obtain ⟨before', after', hput', rfl⟩ := ih hput
      exact ⟨before', after' ++ after, hput', List.append_assoc ..⟩

section Decompress

variable {P : Primitives} {inflators : Inflators P} {env : OutputEnv} {header : DecryptFileHeader}
  {cipher octets tail content literalHeader ahead literal plaintext : Bytes} {length : BodyLength}
  {s : SeipReader} {body : InnerBody} {whole : Bytes → Option Bytes} {inflating : Inflating whole}

open Decoded

/-- A piece is refused neither by the decompressor nor by the drain. -/
theorem putPiece_accepts (henv : env.Unfailing)
    (hpacket : LiteralPacket literalHeader length ahead literal plaintext)
    (hwhole : whole content = some (literalHeader ++ ahead)) {done piece rest : Bytes}
    (htotal : done ++ piece ++ rest = content) (hpiece : piece.length ≤ INFLATE_PIECE)
    {inflation : Inflation} (hstate : Inflated inflating inflation ∧ inflation.fed = done) :
    ∃ inflation', putPiece env inflating inflation piece = .ok inflation' ∧
      (Inflated inflating inflation' ∧ inflation'.fed = done ++ piece) := by
  obtain ⟨⟨before, hput, hretrieved, hdrained⟩, rfl⟩ := hstate
  obtain ⟨all, ending, hall, hends, -⟩ := inflating.put_whole hwhole
  rw [← htotal] at hall
  obtain ⟨out, more, hout, rfl⟩ := inflating.put_front hall
  obtain ⟨before', after, hput', rfl, hsmall⟩ := inflating.put_append hpiece hout
  obtain rfl := Option.some.inj (hput.symm.trans hput')
  rw [List.append_assoc] at hends
  obtain ⟨decoded, hdrain, hdrained', -⟩ :=
    drainDecoded_accepts henv hpacket hdrained hsmall hends.symm
  refine ⟨⟨inflation.fed ++ piece, (before ++ after).length, decoded⟩, ?_,
    ⟨before ++ after, hout, rfl, hdrained'⟩, rfl⟩
  rw [putPiece, hout]
  dsimp only
  rw [hretrieved, List.drop_left, hdrain]
  rfl

theorem inflateBody_accepts (henv : env.Unfailing)
    (hpacket : LiteralPacket literalHeader length ahead literal plaintext)
    (hwhole : whole content = some (literalHeader ++ ahead)) (hreads : s.Reads P header cipher)
    (hat : At (decipheredData P header cipher) s.streamPos (octets ++ tail))
    (hstreams : body.Streams octets content) :
    ∃ s' decoded, inflateBody P env header inflating s body = .ok (s', decoded) ∧
      decoded.complete = true ∧ decoded.written = plaintext := by
  have hstart : Inflated inflating {} := ⟨[], inflating.put_nil, rfl, drained_nil⟩
  obtain ⟨s', inflation, hstream, -, -, ⟨before, hput, hretrieved, hdrained⟩, hfed⟩ :=
    streamBody_accepts (show 0 < INFLATE_PIECE by decide)
      (R := fun fed inflation => Inflated inflating inflation ∧ inflation.fed = fed)
      (fun htotal hpiece hstate => putPiece_accepts henv hpacket hwhole htotal hpiece hstate)
      hreads hat hstreams (List.nil_append content) ⟨hstart, rfl⟩
  rw [hfed] at hput
  obtain ⟨before', after, hput', hends, hsmall⟩ := inflating.put_whole hwhole
  obtain rfl := Option.some.inj (hput.symm.trans hput')
  have htotal : before ++ after ++ [] = literalHeader ++ ahead := by
    rw [List.append_nil, hends]
  obtain ⟨decoded, hdrain, -, hcomplete⟩ := drainDecoded_accepts henv hpacket hdrained hsmall htotal
  refine ⟨s', decoded, ?_, hcomplete rfl⟩
  rw [inflateBody, hstream]
  dsimp only
  rw [hfed, hwhole]
  dsimp only
  rw [hends, hretrieved, List.drop_left, hdrain]
  rfl

theorem bzip2Body_accepts (henv : env.Unfailing)
    (hpacket : LiteralPacket literalHeader length ahead literal plaintext)
    (hwhole : bzip2DecompressBuffer content = some (literalHeader ++ ahead))
    (hreads : s.Reads P header cipher)
    (hat : At (decipheredData P header cipher) s.streamPos (octets ++ tail))
    (hstreams : body.Streams octets content) :
    ∃ s' decoded, bzip2Body P env header s body = .ok (s', decoded) ∧
      decoded.complete = true ∧ decoded.written = plaintext := by
  have hcollect {done piece rest fed : Bytes} (_ : done ++ piece ++ rest = content)
      (_ : piece.length ≤ INFLATE_PIECE) (hfed : fed = done) :
      ∃ fed', (.ok (fed ++ piece) : Except Failure Bytes) = .ok fed' ∧ fed' = done ++ piece :=
    ⟨_, rfl, by rw [hfed]⟩
  obtain ⟨s', hstream⟩ : ∃ s', streamBody P header INFLATE_PIECE (by decide)
      (fun fed piece => (.ok (fed ++ piece) : Except Failure Bytes)) s body [] =
        .ok (s', content) := by
    obtain ⟨s', compressed, hstream, -, -, rfl⟩ :=
      streamBody_accepts (show 0 < INFLATE_PIECE by decide) (R := fun done fed => fed = done)
        hcollect hreads hat hstreams (List.nil_append content) rfl
    exact ⟨s', hstream⟩
  have hnext {done chunk rest : Bytes} {decoded : Decoded}
      (hmem : chunk ∈ bzip2Pieces (literalHeader ++ ahead))
      (htotal : done ++ chunk ++ rest = literalHeader ++ ahead)
      (hstate : Drained done decoded ∧
        (done = literalHeader ++ ahead → decoded.complete = true ∧ decoded.written = plaintext)) :
      ∃ decoded', decoded.drainDecoded env chunk = .ok decoded' ∧ Drained (done ++ chunk) decoded' ∧
        (done ++ chunk = literalHeader ++ ahead →
          decoded'.complete = true ∧ decoded'.written = plaintext) := by
    obtain ⟨decoded', hdrain, hdrained', hcomplete⟩ :=
      drainDecoded_accepts henv hpacket hstate.1 (length_bzip2Pieces _ chunk hmem) htotal
    refine ⟨decoded', hdrain, hdrained', fun hall => hcomplete ?_⟩
    rw [hall] at htotal
    exact List.append_right_eq_self.mp htotal
  have hstart : Drained [] {} ∧ ([] = literalHeader ++ ahead →
      ({} : Decoded).complete = true ∧ ({} : Decoded).written = plaintext) :=
    ⟨drained_nil, fun hnil =>
      absurd (List.append_eq_nil_iff.mp hnil.symm).1 hpacket.header_of.ne_nil⟩
  obtain ⟨decoded, hdrain, -, hcomplete⟩ :=
    foldlM_goes_on (R := fun done decoded => Drained done decoded ∧
        (done = literalHeader ++ ahead → decoded.complete = true ∧ decoded.written = plaintext))
      hnext hstart ((List.nil_append _).trans (flatten_bzip2Pieces (literalHeader ++ ahead)))
  refine ⟨s', decoded, ?_, hcomplete rfl⟩
  rw [bzip2Body, hstream]
  dsimp only
  rw [hwhole]
  dsimp only
  rw [hdrain]
  rfl

theorem decompressingBody_accepts (inflators : Inflators P) (henv : env.Unfailing)
    (hpacket : LiteralPacket literalHeader length ahead literal plaintext) {algorithm : UInt8}
    (hwhole : decompressBody P algorithm content = some (literalHeader ++ ahead))
    (hreads : s.Reads P header cipher)
    (hat : At (decipheredData P header cipher) s.streamPos (octets ++ tail))
    (hstreams : body.Streams octets content) :
    ¬ algorithm > 3 ∧
      ∃ s' decoded, decompressingBody P inflators env header algorithm s body = .ok (s', decoded) ∧
        decoded.complete = true ∧ decoded.written = plaintext := by
  rw [decompressBody] at hwhole
  rw [decompressingBody]
  split_ifs at hwhole with h0 h1 h2 h3
  · subst h0
    obtain rfl := Option.some.inj hwhole
    refine ⟨by decide, ?_⟩
    rw [if_neg (by decide), if_neg (by decide), if_neg (by decide)]
    exact inflateBody_accepts henv hpacket rfl hreads hat hstreams
  · subst h1
    refine ⟨by decide, ?_⟩
    rw [if_neg (by decide), if_neg (by decide), if_pos rfl]
    exact inflateBody_accepts henv hpacket hwhole hreads hat hstreams
  · subst h2
    refine ⟨by decide, ?_⟩
    rw [if_neg (by decide), if_pos rfl]
    exact inflateBody_accepts henv hpacket hwhole hreads hat hstreams
  · subst h3
    refine ⟨by decide, ?_⟩
    rw [if_pos rfl]
    exact bzip2Body_accepts henv hpacket hwhole hreads hat hstreams

/-- A compressed packet with a literal packet in it is written out. -/
theorem decryptCompressed_accepts (henv : env.Unfailing) {compAlgo : UInt8} {compData : Bytes}
    (hpacket : LiteralPacket literalHeader length ahead literal plaintext)
    (hwhole : decompressBody P compAlgo compData = some (literalHeader ++ ahead))
    (hlength : cipher.length = header.encLength) (htail : tail.length = 22)
    (hreads : s.Reads P header cipher)
    (hat : At (decipheredData P header cipher) s.streamPos (octets ++ tail))
    (hstreams : body.Streams octets (compAlgo :: compData)) (hfirst : 1 ≤ body.remaining) :
    ∃ s', decryptCompressed P inflators env header s body = .ok (s', plaintext) := by
  have hall := hat.length_eq
  rw [length_decipheredData, List.length_append, htail] at hall
  obtain ⟨htake, hlong, -, -⟩ := hstreams.ahead.take hfirst
  rw [decryptCompressed]
  dsimp only
  rw [if_neg]
  swap
  · rintro (hzero | ⟨hwhole, hmore⟩)
    · omega
    · have hsize : octets.length = body.remaining := by
        have hahead := hstreams.ahead
        rw [InnerBody.Ahead, if_neg (by simp [hwhole])] at hahead
        rw [hahead.1, hahead.2]
      omega
  obtain ⟨s₁, hpending⟩ := hreads.ensurePending_at hat
    (show 1 ≤ (octets ++ tail).length by rw [List.length_append]; omega)
  obtain ⟨hreads₁, hpos₁, hone⟩ := hreads.ensurePending hpending
  rw [← hpos₁] at hat
  rw [hpending]
  dsimp only
  rw [if_neg (by simp [InnerBody.prefixFits, hfirst])]
  have hhead : s₁.pending.headD 0 = compAlgo := by
    obtain ⟨first, pending, hcons⟩ := List.exists_cons_of_length_pos hone
    have hfront := (hreads₁.take_pending hat hone).1
    rw [List.take_append_of_le_length hlong, htake, hcons] at hfront
    rw [hcons]
    exact (List.cons.inj hfront).1
  have hnext := SeipReader.Reads.consume_at hat
    (show 1 ≤ (octets ++ tail).length by rw [List.length_append]; omega)
  rw [List.drop_append_of_le_length hlong] at hnext
  obtain ⟨hknown, s', decoded, hinner, hcomplete, hwritten⟩ := decompressingBody_accepts inflators
    henv hpacket hwhole (hreads₁.consumeForHash hone) hnext (hstreams.take hfirst)
  rw [hhead, if_neg hknown, hinner]
  dsimp only
  rw [if_pos hcomplete, hwritten]
  exact ⟨s', rfl⟩

theorem skipPending_accepts {count : ℕ} (hreads : s.Reads P header cipher)
    (hat : At (decipheredData P header cipher) s.streamPos octets) (hcount : count ≤ octets.length) :
    ∃ s', skipPending P header s count = some s' ∧ s'.Reads P header cipher ∧
      At (decipheredData P header cipher) s'.streamPos (octets.drop count) := by
  obtain ⟨next, hpending⟩ := hreads.ensurePending_at hat hcount
  have hskip : skipPending P header s count = some (next.consumeForHash header count) := by
    rw [skipPending, hpending]
    rfl
  obtain ⟨hreads', -, hat'⟩ := skipPending_reads hreads hat hskip
  exact ⟨_, hskip, hreads', hat'⟩

theorem writeLiteral_accepts (henv : env.Unfailing) (totalContentBytes : ℕ)
    (written piece : Bytes) :
    writeLiteral env totalContentBytes written piece = .ok (written ++ piece) := by
  rw [writeLiteral, henv.write, henv.onProgress]
  rfl

theorem getD_of_take {xs ys : Bytes} {i count : ℕ} (h : xs.take count = ys.take count)
    (hi : i < count) : xs.getD i 0 = ys.getD i 0 := by
  rw [List.getD_eq_getElem?_getD, ← List.getElem?_take_of_lt hi, h, List.getElem?_take_of_lt hi,
    List.getD_eq_getElem?_getD]

variable (env) in
/-- Where the first chunk of a literal packet holds the fields, they are skipped, and the loop
starts behind them. -/
theorem decryptLiteral_fields {filenameLength : ℕ} (hreads : s.Reads P header cipher)
    (hat : At (decipheredData P header cipher) s.streamPos (octets ++ tail))
    (hahead : body.Ahead octets content) (hname : (content.getD 1 0).toNat = filenameLength)
    (hfields : 2 + filenameLength + 4 ≤ body.remaining) :
    ∃ s', s'.Reads P header cipher ∧
      At (decipheredData P header cipher) s'.streamPos
        (octets.drop (2 + filenameLength + 4) ++ tail) ∧
      decryptLiteral P env header s body =
        streamBody P header PGP_FILE_CHUNK_SIZE pgpFileChunkSize_pos
          (writeLiteral env
            (if body.innerPartial then 0 else body.remaining - (2 + filenameLength + 4)))
          s' (body.take (2 + filenameLength + 4)) [] := by
  obtain ⟨htake, hlong, -, -⟩ := hahead.take hfields
  obtain ⟨s₁, hpending⟩ := hreads.ensurePending_at hat
    (show 2 ≤ (octets ++ tail).length by rw [List.length_append]; omega)
  obtain ⟨hreads₁, hpos₁, htwo⟩ := hreads.ensurePending hpending
  rw [← hpos₁] at hat
  have hread : (s₁.pending.getD 1 0).toNat = filenameLength := by
    have hoctets := (hreads₁.take_pending hat htwo).1
    rw [List.take_append_of_le_length (by omega)] at hoctets
    rw [getD_of_take hoctets (by norm_num), getD_of_take htake (by omega), hname]
  have hreads₂ := hreads₁.consumeForHash htwo
  have hat₂ := SeipReader.Reads.consume_at hat
    (show 2 ≤ (octets ++ tail).length by rw [List.length_append]; omega)
  obtain ⟨s₃, hskip, hreads₃, hat₃⟩ := skipPending_accepts hreads₂ hat₂
    (show filenameLength ≤ ((octets ++ tail).drop 2).length by
      rw [List.length_drop, List.length_append]; omega)
  obtain ⟨s₄, hdate, hreads₄, hat₄⟩ := skipPending_accepts hreads₃ hat₃
    (show 4 ≤ (((octets ++ tail).drop 2).drop filenameLength).length by
      rw [List.length_drop, List.length_drop, List.length_append]; omega)
  rw [List.drop_drop, List.drop_drop, ← Nat.add_assoc,
    List.drop_append_of_le_length hlong] at hat₄
  refine ⟨s₄, hreads₄, hat₄, ?_⟩
  rw [decryptLiteral, hpending]
  dsimp only
  rw [hread, if_neg (by simp [InnerBody.prefixFits, hfields]), hskip]
  dsimp only
  rw [hdate]
  dsimp only
  rw [if_neg (by omega)]

/-- A literal packet is written out, if the first chunk of it holds the fields. -/
theorem decryptLiteral_accepts (henv : env.Unfailing)
    (hcontent : literalContent content = some plaintext) (hreads : s.Reads P header cipher)
    (hat : At (decipheredData P header cipher) s.streamPos (octets ++ tail))
    (hstreams : body.Streams octets content)
    (hfields : 2 + (content.getD 1 0).toNat + 4 ≤ body.remaining) :
    ∃ s', decryptLiteral P env header s body = .ok (s', plaintext) := by
  obtain ⟨-, -, hlong, -⟩ := hstreams.ahead.take hfields
  obtain ⟨s₁, hreads₁, hat₁, hcall⟩ :=
    decryptLiteral_fields env hreads hat hstreams.ahead rfl hfields
  obtain ⟨s', written, hstream, -, -, hwritten⟩ := streamBody_accepts pgpFileChunkSize_pos
    (R := fun done written => content.take (2 + (content.getD 1 0).toNat + 4) ++ written = done)
    (fun {_ piece _ written} _ _ hdone => ⟨_, writeLiteral_accepts henv _ written piece,
      by rw [← List.append_assoc, hdone]⟩)
    hreads₁ hat₁ (hstreams.take hfields) (List.take_append_drop _ content) (List.append_nil _)
  have hplaintext : written = plaintext := by
    rw [literalContent_drop hlong rfl] at hcontent
    have hbehind := congrArg (List.drop (2 + (content.getD 1 0).toNat + 4)) hwritten
    rw [List.drop_left' (List.length_take_of_le hlong), Option.some.inj hcontent] at hbehind
    exact hbehind
  exact ⟨s', by rw [hcall, hstream, hplaintext]⟩

end Decompress

/-! ### The protected packet -/

/-- A packet in one of the framings that the loops take. -/
def Streamable (tag : UInt8) (body octets : Bytes) : Prop :=
  ∃ header length ahead, HeaderOf tag header length ∧ length.Carries ahead body ∧
    octets = header ++ ahead ∧
    ∀ first, length = .chunked first → Chunked AnnouncesSome first false ahead body ∧
      (tag = PGP_TAG_LITERAL_DATA → 2 + (body.getD 1 0).toNat + 4 ≤ first)

theorem length_of_literalContent {body plaintext : Bytes} (h : literalContent body = some plaintext) :
    2 + (body.getD 1 0).toNat + 4 ≤ body.length := by
  rw [literalContent] at h
  split_ifs at h with hshort
  dsimp only at h
  split_ifs at h with hlong
  exact not_lt.mp hlong

section Stream

variable {P : Primitives} {env : OutputEnv} {header : DecryptFileHeader}
  {cipher plaintext innerHeader ahead tail body : Bytes} {length : BodyLength} {tag : UInt8}
  {s : SeipReader}

/-- The packet inside is written out. -/
theorem decryptInner_accepts (inflators : Inflators P) (henv : env.Unfailing)
    (hlength : cipher.length = header.encLength) (htail : tail.length = 22)
    (hheader : HeaderOf tag innerHeader length) (hcarries : length.Carries ahead body)
    (hchunked : ∀ first, length = .chunked first → Chunked AnnouncesSome first false ahead body ∧
      (tag = PGP_TAG_LITERAL_DATA → 2 + (body.getD 1 0).toNat + 4 ≤ first))
    (hholds : Holds P tag body plaintext) (hreads : s.Reads P header cipher)
    (hat : At (decipheredData P header cipher) s.streamPos (ahead ++ tail)) :
    ∃ s', decryptInner P inflators env header tag s
      ⟨length.isChunked, length.announced ahead.length, false⟩ = .ok (s', plaintext) := by
  have hstreams : InnerBody.Streams ⟨length.isChunked, length.announced ahead.length, false⟩ ahead
      body := by
    cases length with
    | definite n => exact hcarries
    | indeterminate => exact ⟨hcarries, congrArg List.length hcarries.symm⟩
    | chunked first => exact (hchunked first rfl).1
  rw [decryptInner]
  rcases hholds with ⟨rfl, hcontent⟩ |
    ⟨rfl, compAlgo, compData, decompressed, literal, rfl, hwhole, hliteral, hcontent⟩
  · have hfields := length_of_literalContent hcontent
    rw [if_neg (by decide), if_pos rfl]
    refine decryptLiteral_accepts henv hcontent hreads hat hstreams ?_
    cases length with
    | definite n => exact hfields.trans hcarries.2.le
    | indeterminate => exact hfields.trans (congrArg List.length hcarries).ge
    | chunked first => exact (hchunked first rfl).2 rfl
  · obtain ⟨literalHeader, literalLength, literalAhead, hliteralHeader, hliteralCarries, rfl⟩ :=
      isPacket_iff.mp hliteral
    rw [if_pos rfl]
    refine decryptCompressed_accepts henv ⟨hliteralHeader, hliteralCarries, hcontent⟩ hwhole
      hlength htail hreads hat hstreams ?_
    cases hheader with
    | newFormat => exact (Nat.succ_pos _).trans_le hcarries.2.le
    | oldFormat => exact (Nat.succ_pos _).trans_le hcarries.2.le
    | indeterminate => exact (Nat.succ_pos _).trans_le (congrArg List.length hcarries).ge
    | chunked htag h =>
        obtain ⟨exponent, -, rfl, -⟩ := h.more
        exact Nat.one_le_two_pow

/-- At the end of the protected data, the right code is taken. -/
theorem trailerMatches_accepts {front : Bytes} (hlength : cipher.length = header.encLength)
    (hreads : s.Reads P header cipher)
    (hplain : decipheredData P header cipher =
      front ++ ([0xD3, 0x14] ++ (P.sha1 (front ++ [0xD3, 0x14])).1))
    (hpos : s.streamPos = front.length) : trailerMatches P header s = true := by
  generalize hcode : (P.sha1 (front ++ [0xD3, 0x14])).1 = code at hplain
  have hsize : code.length = 20 := by
    rw [← hcode]
    exact (P.sha1 _).2
  have hat : At (decipheredData P header cipher) s.streamPos ([0xD3, 0x14] ++ code) :=
    ⟨front, hplain, hpos.symm⟩
  obtain ⟨next, hpending⟩ := hreads.ensurePending_at hat
    (show 22 ≤ ([0xD3, 0x14] ++ code).length by rw [List.length_append, hsize]; rfl)
  obtain ⟨hnext, hpos', hcount⟩ := hreads.ensurePending hpending
  rw [← hpos'] at hat
  obtain ⟨htake, -⟩ := hnext.take_pending hat hcount
  have hwhole : ([0xD3, 0x14] ++ code).take 22 = [0xD3, 0x14] ++ code :=
    List.take_of_length_le (by rw [List.length_append, hsize]; rfl)
  rw [hwhole] at htake
  have hmarker : next.pending.take 2 = [0xD3, 0x14] := by
    have hfront := congrArg (List.take 2) htake
    rwa [List.take_take] at hfront
  have hdigest : (next.pending.drop 2).take 20 = code := by
    have hback := congrArg (List.drop 2) htake
    rwa [List.drop_take] at hback
  have hall : (decipheredData P header cipher).length = front.length + 22 := by
    rw [hplain, List.length_append, List.length_append, hsize]
    rfl
  have hhashed : ((decipheredData P header cipher).take
      (next.consumeForHash header 22).streamPos).take (header.encLength - 20) =
        front ++ [0xD3, 0x14] := by
    have hstream : (next.consumeForHash header 22).streamPos = front.length + 22 := by
      rw [SeipReader.consumeForHash, hpos', hpos]
    have henc : header.encLength - 20 = front.length + 2 := by
      rw [← hlength, ← length_decipheredData P header cipher, hall]
      rfl
    rw [hstream, List.take_of_length_le hall.le, hplain, henc, List.take_length_add_append]
    rfl
  rw [trailerMatches, hpending]
  dsimp only
  rw [Bool.and_eq_true, beq_iff_eq, beq_iff_eq, (hnext.consumeForHash hcount).mdc, hhashed, hcode,
    hdigest]
  exact ⟨hmarker, rfl⟩

/-- The header of the packet inside is found in the first eight octets. -/
theorem probeInnerHeader_accepts {rest : Bytes} (hreads : s.Reads P header cipher)
    (hheader : HeaderOf tag innerHeader length)
    (hat : At (decipheredData P header cipher) s.streamPos (innerHeader ++ rest))
    (hlong : 8 ≤ (innerHeader ++ rest).length) :
    ∃ s' seen, s.probeInnerHeader P header probeSizes =
        some (⟨tag, length.announced seen, innerHeader.length, length.isChunked⟩, s') ∧
      s'.Reads P header cipher ∧ s'.streamPos = s.streamPos ∧
      innerHeader.length ≤ s'.pending.length ∧ s'.pending.headD 0 = innerHeader.headD 0 := by
  obtain ⟨s', hpending⟩ := hreads.ensurePending_at hat hlong
  obtain ⟨hreads', hpos', height⟩ := hreads.ensurePending hpending
  rw [← hpos'] at hat
  have hsmall := hheader.length_le
  have htake := (hreads'.take_pending hat height).1
  rw [List.take_append, List.take_of_length_le (show innerHeader.length ≤ 8 by omega)] at htake
  have hread := hheader.read (at_zero (innerHeader ++ rest.take (8 - innerHeader.length)))
  rw [← htake, Nat.zero_add] at hread
  refine ⟨s', (rest.take (8 - innerHeader.length)).length, ?_, hreads', hpos', by omega, ?_⟩
  · rw [show probeSizes = 8 :: ((List.range 63).map fun i => 8 * (i + 2)) by decide,
      SeipReader.probeInnerHeader, hpending]
    dsimp only
    rw [hread]
  · exact hreads'.headD_pending hheader.ne_nil hat (by omega)

/-- What was read ahead of the file is a part of the packet. -/
theorem startReader_leftover {file : Bytes} (hlength : cipher.length = header.encLength)
    (hstart : (startReader P header file).Reads P header cipher) :
    header.leftoverCipher.length ≤ header.encLength := by
  have hsum := hstart.length_eq
  have hpending : (startReader P header file).pending.length = header.leftoverCipher.length :=
    Transducer.length_run ..
  omega

variable (env) in
/-- Where the protected data holds one whole packet, its header is found, and all hangs on its body
and on the code. -/
theorem decryptSeipBodyStreaming_inner (inflators : Inflators P) {file front trailer : Bytes}
    (hlength : cipher.length = header.encLength) (hlong : 46 ≤ cipher.length)
    (hstart : (startReader P header file).Reads P header cipher) (hfront : front.length = 18)
    (htrailer : trailer.length = 22) (hheader : HeaderOf tag innerHeader length)
    (hplain : decipheredData P header cipher = front ++ (innerHeader ++ ahead) ++ trailer) :
    ∃ s, s.Reads P header cipher ∧
      At (decipheredData P header cipher) s.streamPos (ahead ++ trailer) ∧
      decryptSeipBodyStreaming P inflators env header file =
        (decryptInner P inflators env header tag s
          ⟨length.isChunked, length.announced ahead.length, false⟩).bind fun result =>
            if trailerMatches P header result.1 then .ok result.2 else fail INVALID_DATA := by
  have hall := congrArg List.length hplain
  rw [length_decipheredData, List.length_append, List.length_append, List.length_append, hfront,
    htrailer] at hall
  have hat : At (decipheredData P header cipher) (startReader P header file).streamPos
      (front ++ (innerHeader ++ (ahead ++ trailer))) := by
    rw [← List.append_assoc innerHeader, ← List.append_assoc front, ← hplain]
    exact at_zero _
  obtain ⟨s₁, hskip, hreads₁, hat₁⟩ := skipPending_accepts hstart hat
    (show 18 ≤ (front ++ (innerHeader ++ (ahead ++ trailer))).length by
      rw [List.length_append, hfront]; exact Nat.le_add_right _ _)
  rw [List.drop_left' hfront] at hat₁
  obtain ⟨s₂, seen, hprobe, hreads₂, hpos₂, hsize, hfirst⟩ := probeInnerHeader_accepts hreads₁
    hheader hat₁ (by simp only [List.length_append]; omega)
  rw [← hpos₂] at hat₁
  have hat₃ := SeipReader.Reads.consume_at hat₁
    (show innerHeader.length ≤ (innerHeader ++ (ahead ++ trailer)).length by simp)
  rw [List.drop_left] at hat₃
  have hleft := hat₃.length_eq
  rw [length_decipheredData, List.length_append, htrailer] at hleft
  refine ⟨_, hreads₂.consumeForHash hsize, hat₃, ?_⟩
  have hleftover := startReader_leftover hlength hstart
  have hremaining : header.encLength - 22 -
      (s₂.consumeForHash header innerHeader.length).streamPos = ahead.length := by
    omega
  rw [decryptSeipBodyStreaming, if_neg (by omega), hskip]
  dsimp only
  rw [hprobe]
  dsimp only
  rw [hfirst, if_neg fun h => absurd h.2 (by omega), hheader.remaining_eq hremaining]
  cases decryptInner P inflators env header tag (s₂.consumeForHash header innerHeader.length)
      ⟨length.isChunked, length.announced ahead.length, false⟩ with
  | error failure => rfl
  | ok result => rfl

/-- A message that is authentic is taken, if the packet inside is framed in a way that the loops
take. -/
theorem decryptSeipBodyStreaming_accepts {inflators : Inflators P} {file front packet : Bytes}
    (henv : env.Unfailing) (hlength : cipher.length = header.encLength)
    (hlong : 46 ≤ cipher.length) (hstart : (startReader P header file).Reads P header cipher)
    (hfront : front.length = 18) (hstreamable : Streamable tag body packet)
    (hholds : Holds P tag body plaintext)
    (hplain : decipheredData P header cipher = front ++ packet ++
      ([0xD3, 0x14] ++ (P.sha1 (front ++ packet ++ [0xD3, 0x14])).1)) :
    decryptSeipBodyStreaming P inflators env header file = .ok plaintext := by
  obtain ⟨innerHeader, length, ahead, hheader, hcarries, rfl, hchunked⟩ := hstreamable
  generalize htrailer : [0xD3, 0x14] ++
    (P.sha1 (front ++ (innerHeader ++ ahead) ++ [0xD3, 0x14])).1 = trailer at hplain
  have htail : trailer.length = 22 := by
    rw [← htrailer, List.length_append, (P.sha1 _).2]
    rfl
  obtain ⟨s, hreads, hat, hcall⟩ := decryptSeipBodyStreaming_inner env inflators hlength hlong
    hstart hfront htail hheader hplain
  obtain ⟨s', hinner⟩ := decryptInner_accepts inflators henv hlength htail hheader hcarries hchunked
    hholds hreads hat
  obtain ⟨hreads', hat', -⟩ := decryptInner_reads hreads hat
    (InnerBody.ahead_of_carries hcarries) hinner
  have hend : s'.streamPos = (front ++ (innerHeader ++ ahead)).length := by
    have hall := congrArg List.length hplain
    have hrest := hat'.length_eq
    rw [List.length_append, hrest] at hall
    omega
  rw [← htrailer] at hplain
  rw [hcall, hinner, Except.bind, if_pos (trailerMatches_accepts hlength hreads' hplain hend)]

end Stream

end HashCryptoLib.Pgp
