import HashCryptoLib.Pgp.LiteralDrain

/-!
The reader of a protected packet against the packet itself. Wherever the reader
stands, what it has consumed and what it has pending is the front of the
deciphered data, and the digest has been fed with what was consumed of it.
Whatever is read ahead in one turn, the loops over a body meet the octets of
the packet they are in, one behind the other.
-/

namespace HashCryptoLib.Pgp

open BigEndian Cursor

/-- The data in the protected packet. -/
def decipheredData (P : Primitives) (header : DecryptFileHeader) (cipher : Bytes) : Bytes :=
  cfbDecrypt P header.sessionKey (Octets.zero 16) cipher

@[simp] theorem length_decipheredData (P : Primitives) (header : DecryptFileHeader)
    (cipher : Bytes) : (decipheredData P header cipher).length = cipher.length :=
  length_cfbDecrypt P _ _ cipher

/-- How the ciphertext `ahead` lies in the octets behind the file pointer. -/
def CipherAhead (header : DecryptFileHeader) (chunkRemaining : ℕ) (finalChunk : Bool)
    (octets ahead : Bytes) : Prop :=
  if header.seipPartial then Chunked Announces chunkRemaining finalChunk octets ahead
  else octets = ahead

/-- A reader within the protected packet with this ciphertext. -/
inductive SeipReader.Reads (P : Primitives) (header : DecryptFileHeader) (cipher : Bytes)
    (s : SeipReader) : Prop
  | mk {fed ahead octets rest consumed : Bytes} (hcipher : cipher = fed ++ ahead)
    (hremaining : ahead.length = s.cipherRemaining) (hfile : s.file = octets ++ rest)
    (hahead : CipherAhead header s.cipherChunkRemaining s.cipherFinalChunk octets ahead)
    (hrun : (CipherFeedback.decryptor (P.aesEncrypt header.sessionKey)).run
      (cfbState (Octets.zero 16)) fed = (consumed ++ s.pending, s.cfb))
    (hpos : consumed.length = s.streamPos) (hmdc : s.mdc = consumed.take (header.encLength - 20))

section Chunks

variable {file file' octets rest ahead : Bytes} {chunkRemaining chunkRemaining' : ℕ}
  {finalChunk finalChunk' : Bool}

/-- However many octets are looked at, the length that is decoded is the one there. -/
theorem Announces.of_take {header data tail : Bytes} {n headerSize length count : ℕ}
    {more isPartial : Bool} (h : Announces header n more) (hdata : data = header ++ tail)
    (hdec : decodeNewFormatBodyLength (data.take count) = some (headerSize, length, isPartial)) :
    headerSize = header.length ∧ length = n ∧ isPartial = more := by
  obtain ⟨hread, -⟩ := decodeNewFormatBodyLength_mono hdec (data.drop count)
  obtain ⟨hthere, -⟩ := decodeNewFormatBodyLength_mono h tail
  rw [List.take_append_drop, hdata, hthere] at hread
  cases hread
  exact ⟨rfl, rfl, rfl⟩

theorem nextCipherChunk_ahead (hchunked : Chunked Announces chunkRemaining finalChunk octets ahead)
    (hfile : file = octets ++ rest)
    (h : nextCipherChunk file chunkRemaining finalChunk =
      some (file', chunkRemaining', finalChunk')) :
    ∃ octets', file' = octets' ++ rest ∧
      Chunked Announces chunkRemaining' finalChunk' octets' ahead := by
  fun_induction nextCipherChunk file chunkRemaining finalChunk generalizing octets with
  | case1 =>
      cases h
      exact ⟨octets, hfile, hchunked⟩
  | case2 => cases h
  | case3 => cases h
  | case4 => cases h
  | case5 => cases h
  | case6 chunkRemaining finalChunk hempty hmore first tail chunkHeader hread size chunkLength
      isPartial hdec ih =>
      obtain rfl : chunkRemaining = 0 := not_not.mp hempty
      rw [Bool.eq_false_of_not_eq_true hmore] at hchunked
      obtain ⟨header, n, more, octets', hheader, rfl, hoctets'⟩ := hchunked.header
      rw [List.append_assoc] at hfile
      rw [readOctets, List.drop_zero] at hread
      split_ifs at hread
      obtain rfl := Option.some.inj hread
      obtain ⟨-, rfl, rfl⟩ := hheader.of_take hfile hdec
      obtain ⟨first', header', rfl⟩ := List.exists_cons_of_length_pos hheader.pos
      rw [List.cons_append] at hfile
      obtain ⟨rfl, rfl⟩ := List.cons.inj hfile
      have hsize : newFormatBodyLengthHeaderSize first - 1 = header'.length := by
        rw [← headerSize_eq hheader, List.length_cons, Nat.add_sub_cancel]
      rw [hsize, List.drop_left] at ih h
      exact ih hoctets' rfl h

end Chunks

namespace SeipReader

variable {P : Primitives} {header : DecryptFileHeader} {cipher : Bytes} {s s' : SeipReader}

theorem nextCipher_ahead {octets rest ahead file' : Bytes} {chunkRemaining' : ℕ}
    {finalChunk' : Bool}
    (hahead : CipherAhead header s.cipherChunkRemaining s.cipherFinalChunk octets ahead)
    (hfile : s.file = octets ++ rest)
    (h : s.nextCipher header = some (file', chunkRemaining', finalChunk')) :
    ∃ octets', file' = octets' ++ rest ∧
      CipherAhead header chunkRemaining' finalChunk' octets' ahead := by
  rw [CipherAhead] at hahead
  rw [nextCipher] at h
  simp only [CipherAhead]
  split_ifs at hahead h ⊢
  · exact nextCipherChunk_ahead hahead hfile h
  · cases h
    exact ⟨octets, hfile, hahead⟩

/-- What is read at once is the front of the ciphertext ahead. -/
theorem take_ahead {octets rest ahead file : Bytes} {chunkRemaining count : ℕ} {finalChunk : Bool}
    (hahead : CipherAhead header chunkRemaining finalChunk octets ahead)
    (hfile : file = octets ++ rest) (hcount : count ≤ ahead.length)
    (hchunk : header.seipPartial = true → count ≤ chunkRemaining) :
    file.take count = ahead.take count ∧ ∃ octets', file.drop count = octets' ++ rest ∧
      CipherAhead header
        (if header.seipPartial then chunkRemaining - count else chunkRemaining) finalChunk octets'
        (ahead.drop count) := by
  rw [CipherAhead] at hahead
  simp only [CipherAhead]
  split_ifs at hahead ⊢ with hpartial
  · obtain ⟨hle, octets', rfl, hahead'⟩ := hahead.take (hchunk hpartial)
    have hlength : (ahead.take count).length = count := by
      rw [List.length_take]
      omega
    rw [hfile, List.append_assoc, List.take_left' hlength, List.drop_left' hlength]
    exact ⟨rfl, octets', rfl, hahead'⟩
  · rw [hfile, hahead, List.take_append_of_le_length hcount, List.drop_append_of_le_length hcount]
    exact ⟨rfl, _, rfl, rfl⟩

theorem Reads.readCipher (hreads : Reads P header cipher s)
    (h : s.readCipher P header = some s') : Reads P header cipher s' ∧ s'.streamPos = s.streamPos := by
  obtain ⟨hcipher, hremaining, hfile, hahead, hrun, hpos, hmdc⟩ := hreads
  rename_i fed ahead octets rest consumed
  obtain ⟨file, chunkRemaining, finalChunk, piece, hnext, hpiece, -, rfl⟩ :=
    readCipher_cases P header h
  obtain ⟨octets', hfile', hahead'⟩ := nextCipher_ahead hahead hfile hnext
  have hceiling : s.readCeiling header chunkRemaining ≤ ahead.length ∧
      (header.seipPartial = true → s.readCeiling header chunkRemaining ≤ chunkRemaining) := by
    rw [readCeiling, hremaining]
    split_ifs with hpartial
    · exact ⟨Nat.min_le_left _ _, fun _ => Nat.min_le_right _ _⟩
    · exact ⟨le_rfl, fun htrue => absurd htrue hpartial⟩
  generalize hcount : min (s.readCeiling header chunkRemaining) PGP_FILE_CHUNK_SIZE = count at hpiece
  have hle : count ≤ ahead.length := hcount ▸ (Nat.min_le_left _ _).trans hceiling.1
  obtain ⟨htake, octets'', hdrop, hahead''⟩ := take_ahead hahead' hfile' hle
    fun hpartial => hcount ▸ (Nat.min_le_left _ _).trans (hceiling.2 hpartial)
  rw [htake] at hpiece
  have hlength : piece.length = count := by
    rw [hpiece, List.length_take]
    omega
  refine ⟨@Reads.mk _ _ _ _ (fed ++ piece) (ahead.drop count) octets'' rest consumed
    ?_ ?_ ?_ ?_ ?_ hpos hmdc, rfl⟩
  · rw [hpiece, List.append_assoc, List.take_append_drop, hcipher]
  · rw [List.length_drop, hremaining, decipher, hlength]
  · rw [decipher, hlength]
    exact hdrop
  · rw [decipher, hlength]
    exact hahead''
  · rw [Transducer.run_append, hrun, decipher, List.append_assoc]

theorem Reads.ensurePending {minBytes : ℕ} (hreads : Reads P header cipher s)
    (h : s.ensurePending P header minBytes = some s') :
    Reads P header cipher s' ∧ s'.streamPos = s.streamPos ∧ minBytes ≤ s'.pending.length := by
  fun_induction SeipReader.ensurePending P header s minBytes with
  | case1 s hle =>
      cases h
      exact ⟨hreads, rfl, hle⟩
  | case2 => cases h
  | case3 s hlt next hnext ih =>
      obtain ⟨hreads', hpos⟩ := hreads.readCipher hnext
      obtain ⟨hfinal, hpos', hle⟩ := ih hreads' h
      exact ⟨hfinal, hpos'.trans hpos, hle⟩

/-- What is pending is the front of what is to come. -/
theorem Reads.pending (hreads : Reads P header cipher s) :
    ∃ more, At (decipheredData P header cipher) s.streamPos (s.pending ++ more) := by
  obtain ⟨rfl, -, -, -, hrun, hpos, -⟩ := hreads
  rename_i ahead octets rest consumed
  refine ⟨((CipherFeedback.decryptor (P.aesEncrypt header.sessionKey)).run s.cfb ahead).1, consumed,
    ?_, hpos⟩
  rw [decipheredData, cfbDecrypt, Transducer.run_append, hrun, List.append_assoc]

theorem Reads.take_pending {octets : Bytes} {count : ℕ} (hreads : Reads P header cipher s)
    (hat : At (decipheredData P header cipher) s.streamPos octets)
    (hcount : count ≤ s.pending.length) :
    s.pending.take count = octets.take count ∧ count ≤ octets.length := by
  obtain ⟨more, hpending⟩ := hreads.pending
  obtain rfl := hat.unique hpending
  rw [List.take_append_of_le_length hcount, List.length_append]
  exact ⟨rfl, hcount.trans (Nat.le_add_right _ _)⟩

/-- The digest has been fed with all that was consumed in front of the code. -/
theorem Reads.mdc (hreads : Reads P header cipher s) :
    s.mdc = ((decipheredData P header cipher).take s.streamPos).take (header.encLength - 20) := by
  obtain ⟨rfl, -, -, -, hrun, hpos, hmdc⟩ := hreads
  rename_i ahead octets rest consumed
  rw [hmdc, decipheredData, cfbDecrypt, Transducer.run_append, hrun, ← hpos, List.append_assoc,
    List.take_left]

theorem Reads.consumeForHash {count : ℕ} (hreads : Reads P header cipher s)
    (hcount : count ≤ s.pending.length) :
    Reads P header cipher (s.consumeForHash header count) := by
  obtain ⟨hcipher, hremaining, hfile, hahead, hrun, hpos, hmdc⟩ := hreads
  rename_i fed ahead octets rest consumed
  have hlength : (s.pending.take count).length = count := by
    rw [List.length_take]
    omega
  refine @Reads.mk _ _ _ _ fed ahead octets rest (consumed ++ s.pending.take count)
    hcipher hremaining hfile hahead ?_ ?_ ?_
  · rw [SeipReader.consumeForHash, List.append_assoc, List.take_append_drop, hrun]
  · rw [List.length_append, hlength, hpos, SeipReader.consumeForHash]
  · rw [SeipReader.consumeForHash, List.take_append, hmdc, hpos, List.take_take]
    dsimp only
    split_ifs with hfront
    · congr 2
      omega
    · rw [Nat.sub_eq_zero_of_le (not_lt.mp hfront), Nat.zero_min, List.take_zero, List.append_nil]

theorem Reads.consume_at {octets : Bytes} {count : ℕ}
    (hat : At (decipheredData P header cipher) s.streamPos octets) (hcount : count ≤ octets.length) :
    At (decipheredData P header cipher) (s.consumeForHash header count).streamPos
      (octets.drop count) := by
  have hsplit := hat
  rw [← List.take_append_drop count octets] at hsplit
  have hnext := hsplit.advance
  rw [List.length_take, Nat.min_eq_left hcount] at hnext
  exact hnext

end SeipReader

/-! ### The loops over a body -/

/-- How the content that is to come lies in the octets to come. -/
def InnerBody.Ahead (body : InnerBody) (octets content : Bytes) : Prop :=
  if body.innerPartial then Chunked Announces body.remaining body.innerFinalChunk octets content
  else octets = content ∧ content.length = body.remaining

theorem InnerBody.ahead_of_carries {length : BodyLength} {octets content : Bytes}
    (h : length.Carries octets content) :
    InnerBody.Ahead ⟨length.isChunked, length.announced octets.length, false⟩ octets content := by
  cases length with
  | definite n => exact h
  | indeterminate => exact ⟨h, congrArg List.length h.symm⟩
  | chunked first => exact h

theorem InnerBody.Ahead.done {body : InnerBody} {octets content : Bytes}
    (h : body.Ahead octets content) (hdone : body.done = true) : octets = [] ∧ content = [] := by
  rw [InnerBody.Ahead] at h
  rw [InnerBody.done] at hdone
  by_cases hpartial : body.innerPartial = true
  · rw [if_pos hpartial, Bool.and_eq_true, beq_iff_eq] at hdone
    rw [if_pos hpartial, hdone.1, hdone.2] at h
    obtain ⟨rfl, hlength⟩ := Chunked.final_iff.mp h
    exact ⟨List.length_eq_zero_iff.mp hlength, List.length_eq_zero_iff.mp hlength⟩
  · rw [if_neg hpartial, beq_iff_eq] at hdone
    rw [if_neg hpartial, hdone] at h
    obtain ⟨rfl, hlength⟩ := h
    exact ⟨List.length_eq_zero_iff.mp hlength, List.length_eq_zero_iff.mp hlength⟩

/-- A piece that lies in one chunk is content. -/
theorem InnerBody.Ahead.take {body : InnerBody} {octets content : Bytes} {count : ℕ}
    (h : body.Ahead octets content) (hcount : count ≤ body.remaining) :
    octets.take count = content.take count ∧ count ≤ octets.length ∧ count ≤ content.length ∧
      (body.take count).Ahead (octets.drop count) (content.drop count) := by
  rw [InnerBody.Ahead] at h
  rw [show (body.take count).Ahead _ _ = if body.innerPartial then _ else _ from rfl]
  by_cases hpartial : body.innerPartial = true
  · rw [if_pos hpartial] at h ⊢
    obtain ⟨hle, octets', rfl, hahead⟩ := Chunked.take h hcount
    have hlength : (content.take count).length = count := by
      rw [List.length_take]
      omega
    rw [List.take_left' hlength, List.drop_left' hlength, List.length_append, hlength]
    exact ⟨rfl, Nat.le_add_right _ _, hle, hahead⟩
  · rw [if_neg hpartial] at h ⊢
    obtain ⟨rfl, hlength⟩ := h
    rw [List.length_drop, hlength]
    exact ⟨rfl, hcount, hcount, rfl, rfl⟩

section Loops

variable {P : Primitives} {header : DecryptFileHeader} {cipher tail : Bytes} {s s' : SeipReader}
  {body body' : InnerBody} {octets content : Bytes}

theorem ensureInnerChunk_reads (hreads : s.Reads P header cipher)
    (hat : At (decipheredData P header cipher) s.streamPos (octets ++ tail))
    (hahead : body.Ahead octets content)
    (h : ensureInnerChunk P header s body = some (s', body')) :
    s'.Reads P header cipher ∧ ∃ octets',
      At (decipheredData P header cipher) s'.streamPos (octets' ++ tail) ∧
        body'.Ahead octets' content := by
  fun_induction ensureInnerChunk P header s body generalizing octets with
  | case1 s body hinert =>
      cases h
      exact ⟨hreads, octets, hat, hahead⟩
  | case2 => cases h
  | case3 => cases h
  | case4 => cases h
  | case5 => cases h
  | case6 s body hempty hmore s₁ hfirst size s₂ hheader headerSize chunkLength isPartial hdec =>
      rename_i ih
      obtain ⟨hwhole, hzero⟩ := not_or.mp hempty
      have hpartial := Bool.of_not_eq_false hwhole
      rw [InnerBody.Ahead, if_pos hpartial, not_not.mp hzero,
        Bool.eq_false_of_not_eq_true hmore] at hahead
      obtain ⟨announced, n, more, octets', hannounced, rfl, hoctets'⟩ := hahead.header
      obtain ⟨hreads₁, hpos₁, -⟩ := hreads.ensurePending hfirst
      obtain ⟨hreads₂, hpos₂, hsize₂⟩ := hreads₁.ensurePending hheader
      rw [← hpos₁, ← hpos₂, List.append_assoc] at hat
      obtain ⟨htake, -⟩ := hreads₂.take_pending hat hsize₂
      have hsmall := (decodeNewFormatBodyLength_mono hdec []).2
      rw [List.length_take] at hsmall
      rw [htake] at hdec
      obtain ⟨rfl, rfl, rfl⟩ := hannounced.of_take rfl hdec
      have hnext := SeipReader.Reads.consume_at hat
        (show announced.length ≤ (announced ++ (octets' ++ tail)).length by
          rw [List.length_append]; exact Nat.le_add_right _ _)
      rw [List.drop_left] at hnext
      refine ih (hreads₂.consumeForHash (by omega)) hnext ?_ h
      rw [InnerBody.Ahead, if_pos hpartial]
      exact hoctets'

/-- The loop hands on the content of the body, in pieces, and ends just behind it. -/
theorem streamBody_reads {σ : Type} {limit : ℕ} {hlimit : 0 < limit}
    {sink : σ → Bytes → Except Failure σ} {state state' : σ} (hreads : s.Reads P header cipher)
    (hat : At (decipheredData P header cipher) s.streamPos (octets ++ tail))
    (hahead : body.Ahead octets content)
    (h : streamBody P header limit hlimit sink s body state = .ok (s', state')) :
    s'.Reads P header cipher ∧ At (decipheredData P header cipher) s'.streamPos tail ∧
      ∃ pieces : List Bytes, pieces.flatten = content ∧ (∀ piece ∈ pieces, piece.length ≤ limit) ∧
        pieces.foldlM sink state = .ok state' := by
  fun_induction streamBody P header limit hlimit sink s body state generalizing octets content with
  | case1 s body state hdone =>
      obtain ⟨rfl, rfl⟩ := hahead.done hdone
      cases h
      exact ⟨hreads, hat, [], rfl, fun _ h => (nomatch h), rfl⟩
  | case2 => cases h
  | case3 => cases h
  | case4 => cases h
  | case5 s body state hgoes s₁ body' hchunk s₂ hpending takeNow next hsink =>
      rename_i ih
      obtain ⟨hreads₁, octets₁, hat₁, hahead₁⟩ := ensureInnerChunk_reads hreads hat hahead hchunk
      obtain ⟨hreads₂, hpos₂, -⟩ := hreads₁.ensurePending hpending
      rw [← hpos₂] at hat₁
      have htake : takeNow ≤ s₂.pending.length := (Nat.min_le_left _ _).trans (Nat.min_le_left _ _)
      obtain ⟨hpiece, hlong, hlong', hahead₂⟩ := hahead₁.take
        (show takeNow ≤ body'.remaining from (Nat.min_le_left _ _).trans (Nat.min_le_right _ _))
      obtain ⟨hfront, -⟩ := hreads₂.take_pending hat₁ htake
      rw [List.take_append_of_le_length hlong, hpiece] at hfront
      have hnext := SeipReader.Reads.consume_at hat₁
        (show takeNow ≤ (octets₁ ++ tail).length by rw [List.length_append]; omega)
      rw [List.drop_append_of_le_length hlong] at hnext
      obtain ⟨hreads', hat', pieces, hflatten, hlimits, hfold⟩ :=
        ih (hreads₂.consumeForHash htake) hnext hahead₂ h
      refine ⟨hreads', hat', content.take takeNow :: pieces, ?_, ?_, ?_⟩
      · rw [List.flatten_cons, hflatten, List.take_append_drop]
      · intro piece hmem
        rcases List.mem_cons.mp hmem with rfl | hmem
        · exact (List.length_take_le _ _).trans (Nat.min_le_right _ _)
        · exact hlimits piece hmem
      · rw [hfront] at hsink
        rw [List.foldlM_cons, hsink]
        exact hfold

end Loops

end HashCryptoLib.Pgp
