import HashCryptoLib.Pgp.SeipStream
import HashCryptoLib.Pgp.BufferRoundTrip

/-!
What a decrypted file may do to the file it is to replace. The streamed
decryption accepts a protected packet only if the octets it has consumed end
with the right code, and it has then written what the packet inside says. Two
things stand between that and a safe call: the old output file is deleted before
the new one is moved to its place, and nothing compares the end of the packet
inside with the end of the protected data.
-/

namespace HashCryptoLib.Pgp

open BigEndian Cursor Chunks

/-- What a packet inside the protected one says: the content of a literal packet, or of
the literal packet that is all of a compressed one. -/
def Holds (P : Primitives) (tag : UInt8) (body plaintext : Bytes) : Prop :=
  tag = PGP_TAG_LITERAL_DATA ∧ literalContent body = some plaintext ∨
    tag = PGP_TAG_COMPRESSED_DATA ∧ ∃ compAlgo compData decompressed literal,
      body = compAlgo :: compData ∧ decompressBody P compAlgo compData = some decompressed ∧
        IsPacket PGP_TAG_LITERAL_DATA literal decompressed ∧
        literalContent literal = some plaintext

/-! ### Decompressing -/

section Decompress

variable {env : OutputEnv} {whole : Bytes → Option Bytes} {inflating : Inflating whole}

/-- What has come out of the decompressor has gone through the drain. -/
def Inflated (inflating : Inflating whole) (s : Inflation) : Prop :=
  ∃ out, inflating.put s.fed = some out ∧ s.retrieved = out.length ∧ s.decoded.Drained out

theorem putPiece_inflated {s s' : Inflation} {piece : Bytes} (hinflated : Inflated inflating s)
    (hpiece : piece.length ≤ INFLATE_PIECE) (h : putPiece env inflating s piece = .ok s') :
    Inflated inflating s' ∧ s'.fed = s.fed ++ piece := by
  obtain ⟨before, hput, hretrieved, hdrained⟩ := hinflated
  rw [putPiece] at h
  cases hout : inflating.put (s.fed ++ piece) with
  | none =>
      rw [hout] at h
      cases h
  | some out =>
      obtain ⟨before', after, hput', rfl, hsmall⟩ := inflating.put_append hpiece hout
      obtain rfl := Option.some.inj (hput.symm.trans hput')
      rw [hout] at h
      dsimp only at h
      rw [hretrieved, List.drop_left] at h
      cases hdrain : s.decoded.drainDecoded env after with
      | error failure =>
          rw [hdrain] at h
          cases h
      | ok decoded =>
          rw [hdrain] at h
          cases h
          exact ⟨⟨_, hout, rfl, Decoded.drainDecoded_drained hdrained hsmall hdrain⟩, rfl⟩

theorem foldlM_putPiece {pieces : List Bytes} {s s' : Inflation} (hinflated : Inflated inflating s)
    (hpieces : ∀ piece ∈ pieces, piece.length ≤ INFLATE_PIECE)
    (h : pieces.foldlM (putPiece env inflating) s = .ok s') :
    Inflated inflating s' ∧ s'.fed = s.fed ++ pieces.flatten := by
  induction pieces generalizing s with
  | nil =>
      cases h
      exact ⟨hinflated, (List.append_nil _).symm⟩
  | cons piece pieces ih =>
      rw [List.foldlM_cons] at h
      cases hput : putPiece env inflating s piece with
      | error failure =>
          rw [hput] at h
          cases h
      | ok next =>
          rw [hput] at h
          obtain ⟨hnext, hfed⟩ := putPiece_inflated hinflated (hpieces piece (.head _)) hput
          obtain ⟨hfinal, hall⟩ := ih hnext (fun piece hmem => hpieces piece (.tail _ hmem)) h
          refine ⟨hfinal, ?_⟩
          rw [hall, hfed, List.flatten_cons, List.append_assoc]

theorem foldlM_drainDecoded {pieces : List Bytes} {total : Bytes} {s s' : Decoded}
    (hdrained : s.Drained total) (hpieces : ∀ piece ∈ pieces, piece.length < 2 ^ 31)
    (h : pieces.foldlM (Decoded.drainDecoded env) s = .ok s') :
    s'.Drained (total ++ pieces.flatten) := by
  induction pieces generalizing s total with
  | nil =>
      cases h
      rw [List.flatten_nil, List.append_nil]
      exact hdrained
  | cons piece pieces ih =>
      rw [List.foldlM_cons] at h
      cases hdrain : s.drainDecoded env piece with
      | error failure =>
          rw [hdrain] at h
          cases h
      | ok next =>
          rw [hdrain] at h
          have hnext := Decoded.drainDecoded_drained hdrained (hpieces piece (.head _)) hdrain
          have hall := ih hnext (fun piece hmem => hpieces piece (.tail _ hmem)) h
          rw [List.flatten_cons, ← List.append_assoc]
          exact hall

theorem flatten_bzip2Pieces (decompressed : Bytes) :
    (bzip2Pieces decompressed).flatten = decompressed := by
  rw [bzip2Pieces]
  split_ifs with hnil
  · rw [hnil]
    rfl
  · exact flatten_chunksOf (by norm_num) decompressed

theorem length_bzip2Pieces (decompressed : Bytes) :
    ∀ piece ∈ bzip2Pieces decompressed, piece.length < 2 ^ 31 := by
  intro piece hmem
  rw [bzip2Pieces] at hmem
  split_ifs at hmem with hnil
  · rw [List.mem_singleton.mp hmem]
    norm_num
  · have hlength := length_of_mem_chunksOf hmem
    omega

theorem foldlM_collect {pieces : List Bytes} (fed : Bytes) :
    pieces.foldlM (fun fed piece => (.ok (fed ++ piece) : Except Failure Bytes)) fed =
      .ok (fed ++ pieces.flatten) := by
  induction pieces generalizing fed with
  | nil => rw [List.flatten_nil, List.append_nil, List.foldlM_nil]; rfl
  | cons piece pieces ih =>
      rw [List.foldlM_cons, List.flatten_cons, ← List.append_assoc]
      exact ih (fed ++ piece)

end Decompress

/-! ### The packet inside -/

section Inner

variable {P : Primitives} {inflators : Inflators P} {env : OutputEnv} {header : DecryptFileHeader}
  {cipher octets tail content written : Bytes} {s s' : SeipReader} {body : InnerBody}

theorem skipPending_reads {count : ℕ} (hreads : s.Reads P header cipher)
    (hat : At (decipheredData P header cipher) s.streamPos octets)
    (h : skipPending P header s count = some s') :
    s'.Reads P header cipher ∧ count ≤ octets.length ∧
      At (decipheredData P header cipher) s'.streamPos (octets.drop count) := by
  rw [skipPending, Option.map_eq_some_iff] at h
  obtain ⟨next, hpending, rfl⟩ := h
  obtain ⟨hnext, hpos, hcount⟩ := hreads.ensurePending hpending
  rw [← hpos] at hat
  obtain ⟨-, hle⟩ := hnext.take_pending hat hcount
  exact ⟨hnext.consumeForHash hcount, hle, SeipReader.Reads.consume_at hat hle⟩

theorem foldlM_writeLiteral {totalContentBytes : ℕ} {pieces : List Bytes} {written written' : Bytes}
    (h : pieces.foldlM (writeLiteral env totalContentBytes) written = .ok written') :
    written' = written ++ pieces.flatten := by
  induction pieces generalizing written with
  | nil =>
      cases h
      rw [List.flatten_nil, List.append_nil]
  | cons piece pieces ih =>
      rw [List.foldlM_cons] at h
      cases hwrite : writeLiteral env totalContentBytes written piece with
      | error failure =>
          rw [hwrite] at h
          cases h
      | ok next =>
          rw [hwrite] at h
          rw [writeLiteral] at hwrite
          split_ifs at hwrite
          cases hwrite
          rw [ih h, List.flatten_cons, List.append_assoc]

theorem literalContent_drop {content : Bytes} {length : ℕ} (hle : length ≤ content.length)
    (hlength : length = 2 + (content.getD 1 0).toNat + 4) :
    literalContent content = some (content.drop length) := by
  rw [literalContent, if_neg (by omega)]
  dsimp only
  rw [if_neg (by omega), hlength]

/-- A literal packet is written out to its end. -/
theorem decryptLiteral_reads (hreads : s.Reads P header cipher)
    (hat : At (decipheredData P header cipher) s.streamPos (octets ++ tail))
    (hahead : body.Ahead octets content)
    (h : decryptLiteral P env header s body = .ok (s', written)) :
    s'.Reads P header cipher ∧ At (decipheredData P header cipher) s'.streamPos tail ∧
      literalContent content = some written := by
  rw [decryptLiteral] at h
  cases hpending : s.ensurePending P header 2 with
  | none =>
      rw [hpending] at h
      cases h
  | some s₁ =>
      obtain ⟨hreads₁, hpos₁, htwo⟩ := hreads.ensurePending hpending
      rw [← hpos₁] at hat
      obtain ⟨hfront, htwo'⟩ := hreads₁.take_pending hat htwo
      have hreads₂ := hreads₁.consumeForHash htwo
      have hat₂ := SeipReader.Reads.consume_at hat htwo'
      have hname : s₁.pending.getD 1 0 = (octets ++ tail).getD 1 0 := by
        have hget := congrArg (·.getD 1 0) hfront
        simpa only [List.getD_eq_getElem?_getD, List.getElem?_take_of_lt (show 1 < 2 by norm_num)]
          using hget
      rw [hpending] at h
      dsimp only at h
      generalize hsize : (s₁.pending.getD 1 0).toNat = filenameLength at h
      by_cases hfits : body.prefixFits (2 + filenameLength + 4) = false
      · rw [if_pos hfits] at h
        cases h
      rw [if_neg hfits] at h
      cases hskip : skipPending P header (s₁.consumeForHash header 2) filenameLength with
      | none =>
          rw [hskip] at h
          cases h
      | some s₃ =>
          obtain ⟨hreads₃, -, hat₃⟩ := skipPending_reads hreads₂ hat₂ hskip
          rw [hskip] at h
          dsimp only at h
          cases hdate : skipPending P header s₃ 4 with
          | none =>
              rw [hdate] at h
              cases h
          | some s₄ =>
              obtain ⟨hreads₄, -, hat₄⟩ := skipPending_reads hreads₃ hat₃ hdate
              rw [hdate] at h
              dsimp only at h
              by_cases hshort : body.remaining < 2 + filenameLength + 4
              · rw [if_pos hshort] at h
                cases h
              rw [if_neg hshort] at h
              obtain ⟨htake, hlong, hlong', hrest⟩ := hahead.take (Nat.le_of_not_lt hshort)
              rw [List.drop_drop, List.drop_drop, ← Nat.add_assoc,
                List.drop_append_of_le_length hlong] at hat₄
              obtain ⟨hreads', hat', pieces, hflatten, -, hfold⟩ :=
                streamBody_reads hreads₄ hat₄ hrest h
              have hwritten := foldlM_writeLiteral hfold
              rw [List.nil_append, hflatten] at hwritten
              refine ⟨hreads', hat', ?_⟩
              rw [hwritten]
              refine literalContent_drop hlong' ?_
              have hget := congrArg (·.getD 1 0) htake
              simp only [List.getD_eq_getElem?_getD,
                List.getElem?_take_of_lt (show 1 < 2 + filenameLength + 4 by omega)] at hget
              rw [← hsize, hname, List.getD_eq_getElem?_getD, List.getElem?_append_left (by omega),
                hget, ← List.getD_eq_getElem?_getD]

theorem inflateBody_reads {whole : Bytes → Option Bytes} {inflating : Inflating whole}
    {decoded : Decoded} (hreads : s.Reads P header cipher)
    (hat : At (decipheredData P header cipher) s.streamPos (octets ++ tail))
    (hahead : body.Ahead octets content)
    (h : inflateBody P env header inflating s body = .ok (s', decoded)) :
    s'.Reads P header cipher ∧ At (decipheredData P header cipher) s'.streamPos tail ∧
      ∃ decompressed, whole content = some decompressed ∧ decoded.Drained decompressed := by
  rw [inflateBody] at h
  cases hstream : streamBody P header INFLATE_PIECE (by decide) (putPiece env inflating) s body
      {} with
  | error failure =>
      rw [hstream] at h
      cases h
  | ok result =>
      obtain ⟨s₁, inflation⟩ := result
      obtain ⟨hreads₁, hat₁, pieces, rfl, hpieces, hfold⟩ :=
        streamBody_reads hreads hat hahead hstream
      have hstart : Inflated inflating {} := ⟨[], inflating.put_nil, rfl, Decoded.drained_nil⟩
      obtain ⟨⟨before, hput, hretrieved, hdrained⟩, hfed⟩ := foldlM_putPiece hstart hpieces hfold
      rw [show ({} : Inflation).fed = [] from rfl, List.nil_append] at hfed
      rw [hstream] at h
      dsimp only at h
      cases hwhole : whole inflation.fed with
      | none =>
          rw [hwhole] at h
          cases h
      | some out =>
          obtain ⟨before', after, hput', rfl, hsmall⟩ := inflating.put_whole hwhole
          obtain rfl := Option.some.inj (hput.symm.trans hput')
          rw [hwhole] at h
          dsimp only at h
          rw [hretrieved, List.drop_left] at h
          cases hdrain : inflation.decoded.drainDecoded env after with
          | error failure =>
              rw [hdrain] at h
              cases h
          | ok final =>
              rw [hdrain] at h
              cases h
              rw [← hfed]
              exact ⟨hreads₁, hat₁, _, hwhole,
                Decoded.drainDecoded_drained hdrained hsmall hdrain⟩

theorem bzip2Body_reads {decoded : Decoded} (hreads : s.Reads P header cipher)
    (hat : At (decipheredData P header cipher) s.streamPos (octets ++ tail))
    (hahead : body.Ahead octets content) (h : bzip2Body P env header s body = .ok (s', decoded)) :
    s'.Reads P header cipher ∧ At (decipheredData P header cipher) s'.streamPos tail ∧
      ∃ decompressed, bzip2DecompressBuffer content = some decompressed ∧
        decoded.Drained decompressed := by
  rw [bzip2Body] at h
  cases hstream : streamBody P header INFLATE_PIECE (by decide)
      (fun fed piece => (.ok (fed ++ piece) : Except Failure Bytes)) s body [] with
  | error failure =>
      rw [hstream] at h
      cases h
  | ok result =>
      obtain ⟨s₁, compressed⟩ := result
      obtain ⟨hreads₁, hat₁, pieces, rfl, -, hfold⟩ := streamBody_reads hreads hat hahead hstream
      rw [foldlM_collect, List.nil_append] at hfold
      obtain rfl := Except.ok.inj hfold
      rw [hstream] at h
      dsimp only at h
      cases hdecode : bzip2DecompressBuffer pieces.flatten with
      | none =>
          rw [hdecode] at h
          cases h
      | some decompressed =>
          rw [hdecode] at h
          dsimp only at h
          cases hdrain : (bzip2Pieces decompressed).foldlM (Decoded.drainDecoded env) {} with
          | error failure =>
              rw [hdrain] at h
              cases h
          | ok final =>
              have hdrained := foldlM_drainDecoded Decoded.drained_nil
                (length_bzip2Pieces decompressed) hdrain
              rw [flatten_bzip2Pieces, List.nil_append] at hdrained
              rw [hdrain] at h
              cases h
              exact ⟨hreads₁, hat₁, decompressed, rfl, hdrained⟩

theorem algorithm_cases : ∀ algorithm : UInt8, ¬ algorithm > 3 → ¬ algorithm = 3 →
    ¬ algorithm = 2 → ¬ algorithm = 1 → algorithm = 0 := by
  decide +kernel

theorem decompressingBody_reads {algorithm : UInt8} {decoded : Decoded}
    (hknown : ¬ algorithm > 3) (hreads : s.Reads P header cipher)
    (hat : At (decipheredData P header cipher) s.streamPos (octets ++ tail))
    (hahead : body.Ahead octets content)
    (h : decompressingBody P inflators env header algorithm s body = .ok (s', decoded)) :
    s'.Reads P header cipher ∧ At (decipheredData P header cipher) s'.streamPos tail ∧
      ∃ decompressed, decompressBody P algorithm content = some decompressed ∧
        decoded.Drained decompressed := by
  rw [decompressingBody] at h
  split_ifs at h with h3 h2 h1
  · subst h3
    exact bzip2Body_reads hreads hat hahead h
  · subst h2
    exact inflateBody_reads hreads hat hahead h
  · subst h1
    exact inflateBody_reads hreads hat hahead h
  · obtain rfl := algorithm_cases algorithm hknown h3 h2 h1
    exact inflateBody_reads hreads hat hahead h

/-- A compressed packet is written out to the end of the literal packet in it. -/
theorem decryptCompressed_reads (hreads : s.Reads P header cipher)
    (hat : At (decipheredData P header cipher) s.streamPos (octets ++ tail))
    (hahead : body.Ahead octets content)
    (h : decryptCompressed P inflators env header s body = .ok (s', written)) :
    s'.Reads P header cipher ∧ At (decipheredData P header cipher) s'.streamPos tail ∧
      Holds P PGP_TAG_COMPRESSED_DATA content written := by
  rw [decryptCompressed] at h
  dsimp only at h
  by_cases hlong : body.remaining < 1 ∨ body.innerPartial = false ∧
      body.remaining > header.encLength - 20 - s.streamPos - 2
  · rw [if_pos hlong] at h
    cases h
  rw [if_neg hlong] at h
  have hone : 1 ≤ body.remaining := not_lt.mp (not_or.mp hlong).1
  cases hpending : s.ensurePending P header 1 with
  | none =>
      rw [hpending] at h
      cases h
  | some s₁ =>
      obtain ⟨hreads₁, hpos₁, hone'⟩ := hreads.ensurePending hpending
      rw [← hpos₁] at hat
      obtain ⟨htake, hoctets, hcontent, hrest⟩ := hahead.take hone
      obtain ⟨hfront, hone''⟩ := hreads₁.take_pending hat hone'
      have hat₂ := SeipReader.Reads.consume_at hat hone''
      rw [List.drop_append_of_le_length hoctets] at hat₂
      rw [List.take_append_of_le_length hoctets, htake] at hfront
      obtain ⟨compAlgo, compData, rfl⟩ := List.exists_cons_of_length_pos hcontent
      obtain ⟨first, pending, hfirst⟩ := List.exists_cons_of_length_pos hone'
      have hhead : s₁.pending.headD 0 = compAlgo := by
        rw [hfirst] at hfront ⊢
        exact (List.cons.inj hfront).1
      rw [hpending] at h
      dsimp only at h
      split_ifs at h with hfits hknown
      rw [hhead] at h hknown
      cases hinner : decompressingBody P inflators env header compAlgo
          (s₁.consumeForHash header 1) (body.take 1) with
      | error failure =>
          rw [hinner] at h
          cases h
      | ok result =>
          obtain ⟨s₂, decoded⟩ := result
          obtain ⟨hreads', hat', decompressed, hdecompress, hdrained⟩ :=
            decompressingBody_reads hknown (hreads₁.consumeForHash hone') hat₂ hrest hinner
          rw [hinner] at h
          dsimp only at h
          split_ifs at h with hcomplete
          cases h
          obtain ⟨literal, hliteral, hplaintext⟩ := Decoded.written_of_complete hdrained hcomplete
          exact ⟨hreads', hat', .inr ⟨rfl, compAlgo, compData, decompressed, literal, rfl,
            hdecompress, hliteral, hplaintext⟩⟩

theorem decryptInner_reads {tag : UInt8} (hreads : s.Reads P header cipher)
    (hat : At (decipheredData P header cipher) s.streamPos (octets ++ tail))
    (hahead : body.Ahead octets content)
    (h : decryptInner P inflators env header tag s body = .ok (s', written)) :
    s'.Reads P header cipher ∧ At (decipheredData P header cipher) s'.streamPos tail ∧
      Holds P tag content written := by
  rw [decryptInner] at h
  split_ifs at h with hcompressed hliteral
  · subst hcompressed
    exact decryptCompressed_reads hreads hat hahead h
  · subst hliteral
    obtain ⟨hreads', hat', hcontent⟩ := decryptLiteral_reads hreads hat hahead h
    exact ⟨hreads', hat', .inl ⟨rfl, hcontent⟩⟩

end Inner

/-! ### The protected packet -/

/-- Protected data that is whole: the octets of the prefix, one packet, and the packet with
the code. -/
def Encloses (plain packet trailer : Bytes) : Prop :=
  ∃ front, plain = front ++ packet ++ trailer ∧ front.length = 18 ∧ trailer.length = 22 ∧
    ∃ tag body, IsPacket tag body packet

/-- Protected data whose code is right for all of it, and what it says. -/
def Authentic (P : Primitives) (plain plaintext : Bytes) : Prop :=
  ∃ front packet tag body, front.length = 18 ∧ IsPacket tag body packet ∧
    Holds P tag body plaintext ∧
    plain = front ++ packet ++
      ([0xD3, 0x14] ++ (P.sha1 (front ++ packet ++ [0xD3, 0x14])).1)

section Stream

variable {P : Primitives} {inflators : Inflators P} {env : OutputEnv} {header : DecryptFileHeader}
  {cipher written : Bytes} {s s' : SeipReader}

theorem probeInnerHeader_reads {sizes : List ℕ} {inner : PacketHeader}
    (hreads : s.Reads P header cipher)
    (h : s.probeInnerHeader P header sizes = some (inner, s')) :
    s'.Reads P header cipher ∧ s'.streamPos = s.streamPos ∧
      ∃ count ≤ s'.pending.length,
        readPacketHeader (s'.pending.take count) 0 none true = some inner := by
  induction sizes generalizing s with
  | nil => cases h
  | cons size sizes ih =>
      rw [SeipReader.probeInnerHeader] at h
      cases hpending : s.ensurePending P header size with
      | none =>
          rw [hpending] at h
          cases h
      | some next =>
          obtain ⟨hreads', hpos', hsize⟩ := hreads.ensurePending hpending
          rw [hpending] at h
          dsimp only at h
          cases hread : readPacketHeader (next.pending.take size) 0 none true with
          | none =>
              rw [hread] at h
              obtain ⟨hfinal, hpos, hfound⟩ := ih hreads' h
              exact ⟨hfinal, hpos.trans hpos', hfound⟩
          | some found =>
              rw [hread] at h
              cases h
              exact ⟨hreads', hpos', size, hsize, hread⟩

theorem SeipReader.Reads.headD_pending {front rest : Bytes} (hreads : s.Reads P header cipher)
    (hne : front ≠ []) (hat : At (decipheredData P header cipher) s.streamPos (front ++ rest))
    (hcount : front.length ≤ s.pending.length) : s.pending.headD 0 = front.headD 0 := by
  obtain ⟨first, front, rfl⟩ := List.exists_cons_of_ne_nil hne
  have htake := (hreads.take_pending hat hcount).1
  rw [List.take_left] at htake
  obtain ⟨first', pending, hpending⟩ := List.exists_cons_of_length_pos
    (show 0 < s.pending.length from Nat.lt_of_lt_of_le (Nat.succ_pos _) hcount)
  rw [hpending] at htake ⊢
  exact (List.cons.inj htake).1

/-- The header that is found in front of a packet is the packet's. -/
theorem probeInnerHeader_sound {sizes : List ℕ} {inner : PacketHeader} {tag : UInt8}
    {innerHeader rest : Bytes} {length : BodyLength} (hreads : s.Reads P header cipher)
    (hheader : HeaderOf tag innerHeader length)
    (hat : At (decipheredData P header cipher) s.streamPos (innerHeader ++ rest))
    (h : s.probeInnerHeader P header sizes = some (inner, s')) :
    ∃ seen, inner = ⟨tag, length.announced seen, innerHeader.length, length.isChunked⟩ ∧
      s'.Reads P header cipher ∧ s'.streamPos = s.streamPos ∧
      innerHeader.length ≤ s'.pending.length ∧ s'.pending.headD 0 = innerHeader.headD 0 := by
  obtain ⟨hreads', hpos, count, hcount, hread⟩ := probeInnerHeader_reads hreads h
  rw [← hpos] at hat
  obtain ⟨htake, -⟩ := hreads'.take_pending hat hcount
  obtain ⟨tag', header', length', ahead, hheader', hat', rfl⟩ := HeaderOf.of_read_eq hread
  -- the octets that were read start with both headers
  have hsame : header' ++ (ahead ++ (innerHeader ++ rest).drop count) = innerHeader ++ rest := by
    rw [← List.append_assoc, ← hat'.drop_eq, List.drop_zero, htake, List.take_append_drop]
  obtain ⟨rfl, rfl, -, rfl⟩ := hheader'.unique hheader hsame
  have hlong : header'.length ≤ s'.pending.length := by
    have hle := congrArg List.length hat'.drop_eq
    rw [List.drop_zero, List.length_take, List.length_append] at hle
    omega
  refine ⟨ahead.length, ?_, hreads', hpos, hlong, hreads'.headD_pending hheader.ne_nil hat hlong⟩
  rw [Nat.zero_add]

/-- At the end of the protected data, the code is compared with the digest of all that
stands in front of it. -/
theorem trailerMatches_reads {front trailer : Bytes}
    (hlength : cipher.length = header.encLength) (hreads : s.Reads P header cipher)
    (hplain : decipheredData P header cipher = front ++ trailer) (htrailer : trailer.length = 22)
    (hpos : s.streamPos = front.length) (h : trailerMatches P header s = true) :
    trailer = [0xD3, 0x14] ++ (P.sha1 (front ++ [0xD3, 0x14])).1 := by
  rw [trailerMatches] at h
  cases hpending : s.ensurePending P header 22 with
  | none =>
      rw [hpending] at h
      cases h
  | some next =>
      obtain ⟨hnext, hpos', hcount⟩ := hreads.ensurePending hpending
      have hat : At (decipheredData P header cipher) next.streamPos trailer :=
        ⟨front, hplain, by rw [hpos', hpos]⟩
      obtain ⟨htake, -⟩ := hnext.take_pending hat hcount
      rw [List.take_of_length_le htrailer.le] at htake
      rw [hpending] at h
      dsimp only at h
      rw [Bool.and_eq_true, beq_iff_eq, beq_iff_eq, (hnext.consumeForHash hcount).mdc] at h
      obtain ⟨hmarker, hcode⟩ := h
      have hmarker' : trailer.take 2 = [0xD3, 0x14] := by
        rw [← hmarker, ← htake, List.take_take]
        rfl
      have hcode' : (next.pending.drop 2).take 20 = trailer.drop 2 := by
        rw [← htake, List.drop_take]
      have hall : (decipheredData P header cipher).length = front.length + 22 := by
        rw [hplain, List.length_append, htrailer]
      have hstream : (next.consumeForHash header 22).streamPos = front.length + 22 := by
        rw [SeipReader.consumeForHash, hpos', hpos]
      have hhashed : ((decipheredData P header cipher).take
          (next.consumeForHash header 22).streamPos).take (header.encLength - 20) =
            front ++ [0xD3, 0x14] := by
        have henc : header.encLength - 20 = front.length + 2 := by
          rw [← hlength, ← length_decipheredData P header cipher, hall]
          rfl
        rw [hstream, List.take_of_length_le hall.le, hplain, henc, List.take_length_add_append,
          hmarker']
      rw [hhashed, hcode'] at hcode
      rw [hcode, ← hmarker', List.take_append_drop]

/-- What the streamed decryption accepts is authentic, where the packet inside is all there
is in front of the code. -/
theorem decryptSeipBodyStreaming_sound {file packet trailer : Bytes}
    (hlength : cipher.length = header.encLength)
    (hstart : (startReader P header file).Reads P header cipher)
    (hencloses : Encloses (decipheredData P header cipher) packet trailer)
    (h : decryptSeipBodyStreaming P inflators env header file = .ok written) :
    Authentic P (decipheredData P header cipher) written := by
  obtain ⟨front, hplain, hfront, htrailer, tag, body, hpacket⟩ := hencloses
  have hall := congrArg List.length hplain
  rw [length_decipheredData, List.length_append, List.length_append, hfront, htrailer] at hall
  rw [decryptSeipBodyStreaming] at h
  split_ifs at h with hshort
  cases hskip : skipPending P header (startReader P header file) 18 with
  | none =>
      rw [hskip] at h
      cases h
  | some s₁ =>
      have hat : At (decipheredData P header cipher) (startReader P header file).streamPos
          (front ++ (packet ++ trailer)) := by
        rw [← List.append_assoc, ← hplain]
        exact at_zero _
      obtain ⟨hreads₁, -, hat₁⟩ := skipPending_reads hstart hat hskip
      rw [List.drop_left' hfront] at hat₁
      rw [hskip] at h
      dsimp only at h
      cases hprobe : s₁.probeInnerHeader P header probeSizes with
      | none =>
          rw [hprobe] at h
          cases h
      | some found =>
          -- the header that was probed for is the one of the packet inside
          obtain ⟨inner, s₂⟩ := found
          obtain ⟨innerHeader, length, ahead, hheader, hcarries, rfl⟩ := isPacket_iff.mp hpacket
          rw [List.append_assoc] at hat₁
          obtain ⟨seen, rfl, hreads₂, hpos₂, hlong, hfirst⟩ :=
            probeInnerHeader_sound hreads₁ hheader hat₁ hprobe
          rw [← hpos₂] at hat₁
          have hreads₃ := hreads₂.consumeForHash hlong
          have hat₃ := SeipReader.Reads.consume_at hat₁
            (show innerHeader.length ≤ (innerHeader ++ (ahead ++ trailer)).length by simp)
          rw [List.drop_left] at hat₃
          have hleft := hat₃.length_eq
          rw [length_decipheredData, List.length_append, htrailer] at hleft
          rw [hprobe] at h
          dsimp only at h
          rw [hfirst] at h
          by_cases hpast : isIndeterminate (innerHeader.headD 0) = true ∧
              (s₂.consumeForHash header innerHeader.length).streamPos > header.encLength - 22
          · rw [if_pos hpast] at h
            cases h
          rw [if_neg hpast] at h
          have hremaining : header.encLength - 22 -
              (s₂.consumeForHash header innerHeader.length).streamPos = ahead.length := by
            omega
          rw [hheader.remaining_eq hremaining] at h
          cases hinner : decryptInner P inflators env header tag
              (s₂.consumeForHash header innerHeader.length)
              ⟨length.isChunked, length.announced ahead.length, false⟩ with
          | error failure =>
              rw [hinner] at h
              cases h
          | ok result =>
              obtain ⟨s₃, content⟩ := result
              obtain ⟨hreads₄, hat₄, hholds⟩ := decryptInner_reads hreads₃ hat₃
                (InnerBody.ahead_of_carries hcarries) hinner
              rw [hinner] at h
              dsimp only at h
              split_ifs at h with hmatches
              cases h
              -- the packet is read to its end, so that the code stands next
              have hend : s₃.streamPos = (front ++ (innerHeader ++ ahead)).length := by
                have hrest := hat₄.length_eq
                rw [length_decipheredData, htrailer] at hrest
                rw [List.length_append, hfront]
                omega
              have hcode := trailerMatches_reads hlength hreads₄ hplain htrailer hend hmatches
              exact ⟨front, innerHeader ++ ahead, tag, body, hfront, hpacket, hholds,
                hplain.trans (congrArg (front ++ (innerHeader ++ ahead) ++ ·) hcode)⟩

end Stream

/-! ### The front of the file -/

/-- A protected packet of version 1 stands at `pos`, whole, with this ciphertext. -/
def ProtectedPacket (content : Bytes) (pos : ℕ) (cipher : Bytes) : Prop :=
  ∃ packet : FramedPacket, packet.tag = PGP_TAG_SEIP ∧ packet.body = 1 :: cipher ∧
    ∃ rest, At content pos (packet.octets ++ rest)

section Front

variable {P : Primitives} {key : DecryptionKey} {content cipher octets rest body : Bytes}
  {header : DecryptFileHeader}

/-- The walk over the chunk headers adds up the body. -/
theorem scanPartialBodyTotalLength_chunked (hchunked : Chunked Announces 0 false octets body)
    {offset : ℕ} (hat : At content offset (octets ++ rest)) (total : ℕ) :
    scanPartialBodyTotalLength content offset total = some (total + body.length) := by
  induction hsize : octets.length using Nat.strong_induction_on
    generalizing octets body offset total with
  | _ size ih =>
      obtain ⟨announced, n, more, ahead, hannounced, rfl, hahead⟩ := hchunked.header
      have hpos := hannounced.pos
      have hlength := hat.length_eq
      rw [List.append_assoc] at hat
      rw [List.length_append, List.length_append] at hlength
      rw [List.length_append] at hsize
      have hfive : announced.length ≤ 5 := by
        cases more with
        | false =>
            obtain ⟨form, -, rfl⟩ := hannounced.final
            cases form <;> simp [NewLength.octets]
        | true =>
            obtain ⟨exponent, -, -, rfl⟩ := hannounced.more
            simp
      have hdecode : decodeNewFormatBodyLength ((content.drop offset).take 5) =
          some (announced.length, n, more) := by
        rw [hat.drop_eq, List.take_append, List.take_of_length_le hfive]
        exact (decodeNewFormatBodyLength_mono hannounced _).1
      obtain ⟨hle, ahead', rfl, hahead'⟩ := hahead.take le_rfl
      have hn : (body.take n).length = n := by
        rw [List.length_take]
        omega
      rw [Nat.sub_self] at hahead'
      rw [List.length_append, hn] at hlength hsize
      rw [scanPartialBodyTotalLength, dif_neg (by omega)]
      split
      · rename_i hnone
        rw [hdecode] at hnone
        cases hnone
      · rename_i hsome
        rw [hdecode] at hsome
        cases hsome
        cases more with
        | true =>
            rw [if_pos rfl]
            have hnext := hat.advance
            rw [List.append_assoc] at hnext
            have hnext' := hnext.advance
            rw [hn, Nat.add_assoc] at hnext'
            rw [ih ahead'.length (by omega) hahead' hnext' _ rfl, List.length_drop]
            congr 1
            omega
        | false =>
            obtain ⟨rfl, hdone⟩ := Chunked.final_iff.mp hahead'
            rw [hdone] at hlength
            rw [if_neg (by simp), if_neg (by omega)]
            rw [List.length_drop] at hdone
            congr 1
            omega

theorem readSeipHeader_cases {buf : Bytes} {pos : ℕ} {seip : PacketHeader}
    (h : readSeipHeader buf pos = some seip) :
    readPacketHeader buf pos none true = some seip ∧ seip.tag = PGP_TAG_SEIP ∧
      seip.bodyPos < buf.length := by
  rw [readSeipHeader, Option.filter_eq_some_iff] at h
  obtain ⟨htag, hversion⟩ := of_decide_eq_true h.2
  exact ⟨h.1, htag, (List.getElem?_eq_some_iff.mp hversion).1⟩

/-- A protected packet that is whole, as it lies behind the header that was read. -/
theorem protectedPacket_ahead {size pos : ℕ} {seip : PacketHeader}
    (h : readSeipHeader (content.take size) pos = some seip)
    (hpacket : ProtectedPacket content pos cipher) :
    ∃ ahead rest, At content seip.bodyPos (ahead ++ rest) ∧
      (seip.isPartial = false ∧ ahead = 1 :: cipher ∧ seip.bodyLength = cipher.length + 1 ∨
        seip.isPartial = true ∧
          Chunked Announces seip.bodyLength false ahead (1 :: cipher)) := by
  obtain ⟨hread, htag, -⟩ := readSeipHeader_cases h
  obtain ⟨tag, header, length, rest, hheader, hat, rfl⟩ := HeaderOf.of_read_eq hread
  obtain ⟨packet, htag', hbody, rest', hat'⟩ := hpacket
  obtain ⟨header', length', ahead, hheader', hcarries, hoctets⟩ :=
    isPacket_iff.mp (.inl ⟨packet, htag', hbody, rfl⟩)
  have hwhole := hat.extend (content.drop size)
  rw [List.take_append_drop, List.append_assoc] at hwhole
  rw [hoctets, List.append_assoc] at hat'
  obtain ⟨-, rfl, -, rfl⟩ := hheader.unique hheader' (hwhole.unique hat')
  refine ⟨ahead, rest', hat'.advance, ?_⟩
  cases hheader' with
  | newFormat =>
      obtain ⟨rfl, hlength⟩ := hcarries
      exact .inl ⟨rfl, rfl, hlength.symm⟩
  | chunked => exact .inr ⟨rfl, hcarries⟩
  | oldFormat form hsmall => exact absurd hsmall (by decide)
  | indeterminate hsmall => exact absurd hsmall (by decide)

/-- The reader starts at the front of the protected packet. -/
theorem startReader_reads {file : Bytes} {ahead : Bytes}
    (hcipher : cipher = header.leftoverCipher ++ ahead) (hlength : cipher.length = header.encLength)
    (hfile : file = octets ++ rest)
    (hahead : CipherAhead header header.seipChunkRemaining header.seipFinalChunk octets ahead) :
    (startReader P header file).Reads P header cipher := by
  refine @SeipReader.Reads.mk _ _ _ _ header.leftoverCipher ahead octets rest [] hcipher ?_ hfile
    hahead rfl rfl List.take_nil.symm
  show ahead.length = header.encLength - header.leftoverCipher.length
  rw [← hlength, hcipher, List.length_append, Nat.add_sub_cancel_left]

/-- Of some octets at `pos`, those in the first `size` octets of the data, and the others
behind them. -/
theorem read_front {data front rest : Bytes} {pos : ℕ} (size : ℕ)
    (hdrop : data.drop pos = front ++ rest) (hsize : pos ≤ size) (hpos : pos ≤ data.length) :
    ((data.take size).drop pos).take front.length = front.take (size - pos) ∧
      ∃ rest', data.drop (data.take size).length = front.drop (size - pos) ++ rest' := by
  constructor
  · rw [List.drop_take, hdrop, List.take_take, Nat.min_comm, ← List.take_take, List.take_left]
  · by_cases hshort : front.length ≤ size - pos
    · exact ⟨_, by rw [List.drop_of_length_le hshort, List.nil_append]⟩
    · have hlength := congrArg List.length hdrop
      rw [List.length_drop, List.length_append] at hlength
      have hall : (data.take size).length = pos + (size - pos) := by
        rw [List.length_take]
        omega
      refine ⟨rest, ?_⟩
      rw [hall, ← List.drop_drop, hdrop, List.drop_append_of_le_length (by omega)]

/-- A protected packet in chunks is as long as they are together, and is read behind its version. -/
theorem startReader_chunked {sessionKey : Bytes} {seip : PacketHeader} {ahead : Bytes}
    {totalPayload : ℕ} (hchunked : Chunked Announces seip.bodyLength false ahead (1 :: cipher))
    (hat : At content seip.bodyPos (ahead ++ rest)) (hone : 1 ≤ seip.bodyLength)
    (hscan : scanPartialBodyTotalLength content (seip.bodyPos + seip.bodyLength) seip.bodyLength =
      some totalPayload)
    (hheader : header = { sessionKey, encLength := totalPayload - 1, leftoverCipher := []
                          filePos := seip.bodyPos + 1, seipPartial := true
                          seipChunkRemaining := seip.bodyLength - 1 }) :
    cipher.length = header.encLength ∧
      (startReader P header (content.drop header.filePos)).Reads P header cipher := by
  subst hheader
  obtain ⟨hle, ahead₁, rfl, hrest⟩ := hchunked.take le_rfl
  have hfirst : ((1 :: cipher).take seip.bodyLength).length = seip.bodyLength := by
    rw [List.length_take]
    omega
  rw [List.append_assoc] at hat
  have hnext := hat.advance
  rw [Nat.sub_self] at hrest
  rw [hfirst] at hnext
  rw [scanPartialBodyTotalLength_chunked hrest hnext, List.length_drop, List.length_cons] at hscan
  rw [List.length_cons] at hle
  -- the sum of the chunks counts the version octet too
  have htotal : totalPayload - 1 = cipher.length := by
    have hsum := Option.some.inj hscan
    omega
  obtain ⟨-, ahead₂, heq, hbehind⟩ := hchunked.take hone
  rw [← List.append_assoc, heq] at hat
  refine ⟨htotal.symm, @startReader_reads _ _ ahead₂ rest _ _ cipher rfl htotal.symm
    hat.next.drop_eq ?_⟩
  rw [CipherAhead, if_pos rfl]
  exact hbehind

/-- A protected packet in one piece is read on behind what the front of the file has of it. -/
theorem startReader_whole {sessionKey : Bytes} {seip : PacketHeader}
    (hat : At content seip.bodyPos (1 :: cipher ++ rest))
    (hlength : seip.bodyLength = cipher.length + 1)
    (hbuf : seip.bodyPos < (content.take PREFIX_SIZE).length)
    (hheader : header = { sessionKey, encLength := sizeSub seip.bodyLength 1
                          leftoverCipher := ((content.take PREFIX_SIZE).drop
                            (seip.bodyPos + 1)).take (sizeSub seip.bodyLength 1)
                          filePos := (content.take PREFIX_SIZE).length }) :
    cipher.length = header.encLength ∧
      (startReader P header (content.drop header.filePos)).Reads P header cipher := by
  subst hheader
  have hsize : sizeSub seip.bodyLength 1 = cipher.length := by
    rw [hlength, sizeSub_of_le (Nat.le_add_left _ _), Nat.add_sub_cancel]
  have hdrop : content.drop (seip.bodyPos + 1) = cipher ++ rest := hat.next.drop_eq
  have hlong := hat.length_eq
  rw [List.length_append, List.length_cons] at hlong
  rw [List.length_take] at hbuf
  -- the packet may end inside the prefix or go on behind it
  obtain ⟨hleft, rest', hfile⟩ := read_front PREFIX_SIZE hdrop (by omega) (by omega)
  have hsplit := (List.take_append_drop (PREFIX_SIZE - (seip.bodyPos + 1)) cipher).symm
  refine ⟨hsize.symm, startReader_reads ?_ hsize.symm hfile rfl⟩
  show cipher = ((content.take PREFIX_SIZE).drop (seip.bodyPos + 1)).take
    (sizeSub seip.bodyLength 1) ++ _
  rw [hsize, hleft]
  exact hsplit

/-- What is found at the front of a file, and where the reader stands then in a protected
packet that is whole. -/
theorem parseEncryptedFileHeader_reads
    (h : parseEncryptedFileHeader P key content = some header) :
    ∃ found pos, findFileSessionKey P key (content.take PREFIX_SIZE) 0 none = some (found, pos) ∧
      found.bind sessionKeyOf = some header.sessionKey ∧
      ∀ cipher, ProtectedPacket content pos cipher → cipher.length = header.encLength ∧
        (startReader P header (content.drop header.filePos)).Reads P header cipher := by
  rw [parseEncryptedFileHeader] at h
  dsimp only at h
  cases hfind : findFileSessionKey P key (content.take PREFIX_SIZE) 0 none with
  | none =>
      rw [hfind] at h
      cases h
  | some result =>
      obtain ⟨found, pos⟩ := result
      rw [hfind] at h
      dsimp only at h
      cases hkey : found.bind sessionKeyOf with
      | none =>
          rw [hkey] at h
          cases h
      | some sessionKey =>
          rw [hkey] at h
          dsimp only at h
          cases hseip : readSeipHeader (content.take PREFIX_SIZE) pos with
          | none =>
              rw [hseip] at h
              cases h
          | some seip =>
              rw [hseip] at h
              dsimp only at h
              by_cases hsplit : seip.isPartial = true
              · rw [if_pos hsplit] at h
                cases hscan : scanPartialBodyTotalLength content (seip.bodyPos + seip.bodyLength)
                    seip.bodyLength with
                | none =>
                    rw [hscan] at h
                    cases h
                | some totalPayload =>
                    rw [hscan] at h
                    dsimp only at h
                    split_ifs at h with hempty
                    have hheader := (Option.some.inj h).symm
                    refine ⟨found, pos, rfl, by rw [hkey, hheader], fun cipher hpacket => ?_⟩
                    obtain ⟨ahead, rest, hat, ⟨hwhole, -⟩ | ⟨-, hchunked⟩⟩ :=
                      protectedPacket_ahead hseip hpacket
                    · rw [hsplit] at hwhole
                      cases hwhole
                    · exact startReader_chunked hchunked hat (by omega) hscan hheader
              · rw [if_neg hsplit] at h
                have hheader := (Option.some.inj h).symm
                refine ⟨found, pos, rfl, by rw [hkey, hheader], fun cipher hpacket => ?_⟩
                obtain ⟨ahead, rest, hat, ⟨-, rfl, hlength⟩ | ⟨hchunked, -⟩⟩ :=
                  protectedPacket_ahead hseip hpacket
                · exact startReader_whole hat hlength (readSeipHeader_cases hseip).2.2 hheader
                · exact absurd hchunked hsplit

end Front

/-! ### The call -/

/-- What is in the protected packet of a file, which this key opens. -/
def InProtected (P : Primitives) (key : DecryptionKey) (content : Bytes) (Q : Bytes → Prop) :
    Prop :=
  ∃ found pos sessionKey cipher,
    findFileSessionKey P key (content.take PREFIX_SIZE) 0 none = some (found, pos) ∧
      found.bind sessionKeyOf = some sessionKey ∧ ProtectedPacket content pos cipher ∧
      Q (cfbDecrypt P sessionKey (Octets.zero 16) cipher)

/-- The message a file holds is whole, its code is right for all of it, and it says
`plaintext`. -/
def SaysVerified (P : Primitives) (key : DecryptionKey) (content plaintext : Bytes) : Prop :=
  InProtected P key content fun plain => Authentic P plain plaintext

/-- The message a file holds is whole, and so is the packet in it, up to the code. -/
def WholeMessage (P : Primitives) (key : DecryptionKey) (content : Bytes) : Prop :=
  InProtected P key content fun plain => ∃ packet trailer, Encloses plain packet trailer

section Call

variable (P : Primitives) (inflators : Inflators P) (env : FileEnv)
  (password inputFilePath outputFilePath : Bytes) (impl : Impl) (files : FileSystem)

/-- The call gets to the point where it replaces the output file. -/
structure Reaches (inputPath outputPath : WidePath) (content written : Bytes) : Prop where
  accepted : rejects P impl password = false
  input : env.widePath inputFilePath = some inputPath
  output : env.widePath outputFilePath = some outputPath
  opened : env.openInput = true
  content_eq : files inputPath = some content
  created : env.createTemp = true
  temp_ne : pgptmpPath outputPath ≠ inputPath
  streamed : ∃ header, parseEncryptedFileHeader P impl.flatDecryptionKey content = some header ∧
    decryptSeipBodyStreaming P inflators env.toOutputEnv header (content.drop header.filePos) =
      .ok written

/-- A failed call leaves an old output file as it was; a successful one writes what a
verified message says. -/
def SafeOutcome : Prop :=
  let outcome := DecryptFile P inflators env password inputFilePath outputFilePath impl files
  (outcome.1 ≠ NO_ERROR → ∀ outputPath old, env.widePath outputFilePath = some outputPath →
    files outputPath = some old → outcome.2 outputPath = some old) ∧
  (outcome.1 = NO_ERROR → ∃ inputPath outputPath content plaintext,
    env.widePath inputFilePath = some inputPath ∧ env.widePath outputFilePath = some outputPath ∧
      files inputPath = some content ∧ outcome.2 outputPath = some plaintext ∧
      SaysVerified P impl.flatDecryptionKey content plaintext)

variable {P inflators env password inputFilePath outputFilePath impl files}

theorem pgptmpPath_ne (outputPath : WidePath) : outputPath ≠ pgptmpPath outputPath := by
  intro h
  have hlength := congrArg List.length h
  rw [pgptmpPath, List.length_append] at hlength
  exact absurd hlength.symm (by simp [ascii])

theorem replaceOutput_moved {inputPath outputPath : WidePath} (written : Bytes) (files : FileSystem)
    (h : env.moveTemp = true ∧ outputPath ≠ inputPath) :
    (replaceOutput env inputPath outputPath written files).1 = NO_ERROR ∧
      (replaceOutput env inputPath outputPath written files).2 outputPath = some written := by
  rw [replaceOutput, if_pos h]
  exact ⟨rfl, Function.update_self _ _ _⟩

/-- Where the temporary file is not moved, an old output file may be gone. -/
theorem replaceOutput_failed {inputPath outputPath : WidePath} (written : Bytes)
    (files : FileSystem) (h : ¬ (env.moveTemp = true ∧ outputPath ≠ inputPath)) :
    (replaceOutput env inputPath outputPath written files).1 = FILE_IO_ERROR ∧
      (replaceOutput env inputPath outputPath written files).2 outputPath =
        if env.deleteOutput = true ∧ outputPath ≠ inputPath then none else files outputPath := by
  rw [replaceOutput, if_neg h]
  refine ⟨rfl, (Function.update_of_ne (pgptmpPath_ne outputPath) _ _).trans ?_⟩
  split_ifs
  · exact Function.update_self _ _ _
  · exact Function.update_of_ne (pgptmpPath_ne outputPath) _ _

/-- Before that point nothing happens to the output file. -/
theorem DecryptFile_cases :
    (∃ inputPath outputPath content written,
      Reaches P inflators env password inputFilePath outputFilePath impl files inputPath outputPath
        content written ∧
      DecryptFile P inflators env password inputFilePath outputFilePath impl files =
        replaceOutput env inputPath outputPath written files) ∨
    (DecryptFile P inflators env password inputFilePath outputFilePath impl files).1 ≠ NO_ERROR ∧
      (∀ outputPath, env.widePath outputFilePath = some outputPath →
        (DecryptFile P inflators env password inputFilePath outputFilePath impl files).2 outputPath =
          files outputPath) ∧
      ∀ inputPath outputPath content written, ¬ Reaches P inflators env password inputFilePath
        outputFilePath impl files inputPath outputPath content written := by
  rw [DecryptFile]
  by_cases hrejects : rejects P impl password = true
  · rw [if_pos hrejects]
    refine .inr ⟨by simp, fun _ _ => rfl, fun _ _ _ _ h => ?_⟩
    rw [h.accepted] at hrejects
    cases hrejects
  rw [if_neg hrejects]
  cases hinput : env.widePath inputFilePath with
  | none => exact .inr ⟨by simp, fun _ _ => rfl, fun _ _ _ _ h => nomatch hinput.symm.trans h.input⟩
  | some inputPath =>
      cases houtput : env.widePath outputFilePath with
      | none =>
          exact .inr ⟨by simp, fun _ _ => rfl, fun _ _ _ _ h => nomatch houtput.symm.trans h.output⟩
      | some outputPath =>
          dsimp only
          have hpaths {inputPath' outputPath' : WidePath} {content written : Bytes}
              (h : Reaches P inflators env password inputFilePath outputFilePath impl files
                inputPath' outputPath' content written) :
              inputPath' = inputPath ∧ outputPath' = outputPath :=
            ⟨Option.some.inj (h.input.symm.trans hinput), Option.some.inj (h.output.symm.trans houtput)⟩
          cases hopen : (files inputPath).filter fun _ => env.openInput with
          | none =>
              refine .inr ⟨by simp, fun _ _ => rfl, fun _ _ _ _ h => ?_⟩
              obtain ⟨rfl, -⟩ := hpaths h
              rw [h.content_eq, Option.filter_some, if_pos h.opened] at hopen
              cases hopen
          | some content =>
              obtain ⟨hcontent, hopened⟩ := Option.filter_eq_some_iff.mp hopen
              dsimp only
              cases hparse : parseEncryptedFileHeader P impl.flatDecryptionKey content with
              | none =>
                  refine .inr ⟨by simp, fun _ _ => rfl, fun _ _ _ _ h => ?_⟩
                  obtain ⟨rfl, -⟩ := hpaths h
                  obtain rfl := Option.some.inj (h.content_eq.symm.trans hcontent)
                  obtain ⟨header, hheader, -⟩ := h.streamed
                  rw [hparse] at hheader
                  cases hheader
              | some header =>
                  dsimp only
                  by_cases htemp : env.createTemp = false ∨ pgptmpPath outputPath = inputPath
                  · rw [if_pos htemp]
                    refine .inr ⟨by simp, fun _ _ => rfl, fun _ _ _ _ h => ?_⟩
                    obtain ⟨rfl, rfl⟩ := hpaths h
                    rcases htemp with hfalse | heq
                    · rw [h.created] at hfalse
                      cases hfalse
                    · exact h.temp_ne heq
                  rw [if_neg htemp]
                  obtain ⟨hcreated, hne⟩ := not_or.mp htemp
                  cases hstream : decryptSeipBodyStreaming P inflators env.toOutputEnv header
                      (content.drop header.filePos) with
                  | error failure =>
                      refine .inr ⟨failure.2, fun path hpath => ?_, fun _ _ _ _ h => ?_⟩
                      · obtain rfl := Option.some.inj hpath
                        exact Function.update_of_ne (pgptmpPath_ne _) _ _
                      · obtain ⟨rfl, -⟩ := hpaths h
                        obtain rfl := Option.some.inj (h.content_eq.symm.trans hcontent)
                        obtain ⟨header', hheader, hstreamed⟩ := h.streamed
                        obtain rfl := Option.some.inj (hparse.symm.trans hheader)
                        rw [hstream] at hstreamed
                        cases hstreamed
                  | ok written =>
                      exact .inl ⟨inputPath, outputPath, content, written,
                        ⟨Bool.eq_false_of_not_eq_true hrejects, hinput, houtput, hopened, hcontent,
                          Bool.of_not_eq_false hcreated, hne, header, hparse, hstream⟩, rfl⟩

theorem Reaches.unique {inputPath inputPath' outputPath outputPath' : WidePath}
    {content content' written written' : Bytes}
    (h : Reaches P inflators env password inputFilePath outputFilePath impl files inputPath outputPath
      content written)
    (h' : Reaches P inflators env password inputFilePath outputFilePath impl files inputPath'
      outputPath' content' written') :
    inputPath = inputPath' ∧ outputPath = outputPath' ∧ content = content' ∧ written = written' := by
  obtain rfl := Option.some.inj (h.input.symm.trans h'.input)
  obtain rfl := Option.some.inj (h.output.symm.trans h'.output)
  obtain rfl := Option.some.inj (h.content_eq.symm.trans h'.content_eq)
  obtain ⟨header, hheader, hstreamed⟩ := h.streamed
  obtain ⟨header', hheader', hstreamed'⟩ := h'.streamed
  obtain rfl := Option.some.inj (hheader.symm.trans hheader')
  exact ⟨rfl, rfl, rfl, Except.ok.inj (hstreamed.symm.trans hstreamed')⟩

/-- What was written is what the message says, where the message is whole. -/
theorem Reaches.saysVerified {inputPath outputPath : WidePath} {content written : Bytes}
    (h : Reaches P inflators env password inputFilePath outputFilePath impl files inputPath outputPath
      content written) (hwhole : WholeMessage P impl.flatDecryptionKey content) :
    SaysVerified P impl.flatDecryptionKey content written := by
  obtain ⟨header, hparse, hstream⟩ := h.streamed
  obtain ⟨found, pos, hfind, hkey, hreads⟩ := parseEncryptedFileHeader_reads hparse
  obtain ⟨found', pos', sessionKey, cipher, hfind', hkey', hpacket, packet, trailer, hencloses⟩ :=
    hwhole
  obtain ⟨rfl, rfl⟩ := Prod.mk.inj (Option.some.inj (hfind.symm.trans hfind'))
  obtain rfl := Option.some.inj (hkey.symm.trans hkey')
  obtain ⟨hlength, hstart⟩ := hreads cipher hpacket
  exact ⟨found, pos, header.sessionKey, cipher, hfind, hkey, hpacket,
    decryptSeipBodyStreaming_sound hlength hstart hencloses hstream⟩

theorem wholeMessage_of_saysVerified {key : DecryptionKey} {content plaintext : Bytes}
    (h : SaysVerified P key content plaintext) : WholeMessage P key content := by
  obtain ⟨found, pos, sessionKey, cipher, hfind, hkey, hprotected, front, packet, tag, body, hfront,
    hpacket, -, hplain⟩ := h
  refine ⟨found, pos, sessionKey, cipher, hfind, hkey, hprotected, packet, _, front, hplain, hfront,
    ?_, tag, body, hpacket⟩
  simp

/-- The call is safe exactly where, once it gets to the point of replacing the output file,
an old file that was deleted is replaced, and what replaces it came out of a whole
message. -/
theorem safeOutcome_iff :
    SafeOutcome P inflators env password inputFilePath outputFilePath impl files ↔
      ∀ inputPath outputPath content written,
        Reaches P inflators env password inputFilePath outputFilePath impl files inputPath outputPath
          content written → outputPath ≠ inputPath →
          (files outputPath ≠ none → env.deleteOutput = true → env.moveTemp = true) ∧
          (env.moveTemp = true → WholeMessage P impl.flatDecryptionKey content) := by
  rw [SafeOutcome]
  obtain ⟨inputPath, outputPath, content, written, hreaches, hcall⟩ | ⟨hstatus, hsame, hearly⟩ :=
    @DecryptFile_cases P inflators env password inputFilePath outputFilePath impl files
  · rw [hcall]
    by_cases hmoved : env.moveTemp = true ∧ outputPath ≠ inputPath
    · obtain ⟨hstatus, hwritten⟩ := replaceOutput_moved written files hmoved
      constructor
      · rintro ⟨-, hverified⟩ inputPath' outputPath' content' written' hreaches' -
        obtain ⟨rfl, rfl, rfl, rfl⟩ := hreaches.unique hreaches'
        obtain ⟨inputPath', outputPath', content', plaintext, hinput, houtput, hcontent, -, hsays⟩ :=
          hverified hstatus
        obtain rfl := Option.some.inj (hinput.symm.trans hreaches.input)
        obtain rfl := Option.some.inj (hcontent.symm.trans hreaches.content_eq)
        exact ⟨fun _ _ => hmoved.1, fun _ => wholeMessage_of_saysVerified hsays⟩
      · intro hsafe
        obtain ⟨-, hwhole⟩ := hsafe _ _ _ _ hreaches hmoved.2
        exact ⟨fun hfailed => absurd hstatus hfailed, fun _ => ⟨inputPath, outputPath, content, written,
          hreaches.input, hreaches.output, hreaches.content_eq, hwritten,
          hreaches.saysVerified (hwhole hmoved.1)⟩⟩
    · obtain ⟨hstatus, hleft⟩ := replaceOutput_failed written files hmoved
      have hfailed : (replaceOutput env inputPath outputPath written files).1 ≠ NO_ERROR := by
        rw [hstatus]
        decide
      constructor
      · rintro ⟨hkept, -⟩ inputPath' outputPath' content' written' hreaches' hne
        obtain ⟨rfl, rfl, rfl, rfl⟩ := hreaches.unique hreaches'
        refine ⟨fun hold hdelete => ?_, fun hmove => absurd ⟨hmove, hne⟩ hmoved⟩
        obtain ⟨old, hold⟩ := Option.ne_none_iff_exists'.mp hold
        have hkept' := hkept hfailed outputPath old hreaches.output hold
        rw [hleft, if_pos ⟨hdelete, hne⟩] at hkept'
        cases hkept'
      · intro hsafe
        refine ⟨fun _ outputPath' old houtput hold => ?_, fun h => absurd h hfailed⟩
        obtain rfl := Option.some.inj (houtput.symm.trans hreaches.output)
        rw [hleft, if_neg, hold]
        rintro ⟨hdelete, hne⟩
        obtain ⟨hreplaced, -⟩ := hsafe _ _ _ _ hreaches hne
        exact hmoved ⟨hreplaced (by rw [hold]; exact Option.some_ne_none old) hdelete, hne⟩
  · refine ⟨fun _ _ _ _ _ h => absurd h (hearly _ _ _ _), fun _ => ⟨?_, fun h => absurd h hstatus⟩⟩
    intro _ outputPath old houtput hold
    rw [hsame outputPath houtput, hold]

end Call

/-! ### An old file that is lost -/

def standInInflators : Inflators standIn := ⟨stored, stored⟩

/-- A message for the identity whose subkey expires. -/
def letter : Bytes :=
  (buildEncryptedMessageMultiRecipient standIn mixedEnv
    [{ rsaPublicKey := shortLivedOwner.ownSubkeyPrivateKey.publicKey
       rsaKeyId := shortLivedOwner.ownSubkeyKeyId }] 9 (ascii "hi")).getD []

/-- The message in one file, and an older text in another. -/
def letterFiles : FileSystem := fun path =>
  if path = [97] then some letter else if path = [98] then some (ascii "old") else none

/-- A system that does all it is asked for, but does not move the temporary file. -/
def unmovedEnv : FileEnv where
  write _ _ := true
  onProgress _ _ := true
  widePath path := some (path.map UInt8.toUInt16)
  openInput := true
  createTemp := true
  deleteOutput := true
  moveTemp := false
  tempAfterDelete := none

/-- The call fails, and the older text is gone. -/
theorem letter_loses_old : ¬ SafeOutcome standIn standInInflators unmovedEnv (ascii "pw")
    (ascii "a") (ascii "b") shortLivedOwner letterFiles := by
  rintro ⟨hkept, -⟩
  have hold := hkept (by decide +kernel) [98] (ascii "old") (by decide) (by decide)
  revert hold
  decide +kernel

end HashCryptoLib.Pgp
