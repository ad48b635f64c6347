import HashCryptoLib.Lib.Chunks
import HashCryptoLib.Pgp.HeldKeys
import HashCryptoLib.Pgp.Armor
import HashCryptoLib.Pgp.Bzip2
import HashCryptoLib.Pgp.PacketForm

/-!
Decrypting a file. The front of the file gives the session key and the length of
the protected packet; its body is then deciphered piece by piece, the packets
inside are taken apart as they come, and what they hold goes to a temporary
file before the modification detection code at the end is seen. Only then is the
temporary file moved to where the caller wants it.
-/

namespace HashCryptoLib.Pgp

open BigEndian Chunks

/-! ### The front of the file -/

/-- `filePos` is where the file pointer is left. -/
structure DecryptFileHeader where
  sessionKey : Bytes
  encLength : ℕ
  leftoverCipher : Bytes
  filePos : ℕ
  seipPartial : Bool := false
  seipChunkRemaining : ℕ := 0
  seipFinalChunk : Bool := false
  deriving DecidableEq, Repr

/-- The walk over the chunk headers from `offset` on, behind `total` octets of
payload. -/
def scanPartialBodyTotalLength (content : Bytes) (offset total : ℕ) : Option ℕ :=
  if _hend : offset ≥ content.length then none
  else
    match _hdec : decodeNewFormatBodyLength ((content.drop offset).take 5) with
    | none => none
    | some (headerSize, chunkLength, isPartial) =>
      if isPartial then
        scanPartialBodyTotalLength content (offset + (headerSize + chunkLength))
          (total + chunkLength)
      else if offset + (headerSize + chunkLength) > content.length then none
      else some (total + chunkLength)
termination_by content.length - offset
decreasing_by
  have := headerSize_pos _hdec
  omega

section Front

variable (P : Primitives) (key : DecryptionKey)

/-- One session key packet. A packet of another kind or for another key is passed
over; `none` ends the search. A curve packet is opened even where a session key
has been found already. -/
def tryFilePkesk (buf : Bytes) (bodyPos pkeskEnd : ℕ) (found : Option Bytes) :
    Option (Option Bytes) :=
  if bodyPos ≥ pkeskEnd ∨ buf[bodyPos]? ≠ some 3 then some found
  else if bodyPos + 1 + 9 > pkeskEnd then some found
  else if buf[bodyPos + 9]? ≠ some (pkAlgorithmOctet key.algorithm) ∨
      readOctets buf (bodyPos + 1) 8 ≠ some key.keyId.1 then some found
  else
    let p := bodyPos + 10
    match key.algorithm with
    | PGP_KEY_ALGORITHM_RSA =>
      if found = none then openRsaPkesk P key buf p pkeskEnd
      else if p + 2 > pkeskEnd ∨
          p + 2 + octetsOfBits (readBigEndian16 buf p) > pkeskEnd then none
      else some found
    | PGP_KEY_ALGORITHM_ED25519_X25519 => some ((openEcdhPkesk P key buf p pkeskEnd).or found)

/-- The loop over the leading session key packets: the cleartext found, and
where the first other packet starts. -/
def findFileSessionKey (buf : Bytes) (pos : ℕ) (found : Option Bytes) :
    Option (Option Bytes × ℕ) :=
  match _hhead : readPacketHeader buf pos none false with
  | none => some (found, pos)
  | some header =>
    if _hend : header.tag ≠ PGP_TAG_PKESK ∨ header.bodyPos + header.bodyLength > buf.length then
      some (found, pos)
    else
      match tryFilePkesk P key buf header.bodyPos (header.bodyPos + header.bodyLength) found with
      | none => none
      | some found => findFileSessionKey buf (header.bodyPos + header.bodyLength) found
termination_by buf.length - pos
decreasing_by
  have := bodyPos_gt _hhead
  omega

/-- The header of the protected packet at `pos`, if that is one of version 1. -/
def readSeipHeader (buf : Bytes) (pos : ℕ) : Option PacketHeader :=
  (readPacketHeader buf pos none true).filter fun seip =>
    seip.tag = PGP_TAG_SEIP ∧ buf[seip.bodyPos]? = some 1

/-- What is read of the file in one piece. -/
def PREFIX_SIZE : ℕ := 65536

/-- The version octet is the first of the body, and of its first chunk. -/
def parseEncryptedFileHeader (content : Bytes) : Option DecryptFileHeader :=
  let buf := content.take PREFIX_SIZE
  match findFileSessionKey P key buf 0 none with
  | none => none
  | some (found, pos) =>
    match found.bind sessionKeyOf with
    | none => none
    | some sessionKey =>
      match readSeipHeader buf pos with
      | none => none
      | some seip =>
        let cipherPos := seip.bodyPos + 1
        if seip.isPartial then
          match scanPartialBodyTotalLength content (seip.bodyPos + seip.bodyLength)
              seip.bodyLength with
          | none => none
          | some totalPayload =>
            if seip.bodyLength < 1 ∨ totalPayload < 1 then none
            else
              some { sessionKey, encLength := totalPayload - 1, leftoverCipher := []
                     filePos := cipherPos, seipPartial := true
                     seipChunkRemaining := seip.bodyLength - 1 }
        else
          let encLength := sizeSub seip.bodyLength 1
          some { sessionKey, encLength, leftoverCipher := (buf.drop cipherPos).take encLength
                 filePos := buf.length }

end Front

/-! ### The deciphered stream -/

/-- The locals of the decryptor that move with the stream. `file` is what lies
behind the file pointer, `pending` what is deciphered and not yet consumed,
`mdc` what the digest has been fed. -/
structure SeipReader where
  file : Bytes
  cipherRemaining : ℕ
  cipherChunkRemaining : ℕ
  cipherFinalChunk : Bool
  cfb : CipherFeedback.State 16
  pending : Bytes
  streamPos : ℕ
  mdc : Bytes

/-- Stepping over chunk headers until there is ciphertext ahead. -/
def nextCipherChunk (file : Bytes) (chunkRemaining : ℕ) (finalChunk : Bool) :
    Option (Bytes × ℕ × Bool) :=
  if chunkRemaining ≠ 0 then some (file, chunkRemaining, finalChunk)
  else if finalChunk then none
  else
    match _hfile : file with
    | [] => none
    | first :: rest =>
      match readOctets (first :: rest) 0 (newFormatBodyLengthHeaderSize first) with
      | none => none
      | some chunkHeader =>
        match decodeNewFormatBodyLength chunkHeader with
        | none => none
        | some (_, chunkLength, isPartial) =>
          nextCipherChunk (rest.drop (newFormatBodyLengthHeaderSize first - 1)) chunkLength
            (!isPartial)
termination_by file.length
decreasing_by
  simp only [List.length_drop, List.length_cons]
  omega

theorem nextCipherChunk_le {file file' : Bytes} {chunkRemaining chunkRemaining' : ℕ}
    {finalChunk finalChunk' : Bool}
    (h : nextCipherChunk file chunkRemaining finalChunk =
      some (file', chunkRemaining', finalChunk')) : file'.length ≤ file.length := by
  fun_induction nextCipherChunk file chunkRemaining finalChunk with
  | case1 => grind
  | case2 => cases h
  | case3 => cases h
  | case4 => cases h
  | case5 => cases h
  | case6 _ _ _ first rest _ _ _ _ _ _ _ ih =>
      refine (ih h).trans ?_
      simp only [List.length_drop, List.length_cons]
      omega

namespace SeipReader

variable (P : Primitives) (header : DecryptFileHeader)

/-- Before the ciphertext is read, where the next of it stands. -/
def nextCipher (s : SeipReader) : Option (Bytes × ℕ × Bool) :=
  if header.seipPartial then nextCipherChunk s.file s.cipherChunkRemaining s.cipherFinalChunk
  else some (s.file, s.cipherChunkRemaining, s.cipherFinalChunk)

/-- No more is read than is left of the packet, and of the chunk. -/
def readCeiling (s : SeipReader) (chunkRemaining : ℕ) : ℕ :=
  if header.seipPartial then min s.cipherRemaining chunkRemaining else s.cipherRemaining

/-- Taking in what was read from the front of `file`. -/
def decipher (s : SeipReader) (file : Bytes) (chunkRemaining : ℕ) (finalChunk : Bool)
    (cipher : Bytes) : SeipReader :=
  let deciphered := (CipherFeedback.decryptor (P.aesEncrypt header.sessionKey)).run s.cfb cipher
  { s with
    file := file.drop cipher.length
    cipherRemaining := s.cipherRemaining - cipher.length
    cipherChunkRemaining :=
      if header.seipPartial then chunkRemaining - cipher.length else chunkRemaining
    cipherFinalChunk := finalChunk
    cfb := deciphered.2
    pending := s.pending ++ deciphered.1 }

/-- One turn of the loop in `ensurePending`. -/
def readCipher (s : SeipReader) : Option SeipReader :=
  if s.cipherRemaining = 0 then none
  else
    match s.nextCipher header with
    | none => none
    | some (file, chunkRemaining, finalChunk) =>
      let cipher := file.take (min (s.readCeiling header chunkRemaining) PGP_FILE_CHUNK_SIZE)
      if cipher = [] then none
      else some (s.decipher P header file chunkRemaining finalChunk cipher)

theorem readCipher_cases {s s' : SeipReader} (h : s.readCipher P header = some s') :
    ∃ file chunkRemaining finalChunk cipher,
      s.nextCipher header = some (file, chunkRemaining, finalChunk) ∧
        cipher = file.take (min (s.readCeiling header chunkRemaining) PGP_FILE_CHUNK_SIZE) ∧
        cipher ≠ [] ∧ s' = s.decipher P header file chunkRemaining finalChunk cipher := by
  rw [readCipher] at h
  split_ifs at h
  cases hnext : s.nextCipher header with
  | none =>
      rw [hnext] at h
      cases h
  | some next =>
      obtain ⟨file, chunkRemaining, finalChunk⟩ := next
      rw [hnext] at h
      dsimp only at h
      split_ifs at h with hread
      exact ⟨file, chunkRemaining, finalChunk, _, rfl, rfl, hread, (Option.some.inj h).symm⟩

theorem readCipher_lt {s s' : SeipReader} (h : s.readCipher P header = some s') :
    s'.file.length < s.file.length ∧
      s'.file.length + s'.pending.length ≤ s.file.length + s.pending.length := by
  obtain ⟨file, chunkRemaining, finalChunk, cipher, hnext, hcipher, hread, rfl⟩ :=
    readCipher_cases P header h
  have hfile : file.length ≤ s.file.length := by
    rw [nextCipher] at hnext
    split_ifs at hnext
    · exact nextCipherChunk_le hnext
    · cases hnext
      exact le_rfl
  have hle : cipher.length ≤ file.length := by
    rw [hcipher, List.length_take]
    exact Nat.min_le_right _ _
  have hpos := List.length_pos_iff.mpr hread
  simp only [decipher, List.length_drop, List.length_append, Transducer.length_run]
  omega

/-- At least `minBytes` octets deciphered and not yet consumed, unless the
ciphertext ends before. -/
def ensurePending (s : SeipReader) (minBytes : ℕ) : Option SeipReader :=
  if minBytes ≤ s.pending.length then some s
  else
    match _hread : s.readCipher P header with
    | none => none
    | some s' => ensurePending s' minBytes
termination_by s.file.length
decreasing_by exact (readCipher_lt P header _hread).1

/-- The digest is fed with what lies in front of the code at the end. -/
def consumeForHash (s : SeipReader) (count : ℕ) : SeipReader :=
  let mdcHashOffset := header.encLength - 20
  { s with
    mdc :=
      if s.streamPos < mdcHashOffset then
        s.mdc ++ s.pending.take (min (s.streamPos + count) mdcHashOffset - s.streamPos)
      else s.mdc
    streamPos := s.streamPos + count
    pending := s.pending.drop count }

/-- What the reader can still deliver, at most. -/
def octetsLeft (s : SeipReader) : ℕ := s.file.length + s.pending.length

theorem ensurePending_spec {s s' : SeipReader} {minBytes : ℕ}
    (h : s.ensurePending P header minBytes = some s') :
    minBytes ≤ s'.pending.length ∧ s'.octetsLeft ≤ s.octetsLeft := by
  fun_induction ensurePending P header s minBytes with
  | case1 s hle =>
      obtain rfl := Option.some.inj h
      exact ⟨hle, le_rfl⟩
  | case2 => cases h
  | case3 s hlt s' hread ih =>
      obtain ⟨hle, hleft⟩ := ih h
      exact ⟨hle, hleft.trans (readCipher_lt P header hread).2⟩

@[simp] theorem octetsLeft_consumeForHash (s : SeipReader) (count : ℕ) :
    (s.consumeForHash header count).octetsLeft = s.file.length + (s.pending.length - count) := by
  rw [octetsLeft, consumeForHash, List.length_drop]

/-- The header of the packet inside, looked for in more and more octets. -/
def probeInnerHeader (s : SeipReader) : List ℕ → Option (PacketHeader × SeipReader)
  | [] => none
  | probeSize :: probeSizes =>
    match s.ensurePending P header probeSize with
    | none => none
    | some s =>
      match readPacketHeader (s.pending.take probeSize) 0 none true with
      | some inner => some (inner, s)
      | none => probeInnerHeader s probeSizes

end SeipReader

/-- 8, 16 and so on, up to 512. -/
def probeSizes : List ℕ := (List.range 64).map fun i => 8 * (i + 1)

/-! ### The body of the packet inside -/

/-- How far the body of the packet inside has been read. `remaining` is what is left
of the chunk in a packet with partial lengths, and of the body in any other. -/
structure InnerBody where
  innerPartial : Bool
  remaining : ℕ
  innerFinalChunk : Bool
  deriving DecidableEq, Repr

def InnerBody.done (body : InnerBody) : Bool :=
  if body.innerPartial then body.innerFinalChunk && body.remaining == 0 else body.remaining == 0

def InnerBody.take (body : InnerBody) (count : ℕ) : InnerBody :=
  { body with remaining := body.remaining - count }

/-- Only a packet with partial lengths can have its first fields cut in two. -/
def InnerBody.prefixFits (body : InnerBody) (prefixLength : ℕ) : Bool :=
  !body.innerPartial || prefixLength ≤ body.remaining

section Stream

variable (P : Primitives) (header : DecryptFileHeader)

def ensureInnerChunk (s : SeipReader) (body : InnerBody) : Option (SeipReader × InnerBody) :=
  if body.innerPartial = false ∨ body.remaining ≠ 0 then some (s, body)
  else if body.innerFinalChunk then none
  else
    match _hfirst : s.ensurePending P header 1 with
    | none => none
    | some s₁ =>
      let chunkHeaderSize := newFormatBodyLengthHeaderSize (s₁.pending.headD 0)
      match _hheader : s₁.ensurePending P header chunkHeaderSize with
      | none => none
      | some s₂ =>
        match _hdec : decodeNewFormatBodyLength (s₂.pending.take chunkHeaderSize) with
        | none => none
        | some (decodedHeaderSize, chunkLength, isPartial) =>
          ensureInnerChunk (s₂.consumeForHash header decodedHeaderSize)
            { body with remaining := chunkLength, innerFinalChunk := !isPartial }
termination_by s.octetsLeft
decreasing_by
  have hpos := headerSize_pos _hdec
  have hone := SeipReader.ensurePending_spec P header _hfirst
  have hsize := SeipReader.ensurePending_spec P header _hheader
  have hne : s₂.pending ≠ [] := by
    rintro hnil
    rw [hnil, List.take_nil] at _hdec
    cases _hdec
  have hpending := List.length_pos_iff.mpr hne
  rw [SeipReader.octetsLeft_consumeForHash]
  simp only [SeipReader.octetsLeft] at *
  omega

theorem ensureInnerChunk_le {s s' : SeipReader} {body body' : InnerBody}
    (h : ensureInnerChunk P header s body = some (s', body')) :
    s'.octetsLeft ≤ s.octetsLeft ∧
      (body.innerPartial = true ∨ body.remaining ≠ 0 → body'.remaining ≠ 0) := by
  fun_induction ensureInnerChunk P header s body with
  | case1 s body hinert =>
      cases h
      refine ⟨le_rfl, fun hahead => ?_⟩
      rcases hinert with hwhole | hchunk
      · rw [hwhole] at hahead
        exact hahead.resolve_left Bool.false_ne_true
      · exact hchunk
  | case2 => cases h
  | case3 => cases h
  | case4 => cases h
  | case5 => cases h
  | case6 s body hempty hmore s₁ hfirst chunkHeaderSize s₂ hheader headerSize chunkLength isPartial
      hdec ih =>
      obtain ⟨hleft, hremaining⟩ := ih h
      have hone := (SeipReader.ensurePending_spec P header hfirst).2
      have hsize := (SeipReader.ensurePending_spec P header hheader).2
      rw [SeipReader.octetsLeft_consumeForHash] at hleft
      simp only [SeipReader.octetsLeft] at *
      have hpartial := Bool.of_not_eq_false (not_or.mp hempty).1
      exact ⟨by omega, fun _ => hremaining (Or.inl hpartial)⟩

/-- What is ahead of a body that is not done. -/
theorem InnerBody.ahead {body : InnerBody} (h : ¬ body.done) :
    body.innerPartial = true ∨ body.remaining ≠ 0 := by
  rw [InnerBody.done] at h
  by_cases hpartial : body.innerPartial = true
  · exact Or.inl hpartial
  · rw [if_neg hpartial, beq_iff_eq] at h
    exact Or.inr h

/-- The loop over the body of the packet inside: each piece lies in one chunk, is
no longer than `limit`, and is handed on before it is hashed. -/
def streamBody {σ : Type} (limit : ℕ) (hlimit : 0 < limit) (sink : σ → Bytes → Except Failure σ)
    (s : SeipReader) (body : InnerBody) (state : σ) : Except Failure (SeipReader × σ) :=
  if _hdone : body.done then .ok (s, state)
  else
    match _hchunk : ensureInnerChunk P header s body with
    | none => fail INVALID_DATA
    | some (s₁, body') =>
      match _hpending : s₁.ensurePending P header 1 with
      | none => fail INVALID_DATA
      | some s₂ =>
        let takeNow := min (min s₂.pending.length body'.remaining) limit
        match sink state (s₂.pending.take takeNow) with
        | .error failure => .error failure
        | .ok state =>
          streamBody limit hlimit sink (s₂.consumeForHash header takeNow) (body'.take takeNow) state
termination_by s.octetsLeft
decreasing_by
  obtain ⟨hleft, hremaining⟩ := ensureInnerChunk_le P header _hchunk
  obtain ⟨hone, hleft'⟩ := SeipReader.ensurePending_spec P header _hpending
  have hahead := hremaining (InnerBody.ahead _hdone)
  have htake : 0 < takeNow := by
    simp only [takeNow]
    omega
  rw [SeipReader.octetsLeft_consumeForHash]
  simp only [SeipReader.octetsLeft] at *
  omega

end Stream

/-! ### Where the octets go -/

/-- What the file system and the caller answer: to a write behind what has been
written, and to a report of progress. -/
structure OutputEnv where
  write : Bytes → Bytes → Bool
  onProgress : ℕ → ℕ → Bool

/-- A system that writes what it is given, and a caller that lets the call go on. -/
structure OutputEnv.Unfailing (env : OutputEnv) : Prop where
  write : ∀ written piece, env.write written piece = true
  onProgress : ∀ processedBytes totalBytes, env.onProgress processedBytes totalBytes = true

/-- The content of a literal packet that is not compressed. -/
def writeLiteral (env : OutputEnv) (totalContentBytes : ℕ) (written piece : Bytes) :
    Except Failure Bytes :=
  if env.write written piece = false then fail FILE_IO_ERROR
  else if env.onProgress (written.length + piece.length) totalContentBytes = false then
    fail OPERATION_CANCELLED
  else .ok (written ++ piece)

/-- What `drainDecoded` remembers from call to call, and what has been written. -/
structure Decoded where
  decodedPending : Bytes := []
  literalHeaderParsed : Bool := false
  literalPrefixParsed : Bool := false
  literalIndeterminate : Bool := false
  literalHeaderEnd : ℕ := 0
  literalBodyLength : ℕ := 0
  contentRemaining : ℕ := 0
  processedBytes : ℕ := 0
  literalPartial : Bool := false
  literalFinalChunk : Bool := false
  literalChunkRemaining : ℕ := 0
  literalRawPending : Bytes := []
  written : Bytes := []
  deriving DecidableEq, Repr

namespace Decoded

def dechunk (s : Decoded) : Except Failure Decoded :=
  match dechunkPartialBody s.literalRawPending s.literalChunkRemaining s.literalFinalChunk
      s.decodedPending with
  | none => fail INVALID_DATA
  | some (content, raw, chunkRemaining, finalChunk) =>
    .ok
      { s with
        decodedPending := content, literalRawPending := raw
        literalChunkRemaining := chunkRemaining, literalFinalChunk := finalChunk }

/-- The first part of `drainDecoded`: what the decompressor has put out. -/
def takeIn (s : Decoded) (available : Bytes) : Except Failure Decoded :=
  if s.literalPartial then
    dechunk { s with literalRawPending := s.literalRawPending ++ available }
  else .ok { s with decodedPending := s.decodedPending ++ available }

/-- The second part: a header that is not all there is waited for. -/
def parseHeader (s : Decoded) : Except Failure Decoded :=
  if s.literalHeaderParsed then .ok s
  else
    match readPacketHeader s.decodedPending 0 none true with
    | none => if s.decodedPending.length > 512 then fail INVALID_DATA else .ok s
    | some literal =>
      if literal.tag ≠ PGP_TAG_LITERAL_DATA then fail INVALID_DATA
      else
        let s' :=
          { s with
            literalHeaderParsed := true, literalHeaderEnd := literal.bodyPos
            literalBodyLength := literal.bodyLength
            literalIndeterminate :=
              isIndeterminate (s.decodedPending.headD 0) || literal.isPartial }
        if literal.isPartial then
          dechunk
            { s' with
              literalPartial := true, literalChunkRemaining := literal.bodyLength
              literalFinalChunk := false
              literalRawPending := s.decodedPending.drop literal.bodyPos
              decodedPending := s.decodedPending.take literal.bodyPos }
        else .ok s'

/-- The third part: format, file name and date are dropped once they are there. -/
def parsePrefix (s : Decoded) : Except Failure Decoded :=
  if s.literalHeaderParsed = false ∨ s.literalPrefixParsed then .ok s
  else
    match s.decodedPending[s.literalHeaderEnd + 1]? with
    | none => .ok s
    | some filenameLength =>
      let prefixLength := 2 + filenameLength.toNat + 4
      if s.literalIndeterminate = false ∧ s.literalBodyLength < prefixLength then fail INVALID_DATA
      else if s.decodedPending.length < s.literalHeaderEnd + prefixLength then .ok s
      else
        .ok
          { s with
            contentRemaining :=
              if s.literalIndeterminate then 0 else s.literalBodyLength - prefixLength
            decodedPending := s.decodedPending.drop (s.literalHeaderEnd + prefixLength)
            literalPrefixParsed := true }

/-- The last part. The size is cast to `DWORD` for the write. -/
def writeContent (env : OutputEnv) (s : Decoded) : Except Failure Decoded :=
  if s.literalPrefixParsed = false then .ok s
  else if s.literalIndeterminate = false ∧ s.decodedPending.length > s.contentRemaining then
    fail INVALID_DATA
  else if s.decodedPending = [] then .ok s
  else
    let piece := s.decodedPending.take (s.decodedPending.length % 2 ^ 32)
    let processedBytes := s.processedBytes + s.decodedPending.length
    let contentRemaining :=
      if s.literalIndeterminate then s.contentRemaining
      else s.contentRemaining - s.decodedPending.length
    let total := if s.literalIndeterminate then 0 else processedBytes + contentRemaining
    if env.write s.written piece = false then fail FILE_IO_ERROR
    else if env.onProgress processedBytes total = false then fail OPERATION_CANCELLED
    else
      .ok
        { s with
          decodedPending := [], written := s.written ++ piece, processedBytes, contentRemaining }

def drainDecoded (env : OutputEnv) (s : Decoded) (available : Bytes) : Except Failure Decoded := do
  let s ← s.takeIn available
  let s ← s.parseHeader
  let s ← s.parsePrefix
  s.writeContent env

/-- The checks behind the last octet. -/
def complete (s : Decoded) : Bool :=
  s.literalPrefixParsed && (s.literalIndeterminate || s.contentRemaining == 0) &&
    (!s.literalPartial || (s.literalFinalChunk && s.literalChunkRemaining == 0 &&
      s.literalRawPending == []))

end Decoded

/-! ### Decompressing piece by piece -/

/-- The most that is put into a decompressor at once. -/
def INFLATE_PIECE : ℕ := 4096

/-- A decompressor that is fed in pieces: what it has put out behind the octets it
has been given, and at the end what `whole` says. It throws where it is `none`.
Output is never taken back, and it expands what it is given by far less than the
bounds. -/
structure Inflating (whole : Bytes → Option Bytes) where
  put : Bytes → Option Bytes
  put_nil : put [] = some []
  put_append : ∀ {data piece out}, piece.length ≤ INFLATE_PIECE → put (data ++ piece) = some out →
    ∃ before after, put data = some before ∧ out = before ++ after ∧ after.length < 2 ^ 31
  put_whole : ∀ {data out}, whole data = some out →
    ∃ before after, put data = some before ∧ out = before ++ after ∧ after.length < 2 ^ 31

/-- Algorithm 0: the queue itself. -/
def stored : Inflating some where
  put := some
  put_nil := rfl
  put_append {data piece out} hpiece h := by
    obtain rfl := Option.some.inj h
    refine ⟨data, piece, rfl, rfl, hpiece.trans_lt ?_⟩
    norm_num [INFLATE_PIECE]
  put_whole {data out} h := ⟨data, [], rfl, by rw [List.append_nil, Option.some.inj h], by norm_num⟩

/-- The library's decompressors for the algorithms 1 and 2. -/
structure Inflators (P : Primitives) where
  zip : Inflating P.inflate
  zlib : Inflating P.zlibDecompress

/-- What has been put into a decompressor, how much has been taken out of its queue,
and what became of that. -/
structure Inflation where
  fed : Bytes := []
  retrieved : ℕ := 0
  decoded : Decoded := {}

section Inner

variable (P : Primitives) (inflators : Inflators P) (env : OutputEnv) (header : DecryptFileHeader)

def putPiece {whole : Bytes → Option Bytes} (inflating : Inflating whole) (s : Inflation)
    (piece : Bytes) : Except Failure Inflation :=
  match inflating.put (s.fed ++ piece) with
  | none => fail INVALID_DATA
  | some out =>
    (s.decoded.drainDecoded env (out.drop s.retrieved)).map fun decoded =>
      { fed := s.fed ++ piece, retrieved := out.length, decoded }

/-- The algorithms 0 to 2. -/
def inflateBody {whole : Bytes → Option Bytes} (inflating : Inflating whole) (s : SeipReader)
    (body : InnerBody) : Except Failure (SeipReader × Decoded) :=
  match streamBody P header INFLATE_PIECE (by decide) (putPiece env inflating) s body {} with
  | .error failure => .error failure
  | .ok (s, inflation) =>
    match whole inflation.fed with
    | none => fail INVALID_DATA
    | some out =>
      (inflation.decoded.drainDecoded env (out.drop inflation.retrieved)).map fun decoded =>
        (s, decoded)

/-- The pieces the output of the BZip2 decoder is handed on in, one at least. -/
def bzip2Pieces (decompressed : Bytes) : List Bytes :=
  if decompressed = [] then [[]] else chunksOf 65536 decompressed

/-- Algorithm 3: all of the body is collected first. -/
def bzip2Body (s : SeipReader) (body : InnerBody) : Except Failure (SeipReader × Decoded) :=
  match streamBody P header INFLATE_PIECE (by decide) (fun fed piece => .ok (fed ++ piece)) s body
      [] with
  | .error failure => .error failure
  | .ok (s, compressed) =>
    match bzip2DecompressBuffer compressed with
    | none => fail INVALID_DATA
    | some decompressed =>
      ((bzip2Pieces decompressed).foldlM (Decoded.drainDecoded env) {}).map fun decoded =>
        (s, decoded)

def decompressingBody (algorithm : UInt8) (s : SeipReader) (body : InnerBody) :
    Except Failure (SeipReader × Decoded) :=
  if algorithm = 3 then bzip2Body P env header s body
  else if algorithm = 2 then inflateBody P env header inflators.zlib s body
  else if algorithm = 1 then inflateBody P env header inflators.zip s body
  else inflateBody P env header stored s body

/-- A compressed packet, behind its header; `body.remaining` is the length the header
gives. -/
def decryptCompressed (s : SeipReader) (body : InnerBody) : Except Failure (SeipReader × Bytes) :=
  let mdcHashOffset := header.encLength - 20
  if body.remaining < 1 ∨
      body.innerPartial = false ∧ body.remaining > mdcHashOffset - s.streamPos - 2 then
    fail INVALID_DATA
  else
    match s.ensurePending P header 1 with
    | none => fail INVALID_DATA
    | some s =>
      if body.prefixFits 1 = false then fail INVALID_DATA
      else
        let algorithm := s.pending.headD 0
        if algorithm > 3 then fail NOT_IMPLEMENTED
        else
          match decompressingBody P inflators env header algorithm (s.consumeForHash header 1)
              (body.take 1) with
          | .error failure => .error failure
          | .ok (s, decoded) =>
            if decoded.complete then .ok (s, decoded.written) else fail INVALID_DATA

/-- The octets in front of the content are not looked at. -/
def skipPending (s : SeipReader) (count : ℕ) : Option SeipReader :=
  (s.ensurePending P header count).map fun s => s.consumeForHash header count

/-- A literal packet, behind its header. -/
def decryptLiteral (s : SeipReader) (body : InnerBody) : Except Failure (SeipReader × Bytes) :=
  match s.ensurePending P header 2 with
  | none => fail INVALID_DATA
  | some s =>
    let filenameLength := (s.pending.getD 1 0).toNat
    let literalHeaderTotal := 2 + filenameLength + 4
    if body.prefixFits literalHeaderTotal = false then fail INVALID_DATA
    else
      match skipPending P header (s.consumeForHash header 2) filenameLength with
      | none => fail INVALID_DATA
      | some s =>
        match skipPending P header s 4 with
        | none => fail INVALID_DATA
        | some s =>
          if body.remaining < literalHeaderTotal then fail INVALID_DATA
          else
            let totalContentBytes :=
              if body.innerPartial then 0 else body.remaining - literalHeaderTotal
            streamBody P header PGP_FILE_CHUNK_SIZE pgpFileChunkSize_pos
              (writeLiteral env totalContentBytes) s (body.take literalHeaderTotal) []

/-- The modification detection code, behind the packet inside. -/
def trailerMatches (s : SeipReader) : Bool :=
  match s.ensurePending P header 22 with
  | none => false
  | some s =>
    s.pending.take 2 == [0xD3, 0x14] &&
      (P.sha1 (s.consumeForHash header 22).mdc).1 == (s.pending.drop 2).take 20

/-- The packet inside, between its header and the trailer. -/
def decryptInner (tag : UInt8) (s : SeipReader) (body : InnerBody) :
    Except Failure (SeipReader × Bytes) :=
  if tag = PGP_TAG_COMPRESSED_DATA then decryptCompressed P inflators env header s body
  else if tag = PGP_TAG_LITERAL_DATA then decryptLiteral P env header s body
  else fail NOT_IMPLEMENTED

/-- The reader in front of the protected data, with what was read of it before. -/
def startReader (file : Bytes) : SeipReader :=
  let deciphered := (CipherFeedback.decryptor (P.aesEncrypt header.sessionKey)).run
    (cfbState (Octets.zero 16)) header.leftoverCipher
  { file
    cipherRemaining := header.encLength - header.leftoverCipher.length
    cipherChunkRemaining := header.seipChunkRemaining
    cipherFinalChunk := header.seipFinalChunk
    cfb := deciphered.2
    pending := deciphered.1
    streamPos := 0
    mdc := [] }

/-- What was written, of a file whose pointer stands in front of `file`. -/
def decryptSeipBodyStreaming (file : Bytes) : Except Failure Bytes :=
  if header.encLength < 18 + 6 + 22 ∨ header.leftoverCipher.length > header.encLength then
    fail INVALID_DATA
  else
    match skipPending P header (startReader P header file) 18 with
    | none => fail INVALID_DATA
    | some s =>
      match s.probeInnerHeader P header probeSizes with
      | none => fail INVALID_DATA
      | some (inner, s) =>
        let innerIndeterminate := isIndeterminate (s.pending.headD 0)
        let s := s.consumeForHash header inner.bodyPos
        if innerIndeterminate ∧ s.streamPos > header.encLength - 22 then fail INVALID_DATA
        else
          let innerBodyLength :=
            if innerIndeterminate then header.encLength - 22 - s.streamPos else inner.bodyLength
          match decryptInner P inflators env header inner.tag s
              ⟨inner.isPartial, innerBodyLength, false⟩ with
          | .error failure => .error failure
          | .ok (s, written) =>
            if trailerMatches P header s then .ok written else fail INVALID_DATA

end Inner

/-! ### The call -/

/-- A path in UTF-16, and the files that are there. -/
abbrev WidePath := List UInt16

abbrev FileSystem := WidePath → Option Bytes

/-- What the system answers in one call. `widePath` converts a path, `openInput` and
`createTemp` open files, `deleteOutput` and `moveTemp` are asked for behind the
decryption. A deletion of the temporary file leaves `tempAfterDelete` there. -/
structure FileEnv extends OutputEnv where
  widePath : Bytes → Option WidePath
  openInput : Bool
  createTemp : Bool
  deleteOutput : Bool
  moveTemp : Bool
  tempAfterDelete : Option Bytes

def pgptmpPath (outputPath : WidePath) : WidePath :=
  outputPath ++ (ascii ".pgptmp").map UInt8.toUInt16

/-- The input file is open all the time, for others to read at most: no file of that
path can be created, deleted or replaced. -/
def replaceOutput (env : FileEnv) (inputPath outputPath : WidePath) (written : Bytes)
    (files : FileSystem) : Status × FileSystem :=
  let temp := pgptmpPath outputPath
  let files := Function.update files temp (some written)
  let files :=
    if env.deleteOutput ∧ outputPath ≠ inputPath then Function.update files outputPath none
    else files
  if env.moveTemp ∧ outputPath ≠ inputPath then
    (NO_ERROR, Function.update (Function.update files temp none) outputPath (some written))
  else (FILE_IO_ERROR, Function.update files temp env.tempAfterDelete)

/-- The status, and the files afterwards. -/
def DecryptFile (P : Primitives) (inflators : Inflators P) (env : FileEnv)
    (password inputFilePath outputFilePath : Bytes) (impl : Impl) (files : FileSystem) :
    Status × FileSystem :=
  if rejects P impl password then (INVALID_ARGUMENT, files)
  else
    match env.widePath inputFilePath, env.widePath outputFilePath with
    | some inputPath, some outputPath =>
      match (files inputPath).filter fun _ => env.openInput with
      | none => (FILE_IO_ERROR, files)
      | some content =>
        match parseEncryptedFileHeader P impl.flatDecryptionKey content with
        | none => (INVALID_DATA, files)
        | some header =>
          if env.createTemp = false ∨ pgptmpPath outputPath = inputPath then (FILE_IO_ERROR, files)
          else
            match decryptSeipBodyStreaming P inflators env.toOutputEnv header
                (content.drop header.filePos) with
            | .error failure =>
              (failure.1, Function.update files (pgptmpPath outputPath) env.tempAfterDelete)
            | .ok written => replaceOutput env inputPath outputPath written files
    | _, _ => (INVALID_ARGUMENT, files)

end HashCryptoLib.Pgp
