import HashCryptoLib.CryptoApi.Decoding

/-!
The chunked calls of an AEAD cipher over a buffer, in the 32-bit arithmetic they are
written in. Every chunk becomes a record that states its size. The number of chunks
and the size of a record's overhead are sums that can wrap; where they do not, the two
calls are inverse and both size queries are exact.
-/

namespace HashCryptoLib.CryptoApi

open Pgp (Fault)
open Chunks Records

/-! ### The calls -/

/-- A buffer with its `unsigned int` size. -/
abbrev UIntBuffer := { b : Bytes // b.length < 2 ^ 32 }

def UIntBuffer.size (buffer : UIntBuffer) : UInt32 := UInt32.ofNat buffer.1.length

/-- A provider's cipher under the key it was given, with the sizes it reports. -/
structure IAeadCipher (nonceSize tagSize : UInt32) where
  encrypt : Octets nonceSize.toNat → Bytes → Option (Bytes × Octets tagSize.toNat)
  decrypt : Octets nonceSize.toNat → Bytes → Octets tagSize.toNat → Option Bytes
  length_encrypt : ∀ {nonce plaintext sealed},
    encrypt nonce plaintext = some sealed → sealed.1.length = plaintext.length
  length_decrypt : ∀ {nonce ciphertext tag plaintext},
    decrypt nonce ciphertext tag = some plaintext → plaintext.length = ciphertext.length

/-- What a call returns, what it stores through `outputBufferSize`, how the output buffer
looks behind it, and how many octets of that it wrote. -/
structure ChunkedOutcome where
  returned : Bool
  outputBufferSize : Option UInt32 := none
  outputBuffer : Bytes := []
  written : ℕ := 0
  deriving DecidableEq, Repr

namespace IAeadCipher

variable {nonceSize tagSize : UInt32} (cipher : IAeadCipher nonceSize tagSize)

def recordOverhead (nonceSize tagSize : UInt32) : UInt32 := 4 + nonceSize + tagSize

def chunkCount (inputBufferSize chunkSize : UInt32) : UInt32 :=
  if inputBufferSize > 0 then (inputBufferSize + chunkSize - 1) / chunkSize else 0

/-- In 64 bits, where it does not wrap. -/
def requiredSizeLL (nonceSize tagSize inputBufferSize chunkSize : UInt32) : ℕ :=
  inputBufferSize.toNat +
    (chunkCount inputBufferSize chunkSize).toNat * (recordOverhead nonceSize tagSize).toNat

/-- The octets of a record in the order they stand in. -/
def chunkRecord (nonce ciphertext tag : Bytes) : Bytes :=
  writeUInt32 ciphertext.length ++ nonce ++ ciphertext ++ tag

/-- `memcpy` to `writePtr`. -/
def overwrite (buffer : Bytes) (writePtr : ℕ) (octets : Bytes) : Bytes :=
  buffer.take writePtr ++ octets ++ buffer.drop (writePtr + octets.length)

/-- The chunk loop: `left` chunks from `chunkIndex` on. `writePtr` is a pointer; what it is
advanced by is a sum in 32 bits. The pointers into a record are pointers into the buffer only
where the record fits into it. -/
def encryptLoop (nonces : ℕ → Option (Octets nonceSize.toNat)) (onProgress : ℕ → ℕ → Bool)
    (input : UIntBuffer) (chunkSize : UInt32) :
    ℕ → UInt32 → Bytes → ℕ → ℕ → Except Fault (Option (Bytes × ℕ))
  | 0, _, buffer, writePtr, _ => .ok (some (buffer, writePtr))
  | left + 1, chunkIndex, buffer, writePtr, processedBytes =>
    let offset := chunkIndex * chunkSize
    let remaining := input.size - offset
    let currentChunkSize := if remaining < chunkSize then remaining else chunkSize
    if writePtr + (4 + nonceSize.toNat + currentChunkSize.toNat + tagSize.toNat) > buffer.length then
      .error .outOfBounds
    else
      match nonces chunkIndex.toNat with
      | none => .ok none
      | some nonce =>
        match cipher.encrypt nonce ((input.1.drop offset.toNat).take currentChunkSize.toNat) with
        | none => .ok none
        | some (ciphertext, tag) =>
          let processedBytes := processedBytes + currentChunkSize.toNat
          if onProgress processedBytes input.1.length = false then .ok none
          else
            encryptLoop nonces onProgress input chunkSize left (chunkIndex + 1)
              (overwrite buffer writePtr (chunkRecord nonce.1 ciphertext tag.1))
              (writePtr + (4 + nonceSize + currentChunkSize + tagSize).toNat) processedBytes

/-- `none` is a null output buffer. -/
def EncryptChunked (nonces : ℕ → Option (Octets nonceSize.toNat)) (onProgress : ℕ → ℕ → Bool)
    (input : UIntBuffer) (chunkSize : UInt32) (outputBuffer : Option UIntBuffer) :
    Except Fault ChunkedOutcome :=
  if chunkSize = 0 then .ok { returned := false }
  else
    let requiredSizeLL := requiredSizeLL nonceSize tagSize input.size chunkSize
    if requiredSizeLL > 0xFFFFFFFF then .ok { returned := false }
    else
      let requiredSize := UInt32.ofNat requiredSizeLL
      match outputBuffer with
      | none => .ok { returned := false, outputBufferSize := some requiredSize }
      | some buffer =>
        if buffer.size < requiredSize then
          .ok { returned := false, outputBufferSize := some requiredSize }
        else
          (encryptLoop cipher nonces onProgress input chunkSize
            (chunkCount input.size chunkSize).toNat 0 buffer.1 0 0).map fun
          | none => { returned := false, outputBufferSize := some 0 }
          | some (outputBuffer, written) =>
            { returned := true, outputBufferSize := some requiredSize, outputBuffer, written }

/-- A record that was cut out of the input. -/
structure SealedChunk (nonceSize tagSize : UInt32) where
  nonce : Octets nonceSize.toNat
  ciphertext : Bytes
  tag : Octets tagSize.toNat

/-- The record at the front, and what is behind it. -/
def nextChunk (nonceSize tagSize : UInt32) (rest : Bytes) :
    Option (SealedChunk nonceSize tagSize × Bytes) :=
  if rest.length < 4 then none
  else
    let chunkPlainSize := readUInt32 rest
    let rest := rest.drop 4
    if hfits : chunkPlainSize + nonceSize.toNat + tagSize.toNat > rest.length then none
    else
      some
        ({ nonce := ⟨rest.take nonceSize.toNat, by rw [List.length_take]; omega⟩
           ciphertext := (rest.drop nonceSize.toNat).take chunkPlainSize
           tag := ⟨(rest.drop (nonceSize.toNat + chunkPlainSize)).take tagSize.toNat, by
             rw [List.length_take, List.length_drop]; omega⟩ },
          rest.drop (chunkPlainSize + nonceSize.toNat + tagSize.toNat))

theorem nextChunk_lt {rest rest' : Bytes} {chunk : SealedChunk nonceSize tagSize}
    (h : nextChunk nonceSize tagSize rest = some (chunk, rest')) : rest'.length < rest.length := by
  rw [nextChunk] at h
  dsimp only at h
  split_ifs at h with hprefix
  obtain ⟨-, rfl⟩ := Prod.mk.inj (Option.some.inj h)
  rw [List.length_drop, List.length_drop]
  omega

/-- The first pass adds up the sizes. -/
def scanChunks (nonceSize tagSize : UInt32) (rest : Bytes) (requiredSizeLL : ℕ) : Option ℕ :=
  if rest = [] then some requiredSizeLL
  else
    match _hnext : nextChunk nonceSize tagSize rest with
    | none => none
    | some (chunk, rest) =>
      scanChunks nonceSize tagSize rest (requiredSizeLL + chunk.ciphertext.length)
termination_by rest.length
decreasing_by exact nextChunk_lt _hnext

/-- The second pass goes over the same records again. -/
def decryptLoop (onProgress : ℕ → ℕ → Bool) (totalBytes : ℕ) (rest : Bytes) (processedBytes : ℕ) :
    Option Bytes :=
  if rest = [] then some []
  else
    match _hnext : nextChunk nonceSize tagSize rest with
    | none => none
    | some (chunk, rest) =>
      match cipher.decrypt chunk.nonce chunk.ciphertext chunk.tag with
      | none => none
      | some plaintext =>
        let processedBytes := processedBytes + chunk.ciphertext.length
        if onProgress processedBytes totalBytes = false then none
        else (decryptLoop onProgress totalBytes rest processedBytes).map (plaintext ++ ·)
termination_by rest.length
decreasing_by exact nextChunk_lt _hnext

def DecryptChunked (onProgress : ℕ → ℕ → Bool) (input : UIntBuffer)
    (outputBuffer : Option UIntBuffer) : ChunkedOutcome :=
  match scanChunks nonceSize tagSize input.1 0 with
  | none => { returned := false }
  | some requiredSizeLL =>
    if requiredSizeLL > 0xFFFFFFFF then { returned := false }
    else
      let requiredSize := UInt32.ofNat requiredSizeLL
      match outputBuffer with
      | none => { returned := false, outputBufferSize := some requiredSize }
      | some buffer =>
        if buffer.size < requiredSize then
          { returned := false, outputBufferSize := some requiredSize }
        else
          match cipher.decryptLoop onProgress requiredSizeLL input.1 0 with
          | none => { returned := false, outputBufferSize := some 0 }
          | some plaintext =>
            { returned := true, outputBufferSize := some requiredSize
              outputBuffer := overwrite buffer.1 0 plaintext, written := plaintext.length }

/-! ### Reading records back -/

section Reading

variable {cipher : IAeadCipher nonceSize tagSize} {rest rest' : Bytes}
  {chunk : SealedChunk nonceSize tagSize} {chunks : List (SealedChunk nonceSize tagSize)}

theorem length_chunkRecord (nonce : Octets nonceSize.toNat) (ciphertext : Bytes)
    (tag : Octets tagSize.toNat) :
    (chunkRecord nonce.1 ciphertext tag.1).length =
      4 + nonceSize.toNat + ciphertext.length + tagSize.toNat := by
  rw [chunkRecord, List.length_append, List.length_append, List.length_append, length_writeUInt32,
    nonce.2, tag.2]

/-- A record that was written is read back. -/
theorem nextChunk_written (nonce : Octets nonceSize.toNat) {ciphertext : Bytes}
    (hsmall : ciphertext.length < 2 ^ 32) (tag : Octets tagSize.toNat) (rest : Bytes) :
    nextChunk nonceSize tagSize (chunkRecord nonce.1 ciphertext tag.1 ++ rest) =
      some (⟨nonce, ciphertext, tag⟩, rest) := by
  have hsize : readUInt32 (chunkRecord nonce.1 ciphertext tag.1 ++ rest) = ciphertext.length := by
    rw [chunkRecord, List.append_assoc, List.append_assoc, List.append_assoc]
    exact readUInt32_writeUInt32 hsmall _
  have hbehind : (chunkRecord nonce.1 ciphertext tag.1 ++ rest).drop 4 =
      nonce.1 ++ (ciphertext ++ (tag.1 ++ rest)) := by
    rw [chunkRecord, List.append_assoc, List.append_assoc, List.append_assoc]
    rfl
  have hciphertext : (nonce.1 ++ (ciphertext ++ (tag.1 ++ rest))).drop nonceSize.toNat =
      ciphertext ++ (tag.1 ++ rest) := List.drop_left' nonce.2
  have htag : (nonce.1 ++ (ciphertext ++ (tag.1 ++ rest))).drop
      (nonceSize.toNat + ciphertext.length) = tag.1 ++ rest := by
    rw [← List.drop_drop, hciphertext, List.drop_left]
  have hrest : (nonce.1 ++ (ciphertext ++ (tag.1 ++ rest))).drop
      (ciphertext.length + nonceSize.toNat + tagSize.toNat) = rest := by
    rw [Nat.add_comm ciphertext.length, ← List.drop_drop, htag, List.drop_left' tag.2]
  have hlength := length_chunkRecord nonce ciphertext tag
  rw [nextChunk, if_neg (by rw [List.length_append]; omega)]
  simp only [hsize, hbehind, hciphertext, htag, hrest]
  rw [dif_neg (by simp only [List.length_append, nonce.2, tag.2]; omega)]
  simp only [List.take_left' nonce.2, List.take_left, List.take_left' tag.2, Subtype.coe_eta]

theorem scanChunks_cons (hleft : rest ≠ [])
    (hnext : nextChunk nonceSize tagSize rest = some (chunk, rest')) (requiredSizeLL : ℕ) :
    scanChunks nonceSize tagSize rest requiredSizeLL =
      scanChunks nonceSize tagSize rest' (requiredSizeLL + chunk.ciphertext.length) := by
  rw [scanChunks, if_neg hleft]
  split
  · rename_i hnone
    rw [hnext] at hnone
    cases hnone
  · rename_i hsome
    rw [hnext] at hsome
    obtain ⟨rfl, rfl⟩ := Prod.mk.inj (Option.some.inj hsome)
    rfl

theorem scanChunks_of_reads (h : Reads (nextChunk nonceSize tagSize) rest chunks)
    (requiredSizeLL : ℕ) :
    scanChunks nonceSize tagSize rest requiredSizeLL =
      some (requiredSizeLL + (chunks.map fun chunk => chunk.ciphertext.length).sum) := by
  induction h generalizing requiredSizeLL with
  | nil =>
      rw [scanChunks, if_pos rfl]
      rfl
  | cons hleft hnext _ ih =>
      rw [scanChunks_cons hleft hnext, ih, List.map_cons, List.sum_cons, Nat.add_assoc]

/-- What a record opens to. -/
def Opens (cipher : IAeadCipher nonceSize tagSize) (chunk : SealedChunk nonceSize tagSize)
    (plaintext : Bytes) : Prop :=
  cipher.decrypt chunk.nonce chunk.ciphertext chunk.tag = some plaintext

/-- Records that open are decrypted one after another, if nobody stops the call. -/
theorem decryptLoop_of_reads (h : Reads (nextChunk nonceSize tagSize) rest chunks)
    {plaintexts : List Bytes} (hopens : List.Forall₂ (Opens cipher) chunks plaintexts)
    (totalBytes processedBytes : ℕ) :
    cipher.decryptLoop (fun _ _ => true) totalBytes rest processedBytes =
      some plaintexts.flatten := by
  induction h generalizing plaintexts processedBytes with
  | nil =>
      cases hopens
      rw [decryptLoop, if_pos rfl]
      rfl
  | cons hleft hnext _ ih =>
      cases hopens with
      | @cons _ plaintext _ plaintexts hopen hopens =>
          rw [decryptLoop, if_neg hleft]
          split
          · rename_i hnone
            rw [hnext] at hnone
            cases hnone
          · rename_i hsome
            rw [hnext] at hsome
            obtain ⟨rfl, rfl⟩ := Prod.mk.inj (Option.some.inj hsome)
            rw [hopen]
            dsimp only
            rw [if_neg (by decide), ih hopens]
            rfl

end Reading

/-! ### Writing records -/

section Writing

variable {cipher : IAeadCipher nonceSize tagSize} {chunkSize : UInt32} {input : UIntBuffer}

/-- What was encrypted decrypts. -/
def Lawful (cipher : IAeadCipher nonceSize tagSize) : Prop :=
  ∀ nonce plaintext sealed, cipher.encrypt nonce plaintext = some sealed →
    cipher.decrypt nonce sealed.1 sealed.2 = some plaintext

/-- A record that this chunk was sealed in. -/
def Seals (cipher : IAeadCipher nonceSize tagSize) (chunk record : Bytes) : Prop :=
  ∃ nonce sealed, cipher.encrypt nonce chunk = some sealed ∧
    record = chunkRecord nonce.1 sealed.1 sealed.2.1

theorem Seals.length_eq {chunk record : Bytes} (h : Seals cipher chunk record) :
    record.length = 4 + nonceSize.toNat + chunk.length + tagSize.toNat := by
  obtain ⟨nonce, sealed, hsealed, rfl⟩ := h
  rw [length_chunkRecord, cipher.length_encrypt hsealed]

theorem length_of_seals {chunks records : List Bytes}
    (h : List.Forall₂ (Seals cipher) chunks records) :
    records.flatten.length =
      chunks.flatten.length + chunks.length * (4 + nonceSize.toNat + tagSize.toNat) := by
  induction h with
  | nil => rw [List.length_nil, Nat.zero_mul, Nat.add_zero]
  | cons hseals _ ih =>
      rw [List.flatten_cons, List.flatten_cons, List.length_append, List.length_append,
        hseals.length_eq, ih, List.length_cons, Nat.add_one_mul]
      omega

/-- Sealed records are read back, and open to the chunks. -/
theorem reads_of_seals (hlawful : cipher.Lawful) {chunks records : List Bytes}
    (hsmall : ∀ chunk ∈ chunks, chunk.length < 2 ^ 32)
    (h : List.Forall₂ (Seals cipher) chunks records) :
    ∃ sealed : List (SealedChunk nonceSize tagSize),
      Reads (nextChunk nonceSize tagSize) records.flatten sealed ∧
        List.Forall₂ (Opens cipher) sealed chunks ∧
          sealed.map (fun chunk => chunk.ciphertext.length) = chunks.map List.length := by
  induction h with
  | nil => exact ⟨[], .nil, .nil, rfl⟩
  | cons hseals _ ih =>
      obtain ⟨hchunk, hothers⟩ := List.forall_mem_cons.mp hsmall
      obtain ⟨others, hreads, hopens, hsizes⟩ := ih hothers
      have hlength := hseals.length_eq
      obtain ⟨nonce, sealed, hsealed, rfl⟩ := hseals
      have hciphertext := cipher.length_encrypt hsealed
      refine ⟨⟨nonce, sealed.1, sealed.2⟩ :: others, ?_, ?_, ?_⟩
      · rw [List.flatten_cons]
        refine .cons ?_ (nextChunk_written nonce (by omega) sealed.2 _) hreads
        exact List.append_ne_nil_of_left_ne_nil (List.length_pos_iff.mp (by omega)) _
      · exact .cons (hlawful nonce _ sealed hsealed) hopens
      · rw [List.map_cons, List.map_cons, hsizes, hciphertext]

theorem length_overwrite {buffer octets : Bytes} {writePtr : ℕ}
    (h : writePtr + octets.length ≤ buffer.length) :
    (overwrite buffer writePtr octets).length = buffer.length := by
  rw [overwrite, List.length_append, List.length_append, List.length_take, List.length_drop]
  omega

/-- Two writes, the second behind the first. -/
theorem overwrite_overwrite {buffer first second : Bytes} {writePtr : ℕ}
    (h : writePtr + first.length ≤ buffer.length) :
    overwrite (overwrite buffer writePtr first) (writePtr + first.length) second =
      overwrite buffer writePtr (first ++ second) := by
  have hfront : (buffer.take writePtr ++ first).length = writePtr + first.length := by
    rw [List.length_append, List.length_take]
    omega
  rw [overwrite, overwrite, overwrite, List.take_left' hfront, ← List.drop_drop,
    List.drop_left' hfront, List.drop_drop, List.length_append, List.append_assoc, List.append_assoc,
    List.append_assoc, List.append_assoc, Nat.add_assoc]

theorem overwrite_nil (buffer : Bytes) (writePtr : ℕ) : overwrite buffer writePtr [] = buffer := by
  rw [overwrite, List.append_nil, List.length_nil, Nat.add_zero, List.take_append_drop]

theorem size_toNat (input : UIntBuffer) : input.size.toNat = input.1.length :=
  UInt32.toNat_ofNat_of_lt' input.2

/-- Where the chunks begin, the offset has not wrapped, and the chunk is what is cut out. -/
theorem chunk_at {i : ℕ} (hi : i * chunkSize.toNat < input.1.length) (hchunk : chunkSize ≠ 0) :
    let offset := UInt32.ofNat i * chunkSize
    let remaining := input.size - offset
    let currentChunkSize := if remaining < chunkSize then remaining else chunkSize
    (input.1.drop offset.toNat).take currentChunkSize.toNat =
        (input.1.drop (i * chunkSize.toNat)).take chunkSize.toNat ∧
      currentChunkSize.toNat =
        ((input.1.drop (i * chunkSize.toNat)).take chunkSize.toNat).length := by
  have hpos : 0 < chunkSize.toNat := Nat.pos_of_ne_zero fun h => hchunk (UInt32.toNat_inj.mp h)
  have hinput := input.2
  have hle : i ≤ i * chunkSize.toNat := Nat.le_mul_of_pos_right i hpos
  have hoffset : (UInt32.ofNat i * chunkSize).toNat = i * chunkSize.toNat := by
    rw [UInt32.toNat_mul, UInt32.toNat_ofNat_of_lt' (by show i < 2 ^ 32; omega),
      Nat.mod_eq_of_lt (by omega)]
  have hremaining : (input.size - UInt32.ofNat i * chunkSize).toNat =
      input.1.length - i * chunkSize.toNat := by
    rw [UInt32.toNat_sub_of_le _ _ (by rw [UInt32.le_iff_toNat_le, hoffset, size_toNat]; omega),
      size_toNat, hoffset]
  dsimp only
  rw [hoffset]
  by_cases hlast : input.size - UInt32.ofNat i * chunkSize < chunkSize
  · rw [if_pos hlast, hremaining]
    rw [UInt32.lt_iff_toNat_lt, hremaining] at hlast
    rw [List.take_of_length_le (by rw [List.length_drop]),
      List.take_of_length_le (by rw [List.length_drop]; omega), List.length_drop]
    exact ⟨rfl, rfl⟩
  · rw [if_neg hlast]
    rw [UInt32.lt_iff_toNat_lt, hremaining] at hlast
    rw [List.length_take, List.length_drop]
    exact ⟨rfl, by omega⟩

/-- The loop from one chunk on: the records of what is left of the input, where the buffer has
room for them. -/
theorem encryptLoop_spec (cipher : IAeadCipher nonceSize tagSize)
    (nonces : ℕ → Option (Octets nonceSize.toNat)) (onProgress : ℕ → ℕ → Bool)
    (hchunk : chunkSize ≠ 0) (left : ℕ) {i : ℕ}
    (hleft : (chunksOf chunkSize.toNat (input.1.drop (i * chunkSize.toNat))).length = left)
    {buffer : Bytes} (hbuffer : buffer.length < 2 ^ 32) (writePtr processedBytes : ℕ)
    (hroom : writePtr + ((input.1.drop (i * chunkSize.toNat)).length +
      left * (4 + nonceSize.toNat + tagSize.toNat)) ≤ buffer.length) :
    encryptLoop cipher nonces onProgress input chunkSize left (UInt32.ofNat i) buffer writePtr
        processedBytes = .ok none ∨
      ∃ records, List.Forall₂ (Seals cipher)
          (chunksOf chunkSize.toNat (input.1.drop (i * chunkSize.toNat))) records ∧
        encryptLoop cipher nonces onProgress input chunkSize left (UInt32.ofNat i) buffer writePtr
          processedBytes =
          .ok (some (overwrite buffer writePtr records.flatten, writePtr + records.flatten.length)) := by
  have hpos : 0 < chunkSize.toNat := Nat.pos_of_ne_zero fun h => hchunk (UInt32.toNat_inj.mp h)
  induction left generalizing i buffer writePtr processedBytes with
  | zero =>
      rw [List.length_eq_zero_iff.mp hleft]
      exact Or.inr ⟨[], .nil, by rw [List.flatten_nil, overwrite_nil]; rfl⟩
  | succ left ih =>
      have hne : input.1.drop (i * chunkSize.toNat) ≠ [] := by
        intro hnil
        rw [hnil, chunksOf_nil] at hleft
        cases hleft
      have hi : i * chunkSize.toNat < input.1.length := by
        have hlength := List.length_pos_iff.mpr hne
        rw [List.length_drop] at hlength
        omega
      have hnext : (input.1.drop (i * chunkSize.toNat)).drop chunkSize.toNat =
          input.1.drop ((i + 1) * chunkSize.toNat) := by
        rw [List.drop_drop, Nat.add_one_mul]
      rw [chunksOf_of_ne_nil hpos hne, hnext] at hleft ⊢
      have hothers : (chunksOf chunkSize.toNat
          (input.1.drop ((i + 1) * chunkSize.toNat))).length = left := Nat.succ.inj hleft
      obtain ⟨hcut, hcurrent⟩ := chunk_at hi hchunk
      have hparts := congrArg List.length
        (List.take_append_drop chunkSize.toNat (input.1.drop (i * chunkSize.toNat)))
      rw [List.length_append, hnext] at hparts
      rw [Nat.add_one_mul] at hroom
      -- from here on only the length of the chunk matters
      generalize (input.1.drop (i * chunkSize.toNat)).take chunkSize.toNat = chunk at *
      rw [encryptLoop]
      dsimp only
      rw [hcut, hcurrent, if_neg (by omega)]
      cases hnonce : nonces (UInt32.ofNat i).toNat with
      | none => exact Or.inl rfl
      | some nonce =>
          dsimp only
          cases hsealed : cipher.encrypt nonce chunk with
          | none => exact Or.inl rfl
          | some sealed =>
              obtain ⟨ciphertext, tag⟩ := sealed
              dsimp only
              by_cases hstop : onProgress (processedBytes + chunk.length) input.1.length = false
              · rw [if_pos hstop]
                exact Or.inl rfl
              rw [if_neg hstop]
              have hseals : Seals cipher chunk (chunkRecord nonce.1 ciphertext tag.1) :=
                ⟨nonce, (ciphertext, tag), hsealed, rfl⟩
              have hlength := hseals.length_eq
              -- the pointer is advanced by the size of the record
              have hadvance (currentChunkSize : UInt32) (h : currentChunkSize.toNat = chunk.length) :
                  (4 + nonceSize + currentChunkSize + tagSize).toNat =
                    (chunkRecord nonce.1 ciphertext tag.1).length := by
                have hfour : (4 : UInt32).toNat = 4 := rfl
                rw [UInt32.toNat_add, UInt32.toNat_add, UInt32.toNat_add, h, hfour, hlength]
                omega
              rw [hadvance _ hcurrent]
              have hindex : UInt32.ofNat i + 1 = UInt32.ofNat (i + 1) := (UInt32.ofNat_add i 1).symm
              rw [hindex]
              generalize chunkRecord nonce.1 ciphertext tag.1 = record at *
              have hover : (overwrite buffer writePtr record).length = buffer.length :=
                length_overwrite (by omega)
              -- the later records are written behind this one and do not overwrite it
              rcases ih (i := i + 1) hothers (by rw [hover]; exact hbuffer)
                (writePtr + record.length) (processedBytes + chunk.length)
                (by rw [hover]; omega) with hnone | hsome
              · exact Or.inl hnone
              · obtain ⟨records, hrecords, hrun⟩ := hsome
                refine Or.inr ⟨record :: records, .cons hseals hrecords, ?_⟩
                rw [hrun, overwrite_overwrite (by omega), List.flatten_cons, List.length_append,
                  Nat.add_assoc]

end Writing

/-! ### The round trip -/

section RoundTrip

variable {cipher : IAeadCipher nonceSize tagSize} {chunkSize : UInt32} {input : UIntBuffer}

/-- Exactly the octets a call reported. -/
def reported (outputBuffer : Bytes) (size : UInt32) : UIntBuffer :=
  ⟨outputBuffer.take size.toNat, (List.length_take_le _ _).trans_lt size.toNat_lt⟩

/-- The size query foretold what was written, and that decrypts to the input, of the size the
other query foretells. -/
def DeliveredBy (cipher : IAeadCipher nonceSize tagSize) (chunkSize : UInt32) (input : UIntBuffer)
    (outcome : ChunkedOutcome) : Prop :=
  ∃ size : UInt32,
    (∀ nonces onProgress, cipher.EncryptChunked nonces onProgress input chunkSize none =
      .ok { returned := false, outputBufferSize := some size }) ∧
    outcome.outputBufferSize = some size ∧ outcome.written = size.toNat ∧
    cipher.DecryptChunked (fun _ _ => true) (reported outcome.outputBuffer size) none =
      { returned := false, outputBufferSize := some input.size } ∧
    ∀ room : UIntBuffer, input.1.length ≤ room.1.length →
      cipher.DecryptChunked (fun _ _ => true) (reported outcome.outputBuffer size) (some room) =
        { returned := true, outputBufferSize := some input.size
          outputBuffer := overwrite room.1 0 input.1, written := input.1.length }

/-- Whatever cipher of these sizes, random source and output buffer the call is given. -/
def RoundTrips (nonceSize tagSize chunkSize : UInt32) (input : UIntBuffer) : Prop :=
  ∀ cipher : IAeadCipher nonceSize tagSize, cipher.Lawful →
    ∀ (nonces : ℕ → Option (Octets nonceSize.toNat)) (onProgress : ℕ → ℕ → Bool)
      (buffer : UIntBuffer),
      match cipher.EncryptChunked nonces onProgress input chunkSize (some buffer) with
      | .error _ => False
      | .ok outcome => outcome.returned = true → cipher.DeliveredBy chunkSize input outcome

/-- The chunks can be counted and the overhead can be summed in 32 bits, or the call refuses
for the size it takes the message to have. -/
def SizesFit (nonceSize tagSize chunkSize : UInt32) (size : ℕ) : Prop :=
  size = 0 ∨ size + chunkSize.toNat ≤ 2 ^ 32 ∧
    (4 + nonceSize.toNat + tagSize.toNat < 2 ^ 32 ∨
      2 ^ 32 ≤ size + (size + chunkSize.toNat - 1) / chunkSize.toNat *
        ((4 + nonceSize.toNat + tagSize.toNat) % 2 ^ 32))

theorem toNat_pos (hchunk : chunkSize ≠ 0) : 0 < chunkSize.toNat :=
  Nat.pos_of_ne_zero fun h => hchunk (UInt32.toNat_inj.mp h)

theorem recordOverhead_toNat (nonceSize tagSize : UInt32) :
    (recordOverhead nonceSize tagSize).toNat = (4 + nonceSize.toNat + tagSize.toNat) % 2 ^ 32 := by
  have hfour : (4 : UInt32).toNat = 4 := rfl
  rw [recordOverhead, UInt32.toNat_add, UInt32.toNat_add, hfour, Nat.mod_add_mod]

theorem size_pos_iff (input : UIntBuffer) : input.size > 0 ↔ 0 < input.1.length := by
  rw [gt_iff_lt, UInt32.lt_iff_toNat_lt, size_toNat]
  rfl

theorem sum_toNat (input : UIntBuffer) (chunkSize : UInt32) :
    (input.size + chunkSize - 1).toNat =
      ((input.1.length + chunkSize.toNat) % 2 ^ 32 + (2 ^ 32 - 1)) % 2 ^ 32 := by
  have hone : (1 : UInt32).toNat = 1 := rfl
  rw [UInt32.toNat_sub, UInt32.toNat_add, size_toNat, hone, Nat.add_comm]

/-- Where the sum does not wrap, the chunks are counted right. -/
theorem chunkCount_toNat (hchunk : chunkSize ≠ 0)
    (h : input.1.length = 0 ∨ input.1.length + chunkSize.toNat ≤ 2 ^ 32) :
    (chunkCount input.size chunkSize).toNat = (chunksOf chunkSize.toNat input.1).length := by
  have hpos := toNat_pos hchunk
  have hlt := chunkSize.toNat_lt
  rw [length_chunksOf hpos, chunkCount]
  by_cases hinput : 0 < input.1.length
  · rw [if_pos ((size_pos_iff input).mpr hinput), UInt32.toNat_div, sum_toNat]
    apply congrArg (· / chunkSize.toNat)
    omega
  · rw [if_neg (mt (size_pos_iff input).mp hinput)]
    exact (Nat.div_eq_of_lt (by omega)).symm

/-- Where it wraps, there seem to be no chunks. -/
theorem chunkCount_eq_zero (h : 2 ^ 32 < input.1.length + chunkSize.toNat) :
    chunkCount input.size chunkSize = 0 := by
  have hinput := input.2
  have hlt := chunkSize.toNat_lt
  rw [chunkCount, if_pos ((size_pos_iff input).mpr (by omega))]
  apply UInt32.toNat_inj.mp
  rw [UInt32.toNat_div, sum_toNat]
  exact Nat.div_eq_of_lt (by omega)

/-- What sealed records are decrypted to. -/
theorem DecryptChunked_of_seals (hlawful : cipher.Lawful) (hchunk : chunkSize ≠ 0)
    {records : List Bytes}
    (hrecords : List.Forall₂ (Seals cipher) (chunksOf chunkSize.toNat input.1) records)
    {message : UIntBuffer} (hmessage : message.1 = records.flatten) :
    cipher.DecryptChunked (fun _ _ => true) message none =
        { returned := false, outputBufferSize := some input.size } ∧
      ∀ room : UIntBuffer, input.1.length ≤ room.1.length →
        cipher.DecryptChunked (fun _ _ => true) message (some room) =
          { returned := true, outputBufferSize := some input.size
            outputBuffer := overwrite room.1 0 input.1, written := input.1.length } := by
  have hinput := input.2
  have hlt := chunkSize.toNat_lt
  obtain ⟨sealed, hreads, hopens, hsizes⟩ := reads_of_seals hlawful
    (fun chunk hmem => ((length_of_mem_chunksOf hmem).2.trans_lt hlt)) hrecords
  rw [← hmessage] at hreads
  have hflatten := flatten_chunksOf (toNat_pos hchunk) input.1
  have hscan := scanChunks_of_reads hreads 0
  rw [hsizes, ← List.length_flatten, hflatten, Nat.zero_add] at hscan
  constructor
  · rw [DecryptChunked, hscan]
    dsimp only
    rw [if_neg (by omega)]
    rfl
  · intro room hroom
    have hdecrypt := decryptLoop_of_reads hreads hopens input.1.length 0
    rw [hflatten] at hdecrypt
    rw [DecryptChunked, hscan]
    dsimp only
    rw [if_neg (by omega), if_neg, hdecrypt]
    · rfl
    · rw [← UIntBuffer.size, UInt32.lt_iff_toNat_lt, size_toNat, size_toNat]
      omega


/-- Where the sizes fit and the call does not refuse, the size query asks for the records. -/
theorem requiredSizeLL_eq (hchunk : chunkSize ≠ 0)
    (hfit : SizesFit nonceSize tagSize chunkSize input.1.length)
    (hgoes : requiredSizeLL nonceSize tagSize input.size chunkSize < 2 ^ 32) :
    (chunkCount input.size chunkSize).toNat = (chunksOf chunkSize.toNat input.1).length ∧
      requiredSizeLL nonceSize tagSize input.size chunkSize =
        input.1.length + (chunksOf chunkSize.toNat input.1).length *
          (4 + nonceSize.toNat + tagSize.toNat) := by
  have hcount := chunkCount_toNat hchunk (hfit.imp_right And.left)
  refine ⟨hcount, ?_⟩
  rw [requiredSizeLL, size_toNat, hcount, recordOverhead_toNat] at hgoes ⊢
  rcases hfit with hempty | ⟨hsum, hoverhead | hrefused⟩
  · simp only [List.length_eq_zero_iff.mp hempty, chunksOf_nil, List.length_nil, Nat.zero_mul]
  · rw [Nat.mod_eq_of_lt hoverhead]
  · rw [length_chunksOf (toNat_pos hchunk)] at hgoes
    omega

/-- What the call writes, from the front of its buffer on. -/
theorem deliveredBy_of_seals (hlawful : cipher.Lawful) (hchunk : chunkSize ≠ 0)
    (hfit : SizesFit nonceSize tagSize chunkSize input.1.length)
    (hgoes : requiredSizeLL nonceSize tagSize input.size chunkSize < 2 ^ 32)
    {records : List Bytes}
    (hrecords : List.Forall₂ (Seals cipher) (chunksOf chunkSize.toNat input.1) records)
    (buffer : Bytes) :
    cipher.DeliveredBy chunkSize input
      { returned := true
        outputBufferSize := some (UInt32.ofNat (requiredSizeLL nonceSize tagSize input.size chunkSize))
        outputBuffer := overwrite buffer 0 records.flatten
        written := 0 + records.flatten.length } := by
  have hsize := UInt32.toNat_ofNat_of_lt' hgoes
  have hlength := length_of_seals hrecords
  rw [flatten_chunksOf (toNat_pos hchunk), ← (requiredSizeLL_eq hchunk hfit hgoes).2] at hlength
  refine ⟨_, ?_, rfl, ?_, ?_⟩
  · intro nonces onProgress
    rw [EncryptChunked, if_neg hchunk]
    dsimp only
    rw [if_neg (by omega)]
  · rw [hsize, Nat.zero_add, hlength]
  · apply DecryptChunked_of_seals hlawful hchunk hrecords
    show (overwrite buffer 0 records.flatten).take _ = _
    rw [hsize, ← hlength, overwrite, List.take_zero, List.nil_append, List.take_left]

theorem roundTrips_of_sizesFit (hchunk : chunkSize ≠ 0)
    (hfit : SizesFit nonceSize tagSize chunkSize input.1.length) :
    RoundTrips nonceSize tagSize chunkSize input := by
  intro cipher hlawful nonces onProgress buffer
  rw [EncryptChunked, if_neg hchunk]
  dsimp only
  by_cases hrefused : requiredSizeLL nonceSize tagSize input.size chunkSize > 0xFFFFFFFF
  · rw [if_pos hrefused]
    exact fun h => Bool.noConfusion h
  rw [if_neg hrefused]
  have hgoes : requiredSizeLL nonceSize tagSize input.size chunkSize < 2 ^ 32 := by omega
  by_cases hshort : buffer.size < UInt32.ofNat (requiredSizeLL nonceSize tagSize input.size chunkSize)
  · rw [if_pos hshort]
    exact fun h => Bool.noConfusion h
  rw [if_neg hshort]
  rw [UInt32.lt_iff_toNat_lt, size_toNat, UInt32.toNat_ofNat_of_lt' hgoes] at hshort
  obtain ⟨hcount, hrequired⟩ := requiredSizeLL_eq hchunk hfit hgoes
  have hfront : input.1.drop (0 * chunkSize.toNat) = input.1 := by
    rw [Nat.zero_mul, List.drop_zero]
  have hroom : 0 + ((input.1.drop (0 * chunkSize.toNat)).length +
      (chunksOf chunkSize.toNat (input.1.drop (0 * chunkSize.toNat))).length *
        (4 + nonceSize.toNat + tagSize.toNat)) ≤ buffer.1.length := by
    rw [hfront]
    omega
  have hspec := encryptLoop_spec cipher nonces onProgress hchunk _ rfl buffer.2 0 0 hroom
  rw [hfront] at hspec
  have hfirst : (0 : UInt32) = UInt32.ofNat 0 := rfl
  rw [hcount, hfirst]
  rcases hspec with hnone | ⟨records, hrecords, hrun⟩
  · rw [hnone]
    exact fun h => Bool.noConfusion h
  · rw [hrun]
    exact fun _ => deliveredBy_of_seals hlawful hchunk hfit hgoes hrecords buffer.1

def zeros (size : UInt32) : Octets size.toNat :=
  ⟨List.replicate size.toNat 0, List.length_replicate⟩

/-- A cipher that seals nothing. -/
def unsealed (nonceSize tagSize : UInt32) : IAeadCipher nonceSize tagSize where
  encrypt _ plaintext := some (plaintext, zeros tagSize)
  decrypt _ ciphertext _ := some ciphertext
  length_encrypt h := by
    obtain rfl := Option.some.inj h
    rfl
  length_decrypt h := by
    obtain rfl := Option.some.inj h
    rfl

theorem unsealed_lawful (nonceSize tagSize : UInt32) : (unsealed nonceSize tagSize).Lawful := by
  intro nonce plaintext sealed h
  obtain rfl := Option.some.inj h
  rfl

/-- A buffer of the size that was asked for. -/
def roomFor (size : UInt32) : UIntBuffer := ⟨List.replicate size.toNat 0, by
  rw [List.length_replicate]
  exact size.toNat_lt⟩

theorem size_roomFor (size : UInt32) : (roomFor size).size = size := by
  apply UInt32.toNat_inj.mp
  rw [size_toNat, roomFor, List.length_replicate]

/-- The call in a buffer of that size, with a cipher that seals nothing and nobody to stop it. -/
theorem EncryptChunked_unsealed (hchunk : chunkSize ≠ 0)
    (hgoes : requiredSizeLL nonceSize tagSize input.size chunkSize < 2 ^ 32) :
    let requiredSize := UInt32.ofNat (requiredSizeLL nonceSize tagSize input.size chunkSize)
    (unsealed nonceSize tagSize).EncryptChunked (fun _ => some (zeros nonceSize)) (fun _ _ => true)
        input chunkSize (some (roomFor requiredSize)) =
      (encryptLoop (unsealed nonceSize tagSize) (fun _ => some (zeros nonceSize)) (fun _ _ => true)
        input chunkSize (chunkCount input.size chunkSize).toNat 0 (roomFor requiredSize).1 0 0).map fun
      | none => { returned := false, outputBufferSize := some 0 }
      | some (outputBuffer, written) =>
        { returned := true, outputBufferSize := some requiredSize, outputBuffer, written } := by
  intro requiredSize
  rw [EncryptChunked, if_neg hchunk]
  dsimp only
  rw [if_neg (by omega), if_neg]
  rw [size_roomFor]
  exact UInt32.lt_irrefl _

/-- Where the number of chunks wraps, nothing is written and all of the input is reported. -/
theorem not_roundTrips_of_wrap (hchunk : chunkSize ≠ 0)
    (hwrap : 2 ^ 32 < input.1.length + chunkSize.toNat) :
    ¬ RoundTrips nonceSize tagSize chunkSize input := by
  have hinput := input.2
  have hlt := chunkSize.toNat_lt
  have hcount := chunkCount_eq_zero hwrap
  have hrequired : requiredSizeLL nonceSize tagSize input.size chunkSize = input.1.length := by
    rw [requiredSizeLL, hcount, size_toNat]
    exact Nat.add_eq_left.mpr (Nat.zero_mul _)
  intro h
  have hrun := h (unsealed nonceSize tagSize) (unsealed_lawful _ _)
    (fun _ => some (zeros nonceSize)) (fun _ _ => true)
    (roomFor (UInt32.ofNat (requiredSizeLL nonceSize tagSize input.size chunkSize)))
  rw [EncryptChunked_unsealed hchunk (by omega), hcount] at hrun
  obtain ⟨size, -, hsize, hwritten, -⟩ := hrun rfl
  have hreported : UInt32.ofNat (requiredSizeLL nonceSize tagSize input.size chunkSize) = size :=
    Option.some.inj hsize
  rw [hrequired] at hreported
  have hnothing : 0 = size.toNat := hwritten
  rw [← hreported, UInt32.toNat_ofNat_of_lt' hinput] at hnothing
  omega

/-- Where the overhead wraps, the first record does not fit into what was asked for. -/
theorem not_roundTrips_of_overhead (hchunk : chunkSize ≠ 0) (hinput : 0 < input.1.length)
    (hsum : input.1.length + chunkSize.toNat ≤ 2 ^ 32)
    (hoverhead : 2 ^ 32 ≤ 4 + nonceSize.toNat + tagSize.toNat)
    (hgoes : requiredSizeLL nonceSize tagSize input.size chunkSize < 2 ^ 32) :
    ¬ RoundTrips nonceSize tagSize chunkSize input := by
  have hne := List.length_pos_iff.mp hinput
  have hcount := chunkCount_toNat hchunk (Or.inr hsum)
  rw [chunksOf_of_ne_nil (toNat_pos hchunk) hne, List.length_cons] at hcount
  intro h
  have hrun := h (unsealed nonceSize tagSize) (unsealed_lawful _ _)
    (fun _ => some (zeros nonceSize)) (fun _ _ => true)
    (roomFor (UInt32.ofNat (requiredSizeLL nonceSize tagSize input.size chunkSize)))
  rw [EncryptChunked_unsealed hchunk hgoes, hcount, encryptLoop] at hrun
  dsimp only at hrun
  rw [if_pos] at hrun
  · exact hrun
  · have hroom : (roomFor (UInt32.ofNat
        (requiredSizeLL nonceSize tagSize input.size chunkSize))).1.length < 2 ^ 32 := (roomFor _).2
    omega

/-- The two calls are inverse, with exact size queries, exactly where the sizes fit. -/
theorem roundTrips_iff (hchunk : chunkSize ≠ 0) :
    RoundTrips nonceSize tagSize chunkSize input ↔
      SizesFit nonceSize tagSize chunkSize input.1.length := by
  refine ⟨?_, roundTrips_of_sizesFit hchunk⟩
  intro h
  rcases Nat.eq_zero_or_pos input.1.length with hempty | hinput
  · exact Or.inl hempty
  have hsum : input.1.length + chunkSize.toNat ≤ 2 ^ 32 :=
    not_lt.mp fun hwrap => not_roundTrips_of_wrap hchunk hwrap h
  refine Or.inr ⟨hsum, ?_⟩
  rcases Nat.lt_or_ge (4 + nonceSize.toNat + tagSize.toNat) (2 ^ 32) with hfits | hoverhead
  · exact Or.inl hfits
  · apply Or.inr
    have hcount := chunkCount_toNat hchunk (Or.inr hsum)
    by_contra hless
    apply not_roundTrips_of_overhead hchunk hinput hsum hoverhead _ h
    rw [requiredSizeLL, size_toNat, hcount, recordOverhead_toNat,
      length_chunksOf (toNat_pos hchunk)]
    omega

/-- A message of a few chunks. -/
theorem roundTrips_hundred :
    RoundTrips 12 16 32 ⟨List.replicate 100 7, by decide⟩ ↔ SizesFit 12 16 32 100 :=
  roundTrips_iff (by decide)

/-- Two octets in chunks of the largest size there is. -/
theorem not_roundTrips_two : ¬ RoundTrips 12 16 0xFFFFFFFF ⟨[1, 2], by decide⟩ :=
  not_roundTrips_of_wrap (by decide) (by decide)

end RoundTrip

end IAeadCipher
end HashCryptoLib.CryptoApi
