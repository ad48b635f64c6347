import HashCryptoLib.CryptoApi.Decoding
import HashCryptoLib.CryptoApi.StandIn
import Mathlib.Data.List.TakeWhile

/-!
Both encoders write a message that says the plaintext, of the size the size
query reports. With what the decoders deliver, the four calls use one format.
-/

namespace HashCryptoLib.CryptoApi

open Pgp (Status Buffer Failure fail)
open Pgp.Status
open Chunks Records AeadCipher

/-! ### What the encoders write -/

/-- Going by offsets, a buffer is cut into the pieces a file is read in. -/
theorem bufferChunks_eq (input : Bytes) : bufferChunks input = chunksOf BUFFER_CHUNK_SIZE input := by
  have hsize : 0 < BUFFER_CHUNK_SIZE := by decide
  have hcount : chunkCount input.length = (chunksOf BUFFER_CHUNK_SIZE input).length := by
    rw [length_chunksOf hsize, chunkCount]
    split_ifs with hpos
    · rfl
    · rw [Nat.le_zero.mp (Nat.not_lt.mp hpos)]
      rfl
  rw [chunksOf_eq_map_range, bufferChunks, hcount]
  apply List.map_congr_left
  intro chunkIndex _
  dsimp only
  split_ifs with hlast
  · rw [List.take_of_length_le (by rw [List.length_drop]),
      List.take_of_length_le (by rw [List.length_drop]; omega)]
  · rfl

theorem chunkCount_eq (plaintext : Bytes) :
    chunkCount plaintext.length = (chunksOf BUFFER_CHUNK_SIZE plaintext).length := by
  have hcount := congrArg List.length (bufferChunks_eq plaintext)
  rwa [bufferChunks, List.length_map, List.length_range] at hcount

/-- A message for a plaintext: each record opens to the chunk in its place. -/
structure Encodes (api : Provider) (password plaintext message : Bytes)
    (key : Octets api.cipher.keySize) (records : List (ℕ × Bytes)) : Prop where
  holds : Holds api password message key records
  opens : List.Forall₂ (api.cipher.Opens key) records (chunksOf BUFFER_CHUNK_SIZE plaintext)
  length_eq : message.length = requiredSize api.cipher plaintext.length

theorem Encodes.decodes {api : Provider} {password plaintext message : Bytes}
    {key : Octets api.cipher.keySize} {records : List (ℕ × Bytes)}
    (h : Encodes api password plaintext message key records) :
    Decodes api password message plaintext :=
  ⟨key, records, _, h.holds, h.opens, (flatten_chunksOf (by decide) plaintext).symm⟩

/-- The records of a list of chunks are read back, and open to the chunks. -/
theorem encryptChunks_spec {cipher : AeadCipher} (hlawful : cipher.Lawful)
    {nonces : ℕ → Option (Octets cipher.nonceSize)} {key : Octets cipher.keySize}
    {roomFor : ℕ → ℕ} {onProgress : ℕ → ℕ → Bool} {totalBytes chunkIndex processedBytes : ℕ}
    {chunks : List Bytes} {written : Bytes}
    (hchunks : ∀ chunk ∈ chunks, chunk.length ≤ BUFFER_CHUNK_SIZE)
    (h : cipher.encryptChunks nonces key roomFor onProgress totalBytes chunkIndex processedBytes
      chunks = .ok written) :
    ∃ records, Reads (cipher.nextRecord BUFFER_CHUNK_SIZE) written records ∧
      List.Forall₂ (cipher.Opens key) records chunks ∧
      written.length = chunks.flatten.length +
        chunks.length * (4 + cipher.nonceSize + cipher.tagSize) := by
  induction chunks generalizing chunkIndex processedBytes written with
  | nil =>
      obtain rfl := Except.ok.inj h
      exact ⟨[], .nil, .nil, by simp⟩
  | cons chunk chunks ih =>
      rw [encryptChunks] at h
      split at h
      · cases h
      · rename_i record hrecord
        split_ifs at h
        cases hrest : cipher.encryptChunks nonces key roomFor onProgress totalBytes
            (chunkIndex + 1) (processedBytes + chunk.length) chunks with
        | error failure =>
            rw [hrest] at h
            cases h
        | ok rest =>
            rw [hrest] at h
            obtain rfl := Except.ok.inj h
            obtain ⟨records, hreads, hopens, hlength⟩ :=
              ih (fun other hother => hchunks other (List.mem_cons_of_mem _ hother)) hrest
            have hchunk := hchunks chunk List.mem_cons_self
            have hsealed := length_of_encryptBufferWithKey hrecord
            refine ⟨(chunk.length, record) :: records, ?_, ?_, ?_⟩
            · exact .cons (by simp [writeUInt32])
                (nextRecord_written hchunk (by decide) hsealed rest) hreads
            · exact .cons (decryptBufferWithKey_encrypted hlawful hrecord le_rfl) hopens
            · rw [overhead] at hsealed
              simp only [List.length_append, length_writeUInt32, List.flatten_cons,
                List.length_cons, hlength, hsealed, Nat.add_one_mul]
              omega

/-! ### When the encoders write -/

/-- Nothing fails that a chunk is encrypted with. -/
def EncryptsChunk (cipher : AeadCipher) (nonce : Option (Octets cipher.nonceSize))
    (key : Octets cipher.keySize) (chunk : Bytes) : Prop :=
  cipher.setKey key = true ∧ ∃ drawn, nonce = some drawn ∧ (cipher.encrypt key drawn chunk).isSome

/-- Where nothing fails, the room does not matter, if only it suffices. -/
theorem encryptBufferWithKey_succeeds {cipher : AeadCipher}
    {nonce : Option (Octets cipher.nonceSize)} {key : Octets cipher.keySize} {chunk : Bytes}
    (hencrypts : EncryptsChunk cipher nonce key chunk) (hchunk : chunk.length ≤ BUFFER_CHUNK_SIZE) :
    ∃ record, ∀ capacity, chunk.length + cipher.nonceSize + cipher.tagSize ≤ capacity →
      cipher.encryptBufferWithKey nonce key chunk capacity = .ok record := by
  obtain ⟨hkey, drawn, rfl, hsealed⟩ := hencrypts
  obtain ⟨⟨ciphertext, tag⟩, hsealed⟩ := Option.isSome_iff_exists.mp hsealed
  refine ⟨drawn.1 ++ ciphertext ++ tag.1, fun capacity hcapacity => ?_⟩
  have hsizes := cipher.sizes_le
  have hsame : FILE_CHUNK_SIZE = BUFFER_CHUNK_SIZE := rfl
  have hint : ¬ chunk.length + cipher.nonceSize + cipher.tagSize > INT_MAX := by omega
  simp only [encryptBufferWithKey, if_neg hint, if_neg (Nat.not_lt.mpr hcapacity), hkey,
    Bool.true_eq_false, if_false, hsealed]

/-- The loop writes the same records whatever room it offers for them. -/
theorem encryptChunks_succeeds {cipher : AeadCipher}
    {nonces : ℕ → Option (Octets cipher.nonceSize)} {key : Octets cipher.keySize}
    {chunks : List Bytes} {chunkIndex : ℕ}
    (hchunks : ∀ chunk ∈ chunks, chunk.length ≤ BUFFER_CHUNK_SIZE)
    (hencrypts : ∀ i chunk, chunks[i]? = some chunk →
      EncryptsChunk cipher (nonces (chunkIndex + i)) key chunk) :
    ∃ written, ∀ roomFor onProgress totalBytes processedBytes,
      (∀ chunk ∈ chunks,
        chunk.length + cipher.nonceSize + cipher.tagSize ≤ roomFor chunk.length) →
      (∀ current total, onProgress current total = true) →
        cipher.encryptChunks nonces key roomFor onProgress totalBytes chunkIndex processedBytes
          chunks = .ok written := by
  induction chunks generalizing chunkIndex with
  | nil => exact ⟨[], fun _ _ _ _ _ _ => rfl⟩
  | cons chunk chunks ih =>
      obtain ⟨record, hrecord⟩ := encryptBufferWithKey_succeeds (hencrypts 0 chunk rfl)
        (hchunks chunk (.head _))
      rw [Nat.add_zero] at hrecord
      obtain ⟨rest, hrest⟩ := @ih (chunkIndex + 1) (fun other hmem => hchunks other (.tail _ hmem))
        fun i other hother => by
          have hnext := hencrypts (i + 1) other hother
          rwa [← Nat.add_assoc, Nat.add_right_comm] at hnext
      refine ⟨writeUInt32 chunk.length ++ record ++ rest, ?_⟩
      intro roomFor onProgress totalBytes processedBytes hroom hgoes
      rw [encryptChunks]
      simp only [hrecord _ (hroom chunk (.head _)), hgoes, Bool.true_eq_false, if_false,
        hrest roomFor onProgress totalBytes _ (fun other hmem => hroom other (.tail _ hmem)) hgoes]
      rfl

section Encoders

variable {api : Provider} {onProgress : ℕ → ℕ → Bool} {draws : Draws api.cipher.nonceSize}

theorem encodes_of_encryptChunks (hlawful : api.cipher.Lawful) {roomFor : ℕ → ℕ}
    {password plaintext written : Bytes} {salt : Octets PASSWORD_SALT_SIZE}
    {key : Octets api.cipher.keySize} (hkey : api.derivePasswordKey password salt = some key)
    (h : api.cipher.encryptChunks draws.nonce key roomFor onProgress plaintext.length 0 0
      (chunksOf BUFFER_CHUNK_SIZE plaintext) = .ok written) :
    ∃ records, Encodes api password plaintext (salt.1 ++ written) key records := by
  obtain ⟨records, hreads, hopens, hlength⟩ := encryptChunks_spec hlawful
    (fun chunk hchunk => (length_of_mem_chunksOf hchunk).2) h
  refine ⟨records, ⟨salt, written, rfl, hkey, hreads⟩, hopens, ?_⟩
  rw [List.length_append, salt.2, hlength, flatten_chunksOf (by decide), requiredSize,
    chunkCount_eq]
  exact (Nat.add_assoc ..).symm

theorem encodes_of_EncryptBuffer (hlawful : api.cipher.Lawful) {password input : Buffer}
    {destination : Destination}
    (h : (EncryptBuffer api onProgress draws password input destination).status = NO_ERROR) :
    (EncryptBuffer api onProgress draws password input destination).outputBufferSize =
        requiredSize api.cipher input.1.length ∧
      requiredSize api.cipher input.1.length ≤ INT_MAX ∧ password.1 ≠ [] ∧
      ∃ key records, Encodes api password.1 input.1
        (EncryptBuffer api onProgress draws password input destination).output key records := by
  unfold EncryptBuffer at h ⊢
  by_cases hpassword : password.1 = []
  · rw [if_pos hpassword] at h
    cases h
  rw [if_neg hpassword] at h ⊢
  by_cases hsize : requiredSize api.cipher input.1.length > INT_MAX
  · rw [if_pos hsize] at h
    cases h
  rw [if_neg hsize] at h ⊢
  split at h
  · cases h
  · rename_i hroom
    rw [if_neg hroom]
    split at h
    · cases h
    · split at h
      · cases h
      · rename_i key hkey
        split at h
        · rename_i failure _
          exact absurd h failure.2
        · rename_i written hwritten
          rw [bufferChunks_eq] at hwritten
          obtain ⟨records, hencodes⟩ := encodes_of_encryptChunks hlawful hkey hwritten
          exact ⟨rfl, Nat.le_of_not_gt hsize, hpassword, key, records, hencodes⟩

theorem encodes_of_EncryptFile (hlawful : api.cipher.Lawful) {password content message : Bytes}
    (h : EncryptFile api onProgress draws password content =
      { status := NO_ERROR, outputFile := some message }) :
    cString password ≠ [] ∧ ∃ key records, Encodes api (cString password) content message key
      records := by
  unfold EncryptFile at h
  by_cases hpassword : cString password = [] ∨ (cString password).length > INT_MAX
  · rw [if_pos hpassword] at h
    cases h
  rw [if_neg hpassword] at h
  split at h
  · cases h
  · split at h
    · cases h
    · rename_i key hkey
      split at h
      · rename_i failure _
        exact absurd (FileOutcome.mk.inj h).1 failure.2
      · rename_i written hwritten
        obtain ⟨-, hmessage⟩ := FileOutcome.mk.inj h
        obtain rfl := Option.some.inj hmessage
        obtain ⟨records, hencodes⟩ := encodes_of_encryptChunks hlawful hkey hwritten
        exact ⟨(not_or.mp hpassword).1, key, records, hencodes⟩

end Encoders

/-! ### One format -/

section OneFormat

variable (api : Provider) (onProgress : ℕ → ℕ → Bool)

/-- One of the encoders made this message of the plaintext. The call on files
takes its password as a C string. -/
def Produced (password : Buffer) (plaintext message : Bytes) : Prop :=
  (∃ (hshort : plaintext.length < 2 ^ 31) (onProgress : ℕ → ℕ → Bool)
    (draws : Draws api.cipher.nonceSize) (destination : Destination),
    let outcome := EncryptBuffer api onProgress draws password ⟨plaintext, hshort⟩ destination
    outcome.status = NO_ERROR ∧ outcome.output = message) ∨
  ∃ onProgress draws given, cString given = password.1 ∧
    EncryptFile api onProgress draws given plaintext =
      { status := NO_ERROR, outputFile := some message }

/-- Nothing fails that the encoders call: the random source, the key derivation
and the cipher. -/
def Supplied (draws : Draws api.cipher.nonceSize) (password plaintext : Bytes) : Prop :=
  ∃ salt key, draws.salt = some salt ∧ api.derivePasswordKey password salt = some key ∧
    ∀ i chunk, (chunksOf BUFFER_CHUNK_SIZE plaintext)[i]? = some chunk →
      EncryptsChunk api.cipher (draws.nonce i) key chunk

/-- Both encoders write this message, the one on files whatever the size of the
plaintext. -/
structure BothProduce (draws : Draws api.cipher.nonceSize) (password : Buffer)
    (plaintext message : Bytes) : Prop where
  file : ∀ onProgress, (∀ current total, onProgress current total = true) →
    ∀ given, cString given = password.1 →
      EncryptFile api onProgress draws given plaintext =
        { status := NO_ERROR, outputFile := some message }
  buffer : ∀ hshort : plaintext.length < 2 ^ 31,
    requiredSize api.cipher plaintext.length ≤ INT_MAX →
    ∀ onProgress, (∀ current total, onProgress current total = true) →
    ∀ destination : Destination, destination.HasRoom (requiredSize api.cipher plaintext.length) →
      EncryptBuffer api onProgress draws password ⟨plaintext, hshort⟩ destination =
        { status := NO_ERROR, outputBufferSize := message.length, output := message }

/-- Both decoders deliver the plaintext of a message. -/
def BothDeliver (password : Buffer) (message plaintext : Bytes) : Prop :=
  (∃ hmessage : message.length < 2 ^ 31, ∀ destination : Destination,
    destination.HasRoom plaintext.length →
      DecryptBuffer api onProgress password ⟨message, hmessage⟩ destination =
        { status := NO_ERROR, outputBufferSize := plaintext.length, output := plaintext }) ∧
  DecryptFile api onProgress password.1 message =
    { status := NO_ERROR, outputFile := some plaintext }

def sizeQuery : Destination := ⟨false, 0⟩

/-- What the buffer calls write has the size they report, and report beforehand. -/
def SizesReported (password input : Buffer) : Prop :=
  (∀ onProgress draws destination,
    let outcome := EncryptBuffer api onProgress draws password input destination
    outcome.status = NO_ERROR → outcome.outputBufferSize = outcome.output.length ∧
      (EncryptBuffer api onProgress draws password input sizeQuery).outputBufferSize =
        outcome.output.length) ∧
  ∀ destination,
    let outcome := DecryptBuffer api onProgress password input destination
    outcome.status = NO_ERROR → outcome.outputBufferSize = outcome.output.length ∧
      (DecryptBuffer api onProgress password input sizeQuery).outputBufferSize =
        outcome.output.length

/-- The decoders accept alike and deliver the same, if the caller of the one on
buffers has room for it. -/
def AcceptAlike (password input : Buffer) : Prop :=
  ∀ (destination : Destination) (plaintext : Bytes),
    (DecryptBuffer api onProgress password input destination).status = NO_ERROR ∧
        (DecryptBuffer api onProgress password input destination).output = plaintext ↔
      destination.HasRoom plaintext.length ∧
        DecryptFile api onProgress password.1 input.1 =
          { status := NO_ERROR, outputFile := some plaintext }

variable {api onProgress}

theorem cString_of_not_mem {password : Bytes} (h : 0 ∉ password) : cString password = password := by
  apply List.takeWhile_eq_self_iff.mpr
  intro octet hoctet
  exact decide_eq_true fun hzero => h (hzero ▸ hoctet)

theorem EncryptBuffer_sizeQuery {draws : Draws api.cipher.nonceSize} {password input : Buffer}
    (hpassword : password.1 ≠ []) (hsize : requiredSize api.cipher input.1.length ≤ INT_MAX) :
    EncryptBuffer api onProgress draws password input sizeQuery =
      { status := BUFFER_TOO_SMALL
        outputBufferSize := requiredSize api.cipher input.1.length } := by
  rw [EncryptBuffer, if_neg hpassword, if_neg (Nat.not_lt.mpr hsize)]
  exact if_pos (Or.inr rfl)

/-- Where nothing fails, both encoders write, and the same. -/
theorem Supplied.bothProduce (hlawful : api.cipher.Lawful) {draws : Draws api.cipher.nonceSize}
    {password : Buffer} {plaintext : Bytes} (hpassword : password.1 ≠ [])
    (h : Supplied api draws password.1 plaintext) :
    ∃ message, BothProduce api draws password plaintext message := by
  obtain ⟨salt, key, hsalt, hkey, hencrypts⟩ := h
  have hchunks : ∀ chunk ∈ chunksOf BUFFER_CHUNK_SIZE plaintext,
      chunk.length ≤ BUFFER_CHUNK_SIZE := fun chunk hchunk => (length_of_mem_chunksOf hchunk).2
  obtain ⟨written, hwritten⟩ := encryptChunks_succeeds hchunks
    (fun i chunk hchunk => (Nat.zero_add i).symm ▸ hencrypts i chunk hchunk)
  refine ⟨salt.1 ++ written, ?_, ?_⟩
  · intro onProgress hgoes given hgiven
    have hshort := password.2
    rw [EncryptFile, hgiven, if_neg (by simp [hpassword, INT_MAX]; omega)]
    have hroom : ∀ chunk ∈ chunksOf BUFFER_CHUNK_SIZE plaintext,
        chunk.length + api.cipher.nonceSize + api.cipher.tagSize ≤
          FILE_CHUNK_SIZE + api.cipher.nonceSize + api.cipher.tagSize := by
      intro chunk hchunk
      have hle : chunk.length ≤ FILE_CHUNK_SIZE := hchunks chunk hchunk
      omega
    simp only [hsalt, hkey]
    rw [show FILE_CHUNK_SIZE = BUFFER_CHUNK_SIZE from rfl] at hroom ⊢
    rw [hwritten (fun _ => BUFFER_CHUNK_SIZE + api.cipher.nonceSize + api.cipher.tagSize) onProgress
      plaintext.length 0 hroom hgoes]
  · intro hshort hsize onProgress hgoes destination hroom
    have hwrites := hwritten
      (fun chunkSize => chunkSize + api.cipher.nonceSize + api.cipher.tagSize) onProgress
      plaintext.length 0 (fun chunk _ => le_rfl) hgoes
    obtain ⟨records, hencodes⟩ := encodes_of_encryptChunks hlawful hkey hwrites
    have hfull : 0 < requiredSize api.cipher plaintext.length := by
      rw [requiredSize, PASSWORD_SALT_SIZE]
      omega
    have hfits : ¬ (destination.outputBufferCapacity.toInt <
        requiredSize api.cipher plaintext.length ∨ destination.outputBuffer = false) := by
      rw [hroom.2 hfull]
      have hcapacity := hroom.1
      simpa using hcapacity
    rw [EncryptBuffer, if_neg hpassword, if_neg (Nat.not_lt.mpr hsize), if_neg hfits,
      hencodes.length_eq]
    simp only [hsalt, hkey, bufferChunks_eq, hwrites]

/-- A successful call on files leaves a file. -/
theorem EncryptFile_noError {onProgress : ℕ → ℕ → Bool} {draws : Draws api.cipher.nonceSize}
    {given plaintext : Bytes}
    (h : (EncryptFile api onProgress draws given plaintext).status = NO_ERROR) :
    ∃ message, EncryptFile api onProgress draws given plaintext =
      { status := NO_ERROR, outputFile := some message } := by
  unfold EncryptFile at h ⊢
  split_ifs at h ⊢ with hpassword
  split at h
  · cases h
  · split at h
    · cases h
    · split at h
      · rename_i failure _
        exact absurd h failure.2
      · exact ⟨_, rfl⟩

theorem Produced.encodes (hlawful : api.cipher.Lawful) {password : Buffer}
    {plaintext message : Bytes} (h : Produced api password plaintext message) :
    password.1 ≠ [] ∧ ∃ key records, Encodes api password.1 plaintext message key records := by
  rcases h with ⟨hshort, onProgress, draws, destination, hstatus, rfl⟩ |
    ⟨onProgress, draws, given, hgiven, hfile⟩
  · obtain ⟨-, -, hpassword, hencodes⟩ := encodes_of_EncryptBuffer hlawful hstatus
    exact ⟨hpassword, hencodes⟩
  · have hencodes := encodes_of_EncryptFile hlawful hfile
    rwa [hgiven] at hencodes

theorem Decodes.bothDeliver (hgoes : ∀ current total, onProgress current total = true)
    {password : Buffer} {message plaintext : Bytes} (hpassword : password.1 ≠ [])
    (hfree : 0 ∉ password.1) (hmessage : message.length < 2 ^ 31)
    (h : Decodes api password.1 message plaintext) :
    BothDeliver api onProgress password message plaintext := by
  constructor
  · refine ⟨hmessage, fun destination hroom => ?_⟩
    have hdecodes : Decodes api password.1 (⟨message, hmessage⟩ : Buffer).1 plaintext := h
    rcases DecryptBuffer_of_decodes hgoes hpassword hdecodes destination with
      ⟨-, hdelivers⟩ | ⟨hnoroom, -⟩
    · exact hdelivers
    · exact absurd hroom hnoroom
  · rw [DecryptFile_iff hgoes, cString_of_not_mem hfree]
    have hshort := password.2
    exact ⟨hpassword, by unfold INT_MAX; omega, h⟩

theorem sizesReported (hlawful : api.cipher.Lawful)
    (hgoes : ∀ current total, onProgress current total = true) (password input : Buffer) :
    SizesReported api onProgress password input := by
  constructor
  · intro onProgress' draws destination outcome hstatus
    obtain ⟨hreported, hsize, hpassword, key, records, hencodes⟩ :=
      encodes_of_EncryptBuffer hlawful hstatus
    rw [EncryptBuffer_sizeQuery hpassword hsize]
    exact ⟨hreported.trans hencodes.length_eq.symm, hencodes.length_eq.symm⟩
  · intro destination outcome hstatus
    obtain ⟨hpassword, hdecodes⟩ := decodes_of_DecryptBuffer hgoes hstatus
    constructor
    · rcases DecryptBuffer_of_decodes hgoes hpassword hdecodes destination with
        ⟨-, hdelivers⟩ | ⟨-, hrefuses⟩
      · exact congrArg Outcome.outputBufferSize hdelivers
      · exact congrArg Outcome.outputBufferSize hrefuses
    · rcases DecryptBuffer_of_decodes hgoes hpassword hdecodes sizeQuery with
        ⟨-, hdelivers⟩ | ⟨-, hrefuses⟩
      · exact congrArg Outcome.outputBufferSize hdelivers
      · exact congrArg Outcome.outputBufferSize hrefuses

/-- The buffer call delivers what the message says, if there is room for it. -/
theorem DecryptBuffer_iff (hgoes : ∀ current total, onProgress current total = true)
    {password input : Buffer} (destination : Destination) (plaintext : Bytes) :
    (DecryptBuffer api onProgress password input destination).status = NO_ERROR ∧
        (DecryptBuffer api onProgress password input destination).output = plaintext ↔
      destination.HasRoom plaintext.length ∧ password.1 ≠ [] ∧
        Decodes api password.1 input.1 plaintext := by
  constructor
  · rintro ⟨hstatus, rfl⟩
    obtain ⟨hpassword, hdecodes⟩ := decodes_of_DecryptBuffer hgoes hstatus
    refine ⟨?_, hpassword, hdecodes⟩
    rcases DecryptBuffer_of_decodes hgoes hpassword hdecodes destination with
      ⟨hroom, -⟩ | ⟨-, hrefuses⟩
    · exact hroom
    · rw [hrefuses] at hstatus
      cases hstatus
  · rintro ⟨hroom, hpassword, hdecodes⟩
    rcases DecryptBuffer_of_decodes hgoes hpassword hdecodes destination with
      ⟨-, hdelivers⟩ | ⟨hnoroom, -⟩
    · rw [hdelivers]
      exact ⟨rfl, rfl⟩
    · exact absurd hroom hnoroom

theorem acceptAlike (hgoes : ∀ current total, onProgress current total = true)
    {password : Buffer} (hfree : 0 ∉ password.1) (input : Buffer) :
    AcceptAlike api onProgress password input := by
  intro destination plaintext
  have hshort : password.1.length ≤ INT_MAX := Nat.le_of_lt_succ password.2
  rw [DecryptBuffer_iff hgoes, DecryptFile_iff hgoes, cString_of_not_mem hfree,
    and_iff_right hshort]

/-- The four calls under a password use one format. -/
theorem passwordCalls_oneFormat (hlawful : api.cipher.Lawful)
    (hgoes : ∀ current total, onProgress current total = true) (password : Buffer)
    (hfree : 0 ∉ password.1) :
    (∀ draws plaintext, password.1 ≠ [] → Supplied api draws password.1 plaintext →
      ∃ message, BothProduce api draws password plaintext message) ∧
    (∀ onProgress draws given plaintext,
      (EncryptFile api onProgress draws given plaintext).status = NO_ERROR →
        ∃ message, EncryptFile api onProgress draws given plaintext =
          { status := NO_ERROR, outputFile := some message }) ∧
    (∀ plaintext message, requiredSize api.cipher plaintext.length ≤ INT_MAX →
      Produced api password plaintext message →
      BothDeliver api onProgress password message plaintext) ∧
    (∀ input, SizesReported api onProgress password input) ∧
    ∀ input, AcceptAlike api onProgress password input := by
  refine ⟨fun draws plaintext hpassword hsupplied => hsupplied.bothProduce hlawful hpassword,
    fun onProgress draws given plaintext h => EncryptFile_noError h,
    fun plaintext message hsize hproduced => ?_, sizesReported hlawful hgoes password,
    acceptAlike hgoes hfree⟩
  obtain ⟨hpassword, key, records, hencodes⟩ := hproduced.encodes hlawful
  apply hencodes.decodes.bothDeliver hgoes hpassword hfree
  rw [hencodes.length_eq]
  unfold INT_MAX at hsize
  omega

end OneFormat

/-! ### A message of three records -/

def samplePassword : Buffer := ⟨[0x70, 0x77], by decide⟩

/-- Two full chunks and a short one. -/
def longPlaintext : Bytes := List.replicate 2500 7

theorem supplied_standIn (password plaintext : Bytes) :
    Supplied standInProvider standInDraws password plaintext :=
  ⟨_, _, rfl, rfl, fun _ _ _ => ⟨rfl, _, rfl, rfl⟩⟩

/-- What the call on files writes, both decoders deliver. -/
theorem passwordCalls_oneFormat_sample : ∃ message,
    EncryptFile standInProvider (fun _ _ => true) standInDraws samplePassword.1 longPlaintext =
        { status := NO_ERROR, outputFile := some message } ∧
      BothDeliver standInProvider (fun _ _ => true) samplePassword message longPlaintext := by
  have hgoes (current total : ℕ) : (fun _ _ => true : ℕ → ℕ → Bool) current total = true := rfl
  have hlength : longPlaintext.length = 2500 := List.length_replicate
  have hfree : 0 ∉ samplePassword.1 := by decide
  obtain ⟨hproduces, -, hdelivers, -⟩ :=
    passwordCalls_oneFormat standInProvider_lawful hgoes samplePassword hfree
  obtain ⟨message, hmessage⟩ := hproduces standInDraws longPlaintext (by decide)
    (supplied_standIn _ _)
  have hgiven := cString_of_not_mem hfree
  have hfile := hmessage.file _ hgoes samplePassword.1 hgiven
  refine ⟨message, hfile, hdelivers _ _ ?_ (.inr ⟨_, _, _, hgiven, hfile⟩)⟩
  rw [hlength]
  decide

end HashCryptoLib.CryptoApi
