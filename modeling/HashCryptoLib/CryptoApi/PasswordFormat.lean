import HashCryptoLib.CryptoApi.Cipher
import HashCryptoLib.Lib.Chunks

/-!
Encryption under a password, of buffers and of files. A message is a salt and
one record for each chunk of the plaintext, each behind the size of its chunk;
there are two encoders and two decoders of it.
-/

namespace HashCryptoLib.CryptoApi

open Pgp (Status Buffer Failure fail)
open Pgp.Status
open Chunks

/-- What the calls use of a provider. -/
structure Provider where
  cipher : AeadCipher
  derivePasswordKey : Bytes → Octets PASSWORD_SALT_SIZE → Option (Octets cipher.keySize)

/-- What the random source gives one call, in the order of its draws; a draw can fail. -/
structure Draws (nonceSize : ℕ) where
  salt : Option (Octets PASSWORD_SALT_SIZE)
  nonce : ℕ → Option (Octets nonceSize)

/-- The caller's output buffer: whether there is one, and the capacity claimed for it. -/
structure Destination where
  outputBuffer : Bool
  outputBufferCapacity : Int32

structure Outcome where
  status : Status
  outputBufferSize : ℕ := 0
  output : Bytes := []
  deriving DecidableEq, Repr

/-- What a call on files leaves: the output file of a failed call is deleted. -/
structure FileOutcome where
  status : Status
  outputFile : Option Bytes := none
  deriving DecidableEq, Repr

/-! ### Records -/

def writeUInt32 (value : ℕ) : Bytes :=
  [UInt8.ofNat value, UInt8.ofNat (value >>> 8), UInt8.ofNat (value >>> 16),
    UInt8.ofNat (value >>> 24)]

def readUInt32 (buffer : Bytes) : ℕ :=
  (buffer.getD 0 0).toNat ||| (buffer.getD 1 0).toNat <<< 8 ||| (buffer.getD 2 0).toNat <<< 16 |||
    (buffer.getD 3 0).toNat <<< 24

namespace AeadCipher

variable (cipher : AeadCipher)

/-- The record at the front of `rest`: the chunk size it states, what is sealed,
and what is behind it. -/
def nextRecord (chunkSize : ℕ) (rest : Bytes) : Option ((ℕ × Bytes) × Bytes) :=
  if rest.length < 4 then none
  else
    let chunkPlainSize := readUInt32 rest
    if chunkPlainSize > chunkSize then none
    else
      let recordSize := chunkPlainSize + cipher.nonceSize + cipher.tagSize
      if recordSize > (rest.drop 4).length then none
      else some ((chunkPlainSize, (rest.drop 4).take recordSize), rest.drop (4 + recordSize))

theorem nextRecord_lt {cipher : AeadCipher} {chunkSize : ℕ} {rest rest' : Bytes}
    {record : ℕ × Bytes} (h : cipher.nextRecord chunkSize rest = some (record, rest')) :
    rest'.length < rest.length := by
  unfold nextRecord at h
  dsimp only at h
  split_ifs at h
  obtain ⟨-, rfl⟩ := Prod.mk.inj (Option.some.inj h)
  rw [List.length_drop]
  omega

/-! ### The loops -/

/-- Each chunk becomes a record behind its size. `roomFor` is the room offered
for the record of a chunk of a given size. -/
def encryptChunks (nonces : ℕ → Option (Octets cipher.nonceSize)) (key : Octets cipher.keySize)
    (roomFor : ℕ → ℕ) (onProgress : ℕ → ℕ → Bool) (totalBytes : ℕ) :
    ℕ → ℕ → List Bytes → Except Failure Bytes
  | _, _, [] => .ok []
  | chunkIndex, processedBytes, chunk :: chunks =>
    match cipher.encryptBufferWithKey (nonces chunkIndex) key chunk (roomFor chunk.length) with
    | .error failure => .error failure
    | .ok record =>
      if onProgress (processedBytes + chunk.length) totalBytes = false then
        fail OPERATION_CANCELLED
      else
        (encryptChunks nonces key roomFor onProgress totalBytes (chunkIndex + 1)
          (processedBytes + chunk.length) chunks).map fun rest =>
            writeUInt32 chunk.length ++ record ++ rest

/-- The first pass over a buffer: the framing, and the size of the plaintext. -/
def scanRecords (rest : Bytes) (requiredSize : ℕ) : Except Failure ℕ :=
  if rest = [] then .ok requiredSize
  else
    match _hnext : cipher.nextRecord BUFFER_CHUNK_SIZE rest with
    | none => fail INVALID_DATA
    | some ((chunkPlainSize, _), rest') =>
      if requiredSize + chunkPlainSize > INT_MAX then fail INVALID_ARGUMENT
      else scanRecords rest' (requiredSize + chunkPlainSize)
termination_by rest.length
decreasing_by exact nextRecord_lt _hnext

/-- The second pass decrypts the records, and does not look at the framing again. -/
def decryptRecords (key : Octets cipher.keySize) (onProgress : ℕ → ℕ → Bool)
    (totalInputSize processedBytes : ℕ) (rest : Bytes) : Except Failure Bytes :=
  if _hleft : rest = [] then .ok []
  else
    let chunkPlainSize := readUInt32 rest
    let recordSize := chunkPlainSize + cipher.nonceSize + cipher.tagSize
    match cipher.decryptBufferWithKey key ((rest.drop 4).take recordSize) chunkPlainSize with
    | .error failure => .error failure
    | .ok chunk =>
      if chunk.length ≠ chunkPlainSize then fail INVALID_DATA
      else if onProgress (processedBytes + (4 + recordSize)) totalInputSize = false then
        fail OPERATION_CANCELLED
      else
        (decryptRecords key onProgress totalInputSize (processedBytes + (4 + recordSize))
          (rest.drop (4 + recordSize))).map (chunk ++ ·)
termination_by rest.length
decreasing_by
  have hpos := List.length_pos_iff.mpr _hleft
  rw [List.length_drop]
  omega

/-- The loop over a file, which is read, checked and decrypted in one pass. -/
def decryptFileRecords (key : Octets cipher.keySize) (onProgress : ℕ → ℕ → Bool)
    (totalBytes processedBytes : ℕ) (rest : Bytes) : Except Failure Bytes :=
  if rest = [] then .ok []
  else
    match _hnext : cipher.nextRecord FILE_CHUNK_SIZE rest with
    | none => fail INVALID_DATA
    | some ((plaintextChunkSize, encryptedChunk), rest') =>
      match cipher.decryptBufferWithKey key encryptedChunk FILE_CHUNK_SIZE with
      | .error failure => .error failure
      | .ok chunk =>
        if chunk.length ≠ plaintextChunkSize then fail INVALID_DATA
        else if onProgress (processedBytes + (4 + encryptedChunk.length)) totalBytes = false then
          fail OPERATION_CANCELLED
        else
          (decryptFileRecords key onProgress totalBytes
            (processedBytes + (4 + encryptedChunk.length)) rest').map (chunk ++ ·)
termination_by rest.length
decreasing_by exact nextRecord_lt _hnext

end AeadCipher

/-! ### The calls -/

section Calls

variable (api : Provider) (onProgress : ℕ → ℕ → Bool)

def chunkCount (inputBufferSize : ℕ) : ℕ :=
  if inputBufferSize > 0 then (inputBufferSize + BUFFER_CHUNK_SIZE - 1) / BUFFER_CHUNK_SIZE else 0

/-- The chunks of a buffer, each by its offset. -/
def bufferChunks (input : Bytes) : List Bytes :=
  (List.range (chunkCount input.length)).map fun chunkIndex =>
    let offset := chunkIndex * BUFFER_CHUNK_SIZE
    let remainingInput := input.length - offset
    (input.drop offset).take
      (if remainingInput < BUFFER_CHUNK_SIZE then remainingInput else BUFFER_CHUNK_SIZE)

/-- The size of the message for a plaintext. -/
def requiredSize (cipher : AeadCipher) (inputBufferSize : ℕ) : ℕ :=
  PASSWORD_SALT_SIZE + inputBufferSize +
    chunkCount inputBufferSize * (4 + cipher.nonceSize + cipher.tagSize)

def EncryptBuffer (draws : Draws api.cipher.nonceSize) (password input : Buffer)
    (destination : Destination) : Outcome :=
  if password.1 = [] then { status := INVALID_ARGUMENT }
  else if requiredSize api.cipher input.1.length > INT_MAX then { status := INVALID_ARGUMENT }
  else if destination.outputBufferCapacity.toInt < requiredSize api.cipher input.1.length ∨
      destination.outputBuffer = false then
    { status := BUFFER_TOO_SMALL, outputBufferSize := requiredSize api.cipher input.1.length }
  else
    match draws.salt with
    | none => { status := UNEXPECTED_ERROR }
    | some salt =>
      match api.derivePasswordKey password.1 salt with
      | none => { status := UNEXPECTED_ERROR }
      | some key =>
        match api.cipher.encryptChunks draws.nonce key
            (fun chunkSize => chunkSize + api.cipher.nonceSize + api.cipher.tagSize) onProgress
            input.1.length 0 0 (bufferChunks input.1) with
        | .error failure => { status := failure.1 }
        | .ok records =>
          { status := NO_ERROR
            outputBufferSize := requiredSize api.cipher input.1.length
            output := salt.1 ++ records }

/-- The input is not a null pointer. -/
def DecryptBuffer (password input : Buffer) (destination : Destination) : Outcome :=
  if password.1 = [] then { status := INVALID_ARGUMENT }
  else if hshort : input.1.length < PASSWORD_SALT_SIZE then { status := INVALID_DATA }
  else
    match api.cipher.scanRecords (input.1.drop PASSWORD_SALT_SIZE) 0 with
    | .error failure => { status := failure.1 }
    | .ok requiredSize =>
      if destination.outputBufferCapacity.toInt < requiredSize ∨
          requiredSize > 0 ∧ destination.outputBuffer = false then
        { status := BUFFER_TOO_SMALL, outputBufferSize := requiredSize }
      else
        let salt : Octets PASSWORD_SALT_SIZE :=
          ⟨input.1.take PASSWORD_SALT_SIZE, by rw [List.length_take]; omega⟩
        match api.derivePasswordKey password.1 salt with
        | none => { status := UNEXPECTED_ERROR }
        | some key =>
          match api.cipher.decryptRecords key onProgress input.1.length 0
              (input.1.drop PASSWORD_SALT_SIZE) with
          | .error failure => { status := failure.1 }
          | .ok plaintext =>
            { status := NO_ERROR, outputBufferSize := requiredSize, output := plaintext }

/-- The octets of a C string. -/
def cString (password : Bytes) : Bytes := password.takeWhile (· ≠ 0)

/-- `content` is that of the input file. -/
def EncryptFile (draws : Draws api.cipher.nonceSize) (password content : Bytes) : FileOutcome :=
  if cString password = [] ∨ (cString password).length > INT_MAX then
    { status := INVALID_ARGUMENT }
  else
    match draws.salt with
    | none => { status := UNEXPECTED_ERROR }
    | some salt =>
      match api.derivePasswordKey (cString password) salt with
      | none => { status := UNEXPECTED_ERROR }
      | some key =>
        match api.cipher.encryptChunks draws.nonce key
            (fun _ => FILE_CHUNK_SIZE + api.cipher.nonceSize + api.cipher.tagSize) onProgress
            content.length 0 0 (chunksOf FILE_CHUNK_SIZE content) with
        | .error failure => { status := failure.1 }
        | .ok records => { status := NO_ERROR, outputFile := some (salt.1 ++ records) }

def DecryptFile (password content : Bytes) : FileOutcome :=
  if cString password = [] ∨ (cString password).length > INT_MAX then
    { status := INVALID_ARGUMENT }
  else if hshort : content.length < PASSWORD_SALT_SIZE then { status := INVALID_DATA }
  else
    let salt : Octets PASSWORD_SALT_SIZE :=
      ⟨content.take PASSWORD_SALT_SIZE, by rw [List.length_take]; omega⟩
    match api.derivePasswordKey (cString password) salt with
    | none => { status := UNEXPECTED_ERROR }
    | some key =>
      match api.cipher.decryptFileRecords key onProgress content.length PASSWORD_SALT_SIZE
          (content.drop PASSWORD_SALT_SIZE) with
      | .error failure => { status := failure.1 }
      | .ok plaintext => { status := NO_ERROR, outputFile := some plaintext }

end Calls

end HashCryptoLib.CryptoApi
