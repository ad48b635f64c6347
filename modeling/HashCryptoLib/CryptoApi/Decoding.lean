import HashCryptoLib.CryptoApi.PasswordFormat
import HashCryptoLib.Lib.Records

/-!
What a message under a password says: the records behind its salt, opened one
by one with the key of that salt. Both decoders, the one that scans a buffer
before it decrypts and the one that goes through a file once, deliver just this.
-/

namespace HashCryptoLib.CryptoApi

open Pgp (Status Buffer Failure fail)
open Pgp.Status
open Chunks Records

/-! ### Size prefixes -/

@[simp] theorem length_writeUInt32 (value : ℕ) : (writeUInt32 value).length = 4 := rfl

theorem readUInt32_writeUInt32 {value : ℕ} (h : value < 2 ^ 32) (rest : Bytes) :
    readUInt32 (writeUInt32 value ++ rest) = value := by
  have hor (low high i : ℕ) (hlow : low < 2 ^ i) : low ||| high <<< i = low + high * 2 ^ i := by
    rw [Nat.or_comm, ← Nat.shiftLeft_add_eq_or_of_lt hlow, Nat.shiftLeft_eq, Nat.add_comm]
  have hoctet (n : ℕ) : (UInt8.ofNat n).toNat = n % 256 := by simp
  show (UInt8.ofNat value).toNat ||| (UInt8.ofNat (value >>> 8)).toNat <<< 8 |||
    (UInt8.ofNat (value >>> 16)).toNat <<< 16 ||| (UInt8.ofNat (value >>> 24)).toNat <<< 24 = value
  simp only [hoctet, Nat.shiftRight_eq_div_pow]
  rw [hor _ _ 8 (by omega), hor _ _ 16 (by omega), hor _ _ 24 (by omega)]
  omega

namespace AeadCipher

variable {cipher : AeadCipher} {key : Octets cipher.keySize} {chunkSize : ℕ} {rest rest' : Bytes}
  {record : ℕ × Bytes}

/-! ### One record -/

/-- The parts of the record at the front, as the decoders that do not check cut them out. -/
theorem nextRecord_eq_some (h : cipher.nextRecord chunkSize rest = some (record, rest')) :
    record.1 = readUInt32 rest ∧
      record.2 = (rest.drop 4).take (readUInt32 rest + cipher.nonceSize + cipher.tagSize) ∧
      rest' = rest.drop (4 + (readUInt32 rest + cipher.nonceSize + cipher.tagSize)) ∧
      record.2.length = record.1 + cipher.overhead ∧ record.1 ≤ chunkSize ∧
      record.1 + rest'.length ≤ rest.length := by
  unfold nextRecord at h
  dsimp only at h
  split_ifs at h with hprefix hsize hfits
  obtain ⟨rfl, rfl⟩ := Prod.mk.inj (Option.some.inj h)
  rw [List.length_drop] at hfits
  refine ⟨rfl, rfl, rfl, ?_, by omega, ?_⟩
  · rw [List.length_take, List.length_drop, overhead]
    omega
  · rw [List.length_drop]
    dsimp only
    omega

/-- A record that was written is read back. -/
theorem nextRecord_written {chunk sealed : Bytes} (hchunk : chunk.length ≤ chunkSize)
    (hsmall : chunkSize < 2 ^ 32) (hsealed : sealed.length = chunk.length + cipher.overhead)
    (rest : Bytes) :
    cipher.nextRecord chunkSize (writeUInt32 chunk.length ++ sealed ++ rest) =
      some ((chunk.length, sealed), rest) := by
  have hread : readUInt32 (writeUInt32 chunk.length ++ (sealed ++ rest)) = chunk.length :=
    readUInt32_writeUInt32 (by omega) _
  have hbehind : (writeUInt32 chunk.length ++ (sealed ++ rest)).drop 4 = sealed ++ rest := rfl
  have hsize : chunk.length + cipher.nonceSize + cipher.tagSize = sealed.length := by
    rw [hsealed, overhead, Nat.add_assoc]
  rw [List.append_assoc, nextRecord, if_neg (by simp)]
  dsimp only
  rw [hread, if_neg (Nat.not_lt.mpr hchunk), hbehind, hsize, if_neg (by simp), List.take_left,
    ← List.drop_drop, hbehind, List.drop_left]

/-- What a record opens to. -/
def Opens (key : Octets cipher.keySize) (record : ℕ × Bytes) (chunk : Bytes) : Prop :=
  cipher.decryptBufferWithKey key record.2 record.1 = .ok chunk

/-- Both decoders decrypt a record to the same, whatever room they have for it. -/
theorem opens_iff (h : cipher.nextRecord chunkSize rest = some (record, rest')) {capacity : ℕ}
    (hcapacity : record.1 ≤ capacity) (chunk : Bytes) :
    cipher.Opens key record chunk ↔
      cipher.decryptBufferWithKey key record.2 capacity = .ok chunk := by
  have hlength := (nextRecord_eq_some h).2.2.2.1
  have hsame : cipher.decryptBufferWithKey key record.2 record.1 =
      cipher.decryptBufferWithKey key record.2 capacity :=
    decryptBufferWithKey_capacity (by omega) (by omega)
  rw [Opens, hsame]

theorem Opens.length_eq (h : cipher.nextRecord chunkSize rest = some (record, rest'))
    {chunk : Bytes} (hopens : cipher.Opens key record chunk) : chunk.length = record.1 := by
  have hrecord := (nextRecord_eq_some h).2.2.2.1
  have hchunk := length_of_decryptBufferWithKey hopens
  omega

/-! ### The loops -/

/-- The scan finds the records, and adds up their sizes. -/
theorem scanRecords_of_reads {records : List (ℕ × Bytes)}
    (h : Reads (cipher.nextRecord BUFFER_CHUNK_SIZE) rest records) (requiredSize : ℕ)
    (hbound : requiredSize + rest.length ≤ INT_MAX) :
    cipher.scanRecords rest requiredSize = .ok (requiredSize + (records.map Prod.fst).sum) := by
  induction h generalizing requiredSize with
  | nil =>
      rw [scanRecords, if_pos rfl]
      rfl
  | cons hleft hnext _ ih =>
      obtain ⟨-, -, -, -, -, hshrinks⟩ := nextRecord_eq_some hnext
      rw [scanRecords, if_neg hleft]
      split
      · rename_i hnone
        rw [hnext] at hnone
        cases hnone
      · rename_i hsome
        rw [hnext] at hsome
        obtain ⟨rfl, rfl⟩ := Prod.mk.inj (Option.some.inj hsome)
        rw [if_neg (by dsimp only at hshrinks; omega), ih _ (by dsimp only at hshrinks; omega),
          List.map_cons, List.sum_cons, Nat.add_assoc]

theorem reads_of_scanRecords {requiredSize total : ℕ}
    (h : cipher.scanRecords rest requiredSize = .ok total) :
    ∃ records, Reads (cipher.nextRecord BUFFER_CHUNK_SIZE) rest records := by
  induction rest, requiredSize using scanRecords.induct cipher with
  | case1 => exact ⟨[], .nil⟩
  | case2 rest requiredSize hleft hnext =>
      rw [scanRecords, if_neg hleft] at h
      split at h
      · cases h
      · rename_i hsome
        rw [hnext] at hsome
        cases hsome
  | case3 rest requiredSize hleft chunkPlainSize sealed rest' hnext hlarge =>
      rw [scanRecords, if_neg hleft] at h
      split at h
      · cases h
      · rename_i hsome
        rw [hnext] at hsome
        obtain ⟨hrecord, -⟩ := Prod.mk.inj (Option.some.inj hsome)
        obtain ⟨rfl, -⟩ := Prod.mk.inj hrecord
        rw [if_pos hlarge] at h
        cases h
  | case4 rest requiredSize hleft chunkPlainSize sealed rest' hnext hsmall ih =>
      rw [scanRecords, if_neg hleft] at h
      split at h
      · cases h
      · rename_i hsome
        rw [hnext] at hsome
        obtain ⟨hrecord, rfl⟩ := Prod.mk.inj (Option.some.inj hsome)
        obtain ⟨rfl, -⟩ := Prod.mk.inj hrecord
        rw [if_neg hsmall] at h
        obtain ⟨records, hrecords⟩ := ih h
        exact ⟨_, .cons hleft hnext hrecords⟩

/-- The loop over a file where there is no record. -/
theorem decryptFileRecords_stuck {onProgress : ℕ → ℕ → Bool} {total processed : ℕ}
    (hleft : rest ≠ [])
    (hnext : cipher.nextRecord FILE_CHUNK_SIZE rest = none) :
    cipher.decryptFileRecords key onProgress total processed rest = fail INVALID_DATA := by
  rw [decryptFileRecords, if_neg hleft]
  split
  · rfl
  · rename_i hsome
    rw [hnext] at hsome
    cases hsome

/-- The loop over a file where there is one. -/
theorem decryptFileRecords_next {onProgress : ℕ → ℕ → Bool} {total processed : ℕ}
    (hleft : rest ≠ [])
    (hnext : cipher.nextRecord FILE_CHUNK_SIZE rest = some (record, rest')) :
    cipher.decryptFileRecords key onProgress total processed rest =
      match cipher.decryptBufferWithKey key record.2 FILE_CHUNK_SIZE with
      | .error failure => .error failure
      | .ok chunk =>
        if chunk.length ≠ record.1 then fail INVALID_DATA
        else if onProgress (processed + (4 + record.2.length)) total = false then
          fail OPERATION_CANCELLED
        else
          (cipher.decryptFileRecords key onProgress total (processed + (4 + record.2.length))
            rest').map (chunk ++ ·) := by
  rw [decryptFileRecords, if_neg hleft]
  split
  · rename_i hnone
    rw [hnext] at hnone
    cases hnone
  · rename_i hsome
    rw [hnext] at hsome
    obtain ⟨rfl, rfl⟩ := Prod.mk.inj (Option.some.inj hsome)
    rfl

/-- One turn of either decoding loop: the record is opened, and the loop goes on
with what is behind it. -/
theorem openNext_iff {records : List (ℕ × Bytes)} {opened behind : Except Failure Bytes}
    {goes : Bool} {plaintext : Bytes} :
    goes = true → (∀ chunk, cipher.Opens key record chunk ↔ opened = .ok chunk) →
    (∀ chunk, cipher.Opens key record chunk → chunk.length = record.1) →
    (∀ plaintext, behind = .ok plaintext ↔
      ∃ chunks, List.Forall₂ (cipher.Opens key) records chunks ∧ plaintext = chunks.flatten) →
    ((match opened with
      | .error failure => .error failure
      | .ok chunk =>
        if chunk.length ≠ record.1 then fail INVALID_DATA
        else if goes = false then fail OPERATION_CANCELLED
        else behind.map (chunk ++ ·)) = (.ok plaintext : Except Failure Bytes) ↔
      ∃ chunks, List.Forall₂ (cipher.Opens key) (record :: records) chunks ∧
        plaintext = chunks.flatten) := by
  intro hgoes hopened hlength hbehind
  cases opened with
  | error status =>
      constructor
      · intro h
        cases h
      · rintro ⟨chunks, hchunks, -⟩
        cases hchunks with
        | cons hfirst _ => cases (hopened _).mp hfirst
  | ok chunk =>
      have hfirst := (hopened chunk).mpr rfl
      dsimp only
      rw [if_neg (not_not.mpr (hlength chunk hfirst)), if_neg (by simp [hgoes])]
      constructor
      · intro h
        cases behind with
        | error status => cases h
        | ok rest =>
            obtain ⟨chunks, hchunks, rfl⟩ := (hbehind rest).mp rfl
            exact ⟨chunk :: chunks, .cons hfirst hchunks, (Except.ok.inj h).symm⟩
      · rintro ⟨chunks, hchunks, rfl⟩
        cases hchunks with
        | cons hother hchunks =>
            obtain rfl := Except.ok.inj ((hopened _).mp hother)
            rw [(hbehind _).mpr ⟨_, hchunks, rfl⟩]
            rfl

section Going

variable {onProgress : ℕ → ℕ → Bool} (hgoes : ∀ current total, onProgress current total = true)

include hgoes

/-- The second pass delivers what the records of the buffer open to. -/
theorem decryptRecords_iff {records : List (ℕ × Bytes)}
    (h : Reads (cipher.nextRecord BUFFER_CHUNK_SIZE) rest records) (total processed : ℕ)
    (plaintext : Bytes) :
    cipher.decryptRecords key onProgress total processed rest = .ok plaintext ↔
      ∃ chunks, List.Forall₂ (cipher.Opens key) records chunks ∧ plaintext = chunks.flatten := by
  induction h generalizing processed plaintext with
  | nil =>
      rw [decryptRecords, dif_pos rfl]
      constructor
      · intro hplaintext
        exact ⟨[], .nil, (Except.ok.inj hplaintext).symm⟩
      · rintro ⟨chunks, hopens, rfl⟩
        cases hopens
        rfl
  | cons hleft hnext _ ih =>
      obtain ⟨hsize, hsealed, hrest, -, -, -⟩ := nextRecord_eq_some hnext
      rw [decryptRecords, dif_neg hleft]
      dsimp only
      rw [← hsealed, ← hrest, ← hsize]
      exact openNext_iff (hgoes _ _) (fun chunk => opens_iff hnext le_rfl chunk)
        (fun chunk => Opens.length_eq hnext) (fun _ => ih _ _)

/-- So does the loop over a file. -/
theorem decryptFileRecords_iff {records : List (ℕ × Bytes)}
    (h : Reads (cipher.nextRecord FILE_CHUNK_SIZE) rest records) (total processed : ℕ)
    (plaintext : Bytes) :
    cipher.decryptFileRecords key onProgress total processed rest = .ok plaintext ↔
      ∃ chunks, List.Forall₂ (cipher.Opens key) records chunks ∧ plaintext = chunks.flatten := by
  induction h generalizing processed plaintext with
  | nil =>
      rw [decryptFileRecords, if_pos rfl]
      constructor
      · intro hplaintext
        exact ⟨[], .nil, (Except.ok.inj hplaintext).symm⟩
      · rintro ⟨chunks, hopens, rfl⟩
        cases hopens
        rfl
  | cons hleft hnext _ ih =>
      obtain ⟨-, -, -, -, hsize, -⟩ := nextRecord_eq_some hnext
      rw [decryptFileRecords_next hleft hnext]
      exact openNext_iff (hgoes _ _) (fun chunk => opens_iff hnext hsize chunk)
        (fun chunk => Opens.length_eq hnext) (fun _ => ih _ _)

end Going

/-- A file that is accepted has only whole records. -/
theorem reads_of_decryptFileRecords {onProgress : ℕ → ℕ → Bool} {total processed : ℕ}
    {plaintext : Bytes}
    (h : cipher.decryptFileRecords key onProgress total processed rest = .ok plaintext) :
    ∃ records, Reads (cipher.nextRecord FILE_CHUNK_SIZE) rest records := by
  induction hlength : rest.length using Nat.strong_induction_on generalizing rest processed
    plaintext with
  | _ length ih =>
      by_cases hleft : rest = []
      · subst hleft
        exact ⟨[], .nil⟩
      · rw [decryptFileRecords, if_neg hleft] at h
        split at h
        · cases h
        · rename_i plaintextChunkSize encryptedChunk rest' hnext
          split at h
          · cases h
          · rename_i chunk hchunk
            split_ifs at h
            cases hbehind : cipher.decryptFileRecords key onProgress total
                (processed + (4 + encryptedChunk.length)) rest' with
            | error status =>
                rw [hbehind] at h
                cases h
            | ok rest =>
                obtain ⟨records, hrecords⟩ := ih _ (hlength ▸ nextRecord_lt hnext) hbehind rfl
                exact ⟨_, .cons hleft hnext hrecords⟩

/-- The sizes the records state are those of what they open to. -/
theorem length_flatten_of_opens {records : List (ℕ × Bytes)} {chunks : List Bytes}
    (h : Reads (cipher.nextRecord chunkSize) rest records)
    (hopens : List.Forall₂ (cipher.Opens key) records chunks) :
    chunks.flatten.length = (records.map Prod.fst).sum := by
  induction h generalizing chunks with
  | nil =>
      cases hopens
      rfl
  | cons _ hnext _ ih =>
      cases hopens with
      | cons hfirst hothers =>
          rw [List.flatten_cons, List.length_append, List.map_cons, List.sum_cons, ih hothers,
            hfirst.length_eq hnext]

end AeadCipher

/-! ### What a message says -/

section Decoders

open AeadCipher

variable (api : Provider)

/-- A message has these records, to be opened with this key under a password. -/
def Holds (password message : Bytes) (key : Octets api.cipher.keySize)
    (records : List (ℕ × Bytes)) : Prop :=
  ∃ salt rest, message = salt.1 ++ rest ∧ api.derivePasswordKey password salt = some key ∧
    Reads (api.cipher.nextRecord BUFFER_CHUNK_SIZE) rest records

/-- A message says this plaintext under a password. -/
def Decodes (password message plaintext : Bytes) : Prop :=
  ∃ key records chunks, Holds api password message key records ∧
    List.Forall₂ (api.cipher.Opens key) records chunks ∧ plaintext = chunks.flatten

/-- There is room for `size` octets. -/
def Destination.HasRoom (destination : Destination) (size : ℕ) : Prop :=
  size ≤ destination.outputBufferCapacity.toInt ∧
    (size > 0 → destination.outputBuffer = true)

variable {api} {onProgress : ℕ → ℕ → Bool} {plaintext : Bytes}

/-- The buffer call refuses a message for want of room exactly as the size query does. -/
theorem DecryptBuffer_of_decodes (hgoes : ∀ current total, onProgress current total = true)
    {password input : Buffer} (hpassword : password.1 ≠ [])
    (h : Decodes api password.1 input.1 plaintext) (destination : Destination) :
    destination.HasRoom plaintext.length ∧
        DecryptBuffer api onProgress password input destination =
          { status := NO_ERROR, outputBufferSize := plaintext.length, output := plaintext } ∨
      ¬ destination.HasRoom plaintext.length ∧
        DecryptBuffer api onProgress password input destination =
          { status := BUFFER_TOO_SMALL, outputBufferSize := plaintext.length } := by
  obtain ⟨key, records, chunks, ⟨salt, rest, hmessage, hkey, hrecords⟩, hopens, rfl⟩ := h
  have hsalt : input.1.take PASSWORD_SALT_SIZE = salt.1 := by
    rw [hmessage, List.take_left' salt.2]
  have hrest : input.1.drop PASSWORD_SALT_SIZE = rest := by
    rw [hmessage, List.drop_left' salt.2]
  have hlength : ¬ input.1.length < PASSWORD_SALT_SIZE := by
    rw [hmessage, List.length_append, salt.2]
    omega
  have hsmall : 0 + rest.length ≤ INT_MAX := by
    have hbuffer := input.2
    rw [hmessage, List.length_append] at hbuffer
    unfold INT_MAX
    omega
  have hscan := scanRecords_of_reads hrecords 0 hsmall
  have hplaintext := (decryptRecords_iff hgoes hrecords input.1.length 0 chunks.flatten).mpr
    ⟨chunks, hopens, rfl⟩
  rw [← length_flatten_of_opens hrecords hopens, Nat.zero_add] at hscan
  rw [DecryptBuffer, if_neg hpassword, dif_neg hlength, hrest, hscan]
  dsimp only
  by_cases hroom : destination.HasRoom chunks.flatten.length
  · left
    rw [if_neg]
    · simp only [hsalt, Subtype.coe_eta, hkey, hplaintext]
      exact ⟨hroom, trivial⟩
    · rintro (hcapacity | ⟨hsize, hnull⟩)
      · exact absurd hroom.1 (by omega)
      · exact absurd (hroom.2 hsize) (by simp [hnull])
  · right
    rw [if_pos]
    · exact ⟨hroom, rfl⟩
    · by_contra hno
      obtain ⟨hcapacity, hpointer⟩ := not_or.mp hno
      refine hroom ⟨by omega, fun hsize => ?_⟩
      simpa using not_and.mp hpointer hsize

/-- What the buffer call delivers is what the message says. -/
theorem decodes_of_DecryptBuffer (hgoes : ∀ current total, onProgress current total = true)
    {password input : Buffer} {destination : Destination}
    (h : (DecryptBuffer api onProgress password input destination).status = NO_ERROR) :
    password.1 ≠ [] ∧ Decodes api password.1 input.1
      (DecryptBuffer api onProgress password input destination).output := by
  unfold DecryptBuffer at h ⊢
  by_cases hpassword : password.1 = []
  · rw [if_pos hpassword] at h
    cases h
  refine ⟨hpassword, ?_⟩
  rw [if_neg hpassword] at h ⊢
  by_cases hlength : input.1.length < PASSWORD_SALT_SIZE
  · rw [dif_pos hlength] at h
    cases h
  rw [dif_neg hlength] at h ⊢
  cases hscan : api.cipher.scanRecords (input.1.drop PASSWORD_SALT_SIZE) 0 with
  | error failure =>
      rw [hscan] at h
      exact absurd h failure.2
  | ok requiredSize =>
      rw [hscan] at h
      dsimp only at h ⊢
      split at h
      · cases h
      · rename_i hroom
        rw [if_neg hroom]
        obtain ⟨records, hrecords⟩ := reads_of_scanRecords hscan
        split at h
        · cases h
        · rename_i key hkey
          split at h
          · rename_i failure _
            exact absurd h failure.2
          · rename_i plaintext hplaintext
            dsimp only
            obtain ⟨chunks, hopens, rfl⟩ :=
              (decryptRecords_iff hgoes hrecords _ _ _).mp hplaintext
            exact ⟨key, records, chunks,
              ⟨_, _, (List.take_append_drop _ _).symm, hkey, hrecords⟩, hopens, rfl⟩

/-- The file call delivers just what the message says. -/
theorem DecryptFile_iff (hgoes : ∀ current total, onProgress current total = true)
    {password content : Bytes} :
    DecryptFile api onProgress password content =
        { status := NO_ERROR, outputFile := some plaintext } ↔
      cString password ≠ [] ∧ (cString password).length ≤ INT_MAX ∧
        Decodes api (cString password) content plaintext := by
  constructor
  · intro h
    unfold DecryptFile at h
    split_ifs at h with hpassword hlength
    · cases h
    · cases h
    dsimp only at h
    split at h
    · cases h
    · rename_i key hkey
      split at h
      · rename_i failure _
        exact absurd (FileOutcome.mk.inj h).1 failure.2
      · rename_i opened hopened
        obtain ⟨-, hplaintext⟩ := FileOutcome.mk.inj h
        obtain rfl := Option.some.inj hplaintext
        obtain ⟨records, hrecords⟩ := reads_of_decryptFileRecords hopened
        obtain ⟨chunks, hopens, rfl⟩ := (decryptFileRecords_iff hgoes hrecords _ _ _).mp hopened
        obtain ⟨hfull, hshort⟩ := not_or.mp hpassword
        exact ⟨hfull, Nat.le_of_not_gt hshort, key, records, chunks,
          ⟨_, _, (List.take_append_drop _ _).symm, hkey, hrecords⟩, hopens, rfl⟩
  · rintro ⟨hfull, hshort, key, records, chunks, ⟨salt, rest, rfl, hkey, hrecords⟩, hopens, rfl⟩
    have hplaintext := (decryptFileRecords_iff hgoes hrecords (salt.1 ++ rest).length
      PASSWORD_SALT_SIZE chunks.flatten).mpr ⟨chunks, hopens, rfl⟩
    have hsalt : (salt.1 ++ rest).take PASSWORD_SALT_SIZE = salt.1 := List.take_left' salt.2
    have hrest : (salt.1 ++ rest).drop PASSWORD_SALT_SIZE = rest := List.drop_left' salt.2
    rw [DecryptFile, if_neg (not_or.mpr ⟨hfull, Nat.not_lt.mpr hshort⟩), dif_neg]
    · simp only [hsalt, hrest, Subtype.coe_eta, hkey, hplaintext]
    · rw [List.length_append, salt.2]
      omega

/-- A file call that reports success has delivered a plaintext. -/
theorem DecryptFile_noError {password content : Bytes}
    (h : (DecryptFile api onProgress password content).status = NO_ERROR) :
    ∃ plaintext, DecryptFile api onProgress password content =
      { status := NO_ERROR, outputFile := some plaintext } := by
  unfold DecryptFile at h ⊢
  split_ifs at h ⊢ with hpassword hlength
  dsimp only at h ⊢
  split at h
  · cases h
  · rename_i key hkey
    split at h
    · rename_i failure _
      exact absurd h failure.2
    · rename_i plaintext hplaintext
      exact ⟨plaintext, rfl⟩

end Decoders

end HashCryptoLib.CryptoApi
