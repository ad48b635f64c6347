import HashCryptoLib.CryptoApi.Decoding
import HashCryptoLib.Pgp.FileDecryption

/-!
Decryption from one file into another, with all that the system and the caller can
answer on the way. The output file is emptied when it is opened, which is before
anything of the input is read, and a call that fails deletes it if it can.
-/

namespace HashCryptoLib.CryptoApi

open Pgp (Status Buffer Failure fail ascii WidePath FileSystem)
open Pgp.Status
open Relation

/-- What the system and the caller answer in one call. A read of a file gives all there is
at its place, or fails. A write behind the octets already written takes all it is given,
where it is `none`, or a number of octets before it fails. -/
structure FileCall where
  widePath : Bytes → Option WidePath
  openInput : Bool
  openOutput : Bool
  createProviders : Bool
  fileSize : Bytes → ℕ
  read : ℕ → Bool
  write : Bytes → Bytes → Option ℕ
  onProgress : ℕ → ℕ → Bool
  deleteOutput : Bool

/-- The status, the files afterwards, and what was written into the output file. -/
structure FileCallOutcome where
  status : Status
  files : FileSystem
  written : Bytes := []

namespace FileCall

variable (call : FileCall)

def readFile (content : Bytes) (pos size : ℕ) : Option Bytes :=
  if call.read pos then some ((content.drop pos).take size) else none

/-- A file that ends early gives nothing to the next read. -/
def readFileExact (content : Bytes) (pos size : ℕ) : Option Bytes :=
  if size = 0 then some [] else (call.readFile content pos size).filter (·.length = size)

/-- What has been written afterwards, and whether that is all of it. -/
def writeFileExact (written piece : Bytes) : Bytes × Bool :=
  if piece = [] then (written, true)
  else
    match call.write written piece with
    | none => (written ++ piece, true)
    | some count => (written ++ piece.take count, false)

theorem readFile_lt {call : FileCall} {content octets : Bytes} {pos size : ℕ}
    (h : call.readFile content pos size = some octets) (hne : octets ≠ []) :
    pos < content.length := by
  rw [readFile] at h
  split_ifs at h
  obtain rfl := Option.some.inj h
  have hlength := List.length_pos_iff.mpr hne
  rw [List.length_take, List.length_drop] at hlength
  omega

/-- The loop over the records. What has been processed is also where the input is read. -/
def decryptFileLoop {cipher : AeadCipher} (key : Octets cipher.keySize) (content : Bytes)
    (totalBytes processedBytes : ℕ) (written : Bytes) : Status × Bytes :=
  match _hprefix : call.readFile content processedBytes 4 with
  | none => (FILE_IO_ERROR, written)
  | some lengthPrefix =>
    if _hend : lengthPrefix = [] then (NO_ERROR, written)
    else if lengthPrefix.length ≠ 4 then (INVALID_DATA, written)
    else
      let plaintextChunkSize := readUInt32 lengthPrefix
      if plaintextChunkSize > FILE_CHUNK_SIZE then (INVALID_DATA, written)
      else
        let encryptedChunkSize := plaintextChunkSize + cipher.nonceSize + cipher.tagSize
        match call.readFileExact content (processedBytes + 4) encryptedChunkSize with
        | none => (INVALID_DATA, written)
        | some encryptedChunk =>
          match cipher.decryptBufferWithKey key encryptedChunk FILE_CHUNK_SIZE with
          | .error failure => (failure.1, written)
          | .ok chunk =>
            if chunk.length ≠ plaintextChunkSize then (INVALID_DATA, written)
            else
              match call.writeFileExact written chunk with
              | (written, false) => (FILE_IO_ERROR, written)
              | (written, true) =>
                if call.onProgress (processedBytes + (4 + encryptedChunkSize)) totalBytes = false then
                  (OPERATION_CANCELLED, written)
                else
                  decryptFileLoop key content totalBytes
                    (processedBytes + (4 + encryptedChunkSize)) written
termination_by content.length - processedBytes
decreasing_by
  have hlt := readFile_lt _hprefix _hend
  omega

/-- What happens between the opening of the output file and its closing. -/
def decryptContent (api : Provider) (password content : Bytes) : Status × Bytes :=
  if call.createProviders = false then (UNEXPECTED_ERROR, [])
  else
    match call.readFileExact content 0 PASSWORD_SALT_SIZE with
    | none => (INVALID_DATA, [])
    | some salt =>
      if hsalt : salt.length = PASSWORD_SALT_SIZE then
        match api.derivePasswordKey (cString password) ⟨salt, hsalt⟩ with
        | none => (UNEXPECTED_ERROR, [])
        | some key =>
          call.decryptFileLoop key content (call.fileSize content) PASSWORD_SALT_SIZE []
      else (INVALID_DATA, [])

/-- The output file is there from its opening on; a failed call asks for its deletion. -/
def closeOutput (outputPath : WidePath) (files : FileSystem) (result : Status × Bytes) :
    FileCallOutcome :=
  { status := result.1
    files :=
      if result.1 ≠ NO_ERROR ∧ call.deleteOutput then Function.update files outputPath none
      else Function.update files outputPath (some result.2)
    written := result.2 }

/-- The input file is open for readers only, so it cannot be opened as the output file. -/
def DecryptFile (api : Provider) (password inputFilePath outputFilePath : Bytes)
    (files : FileSystem) : FileCallOutcome :=
  if cString password = [] ∨ (cString password).length > INT_MAX then
    { status := INVALID_ARGUMENT, files }
  else
    match call.widePath inputFilePath, call.widePath outputFilePath with
    | some inputPath, some outputPath =>
      match (files inputPath).filter fun _ => call.openInput with
      | none => { status := FILE_IO_ERROR, files }
      | some content =>
        if call.openOutput = false ∨ outputPath = inputPath then { status := FILE_IO_ERROR, files }
        else call.closeOutput outputPath files (call.decryptContent api password content)
    | _, _ => { status := INVALID_ARGUMENT, files }

/-! ### One record -/

section Loop

variable {call : FileCall} {cipher : AeadCipher} {key : Octets cipher.keySize}
  {content chunk written : Bytes} {totalBytes pos next : ℕ}

/-- A record that can be read and opened stands at `pos`, the next one at `next`. -/
def RecordAt (call : FileCall) (key : Octets cipher.keySize) (content : Bytes) (pos : ℕ)
    (chunk : Bytes) (next : ℕ) : Prop :=
  call.read pos = true ∧ ∃ record rest,
    cipher.nextRecord FILE_CHUNK_SIZE (content.drop pos) = some (record, rest) ∧
      (record.2 ≠ [] → call.read (pos + 4) = true) ∧ cipher.Opens key record chunk ∧
        next = pos + (4 + record.2.length)

/-- The input can be read at `pos`, and ends there. -/
def AtEnd (call : FileCall) (content : Bytes) (pos : ℕ) : Prop :=
  call.read pos = true ∧ content.drop pos = []

theorem readUInt32_take (rest : Bytes) : readUInt32 (rest.take 4) = readUInt32 rest := by
  have hget (i : ℕ) (hi : i < 4) : (rest.take 4).getD i 0 = rest.getD i 0 := by
    rw [List.getD_eq_getElem?_getD, List.getD_eq_getElem?_getD, List.getElem?_take_of_lt hi]
  rw [readUInt32, readUInt32, hget 0 (by omega), hget 1 (by omega), hget 2 (by omega),
    hget 3 (by omega)]

theorem readFileExact_eq_some {size : ℕ} {octets : Bytes} :
    call.readFileExact content pos size = some octets ↔
      octets = (content.drop pos).take size ∧ octets.length = size ∧
        (octets ≠ [] → call.read pos = true) := by
  rw [readFileExact]
  by_cases hsize : size = 0
  · rw [if_pos hsize, hsize, List.take_zero]
    constructor
    · intro h
      obtain rfl := Option.some.inj h
      exact ⟨rfl, rfl, fun hne => absurd rfl hne⟩
    · rintro ⟨rfl, -, -⟩
      rfl
  · rw [if_neg hsize, Option.filter_eq_some_iff, readFile]
    constructor
    · rintro ⟨hread, hlength⟩
      split_ifs at hread with hok
      exact ⟨(Option.some.inj hread).symm, of_decide_eq_true hlength, fun _ => hok⟩
    · rintro ⟨rfl, hlength, hok⟩
      have hne : (content.drop pos).take size ≠ [] := List.length_pos_iff.mp (by omega)
      rw [if_pos (hok hne)]
      exact ⟨rfl, decide_eq_true hlength⟩

/-- The record in front of the place that has been read up to. -/
theorem nextRecord_eq_of_read {encryptedChunk : Bytes}
    (hlead : ((content.drop pos).take 4).length = 4)
    (hsize : readUInt32 (content.drop pos) ≤ FILE_CHUNK_SIZE)
    (hrecord : call.readFileExact content (pos + 4)
      (readUInt32 (content.drop pos) + cipher.nonceSize + cipher.tagSize) = some encryptedChunk) :
    cipher.nextRecord FILE_CHUNK_SIZE (content.drop pos) =
      some ((readUInt32 (content.drop pos), encryptedChunk), (content.drop pos).drop
        (4 + (readUInt32 (content.drop pos) + cipher.nonceSize + cipher.tagSize))) := by
  obtain ⟨rfl, hlength, -⟩ := readFileExact_eq_some.mp hrecord
  have hbehind : content.drop (pos + 4) = (content.drop pos).drop 4 := List.drop_drop.symm
  rw [List.length_take] at hlead
  rw [hbehind, List.length_take] at hlength
  rw [AeadCipher.nextRecord, if_neg (by omega), hbehind]
  dsimp only
  rw [if_neg (Nat.not_lt.mpr hsize), if_neg (by omega)]

theorem readFile_of_atEnd (h : AtEnd call content pos) : call.readFile content pos 4 = some [] := by
  rw [readFile, if_pos h.1, h.2]
  rfl

theorem decryptFileLoop_atEnd (h : AtEnd call content pos) :
    call.decryptFileLoop key content totalBytes pos written = (NO_ERROR, written) := by
  rw [decryptFileLoop]
  split
  · rename_i hnone
    rw [readFile_of_atEnd h] at hnone
    cases hnone
  · rename_i hsome
    rw [readFile_of_atEnd h] at hsome
    obtain rfl := Option.some.inj hsome
    rw [dif_pos rfl]

/-- The loop where a record can be read. -/
theorem decryptFileLoop_nextRecord {record : ℕ × Bytes} {rest : Bytes}
    (hread : call.read pos = true)
    (hnext : cipher.nextRecord FILE_CHUNK_SIZE (content.drop pos) = some (record, rest))
    (hrest : record.2 ≠ [] → call.read (pos + 4) = true) :
    call.decryptFileLoop key content totalBytes pos written =
      match cipher.decryptBufferWithKey key record.2 FILE_CHUNK_SIZE with
      | .error failure => (failure.1, written)
      | .ok chunk =>
        if chunk.length ≠ record.1 then (INVALID_DATA, written)
        else
          match call.writeFileExact written chunk with
          | (written, false) => (FILE_IO_ERROR, written)
          | (written, true) =>
            if call.onProgress (pos + (4 + record.2.length)) totalBytes = false then
              (OPERATION_CANCELLED, written)
            else
              call.decryptFileLoop key content totalBytes (pos + (4 + record.2.length)) written := by
  obtain ⟨plaintextChunkSize, encryptedChunk⟩ := record
  obtain ⟨hsize, hsealed, -, hcount, hsmall, -⟩ := AeadCipher.nextRecord_eq_some hnext
  have hlead : ((content.drop pos).take 4).length = 4 := by
    rw [AeadCipher.nextRecord] at hnext
    dsimp only at hnext
    split_ifs at hnext with hshort
    rw [List.length_take]
    omega
  dsimp only at *
  have hall : encryptedChunk.length =
      readUInt32 (content.drop pos) + cipher.nonceSize + cipher.tagSize := by
    rw [hcount, ← hsize, AeadCipher.overhead, Nat.add_assoc]
  have hexact : call.readFileExact content (pos + 4)
      (readUInt32 (content.drop pos) + cipher.nonceSize + cipher.tagSize) = some encryptedChunk :=
    readFileExact_eq_some.mpr ⟨by rw [← List.drop_drop, ← hsealed], hall, hrest⟩
  have hfour : call.readFile content pos 4 = some ((content.drop pos).take 4) := if_pos hread
  rw [decryptFileLoop]
  split
  · rename_i hnone
    rw [hfour] at hnone
    cases hnone
  · rename_i hsome
    rw [hfour] at hsome
    obtain rfl := Option.some.inj hsome
    rw [dif_neg (List.length_pos_iff.mp (by omega)), if_neg (not_not.mpr hlead)]
    dsimp only
    rw [readUInt32_take, if_neg (by omega), hexact, ← hall, ← hsize]

/-- A record is opened, written and reported, and the loop goes on behind it. -/
theorem decryptFileLoop_recordAt (h : RecordAt call key content pos chunk next) :
    call.decryptFileLoop key content totalBytes pos written =
      match call.writeFileExact written chunk with
      | (written, false) => (FILE_IO_ERROR, written)
      | (written, true) =>
        if call.onProgress next totalBytes = false then (OPERATION_CANCELLED, written)
        else call.decryptFileLoop key content totalBytes next written := by
  obtain ⟨hread, record, rest, hnext, hrest, hopens, rfl⟩ := h
  have hsmall := (AeadCipher.nextRecord_eq_some hnext).2.2.2.2.1
  rw [decryptFileLoop_nextRecord hread hnext hrest,
    (AeadCipher.opens_iff hnext hsmall chunk).mp hopens]
  exact if_neg (not_not.mpr (hopens.length_eq hnext))

/-- Anywhere else the loop stops, and has written nothing more. -/
theorem decryptFileLoop_stops (totalBytes : ℕ) (written : Bytes)
    (hend : ¬ AtEnd call content pos)
    (hrecord : ∀ chunk next, ¬ RecordAt call key content pos chunk next) :
    ∃ status, status ≠ NO_ERROR ∧
      call.decryptFileLoop key content totalBytes pos written = (status, written) := by
  rw [decryptFileLoop]
  split
  · exact ⟨_, by decide, rfl⟩
  · rename_i lengthPrefix hlead
    rw [readFile] at hlead
    split_ifs at hlead with hread
    obtain rfl := Option.some.inj hlead
    rw [dif_neg fun hnil => hend ⟨hread, (List.take_eq_nil_iff.mp hnil).resolve_left (by omega)⟩]
    by_cases hfour : ((content.drop pos).take 4).length = 4
    · rw [if_neg (not_not.mpr hfour)]
      dsimp only
      rw [readUInt32_take]
      by_cases hsize : readUInt32 (content.drop pos) > FILE_CHUNK_SIZE
      · rw [if_pos hsize]
        exact ⟨_, by decide, rfl⟩
      rw [if_neg hsize]
      cases hexact : call.readFileExact content (pos + 4)
          (readUInt32 (content.drop pos) + cipher.nonceSize + cipher.tagSize) with
      | none => exact ⟨_, by decide, rfl⟩
      | some encryptedChunk =>
          dsimp only
          have hnext := nextRecord_eq_of_read hfour (Nat.not_lt.mp hsize) hexact
          have hsmall := (AeadCipher.nextRecord_eq_some hnext).2.2.2.2.1
          cases hopened : cipher.decryptBufferWithKey key encryptedChunk FILE_CHUNK_SIZE with
          | error failure => exact ⟨failure.1, failure.2, rfl⟩
          | ok chunk =>
              have hopens := (AeadCipher.opens_iff hnext hsmall chunk).mpr hopened
              have hreads := (readFileExact_eq_some.mp hexact).2.2
              exact absurd ⟨hread, _, _, hnext, hreads, hopens, rfl⟩ (hrecord chunk _)
    · rw [if_pos hfour]
      exact ⟨_, by decide, rfl⟩

end Loop

/-! ### The run of the loop -/

section Run

variable {call : FileCall} {cipher : AeadCipher} {key : Octets cipher.keySize}
  {content written : Bytes} {totalBytes pos : ℕ}

/-- One record is read, opened, written out and reported. -/
def Step (call : FileCall) (key : Octets cipher.keySize) (content : Bytes) (totalBytes : ℕ)
    (s s' : ℕ × Bytes) : Prop :=
  ∃ chunk, RecordAt call key content s.1 chunk s'.1 ∧
    call.writeFileExact s.2 chunk = (s'.2, true) ∧ call.onProgress s'.1 totalBytes = true

/-- All of the input is read, opened, written out and reported. -/
def Completes (call : FileCall) (key : Octets cipher.keySize) (content : Bytes) (totalBytes : ℕ)
    (s : ℕ × Bytes) : Prop :=
  ∃ s', ReflTransGen (Step call key content totalBytes) s s' ∧ AtEnd call content s'.1

/-- At some place on the way a record has content that gets into the output file. -/
def WritesSome (call : FileCall) (key : Octets cipher.keySize) (content : Bytes) (totalBytes : ℕ)
    (pos : ℕ) : Prop :=
  ∃ pos' chunk next, ReflTransGen (Step call key content totalBytes) (pos, []) (pos', []) ∧
    RecordAt call key content pos' chunk next ∧ (call.writeFileExact [] chunk).1 ≠ []

theorem RecordAt.lt {chunk : Bytes} {next : ℕ} (h : RecordAt call key content pos chunk next) :
    content.length - next < content.length - pos := by
  obtain ⟨-, record, rest, hnext, -, -, rfl⟩ := h
  have hne : content.drop pos ≠ [] := by
    intro hnil
    rw [hnil, AeadCipher.nextRecord, if_pos (by decide)] at hnext
    cases hnext
  have hpos := List.length_pos_iff.mpr hne
  rw [List.length_drop] at hpos
  omega

theorem RecordAt.not_atEnd {chunk : Bytes} {next : ℕ}
    (h : RecordAt call key content pos chunk next) : ¬ AtEnd call content pos := by
  intro hend
  have hlt := h.lt
  have hle := List.drop_eq_nil_iff.mp hend.2
  omega

theorem RecordAt.unique {chunk chunk' : Bytes} {next next' : ℕ}
    (h : RecordAt call key content pos chunk next)
    (h' : RecordAt call key content pos chunk' next') : chunk = chunk' ∧ next = next' := by
  obtain ⟨-, record, rest, hnext, -, hopens, rfl⟩ := h
  obtain ⟨-, record', rest', hnext', -, hopens', rfl⟩ := h'
  obtain ⟨rfl, -⟩ := Prod.mk.inj (Option.some.inj (hnext.symm.trans hnext'))
  exact ⟨Except.ok.inj (hopens.symm.trans hopens'), rfl⟩

theorem writeFileExact_grows (call : FileCall) (written piece : Bytes) :
    written <+: (call.writeFileExact written piece).1 := by
  rw [writeFileExact]
  split_ifs
  · exact List.prefix_rfl
  · cases call.write written piece with
    | none => exact List.prefix_append written piece
    | some count => exact List.prefix_append written (piece.take count)

/-- From a record on a run completes by the one step there is. -/
theorem completes_iff_of_recordAt {chunk : Bytes} {next : ℕ}
    (h : RecordAt call key content pos chunk next) :
    Completes call key content totalBytes (pos, written) ↔
      ∃ written', call.writeFileExact written chunk = (written', true) ∧
        call.onProgress next totalBytes = true ∧
        Completes call key content totalBytes (next, written') := by
  constructor
  · rintro ⟨s', hrun, hlast⟩
    rcases hrun.cases_head with rfl | ⟨s, ⟨chunk', hrecord, hwrite, hgoes⟩, hrest⟩
    · exact absurd hlast h.not_atEnd
    · obtain ⟨rfl, rfl⟩ := h.unique hrecord
      exact ⟨s.2, hwrite, hgoes, s', hrest, hlast⟩
  · rintro ⟨written', hwrite, hgoes, s', hrest, hlast⟩
    exact ⟨s', .head ⟨chunk, h, hwrite, hgoes⟩ hrest, hlast⟩

/-- The same for what gets into the output file. -/
theorem writesSome_iff_of_recordAt {chunk : Bytes} {next : ℕ}
    (h : RecordAt call key content pos chunk next) :
    WritesSome call key content totalBytes pos ↔ (call.writeFileExact [] chunk).1 ≠ [] ∨
      call.writeFileExact [] chunk = ([], true) ∧ call.onProgress next totalBytes = true ∧
        WritesSome call key content totalBytes next := by
  constructor
  · rintro ⟨pos', chunk', next', hrun, hrecord, hwritten⟩
    rcases hrun.cases_head with heq | ⟨⟨pos'', written''⟩, ⟨first, hfirst, hwrite, hgoes⟩, hrest⟩
    · obtain rfl : pos = pos' := congrArg Prod.fst heq
      obtain ⟨rfl, -⟩ := h.unique hrecord
      exact Or.inl hwritten
    · obtain ⟨rfl, rfl⟩ := h.unique hfirst
      dsimp only at hwrite
      cases written'' with
      | nil => exact Or.inr ⟨hwrite, hgoes, pos', chunk', next', hrest, hrecord, hwritten⟩
      | cons octet octets =>
          refine Or.inl ?_
          rw [hwrite]
          exact List.cons_ne_nil octet octets
  · rintro (hwritten | ⟨hwrite, hgoes, pos', chunk', next', hrest, hrecord, hwritten⟩)
    · exact ⟨pos, chunk, next, .refl, h, hwritten⟩
    · exact ⟨pos', chunk', next', .head ⟨chunk, h, hwrite, hgoes⟩ hrest, hrecord, hwritten⟩

/-- Where no record can be read and opened, a run has come to its last place. -/
theorem run_eq_of_stops (hrecord : ∀ chunk next, ¬ RecordAt call key content pos chunk next)
    {s' : ℕ × Bytes} (hrun : ReflTransGen (Step call key content totalBytes) (pos, written) s') :
    s' = (pos, written) := by
  rcases hrun.cases_head with heq | ⟨s, ⟨chunk, hfirst, -⟩, -⟩
  · exact heq.symm
  · exact absurd hfirst (hrecord chunk _)

/-- The loop from any place on: it comes through exactly where the run completes, and takes
nothing back of what has been written. -/
theorem decryptFileLoop_run (written : Bytes) :
    ((call.decryptFileLoop key content totalBytes pos written).1 = NO_ERROR ↔
        Completes call key content totalBytes (pos, written)) ∧
      written <+: (call.decryptFileLoop key content totalBytes pos written).2 := by
  induction hsize : content.length - pos using Nat.strong_induction_on
    generalizing pos written with
  | _ size ih =>
      by_cases hend : AtEnd call content pos
      · rw [decryptFileLoop_atEnd hend]
        exact ⟨iff_of_true rfl ⟨_, .refl, hend⟩, List.prefix_rfl⟩
      by_cases hrecord : ∃ chunk next, RecordAt call key content pos chunk next
      · obtain ⟨chunk, next, hrecord⟩ := hrecord
        have hgrows := writeFileExact_grows call written chunk
        have hlt := hrecord.lt
        rw [decryptFileLoop_recordAt hrecord, completes_iff_of_recordAt hrecord]
        rcases hwrite : call.writeFileExact written chunk with ⟨written', all⟩
        rw [hwrite] at hgrows
        cases all with
        | false =>
            refine ⟨iff_of_false (show FILE_IO_ERROR ≠ NO_ERROR by decide) ?_, hgrows⟩
            rintro ⟨_, hall, -⟩
            cases hall
        | true =>
            dsimp only
            cases hgoes : call.onProgress next totalBytes with
            | false =>
                refine ⟨iff_of_false (show OPERATION_CANCELLED ≠ NO_ERROR by decide) ?_, hgrows⟩
                rintro ⟨_, -, hother, -⟩
                cases hother
            | true =>
                obtain ⟨hiff, hmore⟩ := ih (content.length - next) (by omega) written' rfl
                refine ⟨hiff.trans ?_, hgrows.trans hmore⟩
                constructor
                · exact fun h => ⟨written', rfl, rfl, h⟩
                · rintro ⟨_, hall, -, h⟩
                  rwa [(Prod.mk.inj hall).1]
      · have hstops := fun chunk next h => hrecord ⟨chunk, next, h⟩
        obtain ⟨status, hstatus, hloop⟩ := decryptFileLoop_stops totalBytes written hend hstops
        rw [hloop]
        refine ⟨iff_of_false hstatus ?_, List.prefix_rfl⟩
        rintro ⟨s', hrun, hlast⟩
        obtain rfl := run_eq_of_stops hstops hrun
        exact hend hlast

/-- Nothing is in the output file behind the loop exactly where no record gave any content. -/
theorem decryptFileLoop_writes :
    (call.decryptFileLoop key content totalBytes pos []).2 ≠ [] ↔
      WritesSome call key content totalBytes pos := by
  induction hsize : content.length - pos using Nat.strong_induction_on generalizing pos with
  | _ size ih =>
      by_cases hrecord : ∃ chunk next, RecordAt call key content pos chunk next
      · obtain ⟨chunk, next, hrecord⟩ := hrecord
        have hlt := hrecord.lt
        have hmore (written' : Bytes) :
            written' <+: (call.decryptFileLoop key content totalBytes next written').2 :=
          (decryptFileLoop_run written').2
        rw [decryptFileLoop_recordAt hrecord, writesSome_iff_of_recordAt hrecord]
        rcases hwrite : call.writeFileExact [] chunk with ⟨written', all⟩
        cases all with
        | false =>
            constructor
            · exact Or.inl
            · rintro (hwritten | ⟨hall, -⟩)
              · exact hwritten
              · cases hall
        | true =>
            dsimp only
            cases hgoes : call.onProgress next totalBytes with
            | false =>
                constructor
                · exact Or.inl
                · rintro (hwritten | ⟨-, hother, -⟩)
                  · exact hwritten
                  · cases hother
            | true =>
                cases written' with
                | nil =>
                    refine (ih _ (by omega) rfl).trans ?_
                    constructor
                    · exact fun h => Or.inr ⟨rfl, rfl, h⟩
                    · rintro (hwritten | ⟨-, -, h⟩)
                      · exact absurd rfl hwritten
                      · exact h
                | cons octet octets =>
                    refine iff_of_true ?_ (Or.inl (List.cons_ne_nil octet octets))
                    exact (hmore _).ne_nil (List.cons_ne_nil octet octets)
      · have hstops := fun chunk next h => hrecord ⟨chunk, next, h⟩
        refine iff_of_false ?_ ?_
        · by_cases hend : AtEnd call content pos
          · rw [decryptFileLoop_atEnd hend]
            exact fun h => h rfl
          · obtain ⟨status, -, hloop⟩ := decryptFileLoop_stops totalBytes [] hend hstops
            rw [hloop]
            exact fun h => h rfl
        · rintro ⟨pos', chunk, next, hrun, hlast, -⟩
          obtain rfl : pos' = pos := congrArg Prod.fst (run_eq_of_stops hstops hrun)
          exact hstops chunk next hlast

end Run

/-! ### Opening the output file -/

section Opening

variable {call : FileCall} {api : Provider} {password inputFilePath outputFilePath : Bytes}
  {files : FileSystem} {content : Bytes} {outputPath : WidePath}

/-- The input file is there, with this content, and the output file is opened. -/
def OpensOutput (call : FileCall) (password inputFilePath outputFilePath : Bytes)
    (files : FileSystem) (content : Bytes) (outputPath : WidePath) : Prop :=
  cString password ≠ [] ∧ (cString password).length ≤ INT_MAX ∧
    call.widePath outputFilePath = some outputPath ∧ call.openInput = true ∧
      call.openOutput = true ∧ ∃ inputPath, call.widePath inputFilePath = some inputPath ∧
        files inputPath = some content ∧ outputPath ≠ inputPath

theorem DecryptFile_of_opens
    (h : OpensOutput call password inputFilePath outputFilePath files content outputPath) :
    call.DecryptFile api password inputFilePath outputFilePath files =
      call.closeOutput outputPath files (call.decryptContent api password content) := by
  obtain ⟨hpassword, hlength, houtput, hopenInput, hopenOutput, inputPath, hinput, hfile, hne⟩ := h
  rw [DecryptFile, if_neg (not_or.mpr ⟨hpassword, Nat.not_lt.mpr hlength⟩), hinput, houtput]
  dsimp only
  rw [hfile, Option.filter_some, if_pos hopenInput]
  dsimp only
  rw [if_neg (not_or.mpr ⟨by rw [hopenOutput]; decide, hne⟩)]

/-- A call that does not come to its output file changes nothing. -/
theorem DecryptFile_untouched (api : Provider)
    (h : ∀ content outputPath,
      ¬ OpensOutput call password inputFilePath outputFilePath files content outputPath) :
    ∃ status, call.DecryptFile api password inputFilePath outputFilePath files =
      { status, files } := by
  rw [DecryptFile]
  by_cases hpassword : cString password = [] ∨ (cString password).length > INT_MAX
  · rw [if_pos hpassword]
    exact ⟨_, rfl⟩
  rw [if_neg hpassword]
  obtain ⟨hnonempty, hlength⟩ := not_or.mp hpassword
  cases hinput : call.widePath inputFilePath with
  | none => exact ⟨_, rfl⟩
  | some inputPath =>
      cases houtput : call.widePath outputFilePath with
      | none => exact ⟨_, rfl⟩
      | some outputPath =>
          dsimp only
          cases hfile : (files inputPath).filter fun _ => call.openInput with
          | none => exact ⟨_, rfl⟩
          | some content =>
              obtain ⟨hcontent, hopenInput⟩ := Option.filter_eq_some_iff.mp hfile
              dsimp only
              by_cases hclosed : call.openOutput = false ∨ outputPath = inputPath
              · rw [if_pos hclosed]
                exact ⟨_, rfl⟩
              · obtain ⟨hopenOutput, hne⟩ := not_or.mp hclosed
                exact absurd ⟨hnonempty, Nat.not_lt.mp hlength, houtput, hopenInput,
                  Bool.eq_true_of_not_eq_false hopenOutput, inputPath, hinput, hcontent, hne⟩
                  (h content outputPath)

end Opening

/-! ### A call that nothing disturbs -/

section Undisturbed

variable {call : FileCall} {cipher : AeadCipher} {key : Octets cipher.keySize}
  {content : Bytes} {onProgress : ℕ → ℕ → Bool}

/-- Every read and every write succeeds, and a file that is to be deleted is. -/
structure Undisturbed (call : FileCall) : Prop where
  openInput : call.openInput = true
  openOutput : call.openOutput = true
  createProviders : call.createProviders = true
  fileSize : ∀ content, call.fileSize content = content.length
  read : ∀ pos, call.read pos = true
  write : ∀ written piece, call.write written piece = none
  deleteOutput : call.deleteOutput = true

theorem Undisturbed.writeFileExact (h : call.Undisturbed) (written piece : Bytes) :
    call.writeFileExact written piece = (written ++ piece, true) := by
  rw [FileCall.writeFileExact, h.write]
  split_ifs with hnil
  · rw [hnil, List.append_nil]
  · rfl

theorem Undisturbed.readFileExact (h : call.Undisturbed) {pos size : ℕ}
    (hsize : size ≤ (content.drop pos).length) :
    call.readFileExact content pos size = some ((content.drop pos).take size) :=
  readFileExact_eq_some.mpr ⟨rfl, List.length_take_of_le hsize, fun _ => h.read pos⟩

/-- The loop where there is no record to be read. -/
theorem Undisturbed.decryptFileLoop_noRecord (h : call.Undisturbed) {totalBytes pos : ℕ}
    {written : Bytes} (hleft : content.drop pos ≠ [])
    (hnext : cipher.nextRecord FILE_CHUNK_SIZE (content.drop pos) = none) :
    call.decryptFileLoop key content totalBytes pos written = (INVALID_DATA, written) := by
  have hfour : call.readFile content pos 4 = some ((content.drop pos).take 4) := if_pos (h.read pos)
  rw [decryptFileLoop]
  split
  · rename_i hnone
    rw [hfour] at hnone
    cases hnone
  · rename_i hsome
    rw [hfour] at hsome
    obtain rfl := Option.some.inj hsome
    rw [dif_neg fun hnil => hleft ((List.take_eq_nil_iff.mp hnil).resolve_left (by omega))]
    by_cases hlead : ((content.drop pos).take 4).length = 4
    · rw [if_neg (not_not.mpr hlead)]
      dsimp only
      rw [readUInt32_take]
      by_cases hsize : readUInt32 (content.drop pos) > FILE_CHUNK_SIZE
      · exact if_pos hsize
      rw [if_neg hsize]
      cases hexact : call.readFileExact content (pos + 4)
          (readUInt32 (content.drop pos) + cipher.nonceSize + cipher.tagSize) with
      | none => rfl
      | some encryptedChunk =>
          rw [nextRecord_eq_of_read hlead (Nat.not_lt.mp hsize) hexact] at hnext
          cases hnext
    · exact if_pos hlead

/-- Then the loop does what is said of it for the content of the file alone. -/
theorem Undisturbed.decryptFileLoop_eq (h : call.Undisturbed) (key : Octets cipher.keySize)
    (content : Bytes) (totalBytes pos : ℕ) (written : Bytes) :
    match cipher.decryptFileRecords key call.onProgress totalBytes pos (content.drop pos) with
    | .ok plaintext =>
      call.decryptFileLoop key content totalBytes pos written = (NO_ERROR, written ++ plaintext)
    | .error failure =>
      (call.decryptFileLoop key content totalBytes pos written).1 = failure.1 := by
  induction hsize : content.length - pos using Nat.strong_induction_on
    generalizing pos written with
  | _ size ih =>
      by_cases hleft : content.drop pos = []
      · rw [decryptFileLoop_atEnd ⟨h.read pos, hleft⟩, hleft, AeadCipher.decryptFileRecords,
          if_pos rfl]
        exact congrArg (NO_ERROR, ·) (List.append_nil written).symm
      cases hnext : cipher.nextRecord FILE_CHUNK_SIZE (content.drop pos) with
      | none =>
          rw [h.decryptFileLoop_noRecord hleft hnext, AeadCipher.decryptFileRecords_stuck hleft hnext]
      | some result =>
          obtain ⟨record, rest⟩ := result
          have hpos := List.length_pos_iff.mpr hleft
          rw [List.length_drop] at hpos
          have hbehind : rest = content.drop (pos + (4 + record.2.length)) := by
            obtain ⟨hstated, -, hrest, hcount, -, -⟩ := AeadCipher.nextRecord_eq_some hnext
            rw [← List.drop_drop, hrest, hcount, hstated, AeadCipher.overhead, Nat.add_assoc]
          rw [decryptFileLoop_nextRecord (h.read pos) hnext fun _ => h.read _,
            AeadCipher.decryptFileRecords_next hleft hnext]
          cases cipher.decryptBufferWithKey key record.2 FILE_CHUNK_SIZE with
          | error failure => rfl
          | ok chunk =>
              dsimp only
              by_cases hlength : chunk.length = record.1
              · rw [if_neg (not_not.mpr hlength), if_neg (not_not.mpr hlength),
                  h.writeFileExact]
                dsimp only
                cases hgoes : call.onProgress (pos + (4 + record.2.length)) totalBytes with
                | false => rfl
                | true =>
                    have hrun := ih _ (by omega) (pos + (4 + record.2.length)) (written ++ chunk) rfl
                    rw [if_neg (by decide), if_neg (by decide), hbehind]
                    cases hrecords : cipher.decryptFileRecords key call.onProgress totalBytes
                        (pos + (4 + record.2.length))
                        (content.drop (pos + (4 + record.2.length))) with
                    | error failure =>
                        rw [hrecords] at hrun
                        exact hrun
                    | ok plaintext =>
                        rw [hrecords] at hrun
                        exact hrun.trans (congrArg (NO_ERROR, ·) (List.append_assoc _ _ _))
              · rw [if_pos hlength, if_pos hlength]

/-- What a result leaves at the output path, where a file that is to be deleted is. -/
def outcomeOf (result : Status × Bytes) : FileOutcome :=
  { status := result.1, outputFile := if result.1 ≠ NO_ERROR then none else some result.2 }

/-- So does what happens while the output file is open. -/
theorem Undisturbed.decryptContent_eq (h : call.Undisturbed) (api : Provider) {password : Bytes}
    (hpassword : ¬ (cString password = [] ∨ (cString password).length > INT_MAX)) :
    CryptoApi.DecryptFile api call.onProgress password content =
      outcomeOf (call.decryptContent api password content) := by
  rw [CryptoApi.DecryptFile, if_neg hpassword, decryptContent,
    if_neg (by rw [h.createProviders]; decide)]
  by_cases hshort : content.length < PASSWORD_SALT_SIZE
  · have hnone : call.readFileExact content 0 PASSWORD_SALT_SIZE = none := by
      cases hsalt : call.readFileExact content 0 PASSWORD_SALT_SIZE with
      | none => rfl
      | some salt =>
          obtain ⟨rfl, hlength, -⟩ := readFileExact_eq_some.mp hsalt
          rw [List.length_take, List.drop_zero] at hlength
          omega
    rw [dif_pos hshort, hnone]
    rfl
  · have hsalt : call.readFileExact content 0 PASSWORD_SALT_SIZE =
        some (content.take PASSWORD_SALT_SIZE) := h.readFileExact (Nat.not_lt.mp hshort)
    have hlength : (content.take PASSWORD_SALT_SIZE).length = PASSWORD_SALT_SIZE :=
      List.length_take_of_le (Nat.not_lt.mp hshort)
    rw [dif_neg hshort, hsalt]
    dsimp only
    rw [dif_pos hlength]
    cases api.derivePasswordKey (cString password) ⟨content.take PASSWORD_SALT_SIZE, hlength⟩ with
    | none => rfl
    | some key =>
        have hloop := h.decryptFileLoop_eq key content content.length PASSWORD_SALT_SIZE []
        dsimp only
        rw [h.fileSize]
        cases hrecords : api.cipher.decryptFileRecords key call.onProgress content.length
            PASSWORD_SALT_SIZE (content.drop PASSWORD_SALT_SIZE) with
        | ok plaintext =>
            rw [hrecords] at hloop
            dsimp only at hloop ⊢
            rw [hloop]
            rfl
        | error failure =>
            rw [hrecords] at hloop
            dsimp only at hloop ⊢
            rw [outcomeOf, hloop, if_pos failure.2]

/-- So does the whole call, where its two files are not one. -/
theorem Undisturbed.DecryptFile_eq (h : call.Undisturbed) (api : Provider)
    {password inputFilePath outputFilePath : Bytes} {files : FileSystem}
    {inputPath outputPath : WidePath} (hinput : call.widePath inputFilePath = some inputPath)
    (houtput : call.widePath outputFilePath = some outputPath)
    (hfile : files inputPath = some content) (hne : outputPath ≠ inputPath)
    (hpassword : ¬ (cString password = [] ∨ (cString password).length > INT_MAX)) :
    (call.DecryptFile api password inputFilePath outputFilePath files).status =
        (CryptoApi.DecryptFile api call.onProgress password content).status ∧
      (call.DecryptFile api password inputFilePath outputFilePath files).files outputPath =
        (CryptoApi.DecryptFile api call.onProgress password content).outputFile := by
  obtain ⟨hnonempty, hlength⟩ := not_or.mp hpassword
  have hopens : OpensOutput call password inputFilePath outputFilePath files content outputPath :=
    ⟨hnonempty, Nat.not_lt.mp hlength, houtput, h.openInput, h.openOutput, inputPath, hinput, hfile,
      hne⟩
  rw [DecryptFile_of_opens hopens, h.decryptContent_eq api hpassword, closeOutput, outcomeOf]
  dsimp only
  rw [h.deleteOutput]
  refine ⟨rfl, ?_⟩
  by_cases hfails : (call.decryptContent api password content).1 ≠ NO_ERROR
  · rw [if_pos ⟨hfails, rfl⟩, if_pos hfails, Function.update_self]
  · rw [if_neg fun hboth => hfails hboth.1, if_neg hfails, Function.update_self]

end Undisturbed

end FileCall
end HashCryptoLib.CryptoApi
