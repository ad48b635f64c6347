import HashCryptoLib.Lib.Results
import HashCryptoLib.Pgp.FileDecryption
import HashCryptoLib.Pgp.FileVerification
import HashCryptoLib.Pgp.MessageRoundTrip
import HashCryptoLib.Pgp.OutputSizes

/-!
Encrypting a file. Every length is written in front of the octets it counts, worked out from the
size of the file, and the file is enciphered piece by piece behind it. What is written is the
message that would be built in memory. Its lengths are right as long as they fit the four octets
of a packet header; a larger one loses its high bits, and the call succeeds all the same.
-/

namespace HashCryptoLib.Pgp

open BigEndian Chunks Cursor Results

/-! ### Reading and writing -/

/-- A write that fails ends every caller with the same status. Nothing is asked for an empty
piece. -/
def writeFileExact (env : OutputEnv) (written data : Bytes) : Except Failure Bytes :=
  if data = [] ∨ env.write written data then .ok (written ++ data) else fail FILE_IO_ERROR

section Reading

variable {σ : Type} (onProgress : ℕ → ℕ → Bool) (take : σ → Bytes → Except Failure σ)

/-- One piece of the file, and the callback behind it. -/
def takeChunk (fileSize : ℕ) (s : σ × ℕ) (chunk : Bytes) : Except Failure (σ × ℕ) :=
  match take s.1 chunk with
  | .error failure => .error failure
  | .ok taken =>
    let processedBytes := s.2 + chunk.length
    if onProgress processedBytes fileSize then .ok (taken, processedBytes)
    else fail OPERATION_CANCELLED

def takeFile (s : σ) (content : Bytes) : Except Failure σ :=
  ((chunksOf PGP_FILE_CHUNK_SIZE content).foldlM (takeChunk onProgress take content.length)
    (s, 0)).map Prod.fst

end Reading

/-! ### The protected packet, piece by piece -/

/-- The cipher, what the digest has been fed, and what has been written. -/
structure SeipWriter where
  cfb : CipherFeedback.State 16 := cfbState (Octets.zero 16)
  mdc : Bytes := []
  written : Bytes

namespace SeipWriter

variable (P : Primitives) (env : OutputEnv) (sessionKey : Bytes)

def write (s : SeipWriter) (piece : Bytes) : Except Failure SeipWriter :=
  let enciphered := (CipherFeedback.encryptor (P.aesEncrypt sessionKey)).run s.cfb piece
  (writeFileExact env s.written enciphered.1).map fun written =>
    { cfb := enciphered.2, mdc := s.mdc ++ piece, written }

/-- The mark of the modification detection code, and the code. -/
def writeTrailer (s : SeipWriter) : Except Failure Bytes :=
  (s.write P env sessionKey ([0xD3, 0x14] ++ (P.sha1 (s.mdc ++ [0xD3, 0x14])).1)).map written

end SeipWriter

/-! ### The message -/

def packetHeaderFor (tag : UInt8) (bodyLength : ℕ) : Bytes :=
  (0xC0 ||| tag) :: appendNewFormatLength bodyLength

/-- Binary data without a file name and without a date. -/
def literalPrefix : Bytes := 98 :: 0 :: appendBigEndian32 0

section Message

variable (P : Primitives) (env : OutputEnv) (message : MessageEnv)
  (recipients : List PgpEncryptionRecipient) (cipherAlgorithmOctet : UInt8)

/-- A packet is built when those in front of it have been written. -/
def writePkeskPackets (sessionKey : Bytes) :
    ℕ → List PgpEncryptionRecipient → Bytes → Except Failure Bytes
  | _, [], written => .ok written
  | r, recipient :: recipients, written =>
    let pkeskPacket := buildPkeskPacketForRecipient P recipient sessionKey cipherAlgorithmOctet
      (message.seed r)
    if pkeskPacket = [] then fail UNEXPECTED_ERROR
    else
      (writeFileExact env written pkeskPacket).bind
        (writePkeskPackets sessionKey (r + 1) recipients)

/-- The session key packets, and the protected packet around one packet, whose body is a few
octets and then a file. The file may have to be opened first. -/
def encryptPacketStreaming (tag : UInt8) (bodyPrefix : Bytes) (opened : Bool) (file : Bytes) :
    Except Failure Bytes :=
  if recipients = [] then fail INVALID_ARGUMENT
  else do
    let sessionKey := message.sessionKeyFor cipherAlgorithmOctet
    let write := SeipWriter.write P env sessionKey
    let written ← writePkeskPackets P env message cipherAlgorithmOctet sessionKey 0 recipients []
    let bodyLength := bodyPrefix.length + file.length
    let header := packetHeaderFor tag bodyLength
    let innerContentLength := header.length + bodyLength
    let plainForCfbLength := 18 + innerContentLength + 2 + 20
    let seipBodyLength := 1 + plainForCfbLength
    let written ← writeFileExact env written (packetHeaderFor PGP_TAG_SEIP seipBodyLength)
    let written ← writeFileExact env written [1]
    let s ← write { written } (message.prefixOctets.1 ++ message.prefixOctets.1.drop 14)
    let s ← write s header
    let s ← write s bodyPrefix
    if opened = false then fail FILE_IO_ERROR
    else do
      let s ← takeFile env.onProgress write s file
      s.writeTrailer P env sessionKey

def encryptFileStreaming (content : Bytes) : Except Failure Bytes :=
  encryptPacketStreaming P env message recipients cipherAlgorithmOctet PGP_TAG_LITERAL_DATA
    literalPrefix true content

/-- `opened` tells whether the temporary file can be opened. -/
def encryptFileStreamingCompressed (compressionAlgorithmOctet : UInt8) (opened : Bool)
    (temp : Bytes) : Except Failure Bytes :=
  encryptPacketStreaming P env message recipients cipherAlgorithmOctet PGP_TAG_COMPRESSED_DATA
    [compressionAlgorithmOctet] opened temp

/-- The message built in memory around this packet. -/
def protectedMessage (packet : Bytes) : Option Bytes :=
  let sessionKey := message.sessionKeyFor cipherAlgorithmOctet
  (buildPkeskPackets P sessionKey cipherAlgorithmOctet message.seed 0 recipients).map
    (· ++ seipPacket P sessionKey message.prefixOctets packet)

end Message

/-! ### Compressing to a temporary file -/

/-- A compressor that is fed in pieces: what it has put out behind the octets it has been given,
and what it has put out at the end. Output is never taken back, and `inverse` gives back what
was put in. -/
structure Deflating (inverse : Bytes → Option Bytes) where
  put : Bytes → Bytes
  whole : Bytes → Bytes
  put_append : ∀ data piece, ∃ after, put (data ++ piece) = put data ++ after
  put_whole : ∀ data, ∃ after, whole data = put data ++ after
  inverse_whole : ∀ data, inverse (whole data) = some data

/-- The values are the algorithm octets of a compressed packet. -/
inductive PgpFileCompressionAlgorithm
  | PGP_FILE_COMPRESSION_ALGORITHM_ZIP
  | PGP_FILE_COMPRESSION_ALGORITHM_ZLIB
  deriving DecidableEq, Repr

export PgpFileCompressionAlgorithm (PGP_FILE_COMPRESSION_ALGORITHM_ZIP
  PGP_FILE_COMPRESSION_ALGORITHM_ZLIB)

def PgpFileCompressionAlgorithm.octet : PgpFileCompressionAlgorithm → UInt8
  | PGP_FILE_COMPRESSION_ALGORITHM_ZIP => 1
  | PGP_FILE_COMPRESSION_ALGORITHM_ZLIB => 2

/-- The library's compressors. -/
structure Deflators (P : Primitives) where
  zip : Deflating P.inflate
  zlib : Deflating P.zlibDecompress

def Deflators.whole {P : Primitives} (deflators : Deflators P) :
    PgpFileCompressionAlgorithm → Bytes → Bytes
  | PGP_FILE_COMPRESSION_ALGORITHM_ZIP => deflators.zip.whole
  | PGP_FILE_COMPRESSION_ALGORITHM_ZLIB => deflators.zlib.whole

/-- What has been put into a compressor, how much has been taken out of its queue, and what the
temporary file holds. -/
structure Deflation where
  fed : Bytes := []
  retrieved : ℕ := 0
  written : Bytes := []

section Compress

variable {inverse : Bytes → Option Bytes} (env : OutputEnv) (compressor : Deflating inverse)

/-- What is in the queue goes to the temporary file. -/
def drainToTemp (s : Deflation) (out : Bytes) : Except Failure Bytes :=
  writeFileExact env s.written (out.drop s.retrieved)

def compressPiece (s : Deflation) (piece : Bytes) : Except Failure Deflation :=
  let out := compressor.put (s.fed ++ piece)
  (drainToTemp env s out).map fun written =>
    { fed := s.fed ++ piece, retrieved := out.length, written }

/-- The literal packet around the file is compressed. -/
def compressLiteralPacket (content : Bytes) : Except Failure Bytes := do
  let s ← compressPiece env compressor {}
    (packetHeaderFor PGP_TAG_LITERAL_DATA (6 + content.length) ++ literalPrefix)
  let s ← takeFile env.onProgress (compressPiece env compressor) s content
  drainToTemp env s (compressor.whole s.fed)

end Compress

def compressLiteralToTempFile {P : Primitives} (deflators : Deflators P) (env : OutputEnv)
    (content : Bytes) : PgpFileCompressionAlgorithm → Except Failure Bytes
  | PGP_FILE_COMPRESSION_ALGORITHM_ZIP => compressLiteralPacket env deflators.zip content
  | PGP_FILE_COMPRESSION_ALGORITHM_ZLIB => compressLiteralPacket env deflators.zlib content

/-! ### The calls -/

/-- What the system answers in one call: `createOutput` for the output file, which a deletion
leaves as `outputAfterDelete`. -/
structure EncryptFileEnv extends OutputEnv where
  widePath : Bytes → Option WidePath
  openInput : Bool
  createOutput : Bool
  outputAfterDelete : Option Bytes

/-- The same for a call with a temporary file: `reopenTemp` when its size is looked up,
`readTemp` when it is read, `deleteTemp` when it could not be created. -/
structure CompressedFileEnv extends EncryptFileEnv where
  writeTemp : Bytes → Bytes → Bool
  createTemp : Bool
  reopenTemp : Bool
  readTemp : Bool
  deleteTemp : Bool
  tempAfterDelete : Option Bytes

def CompressedFileEnv.temp (env : CompressedFileEnv) : OutputEnv :=
  { write := env.writeTemp, onProgress := env.onProgress }

def pgpztmpPath (outputPath : WidePath) : WidePath :=
  outputPath ++ (ascii ".pgpztmp").map UInt8.toUInt16

section Calls

variable {P : Primitives} (message : MessageEnv) (inputFilePath outputFilePath : Bytes)
  (impl : Impl) (files : FileSystem)

/-- What becomes of the output file. -/
def finishOutput (env : EncryptFileEnv) (outputPath : WidePath)
    (outcome : Except Failure Bytes) (files : FileSystem) : Status × FileSystem :=
  match outcome with
  | .error failure => (failure.1, Function.update files outputPath env.outputAfterDelete)
  | .ok written => (NO_ERROR, Function.update files outputPath (some written))

variable (P) in
/-- The status, and the files afterwards. The input file is open all the time, for others to
read at most. -/
def EncryptFile (env : EncryptFileEnv) : Status × FileSystem :=
  if impl.peerKeyImported = false then (INVALID_ARGUMENT, files)
  else
    match env.widePath inputFilePath, env.widePath outputFilePath with
    | some inputPath, some outputPath =>
      match (files inputPath).filter fun _ => env.openInput with
      | none => (FILE_IO_ERROR, files)
      | some content =>
        if env.createOutput = false ∨ outputPath = inputPath then (FILE_IO_ERROR, files)
        else
          finishOutput env outputPath
            (encryptFileStreaming P env.toOutputEnv message impl.recipients
              impl.symmetricCipherPreference.octet content) files
    | _, _ => (INVALID_ARGUMENT, files)

def EncryptFileCompressed (deflators : Deflators P)
    (compressionAlgorithm : PgpFileCompressionAlgorithm) (env : CompressedFileEnv) :
    Status × FileSystem :=
  if impl.peerKeyImported = false then (INVALID_ARGUMENT, files)
  else
    match env.widePath inputFilePath, env.widePath outputFilePath with
    | some inputPath, some outputPath =>
      match (files inputPath).filter fun _ => env.openInput with
      | none => (FILE_IO_ERROR, files)
      | some content =>
        let tempPath := pgpztmpPath outputPath
        if tempPath = inputPath then (FILE_IO_ERROR, files)
        else if env.createTemp = false then
          (FILE_IO_ERROR,
            Function.update files tempPath (if env.deleteTemp then none else files tempPath))
        else
          let files := Function.update files tempPath env.tempAfterDelete
          match compressLiteralToTempFile deflators env.temp content compressionAlgorithm with
          | .error failure => (failure.1, files)
          | .ok temp =>
            if env.reopenTemp = false then (FILE_IO_ERROR, files)
            else if env.createOutput = false ∨ outputPath = inputPath then (FILE_IO_ERROR, files)
            else
              finishOutput env.toEncryptFileEnv outputPath
                (encryptFileStreamingCompressed P env.toOutputEnv message impl.recipients
                  impl.symmetricCipherPreference.octet compressionAlgorithm.octet env.readTemp temp)
                files
    | _, _ => (INVALID_ARGUMENT, files)

end Calls

/-! ### What is written -/

theorem packetHeaderFor_append (tag : UInt8) (body : Bytes) :
    packetHeaderFor tag body.length ++ body = writePacket tag body :=
  rfl

theorem literalPrefix_append (content : Bytes) : literalPrefix ++ content = literalBody content :=
  rfl

theorem writeFileExact_ok {env : OutputEnv} {written data written' : Bytes}
    (h : writeFileExact env written data = .ok written') : written' = written ++ data := by
  rw [writeFileExact] at h
  split_ifs at h
  exact (Except.ok.inj h).symm

theorem writeFileExact_unfailing {env : OutputEnv} (henv : env.Unfailing) (written data : Bytes) :
    writeFileExact env written data = .ok (written ++ data) :=
  if_pos (.inr (henv.write written data))

section Reading

variable {σ : Type} {onProgress : ℕ → ℕ → Bool} {take : σ → Bytes → Except Failure σ}
  {fileSize : ℕ} {s s' : σ}

theorem takeChunk_ok {chunk : Bytes} {processedBytes : ℕ} {next : σ × ℕ}
    (h : takeChunk onProgress take fileSize (s, processedBytes) chunk = .ok next) :
    take s chunk = .ok next.1 := by
  rw [takeChunk] at h
  dsimp only at h
  cases htake : take s chunk with
  | error failure =>
      rw [htake] at h
      cases h
  | ok taken =>
      rw [htake] at h
      dsimp only at h
      split_ifs at h
      obtain rfl := Except.ok.inj h
      rfl

/-- What every piece keeps of what has been read, the file keeps. -/
theorem takeFile_keeps {R : Bytes → σ → Prop} {done content : Bytes}
    (hstep : ∀ {done chunk s s'}, R done s → take s chunk = .ok s' → R (done ++ chunk) s')
    (hstart : R done s) (h : takeFile onProgress take s content = .ok s') :
    R (done ++ content) s' := by
  obtain ⟨last, hfold, rfl⟩ := map_eq_ok_iff.mp h
  have hkept := foldlM_keeps (R := fun done (next : σ × ℕ) => R done next.1)
    (fun hdone hchunk => hstep hdone (takeChunk_ok hchunk)) hstart hfold
  rwa [flatten_chunksOf pgpFileChunkSize_pos] at hkept

/-- Where every piece is taken, and the caller lets the call go on, the file is. -/
theorem takeFile_goes_on {content : Bytes} (hprogress : ∀ processed total, onProgress processed total)
    (htake : ∀ s chunk, ∃ s', take s chunk = .ok s') (s : σ) :
    ∃ s', takeFile onProgress take s content = .ok s' := by
  have hstep (next : σ × ℕ) (chunk : Bytes) :
      ∃ next', takeChunk onProgress take content.length next chunk = .ok next' := by
    obtain ⟨s', hs'⟩ := htake next.1 chunk
    refine ⟨(s', next.2 + chunk.length), ?_⟩
    simp only [takeChunk, hs', hprogress, if_true]
  obtain ⟨last, hfold, -⟩ := foldlM_goes_on (R := fun _ _ => True)
    (fun {_ chunk _ next} _ _ _ => (hstep next chunk).imp fun _ h => ⟨h, trivial⟩) trivial
    (List.nil_append (chunksOf PGP_FILE_CHUNK_SIZE content).flatten) (s := (s, 0))
  exact ⟨last.1, map_eq_ok_iff.mpr ⟨last, hfold, rfl⟩⟩

end Reading

namespace SeipWriter

variable {P : Primitives} {env : OutputEnv} {sessionKey front plain piece written : Bytes}
  {s s' : SeipWriter}

/-- `plain` has been enciphered behind `front`. -/
structure Represents (P : Primitives) (sessionKey front plain : Bytes) (s : SeipWriter) :
    Prop where
  cfb_eq : s.cfb = ((CipherFeedback.encryptor (P.aesEncrypt sessionKey)).run
    (cfbState (Octets.zero 16)) plain).2
  mdc_eq : s.mdc = plain
  written_eq : s.written = front ++ cfbEncrypt P sessionKey (Octets.zero 16) plain

theorem represents_nil (P : Primitives) (sessionKey front : Bytes) :
    Represents P sessionKey front [] { written := front } :=
  ⟨rfl, rfl, (List.append_nil front).symm⟩

theorem Represents.write (hs : Represents P sessionKey front plain s)
    (h : s.write P env sessionKey piece = .ok s') :
    Represents P sessionKey front (plain ++ piece) s' := by
  obtain ⟨written, hwrite, rfl⟩ := map_eq_ok_iff.mp h
  refine ⟨?_, congrArg (· ++ piece) hs.mdc_eq, ?_⟩
  · rw [Transducer.run_append, hs.cfb_eq]
  · rw [writeFileExact_ok hwrite, hs.written_eq, hs.cfb_eq, List.append_assoc, cfbEncrypt,
      cfbEncrypt, Transducer.run_append]

/-- The random prefix stands in front of the packet. -/
theorem Represents.writeTrailer {prefixOctets : Octets 16} {packet : Bytes}
    (hs : Represents P sessionKey front (prefixOctets.1 ++ prefixOctets.1.drop 14 ++ packet) s)
    (h : s.writeTrailer P env sessionKey = .ok written) :
    written = front ++
      cfbEncrypt P sessionKey (Octets.zero 16) (plainForCfb P prefixOctets packet) := by
  obtain ⟨last, hwrite, rfl⟩ := map_eq_ok_iff.mp h
  rw [hs.mdc_eq] at hwrite
  rw [(hs.write hwrite).written_eq, plainForCfb, ← List.append_assoc]

variable (P sessionKey) in
theorem write_unfailing (henv : env.Unfailing) (s : SeipWriter) (piece : Bytes) :
    ∃ s', s.write P env sessionKey piece = .ok s' := by
  rw [write, writeFileExact_unfailing henv]
  exact ⟨_, rfl⟩

end SeipWriter

section Message

variable {P : Primitives} {env : OutputEnv} {message : MessageEnv}
  {recipients : List PgpEncryptionRecipient} {cipherAlgorithmOctet tag : UInt8}
  {sessionKey bodyPrefix content temp written written' : Bytes} {opened : Bool} {r : ℕ}

theorem writePkeskPackets_ok
    (h : writePkeskPackets P env message cipherAlgorithmOctet sessionKey r recipients written =
      .ok written') :
    ∃ pkeskPackets, buildPkeskPackets P sessionKey cipherAlgorithmOctet message.seed r recipients =
      some pkeskPackets ∧ written' = written ++ pkeskPackets := by
  induction recipients generalizing r written with
  | nil =>
      obtain rfl := Except.ok.inj h
      exact ⟨[], rfl, (List.append_nil _).symm⟩
  | cons recipient recipients ih =>
      rw [writePkeskPackets] at h
      rw [buildPkeskPackets]
      split_ifs at h ⊢ with hempty
      obtain ⟨next, hwrite, hrest⟩ := bind_eq_ok_iff.mp h
      obtain ⟨others, hbuilt, rfl⟩ := ih hrest
      rw [hbuilt, writeFileExact_ok hwrite, List.append_assoc]
      exact ⟨_, rfl, rfl⟩

/-- The streamed message is the one that is built in memory, of the whole file. -/
theorem encryptPacketStreaming_ok
    (h : encryptPacketStreaming P env message recipients cipherAlgorithmOctet tag bodyPrefix opened
      content = .ok written) :
    recipients ≠ [] ∧ protectedMessage P message recipients cipherAlgorithmOctet
      (writePacket tag (bodyPrefix ++ content)) = some written := by
  rw [encryptPacketStreaming] at h
  by_cases hnone : recipients = []
  · rw [if_pos hnone] at h
    cases h
  rw [if_neg hnone] at h
  refine ⟨hnone, ?_⟩
  obtain ⟨pkesks, hpkesks, h⟩ := do_eq_ok_iff.mp h
  obtain ⟨front₁, hheader, h⟩ := do_eq_ok_iff.mp h
  obtain ⟨front₂, hversion, h⟩ := do_eq_ok_iff.mp h
  obtain ⟨s₁, hprefix, h⟩ := do_eq_ok_iff.mp h
  obtain ⟨s₂, hinner, h⟩ := do_eq_ok_iff.mp h
  obtain ⟨s₃, hfields, h⟩ := do_eq_ok_iff.mp h
  cases opened with
  | false => cases h
  | true =>
  obtain ⟨s₄, htaken, htrailer⟩ := do_eq_ok_iff.mp h
  obtain ⟨pkeskPackets, hbuilt, rfl⟩ := writePkeskPackets_ok hpkesks
  obtain rfl := writeFileExact_ok hheader
  obtain rfl := writeFileExact_ok hversion
  have hfront := ((SeipWriter.represents_nil P _ _).write hprefix |>.write hinner).write hfields
  have hall := takeFile_keeps (fun hs hwrite => hs.write hwrite) hfront htaken
  -- what was enciphered behind the random prefix is the packet
  have hpacket : packetHeaderFor tag (bodyPrefix.length + content.length) ++
      (bodyPrefix ++ content) = writePacket tag (bodyPrefix ++ content) := by
    rw [← List.length_append, packetHeaderFor_append]
  have hplain : [] ++ (message.prefixOctets.1 ++ message.prefixOctets.1.drop 14) ++
      packetHeaderFor tag (bodyPrefix.length + content.length) ++ bodyPrefix ++ content =
        message.prefixOctets.1 ++ message.prefixOctets.1.drop 14 ++
          writePacket tag (bodyPrefix ++ content) := by
    rw [← hpacket, List.nil_append, ← List.append_assoc, ← List.append_assoc]
  have hlength : 1 + (18 + ((packetHeaderFor tag (bodyPrefix.length + content.length)).length +
      (bodyPrefix.length + content.length)) + 2 + 20) =
        (1 :: cfbEncrypt P (message.sessionKeyFor cipherAlgorithmOctet) (Octets.zero 16)
          (plainForCfb P message.prefixOctets (writePacket tag (bodyPrefix ++ content)))).length := by
    rw [List.length_cons, length_cfbEncrypt, length_plainForCfb, ← hpacket, List.length_append,
      List.length_append]
    omega
  rw [hplain] at hall
  rw [hall.writeTrailer htrailer, hlength, List.append_assoc, List.append_assoc, protectedMessage,
    hbuilt]
  rfl

theorem writePkeskPackets_unfailing (henv : env.Unfailing) {pkeskPackets : Bytes}
    (h : buildPkeskPackets P sessionKey cipherAlgorithmOctet message.seed r recipients =
      some pkeskPackets) :
    writePkeskPackets P env message cipherAlgorithmOctet sessionKey r recipients written =
      .ok (written ++ pkeskPackets) := by
  induction recipients generalizing r written pkeskPackets with
  | nil =>
      obtain rfl := Option.some.inj h
      rw [writePkeskPackets, List.append_nil]
  | cons recipient recipients ih =>
      rw [buildPkeskPackets] at h
      rw [writePkeskPackets]
      split_ifs at h ⊢ with hempty
      obtain ⟨others, hothers, rfl⟩ := Option.map_eq_some_iff.mp h
      rw [writeFileExact_unfailing henv, Except.bind, ih hothers, List.append_assoc]

/-- On a system that does not fail, every message that can be built is streamed. -/
theorem encryptPacketStreaming_unfailing (henv : env.Unfailing) (hnone : recipients ≠ [])
    (h : protectedMessage P message recipients cipherAlgorithmOctet
      (writePacket tag (bodyPrefix ++ content)) = some written) :
    encryptPacketStreaming P env message recipients cipherAlgorithmOctet tag bodyPrefix true
      content = .ok written := by
  obtain ⟨pkeskPackets, hbuilt, -⟩ := Option.map_eq_some_iff.mp h
  have hwrite := SeipWriter.write_unfailing P (message.sessionKeyFor cipherAlgorithmOctet) henv
  -- every step writes something, so the run ends; what it ends with is known
  have hends : ∃ written', encryptPacketStreaming P env message recipients cipherAlgorithmOctet tag
      bodyPrefix true content = .ok written' := by
    rw [encryptPacketStreaming, if_neg hnone]
    simp only [do_eq_ok_iff, writePkeskPackets_unfailing henv hbuilt, writeFileExact_unfailing henv,
      Bool.true_eq_false, if_false]
    obtain ⟨s₁, h₁⟩ := hwrite { written := _ } _
    obtain ⟨s₂, h₂⟩ := hwrite s₁ _
    obtain ⟨s₃, h₃⟩ := hwrite s₂ _
    obtain ⟨s₄, h₄⟩ := takeFile_goes_on henv.onProgress hwrite s₃
    obtain ⟨s₅, h₅⟩ := hwrite s₄ _
    exact ⟨_, _, rfl, _, rfl, _, rfl, s₁, h₁, s₂, h₂, s₃, h₃, s₄, h₄,
      map_eq_ok_iff.mpr ⟨s₅, h₅, rfl⟩⟩
  obtain ⟨written', hstream⟩ := hends
  obtain rfl := Option.some.inj (h.symm.trans (encryptPacketStreaming_ok hstream).2)
  exact hstream

/-! ### What is compressed -/

/-- What the temporary file holds is what has come out of the compressor. -/
structure Deflation.Represents {inverse : Bytes → Option Bytes} (compressor : Deflating inverse)
    (plain : Bytes) (s : Deflation) : Prop where
  fed_eq : s.fed = plain
  retrieved_eq : s.retrieved = (compressor.put plain).length
  written_eq : s.written = compressor.put plain

section Compress

variable {inverse : Bytes → Option Bytes} {compressor : Deflating inverse} {plain piece : Bytes}
  {s s' : Deflation}

theorem compressPiece_first (h : compressPiece env compressor {} piece = .ok s') :
    s'.Represents compressor piece := by
  obtain ⟨out, hwrite, rfl⟩ := map_eq_ok_iff.mp h
  exact ⟨rfl, rfl, writeFileExact_ok hwrite⟩

theorem Deflation.Represents.put (hs : s.Represents compressor plain)
    (h : compressPiece env compressor s piece = .ok s') :
    s'.Represents compressor (plain ++ piece) := by
  obtain ⟨out, hwrite, rfl⟩ := map_eq_ok_iff.mp h
  obtain ⟨rfl, hretrieved, hwritten⟩ := hs
  obtain ⟨after, hafter⟩ := compressor.put_append s.fed piece
  refine ⟨rfl, rfl, ?_⟩
  rw [drainToTemp] at hwrite
  rw [writeFileExact_ok hwrite, hwritten, hretrieved, hafter, List.drop_left]

theorem Deflation.Represents.finish (hs : s.Represents compressor plain)
    (h : drainToTemp env s (compressor.whole s.fed) = .ok written) :
    written = compressor.whole plain := by
  obtain ⟨rfl, hretrieved, hwritten⟩ := hs
  obtain ⟨after, hafter⟩ := compressor.put_whole s.fed
  rw [drainToTemp] at h
  rw [writeFileExact_ok h, hwritten, hretrieved, hafter, List.drop_left]

end Compress

/-- The temporary file holds the literal packet around the whole file, compressed. -/
theorem compressLiteralToTempFile_ok {deflators : Deflators P}
    {compressionAlgorithm : PgpFileCompressionAlgorithm}
    (h : compressLiteralToTempFile deflators env content compressionAlgorithm = .ok temp) :
    temp = deflators.whole compressionAlgorithm
      (writePacket PGP_TAG_LITERAL_DATA (literalBody content)) := by
  have hpacket : packetHeaderFor PGP_TAG_LITERAL_DATA (6 + content.length) ++ literalPrefix ++
      content = writePacket PGP_TAG_LITERAL_DATA (literalBody content) := by
    rw [List.append_assoc, literalPrefix_append, ← packetHeaderFor_append, length_literalBody,
      Nat.add_comm]
  have hwhole {inverse : Bytes → Option Bytes} {compressor : Deflating inverse}
      (h : compressLiteralPacket env compressor content = .ok temp) :
      temp = compressor.whole (writePacket PGP_TAG_LITERAL_DATA (literalBody content)) := by
    obtain ⟨s₁, hfields, h⟩ := do_eq_ok_iff.mp h
    obtain ⟨s₂, htaken, hend⟩ := do_eq_ok_iff.mp h
    rw [← hpacket]
    exact (takeFile_keeps (fun hs hput => hs.put hput) (compressPiece_first hfields)
      htaken).finish hend
  cases compressionAlgorithm with
  | PGP_FILE_COMPRESSION_ALGORITHM_ZIP => exact hwhole h
  | PGP_FILE_COMPRESSION_ALGORITHM_ZLIB => exact hwhole h

theorem compressPiece_unfailing {inverse : Bytes → Option Bytes} (compressor : Deflating inverse)
    (henv : env.Unfailing) (s : Deflation) (piece : Bytes) :
    ∃ s', compressPiece env compressor s piece = .ok s' := by
  rw [compressPiece, drainToTemp, writeFileExact_unfailing henv]
  exact ⟨_, rfl⟩

theorem compressLiteralToTempFile_unfailing (henv : env.Unfailing) (deflators : Deflators P)
    (compressionAlgorithm : PgpFileCompressionAlgorithm) (content : Bytes) :
    compressLiteralToTempFile deflators env content compressionAlgorithm =
      .ok (deflators.whole compressionAlgorithm
        (writePacket PGP_TAG_LITERAL_DATA (literalBody content))) := by
  have hends {inverse : Bytes → Option Bytes} (compressor : Deflating inverse) :
      ∃ temp, compressLiteralPacket env compressor content = .ok temp := by
    have hput := compressPiece_unfailing compressor henv
    obtain ⟨s₁, h₁⟩ := hput {}
      (packetHeaderFor PGP_TAG_LITERAL_DATA (6 + content.length) ++ literalPrefix)
    obtain ⟨s₂, h₂⟩ := takeFile_goes_on henv.onProgress hput s₁
    simp only [compressLiteralPacket, do_eq_ok_iff, drainToTemp, writeFileExact_unfailing henv]
    exact ⟨_, s₁, h₁, s₂, h₂, rfl⟩
  cases compressionAlgorithm with
  | PGP_FILE_COMPRESSION_ALGORITHM_ZIP =>
      obtain ⟨temp, htemp⟩ := hends deflators.zip
      obtain rfl := @compressLiteralToTempFile_ok P env content temp deflators
        PGP_FILE_COMPRESSION_ALGORITHM_ZIP htemp
      exact htemp
  | PGP_FILE_COMPRESSION_ALGORITHM_ZLIB =>
      obtain ⟨temp, htemp⟩ := hends deflators.zlib
      obtain rfl := @compressLiteralToTempFile_ok P env content temp deflators
        PGP_FILE_COMPRESSION_ALGORITHM_ZLIB htemp
      exact htemp

theorem Deflators.decompressBody_whole (deflators : Deflators P)
    (compressionAlgorithm : PgpFileCompressionAlgorithm) (data : Bytes) :
    decompressBody P compressionAlgorithm.octet (deflators.whole compressionAlgorithm data) =
      some data := by
  cases compressionAlgorithm with
  | PGP_FILE_COMPRESSION_ALGORITHM_ZIP => exact deflators.zip.inverse_whole data
  | PGP_FILE_COMPRESSION_ALGORITHM_ZLIB => exact deflators.zlib.inverse_whole data

end Message

/-! ### What the calls leave -/

section Calls

variable {P : Primitives} {message : MessageEnv} {inputFilePath outputFilePath : Bytes}
  {impl : Impl} {files : FileSystem}

/-- The file that is to be encrypted, and the path of the file that is written. -/
structure OpensFor (env : EncryptFileEnv) (inputFilePath outputFilePath : Bytes)
    (files : FileSystem) (content : Bytes) (outputPath : WidePath) : Prop where
  output : env.widePath outputFilePath = some outputPath
  input : ∃ inputPath, env.widePath inputFilePath = some inputPath ∧
    files inputPath = some content ∧ outputPath ≠ inputPath

theorem OpensFor.unique {env : EncryptFileEnv} {content content' : Bytes}
    {outputPath outputPath' : WidePath}
    (h : OpensFor env inputFilePath outputFilePath files content outputPath)
    (h' : OpensFor env inputFilePath outputFilePath files content' outputPath') :
    content = content' ∧ outputPath = outputPath' := by
  obtain ⟨houtput, inputPath, hinput, hcontent, -⟩ := h
  obtain ⟨houtput', inputPath', hinput', hcontent', -⟩ := h'
  obtain rfl := Option.some.inj (hinput.symm.trans hinput')
  exact ⟨Option.some.inj (hcontent.symm.trans hcontent'),
    Option.some.inj (houtput.symm.trans houtput')⟩

/-- A system that does what a call asks for. -/
structure EncryptFileEnv.Serves (env : EncryptFileEnv) (inputFilePath outputFilePath : Bytes)
    (files : FileSystem) (content : Bytes) (outputPath : WidePath) : Prop
    extends OpensFor env inputFilePath outputFilePath files content outputPath where
  unfailing : env.toOutputEnv.Unfailing
  opened : env.openInput = true
  created : env.createOutput = true

/-- The same with a temporary file, which is not the input file. -/
structure CompressedFileEnv.Serves (env : CompressedFileEnv) (inputFilePath outputFilePath : Bytes)
    (files : FileSystem) (content : Bytes) (outputPath : WidePath) : Prop
    extends env.toEncryptFileEnv.Serves inputFilePath outputFilePath files content outputPath where
  temp_unfailing : env.temp.Unfailing
  temp_created : env.createTemp = true
  temp_reopened : env.reopenTemp = true
  temp_read : env.readTemp = true
  temp_ne : env.widePath inputFilePath ≠ some (pgpztmpPath outputPath)

/-- A call that fails may have lost the output file, but no other one. -/
theorem EncryptFile_cases {env : EncryptFileEnv} :
    (∃ content outputPath file, OpensFor env inputFilePath outputFilePath files content outputPath ∧
      protectedMessage P message impl.recipients impl.symmetricCipherPreference.octet
        (writePacket PGP_TAG_LITERAL_DATA (literalBody content)) = some file ∧
      EncryptFile P message inputFilePath outputFilePath impl files env =
        (NO_ERROR, Function.update files outputPath (some file))) ∨
    (EncryptFile P message inputFilePath outputFilePath impl files env).1 ≠ NO_ERROR ∧
      ∀ path, env.widePath outputFilePath ≠ some path →
        (EncryptFile P message inputFilePath outputFilePath impl files env).2 path = files path := by
  rw [EncryptFile]
  by_cases himported : impl.peerKeyImported = false
  · rw [if_pos himported]
    exact .inr ⟨by simp, fun _ _ => rfl⟩
  rw [if_neg himported]
  cases hinput : env.widePath inputFilePath with
  | none => exact .inr ⟨by simp, fun _ _ => rfl⟩
  | some inputPath =>
  cases houtput : env.widePath outputFilePath with
  | none => exact .inr ⟨by simp, fun _ _ => rfl⟩
  | some outputPath =>
  dsimp only
  cases hopen : (files inputPath).filter fun _ => env.openInput with
  | none => exact .inr ⟨by simp, fun _ _ => rfl⟩
  | some content =>
  dsimp only
  by_cases hcreate : env.createOutput = false ∨ outputPath = inputPath
  · rw [if_pos hcreate]
    exact .inr ⟨by simp, fun _ _ => rfl⟩
  rw [if_neg hcreate]
  cases hstream : encryptFileStreaming P env.toOutputEnv message impl.recipients
      impl.symmetricCipherPreference.octet content with
  | error failure =>
      refine .inr ⟨failure.2, fun path hpath => Function.update_of_ne ?_ _ _⟩
      rintro rfl
      exact hpath rfl
  | ok file =>
      have hcontent := (Option.filter_eq_some_iff.mp hopen).1
      exact .inl ⟨content, outputPath, file,
        ⟨houtput, inputPath, hinput, hcontent, (not_or.mp hcreate).2⟩,
        (encryptPacketStreaming_ok hstream).2, rfl⟩

/-- A call that fails may have lost the output file and what stood where the temporary file is
put, but no other file. -/
theorem EncryptFileCompressed_cases {deflators : Deflators P}
    {compressionAlgorithm : PgpFileCompressionAlgorithm} {env : CompressedFileEnv} :
    (∃ content outputPath file,
      OpensFor env.toEncryptFileEnv inputFilePath outputFilePath files content outputPath ∧
      protectedMessage P message impl.recipients impl.symmetricCipherPreference.octet
        (writePacket PGP_TAG_COMPRESSED_DATA (compressionAlgorithm.octet ::
          deflators.whole compressionAlgorithm
            (writePacket PGP_TAG_LITERAL_DATA (literalBody content)))) = some file ∧
      EncryptFileCompressed message inputFilePath outputFilePath impl files deflators
          compressionAlgorithm env =
        (NO_ERROR, Function.update
          (Function.update files (pgpztmpPath outputPath) env.tempAfterDelete) outputPath
          (some file))) ∨
    (EncryptFileCompressed message inputFilePath outputFilePath impl files deflators
        compressionAlgorithm env).1 ≠ NO_ERROR ∧
      ∀ path, env.widePath outputFilePath ≠ some path →
        (env.widePath outputFilePath).map pgpztmpPath ≠ some path →
          (EncryptFileCompressed message inputFilePath outputFilePath impl files deflators
            compressionAlgorithm env).2 path = files path := by
  rw [EncryptFileCompressed]
  by_cases himported : impl.peerKeyImported = false
  · rw [if_pos himported]
    exact .inr ⟨by simp, fun _ _ _ => rfl⟩
  rw [if_neg himported]
  cases hinput : env.widePath inputFilePath with
  | none => exact .inr ⟨by simp, fun _ _ _ => rfl⟩
  | some inputPath =>
  cases houtput : env.widePath outputFilePath with
  | none => exact .inr ⟨by simp, fun _ _ _ => rfl⟩
  | some outputPath =>
  dsimp only
  cases hopen : (files inputPath).filter fun _ => env.openInput with
  | none => exact .inr ⟨by simp, fun _ _ _ => rfl⟩
  | some content =>
  dsimp only
  by_cases hsame : pgpztmpPath outputPath = inputPath
  · rw [if_pos hsame]
    exact .inr ⟨by simp, fun _ _ _ => rfl⟩
  rw [if_neg hsame]
  -- from here on the temporary file may have been written
  have hother {path : WidePath} (content : Option Bytes)
      (hpath : (some outputPath).map pgpztmpPath ≠ some path) :
      Function.update files (pgpztmpPath outputPath) content path = files path := by
    refine Function.update_of_ne ?_ _ _
    rintro rfl
    exact hpath rfl
  by_cases htemp : env.createTemp = false
  · rw [if_pos htemp]
    exact .inr ⟨by simp, fun _ _ hpath => hother _ hpath⟩
  rw [if_neg htemp]
  cases hcompress : compressLiteralToTempFile deflators env.temp content compressionAlgorithm with
  | error failure => exact .inr ⟨failure.2, fun _ _ hpath => hother _ hpath⟩
  | ok temp =>
  dsimp only
  by_cases hreopen : env.reopenTemp = false
  · rw [if_pos hreopen]
    exact .inr ⟨by simp, fun _ _ hpath => hother _ hpath⟩
  rw [if_neg hreopen]
  by_cases hcreate : env.createOutput = false ∨ outputPath = inputPath
  · rw [if_pos hcreate]
    exact .inr ⟨by simp, fun _ _ hpath => hother _ hpath⟩
  rw [if_neg hcreate]
  obtain rfl := compressLiteralToTempFile_ok hcompress
  cases hstream : encryptFileStreamingCompressed P env.toOutputEnv message impl.recipients
      impl.symmetricCipherPreference.octet compressionAlgorithm.octet env.readTemp
      (deflators.whole compressionAlgorithm
        (writePacket PGP_TAG_LITERAL_DATA (literalBody content))) with
  | error failure =>
      refine .inr ⟨failure.2, fun path hpath htempPath => ?_⟩
      refine (Function.update_of_ne ?_ _ _).trans (hother _ htempPath)
      rintro rfl
      exact hpath rfl
  | ok file =>
      have hcontent := (Option.filter_eq_some_iff.mp hopen).1
      exact .inl ⟨content, outputPath, file,
        ⟨houtput, inputPath, hinput, hcontent, (not_or.mp hcreate).2⟩,
        (encryptPacketStreaming_ok hstream).2, rfl⟩

/-- On a system that does what it is asked for, the call succeeds exactly where there is a
message, to the key that was imported and to the others. -/
theorem EncryptFile_noError_iff {env : EncryptFileEnv} {content : Bytes} {outputPath : WidePath}
    {files' : FileSystem}
    (hserves : env.Serves inputFilePath outputFilePath files content outputPath) :
    EncryptFile P message inputFilePath outputFilePath impl files env = (NO_ERROR, files') ↔
      impl.peerKeyImported = true ∧ ∃ file,
        protectedMessage P message impl.recipients impl.symmetricCipherPreference.octet
          (writePacket PGP_TAG_LITERAL_DATA (literalBody content)) = some file ∧
        files' = Function.update files outputPath (some file) := by
  constructor
  · intro hcall
    obtain ⟨content', outputPath', file, hopens, hmessage, hcall'⟩ | ⟨hstatus, -⟩ :=
      @EncryptFile_cases P message inputFilePath outputFilePath impl files env
    · obtain ⟨rfl, rfl⟩ := hserves.toOpensFor.unique hopens
      refine ⟨?_, file, hmessage, (Prod.mk.inj (hcall.symm.trans hcall')).2⟩
      by_contra himported
      rw [EncryptFile, if_pos (Bool.eq_false_iff.mpr himported)] at hcall
      cases hcall
    · exact absurd (congrArg Prod.fst hcall) hstatus
  · rintro ⟨himported, file, hmessage, rfl⟩
    obtain ⟨⟨houtput, inputPath, hinput, hcontent, hne⟩, hunfailing, hopened, hcreated⟩ := hserves
    have hstream : encryptFileStreaming P env.toOutputEnv message impl.recipients
        impl.symmetricCipherPreference.octet content = .ok file :=
      encryptPacketStreaming_unfailing hunfailing (List.cons_ne_nil _ _) hmessage
    simp only [EncryptFile, himported, Bool.true_eq_false, if_false, hinput, houtput, hcontent,
      hopened, hcreated, hne, or_self, Option.filter_some, if_true, hstream, finishOutput]

theorem EncryptFileCompressed_noError_iff {env : CompressedFileEnv} {deflators : Deflators P}
    {compressionAlgorithm : PgpFileCompressionAlgorithm} {content : Bytes} {outputPath : WidePath}
    {files' : FileSystem}
    (hserves : env.Serves inputFilePath outputFilePath files content outputPath) :
    EncryptFileCompressed message inputFilePath outputFilePath impl files deflators
        compressionAlgorithm env = (NO_ERROR, files') ↔
      impl.peerKeyImported = true ∧ ∃ file,
        protectedMessage P message impl.recipients impl.symmetricCipherPreference.octet
          (writePacket PGP_TAG_COMPRESSED_DATA (compressionAlgorithm.octet ::
            deflators.whole compressionAlgorithm
              (writePacket PGP_TAG_LITERAL_DATA (literalBody content)))) = some file ∧
        files' = Function.update (Function.update files (pgpztmpPath outputPath)
          env.tempAfterDelete) outputPath (some file) := by
  constructor
  · intro hcall
    obtain ⟨content', outputPath', file, hopens, hmessage, hcall'⟩ | ⟨hstatus, -⟩ :=
      @EncryptFileCompressed_cases P message inputFilePath outputFilePath impl files deflators
        compressionAlgorithm env
    · obtain ⟨rfl, rfl⟩ := hserves.toOpensFor.unique hopens
      refine ⟨?_, file, hmessage, (Prod.mk.inj (hcall.symm.trans hcall')).2⟩
      by_contra himported
      rw [EncryptFileCompressed, if_pos (Bool.eq_false_iff.mpr himported)] at hcall
      cases hcall
    · exact absurd (congrArg Prod.fst hcall) hstatus
  · rintro ⟨himported, file, hmessage, rfl⟩
    obtain ⟨⟨⟨houtput, inputPath, hinput, hcontent, hne⟩, hunfailing, hopened, hcreated⟩,
      htemp, htempCreated, hreopened, hread, htempNe⟩ := hserves
    have hcompress := compressLiteralToTempFile_unfailing htemp deflators compressionAlgorithm
      content
    have hstream : encryptFileStreamingCompressed P env.toOutputEnv message impl.recipients
        impl.symmetricCipherPreference.octet compressionAlgorithm.octet true
        (deflators.whole compressionAlgorithm
          (writePacket PGP_TAG_LITERAL_DATA (literalBody content))) = .ok file :=
      encryptPacketStreaming_unfailing hunfailing (List.cons_ne_nil _ _) hmessage
    have hapart : pgpztmpPath outputPath ≠ inputPath := by
      rintro rfl
      exact htempNe hinput
    simp only [EncryptFileCompressed, himported, Bool.true_eq_false, if_false, hinput, houtput,
      hcontent, hopened, hcreated, hne, or_self, Option.filter_some, if_true, hapart,
      htempCreated, hcompress, hreopened, hread, hstream, finishOutput]

end Calls

/-! ### Where the lengths are right -/

/-- What is written as a length announces its low 32 bits. -/
theorem announces_appendNewFormatLength (length : ℕ) :
    Announces (appendNewFormatLength length) (length % 2 ^ 32) false := by
  rw [Announces, ← List.append_nil (appendNewFormatLength length), List.append_nil]
  by_cases hfits : length < 2 ^ 32
  · have hdecode := decodeNewFormatBodyLength_append hfits []
    rw [List.append_nil] at hdecode
    rw [hdecode, Nat.mod_eq_of_lt hfits]
  · have hdecode := decodeNewFormatBodyLength_truncated (not_lt.mp hfits) []
    rw [List.append_nil] at hdecode
    rw [hdecode, length_appendNewFormatLength, if_neg (by omega), if_neg (by omega)]

/-- A packet that was written is a packet where its length fits the header. -/
theorem isPacket_writePacket_iff {tag tag' : UInt8} {body body' : Bytes} (htag : tag < 64) :
    IsPacket tag' body' (writePacket tag body) ↔
      tag' = tag ∧ body' = body ∧ body.length < 2 ^ 32 := by
  have hheader : HeaderOf tag ((0xC0 ||| tag) :: appendNewFormatLength body.length)
      (.definite (body.length % 2 ^ 32)) :=
    .newFormat htag (announces_appendNewFormatLength body.length)
  constructor
  · intro hpacket
    obtain ⟨header, length, ahead, hheader', hcarries, hoctets⟩ := isPacket_iff.mp hpacket
    obtain ⟨rfl, -, rfl, rfl⟩ := hheader.unique hheader' hoctets
    obtain ⟨rfl, hlength⟩ := hcarries
    exact ⟨rfl, rfl, by omega⟩
  · rintro ⟨rfl, rfl, hfits⟩
    refine isPacket_iff.mpr ⟨_, _, body', hheader, ⟨rfl, ?_⟩, rfl⟩
    rw [Nat.mod_eq_of_lt hfits]

/-- Behind the session key packets stands a protected packet up to the end of the file, and
under the encryption one packet with this body, between the random prefix and the code. -/
def HoldsPacket (P : Primitives) (message : MessageEnv) (recipients : List PgpEncryptionRecipient)
    (cipherAlgorithmOctet tag : UInt8) (body file : Bytes) : Prop :=
  ∃ pkeskPackets packet cipher inner,
    buildPkeskPackets P (message.sessionKeyFor cipherAlgorithmOctet) cipherAlgorithmOctet
      message.seed 0 recipients = some pkeskPackets ∧
    file = pkeskPackets ++ packet ∧ IsPacket PGP_TAG_SEIP (1 :: cipher) packet ∧
    cfbDecrypt P (message.sessionKeyFor cipherAlgorithmOctet) (Octets.zero 16) cipher =
      plainForCfb P message.prefixOctets inner ∧
    IsPacket tag body inner

theorem plainForCfb_injective (P : Primitives) (prefixOctets : Octets 16) {content content' : Bytes}
    (h : plainForCfb P prefixOctets content = plainForCfb P prefixOctets content') :
    content = content' := by
  have hat := plainForCfb_at P prefixOctets content
  have hat' := plainForCfb_at P prefixOctets content'
  have hlength := congrArg List.length h
  rw [length_plainForCfb, length_plainForCfb] at hlength
  rw [h] at hat
  exact (List.append_inj (hat.unique hat') (by omega)).1

section Sizes

variable {P : Primitives} {message : MessageEnv} {recipients : List PgpEncryptionRecipient}
  {cipherAlgorithmOctet tag tag' : UInt8} {body body' file : Bytes}

/-- Five octets of length, where it matters. -/
theorem protectedSize_fits_iff {bodyLength : ℕ} :
    packetSize bodyLength + 41 < 2 ^ 32 ↔ bodyLength + 47 < 2 ^ 32 := by
  rw [packetSize]
  split_ifs <;> omega

/-- A written message is whole where the length of its protected packet fits, and so does the
one inside. -/
theorem protectedMessage_holds_iff (htag : tag < 64)
    (h : protectedMessage P message recipients cipherAlgorithmOctet (writePacket tag body) =
      some file) :
    HoldsPacket P message recipients cipherAlgorithmOctet tag' body' file ↔
      tag' = tag ∧ body' = body ∧ packetSize body.length + 41 < 2 ^ 32 := by
  obtain ⟨pkeskPackets, hbuilt, rfl⟩ := Option.map_eq_some_iff.mp h
  have hsize : (1 :: cfbEncrypt P (message.sessionKeyFor cipherAlgorithmOctet) (Octets.zero 16)
      (plainForCfb P message.prefixOctets (writePacket tag body))).length =
        packetSize body.length + 41 := by
    rw [List.length_cons, length_cfbEncrypt, length_plainForCfb, length_writePacket]
  constructor
  · rintro ⟨pkeskPackets', packet, cipher, inner, hbuilt', hfile, hpacket, hplain, hinner⟩
    obtain rfl := Option.some.inj (hbuilt.symm.trans hbuilt')
    obtain rfl := List.append_cancel_left hfile
    obtain ⟨-, hcipher, hfits⟩ := (isPacket_writePacket_iff (by decide)).mp hpacket
    obtain rfl := (List.cons.inj hcipher).2
    rw [cfbDecrypt_cfbEncrypt] at hplain
    obtain rfl := plainForCfb_injective P _ hplain
    obtain ⟨rfl, rfl, -⟩ := (isPacket_writePacket_iff htag).mp hinner
    exact ⟨rfl, rfl, hsize ▸ hfits⟩
  · rintro ⟨rfl, rfl, hfits⟩
    have hbody : body'.length < 2 ^ 32 := by
      rw [packetSize] at hfits
      omega
    exact ⟨pkeskPackets, _, _, _, hbuilt, rfl,
      (isPacket_writePacket_iff (by decide)).mpr ⟨rfl, rfl, hsize ▸ hfits⟩,
      cfbDecrypt_cfbEncrypt .., (isPacket_writePacket_iff htag).mpr ⟨rfl, rfl, hbody⟩⟩

end Sizes

section Calls

variable {P : Primitives} {message : MessageEnv} {inputFilePath outputFilePath : Bytes}
  {impl : Impl} {files : FileSystem}

/-- A call that succeeds has written the message around the whole input file, and the message
is whole exactly where the protected packet can say how long it is. The status says nothing
about that. A call that fails leaves every other file alone. -/
theorem EncryptFile_outcome {env : EncryptFileEnv} :
    (∃ content outputPath file, OpensFor env inputFilePath outputFilePath files content outputPath ∧
      protectedMessage P message impl.recipients impl.symmetricCipherPreference.octet
        (writePacket PGP_TAG_LITERAL_DATA (literalBody content)) = some file ∧
      (HoldsPacket P message impl.recipients impl.symmetricCipherPreference.octet
        PGP_TAG_LITERAL_DATA (literalBody content) file ↔ content.length + 53 < 2 ^ 32) ∧
      EncryptFile P message inputFilePath outputFilePath impl files env =
        (NO_ERROR, Function.update files outputPath (some file))) ∨
    (EncryptFile P message inputFilePath outputFilePath impl files env).1 ≠ NO_ERROR ∧
      ∀ path, env.widePath outputFilePath ≠ some path →
        (EncryptFile P message inputFilePath outputFilePath impl files env).2 path =
          files path := by
  refine EncryptFile_cases.imp_left ?_
  rintro ⟨content, outputPath, file, hopens, hmessage, hcall⟩
  refine ⟨content, outputPath, file, hopens, hmessage, ?_, hcall⟩
  rw [protectedMessage_holds_iff (by decide) hmessage, length_literalBody, protectedSize_fits_iff,
    and_iff_right rfl, and_iff_right rfl]

/-- The compressed packet is whole, and so is the literal packet that comes out of it. -/
def HoldsCompressed (P : Primitives) (message : MessageEnv)
    (recipients : List PgpEncryptionRecipient) (cipherAlgorithmOctet compAlgo : UInt8)
    (content file : Bytes) : Prop :=
  ∃ compData decompressed, HoldsPacket P message recipients cipherAlgorithmOctet
      PGP_TAG_COMPRESSED_DATA (compAlgo :: compData) file ∧
    decompressBody P compAlgo compData = some decompressed ∧
    IsPacket PGP_TAG_LITERAL_DATA (literalBody content) decompressed

/-- With a compressed packet, both that and the literal packet in it can outgrow their
headers. -/
theorem protectedMessage_holdsCompressed_iff {deflators : Deflators P}
    {compressionAlgorithm : PgpFileCompressionAlgorithm} {cipherAlgorithmOctet : UInt8}
    {recipients : List PgpEncryptionRecipient} {content compressed file : Bytes}
    (hcompressed : deflators.whole compressionAlgorithm
      (writePacket PGP_TAG_LITERAL_DATA (literalBody content)) = compressed)
    (h : protectedMessage P message recipients cipherAlgorithmOctet
      (writePacket PGP_TAG_COMPRESSED_DATA (compressionAlgorithm.octet :: compressed)) =
        some file) :
    HoldsCompressed P message recipients cipherAlgorithmOctet compressionAlgorithm.octet content
        file ↔ content.length + 6 < 2 ^ 32 ∧ compressed.length + 48 < 2 ^ 32 := by
  have hback : decompressBody P compressionAlgorithm.octet compressed =
      some (writePacket PGP_TAG_LITERAL_DATA (literalBody content)) := by
    rw [← hcompressed]
    exact deflators.decompressBody_whole compressionAlgorithm _
  constructor
  · rintro ⟨compData, decompressed, hholds, hdecompress, hliteral⟩
    obtain ⟨-, hbody, hfits⟩ := (protectedMessage_holds_iff (by decide) h).mp hholds
    obtain rfl := (List.cons.inj hbody).2
    obtain rfl := Option.some.inj (hback.symm.trans hdecompress)
    obtain ⟨-, -, hshort⟩ := (isPacket_writePacket_iff (by decide)).mp hliteral
    rw [length_literalBody] at hshort
    rw [List.length_cons] at hfits
    exact ⟨hshort, protectedSize_fits_iff.mp hfits⟩
  · rintro ⟨hshort, hfits⟩
    refine ⟨compressed, _, (protectedMessage_holds_iff (by decide) h).mpr
      ⟨rfl, rfl, protectedSize_fits_iff.mpr hfits⟩, hback, (isPacket_writePacket_iff (by decide)).mpr
        ⟨rfl, rfl, ?_⟩⟩
    rwa [length_literalBody]

/-- The same for the compressing call. A failed one leaves every file alone but the output and
the temporary file. -/
theorem EncryptFileCompressed_outcome {deflators : Deflators P}
    {compressionAlgorithm : PgpFileCompressionAlgorithm} {env : CompressedFileEnv} :
    (∃ content compressed outputPath file,
      OpensFor env.toEncryptFileEnv inputFilePath outputFilePath files content outputPath ∧
      deflators.whole compressionAlgorithm
        (writePacket PGP_TAG_LITERAL_DATA (literalBody content)) = compressed ∧
      protectedMessage P message impl.recipients impl.symmetricCipherPreference.octet
        (writePacket PGP_TAG_COMPRESSED_DATA (compressionAlgorithm.octet :: compressed)) =
          some file ∧
      (HoldsCompressed P message impl.recipients impl.symmetricCipherPreference.octet
          compressionAlgorithm.octet content file ↔
        content.length + 6 < 2 ^ 32 ∧ compressed.length + 48 < 2 ^ 32) ∧
      EncryptFileCompressed message inputFilePath outputFilePath impl files deflators
          compressionAlgorithm env =
        (NO_ERROR, Function.update
          (Function.update files (pgpztmpPath outputPath) env.tempAfterDelete) outputPath
          (some file))) ∨
    (EncryptFileCompressed message inputFilePath outputFilePath impl files deflators
        compressionAlgorithm env).1 ≠ NO_ERROR ∧
      ∀ path, env.widePath outputFilePath ≠ some path →
        (env.widePath outputFilePath).map pgpztmpPath ≠ some path →
          (EncryptFileCompressed message inputFilePath outputFilePath impl files deflators
            compressionAlgorithm env).2 path = files path := by
  refine EncryptFileCompressed_cases.imp_left ?_
  rintro ⟨content, outputPath, file, hopens, hmessage, hcall⟩
  exact ⟨content, _, outputPath, file, hopens, rfl, hmessage,
    protectedMessage_holdsCompressed_iff rfl hmessage, hcall⟩

end Calls

end HashCryptoLib.Pgp
