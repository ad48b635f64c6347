import HashCryptoLib.Lib.Chunks
import HashCryptoLib.Pgp.Soundness

/-!
Verifying a file. The file is hashed piece by piece behind one pass over the
packet, with the peer's master key only; the packet itself is checked by rules
of its own for each kind of key. The verdict is that of the call on buffers
exactly where the two readers take the packet alike and the master key speaks
for the key that was chosen.
-/

namespace HashCryptoLib.Pgp

open BigEndian Chunks

/-! ### Reading the file -/

/-- The octets hashed so far, with one more piece: as many as `processedBytes`
counts. The callback can stop the call after each piece. -/
def updateFromChunk (onProgress : ℕ → ℕ → Bool) (fileSize : ℕ) (hashed chunk : Bytes) :
    Except Status Bytes :=
  let processedBytes := hashed.length + chunk.length
  if onProgress processedBytes fileSize then .ok (hashed ++ chunk)
  else .error OPERATION_CANCELLED

def updateFromFile (onProgress : ℕ → ℕ → Bool) (content : Bytes) : Except Status Bytes :=
  (chunksOf PGP_FILE_CHUNK_SIZE content).foldlM (updateFromChunk onProgress content.length) []

/-- Read from `start` on, the callback lets the call go on after every piece. -/
def Uncancelled (onProgress : ℕ → ℕ → Bool) (fileSize start : ℕ) (rest : Bytes) : Prop :=
  ∀ i, i * PGP_FILE_CHUNK_SIZE < rest.length →
    onProgress (start + min ((i + 1) * PGP_FILE_CHUNK_SIZE) rest.length) fileSize = true

/-! ### Verifying -/

/-- What is hashed behind the document. -/
def trailerSuffix (signatureType pkAlgorithm hashAlgorithm : UInt8) (hashedSubpackets : Bytes) :
    Bytes :=
  [4, signatureType, pkAlgorithm, hashAlgorithm] ++ appendBigEndian16 hashedSubpackets.length ++
    hashedSubpackets ++ [4, 0xFF] ++ appendBigEndian32 (6 + hashedSubpackets.length)

/-- The body of a signature packet that is all of `signaturePacketBytes`. -/
def exactSignaturePacketBody (signaturePacketBytes : Bytes) : Option Bytes :=
  match readPacketHeader signaturePacketBytes 0 none false with
  | none => none
  | some header =>
    if header.tag ≠ PGP_TAG_SIGNATURE ∨
        header.bodyPos + header.bodyLength ≠ signaturePacketBytes.length then none
    else some (signaturePacketBytes.drop header.bodyPos)

section Calls

variable (P : Primitives) (onProgress : ℕ → ℕ → Bool)

def verifyEd25519FileStreaming (publicKey : Octets 32) (content signaturePacketBytes : Bytes) :
    Outcome :=
  match (exactSignaturePacketBody signaturePacketBytes).bind parseSignaturePacketBody with
  | none => { status := INVALID_DATA }
  | some parsed =>
    if parsed.pkAlgorithm ≠ PGP_ALGO_EDDSA ∨ parsed.hashAlgorithm ≠ 10 ∨
        parsed.signatureType ≠ 0 then { status := INVALID_DATA }
    else
      match updateFromFile onProgress content with
      | .error status => { status }
      | .ok hashed =>
        let suffix := trailerSuffix parsed.signatureType PGP_ALGO_EDDSA 10 parsed.hashedSubpackets
        let rawSignature : Octets 64 :=
          ⟨toOctets 32 (ofOctets parsed.signatureMpiValue) ++
            toOctets 32 (ofOctets parsed.signatureMpiValue2), parsed.length_rawSignature⟩
        { status := NO_ERROR
          isValid := some (P.ed25519Verify publicKey (P.sha512 (hashed ++ suffix)).1
            rawSignature) }

/-- Of the packet, only that it parses is checked here. A key the library
refuses throws; there is no verdict then, nor after a cancellation. -/
def verifyFileStreaming (verifyingKey : RsaPublicKey) (content signaturePacketBytes : Bytes) :
    Outcome :=
  match (signaturePacketBody signaturePacketBytes).bind parseSignaturePacketBody with
  | none => { status := INVALID_DATA }
  | some parsed =>
    match updateFromFile onProgress content with
    | .error status => { status }
    | .ok hashed =>
      let suffix := trailerSuffix parsed.signatureType 1 8 parsed.hashedSubpackets
      let fixedSignature := toOctets (rsaModulusByteLength verifyingKey.modulus)
        (ofOctets parsed.signatureMpiValue)
      match P.rsaVerify verifyingKey (hashed ++ suffix) fixedSignature with
      | none => { status := UNEXPECTED_ERROR }
      | some verified => { status := NO_ERROR, isValid := some verified }

/-- `content` and `signaturePacketBytes` are those of the two files. -/
def VerifyFile (content signaturePacketBytes : Bytes) (impl : Impl) : Outcome :=
  if impl.peerKeyImported = false then { status := INVALID_ARGUMENT }
  else if signaturePacketBytes.length > 65536 then { status := FILE_IO_ERROR }
  else
    match impl.peerMasterAlgorithm with
    | PGP_KEY_ALGORITHM_RSA =>
      verifyFileStreaming P onProgress impl.peerMasterPublicKey content signaturePacketBytes
    | PGP_KEY_ALGORITHM_ED25519_X25519 =>
      verifyEd25519FileStreaming P onProgress impl.peerEd25519PublicKey content
        signaturePacketBytes

end Calls

/-! ### The loop hashes the whole file -/

theorem uncancelled_step {onProgress : ℕ → ℕ → Bool} {fileSize start : ℕ} {rest : Bytes}
    (hrest : rest ≠ []) :
    Uncancelled onProgress fileSize start rest ↔
      onProgress (start + (rest.take PGP_FILE_CHUNK_SIZE).length) fileSize = true ∧
        Uncancelled onProgress fileSize (start + (rest.take PGP_FILE_CHUNK_SIZE).length)
          (rest.drop PGP_FILE_CHUNK_SIZE) := by
  have hpos := List.length_pos_iff.mpr hrest
  have hsize := pgpFileChunkSize_pos
  -- the pieces behind the first one end where those of the rest of the file end
  have hend (i : ℕ) : start + min ((i + 1 + 1) * PGP_FILE_CHUNK_SIZE) rest.length =
      start + min PGP_FILE_CHUNK_SIZE rest.length +
        min ((i + 1) * PGP_FILE_CHUNK_SIZE) (rest.length - PGP_FILE_CHUNK_SIZE) := by
    rw [Nat.add_one_mul (i + 1)]
    omega
  rw [Uncancelled, Uncancelled, List.length_take, List.length_drop]
  constructor
  · intro hall
    constructor
    · have hfirst := hall 0 (by omega)
      rwa [Nat.zero_add, Nat.one_mul] at hfirst
    · intro i hi
      rw [← hend]
      exact hall (i + 1) (by rw [Nat.add_one_mul]; omega)
  · rintro ⟨hfirst, hall⟩ i hi
    cases i with
    | zero => rwa [Nat.zero_add, Nat.one_mul]
    | succ i =>
        rw [Nat.add_one_mul] at hi
        rw [hend]
        exact hall i (by omega)

theorem foldlM_updateFromChunk (onProgress : ℕ → ℕ → Bool) (fileSize : ℕ) (hashed rest : Bytes) :
    (chunksOf PGP_FILE_CHUNK_SIZE rest).foldlM (updateFromChunk onProgress fileSize) hashed =
        .ok (hashed ++ rest) ∧ Uncancelled onProgress fileSize hashed.length rest ∨
      (chunksOf PGP_FILE_CHUNK_SIZE rest).foldlM (updateFromChunk onProgress fileSize) hashed =
        .error OPERATION_CANCELLED ∧ ¬ Uncancelled onProgress fileSize hashed.length rest := by
  induction rest using chunksOf.induct PGP_FILE_CHUNK_SIZE generalizing hashed with
  | case1 rest hdone =>
      obtain rfl := hdone.resolve_left pgpFileChunkSize_pos.ne'
      left
      rw [chunksOf_nil, List.append_nil]
      exact ⟨rfl, fun i hi => absurd hi (Nat.not_lt_zero _)⟩
  | case2 rest hgoes ih =>
      have hrest := (not_or.mp hgoes).2
      rw [chunksOf_of_ne_nil pgpFileChunkSize_pos hrest, List.foldlM_cons,
        uncancelled_step hrest, updateFromChunk]
      by_cases hfirst : onProgress
          (hashed.length + (rest.take PGP_FILE_CHUNK_SIZE).length) fileSize = true
      · have hnext := ih (hashed ++ rest.take PGP_FILE_CHUNK_SIZE)
        rw [List.append_assoc, List.take_append_drop, List.length_append] at hnext
        rw [if_pos hfirst, and_iff_right hfirst]
        exact hnext
      · right
        rw [if_neg hfirst]
        exact ⟨rfl, fun hall => hfirst hall.1⟩

/-- The loop hashes the whole file, or the callback stops it. -/
theorem updateFromFile_cases (onProgress : ℕ → ℕ → Bool) (content : Bytes) :
    updateFromFile onProgress content = .ok content ∧
        Uncancelled onProgress content.length 0 content ∨
      updateFromFile onProgress content = .error OPERATION_CANCELLED ∧
        ¬ Uncancelled onProgress content.length 0 content :=
  foldlM_updateFromChunk onProgress content.length [] content

theorem append_trailerSuffix (documentData : Bytes)
    (signatureType pkAlgorithm hashAlgorithm : UInt8) (hashedSubpackets : Bytes) :
    documentData ++ trailerSuffix signatureType pkAlgorithm hashAlgorithm hashedSubpackets =
      toBeHashed documentData signatureType pkAlgorithm hashAlgorithm hashedSubpackets := by
  simp only [trailerSuffix, toBeHashed, List.append_assoc]

/-! ### Where the two calls agree -/

/-- The signature the file call reads in a packet. For an RSA key the algorithm
octets are not looked at; for a curve key the packet is the whole file, and of
type 0. -/
def VerificationKey.parseFile (key : VerificationKey) (signaturePacketBytes : Bytes) :
    Option ParsedSignature :=
  match key with
  | .rsa _ => (signaturePacketBody signaturePacketBytes).bind parseSignaturePacketBody
  | .ed25519 _ =>
    ((exactSignaturePacketBody signaturePacketBytes).bind parseSignaturePacketBody).filter
      fun parsed => parsed.pkAlgorithm = PGP_ALGO_EDDSA ∧ parsed.hashAlgorithm = 10 ∧
        parsed.signatureType = 0

/-- What the library says of a signature value under this key, over a document:
`none` if it throws. -/
def VerificationKey.answer (P : Primitives) (key : VerificationKey) (documentData : Bytes)
    (parsed : ParsedSignature) : Option Bool :=
  key.accepts P parsed (key.signedOctets parsed.signatureType documentData parsed.hashedSubpackets)

theorem signaturePacketBody_of_exact {signaturePacketBytes body : Bytes}
    (h : exactSignaturePacketBody signaturePacketBytes = some body) :
    signaturePacketBody signaturePacketBytes = some body := by
  rw [exactSignaturePacketBody] at h
  rw [signaturePacketBody]
  cases hheader : readPacketHeader signaturePacketBytes 0 none false with
  | none =>
      rw [hheader] at h
      cases h
  | some header =>
      rw [hheader] at h
      dsimp only at h ⊢
      split_ifs at h with hguard
      obtain ⟨htag, hlength⟩ := not_or.mp hguard
      obtain rfl := Option.some.inj h
      rw [if_neg htag, readOctets, if_pos (by omega), List.take_of_length_le]
      rw [List.length_drop]
      omega

section Agreement

variable {P : Primitives} {onProgress : ℕ → ℕ → Bool} {impl : Impl}
  {content signaturePacketBytes : Bytes}

theorem verifyEd25519FileStreaming_isValid (publicKey : Octets 32) (verdict : Bool) :
    (verifyEd25519FileStreaming P onProgress publicKey content signaturePacketBytes).isValid =
        some verdict ↔
      Uncancelled onProgress content.length 0 content ∧
        ((VerificationKey.ed25519 publicKey).parseFile signaturePacketBytes).bind
          ((VerificationKey.ed25519 publicKey).answer P content) = some verdict := by
  rw [verifyEd25519FileStreaming, VerificationKey.parseFile]
  cases (exactSignaturePacketBody signaturePacketBytes).bind parseSignaturePacketBody with
  | none => simp
  | some parsed =>
      dsimp only
      by_cases hkind : parsed.pkAlgorithm = PGP_ALGO_EDDSA ∧ parsed.hashAlgorithm = 10 ∧
          parsed.signatureType = 0
      · rw [if_neg (by tauto), Option.filter_some, if_pos (decide_eq_true hkind)]
        rcases updateFromFile_cases onProgress content with ⟨hread, hgoes⟩ | ⟨hread, hstopped⟩
        · rw [hread, and_iff_right hgoes]
          dsimp only
          rw [append_trailerSuffix]
          rfl
        · rw [hread]
          exact iff_of_false (fun h => by cases h) (fun h => absurd h.1 hstopped)
      · rw [if_pos (by tauto), Option.filter_some, if_neg (by simpa using hkind)]
        simp

theorem verifyFileStreaming_isValid (verifyingKey : RsaPublicKey) (verdict : Bool) :
    (verifyFileStreaming P onProgress verifyingKey content signaturePacketBytes).isValid =
        some verdict ↔
      Uncancelled onProgress content.length 0 content ∧
        ((VerificationKey.rsa verifyingKey).parseFile signaturePacketBytes).bind
          ((VerificationKey.rsa verifyingKey).answer P content) = some verdict := by
  rw [verifyFileStreaming, VerificationKey.parseFile]
  cases (signaturePacketBody signaturePacketBytes).bind parseSignaturePacketBody with
  | none => simp
  | some parsed =>
      dsimp only
      rcases updateFromFile_cases onProgress content with ⟨hread, hgoes⟩ | ⟨hread, hstopped⟩
      · have hsigned : content ++ trailerSuffix parsed.signatureType 1 8 parsed.hashedSubpackets =
            (VerificationKey.rsa verifyingKey).signedOctets parsed.signatureType content
              parsed.hashedSubpackets := append_trailerSuffix ..
        rw [hread, and_iff_right hgoes, Option.bind_some, VerificationKey.answer,
          VerificationKey.accepts]
        dsimp only
        rw [hsigned]
        split
        · rename_i hthrown
          rw [hthrown]
        · rename_i verified hverified
          rw [hverified]
      · rw [hread]
        exact iff_of_false (fun h => by cases h) (fun h => absurd h.1 hstopped)

/-- The file call has a verdict: which packet gives it, and by which key. -/
theorem VerifyFile_isValid_iff (verdict : Bool) :
    (VerifyFile P onProgress content signaturePacketBytes impl).isValid = some verdict ↔
      impl.peerKeyImported = true ∧ signaturePacketBytes.length ≤ 65536 ∧
        Uncancelled onProgress content.length 0 content ∧
        (impl.peerMasterKey.parseFile signaturePacketBytes).bind
          (impl.peerMasterKey.answer P content) = some verdict := by
  rw [VerifyFile]
  by_cases himported : impl.peerKeyImported = false
  · rw [if_pos himported, himported]
    exact iff_of_false (fun h => by cases h) (fun h => by cases h.1)
  rw [if_neg himported, Bool.not_eq_false] at *
  by_cases hlong : signaturePacketBytes.length > 65536
  · rw [if_pos hlong]
    exact iff_of_false (fun h => by cases h) (fun h => absurd h.2.1 (Nat.not_le_of_gt hlong))
  rw [if_neg hlong, and_iff_right himported, and_iff_right (Nat.le_of_not_gt hlong),
    Impl.peerMasterKey]
  cases impl.peerMasterAlgorithm with
  | PGP_KEY_ALGORITHM_RSA => exact verifyFileStreaming_isValid _ verdict
  | PGP_KEY_ALGORITHM_ED25519_X25519 => exact verifyEd25519FileStreaming_isValid _ verdict

/-- The call on buffers has a verdict. -/
theorem VerifyBuffer_isValid_iff (content signature : Buffer) (verdict : Bool) :
    (VerifyBuffer P content signature impl).isValid = some verdict ↔
      impl.peerKeyImported = true ∧
        ((selectPeerVerificationKeyMaterial impl signature.1).parse signature.1).bind
          ((selectPeerVerificationKeyMaterial impl signature.1).answer P content.1) =
            some verdict := by
  have hverify := (selectPeerVerificationKeyMaterial impl signature.1).verify_eq P content.1
    signature.1
  rw [VerifyBuffer]
  by_cases himported : impl.peerKeyImported = false
  · rw [if_pos (Or.inl himported), himported]
    exact iff_of_false (fun h => by cases h) (fun h => by cases h.1)
  rw [Bool.not_eq_false] at himported
  rw [and_iff_right himported]
  by_cases hempty : signature.1 = []
  · -- no packet can be read in an empty signature
    rw [if_pos (Or.inr hempty), hempty]
    exact iff_of_false (fun h => by cases h) (fun h => by cases h)
  rw [if_neg (by simp [himported, hempty]), verifyWithPeer, hverify]
  change _ ↔ ((selectPeerVerificationKeyMaterial impl signature.1).parse signature.1).bind
    (fun parsed => (selectPeerVerificationKeyMaterial impl signature.1).answer P content.1 parsed) =
      some verdict
  simp only [VerificationKey.answer]
  split
  · rename_i hnone
    rw [hnone]
  · rename_i verified hverified
    rw [hverified]

/-- Nothing stands behind the packet. -/
def EndsPacket (signaturePacketBytes : Bytes) : Prop :=
  ∃ header, readPacketHeader signaturePacketBytes 0 none false = some header ∧
    header.bodyPos + header.bodyLength = signaturePacketBytes.length

theorem exactSignaturePacketBody_eq_some_iff {body : Bytes} :
    exactSignaturePacketBody signaturePacketBytes = some body ↔
      EndsPacket signaturePacketBytes ∧ signaturePacketBody signaturePacketBytes = some body := by
  constructor
  · intro hbody
    refine ⟨?_, signaturePacketBody_of_exact hbody⟩
    rw [exactSignaturePacketBody] at hbody
    cases hheader : readPacketHeader signaturePacketBytes 0 none false with
    | none =>
        rw [hheader] at hbody
        cases hbody
    | some header =>
        rw [hheader] at hbody
        dsimp only at hbody
        split_ifs at hbody with hguard
        exact ⟨header, hheader, not_ne_iff.mp (not_or.mp hguard).2⟩
  · rintro ⟨⟨header, hheader, hends⟩, hbody⟩
    rw [signaturePacketBody, hheader] at hbody
    dsimp only at hbody
    split_ifs at hbody with htag
    rw [exactSignaturePacketBody, hheader]
    dsimp only
    rw [if_neg (not_or.mpr ⟨htag, not_ne_iff.mpr hends⟩), ← hbody, readOctets,
      if_pos hends.le, List.take_of_length_le]
    rw [List.length_drop]
    omega

/-- The file call takes the signature of a packet: the packet is short enough
to be read at all and, where the master key is a curve key, of the one kind that
is expected there, with nothing behind it. No octet is looked at for RSA. -/
def FileReads (master : VerificationKey) (signaturePacketBytes : Bytes)
    (parsed : ParsedSignature) : Prop :=
  signaturePacketBytes.length ≤ 65536 ∧
    match master with
    | .rsa _ => True
    | .ed25519 _ => parsed.pkAlgorithm = PGP_ALGO_EDDSA ∧ parsed.hashAlgorithm = 10 ∧
        parsed.signatureType = 0 ∧ EndsPacket signaturePacketBytes

/-- The call on buffers takes it: both algorithm octets are those of the key. -/
def BufferReads (key : VerificationKey) (parsed : ParsedSignature) : Prop :=
  parsed.pkAlgorithm = key.pkAlgorithm ∧ parsed.hashAlgorithm = key.hashAlgorithm

/-- The packet names this key, of one of the peer's signing subkeys. -/
def IssuedBySubkey (impl : Impl) (signaturePacketBytes : Bytes) (key : VerificationKey) : Prop :=
  ∃ issuerKeyId subkey,
    findIssuerKeyIdOfSignaturePacket signaturePacketBytes = some issuerKeyId ∧
      issuerKeyId ≠ impl.peerMasterKeyId.1 ∧
      impl.peerSubkeys.find? (fun subkey => subkey.keyId.1 = issuerKeyId) = some subkey ∧
      subkey.verificationKey = some key

/-- No signing subkey with another key than the master key is named. -/
def IssuedByMaster (impl : Impl) (signaturePacketBytes : Bytes) : Prop :=
  ∀ key, IssuedBySubkey impl signaturePacketBytes key → key = impl.peerMasterKey

/-- The two calls read a packet alike, over a file that is read to its end if
`toEnd`. What the packet does not name is checked with the master key by both;
where it names a subkey, the call on files does not even look for it, and
neither of the two may take the packet. -/
def ReadAlike (impl : Impl) (signaturePacketBytes : Bytes) (toEnd : Prop) : Prop :=
  ∀ parsed, (signaturePacketBody signaturePacketBytes).bind parseSignaturePacketBody =
      some parsed →
    (IssuedByMaster impl signaturePacketBytes →
      (toEnd ∧ FileReads impl.peerMasterKey signaturePacketBytes parsed ↔
        BufferReads impl.peerMasterKey parsed)) ∧
    ∀ key, IssuedBySubkey impl signaturePacketBytes key → key ≠ impl.peerMasterKey →
      ¬ (toEnd ∧ FileReads impl.peerMasterKey signaturePacketBytes parsed) ∧
        ¬ BufferReads key parsed

/-- One verdict from the two calls, whatever the library answers. -/
def SameVerdict (onProgress : ℕ → ℕ → Bool) (content signature : Buffer) (impl : Impl) : Prop :=
  ∀ P, (VerifyFile P onProgress content.1 signature.1 impl).isValid =
    (VerifyBuffer P content signature impl).isValid

/-- Which key the call on buffers looks for. -/
theorem IssuedBySubkey.select {key : VerificationKey}
    (h : IssuedBySubkey impl signaturePacketBytes key) :
    selectPeerVerificationKeyMaterial impl signaturePacketBytes = key := by
  obtain ⟨issuerKeyId, subkey, hissuer, hother, hfind, hkey⟩ := h
  rw [selectPeerVerificationKeyMaterial, hissuer]
  dsimp only
  rw [if_neg hother, hfind]
  dsimp only
  rw [hkey, Option.getD_some]

theorem IssuedByMaster.select (h : IssuedByMaster impl signaturePacketBytes) :
    selectPeerVerificationKeyMaterial impl signaturePacketBytes = impl.peerMasterKey := by
  rw [selectPeerVerificationKeyMaterial]
  cases hissuer : findIssuerKeyIdOfSignaturePacket signaturePacketBytes with
  | none => rfl
  | some issuerKeyId =>
      dsimp only
      split_ifs with hmaster
      · rfl
      cases hfind : impl.peerSubkeys.find? (fun subkey => subkey.keyId.1 = issuerKeyId) with
      | none => rfl
      | some subkey =>
          dsimp only
          cases hkey : subkey.verificationKey with
          | none => rfl
          | some key => exact h key ⟨issuerKeyId, subkey, hissuer, hmaster, hfind, hkey⟩

/-- Where the packet does not parse, neither reader has a signature. -/
theorem parseFile_eq_some_iff {master : VerificationKey} {parsed : ParsedSignature}
    (hshort : signaturePacketBytes.length ≤ 65536) :
    master.parseFile signaturePacketBytes = some parsed ↔
      (signaturePacketBody signaturePacketBytes).bind parseSignaturePacketBody = some parsed ∧
        FileReads master signaturePacketBytes parsed := by
  cases master with
  | rsa => exact (and_iff_left ⟨hshort, trivial⟩).symm
  | ed25519 =>
      rw [VerificationKey.parseFile, Option.filter_eq_some_iff, decide_eq_true_iff, FileReads,
        and_iff_right hshort]
      simp only [Option.bind_eq_some_iff, exactSignaturePacketBody_eq_some_iff]
      tauto

/-- The verdict of the file call, and where it has none. -/
theorem VerifyFile_isValid_eq_some_iff (himported : impl.peerKeyImported = true)
    (verdict : Bool) :
    (VerifyFile P onProgress content signaturePacketBytes impl).isValid = some verdict ↔
      ∃ parsed, (signaturePacketBody signaturePacketBytes).bind parseSignaturePacketBody =
          some parsed ∧
        (Uncancelled onProgress content.length 0 content ∧
          FileReads impl.peerMasterKey signaturePacketBytes parsed) ∧
        impl.peerMasterKey.answer P content parsed = some verdict := by
  rw [VerifyFile_isValid_iff, and_iff_right himported]
  constructor
  · rintro ⟨hshort, hgoes, hverdict⟩
    obtain ⟨parsed, hparse, hanswer⟩ := Option.bind_eq_some_iff.mp hverdict
    obtain ⟨hparsed, hreads⟩ := (parseFile_eq_some_iff hshort).mp hparse
    exact ⟨parsed, hparsed, ⟨hgoes, hreads⟩, hanswer⟩
  · rintro ⟨parsed, hparsed, ⟨hgoes, hreads⟩, hanswer⟩
    refine ⟨hreads.1, hgoes, Option.bind_eq_some_iff.mpr ⟨parsed, ?_, hanswer⟩⟩
    exact (parseFile_eq_some_iff hreads.1).mpr ⟨hparsed, hreads⟩

/-- The verdict of the call on buffers, and where it has none. -/
theorem VerifyBuffer_isValid_eq_some_iff {content signature : Buffer}
    (himported : impl.peerKeyImported = true) {key : VerificationKey}
    (hkey : selectPeerVerificationKeyMaterial impl signature.1 = key) (verdict : Bool) :
    (VerifyBuffer P content signature impl).isValid = some verdict ↔
      ∃ parsed, (signaturePacketBody signature.1).bind parseSignaturePacketBody = some parsed ∧
        BufferReads key parsed ∧ key.answer P content.1 parsed = some verdict := by
  rw [VerifyBuffer_isValid_iff, and_iff_right himported, hkey, Option.bind_eq_some_iff]
  simp only [VerificationKey.parse, Option.filter_eq_some_iff, decide_eq_true_iff, BufferReads,
    and_assoc]

/-- Only one signature is in a packet, so a verdict is about it. -/
theorem exists_parsed_iff {parsed : ParsedSignature} {p : ParsedSignature → Prop}
    (hparsed : (signaturePacketBody signaturePacketBytes).bind parseSignaturePacketBody =
      some parsed) :
    (∃ parsed, (signaturePacketBody signaturePacketBytes).bind parseSignaturePacketBody =
      some parsed ∧ p parsed) ↔ p parsed := by
  constructor
  · rintro ⟨parsed', hparsed', hp⟩
    obtain rfl := Option.some.inj (hparsed.symm.trans hparsed')
    exact hp
  · exact fun hp => ⟨parsed, hparsed, hp⟩

/-- With the master key in both calls, the readings decide: a library that
always answers gives one answer to both. -/
theorem verdicts_eq_iff {content signature : Buffer} {parsed : ParsedSignature}
    (himported : impl.peerKeyImported = true)
    (hparsed : (signaturePacketBody signature.1).bind parseSignaturePacketBody = some parsed)
    (hmaster : IssuedByMaster impl signature.1) {verdict : Bool}
    (hanswer : impl.peerMasterKey.answer P content.1 parsed = some verdict) :
    (VerifyFile P onProgress content.1 signature.1 impl).isValid =
        (VerifyBuffer P content signature impl).isValid ↔
      (Uncancelled onProgress content.1.length 0 content.1 ∧
          FileReads impl.peerMasterKey signature.1 parsed ↔
        BufferReads impl.peerMasterKey parsed) := by
  rw [Option.ext_iff]
  simp only [VerifyFile_isValid_eq_some_iff himported,
    VerifyBuffer_isValid_eq_some_iff himported hmaster.select, exists_parsed_iff hparsed,
    hanswer]
  constructor
  · intro hsame
    simpa using hsame verdict
  · intro hreads other
    rw [hreads]

/-- A library that accepts whatever is checked with one key, and nothing else. -/
def acceptsOnly (accepted : VerificationKey) : Primitives where
  __ := standIn
  rsaVerify key _ _ := some (decide (VerificationKey.rsa key = accepted))
  ed25519Verify key _ _ := decide (VerificationKey.ed25519 key = accepted)

theorem answer_acceptsOnly (accepted key : VerificationKey) (documentData : Bytes)
    (parsed : ParsedSignature) :
    key.answer (acceptsOnly accepted) documentData parsed = some (decide (key = accepted)) := by
  cases key <;> rfl

theorem answer_ne_none (key : VerificationKey)
    (hanswers : ∀ key signed value, P.rsaVerify key signed value ≠ none) (documentData : Bytes)
    (parsed : ParsedSignature) : key.answer P documentData parsed ≠ none := by
  cases key with
  | rsa key => exact hanswers key _ _
  | ed25519 => exact Option.some_ne_none _

theorem VerifyFile_isValid_of_not_parsed
    (hparsed : (signaturePacketBody signaturePacketBytes).bind parseSignaturePacketBody = none)
    (himported : impl.peerKeyImported = true) :
    (VerifyFile P onProgress content signaturePacketBytes impl).isValid = none := by
  apply Option.eq_none_iff_forall_not_mem.mpr
  intro verdict hverdict
  obtain ⟨parsed, hsome, -⟩ := (VerifyFile_isValid_eq_some_iff himported verdict).mp hverdict
  rw [hparsed] at hsome
  cases hsome

theorem VerifyBuffer_isValid_of_not_parsed {content signature : Buffer}
    (hparsed : (signaturePacketBody signature.1).bind parseSignaturePacketBody = none)
    (himported : impl.peerKeyImported = true) :
    (VerifyBuffer P content signature impl).isValid = none := by
  apply Option.eq_none_iff_forall_not_mem.mpr
  intro verdict hverdict
  obtain ⟨parsed, hsome, -⟩ :=
    (VerifyBuffer_isValid_eq_some_iff himported rfl verdict).mp hverdict
  rw [hparsed] at hsome
  cases hsome

/-- Where both calls use the master key, they agree if they read alike. -/
theorem ReadAlike.verdicts_eq {content signature : Buffer}
    (himported : impl.peerKeyImported = true)
    (h : ReadAlike impl signature.1 (Uncancelled onProgress content.1.length 0 content.1)) :
    (VerifyFile P onProgress content.1 signature.1 impl).isValid =
      (VerifyBuffer P content signature impl).isValid := by
  cases hparsed : (signaturePacketBody signature.1).bind parseSignaturePacketBody with
  | none =>
      rw [VerifyFile_isValid_of_not_parsed hparsed himported,
        VerifyBuffer_isValid_of_not_parsed hparsed himported]
  | some parsed =>
      obtain ⟨hmaster, hsubkey⟩ := h parsed hparsed
      apply Option.ext
      intro verdict
      by_cases hissuer : IssuedByMaster impl signature.1
      · rw [VerifyFile_isValid_eq_some_iff himported,
          VerifyBuffer_isValid_eq_some_iff himported hissuer.select, exists_parsed_iff hparsed,
          exists_parsed_iff hparsed, hmaster hissuer]
      · -- the two keys are different, and neither of the two is ever asked
        rw [IssuedByMaster, not_forall] at hissuer
        obtain ⟨key, hissuer⟩ := hissuer
        obtain ⟨hissued, hother⟩ := Classical.not_imp.mp hissuer
        obtain ⟨hfile, hbuffer⟩ := hsubkey key hissued hother
        rw [VerifyFile_isValid_eq_some_iff himported,
          VerifyBuffer_isValid_eq_some_iff himported hissued.select, exists_parsed_iff hparsed,
          exists_parsed_iff hparsed]
        exact iff_of_false (fun hverdict => hfile hverdict.1) (fun hverdict => hbuffer hverdict.1)

/-- If two keys disagree about every signature, equal verdicts are none. -/
theorem not_reads_of_verdicts_eq {content signature : Buffer} {parsed : ParsedSignature}
    {key : VerificationKey} (himported : impl.peerKeyImported = true)
    (hparsed : (signaturePacketBody signature.1).bind parseSignaturePacketBody = some parsed)
    (hissued : IssuedBySubkey impl signature.1 key) (hother : key ≠ impl.peerMasterKey)
    (hsame : (VerifyFile (acceptsOnly impl.peerMasterKey) onProgress content.1 signature.1
        impl).isValid =
      (VerifyBuffer (acceptsOnly impl.peerMasterKey) content signature impl).isValid) :
    ¬ (Uncancelled onProgress content.1.length 0 content.1 ∧
        FileReads impl.peerMasterKey signature.1 parsed) ∧ ¬ BufferReads key parsed := by
  rw [Option.ext_iff] at hsame
  simp only [VerifyFile_isValid_eq_some_iff himported,
    VerifyBuffer_isValid_eq_some_iff himported hissued.select, exists_parsed_iff hparsed,
    answer_acceptsOnly, decide_true] at hsame
  constructor
  · intro hfile
    have hvalid := (hsame true).mp ⟨hfile, rfl⟩
    exact hother (of_decide_eq_true (Option.some.inj hvalid.2))
  · intro hbuffer
    have hinvalid := (hsame false).mpr ⟨hbuffer, by rw [decide_eq_false hother]⟩
    cases hinvalid.2

/-- The two calls have the same verdict, whatever the library answers, exactly
if they read the packet alike. For a packet that no other subkey has issued,
that is so of every library that does not refuse keys. -/
theorem sameVerdict_iff (content signature : Buffer) :
    (SameVerdict onProgress content signature impl ↔
      (impl.peerKeyImported = true →
        ReadAlike impl signature.1 (Uncancelled onProgress content.1.length 0 content.1))) ∧
    ∀ P : Primitives, (∀ key signed value, P.rsaVerify key signed value ≠ none) →
      impl.peerKeyImported = true → IssuedByMaster impl signature.1 →
      ((VerifyFile P onProgress content.1 signature.1 impl).isValid =
          (VerifyBuffer P content signature impl).isValid ↔
        ReadAlike impl signature.1 (Uncancelled onProgress content.1.length 0 content.1)) := by
  constructor
  · constructor
    · intro hsame himported parsed hparsed
      constructor
      · intro hmaster
        exact (verdicts_eq_iff himported hparsed hmaster (answer_acceptsOnly ..)).mp
          (hsame (acceptsOnly impl.peerMasterKey))
      · intro key hissued hother
        exact not_reads_of_verdicts_eq himported hparsed hissued hother (hsame _)
    · intro hcondition P
      by_cases himported : impl.peerKeyImported = true
      · exact (hcondition himported).verdicts_eq himported
      · rw [VerifyFile, VerifyBuffer, if_pos (Bool.not_eq_true _ ▸ himported),
          if_pos (Or.inl (Bool.not_eq_true _ ▸ himported))]
  · intro P hanswers himported hmaster
    constructor
    · intro hsame parsed hparsed
      obtain ⟨verdict, hverdict⟩ := Option.ne_none_iff_exists'.mp
        (answer_ne_none impl.peerMasterKey hanswers content.1 parsed)
      refine ⟨fun _ => (verdicts_eq_iff himported hparsed hmaster hverdict).mp hsame, ?_⟩
      intro key hissued hother
      exact absurd (hmaster key hissued) hother
    · exact fun hcondition => hcondition.verdicts_eq himported

end Agreement

/-! ### A signature of the master key, and one that names the wrong digest -/

/-- What an engine knows of the master key after it has imported a published block. -/
theorem Published.import_master {P : Primitives} {owner : Impl} {block : Buffer}
    (h : Published P owner block) (now : UInt32) (before : Impl) :
    (ImportPeerPublicKey P now block before).2.peerMasterKey = owner.masterVerificationKey ∧
      (ImportPeerPublicKey P now block before).2.peerMasterKeyId = owner.ownMasterKeyId := by
  rw [h.import]
  exact ⟨(importPeer_exported before owner now).1, (importPeer_exported before owner now).2.1⟩

/-- A packet that names the master key names no subkey. -/
theorem issuedByMaster_of_keyId (hissuer : findIssuerKeyIdOfSignaturePacket signaturePacketBytes =
      some impl.peerMasterKeyId.1) : IssuedByMaster impl signaturePacketBytes := by
  rintro key ⟨issuerKeyId, subkey, hnamed, hother, -⟩
  exact absurd (Option.some.inj (hnamed.symm.trans hissuer)) hother

/-- What the master key has signed is verified alike, by every library. -/
theorem sameVerdict_iff_shortLived :
    SameVerdict (fun _ _ => true) ⟨ascii "hi", by decide⟩ shortLivedSignature
        shortLivedVerifier ∧
      (VerifyFile standIn (fun _ _ => true) (ascii "hi") shortLivedSignature.1
          shortLivedVerifier).isValid =
        (VerifyBuffer standIn ⟨ascii "hi", by decide⟩ shortLivedSignature
          shortLivedVerifier).isValid := by
  obtain ⟨hkey, hkeyId⟩ := shortLivedOwner_published.import_master 1500
    (Impl.new PGP_KEY_ALGORITHM_RSA 1024)
  have halgorithm : shortLivedOwner.keyAlgorithm = PGP_KEY_ALGORITHM_RSA := by decide +kernel
  rw [Impl.masterVerificationKey, halgorithm] at hkey
  have himported : shortLivedVerifier.peerKeyImported = true := by
    rw [shortLivedVerifier, shortLivedOwner_published.import]
    decide +kernel
  have hmaster : IssuedByMaster shortLivedVerifier shortLivedSignature.1 := by
    apply issuedByMaster_of_keyId
    rw [shortLivedVerifier, hkeyId]
    decide +kernel
  have hreads : ReadAlike shortLivedVerifier shortLivedSignature.1
      (Uncancelled (fun _ _ => true) (ascii "hi").length 0 (ascii "hi")) := by
    intro parsed hparsed
    constructor
    · have hoctets : ((signaturePacketBody shortLivedSignature.1).bind
          parseSignaturePacketBody).map
            (fun parsed => (parsed.pkAlgorithm, parsed.hashAlgorithm)) = some (PGP_ALGO_RSA, 8) := by
        decide +kernel
      rw [hparsed, Option.map_some, Option.some.injEq, Prod.mk.injEq] at hoctets
      rw [shortLivedVerifier, hkey]
      exact fun _ => iff_of_true ⟨fun i _ => rfl, by decide +kernel, trivial⟩ hoctets
    · intro key hissued hother
      exact absurd (hmaster key hissued) hother
  constructor
  · exact (sameVerdict_iff _ _).1.mpr fun _ => hreads
  · exact ((sameVerdict_iff ⟨ascii "hi", _⟩ _).2 standIn (fun _ _ _ => Option.some_ne_none _)
      himported hmaster).mpr hreads

/-- A signature whose hash octet says SHA-512; RSA signatures are over SHA-256. -/
def misnamedSignature : Buffer :=
  ⟨shortLivedSignature.1.set 5 10, by decide +kernel⟩

/-- The file call finds it valid, the call on buffers refuses the packet. -/
theorem misnamedSignature_verdicts :
    (VerifyFile standIn (fun _ _ => true) (ascii "hi") misnamedSignature.1
        shortLivedVerifier).isValid = some true ∧
      (VerifyBuffer standIn ⟨ascii "hi", by decide⟩ misnamedSignature
        shortLivedVerifier).isValid = none := by
  rw [shortLivedVerifier, shortLivedOwner_published.import]
  decide +kernel

end HashCryptoLib.Pgp
