import HashCryptoLib.Pgp.FileRoundTrip
import HashCryptoLib.Pgp.SignedRoundTrip

/-!
Signing a file. The file is hashed piece by piece, always with the master key, and the signature
is complete before the file it goes to is created: a call that fails has changed nothing, unless
it was the last write that failed. What is written is the signature that would be made in memory,
so both verifying calls accept it wherever the signer's block has been imported.
-/

namespace HashCryptoLib.Pgp

open BigEndian Chunks Cursor

/-! ### Signing -/

section Signing

variable (P : Primitives) (onProgress : ℕ → ℕ → Bool) (now : UInt32)

/-- The signer and the digest for the quick check are fed the same octets. -/
def signFileStreaming (signingKey : RsaPrivateKey) (issuerKeyId : Octets 8) (content : Bytes) :
    Except Status Bytes :=
  let hashedSubpackets := appendSubpacket 2 (appendBigEndian32 now.toNat)
  let unhashedSubpackets := appendSubpacket 16 issuerKeyId.1
  match updateFromFile onProgress content with
  | .error status => .error status
  | .ok hashed =>
    let updated := hashed ++ trailerSuffix 0x00 1 8 hashedSubpackets
    match P.rsaSign signingKey updated with
    | none => .error UNEXPECTED_ERROR
    | some rawSignature =>
      .ok (writePacket PGP_TAG_SIGNATURE
        (signatureBody 0x00 1 8 hashedSubpackets unhashedSubpackets (P.sha256 updated).1
          (encodeMpi (ofOctets rawSignature.1))))

def signEd25519FileStreaming (privateKey : Octets 32) (issuerKeyId : Octets 8) (content : Bytes) :
    Except Status Bytes :=
  let hashedSubpackets := appendSubpacket 2 (appendBigEndian32 now.toNat)
  let unhashedSubpackets := appendSubpacket 16 issuerKeyId.1
  match updateFromFile onProgress content with
  | .error status => .error status
  | .ok hashed =>
    let hash := P.sha512 (hashed ++ trailerSuffix 0 PGP_ALGO_EDDSA 10 hashedSubpackets)
    let signature := P.ed25519Sign privateKey hash.1
    .ok (writePacket PGP_TAG_SIGNATURE
      (signatureBody 0 PGP_ALGO_EDDSA 10 hashedSubpackets unhashedSubpackets hash.1
        (encodeMpi (ofOctets (signature.1.take 32)) ++
          encodeMpi (ofOctets (signature.1.drop 32)))))

/-- The master key signs files, whichever subkeys there are. -/
def signFileWithOwnMasterKey (impl : Impl) (content : Bytes) : Except Status Bytes :=
  match impl.keyAlgorithm with
  | PGP_KEY_ALGORITHM_RSA =>
    signFileStreaming P onProgress now impl.ownMasterPrivateKey impl.ownMasterKeyId content
  | PGP_KEY_ALGORITHM_ED25519_X25519 =>
    signEd25519FileStreaming P onProgress now impl.ownEd25519PrivateKey impl.ownMasterKeyId content

/-- The status, and the files afterwards. The input file is still open for reading when the
signature file is created. -/
def SignFile (password inputFilePath signatureFilePath : Bytes) (impl : Impl) (files : FileSystem)
    (env : EncryptFileEnv) : Status × FileSystem :=
  if rejects P impl password then (INVALID_ARGUMENT, files)
  else
    match env.widePath inputFilePath, env.widePath signatureFilePath with
    | some inputPath, some signaturePath =>
      match (files inputPath).filter fun _ => env.openInput with
      | none => (FILE_IO_ERROR, files)
      | some content =>
        match signFileWithOwnMasterKey P env.onProgress now impl content with
        | .error status => (status, files)
        | .ok signaturePacket =>
          if env.createOutput = false ∨ signaturePath = inputPath then (FILE_IO_ERROR, files)
          else
            finishOutput env signaturePath (writeFileExact env.toOutputEnv [] signaturePacket) files
    | _, _ => (INVALID_ARGUMENT, files)

end Signing

/-! ### What is signed -/

section Packet

variable {P : Primitives} {onProgress : ℕ → ℕ → Bool} {now : UInt32} {content : Bytes}

theorem hashedSubpacketsOf_nil (now : UInt32) :
    hashedSubpacketsOf now [] = appendSubpacket 2 (appendBigEndian32 now.toNat) :=
  List.append_nil _

/-- A file that is read to its end is signed as it would be in memory; no packet is what an
exception leaves. -/
theorem signFileStreaming_of_read (h : updateFromFile onProgress content = .ok content)
    (signingKey : RsaPrivateKey) (issuerKeyId : Octets 8) :
    signFileStreaming P onProgress now signingKey issuerKeyId content =
      let packet := buildSignaturePacket P signingKey 0 content [] issuerKeyId now
      if packet = [] then .error UNEXPECTED_ERROR else .ok packet := by
  rw [signFileStreaming, h]
  dsimp only
  rw [append_trailerSuffix, ← hashedSubpacketsOf_nil, buildSignaturePacket]
  cases P.rsaSign signingKey (toBeHashed content 0 1 8 (hashedSubpacketsOf now [])) with
  | none => rfl
  | some rawSignature => exact (if_neg (writePacket_ne_nil _ _)).symm

theorem signEd25519FileStreaming_of_read (h : updateFromFile onProgress content = .ok content)
    (privateKey : Octets 32) (issuerKeyId : Octets 8) :
    signEd25519FileStreaming P onProgress now privateKey issuerKeyId content =
      .ok (buildEd25519SignaturePacket P privateKey 0 content [] issuerKeyId now) := by
  rw [signEd25519FileStreaming, h]
  dsimp only
  rw [append_trailerSuffix, ← hashedSubpacketsOf_nil]
  rfl

/-- Signing ends with the packet that is made in memory, with an exception where none is made, or
with the cancellation. -/
theorem signFileWithOwnMasterKey_cases (P : Primitives) (onProgress : ℕ → ℕ → Bool)
    (now : UInt32) (impl : Impl) (content : Bytes) :
    (Uncancelled onProgress content.length 0 content ∧
      signFileWithOwnMasterKey P onProgress now impl content =
        let packet := impl.masterSigningKey.sign P 0 content [] now
        if packet = [] then .error UNEXPECTED_ERROR else .ok packet) ∨
    (¬ Uncancelled onProgress content.length 0 content ∧
      signFileWithOwnMasterKey P onProgress now impl content = .error OPERATION_CANCELLED) := by
  rw [masterSigningKey_sign, signWithOwnMasterKey, signFileWithOwnMasterKey]
  rcases updateFromFile_cases onProgress content with ⟨hread, hgoes⟩ | ⟨hread, hstopped⟩
  · refine .inl ⟨hgoes, ?_⟩
    cases impl.keyAlgorithm with
    | PGP_KEY_ALGORITHM_RSA => exact signFileStreaming_of_read hread _ _
    | PGP_KEY_ALGORITHM_ED25519_X25519 =>
        exact (signEd25519FileStreaming_of_read hread _ _).trans
          (if_neg (buildEd25519SignaturePacket_ne_nil P _ 0 content [] _ now)).symm
  · refine .inr ⟨hstopped, ?_⟩
    cases impl.keyAlgorithm with
    | PGP_KEY_ALGORITHM_RSA =>
        dsimp only
        rw [signFileStreaming, hread]
    | PGP_KEY_ALGORITHM_ED25519_X25519 =>
        dsimp only
        rw [signEd25519FileStreaming, hread]

theorem signFileWithOwnMasterKey_ok_iff {impl : Impl} {packet : Bytes} :
    signFileWithOwnMasterKey P onProgress now impl content = .ok packet ↔
      Uncancelled onProgress content.length 0 content ∧ packet ≠ [] ∧
        packet = impl.masterSigningKey.sign P 0 content [] now := by
  rcases signFileWithOwnMasterKey_cases P onProgress now impl content with
    ⟨hgoes, hsigned⟩ | ⟨hstopped, hsigned⟩
  · rw [hsigned, and_iff_right hgoes]
    dsimp only
    constructor
    · intro h
      split_ifs at h with hempty
      obtain rfl := Except.ok.inj h
      exact ⟨hempty, rfl⟩
    · rintro ⟨hne, rfl⟩
      rw [if_neg hne]
  · rw [hsigned]
    exact iff_of_false (fun h => by cases h) (fun h => hstopped h.1)

/-- The statuses of a file that was opened and not signed. -/
theorem signFileWithOwnMasterKey_error {impl : Impl} {status : Status}
    (h : signFileWithOwnMasterKey P onProgress now impl content = .error status) :
    status ≠ NO_ERROR := by
  rcases signFileWithOwnMasterKey_cases P onProgress now impl content with
    ⟨-, hsigned⟩ | ⟨-, hsigned⟩
  · rw [h] at hsigned
    dsimp only at hsigned
    split_ifs at hsigned
    obtain rfl := Except.error.inj hsigned
    simp
  · obtain rfl := Except.error.inj (h.symm.trans hsigned)
    simp

end Packet

/-! ### What the call leaves -/

section Calls

variable {P : Primitives} {now : UInt32} {password inputFilePath signatureFilePath : Bytes}
  {impl : Impl} {files files' : FileSystem} {env : EncryptFileEnv} {content : Bytes}
  {signaturePath : WidePath}

/-- Success, a failure that has changed nothing, or a failure of the write. -/
theorem SignFile_cases (P : Primitives) (now : UInt32)
    (password inputFilePath signatureFilePath : Bytes) (impl : Impl) (files : FileSystem)
    (env : EncryptFileEnv) :
    (∃ content signaturePath,
      OpensFor env inputFilePath signatureFilePath files content signaturePath ∧
      rejects P impl password = false ∧ Uncancelled env.onProgress content.length 0 content ∧
      impl.masterSigningKey.sign P 0 content [] now ≠ [] ∧
      (SignFile P now password inputFilePath signatureFilePath impl files env =
          (NO_ERROR, Function.update files signaturePath
            (some (impl.masterSigningKey.sign P 0 content [] now))) ∨
        env.write [] (impl.masterSigningKey.sign P 0 content [] now) = false ∧
        SignFile P now password inputFilePath signatureFilePath impl files env =
          (FILE_IO_ERROR, Function.update files signaturePath env.outputAfterDelete))) ∨
    ∃ status, status ≠ NO_ERROR ∧
      SignFile P now password inputFilePath signatureFilePath impl files env = (status, files) := by
  rw [SignFile]
  by_cases hrejects : rejects P impl password = true
  · rw [if_pos hrejects]
    exact .inr ⟨_, by simp, rfl⟩
  rw [if_neg hrejects]
  cases hinput : env.widePath inputFilePath with
  | none => exact .inr ⟨_, by simp, rfl⟩
  | some inputPath =>
  cases hsignature : env.widePath signatureFilePath with
  | none => exact .inr ⟨_, by simp, rfl⟩
  | some signaturePath =>
  dsimp only
  cases hopen : (files inputPath).filter fun _ => env.openInput with
  | none => exact .inr ⟨_, by simp, rfl⟩
  | some content =>
  dsimp only
  cases hsigned : signFileWithOwnMasterKey P env.onProgress now impl content with
  | error status => exact .inr ⟨status, signFileWithOwnMasterKey_error hsigned, rfl⟩
  | ok signaturePacket =>
  dsimp only
  by_cases hcreate : env.createOutput = false ∨ signaturePath = inputPath
  · rw [if_pos hcreate]
    exact .inr ⟨_, by simp, rfl⟩
  rw [if_neg hcreate]
  obtain ⟨hgoes, hne, rfl⟩ := signFileWithOwnMasterKey_ok_iff.mp hsigned
  have hcontent := (Option.filter_eq_some_iff.mp hopen).1
  refine .inl ⟨content, signaturePath,
    ⟨hsignature, inputPath, hinput, hcontent, (not_or.mp hcreate).2⟩,
    Bool.eq_false_iff.mpr hrejects, hgoes, hne, ?_⟩
  rw [writeFileExact]
  by_cases hwrite : impl.masterSigningKey.sign P 0 content [] now = [] ∨
      env.write [] (impl.masterSigningKey.sign P 0 content [] now) = true
  · rw [if_pos hwrite]
    exact .inl rfl
  · rw [if_neg hwrite]
    exact .inr ⟨Bool.eq_false_iff.mpr (not_or.mp hwrite).2, rfl⟩

/-- What is in the signature file of a call that succeeded. -/
theorem SignFile_written {signature : Bytes}
    (hopens : OpensFor env inputFilePath signatureFilePath files content signaturePath)
    (hsigned : SignFile P now password inputFilePath signatureFilePath impl files env =
      (NO_ERROR, files')) (hfile : files' signaturePath = some signature) :
    signature = impl.masterSigningKey.sign P 0 content [] now ∧ signature ≠ [] := by
  obtain ⟨content', signaturePath', hopens', -, -, hne, hcall | ⟨-, hcall⟩⟩ |
    ⟨status, hstatus, hcall⟩ :=
      SignFile_cases P now password inputFilePath signatureFilePath impl files env
  · obtain ⟨rfl, rfl⟩ := hopens.unique hopens'
    obtain rfl := (Prod.mk.inj (hsigned.symm.trans hcall)).2
    rw [Function.update_self] at hfile
    obtain rfl := Option.some.inj hfile
    exact ⟨rfl, hne⟩
  · cases (Prod.mk.inj (hsigned.symm.trans hcall)).1
  · exact absurd (Prod.mk.inj (hsigned.symm.trans hcall)).1 hstatus.symm

/-- Where both files can be opened and written, the call signs exactly for the right password, and
if the caller never stops it. -/
theorem SignFile_noError_iff (hlawful : P.Lawful) (hreachable : Reachable P impl)
    (hopens : OpensFor env inputFilePath signatureFilePath files content signaturePath)
    (hopened : env.openInput = true) (hcreated : env.createOutput = true)
    (hwrite : ∀ written piece, env.write written piece = true) :
    SignFile P now password inputFilePath signatureFilePath impl files env = (NO_ERROR, files') ↔
      rejects P impl password = false ∧ Uncancelled env.onProgress content.length 0 content ∧
        files' = Function.update files signaturePath
          (some (impl.masterSigningKey.sign P 0 content [] now)) := by
  constructor
  · intro hcall
    obtain ⟨content', signaturePath', hopens', haccepted, hgoes, -, hcall' | ⟨-, hcall'⟩⟩ |
      ⟨status, hstatus, hcall'⟩ :=
        SignFile_cases P now password inputFilePath signatureFilePath impl files env
    · obtain ⟨rfl, rfl⟩ := hopens.unique hopens'
      exact ⟨haccepted, hgoes, (Prod.mk.inj (hcall.symm.trans hcall')).2⟩
    · cases (Prod.mk.inj (hcall.symm.trans hcall')).1
    · exact absurd (Prod.mk.inj (hcall.symm.trans hcall')).1 hstatus.symm
  · rintro ⟨haccepted, hgoes, rfl⟩
    obtain ⟨hsignature, inputPath, hinput, hcontent, hne⟩ := hopens
    have hmaster := hreachable.ownKeysGenerated.master (ownKeyGenerated_of_not_rejects haccepted)
    have hsigned := signFileWithOwnMasterKey_ok_iff.mpr
      ⟨hgoes, SigningKey.Generated.sign_ne_nil hlawful hmaster 0 content [] now, rfl⟩
    simp only [SignFile, haccepted, Bool.false_eq_true, if_false, hinput, hsignature, hcontent,
      hopened, Option.filter_some, if_true, hsigned, hcreated, Bool.true_eq_false, hne, or_self,
      writeFileExact, hwrite, or_true, List.nil_append, finishOutput]

/-- A call ends with a signature over the whole input file that verifies under the own master
key, and that is written to the signature file or lost with it in the write; or it fails and has
changed no file. -/
theorem SignFile_outcome (hlawful : P.Lawful) (hreachable : Reachable P impl) (now : UInt32)
    (password inputFilePath signatureFilePath : Bytes) (files : FileSystem)
    (env : EncryptFileEnv) :
    (∃ content signaturePath signature,
      OpensFor env inputFilePath signatureFilePath files content signaturePath ∧
      impl.masterVerificationKey.verify P content signature = some true ∧
      (SignFile P now password inputFilePath signatureFilePath impl files env =
          (NO_ERROR, Function.update files signaturePath (some signature)) ∨
        env.write [] signature = false ∧
        SignFile P now password inputFilePath signatureFilePath impl files env =
          (FILE_IO_ERROR, Function.update files signaturePath env.outputAfterDelete))) ∨
    ∃ status, status ≠ NO_ERROR ∧
      SignFile P now password inputFilePath signatureFilePath impl files env = (status, files) := by
  obtain ⟨content, signaturePath, hopens, haccepted, -, hsigned, hcall⟩ | hunchanged :=
    SignFile_cases P now password inputFilePath signatureFilePath impl files env
  · have hmaster := hreachable.ownKeysGenerated.master (ownKeyGenerated_of_not_rejects haccepted)
    exact .inl ⟨content, signaturePath, _, hopens,
      SigningKey.verify_sign hlawful hmaster (by simp) hsigned, hcall⟩
  · exact .inr hunchanged

theorem shortLivedOwner_signs (content : Bytes) :
    SignFile standIn 1500 (ascii "pw") (ascii "a") (ascii "c") shortLivedOwner (fileAtA content)
        servingSendEnv.toEncryptFileEnv =
      (NO_ERROR, Function.update (fileAtA content) [99]
        (some (shortLivedOwner.masterSigningKey.sign standIn 0 content [] 1500))) := by
  have hserves := (servingSendEnv_serves content).toServes
  apply (SignFile_noError_iff standIn_lawful shortLivedOwner_published.reachable
    hserves.toOpensFor hserves.opened hserves.created hserves.unfailing.write).mpr
  refine ⟨rejects_eq_false shortLivedOwner_published.generated (by decide)
    shortLivedOwner_password, ?_, rfl⟩
  exact fun i _ => hserves.unfailing.onProgress _ _

/-- A short text, signed. -/
theorem SignFile_outcome_hi : ∃ signature,
    shortLivedOwner.masterVerificationKey.verify standIn (ascii "hi") signature = some true ∧
      SignFile standIn 1500 (ascii "pw") (ascii "a") (ascii "c") shortLivedOwner
          (fileAtA (ascii "hi")) servingSendEnv.toEncryptFileEnv =
        (NO_ERROR, Function.update (fileAtA (ascii "hi")) [99] (some signature)) := by
  have hopens := (servingSendEnv_serves (ascii "hi")).toOpensFor
  have hsigned := shortLivedOwner_signs (ascii "hi")
  obtain ⟨content, signaturePath, signature, hopens', hvalid, hcall | ⟨hwrite, -⟩⟩ |
    ⟨status, hstatus, hcall⟩ :=
      SignFile_outcome standIn_lawful shortLivedOwner_published.reachable 1500 (ascii "pw")
        (ascii "a") (ascii "c") (fileAtA (ascii "hi")) servingSendEnv.toEncryptFileEnv
  · obtain ⟨rfl, rfl⟩ := hopens.unique hopens'
    exact ⟨signature, hvalid, hcall⟩
  · cases hwrite
  · exact absurd (Prod.mk.inj (hsigned.symm.trans hcall)).1 hstatus.symm

/-! ### Verifying what was signed -/

/-- A packet that was written is all of its file. -/
theorem exactSignaturePacketBody_writePacket {body : Bytes} (hbody : body.length < 2 ^ 32) :
    exactSignaturePacketBody (writePacket PGP_TAG_SIGNATURE body) = some body := by
  obtain ⟨bodyPos, hread, hat⟩ := readPacketHeader_writePacket (by decide) hbody
    (at_whole (writePacket PGP_TAG_SIGNATURE body))
  have hlength := hat.length_eq
  rw [List.append_nil] at hlength
  rw [exactSignaturePacketBody, hread none false]
  dsimp only
  rw [if_neg (by simp [hlength]), hat.drop_eq, List.append_nil]

theorem signatureType_of_parse {body : Bytes} {parsed : ParsedSignature}
    (h : parseSignaturePacketBody body = some parsed) : body[1]? = some parsed.signatureType := by
  unfold parseSignaturePacketBody at h
  repeat' split at h
  all_goals first
    | cases h
      done
    | obtain rfl := Option.some.inj h
      rfl
    | obtain ⟨second, -, rfl⟩ := Option.map_eq_some_iff.mp h
      rfl

theorem Reachable.masterModulus_size (h : Reachable P impl) :
    impl.masterSigningKey.rsaKey.modulus.size ≤ 4096 :=
  h.wellFormed.privateModulus_size

/-- What the master key signs is taken by the file call, and found valid. -/
theorem answer_sign (hlawful : P.Lawful) (hreachable : Reachable P impl)
    (hgenerated : impl.ownKeyGenerated = true) (now : UInt32) (content : Bytes) :
    (impl.masterSigningKey.sign P 0 content [] now).length ≤ 65536 ∧
      (impl.masterVerificationKey.parseFile (impl.masterSigningKey.sign P 0 content [] now)).bind
        (impl.masterVerificationKey.answer P content) = some true := by
  have hmaster := hreachable.ownKeysGenerated.master hgenerated
  have hmodulus := hreachable.masterModulus_size
  have hsigned := SigningKey.Generated.sign_ne_nil hlawful hmaster 0 content [] now
  have hvalid := SigningKey.verify_sign hlawful hmaster (by simp) hsigned
  have hlength := SigningKey.length_sign P hmodulus 0 content now
  obtain ⟨leftHash, signatureMpis, -, hpacket, hbody⟩ := SigningKey.sign_eq P hmodulus hsigned
  rw [List.length_nil] at hbody
  have htype : (signatureBody 0 impl.masterSigningKey.pkAlgorithm
    impl.masterSigningKey.hashAlgorithm (hashedSubpacketsOf now [])
    (unhashedSubpacketsOf impl.masterSigningKey.keyId) leftHash signatureMpis)[1]? = some 0 := rfl
  rw [hpacket] at hvalid hlength ⊢
  generalize signatureBody 0 impl.masterSigningKey.pkAlgorithm
    impl.masterSigningKey.hashAlgorithm (hashedSubpacketsOf now [])
    (unhashedSubpacketsOf impl.masterSigningKey.keyId) leftHash signatureMpis = body at *
  have hwhole := signaturePacketBody_writePacket (hbody.trans_lt (by norm_num))
  have hexact := exactSignaturePacketBody_writePacket (hbody.trans_lt (by norm_num))
  refine ⟨by omega, ?_⟩
  rw [VerificationKey.verify_eq, Option.bind_eq_some_iff] at hvalid
  obtain ⟨parsed, hparsed, haccepts⟩ := hvalid
  rw [VerificationKey.parse, hwhole, Option.bind_some, Option.filter_eq_some_iff] at hparsed
  -- both readers read the same signature, which is of type 0
  have hdocument := Option.some.inj ((signatureType_of_parse hparsed.1).symm.trans htype)
  have hfile : impl.masterVerificationKey.parseFile (writePacket PGP_TAG_SIGNATURE body) =
      some parsed := by
    cases hkey : impl.masterVerificationKey with
    | rsa key =>
        rw [VerificationKey.parseFile, hwhole, Option.bind_some]
        exact hparsed.1
    | ed25519 key =>
        rw [hkey] at hparsed
        rw [VerificationKey.parseFile, hexact, Option.bind_some, Option.filter_eq_some_iff]
        have hkind := of_decide_eq_true hparsed.2
        exact ⟨hparsed.1, decide_eq_true ⟨hkind.1, hkind.2, hdocument⟩⟩
  rw [hfile, Option.bind_some, VerificationKey.answer]
  exact haccepts

section Verdict

variable {onProgress : ℕ → ℕ → Bool} {signature : Bytes} {verdict : Bool}

theorem verifyFileStreaming_of_isValid {verifyingKey : RsaPublicKey}
    (h : (verifyFileStreaming P onProgress verifyingKey content signature).isValid =
      some verdict) :
    verifyFileStreaming P onProgress verifyingKey content signature =
      { status := NO_ERROR, isValid := some verdict } := by
  rw [verifyFileStreaming] at h ⊢
  cases hparsed : (signaturePacketBody signature).bind parseSignaturePacketBody with
  | none =>
      rw [hparsed] at h
      cases h
  | some parsed =>
  cases hread : updateFromFile onProgress content with
  | error status =>
      simp only [hparsed, hread] at h
      cases h
  | ok hashed =>
  simp only [hparsed, hread] at h ⊢
  split at h
  · cases h
  · rename_i verified hverified
    obtain rfl := Option.some.inj h
    rfl

theorem verifyEd25519FileStreaming_of_isValid {publicKey : Octets 32}
    (h : (verifyEd25519FileStreaming P onProgress publicKey content signature).isValid =
      some verdict) :
    verifyEd25519FileStreaming P onProgress publicKey content signature =
      { status := NO_ERROR, isValid := some verdict } := by
  rw [verifyEd25519FileStreaming] at h ⊢
  cases hparsed : (exactSignaturePacketBody signature).bind parseSignaturePacketBody with
  | none =>
      rw [hparsed] at h
      cases h
  | some parsed =>
  cases hread : updateFromFile onProgress content with
  | error status =>
      simp only [hparsed, hread] at h
      split_ifs at h
  | ok hashed =>
  simp only [hparsed, hread] at h ⊢
  split_ifs at h ⊢ with hkind
  obtain rfl := Option.some.inj h
  rfl

/-- A verdict comes with success. -/
theorem VerifyFile_of_isValid
    (h : (VerifyFile P onProgress content signature impl).isValid = some verdict) :
    VerifyFile P onProgress content signature impl =
      { status := NO_ERROR, isValid := some verdict } := by
  rw [VerifyFile] at h ⊢
  split_ifs at h ⊢ with himported hlong
  cases halgorithm : impl.peerMasterAlgorithm with
  | PGP_KEY_ALGORITHM_RSA =>
      rw [halgorithm] at h
      exact verifyFileStreaming_of_isValid h
  | PGP_KEY_ALGORITHM_ED25519_X25519 =>
      rw [halgorithm] at h
      exact verifyEd25519FileStreaming_of_isValid h

end Verdict

/-- The signature names the master key, and whoever imported the block asks that key. -/
theorem verifyWithPeer_master (hlawful : P.Lawful) (hreachable : Reachable P impl)
    (hgenerated : impl.ownKeyGenerated = true) (importedAt now : UInt32) (verifier : Impl)
    (content : Bytes) :
    verifyWithPeer P (verifier.importPeer ((exportedIdentity impl).chooseSubkey importedAt)) content
      (impl.masterSigningKey.sign P 0 content [] now) = some true := by
  have hmaster := hreachable.ownKeysGenerated.master hgenerated
  have hsigned := SigningKey.Generated.sign_ne_nil hlawful hmaster 0 content [] now
  have hissuer := SigningKey.findIssuerKeyId_sign P hreachable.masterModulus_size hsigned
  have hown : impl.masterSigningKey.keyId.1 = impl.ownMasterKeyId.1 := rfl
  obtain ⟨hpeerKey, hpeerKeyId, -⟩ := importPeer_exported verifier impl importedAt
  rw [verifyWithPeer, selectPeerVerificationKeyMaterial, hissuer]
  dsimp only
  rw [hpeerKey, hpeerKeyId, if_pos hown]
  exact SigningKey.verify_sign hlawful hmaster (by simp) hsigned

variable {signer : Impl} {block : Buffer}

/-- What a call signed is found valid wherever the signer's block has been imported: by the file
call exactly if it is let through the file, and by the call on buffers. -/
theorem VerifyFile_SignFile_iff (hlawful : P.Lawful) (hpublished : Published P signer block)
    (hopens : OpensFor env inputFilePath signatureFilePath files content signaturePath)
    (hsigned : SignFile P now password inputFilePath signatureFilePath signer files env =
      (NO_ERROR, files')) {signature : Bytes} (hfile : files' signaturePath = some signature)
    (importedAt : UInt32) (verifier : Impl) :
    (∀ onProgress, VerifyFile P onProgress content signature
        (ImportPeerPublicKey P importedAt block verifier).2 =
          { status := NO_ERROR, isValid := some true } ↔
      Uncancelled onProgress content.length 0 content) ∧
    ∀ document packet : Buffer, document.1 = content → packet.1 = signature →
      VerifyBuffer P document packet (ImportPeerPublicKey P importedAt block verifier).2 =
        { status := NO_ERROR, isValid := some true } := by
  obtain ⟨rfl, hne⟩ := SignFile_written hopens hsigned hfile
  have hgenerated := hpublished.generated
  obtain ⟨hshort, hanswer⟩ := answer_sign hlawful hpublished.reachable hgenerated now content
  obtain ⟨hmaster, hmasterKeyId, -⟩ := importPeer_exported verifier signer importedAt
  rw [hpublished.import]
  constructor
  · intro onProgress
    constructor
    · intro hvalid
      have hverdict := congrArg Outcome.isValid hvalid
      exact ((VerifyFile_isValid_iff true).mp hverdict).2.2.1
    · intro hgoes
      apply VerifyFile_of_isValid
      rw [VerifyFile_isValid_iff, hmaster]
      exact ⟨rfl, hshort, hgoes, hanswer⟩
  · rintro document packet rfl hpacket
    have hpeer := verifyWithPeer_master hlawful hpublished.reachable hgenerated importedAt now
      verifier document.1
    rw [VerifyBuffer, if_neg (by simp [Impl.importPeer, hpacket, hne]), hpacket]
    simp only [hpeer]

/-- A short text, signed and verified. -/
theorem VerifyFile_SignFile_hi : ∃ files' signature,
    SignFile standIn 1500 (ascii "pw") (ascii "a") (ascii "c") shortLivedOwner
        (fileAtA (ascii "hi")) servingSendEnv.toEncryptFileEnv = (NO_ERROR, files') ∧
      files' [99] = some signature ∧
      ∀ verifier, VerifyFile standIn (fun _ _ => true) (ascii "hi") signature
        (ImportPeerPublicKey standIn 1500 shortLivedBlock verifier).2 =
          { status := NO_ERROR, isValid := some true } := by
  have hsigned := shortLivedOwner_signs (ascii "hi")
  have hfile : Function.update (fileAtA (ascii "hi")) [99]
      (some (shortLivedOwner.masterSigningKey.sign standIn 0 (ascii "hi") [] 1500)) [99] =
        some (shortLivedOwner.masterSigningKey.sign standIn 0 (ascii "hi") [] 1500) :=
    Function.update_self ..
  refine ⟨_, _, hsigned, hfile, fun verifier => ?_⟩
  have hvalid := (VerifyFile_SignFile_iff standIn_lawful shortLivedOwner_published
    (servingSendEnv_serves (ascii "hi")).toOpensFor hsigned hfile 1500 verifier).1
  exact (hvalid fun _ _ => true).mpr fun _ _ => rfl

end Calls

end HashCryptoLib.Pgp
