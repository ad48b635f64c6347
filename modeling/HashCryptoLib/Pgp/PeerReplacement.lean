import HashCryptoLib.Pgp.ClearSign
import HashCryptoLib.Pgp.EncryptionSizes
import HashCryptoLib.Pgp.FileVerification

/-!
Importing a peer replaces the one before. The import overwrites those of the flat
key fields that belong to the algorithms of the new block, and what stands in the
others is left over from the peer before. No call looks at it: each reads of the
peer's fields only what the last import has said.
-/

namespace HashCryptoLib.Pgp

open BigEndian

/-! ### The getters and the armored calls -/

def GetPeerUserIdCount (impl : Impl) : ℤ :=
  if impl.peerKeyImported = false then 0 else castInt impl.peerUserIds.length

/-- The import is not asked about: without one there are no user IDs. -/
def GetPeerUserId (userIdIndex : ℤ) (buffer : Option Int32) (impl : Impl) :
    Except Fault Outcome :=
  match atIndex impl.peerUserIds userIdIndex with
  | none => .ok { status := INVALID_ARGUMENT }
  | some uid => deliver buffer 0 uid.uidText

def GetPeerSubkeyCount (impl : Impl) : ℤ :=
  if impl.peerKeyImported = false then 0 else castInt impl.peerSubkeys.length

def hexDigits : Bytes := ascii "0123456789ABCDEF"

/-- The digits of a key ID, and the zero behind them. -/
def keyIdText (keyId : Octets 8) : Bytes :=
  keyId.1.flatMap (fun octet : UInt8 =>
    [hexDigits.getD (octet >>> 4).toNat 0, hexDigits.getD (octet &&& 0xF).toNat 0]) ++ [0]

/-- The buffer has to have room for sixteen digits and the zero. -/
def hasRoom (buffer : Option Int32) : Bool :=
  match buffer with
  | none => false
  | some capacity => 17 ≤ capacity.toInt

def GetPeerSubkeyKeyId (subkeyIndex : ℤ) (buffer : Option Int32) (impl : Impl) : Outcome :=
  if hasRoom buffer = false then { status := BUFFER_TOO_SMALL }
  else
    match atIndex impl.peerSubkeys subkeyIndex with
    | none => { status := INVALID_ARGUMENT }
    | some subkey => { status := NO_ERROR, output := keyIdText subkey.keyId }

def GetPeerKeyId (buffer : Option Int32) (impl : Impl) : Outcome :=
  if hasRoom buffer = false then { status := BUFFER_TOO_SMALL }
  else if impl.peerKeyImported = false then { status := NO_ERROR, output := [0] }
  else { status := NO_ERROR, output := keyIdText impl.peerMasterKeyId }

section Calls

variable (P : Primitives)

def EncryptAndSignStringArmored (env : MessageEnv) (password : Bytes) (inputString : Buffer)
    (buffer : Option Int32) (impl : Impl) : Except Fault Outcome :=
  if impl.peerKeyImported = false ∨ rejects P impl password then .ok { status := INVALID_ARGUMENT }
  else
    match buildEncryptedSignedMessageMultiRecipient P env impl.recipients
        (selectActiveSigningKeyMaterial impl) impl.symmetricCipherPreference.octet
        inputString.1 with
    | none => .ok { status := UNEXPECTED_ERROR }
    | some message =>
      deliver buffer (impl.recipients.length * 4) (armorEncode (ascii "PGP MESSAGE") message)

def DecryptAndVerifyStringArmored (password : Bytes) (inputString : Buffer) (buffer : Option Int32)
    (impl : Impl) : Except Fault Outcome :=
  if impl.peerKeyImported = false ∨ rejects P impl password ∨ inputString.1 = [] then
    .ok { status := INVALID_ARGUMENT }
  else
    match armorDecode inputString.1 with
    | none => .ok { status := INVALID_DATA }
    | some (_, message) =>
      match parseAndDecryptMessageWithAnyOwnSubkey P impl message true with
      | .error fault => .error fault
      | .ok (none, _) => .ok { status := INVALID_DATA }
      | .ok (some plaintext, signature) =>
        match verifyWithPeer P impl plaintext (signature.getD []) with
        | none => .ok { status := INVALID_DATA }
        | some verified =>
          (deliver buffer 0 plaintext).map fun outcome =>
            if outcome.status = NO_ERROR then { outcome with isValid := some verified } else outcome

/-- The key a file is verified with is the master's. -/
theorem VerifyFile_eq (onProgress : ℕ → ℕ → Bool) (content signaturePacketBytes : Bytes)
    (impl : Impl) :
    VerifyFile P onProgress content signaturePacketBytes impl =
      if impl.peerKeyImported = false then { status := INVALID_ARGUMENT }
      else if signaturePacketBytes.length > 65536 then { status := FILE_IO_ERROR }
      else
        match impl.peerMasterKey with
        | .rsa key => verifyFileStreaming P onProgress key content signaturePacketBytes
        | .ed25519 key => verifyEd25519FileStreaming P onProgress key content signaturePacketBytes := by
  rw [VerifyFile, Impl.peerMasterKey]
  cases impl.peerMasterAlgorithm <;> rfl

/-! ### What is asked of the peer -/

/-- The calls that have to do with the peer. The two that encrypt files choose the
recipients as the others do, and go on without the engine's state but for the
cipher preference. -/
inductive PeerCall
  | encryptFile
  | encryptBuffer (env : MessageEnv) (input : Buffer) (buffer : Option Int32)
  | encryptStringArmored (env : MessageEnv) (inputString : Buffer) (buffer : Option Int32)
  | encryptAndSignBuffer (env : MessageEnv) (password : Bytes) (input : Buffer)
      (buffer : Option Int32)
  | encryptAndSignStringArmored (env : MessageEnv) (password : Bytes) (inputString : Buffer)
      (buffer : Option Int32)
  | decryptAndVerifyBuffer (password : Bytes) (input : Buffer) (buffer : Option Int32)
  | decryptAndVerifyStringArmored (password : Bytes) (inputString : Buffer)
      (buffer : Option Int32)
  | verifyBuffer (input signature : Buffer)
  | verifyClearSignedString (clearSignedString : Buffer)
  | verifyFile (onProgress : ℕ → ℕ → Bool) (content signaturePacketBytes : Bytes)
  | getPeerUserIdCount
  | getPeerUserId (userIdIndex : ℤ) (buffer : Option Int32)
  | getPeerSubkeyCount
  | getPeerSubkeyKeyId (subkeyIndex : ℤ) (buffer : Option Int32)
  | getPeerKeyId (buffer : Option Int32)

inductive PeerAnswer
  | chosen (imported : Bool) (recipients : List PgpEncryptionRecipient) (cipher : UInt8)
  | outcome (outcome : Except Fault Outcome)
  | count (count : ℤ)

/-- What the caller gets. -/
def PeerCall.run (impl : Impl) : PeerCall → PeerAnswer
  | encryptFile =>
    .chosen impl.peerKeyImported impl.recipients impl.symmetricCipherPreference.octet
  | encryptBuffer env input buffer => .outcome (EncryptBuffer P env input buffer impl)
  | encryptStringArmored env inputString buffer =>
    .outcome (EncryptStringArmored P env inputString buffer impl)
  | encryptAndSignBuffer env password input buffer =>
    .outcome (EncryptAndSignBuffer P env password input buffer impl)
  | encryptAndSignStringArmored env password inputString buffer =>
    .outcome (EncryptAndSignStringArmored P env password inputString buffer impl)
  | decryptAndVerifyBuffer password input buffer =>
    .outcome (DecryptAndVerifyBuffer P password input buffer impl)
  | decryptAndVerifyStringArmored password inputString buffer =>
    .outcome (DecryptAndVerifyStringArmored P password inputString buffer impl)
  | verifyBuffer input signature => .outcome (.ok (VerifyBuffer P input signature impl))
  | verifyClearSignedString clearSignedString =>
    .outcome (.ok (VerifyClearSignedString P clearSignedString impl))
  | verifyFile onProgress content signaturePacketBytes =>
    .outcome (.ok (VerifyFile P onProgress content signaturePacketBytes impl))
  | getPeerUserIdCount => .count (GetPeerUserIdCount impl)
  | getPeerUserId userIdIndex buffer => .outcome (GetPeerUserId userIdIndex buffer impl)
  | getPeerSubkeyCount => .count (GetPeerSubkeyCount impl)
  | getPeerSubkeyKeyId subkeyIndex buffer =>
    .outcome (.ok (GetPeerSubkeyKeyId subkeyIndex buffer impl))
  | getPeerKeyId buffer => .outcome (.ok (GetPeerKeyId buffer impl))

end Calls

/-! ### What the calls read -/

/-- The peer as the calls see it. -/
structure PeerView where
  imported : Bool
  masterKey : VerificationKey
  masterKeyId : Octets 8
  recipient : PgpEncryptionRecipient
  userIds : List PgpPeerUserId
  subkeys : List PgpPeerSubkey

def Impl.peerView (impl : Impl) : PeerView where
  imported := impl.peerKeyImported
  masterKey := impl.peerMasterKey
  masterKeyId := impl.peerMasterKeyId
  recipient := impl.primaryRecipient
  userIds := impl.peerUserIds
  subkeys := impl.peerSubkeys

/-- The state but for the peer's fields. -/
def Impl.withoutPeer (impl : Impl) : Impl :=
  { impl with
    peerKeyImported := false
    peerMasterAlgorithm := PGP_KEY_ALGORITHM_RSA
    peerSubkeyAlgorithm := PGP_KEY_ALGORITHM_RSA
    peerMasterPublicKey := {}
    peerSubkeyPublicKey := {}
    peerEd25519PublicKey := Octets.zero 32
    peerX25519PublicKey := Octets.zero 32
    peerMasterKeyId := Octets.zero 8
    peerSubkeyKeyId := Octets.zero 8
    peerSubkeyFingerprint := Octets.zero 20
    peerUserIds := []
    peerSubkeys := [] }

/-- Two states that differ at most in the peer's fields, and there in nothing that
is read. -/
structure Alike (impl impl' : Impl) : Prop where
  own : impl.withoutPeer = impl'.withoutPeer
  view : impl.peerView = impl'.peerView

namespace Alike

variable {impl impl' : Impl} (h : Alike impl impl')

include h

theorem imported : impl.peerKeyImported = impl'.peerKeyImported :=
  congrArg PeerView.imported h.view

theorem masterKey : impl.peerMasterKey = impl'.peerMasterKey :=
  congrArg PeerView.masterKey h.view

theorem recipients : impl.recipients = impl'.recipients := by
  have hfirst : impl.primaryRecipient = impl'.primaryRecipient :=
    congrArg PeerView.recipient h.view
  have hadditional : impl.additionalRecipients = impl'.additionalRecipients := by
    show impl.withoutPeer.additionalRecipients = impl'.withoutPeer.additionalRecipients
    rw [h.own]
  rw [Impl.recipients, Impl.recipients, hfirst, hadditional]

theorem cipher : impl.symmetricCipherPreference = impl'.symmetricCipherPreference := by
  show impl.withoutPeer.symmetricCipherPreference = impl'.withoutPeer.symmetricCipherPreference
  rw [h.own]

theorem rejects (P : Primitives) (password : Bytes) :
    rejects P impl password = Pgp.rejects P impl' password := by
  show Pgp.rejects P impl.withoutPeer password = Pgp.rejects P impl'.withoutPeer password
  rw [h.own]

theorem signingKey :
    selectActiveSigningKeyMaterial impl = selectActiveSigningKeyMaterial impl' := by
  show selectActiveSigningKeyMaterial impl.withoutPeer =
    selectActiveSigningKeyMaterial impl'.withoutPeer
  rw [h.own]

theorem decrypts (P : Primitives) (message : Bytes) (wantSignature : Bool) :
    parseAndDecryptMessageWithAnyOwnSubkey P impl message wantSignature =
      parseAndDecryptMessageWithAnyOwnSubkey P impl' message wantSignature := by
  show parseAndDecryptMessageWithAnyOwnSubkey P impl.withoutPeer message wantSignature =
    parseAndDecryptMessageWithAnyOwnSubkey P impl'.withoutPeer message wantSignature
  rw [h.own]

theorem masterKeyId : impl.peerMasterKeyId = impl'.peerMasterKeyId :=
  congrArg PeerView.masterKeyId h.view

theorem userIds : impl.peerUserIds = impl'.peerUserIds :=
  congrArg PeerView.userIds h.view

theorem subkeys : impl.peerSubkeys = impl'.peerSubkeys :=
  congrArg PeerView.subkeys h.view

/-- The issuer of a signature names the same key. -/
theorem verifies (P : Primitives) (documentData signaturePacketBytes : Bytes) :
    verifyWithPeer P impl documentData signaturePacketBytes =
      verifyWithPeer P impl' documentData signaturePacketBytes := by
  rw [verifyWithPeer, verifyWithPeer, selectPeerVerificationKeyMaterial,
    selectPeerVerificationKeyMaterial, h.masterKey, h.masterKeyId, h.subkeys]

/-- Of the two flat master keys the call reads that of the master's algorithm. -/
theorem verifyFile (P : Primitives) (onProgress : ℕ → ℕ → Bool)
    (content signaturePacketBytes : Bytes) :
    VerifyFile P onProgress content signaturePacketBytes impl =
      VerifyFile P onProgress content signaturePacketBytes impl' := by
  rw [VerifyFile_eq, VerifyFile_eq, h.imported, h.masterKey]

/-- Every call answers the same. -/
theorem run (P : Primitives) (call : PeerCall) : call.run P impl = call.run P impl' := by
  cases call with
  | encryptFile => simp only [PeerCall.run, h.imported, h.recipients, h.cipher]
  | encryptBuffer env input buffer =>
      simp only [PeerCall.run, EncryptBuffer, h.imported, h.recipients, h.cipher]
  | encryptStringArmored env inputString buffer =>
      simp only [PeerCall.run, EncryptStringArmored, h.imported, h.recipients, h.cipher]
  | encryptAndSignBuffer env password input buffer =>
      simp only [PeerCall.run, EncryptAndSignBuffer, h.imported, h.recipients, h.cipher,
        h.rejects, h.signingKey]
  | encryptAndSignStringArmored env password inputString buffer =>
      simp only [PeerCall.run, EncryptAndSignStringArmored, h.imported, h.recipients, h.cipher,
        h.rejects, h.signingKey]
  | decryptAndVerifyBuffer password input buffer =>
      simp only [PeerCall.run, DecryptAndVerifyBuffer, h.imported, h.rejects, h.decrypts,
        h.verifies]
  | decryptAndVerifyStringArmored password inputString buffer =>
      simp only [PeerCall.run, DecryptAndVerifyStringArmored, h.imported, h.rejects, h.decrypts,
        h.verifies]
  | verifyBuffer input signature =>
      simp only [PeerCall.run, VerifyBuffer, h.imported, h.verifies]
  | verifyClearSignedString clearSignedString =>
      simp only [PeerCall.run, VerifyClearSignedString, h.imported, h.verifies]
  | verifyFile onProgress content signaturePacketBytes =>
      simp only [PeerCall.run, h.verifyFile]
  | getPeerUserIdCount => simp only [PeerCall.run, GetPeerUserIdCount, h.imported, h.userIds]
  | getPeerUserId userIdIndex buffer => simp only [PeerCall.run, GetPeerUserId, h.userIds]
  | getPeerSubkeyCount => simp only [PeerCall.run, GetPeerSubkeyCount, h.imported, h.subkeys]
  | getPeerSubkeyKeyId subkeyIndex buffer =>
      simp only [PeerCall.run, GetPeerSubkeyKeyId, h.subkeys]
  | getPeerKeyId buffer =>
      simp only [PeerCall.run, GetPeerKeyId, h.imported, h.masterKeyId]

end Alike

/-! ### What an import leaves behind -/

/-- The peer that a block describes. -/
def ParsedPeerPublicKeyBlock.peerView (parsed : ParsedPeerPublicKeyBlock) : PeerView where
  imported := true
  masterKey := match parsed.masterAlgorithm with
    | PGP_KEY_ALGORITHM_RSA => .rsa parsed.masterRsaKey
    | PGP_KEY_ALGORITHM_ED25519_X25519 => .ed25519 parsed.masterEd25519Key
  masterKeyId := parsed.masterKeyId
  recipient := parsed.recipient
  userIds := parsed.userIds
  subkeys := parsed.subkeys

theorem Impl.importPeer_withoutPeer (impl : Impl) (parsed : ParsedPeerPublicKeyBlock) :
    (impl.importPeer parsed).withoutPeer = impl.withoutPeer := rfl

theorem Impl.importPeer_peerMasterKey (impl : Impl) (parsed : ParsedPeerPublicKeyBlock) :
    (impl.importPeer parsed).peerMasterKey = parsed.peerView.masterKey := by
  show (match parsed.masterAlgorithm with
    | PGP_KEY_ALGORITHM_RSA => VerificationKey.rsa (impl.importPeer parsed).peerMasterPublicKey
    | PGP_KEY_ALGORITHM_ED25519_X25519 => .ed25519 (impl.importPeer parsed).peerEd25519PublicKey)
    = parsed.peerView.masterKey
  simp only [Impl.importPeer, ParsedPeerPublicKeyBlock.peerView]
  cases parsed.masterAlgorithm <;> rfl

/-- The state before shows in nothing that the calls read of the peer. -/
theorem Impl.importPeer_peerView (impl : Impl) (parsed : ParsedPeerPublicKeyBlock) :
    (impl.importPeer parsed).peerView = parsed.peerView := by
  rw [Impl.peerView, impl.importPeer_peerMasterKey, impl.importPeer_primaryRecipient]
  rfl

/-- An import wipes out a difference in the peer. -/
theorem Alike.of_importPeer {impl impl' : Impl} (hown : impl.withoutPeer = impl'.withoutPeer)
    (parsed : ParsedPeerPublicKeyBlock) :
    Alike (impl.importPeer parsed) (impl'.importPeer parsed) where
  own := by
    rw [Impl.importPeer_withoutPeer, Impl.importPeer_withoutPeer, hown]
  view := by
    rw [Impl.importPeer_peerView, Impl.importPeer_peerView]

/-- An import is that of a parsed block, or it changes nothing. -/
theorem importPeerPublicKey_cases (P : Primitives) (now : UInt32) (block : Buffer) :
    (∃ parsed, ∀ impl, ImportPeerPublicKey P now block impl = (NO_ERROR, impl.importPeer parsed)) ∨
      ∃ status ≠ NO_ERROR, ∀ impl, ImportPeerPublicKey P now block impl = (status, impl) := by
  by_cases hempty : block.1 = []
  · refine .inr ⟨INVALID_ARGUMENT, by decide, fun impl => ?_⟩
    rw [ImportPeerPublicKey, if_pos hempty]
  · cases hparsed : (decodeKeyBlockToBinary block.1).bind (parsePeerPublicKeyBlock P now) with
    | none =>
        refine .inr ⟨INVALID_DATA, by decide, fun impl => ?_⟩
        rw [ImportPeerPublicKey, if_neg hempty, hparsed]
    | some parsed =>
        refine .inl ⟨parsed, fun impl => ?_⟩
        rw [ImportPeerPublicKey, if_neg hempty, hparsed]

theorem importPeerPublicKey_withoutPeer (P : Primitives) (now : UInt32) (block : Buffer)
    (impl : Impl) : (ImportPeerPublicKey P now block impl).2.withoutPeer = impl.withoutPeer := by
  obtain ⟨parsed, himport⟩ | ⟨status, -, himport⟩ := importPeerPublicKey_cases P now block
  · rw [himport]
    exact impl.importPeer_withoutPeer parsed
  · rw [himport]

/-- Whatever peer was there before, all calls answer after an import as if there had
been none. An import that fails leaves the engine as it was. -/
theorem importPeerPublicKey_replaces (P : Primitives) (nowA nowB : UInt32) (blockA blockB : Buffer)
    (impl : Impl) :
    let afterA := (ImportPeerPublicKey P nowA blockA impl).2
    let both := ImportPeerPublicKey P nowB blockB afterA
    let alone := ImportPeerPublicKey P nowB blockB impl
    both.1 = alone.1 ∧
      (both.1 = NO_ERROR → ∀ call : PeerCall, call.run P both.2 = call.run P alone.2) ∧
      (both.1 ≠ NO_ERROR → both.2 = afterA) := by
  intro afterA both alone
  obtain ⟨parsed, himport⟩ | ⟨status, hfailed, himport⟩ := importPeerPublicKey_cases P nowB blockB
  · have hboth : both = (NO_ERROR, afterA.importPeer parsed) := himport afterA
    have halone : alone = (NO_ERROR, impl.importPeer parsed) := himport impl
    rw [hboth, halone]
    refine ⟨rfl, fun _ call => ?_, fun hne => absurd rfl hne⟩
    have hown : afterA.withoutPeer = impl.withoutPeer :=
      importPeerPublicKey_withoutPeer P nowA blockA impl
    exact (Alike.of_importPeer hown parsed).run P call
  · have hboth : both = (status, afterA) := himport afterA
    have halone : alone = (status, impl) := himport impl
    rw [hboth, halone]
    exact ⟨rfl, fun hok => absurd hok hfailed, fun _ => rfl⟩

/-- An engine with a curve peer. -/
def curveSender : Impl :=
  (Impl.new PGP_KEY_ALGORITHM_RSA 1024).importPeer
    { masterAlgorithm := PGP_KEY_ALGORITHM_ED25519_X25519
      subkeyAlgorithm := PGP_KEY_ALGORITHM_ED25519_X25519
      userIds := [{ uidText := ascii "bob" }] }

/-- An RSA block takes the curve peer's place, and an empty block leaves it there. -/
theorem importPeerPublicKey_replaces_curve :
    (∀ call : PeerCall,
      call.run standIn (ImportPeerPublicKey standIn 1500 shortLivedBlock
          (ImportPeerPublicKey standIn 1500 shortLivedBlock curveSender).2).2 =
        call.run standIn (ImportPeerPublicKey standIn 1500 shortLivedBlock curveSender).2) ∧
      (ImportPeerPublicKey standIn 1500 ⟨[], by decide⟩
        (ImportPeerPublicKey standIn 1500 shortLivedBlock curveSender).2).2 =
      (ImportPeerPublicKey standIn 1500 shortLivedBlock curveSender).2 := by
  obtain ⟨-, hreplaced, -⟩ := importPeerPublicKey_replaces standIn 1500 1500 shortLivedBlock
    shortLivedBlock curveSender
  obtain ⟨-, -, hkept⟩ := importPeerPublicKey_replaces standIn 1500 1500 shortLivedBlock
    ⟨[], by decide⟩ curveSender
  constructor
  · apply hreplaced
    rw [shortLivedOwner_published.import]
  · apply hkept
    show INVALID_ARGUMENT ≠ NO_ERROR
    decide

end HashCryptoLib.Pgp
