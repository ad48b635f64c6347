import HashCryptoLib.Pgp.Own
import HashCryptoLib.Pgp.Peer
import Mathlib.Logic.Relation

/-!
Runs of the engine. `EngineStep` lists the state changes of a successful call,
each with the guards under which the code makes it; every call is a sequence of
at most two of them. Invariants are proved of `EngineStep` and hold of every
reachable state by `Reachable.invariant`.
-/

namespace HashCryptoLib.Pgp

variable (P : Primitives)

/-! ### Runs -/

inductive EngineOp
  | generateKeyPair (userId : Buffer) (password : Bytes) (expirationSeconds : UInt32)
  | addUserId (password : Bytes) (userId : Buffer) (makePrimary : Bool)
  | revokeUserId (password : Bytes) (userIdIndex : ℤ) (reasonCode : UInt8) (reasonText : Buffer)
  | setPrimaryUserId (password : Bytes) (userIdIndex : ℤ)
  | addSubkey (password : Bytes) (keyFlags : UInt8) (expirationSeconds : UInt32)
  | revokeSubkey (password : Bytes) (subkeyIndex : ℤ) (reasonCode : UInt8) (reasonText : Buffer)
  | setKeyExpiration (password : Bytes) (subkeyIndex : ℤ) (expirationSeconds : UInt32)
  | changePassword (oldPassword newPassword : Bytes)
  | importPeerPublicKey (keyBlock : Buffer)
  | importAdditionalRecipientPublicKey (keyBlock : Buffer)
  | setSymmetricCipherPreference (algorithm : PgpSymmetricAlgorithm)

/-- One call, with what it reads from outside. -/
def EngineOp.call (env : Env) : EngineOp → Impl → Status × Impl
  | .generateKeyPair userId password expirationSeconds =>
    GenerateKeyPair P env userId password expirationSeconds
  | .addUserId password userId makePrimary => AddUserId P env password userId makePrimary
  | .revokeUserId password userIdIndex reasonCode reasonText =>
    RevokeUserId P (env.clock 0) password userIdIndex reasonCode reasonText
  | .setPrimaryUserId password userIdIndex =>
    SetPrimaryUserId P (env.clock 0) password userIdIndex
  | .addSubkey password keyFlags expirationSeconds =>
    AddSubkey P env password keyFlags expirationSeconds
  | .revokeSubkey password subkeyIndex reasonCode reasonText =>
    RevokeSubkey P (env.clock 0) password subkeyIndex reasonCode reasonText
  | .setKeyExpiration password subkeyIndex expirationSeconds =>
    SetKeyExpiration P (env.clock 0) password subkeyIndex expirationSeconds
  | .changePassword oldPassword newPassword => ChangePassword P env oldPassword newPassword
  | .importPeerPublicKey keyBlock => ImportPeerPublicKey P (env.clock 0) keyBlock
  | .importAdditionalRecipientPublicKey keyBlock =>
    ImportAdditionalRecipientPublicKey P (env.clock 0) keyBlock
  | .setSymmetricCipherPreference algorithm => SetSymmetricCipherPreference algorithm

/-- A freshly constructed engine. -/
def Impl.new (keyAlgorithm : PgpKeyAlgorithm) (rsaKeyBits : ℤ) : Impl :=
  { keyAlgorithm, rsaKeyBits }

/-- The states that calls lead to, failed calls included. -/
inductive Reachable : Impl → Prop
  | new (keyAlgorithm : PgpKeyAlgorithm) (rsaKeyBits : ℤ) :
      Reachable (Impl.new keyAlgorithm rsaKeyBits)
  | call {impl : Impl} (h : Reachable impl) (env : Env) (op : EngineOp) :
      Reachable (op.call P env impl).2

/-- The state in which a fresh RSA identity is stored. -/
def storeRsa (env : Env) (userId password : Bytes) (expirationSeconds : UInt32) (impl : Impl) :
    Impl :=
  let rsaMaster := (P.generateRsaKey (env.seed 0) impl.rsaKeyBits.toNat).1
  let rsaSubkey := (P.generateRsaKey (env.seed 1) impl.rsaKeyBits.toNat).1
  storeGenerated P
    { impl with
      ownMasterPrivateKey := rsaMaster
      ownMasterPublicKey := rsaMaster.publicKey
      ownSubkeyPrivateKey := rsaSubkey
      ownSubkeyPublicKey := rsaSubkey.publicKey }
    (generateRsaPackets P env rsaMaster rsaSubkey userId password expirationSeconds)
    { rsaPrivateKey := rsaSubkey, rsaPublicKey := rsaSubkey.publicKey }
    userId password expirationSeconds (env.clock 0)

/-- The state in which a fresh Ed25519 identity is stored. -/
def storeEd25519 (env : Env) (userId password : Bytes) (expirationSeconds : UInt32) (impl : Impl) :
    Impl :=
  let edMaster := P.generateEd25519Key (env.seed 0)
  let edSubkeyPrivateKey := P.generateX25519PrivateKey (env.seed 1)
  let edSubkeyPublicKey := P.x25519PublicKey edSubkeyPrivateKey
  storeGenerated P
    { impl with
      ownEd25519PrivateKey := edMaster.1
      ownEd25519PublicKey := edMaster.2
      ownX25519PrivateKey := edSubkeyPrivateKey
      ownX25519PublicKey := edSubkeyPublicKey }
    (generateEd25519Packets P env edMaster.1 edMaster.2 edSubkeyPrivateKey edSubkeyPublicKey
      userId password expirationSeconds)
    { x25519PrivateKey := edSubkeyPrivateKey, x25519PublicKey := edSubkeyPublicKey }
    userId password expirationSeconds (env.clock 0)

/-- The subkey `AddSubkey` appends. -/
def boundSubkey (env : Env) (password : Bytes) (keyFlags : UInt8) (expirationSeconds : UInt32)
    (impl : Impl) : PgpOwnSubkey :=
  let fresh := freshSubkey P env keyFlags impl
  let subkeyPubBody := buildOwnSubkeyPubBody impl.keyAlgorithm fresh
  { fresh with
    secretPacketBody := encryptSecretKeyMaterial P subkeyPubBody
      (subkeyCleartext impl.keyAlgorithm fresh) password (env.salt 0) (env.iv 0)
    bindingSigPacket := signWithOwnMasterKey P impl 0x18
      (buildSubkeyBindingDocument (buildOwnMasterPubBody impl) subkeyPubBody)
      (flagsAndExpiration keyFlags expirationSeconds) (env.clock 1)
    expirationSeconds, keyFlags
    keyId := (computeFingerprintAndKeyId P subkeyPubBody).2
    fingerprint := (computeFingerprintAndKeyId P subkeyPubBody).1
    isRevoked := false }

/-- A signature over a user ID by the own master key. -/
def signUserId (impl : Impl) (signatureType : UInt8) (uid : PgpOwnUserId) (extra : Bytes)
    (now : UInt32) : Bytes :=
  signWithOwnMasterKey P impl signatureType
    (buildUserIdCertificationDocument (buildOwnMasterPubBody impl) uid.uidText) extra now

/-- A signature over a subkey by the own master key. -/
def signSubkey (impl : Impl) (signatureType : UInt8) (subkey : PgpOwnSubkey) (extra : Bytes)
    (now : UInt32) : Bytes :=
  signWithOwnMasterKey P impl signatureType
    (buildSubkeyBindingDocument (buildOwnMasterPubBody impl)
      (buildOwnSubkeyPubBody impl.keyAlgorithm subkey)) extra now

inductive EngineStep : Impl → Impl → Prop
  | generateRsa {impl : Impl} (env : Env) (userId : Buffer) (password : Bytes)
      (expirationSeconds : UInt32) (hpassword : password ≠ [])
      (halgorithm : impl.keyAlgorithm = PGP_KEY_ALGORITHM_RSA)
      (hbits : IsRsaKeySize impl.rsaKeyBits.toNat)
      (hfull : (generateRsaPackets P env
        (P.generateRsaKey (env.seed 0) impl.rsaKeyBits.toNat).1
        (P.generateRsaKey (env.seed 1) impl.rsaKeyBits.toNat).1
        userId.1 password expirationSeconds).anyEmpty = false) :
      EngineStep impl (storeRsa P env userId.1 password expirationSeconds impl)
  | generateEd25519 {impl : Impl} (env : Env) (userId : Buffer) (password : Bytes)
      (expirationSeconds : UInt32) (hpassword : password ≠ [])
      (halgorithm : impl.keyAlgorithm = PGP_KEY_ALGORITHM_ED25519_X25519) :
      EngineStep impl (storeEd25519 P env userId.1 password expirationSeconds impl)
  | addUserId {impl : Impl} (password : Bytes) (uid : PgpOwnUserId) (now : UInt32)
      (hpassword : rejects P impl password = false)
      (hlength : uid.uidText.length < 2 ^ 31)
      (hcert : uid.certSigPacket =
        signUserId P impl 0x13 uid (flagsAndExpiration 0x03 impl.keyExpirationSeconds) now)
      (hsigned : uid.certSigPacket ≠ []) (hrevoked : uid.isRevoked = false)
      (hprimary : uid.isPrimary = false) (hunrevoked : uid.revocationSigPacket = []) :
      EngineStep impl { impl with ownUserIds := impl.ownUserIds ++ [uid] }
  | setPrimaryUserId {impl : Impl} (password : Bytes) (i : ℕ) (uid : PgpOwnUserId)
      (newCert : Bytes) (now : UInt32)
      (hpassword : rejects P impl password = false) (huid : impl.ownUserIds[i]? = some uid)
      (hcert : newCert = signUserId P impl 0x13 uid
        (flagsAndExpiration 0x03 impl.keyExpirationSeconds ++ buildPrimaryUserIdSubpacket true) now)
      (hsigned : newCert ≠ []) :
      EngineStep impl { impl with
        ownUserIds := (impl.ownUserIds.set i { uid with certSigPacket := newCert }).mapIdx
          fun j uid => { uid with isPrimary := j = i } }
  | revokeUserId {impl : Impl} (password : Bytes) (i : ℕ) (uid : PgpOwnUserId)
      (reasonCode : UInt8) (reasonText : Buffer) (revocationSig : Bytes) (now : UInt32)
      (hpassword : rejects P impl password = false) (huid : impl.ownUserIds[i]? = some uid)
      (hsig : revocationSig = signUserId P impl 0x30 uid
        (buildRevocationReasonSubpacket reasonCode reasonText.1) now)
      (hsigned : revocationSig ≠ []) :
      EngineStep impl { impl with
        ownUserIds := impl.ownUserIds.set i
          { uid with revocationSigPacket := revocationSig, isRevoked := true } }
  | addSubkey {impl : Impl} (env : Env) (password : Bytes) (keyFlags : UInt8)
      (expirationSeconds : UInt32) (hpassword : rejects P impl password = false)
      (hflags : impl.keyAlgorithm = PGP_KEY_ALGORITHM_RSA ∧ IsRsaKeySize impl.rsaKeyBits.toNat ∨
        impl.keyAlgorithm = PGP_KEY_ALGORITHM_ED25519_X25519 ∧ (keyFlags = 0x0C ∨ keyFlags = 0x02))
      (hsigned :
        (boundSubkey P env password keyFlags expirationSeconds impl).bindingSigPacket ≠ []) :
      EngineStep impl { impl with
        ownSubkeys := impl.ownSubkeys ++
          [boundSubkey P env password keyFlags expirationSeconds impl] }
  | revokeSubkey {impl : Impl} (password : Bytes) (i : ℕ) (subkey : PgpOwnSubkey)
      (reasonCode : UInt8) (reasonText : Buffer) (revocationSig : Bytes) (now : UInt32)
      (hpassword : rejects P impl password = false) (hsubkey : impl.ownSubkeys[i]? = some subkey)
      (hsig : revocationSig = signSubkey P impl 0x28 subkey
        (buildRevocationReasonSubpacket reasonCode reasonText.1) now)
      (hsigned : revocationSig ≠ []) :
      EngineStep impl { impl with
        ownSubkeys := impl.ownSubkeys.set i
          { subkey with revocationSigPacket := revocationSig, isRevoked := true } }
  | expirePrimary {impl : Impl} (password : Bytes) (i : ℕ) (uid : PgpOwnUserId)
      (expirationSeconds : UInt32) (newCert : Bytes) (now : UInt32)
      (hpassword : rejects P impl password = false)
      (hindex : primaryIndex impl.ownUserIds = some i) (huid : impl.ownUserIds[i]? = some uid)
      (hcert : newCert = signUserId P impl 0x13 uid
        (flagsAndExpiration 0x03 expirationSeconds ++ keptPrimaryFlag uid) now)
      (hsigned : newCert ≠ []) :
      EngineStep impl { impl with
        ownUserIds := impl.ownUserIds.set i { uid with certSigPacket := newCert }
        keyExpirationSeconds := expirationSeconds }
  | expireSubkey {impl : Impl} (password : Bytes) (i : ℕ) (subkey : PgpOwnSubkey)
      (expirationSeconds : UInt32) (newBinding : Bytes) (now : UInt32)
      (hpassword : rejects P impl password = false)
      (hsubkey : impl.ownSubkeys[i]? = some subkey)
      (hsig : newBinding = signSubkey P impl 0x18 subkey
        (flagsAndExpiration subkey.keyFlags expirationSeconds) now)
      (hsigned : newBinding ≠ []) :
      EngineStep impl { impl with
        ownSubkeys := impl.ownSubkeys.set i
          { subkey with bindingSigPacket := newBinding, expirationSeconds } }
  | changePassword {impl : Impl} (env : Env) (password newPassword : Bytes)
      (hnew : newPassword ≠ []) (hpassword : rejects P impl password = false) :
      EngineStep impl { impl with
        ownMasterSecretPacketBody := encryptSecretKeyMaterial P (buildOwnMasterPubBody impl)
          (masterCleartext impl) newPassword (env.salt 0) (env.iv 0)
        ownSubkeys := impl.ownSubkeys.mapIdx fun i subkey =>
          { subkey with
            secretPacketBody := encryptSecretKeyMaterial P
              (buildOwnSubkeyPubBody impl.keyAlgorithm subkey)
              (subkeyCleartext impl.keyAlgorithm subkey) newPassword
              (env.salt (i + 1)) (env.iv (i + 1)) }
        passwordCheckHash := P.sha256 newPassword }
  | importPeer {impl : Impl} (now : UInt32) (binary : Bytes) (parsed : ParsedPeerPublicKeyBlock)
      (hparse : parsePeerPublicKeyBlock P now binary = some parsed) :
      EngineStep impl (impl.importPeer parsed)
  | importRecipient {impl : Impl} (now : UInt32) (binary : Bytes)
      (parsed : ParsedPeerPublicKeyBlock)
      (hparse : parsePeerPublicKeyBlock P now binary = some parsed)
      (hsubkey : parsed.haveSubkey = true) :
      EngineStep impl { impl with
        additionalRecipients := impl.additionalRecipients ++ [parsed.recipient] }
  | preferCipher {impl : Impl} (algorithm : PgpSymmetricAlgorithm) :
      EngineStep impl { impl with symmetricCipherPreference := algorithm }

/-! ### Every call is a sequence of steps -/

variable {P}

theorem ownKeyGenerated_of_not_rejects {impl : Impl} {password : Bytes}
    (h : rejects P impl password = false) : impl.ownKeyGenerated = true := by
  simp only [rejects, Bool.or_eq_false_iff, Bool.not_eq_false'] at h
  exact h.1.1

theorem atIndex_eq_some {α : Type} {xs : List α} {index : ℤ} {x : α}
    (h : atIndex xs index = some x) :
    (index.toNat : ℤ) = index ∧ xs[index.toNat]? = some x := by
  unfold atIndex at h
  split_ifs at h with hindex
  exact ⟨Int.toNat_of_nonneg hindex, h⟩

variable (P)

/-- The state after a call that changes it in one step or leaves it alone. -/
def AtMostOne (impl : Impl) (result : Status × Impl) : Prop :=
  result.2 = impl ∨ EngineStep P impl result.2

theorem GenerateKeyPair_atMostOne (env : Env) (userId : Buffer) (password : Bytes)
    (expirationSeconds : UInt32) (impl : Impl) :
    AtMostOne P impl (GenerateKeyPair P env userId password expirationSeconds impl) := by
  unfold GenerateKeyPair
  split
  · exact Or.inl rfl
  · rename_i hguard
    have hpassword := (not_or.mp hguard).2
    split
    · rename_i halgorithm
      split
      · exact Or.inl rfl
      · rename_i hbits
        dsimp only
        split
        · exact Or.inl rfl
        · rename_i hfull
          exact Or.inr (EngineStep.generateRsa env userId password expirationSeconds hpassword
            halgorithm (not_not.mp hbits) (by simpa using hfull))
    · rename_i halgorithm
      dsimp only
      split
      · exact Or.inl rfl
      · exact Or.inr (EngineStep.generateEd25519 env userId password expirationSeconds hpassword
          halgorithm)

/-- Nothing can fail in the generation of a curve identity. -/
theorem GenerateKeyPair_ed25519 (env : Env) {userId : Buffer} {password : Bytes}
    (expirationSeconds : UInt32) {impl : Impl} (huser : userId.1 ≠ []) (hpassword : password ≠ [])
    (halgorithm : impl.keyAlgorithm = PGP_KEY_ALGORITHM_ED25519_X25519) :
    GenerateKeyPair P env userId password expirationSeconds impl =
      (NO_ERROR, storeEd25519 P env userId.1 password expirationSeconds impl) := by
  have hfull : (generateEd25519Packets P env (P.generateEd25519Key (env.seed 0)).1
      (P.generateEd25519Key (env.seed 0)).2 (P.generateX25519PrivateKey (env.seed 1))
      (P.x25519PublicKey (P.generateX25519PrivateKey (env.seed 1))) userId.1 password
      expirationSeconds).anyEmpty = false := by
    simp [GeneratedPackets.anyEmpty, generateEd25519Packets, buildEd25519SignaturePacket_ne_nil,
      encryptSecretKeyMaterial_ne_nil]
  rw [GenerateKeyPair, if_neg (by simp [huser, hpassword])]
  split
  · rename_i hrsa
    rw [halgorithm] at hrsa
    cases hrsa
  · simp only [hfull, Bool.false_eq_true, if_false]
    rfl

theorem generateRsaPackets_full (hlawful : P.Lawful) (env : Env) {bits : ℕ}
    (hbits : IsRsaKeySize bits) (userId password : Bytes) (expirationSeconds : UInt32) :
    (generateRsaPackets P env (P.generateRsaKey (env.seed 0) bits).1
      (P.generateRsaKey (env.seed 1) bits).1 userId password expirationSeconds).anyEmpty =
        false := by
  have hsigned := buildSignaturePacket_ne_nil hlawful (env.seed 0) hbits
  simp [GeneratedPackets.anyEmpty, generateRsaPackets, hsigned, encryptSecretKeyMaterial_ne_nil]

/-- The generation of an RSA identity fails only on its arguments. -/
theorem GenerateKeyPair_rsa (hlawful : P.Lawful) (env : Env) {userId : Buffer} {password : Bytes}
    (expirationSeconds : UInt32) {impl : Impl} (huser : userId.1 ≠ []) (hpassword : password ≠ [])
    (halgorithm : impl.keyAlgorithm = PGP_KEY_ALGORITHM_RSA)
    (hbits : IsRsaKeySize impl.rsaKeyBits.toNat) :
    GenerateKeyPair P env userId password expirationSeconds impl =
      (NO_ERROR, storeRsa P env userId.1 password expirationSeconds impl) := by
  have hfull := generateRsaPackets_full P hlawful env hbits userId.1 password expirationSeconds
  rw [GenerateKeyPair, if_neg (by simp [huser, hpassword])]
  split
  · rw [if_neg (not_not.mpr hbits)]
    simp only [hfull, Bool.false_eq_true, if_false]
    rfl
  · rename_i hcurve
    rw [halgorithm] at hcurve
    cases hcurve

theorem SetPrimaryUserId_atMostOne (now : UInt32) (password : Bytes) (userIdIndex : ℤ)
    (impl : Impl) : AtMostOne P impl (SetPrimaryUserId P now password userIdIndex impl) := by
  unfold SetPrimaryUserId
  split
  · exact Or.inl rfl
  · rename_i target htarget
    obtain ⟨hindex, huid⟩ := atIndex_eq_some htarget
    split
    · exact Or.inl rfl
    · rename_i hpassword
      dsimp only
      split
      · exact Or.inl rfl
      · rename_i hsigned
        right
        have hprimary : (fun (i : ℕ) (uid : PgpOwnUserId) =>
            { uid with isPrimary := decide ((i : ℤ) = userIdIndex) }) =
            fun i uid => { uid with isPrimary := decide (i = userIdIndex.toNat) } := by
          funext i uid
          have : ((i : ℤ) = userIdIndex) ↔ i = userIdIndex.toNat := by omega
          simp only [this]
        rw [hprimary]
        exact EngineStep.setPrimaryUserId password _ target _ now (by simpa using hpassword) huid rfl
          hsigned

theorem RevokeUserId_atMostOne (now : UInt32) (password : Bytes) (userIdIndex : ℤ)
    (reasonCode : UInt8) (reasonText : Buffer) (impl : Impl) :
    AtMostOne P impl
      (RevokeUserId P now password userIdIndex reasonCode reasonText impl) := by
  unfold RevokeUserId
  split
  · exact Or.inl rfl
  · rename_i uid huid
    split
    · exact Or.inl rfl
    · rename_i hpassword
      dsimp only
      split
      · exact Or.inl rfl
      · rename_i hsigned
        exact Or.inr (EngineStep.revokeUserId password _ uid reasonCode reasonText _ now
          (by simpa using hpassword) (atIndex_eq_some huid).2 rfl hsigned)

theorem AddSubkey_atMostOne (env : Env) (password : Bytes) (keyFlags : UInt8)
    (expirationSeconds : UInt32) (impl : Impl) :
    AtMostOne P impl (AddSubkey P env password keyFlags expirationSeconds impl) := by
  unfold AddSubkey
  split
  · exact Or.inl rfl
  rename_i hpassword
  split
  · exact Or.inl rfl
  rename_i hed
  split
  · exact Or.inl rfl
  rename_i hrsa
  dsimp only
  split
  · exact Or.inl rfl
  rename_i hsigned
  have hflags : impl.keyAlgorithm = PGP_KEY_ALGORITHM_RSA ∧ IsRsaKeySize impl.rsaKeyBits.toNat ∨
      impl.keyAlgorithm = PGP_KEY_ALGORITHM_ED25519_X25519 ∧
        (keyFlags = 0x0C ∨ keyFlags = 0x02) := by
    cases halgorithm : impl.keyAlgorithm with
    | PGP_KEY_ALGORITHM_RSA => simpa [halgorithm] using hrsa
    | PGP_KEY_ALGORITHM_ED25519_X25519 =>
        simp only [halgorithm, true_and] at hed
        exact Or.inr ⟨rfl, by tauto⟩
  exact Or.inr (EngineStep.addSubkey env password keyFlags expirationSeconds
    (by simpa using hpassword) hflags (not_or.mp hsigned).1)

theorem RevokeSubkey_atMostOne (now : UInt32) (password : Bytes) (subkeyIndex : ℤ)
    (reasonCode : UInt8) (reasonText : Buffer) (impl : Impl) :
    AtMostOne P impl
      (RevokeSubkey P now password subkeyIndex reasonCode reasonText impl) := by
  unfold RevokeSubkey
  split
  · exact Or.inl rfl
  · rename_i subkey hsubkey
    split
    · exact Or.inl rfl
    · rename_i hpassword
      dsimp only
      split
      · exact Or.inl rfl
      · rename_i hsigned
        exact Or.inr (EngineStep.revokeSubkey password _ subkey reasonCode reasonText _ now
          (by simpa using hpassword) (atIndex_eq_some hsubkey).2 rfl hsigned)

theorem SetKeyExpiration_atMostOne (now : UInt32) (password : Bytes) (subkeyIndex : ℤ)
    (expirationSeconds : UInt32) (impl : Impl) :
    AtMostOne P impl (SetKeyExpiration P now password subkeyIndex expirationSeconds impl) := by
  unfold SetKeyExpiration
  split
  · exact Or.inl rfl
  rename_i hpassword
  split
  · split
    · exact Or.inl rfl
    · rename_i i hindex
      split
      · exact Or.inl rfl
      · rename_i uid huid
        dsimp only
        split
        · exact Or.inl rfl
        · rename_i hsigned
          exact Or.inr (EngineStep.expirePrimary password i uid expirationSeconds _ now
            (by simpa using hpassword) hindex huid rfl hsigned)
  · split
    · exact Or.inl rfl
    · rename_i subkey hsubkey
      dsimp only
      split
      · exact Or.inl rfl
      · rename_i hsigned
        exact Or.inr (EngineStep.expireSubkey password _ subkey expirationSeconds _ now
          (by simpa using hpassword) (atIndex_eq_some hsubkey).2 rfl hsigned)

theorem zipWith_mapIdx {α β : Type} (f : α → β → α) (g : ℕ → α → β) (xs : List α) :
    List.zipWith f xs (xs.mapIdx g) = xs.mapIdx fun i x => f x (g i x) := by
  apply List.ext_getElem
  · simp
  · intro i h h'
    simp

theorem ChangePassword_atMostOne (env : Env) (oldPassword newPassword : Bytes) (impl : Impl) :
    AtMostOne P impl (ChangePassword P env oldPassword newPassword impl) := by
  unfold ChangePassword
  split
  · exact Or.inl rfl
  rename_i hguard
  dsimp only
  split
  · exact Or.inl rfl
  rw [zipWith_mapIdx]
  obtain ⟨hnew, hpassword⟩ := not_or.mp hguard
  exact Or.inr (EngineStep.changePassword env oldPassword newPassword hnew (by simpa using hpassword))

theorem ImportPeerPublicKey_atMostOne (now : UInt32) (keyBlock : Buffer) (impl : Impl) :
    AtMostOne P impl (ImportPeerPublicKey P now keyBlock impl) := by
  unfold ImportPeerPublicKey
  split
  · exact Or.inl rfl
  split
  · exact Or.inl rfl
  rename_i parsed hparsed
  obtain ⟨binary, -, hparse⟩ := Option.bind_eq_some_iff.mp hparsed
  exact Or.inr (EngineStep.importPeer now binary parsed hparse)

theorem ImportAdditionalRecipientPublicKey_atMostOne (now : UInt32) (keyBlock : Buffer)
    (impl : Impl) : AtMostOne P impl (ImportAdditionalRecipientPublicKey P now keyBlock impl) := by
  unfold ImportAdditionalRecipientPublicKey
  split
  · exact Or.inl rfl
  split
  · exact Or.inl rfl
  rename_i parsed hparsed
  split
  · exact Or.inl rfl
  rename_i hsubkey
  obtain ⟨binary, -, hparse⟩ := Option.bind_eq_some_iff.mp hparsed
  exact Or.inr (EngineStep.importRecipient now binary parsed hparse (by simpa using hsubkey))

/-- Adding a user ID and then marking it primary are two steps. -/
theorem AddUserId_steps (env : Env) (password : Bytes) (userId : Buffer) (makePrimary : Bool)
    (impl : Impl) :
    Relation.ReflTransGen (EngineStep P) impl
      (AddUserId P env password userId makePrimary impl).2 := by
  unfold AddUserId
  split
  · exact .refl
  rename_i hguard
  dsimp only
  split
  · exact .refl
  rename_i hsigned
  have hpassword : rejects P impl password = false := by simpa using (not_or.mp hguard).2
  have hadd := EngineStep.addUserId (P := P) password
    { uidText := userId.1, certCreationTime := env.clock 0
      certSigPacket := signUserId P impl 0x13 { uidText := userId.1 }
        (flagsAndExpiration 0x03 impl.keyExpirationSeconds) (env.clock 1) }
    (env.clock 1) hpassword userId.2 rfl hsigned rfl rfl rfl
  split
  · rcases SetPrimaryUserId_atMostOne P (env.clock 2) password _ _ with hsame | hstep
    · rw [hsame]
      exact .single hadd
    · exact .tail (.single hadd) hstep
  · exact .single hadd

theorem AtMostOne.steps {impl : Impl} {result : Status × Impl} (h : AtMostOne P impl result) :
    Relation.ReflTransGen (EngineStep P) impl result.2 := by
  rcases h with hsame | hstep
  · rw [hsame]
  · exact .single hstep

theorem EngineOp.call_steps (env : Env) (op : EngineOp) (impl : Impl) :
    Relation.ReflTransGen (EngineStep P) impl (op.call P env impl).2 := by
  cases op with
  | generateKeyPair => exact (GenerateKeyPair_atMostOne P ..).steps
  | addUserId => exact AddUserId_steps P ..
  | revokeUserId => exact (RevokeUserId_atMostOne P ..).steps
  | setPrimaryUserId => exact (SetPrimaryUserId_atMostOne P ..).steps
  | addSubkey => exact (AddSubkey_atMostOne P ..).steps
  | revokeSubkey => exact (RevokeSubkey_atMostOne P ..).steps
  | setKeyExpiration => exact (SetKeyExpiration_atMostOne P ..).steps
  | changePassword => exact (ChangePassword_atMostOne P ..).steps
  | importPeerPublicKey => exact (ImportPeerPublicKey_atMostOne P ..).steps
  | importAdditionalRecipientPublicKey =>
      exact (ImportAdditionalRecipientPublicKey_atMostOne P ..).steps
  | setSymmetricCipherPreference algorithm => exact .single (.preferCipher algorithm)

variable {P}

/-- A fresh curve identity. -/
def freshOwner (P : Primitives) (env : Env) (userId password : Bytes)
    (expirationSeconds : UInt32) : Impl :=
  storeEd25519 P env userId password expirationSeconds
    (Impl.new PGP_KEY_ALGORITHM_ED25519_X25519 2048)

theorem freshOwner_reachable (env : Env) (userId : Buffer) {password : Bytes}
    (expirationSeconds : UInt32) (huser : userId.1 ≠ []) (hpassword : password ≠ []) :
    Reachable P (freshOwner P env userId.1 password expirationSeconds) := by
  have hcall := Reachable.call (.new (P := P) PGP_KEY_ALGORITHM_ED25519_X25519 2048) env
    (.generateKeyPair userId password expirationSeconds)
  rwa [EngineOp.call, GenerateKeyPair_ed25519 P env expirationSeconds huser hpassword rfl] at hcall

theorem Reachable.calls {impl : Impl} (h : Reachable P impl) (env : Env) (ops : List EngineOp) :
    Reachable P (ops.foldl (fun impl op => (op.call P env impl).2) impl) := by
  induction ops generalizing impl with
  | nil => exact h
  | cons op ops ih => exact ih (h.call env op)

/-- An invariant of new engines and of steps holds of every reachable state. -/
theorem Reachable.invariant {Inv : Impl → Prop}
    (hnew : ∀ keyAlgorithm rsaKeyBits, Inv (Impl.new keyAlgorithm rsaKeyBits))
    (hstep : ∀ impl impl', EngineStep P impl impl' → Inv impl → Inv impl')
    {impl : Impl} (h : Reachable P impl) : Inv impl := by
  induction h with
  | new keyAlgorithm rsaKeyBits => exact hnew keyAlgorithm rsaKeyBits
  | call _ env op ih =>
      have hsteps := EngineOp.call_steps P env op ‹Impl›
      generalize (op.call P env _).2 = impl' at hsteps ⊢
      induction hsteps with
      | refl => exact ih
      | tail _ hlast hinv => exact hstep _ _ hlast hinv

end HashCryptoLib.Pgp
