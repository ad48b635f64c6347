import HashCryptoLib.Pgp.Armor
import HashCryptoLib.Pgp.State

/-!
The operations on the engine's own identity, each a function from a state to a
status and a state, and the rendering of the exported key blocks.
-/

namespace HashCryptoLib.Pgp

section Identity

variable (P : Primitives)

def signWithOwnMasterKey (impl : Impl) (signatureType : UInt8)
    (documentData extraHashedSubpacket : Bytes) (now : UInt32) : Bytes :=
  match impl.keyAlgorithm with
  | PGP_KEY_ALGORITHM_RSA =>
    buildSignaturePacket P impl.ownMasterPrivateKey signatureType documentData
      extraHashedSubpacket impl.ownMasterKeyId now
  | PGP_KEY_ALGORITHM_ED25519_X25519 =>
    buildEd25519SignaturePacket P impl.ownEd25519PrivateKey signatureType documentData
      extraHashedSubpacket impl.ownMasterKeyId now

/-- The master key as a signing key. -/
def Impl.masterSigningKey (impl : Impl) : SigningKey where
  algorithm := impl.keyAlgorithm
  rsaKey := impl.ownMasterPrivateKey
  ed25519Key := impl.ownEd25519PrivateKey
  keyId := impl.ownMasterKeyId

theorem masterSigningKey_sign (impl : Impl) :
    impl.masterSigningKey.sign P = signWithOwnMasterKey P impl := rfl

def buildOwnMasterPubBody (impl : Impl) : Bytes :=
  match impl.keyAlgorithm with
  | PGP_KEY_ALGORITHM_RSA =>
    buildRsaPublicKeyPacketBody impl.keyCreationTime impl.ownMasterPublicKey.modulus
      impl.ownMasterPublicKey.publicExponent
  | PGP_KEY_ALGORITHM_ED25519_X25519 =>
    buildEd25519PublicKeyPacketBody impl.keyCreationTime impl.ownEd25519PublicKey

/-- The public body of one own subkey, which the source finds by its index. -/
def buildOwnSubkeyPubBody (keyAlgorithm : PgpKeyAlgorithm) (subkey : PgpOwnSubkey) : Bytes :=
  match keyAlgorithm with
  | PGP_KEY_ALGORITHM_RSA =>
    buildRsaPublicKeyPacketBody subkey.creationTime subkey.rsaPublicKey.modulus
      subkey.rsaPublicKey.publicExponent
  | PGP_KEY_ALGORITHM_ED25519_X25519 =>
    if subkey.isEd25519Sign then
      buildEd25519PublicKeyPacketBody subkey.creationTime subkey.ed25519PublicKey
    else buildX25519PublicKeyPacketBody subkey.creationTime subkey.x25519PublicKey

theorem signWithOwnMasterKey_rsa {impl : Impl} (h : impl.keyAlgorithm = PGP_KEY_ALGORITHM_RSA)
    (signatureType : UInt8) (documentData extra : Bytes) (now : UInt32) :
    signWithOwnMasterKey P impl signatureType documentData extra now =
      buildSignaturePacket P impl.ownMasterPrivateKey signatureType documentData extra
        impl.ownMasterKeyId now := by
  simp only [signWithOwnMasterKey, h]

theorem signWithOwnMasterKey_ed25519 {impl : Impl}
    (h : impl.keyAlgorithm = PGP_KEY_ALGORITHM_ED25519_X25519)
    (signatureType : UInt8) (documentData extra : Bytes) (now : UInt32) :
    signWithOwnMasterKey P impl signatureType documentData extra now =
      buildEd25519SignaturePacket P impl.ownEd25519PrivateKey signatureType documentData extra
        impl.ownMasterKeyId now := by
  simp only [signWithOwnMasterKey, h]

theorem buildOwnMasterPubBody_rsa {impl : Impl}
    (h : impl.keyAlgorithm = PGP_KEY_ALGORITHM_RSA) :
    buildOwnMasterPubBody impl = buildRsaPublicKeyPacketBody impl.keyCreationTime
      impl.ownMasterPublicKey.modulus impl.ownMasterPublicKey.publicExponent := by
  simp only [buildOwnMasterPubBody, h]

theorem buildOwnMasterPubBody_ed25519 {impl : Impl}
    (h : impl.keyAlgorithm = PGP_KEY_ALGORITHM_ED25519_X25519) :
    buildOwnMasterPubBody impl =
      buildEd25519PublicKeyPacketBody impl.keyCreationTime impl.ownEd25519PublicKey := by
  simp only [buildOwnMasterPubBody, h]

/-- The key flags and, unless it is zero, the expiration. -/
def flagsAndExpiration (flags : UInt8) (expirationSeconds : UInt32) : Bytes :=
  buildKeyFlagsSubpacket flags ++
    if expirationSeconds > 0 then buildKeyExpirationSubpacket expirationSeconds else []

/-! ### Exported blocks -/

def renderUserId (uid : PgpOwnUserId) : Bytes :=
  writePacket PGP_TAG_USER_ID uid.uidText ++ uid.certSigPacket ++
    if uid.isRevoked then uid.revocationSigPacket else []

def renderSubkey (subkeyPacket : Bytes) (subkey : PgpOwnSubkey) : Bytes :=
  subkeyPacket ++ subkey.bindingSigPacket ++
    if subkey.isRevoked then subkey.revocationSigPacket else []

/-- The public and the secret block. -/
def renderOwnKeyBlocks (impl : Impl) : Bytes × Bytes :=
  if impl.ownKeyGenerated = false then ([], [])
  else
    let userIds := impl.ownUserIds.flatMap renderUserId
    (writePacket PGP_TAG_PUBLIC_KEY (buildOwnMasterPubBody impl) ++ userIds ++
        impl.ownSubkeys.flatMap (fun subkey => renderSubkey (writePacket PGP_TAG_PUBLIC_SUBKEY
          (buildOwnSubkeyPubBody impl.keyAlgorithm subkey)) subkey),
      writePacket PGP_TAG_SECRET_KEY impl.ownMasterSecretPacketBody ++ userIds ++
        impl.ownSubkeys.flatMap (fun subkey => renderSubkey
          (writePacket PGP_TAG_SECRET_SUBKEY subkey.secretPacketBody) subkey))

/-- The text `ExportPublicKeyArmored` hands out. -/
def exportPublicKeyArmored (impl : Impl) : Bytes :=
  armorEncode (ascii "PGP PUBLIC KEY BLOCK") (renderOwnKeyBlocks impl).1

/-! ### Key generation -/

/-- What `GenerateKeyPair` has computed when it starts to store: the public
bodies, the two signatures and the two protected bodies. -/
structure GeneratedPackets where
  masterPubBody : Bytes
  subkeyPubBody : Bytes
  certSigPacket : Bytes
  bindSigPacket : Bytes
  masterSecretBody : Bytes
  subkeySecretBody : Bytes

/-- The tail of `GenerateKeyPair`. `impl` and `seededSubkey` already hold the
key material of their family. -/
def storeGenerated (impl : Impl) (packets : GeneratedPackets) (seededSubkey : PgpOwnSubkey)
    (userId password : Bytes) (expirationSeconds creationTime : UInt32) : Impl :=
  let master := computeFingerprintAndKeyId P packets.masterPubBody
  let subkey := computeFingerprintAndKeyId P packets.subkeyPubBody
  { impl with
    ownMasterKeyId := master.2
    ownSubkeyKeyId := subkey.2
    ownMasterFingerprint := master.1
    ownSubkeyFingerprint := subkey.1
    ownMasterSecretPacketBody := packets.masterSecretBody
    ownUserIds := [{
      uidText := userId
      certCreationTime := creationTime
      certSigPacket := packets.certSigPacket
      isPrimary := true }]
    ownSubkeys := [{ seededSubkey with
      keyId := subkey.2
      fingerprint := subkey.1
      creationTime := creationTime
      expirationSeconds := expirationSeconds
      keyFlags := 0x0C
      bindingSigPacket := packets.bindSigPacket
      isRevoked := false
      secretPacketBody := packets.subkeySecretBody }]
    keyCreationTime := creationTime
    keyExpirationSeconds := expirationSeconds
    passwordCheckHash := P.sha256 password
    ownKeyGenerated := true }

/-- The packets of a fresh RSA identity. -/
def generateRsaPackets (env : Env) (rsaMaster rsaSubkey : RsaPrivateKey) (userId password : Bytes)
    (expirationSeconds : UInt32) : GeneratedPackets :=
  let creationTime := env.clock 0
  let masterPubBody :=
    buildRsaPublicKeyPacketBody creationTime rsaMaster.modulus rsaMaster.publicExponent
  let subkeyPubBody :=
    buildRsaPublicKeyPacketBody creationTime rsaSubkey.modulus rsaSubkey.publicExponent
  let masterKeyId := (computeFingerprintAndKeyId P masterPubBody).2
  { masterPubBody, subkeyPubBody
    certSigPacket := buildSignaturePacket P rsaMaster 0x13
      (buildUserIdCertificationDocument masterPubBody userId)
      (flagsAndExpiration 0x03 expirationSeconds) masterKeyId (env.clock 1)
    bindSigPacket := buildSignaturePacket P rsaMaster 0x18
      (buildSubkeyBindingDocument masterPubBody subkeyPubBody)
      (flagsAndExpiration 0x0C expirationSeconds) masterKeyId (env.clock 2)
    masterSecretBody := encryptSecretKeyMaterial P masterPubBody
      (buildRsaSecretKeyCleartext rsaMaster) password (env.salt 0) (env.iv 0)
    subkeySecretBody := encryptSecretKeyMaterial P subkeyPubBody
      (buildRsaSecretKeyCleartext rsaSubkey) password (env.salt 1) (env.iv 1) }

/-- The packets of a fresh Ed25519 identity with its X25519 subkey. -/
def generateEd25519Packets (env : Env) (edMasterPrivateKey edMasterPublicKey edSubkeyPrivateKey
    edSubkeyPublicKey : Octets 32) (userId password : Bytes) (expirationSeconds : UInt32) :
    GeneratedPackets :=
  let creationTime := env.clock 0
  let masterPubBody := buildEd25519PublicKeyPacketBody creationTime edMasterPublicKey
  let subkeyPubBody := buildX25519PublicKeyPacketBody creationTime edSubkeyPublicKey
  let masterKeyId := (computeFingerprintAndKeyId P masterPubBody).2
  { masterPubBody, subkeyPubBody
    certSigPacket := buildEd25519SignaturePacket P edMasterPrivateKey 0x13
      (buildUserIdCertificationDocument masterPubBody userId)
      (flagsAndExpiration 0x03 expirationSeconds) masterKeyId (env.clock 1)
    bindSigPacket := buildEd25519SignaturePacket P edMasterPrivateKey 0x18
      (buildSubkeyBindingDocument masterPubBody subkeyPubBody)
      (flagsAndExpiration 0x0C expirationSeconds) masterKeyId (env.clock 2)
    masterSecretBody := encryptSecretKeyMaterial P masterPubBody
      (buildEd25519SecretKeyCleartext edMasterPrivateKey) password (env.salt 0) (env.iv 0)
    subkeySecretBody := encryptSecretKeyMaterial P subkeyPubBody
      (buildX25519SecretKeyCleartext edSubkeyPrivateKey) password (env.salt 1) (env.iv 1) }

/-- One of the four results is empty: something threw. -/
def GeneratedPackets.anyEmpty (packets : GeneratedPackets) : Bool :=
  packets.certSigPacket = [] || packets.bindSigPacket = [] || packets.masterSecretBody = [] ||
    packets.subkeySecretBody = []

def GenerateKeyPair (env : Env) (userId : Buffer) (password : Bytes) (expirationSeconds : UInt32)
    (impl : Impl) : Status × Impl :=
  if userId.1 = [] ∨ password = [] then (INVALID_ARGUMENT, impl)
  else
    match impl.keyAlgorithm with
    | PGP_KEY_ALGORITHM_RSA =>
      if ¬ IsRsaKeySize impl.rsaKeyBits.toNat then (INVALID_ARGUMENT, impl)
      else
        let rsaMaster := (P.generateRsaKey (env.seed 0) impl.rsaKeyBits.toNat).1
        let rsaSubkey := (P.generateRsaKey (env.seed 1) impl.rsaKeyBits.toNat).1
        let packets := generateRsaPackets P env rsaMaster rsaSubkey userId.1 password
          expirationSeconds
        if packets.anyEmpty then (UNEXPECTED_ERROR, impl)
        else
          (NO_ERROR, storeGenerated P
            { impl with
              ownMasterPrivateKey := rsaMaster
              ownMasterPublicKey := rsaMaster.publicKey
              ownSubkeyPrivateKey := rsaSubkey
              ownSubkeyPublicKey := rsaSubkey.publicKey }
            packets { rsaPrivateKey := rsaSubkey, rsaPublicKey := rsaSubkey.publicKey }
            userId.1 password expirationSeconds (env.clock 0))
    | PGP_KEY_ALGORITHM_ED25519_X25519 =>
      let edMaster := P.generateEd25519Key (env.seed 0)
      let edSubkeyPrivateKey := P.generateX25519PrivateKey (env.seed 1)
      let edSubkeyPublicKey := P.x25519PublicKey edSubkeyPrivateKey
      let packets := generateEd25519Packets P env edMaster.1 edMaster.2 edSubkeyPrivateKey
        edSubkeyPublicKey userId.1 password expirationSeconds
      if packets.anyEmpty then (UNEXPECTED_ERROR, impl)
      else
        (NO_ERROR, storeGenerated P
          { impl with
            ownEd25519PrivateKey := edMaster.1
            ownEd25519PublicKey := edMaster.2
            ownX25519PrivateKey := edSubkeyPrivateKey
            ownX25519PublicKey := edSubkeyPublicKey }
          packets { x25519PrivateKey := edSubkeyPrivateKey, x25519PublicKey := edSubkeyPublicKey }
          userId.1 password expirationSeconds (env.clock 0))

/-! ### User IDs -/

/-- The argument checks every mutator starts with. -/
def rejects (impl : Impl) (password : Bytes) : Bool :=
  !impl.ownKeyGenerated || password = [] || !checkPasswordHash P impl.passwordCheckHash password

/-- The entry an `int` index points at, if it is in range. -/
def atIndex {α : Type} (xs : List α) (index : ℤ) : Option α :=
  if 0 ≤ index then xs[index.toNat]? else none

def SetPrimaryUserId (now : UInt32) (password : Bytes) (userIdIndex : ℤ) (impl : Impl) :
    Status × Impl :=
  match atIndex impl.ownUserIds userIdIndex with
  | none => (INVALID_ARGUMENT, impl)
  | some target =>
    if rejects P impl password then (INVALID_ARGUMENT, impl)
    else
      let newCert := signWithOwnMasterKey P impl 0x13
        (buildUserIdCertificationDocument (buildOwnMasterPubBody impl) target.uidText)
        (flagsAndExpiration 0x03 impl.keyExpirationSeconds ++ buildPrimaryUserIdSubpacket true) now
      if newCert = [] then (UNEXPECTED_ERROR, impl)
      else
        (NO_ERROR, { impl with
          ownUserIds :=
            (impl.ownUserIds.set userIdIndex.toNat { target with certSigPacket := newCert }).mapIdx
              fun i uid => { uid with isPrimary := (i : ℤ) = userIdIndex } })

/-- A failing `SetPrimaryUserId` leaves the user ID added. -/
def AddUserId (env : Env) (password : Bytes) (userId : Buffer) (makePrimary : Bool) (impl : Impl) :
    Status × Impl :=
  if userId.1 = [] ∨ rejects P impl password then (INVALID_ARGUMENT, impl)
  else
    let certSigPacket := signWithOwnMasterKey P impl 0x13
      (buildUserIdCertificationDocument (buildOwnMasterPubBody impl) userId.1)
      (flagsAndExpiration 0x03 impl.keyExpirationSeconds) (env.clock 1)
    if certSigPacket = [] then (UNEXPECTED_ERROR, impl)
    else
      let impl := { impl with
        ownUserIds := impl.ownUserIds ++
          [{ uidText := userId.1, certCreationTime := env.clock 0, certSigPacket }] }
      if makePrimary then
        SetPrimaryUserId P (env.clock 2) password (impl.ownUserIds.length - 1) impl
      else (NO_ERROR, impl)

def RevokeUserId (now : UInt32) (password : Bytes) (userIdIndex : ℤ) (reasonCode : UInt8)
    (reasonText : Buffer) (impl : Impl) : Status × Impl :=
  match atIndex impl.ownUserIds userIdIndex with
  | none => (INVALID_ARGUMENT, impl)
  | some uid =>
    if rejects P impl password then (INVALID_ARGUMENT, impl)
    else
      let revocationSig := signWithOwnMasterKey P impl 0x30
        (buildUserIdCertificationDocument (buildOwnMasterPubBody impl) uid.uidText)
        (buildRevocationReasonSubpacket reasonCode reasonText.1) now
      if revocationSig = [] then (UNEXPECTED_ERROR, impl)
      else
        (NO_ERROR, { impl with
          ownUserIds := impl.ownUserIds.set userIdIndex.toNat
            { uid with revocationSigPacket := revocationSig, isRevoked := true } })

/-! ### Subkeys -/

/-- The new subkey with its key material and creation time, before it is bound. -/
def freshSubkey (env : Env) (keyFlags : UInt8) (impl : Impl) : PgpOwnSubkey :=
  match impl.keyAlgorithm with
  | PGP_KEY_ALGORITHM_RSA =>
    let key := (P.generateRsaKey (env.seed 0) impl.rsaKeyBits.toNat).1
    { rsaPrivateKey := key, rsaPublicKey := key.publicKey, creationTime := env.clock 0 }
  | PGP_KEY_ALGORITHM_ED25519_X25519 =>
    if keyFlags = 0x02 then
      let key := P.generateEd25519Key (env.seed 0)
      { ed25519PrivateKey := key.1, ed25519PublicKey := key.2, isEd25519Sign := true
        creationTime := env.clock 0 }
    else
      let key := P.generateX25519PrivateKey (env.seed 0)
      { x25519PrivateKey := key, x25519PublicKey := P.x25519PublicKey key
        creationTime := env.clock 0 }

/-- The secret cleartext of one own subkey. -/
def subkeyCleartext (keyAlgorithm : PgpKeyAlgorithm) (subkey : PgpOwnSubkey) : Bytes :=
  match keyAlgorithm with
  | PGP_KEY_ALGORITHM_RSA => buildRsaSecretKeyCleartext subkey.rsaPrivateKey
  | PGP_KEY_ALGORITHM_ED25519_X25519 =>
    if subkey.isEd25519Sign then buildEd25519SecretKeyCleartext subkey.ed25519PrivateKey
    else buildX25519SecretKeyCleartext subkey.x25519PrivateKey

def AddSubkey (env : Env) (password : Bytes) (keyFlags : UInt8) (expirationSeconds : UInt32)
    (impl : Impl) : Status × Impl :=
  if rejects P impl password then (INVALID_ARGUMENT, impl)
  else if impl.keyAlgorithm = PGP_KEY_ALGORITHM_ED25519_X25519 ∧ keyFlags ≠ 0x0C ∧
      keyFlags ≠ 0x02 then (NOT_IMPLEMENTED, impl)
  else if impl.keyAlgorithm = PGP_KEY_ALGORITHM_RSA ∧ ¬ IsRsaKeySize impl.rsaKeyBits.toNat then
    (INVALID_ARGUMENT, impl)
  else
    let fresh := freshSubkey P env keyFlags impl
    let subkeyPubBody := buildOwnSubkeyPubBody impl.keyAlgorithm fresh
    let secretPacketBody := encryptSecretKeyMaterial P subkeyPubBody
      (subkeyCleartext impl.keyAlgorithm fresh) password (env.salt 0) (env.iv 0)
    let bindingSigPacket := signWithOwnMasterKey P impl 0x18
      (buildSubkeyBindingDocument (buildOwnMasterPubBody impl) subkeyPubBody)
      (flagsAndExpiration keyFlags expirationSeconds) (env.clock 1)
    if bindingSigPacket = [] ∨ secretPacketBody = [] then (UNEXPECTED_ERROR, impl)
    else
      (NO_ERROR, { impl with
        ownSubkeys := impl.ownSubkeys ++ [{ fresh with
          secretPacketBody, bindingSigPacket, expirationSeconds, keyFlags
          keyId := (computeFingerprintAndKeyId P subkeyPubBody).2
          fingerprint := (computeFingerprintAndKeyId P subkeyPubBody).1
          isRevoked := false }] })

def RevokeSubkey (now : UInt32) (password : Bytes) (subkeyIndex : ℤ) (reasonCode : UInt8)
    (reasonText : Buffer) (impl : Impl) : Status × Impl :=
  match atIndex impl.ownSubkeys subkeyIndex with
  | none => (INVALID_ARGUMENT, impl)
  | some subkey =>
    if rejects P impl password then (INVALID_ARGUMENT, impl)
    else
      let revocationSig := signWithOwnMasterKey P impl 0x28
        (buildSubkeyBindingDocument (buildOwnMasterPubBody impl)
          (buildOwnSubkeyPubBody impl.keyAlgorithm subkey))
        (buildRevocationReasonSubpacket reasonCode reasonText.1) now
      if revocationSig = [] then (UNEXPECTED_ERROR, impl)
      else
        (NO_ERROR, { impl with
          ownSubkeys := impl.ownSubkeys.set subkeyIndex.toNat
            { subkey with revocationSigPacket := revocationSig, isRevoked := true } })

/-- The user ID whose self-certification carries the primary key's expiration:
the first one marked primary, else the first one. -/
def primaryIndex (ownUserIds : List PgpOwnUserId) : Option ℕ :=
  match ownUserIds.findIdx? PgpOwnUserId.isPrimary with
  | some i => some i
  | none => if ownUserIds = [] then none else some 0

/-- A primary user ID keeps its flag when its self-certification is renewed. -/
def keptPrimaryFlag (uid : PgpOwnUserId) : Bytes :=
  if uid.isPrimary then buildPrimaryUserIdSubpacket true else []

def SetKeyExpiration (now : UInt32) (password : Bytes) (subkeyIndex : ℤ)
    (expirationSeconds : UInt32) (impl : Impl) : Status × Impl :=
  if rejects P impl password then (INVALID_ARGUMENT, impl)
  else if subkeyIndex = -1 then
    match primaryIndex impl.ownUserIds with
    | none => (UNEXPECTED_ERROR, impl)
    | some i =>
      match impl.ownUserIds[i]? with
      | none => (UNEXPECTED_ERROR, impl)
      | some primaryUid =>
        let newCert := signWithOwnMasterKey P impl 0x13
          (buildUserIdCertificationDocument (buildOwnMasterPubBody impl) primaryUid.uidText)
          (flagsAndExpiration 0x03 expirationSeconds ++ keptPrimaryFlag primaryUid) now
        if newCert = [] then (UNEXPECTED_ERROR, impl)
        else
          (NO_ERROR, { impl with
            ownUserIds := impl.ownUserIds.set i { primaryUid with certSigPacket := newCert }
            keyExpirationSeconds := expirationSeconds })
  else
    match atIndex impl.ownSubkeys subkeyIndex with
    | none => (INVALID_ARGUMENT, impl)
    | some subkey =>
      let newBinding := signWithOwnMasterKey P impl 0x18
        (buildSubkeyBindingDocument (buildOwnMasterPubBody impl)
          (buildOwnSubkeyPubBody impl.keyAlgorithm subkey))
        (flagsAndExpiration subkey.keyFlags expirationSeconds) now
      if newBinding = [] then (UNEXPECTED_ERROR, impl)
      else
        (NO_ERROR, { impl with
          ownSubkeys := impl.ownSubkeys.set subkeyIndex.toNat
            { subkey with bindingSigPacket := newBinding, expirationSeconds } })

/-! ### Password -/

def masterCleartext (impl : Impl) : Bytes :=
  match impl.keyAlgorithm with
  | PGP_KEY_ALGORITHM_RSA => buildRsaSecretKeyCleartext impl.ownMasterPrivateKey
  | PGP_KEY_ALGORITHM_ED25519_X25519 => buildEd25519SecretKeyCleartext impl.ownEd25519PrivateKey

def ChangePassword (env : Env) (oldPassword newPassword : Bytes) (impl : Impl) : Status × Impl :=
  if newPassword = [] ∨ rejects P impl oldPassword then (INVALID_ARGUMENT, impl)
  else
    let newMasterSecretBody := encryptSecretKeyMaterial P (buildOwnMasterPubBody impl)
      (masterCleartext impl) newPassword (env.salt 0) (env.iv 0)
    let newSubkeySecretBodies := impl.ownSubkeys.mapIdx fun i subkey =>
      encryptSecretKeyMaterial P (buildOwnSubkeyPubBody impl.keyAlgorithm subkey)
        (subkeyCleartext impl.keyAlgorithm subkey) newPassword (env.salt (i + 1)) (env.iv (i + 1))
    if newMasterSecretBody = [] ∨ [] ∈ newSubkeySecretBodies then (UNEXPECTED_ERROR, impl)
    else
      (NO_ERROR, { impl with
        ownMasterSecretPacketBody := newMasterSecretBody
        ownSubkeys := List.zipWith (fun subkey body => { subkey with secretPacketBody := body })
          impl.ownSubkeys newSubkeySecretBodies
        passwordCheckHash := P.sha256 newPassword })

end Identity

end HashCryptoLib.Pgp
