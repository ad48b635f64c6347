import HashCryptoLib.Pgp.Engine
import HashCryptoLib.Pgp.Step

/-!
The mutators with steps that throw. The random generator, the signing and the
protection of secret material can throw in the library; the functions around
them catch and answer with an empty packet, and the mutators test for that.
`Faults` says which steps of a call throw. Without faults the mutators are those
of the own identity, and a fault turns a call that would have succeeded into one
that reports `UNEXPECTED_ERROR`.
-/

namespace HashCryptoLib.Pgp

/-- Which steps of a call throw: the key generation, and the signings and the
protections of secret material by their number within the call. -/
structure Faults where
  generation : Bool
  signing : ℕ → Bool
  protection : ℕ → Bool

def Faults.none : Faults := ⟨false, fun _ => false, fun _ => false⟩

/-- The packet of a step, which is empty if the step threw. -/
def caught (throws : Bool) (packet : Bytes) : Bytes := if throws then [] else packet

theorem caught_eq (throws : Bool) (packet : Bytes) :
    caught throws packet = packet ∨ caught throws packet = [] := by
  cases throws with
  | false => exact Or.inl rfl
  | true => exact Or.inr rfl

section Mutators

variable (P : Primitives) (faults : Faults)

/-- The four packets of an identity, each of them empty if its step threw. -/
def GeneratedPackets.caught (packets : GeneratedPackets) : GeneratedPackets :=
  { packets with
    certSigPacket := Pgp.caught (faults.signing 0) packets.certSigPacket
    bindSigPacket := Pgp.caught (faults.signing 1) packets.bindSigPacket
    masterSecretBody := Pgp.caught (faults.protection 0) packets.masterSecretBody
    subkeySecretBody := Pgp.caught (faults.protection 1) packets.subkeySecretBody }

def GenerateKeyPairWith (env : Env) (userId : Buffer) (password : Bytes)
    (expirationSeconds : UInt32) (impl : Impl) : Status × Impl :=
  if userId.1 = [] ∨ password = [] then (INVALID_ARGUMENT, impl)
  else
    match impl.keyAlgorithm with
    | PGP_KEY_ALGORITHM_RSA =>
      if ¬ IsRsaKeySize impl.rsaKeyBits.toNat then (INVALID_ARGUMENT, impl)
      else if faults.generation then (UNEXPECTED_ERROR, impl)
      else
        let rsaMaster := (P.generateRsaKey (env.seed 0) impl.rsaKeyBits.toNat).1
        let rsaSubkey := (P.generateRsaKey (env.seed 1) impl.rsaKeyBits.toNat).1
        let packets := (generateRsaPackets P env rsaMaster rsaSubkey userId.1 password
          expirationSeconds).caught faults
        if packets.anyEmpty then (UNEXPECTED_ERROR, impl)
        else
          (NO_ERROR, storeGenerated P
            { impl with
              ownMasterPrivateKey := rsaMaster
              ownMasterPublicKey := rsaMaster.publicKey
              ownSubkeyPrivateKey := rsaSubkey
              ownSubkeyPublicKey := rsaSubkey.publicKey }
            packets { rsaPrivateKey := rsaSubkey, rsaPublicKey := rsaSubkey.publicKey }
            userId.1 password expirationSeconds (env.clock 0))
    | PGP_KEY_ALGORITHM_ED25519_X25519 =>
      if faults.generation then (UNEXPECTED_ERROR, impl)
      else
        let edMaster := P.generateEd25519Key (env.seed 0)
        let edSubkeyPrivateKey := P.generateX25519PrivateKey (env.seed 1)
        let edSubkeyPublicKey := P.x25519PublicKey edSubkeyPrivateKey
        let packets := (generateEd25519Packets P env edMaster.1 edMaster.2 edSubkeyPrivateKey
          edSubkeyPublicKey userId.1 password expirationSeconds).caught faults
        if packets.anyEmpty then (UNEXPECTED_ERROR, impl)
        else
          (NO_ERROR, storeGenerated P
            { impl with
              ownEd25519PrivateKey := edMaster.1
              ownEd25519PublicKey := edMaster.2
              ownX25519PrivateKey := edSubkeyPrivateKey
              ownX25519PublicKey := edSubkeyPublicKey }
            packets { x25519PrivateKey := edSubkeyPrivateKey, x25519PublicKey := edSubkeyPublicKey }
            userId.1 password expirationSeconds (env.clock 0))

/-- `throws` is the one signing of the call. -/
def SetPrimaryUserIdWith (throws : Bool) (now : UInt32) (password : Bytes) (userIdIndex : ℤ)
    (impl : Impl) : Status × Impl :=
  match atIndex impl.ownUserIds userIdIndex with
  | none => (INVALID_ARGUMENT, impl)
  | some target =>
    if rejects P impl password then (INVALID_ARGUMENT, impl)
    else
      let newCert := caught throws (signWithOwnMasterKey P impl 0x13
        (buildUserIdCertificationDocument (buildOwnMasterPubBody impl) target.uidText)
        (flagsAndExpiration 0x03 impl.keyExpirationSeconds ++ buildPrimaryUserIdSubpacket true) now)
      if newCert = [] then (UNEXPECTED_ERROR, impl)
      else
        (NO_ERROR, { impl with
          ownUserIds :=
            (impl.ownUserIds.set userIdIndex.toNat { target with certSigPacket := newCert }).mapIdx
              fun i uid => { uid with isPrimary := (i : ℤ) = userIdIndex } })

/-- Both signings of the call are steps of it. -/
def AddUserIdWith (env : Env) (password : Bytes) (userId : Buffer) (makePrimary : Bool)
    (impl : Impl) : Status × Impl :=
  if userId.1 = [] ∨ rejects P impl password then (INVALID_ARGUMENT, impl)
  else
    let certSigPacket := caught (faults.signing 0) (signWithOwnMasterKey P impl 0x13
      (buildUserIdCertificationDocument (buildOwnMasterPubBody impl) userId.1)
      (flagsAndExpiration 0x03 impl.keyExpirationSeconds) (env.clock 1))
    if certSigPacket = [] then (UNEXPECTED_ERROR, impl)
    else
      let impl := { impl with
        ownUserIds := impl.ownUserIds ++
          [{ uidText := userId.1, certCreationTime := env.clock 0, certSigPacket }] }
      if makePrimary then
        SetPrimaryUserIdWith P (faults.signing 1) (env.clock 2) password
          (impl.ownUserIds.length - 1) impl
      else (NO_ERROR, impl)

def RevokeUserIdWith (now : UInt32) (password : Bytes) (userIdIndex : ℤ) (reasonCode : UInt8)
    (reasonText : Buffer) (impl : Impl) : Status × Impl :=
  match atIndex impl.ownUserIds userIdIndex with
  | none => (INVALID_ARGUMENT, impl)
  | some uid =>
    if rejects P impl password then (INVALID_ARGUMENT, impl)
    else
      let revocationSig := caught (faults.signing 0) (signWithOwnMasterKey P impl 0x30
        (buildUserIdCertificationDocument (buildOwnMasterPubBody impl) uid.uidText)
        (buildRevocationReasonSubpacket reasonCode reasonText.1) now)
      if revocationSig = [] then (UNEXPECTED_ERROR, impl)
      else
        (NO_ERROR, { impl with
          ownUserIds := impl.ownUserIds.set userIdIndex.toNat
            { uid with revocationSigPacket := revocationSig, isRevoked := true } })

def AddSubkeyWith (env : Env) (password : Bytes) (keyFlags : UInt8) (expirationSeconds : UInt32)
    (impl : Impl) : Status × Impl :=
  if rejects P impl password then (INVALID_ARGUMENT, impl)
  else if impl.keyAlgorithm = PGP_KEY_ALGORITHM_ED25519_X25519 ∧ keyFlags ≠ 0x0C ∧
      keyFlags ≠ 0x02 then (NOT_IMPLEMENTED, impl)
  else if impl.keyAlgorithm = PGP_KEY_ALGORITHM_RSA ∧ ¬ IsRsaKeySize impl.rsaKeyBits.toNat then
    (INVALID_ARGUMENT, impl)
  else if faults.generation then (UNEXPECTED_ERROR, impl)
  else
    let fresh := freshSubkey P env keyFlags impl
    let subkeyPubBody := buildOwnSubkeyPubBody impl.keyAlgorithm fresh
    let secretPacketBody := caught (faults.protection 0) (encryptSecretKeyMaterial P subkeyPubBody
      (subkeyCleartext impl.keyAlgorithm fresh) password (env.salt 0) (env.iv 0))
    let bindingSigPacket := caught (faults.signing 0) (signWithOwnMasterKey P impl 0x18
      (buildSubkeyBindingDocument (buildOwnMasterPubBody impl) subkeyPubBody)
      (flagsAndExpiration keyFlags expirationSeconds) (env.clock 1))
    if bindingSigPacket = [] ∨ secretPacketBody = [] then (UNEXPECTED_ERROR, impl)
    else
      (NO_ERROR, { impl with
        ownSubkeys := impl.ownSubkeys ++ [{ fresh with
          secretPacketBody, bindingSigPacket, expirationSeconds, keyFlags
          keyId := (computeFingerprintAndKeyId P subkeyPubBody).2
          fingerprint := (computeFingerprintAndKeyId P subkeyPubBody).1
          isRevoked := false }] })

def RevokeSubkeyWith (now : UInt32) (password : Bytes) (subkeyIndex : ℤ) (reasonCode : UInt8)
    (reasonText : Buffer) (impl : Impl) : Status × Impl :=
  match atIndex impl.ownSubkeys subkeyIndex with
  | none => (INVALID_ARGUMENT, impl)
  | some subkey =>
    if rejects P impl password then (INVALID_ARGUMENT, impl)
    else
      let revocationSig := caught (faults.signing 0) (signWithOwnMasterKey P impl 0x28
        (buildSubkeyBindingDocument (buildOwnMasterPubBody impl)
          (buildOwnSubkeyPubBody impl.keyAlgorithm subkey))
        (buildRevocationReasonSubpacket reasonCode reasonText.1) now)
      if revocationSig = [] then (UNEXPECTED_ERROR, impl)
      else
        (NO_ERROR, { impl with
          ownSubkeys := impl.ownSubkeys.set subkeyIndex.toNat
            { subkey with revocationSigPacket := revocationSig, isRevoked := true } })

def SetKeyExpirationWith (now : UInt32) (password : Bytes) (subkeyIndex : ℤ)
    (expirationSeconds : UInt32) (impl : Impl) : Status × Impl :=
  if rejects P impl password then (INVALID_ARGUMENT, impl)
  else if subkeyIndex = -1 then
    match primaryIndex impl.ownUserIds with
    | none => (UNEXPECTED_ERROR, impl)
    | some i =>
      match impl.ownUserIds[i]? with
      | none => (UNEXPECTED_ERROR, impl)
      | some primaryUid =>
        let newCert := caught (faults.signing 0) (signWithOwnMasterKey P impl 0x13
          (buildUserIdCertificationDocument (buildOwnMasterPubBody impl) primaryUid.uidText)
          (flagsAndExpiration 0x03 expirationSeconds ++ keptPrimaryFlag primaryUid) now)
        if newCert = [] then (UNEXPECTED_ERROR, impl)
        else
          (NO_ERROR, { impl with
            ownUserIds := impl.ownUserIds.set i { primaryUid with certSigPacket := newCert }
            keyExpirationSeconds := expirationSeconds })
  else
    match atIndex impl.ownSubkeys subkeyIndex with
    | none => (INVALID_ARGUMENT, impl)
    | some subkey =>
      let newBinding := caught (faults.signing 0) (signWithOwnMasterKey P impl 0x18
        (buildSubkeyBindingDocument (buildOwnMasterPubBody impl)
          (buildOwnSubkeyPubBody impl.keyAlgorithm subkey))
        (flagsAndExpiration subkey.keyFlags expirationSeconds) now)
      if newBinding = [] then (UNEXPECTED_ERROR, impl)
      else
        (NO_ERROR, { impl with
          ownSubkeys := impl.ownSubkeys.set subkeyIndex.toNat
            { subkey with bindingSigPacket := newBinding, expirationSeconds } })

/-- The master key is protected first, then the subkeys in turn; nothing is
stored before all of them are. -/
def ChangePasswordWith (env : Env) (oldPassword newPassword : Bytes) (impl : Impl) :
    Status × Impl :=
  if newPassword = [] ∨ rejects P impl oldPassword then (INVALID_ARGUMENT, impl)
  else
    let newMasterSecretBody := caught (faults.protection 0) (encryptSecretKeyMaterial P
      (buildOwnMasterPubBody impl) (masterCleartext impl) newPassword (env.salt 0) (env.iv 0))
    let newSubkeySecretBodies := impl.ownSubkeys.mapIdx fun i subkey =>
      caught (faults.protection (i + 1)) (encryptSecretKeyMaterial P
        (buildOwnSubkeyPubBody impl.keyAlgorithm subkey) (subkeyCleartext impl.keyAlgorithm subkey)
        newPassword (env.salt (i + 1)) (env.iv (i + 1)))
    if newMasterSecretBody = [] ∨ [] ∈ newSubkeySecretBodies then (UNEXPECTED_ERROR, impl)
    else
      (NO_ERROR, { impl with
        ownMasterSecretPacketBody := newMasterSecretBody
        ownSubkeys := List.zipWith (fun subkey body => { subkey with secretPacketBody := body })
          impl.ownSubkeys newSubkeySecretBodies
        passwordCheckHash := P.sha256 newPassword })

/-- Delivers a certificate over the master key and leaves the engine as it is. -/
def RevokeKeyArmoredWith (now : UInt32) (password : Bytes) (reasonCode : UInt8)
    (reasonText : Buffer) (buffer : Option Int32) (impl : Impl) : Except Fault (Outcome × Impl) :=
  if rejects P impl password then .ok ({ status := INVALID_ARGUMENT }, impl)
  else
    let revocationSigPacket := caught (faults.signing 0) (signWithOwnMasterKey P impl 0x20
      (buildKeyHashPrefix (buildOwnMasterPubBody impl))
      (buildRevocationReasonSubpacket reasonCode reasonText.1) now)
    if revocationSigPacket = [] then .ok ({ status := UNEXPECTED_ERROR }, impl)
    else
      (deliver buffer 0 (armorEncode (ascii "PGP PUBLIC KEY BLOCK") revocationSigPacket)).map
        fun outcome => (outcome, impl)

end Mutators

/-! ### What a fault does -/

/-- A call with faults is the call without them, or it fails and changes nothing. -/
def AgreesOrFails (impl : Impl) (faulty faultless : Status × Impl) : Prop :=
  faulty = faultless ∨ faulty = (UNEXPECTED_ERROR, impl)

/-- The end of most mutators: store what a step made, unless it threw. -/
theorem storeUnlessThrown {impl : Impl} (throws : Bool) (packet : Bytes) (store : Bytes → Impl) :
    AgreesOrFails impl
      (if caught throws packet = [] then (UNEXPECTED_ERROR, impl)
        else (NO_ERROR, store (caught throws packet)))
      (if packet = [] then (UNEXPECTED_ERROR, impl) else (NO_ERROR, store packet)) := by
  rcases caught_eq throws packet with hsame | hempty
  · rw [hsame]
    exact Or.inl rfl
  · rw [if_pos hempty]
    exact Or.inr rfl

section Agreement

variable (P : Primitives) (faults : Faults)

theorem SetPrimaryUserIdWith_agrees (throws : Bool) (now : UInt32) (password : Bytes)
    (userIdIndex : ℤ) (impl : Impl) :
    AgreesOrFails impl (SetPrimaryUserIdWith P throws now password userIdIndex impl)
      (SetPrimaryUserId P now password userIdIndex impl) := by
  unfold SetPrimaryUserIdWith SetPrimaryUserId
  cases atIndex impl.ownUserIds userIdIndex with
  | none => exact Or.inl rfl
  | some target =>
      cases rejects P impl password with
      | true => exact Or.inl rfl
      | false =>
          exact storeUnlessThrown throws _ fun newCert => { impl with
            ownUserIds :=
              (impl.ownUserIds.set userIdIndex.toNat
                { target with certSigPacket := newCert }).mapIdx
                  fun i uid => { uid with isPrimary := (i : ℤ) = userIdIndex } }

theorem RevokeUserIdWith_agrees (now : UInt32) (password : Bytes) (userIdIndex : ℤ)
    (reasonCode : UInt8) (reasonText : Buffer) (impl : Impl) :
    AgreesOrFails impl
      (RevokeUserIdWith P faults now password userIdIndex reasonCode reasonText impl)
      (RevokeUserId P now password userIdIndex reasonCode reasonText impl) := by
  unfold RevokeUserIdWith RevokeUserId
  cases atIndex impl.ownUserIds userIdIndex with
  | none => exact Or.inl rfl
  | some uid =>
      cases rejects P impl password with
      | true => exact Or.inl rfl
      | false =>
          exact storeUnlessThrown (faults.signing 0) _ fun revocationSig => { impl with
            ownUserIds := impl.ownUserIds.set userIdIndex.toNat
              { uid with revocationSigPacket := revocationSig, isRevoked := true } }

theorem RevokeSubkeyWith_agrees (now : UInt32) (password : Bytes) (subkeyIndex : ℤ)
    (reasonCode : UInt8) (reasonText : Buffer) (impl : Impl) :
    AgreesOrFails impl
      (RevokeSubkeyWith P faults now password subkeyIndex reasonCode reasonText impl)
      (RevokeSubkey P now password subkeyIndex reasonCode reasonText impl) := by
  unfold RevokeSubkeyWith RevokeSubkey
  cases atIndex impl.ownSubkeys subkeyIndex with
  | none => exact Or.inl rfl
  | some subkey =>
      cases rejects P impl password with
      | true => exact Or.inl rfl
      | false =>
          exact storeUnlessThrown (faults.signing 0) _ fun revocationSig => { impl with
            ownSubkeys := impl.ownSubkeys.set subkeyIndex.toNat
              { subkey with revocationSigPacket := revocationSig, isRevoked := true } }

theorem SetKeyExpirationWith_agrees (now : UInt32) (password : Bytes) (subkeyIndex : ℤ)
    (expirationSeconds : UInt32) (impl : Impl) :
    AgreesOrFails impl
      (SetKeyExpirationWith P faults now password subkeyIndex expirationSeconds impl)
      (SetKeyExpiration P now password subkeyIndex expirationSeconds impl) := by
  unfold SetKeyExpirationWith SetKeyExpiration
  by_cases hpassword : rejects P impl password = true
  · rw [if_pos hpassword, if_pos hpassword]
    exact Or.inl rfl
  rw [if_neg hpassword, if_neg hpassword]
  by_cases hindex : subkeyIndex = -1
  · rw [if_pos hindex, if_pos hindex]
    cases primaryIndex impl.ownUserIds with
    | none => exact Or.inl rfl
    | some i =>
        dsimp only
        cases impl.ownUserIds[i]? with
        | none => exact Or.inl rfl
        | some primaryUid =>
            exact storeUnlessThrown (faults.signing 0) _ fun newCert => { impl with
              ownUserIds := impl.ownUserIds.set i { primaryUid with certSigPacket := newCert }
              keyExpirationSeconds := expirationSeconds }
  · rw [if_neg hindex, if_neg hindex]
    cases atIndex impl.ownSubkeys subkeyIndex with
    | none => exact Or.inl rfl
    | some subkey =>
        exact storeUnlessThrown (faults.signing 0) _ fun newBinding => { impl with
          ownSubkeys := impl.ownSubkeys.set subkeyIndex.toNat
            { subkey with bindingSigPacket := newBinding, expirationSeconds } }

theorem AddSubkeyWith_agrees (env : Env) (password : Bytes) (keyFlags : UInt8)
    (expirationSeconds : UInt32) (impl : Impl) :
    AgreesOrFails impl (AddSubkeyWith P faults env password keyFlags expirationSeconds impl)
      (AddSubkey P env password keyFlags expirationSeconds impl) := by
  unfold AddSubkeyWith AddSubkey
  by_cases hpassword : rejects P impl password = true
  · rw [if_pos hpassword, if_pos hpassword]
    exact Or.inl rfl
  rw [if_neg hpassword, if_neg hpassword]
  by_cases hflags : impl.keyAlgorithm = PGP_KEY_ALGORITHM_ED25519_X25519 ∧ keyFlags ≠ 0x0C ∧
      keyFlags ≠ 0x02
  · rw [if_pos hflags, if_pos hflags]
    exact Or.inl rfl
  rw [if_neg hflags, if_neg hflags]
  by_cases hbits : impl.keyAlgorithm = PGP_KEY_ALGORITHM_RSA ∧ ¬ IsRsaKeySize impl.rsaKeyBits.toNat
  · rw [if_pos hbits, if_pos hbits]
    exact Or.inl rfl
  rw [if_neg hbits, if_neg hbits]
  by_cases hgeneration : faults.generation = true
  · rw [if_pos hgeneration]
    exact Or.inr rfl
  rw [if_neg hgeneration]
  dsimp only
  -- either both packets are those of the call without faults, or one is empty
  rcases caught_eq (faults.protection 0) (encryptSecretKeyMaterial P
    (buildOwnSubkeyPubBody impl.keyAlgorithm (freshSubkey P env keyFlags impl))
    (subkeyCleartext impl.keyAlgorithm (freshSubkey P env keyFlags impl)) password (env.salt 0)
    (env.iv 0)) with hbody | hbody
  · rw [hbody]
    rcases caught_eq (faults.signing 0) (signWithOwnMasterKey P impl 0x18
      (buildSubkeyBindingDocument (buildOwnMasterPubBody impl)
        (buildOwnSubkeyPubBody impl.keyAlgorithm (freshSubkey P env keyFlags impl)))
      (flagsAndExpiration keyFlags expirationSeconds) (env.clock 1)) with hsig | hsig
    · rw [hsig]
      exact Or.inl rfl
    · rw [if_pos (Or.inl hsig)]
      exact Or.inr rfl
  · rw [if_pos (Or.inr hbody)]
    exact Or.inr rfl

theorem ChangePasswordWith_agrees (env : Env) (oldPassword newPassword : Bytes) (impl : Impl) :
    AgreesOrFails impl (ChangePasswordWith P faults env oldPassword newPassword impl)
      (ChangePassword P env oldPassword newPassword impl) := by
  unfold ChangePasswordWith ChangePassword
  by_cases hguard : newPassword = [] ∨ rejects P impl oldPassword = true
  · rw [if_pos hguard, if_pos hguard]
    exact Or.inl rfl
  rw [if_neg hguard, if_neg hguard]
  dsimp only
  by_cases hmaster : caught (faults.protection 0) (encryptSecretKeyMaterial P
      (buildOwnMasterPubBody impl) (masterCleartext impl) newPassword (env.salt 0) (env.iv 0)) = []
  · rw [if_pos (Or.inl hmaster)]
    exact Or.inr rfl
  by_cases hsubkeys : [] ∈ impl.ownSubkeys.mapIdx fun i subkey =>
      caught (faults.protection (i + 1)) (encryptSecretKeyMaterial P
        (buildOwnSubkeyPubBody impl.keyAlgorithm subkey) (subkeyCleartext impl.keyAlgorithm subkey)
        newPassword (env.salt (i + 1)) (env.iv (i + 1)))
  · rw [if_pos (Or.inr hsubkeys)]
    exact Or.inr rfl
  -- no step of the loop threw
  have hsame : (impl.ownSubkeys.mapIdx fun i subkey =>
      caught (faults.protection (i + 1)) (encryptSecretKeyMaterial P
        (buildOwnSubkeyPubBody impl.keyAlgorithm subkey) (subkeyCleartext impl.keyAlgorithm subkey)
        newPassword (env.salt (i + 1)) (env.iv (i + 1)))) =
      impl.ownSubkeys.mapIdx fun i subkey => encryptSecretKeyMaterial P
        (buildOwnSubkeyPubBody impl.keyAlgorithm subkey) (subkeyCleartext impl.keyAlgorithm subkey)
        newPassword (env.salt (i + 1)) (env.iv (i + 1)) := by
    apply List.ext_getElem
    · simp
    · intro i h h'
      rw [List.getElem_mapIdx, List.getElem_mapIdx]
      refine (caught_eq _ _).resolve_right fun hempty => hsubkeys ?_
      rw [List.mem_mapIdx]
      exact ⟨i, by simpa using h, hempty⟩
  rw [hsame, (caught_eq _ _).resolve_right hmaster]
  exact Or.inl rfl

theorem GeneratedPackets.caught_eq {packets : GeneratedPackets}
    (hfull : (packets.caught faults).anyEmpty = false) : packets.caught faults = packets := by
  simp only [anyEmpty, Bool.or_eq_false_iff] at hfull
  obtain ⟨⟨⟨hcert, hbind⟩, hmaster⟩, hsubkey⟩ := hfull
  unfold GeneratedPackets.caught
  rw [(Pgp.caught_eq _ _).resolve_right (of_decide_eq_false hcert),
    (Pgp.caught_eq _ _).resolve_right (of_decide_eq_false hbind),
    (Pgp.caught_eq _ _).resolve_right (of_decide_eq_false hmaster),
    (Pgp.caught_eq _ _).resolve_right (of_decide_eq_false hsubkey)]

theorem GenerateKeyPairWith_agrees (env : Env) (userId : Buffer) (password : Bytes)
    (expirationSeconds : UInt32) (impl : Impl) :
    AgreesOrFails impl (GenerateKeyPairWith P faults env userId password expirationSeconds impl)
      (GenerateKeyPair P env userId password expirationSeconds impl) := by
  unfold GenerateKeyPairWith GenerateKeyPair
  by_cases hguard : userId.1 = [] ∨ password = []
  · rw [if_pos hguard, if_pos hguard]
    exact Or.inl rfl
  rw [if_neg hguard, if_neg hguard]
  cases impl.keyAlgorithm with
  | PGP_KEY_ALGORITHM_RSA =>
      dsimp only
      by_cases hbits : ¬ IsRsaKeySize impl.rsaKeyBits.toNat
      · rw [if_pos hbits, if_pos hbits]
        exact Or.inl rfl
      rw [if_neg hbits, if_neg hbits]
      by_cases hgeneration : faults.generation = true
      · rw [if_pos hgeneration]
        exact Or.inr rfl
      rw [if_neg hgeneration]
      cases hempty : ((generateRsaPackets P env
          (P.generateRsaKey (env.seed 0) impl.rsaKeyBits.toNat).1
          (P.generateRsaKey (env.seed 1) impl.rsaKeyBits.toNat).1 userId.1 password
          expirationSeconds).caught faults).anyEmpty with
      | true => exact Or.inr rfl
      | false =>
          have hsame := GeneratedPackets.caught_eq faults hempty
          rw [hsame] at hempty ⊢
          simp only [hempty]
          exact Or.inl rfl
  | PGP_KEY_ALGORITHM_ED25519_X25519 =>
      dsimp only
      by_cases hgeneration : faults.generation = true
      · rw [if_pos hgeneration]
        exact Or.inr rfl
      rw [if_neg hgeneration]
      cases hempty : ((generateEd25519Packets P env (P.generateEd25519Key (env.seed 0)).1
          (P.generateEd25519Key (env.seed 0)).2 (P.generateX25519PrivateKey (env.seed 1))
          (P.x25519PublicKey (P.generateX25519PrivateKey (env.seed 1))) userId.1 password
          expirationSeconds).caught faults).anyEmpty with
      | true => exact Or.inr rfl
      | false =>
          have hsame := GeneratedPackets.caught_eq faults hempty
          rw [hsame] at hempty ⊢
          simp only [hempty]
          exact Or.inl rfl

end Agreement

/-! ### Calls -/

/-- One call, with the steps of it that throw. -/
def EngineOp.callWith (P : Primitives) (faults : Faults) (env : Env) :
    EngineOp → Impl → Status × Impl
  | .generateKeyPair userId password expirationSeconds =>
    GenerateKeyPairWith P faults env userId password expirationSeconds
  | .addUserId password userId makePrimary =>
    AddUserIdWith P faults env password userId makePrimary
  | .revokeUserId password userIdIndex reasonCode reasonText =>
    RevokeUserIdWith P faults (env.clock 0) password userIdIndex reasonCode reasonText
  | .setPrimaryUserId password userIdIndex =>
    SetPrimaryUserIdWith P (faults.signing 0) (env.clock 0) password userIdIndex
  | .addSubkey password keyFlags expirationSeconds =>
    AddSubkeyWith P faults env password keyFlags expirationSeconds
  | .revokeSubkey password subkeyIndex reasonCode reasonText =>
    RevokeSubkeyWith P faults (env.clock 0) password subkeyIndex reasonCode reasonText
  | .setKeyExpiration password subkeyIndex expirationSeconds =>
    SetKeyExpirationWith P faults (env.clock 0) password subkeyIndex expirationSeconds
  | .changePassword oldPassword newPassword =>
    ChangePasswordWith P faults env oldPassword newPassword
  | .importPeerPublicKey keyBlock => ImportPeerPublicKey P (env.clock 0) keyBlock
  | .importAdditionalRecipientPublicKey keyBlock =>
    ImportAdditionalRecipientPublicKey P (env.clock 0) keyBlock
  | .setSymmetricCipherPreference algorithm => SetSymmetricCipherPreference algorithm

/-- Without faults this is the call. -/
theorem EngineOp.callWith_none (P : Primitives) (env : Env) (op : EngineOp) (impl : Impl) :
    op.callWith P Faults.none env impl = op.call P env impl := by
  cases op <;> rfl

end HashCryptoLib.Pgp
