import HashCryptoLib.Pgp.Atomicity

/-!
One password for all secrets. The master key and every subkey are protected one
by one, each with its own salt and IV. In every state that calls lead to, steps
that throw included, the password that is accepted opens all of them.
-/

namespace HashCryptoLib.Pgp

open Cursor

/-! ### Opening a protected body -/

/-- The secret part of a body: the usage octet 254, AES-256, iterated and salted
SHA-256, the salt, the count, the IV, and the encrypted secret with its SHA-1. -/
def decryptSecretPart (P : Primitives) (secretPart password : Bytes) : Option Bytes :=
  if secretPart.take 4 ≠ [254, 9, 3, 8] then none
  else if hlen : 29 ≤ secretPart.length then
    let salt : Octets 8 := ⟨(secretPart.drop 4).take 8, by simp; omega⟩
    let iv : Octets 16 := ⟨(secretPart.drop 13).take 16, by simp; omega⟩
    let s2kKey := deriveS2kKey P password salt (secretPart.getD 12 0) 32
    let plainWithCheck := cfbDecrypt P s2kKey iv (secretPart.drop 29)
    let cleartext := plainWithCheck.take (plainWithCheck.length - 20)
    if plainWithCheck.drop (plainWithCheck.length - 20) = (P.sha1 cleartext).1 then some cleartext
    else none
  else none

/-- The reader of a protected secret-key body behind its known public part. -/
def decryptSecretKeyMaterial (P : Primitives) (publicKeyPacketBody secretBody password : Bytes) :
    Option Bytes :=
  if secretBody.take publicKeyPacketBody.length = publicKeyPacketBody then
    decryptSecretPart P (secretBody.drop publicKeyPacketBody.length) password
  else none

theorem decryptSecretPart_encrypted (P : Primitives) (cleartext password : Bytes)
    (salt : Octets 8) (iv : Octets 16) :
    decryptSecretPart P ([254, 9, 3, 8] ++ (salt.1 ++ (0x60 :: (iv.1 ++
        cfbEncrypt P (deriveS2kKey P password salt 0x60 32) iv
          (cleartext ++ (P.sha1 cleartext).1))))) password = some cleartext := by
  have hsalt := Octets.length_eq salt
  have hiv := Octets.length_eq iv
  have hdigest := Octets.length_eq (P.sha1 cleartext)
  generalize hencrypted : cfbEncrypt P (deriveS2kKey P password salt 0x60 32) iv
    (cleartext ++ (P.sha1 cleartext).1) = encrypted
  generalize hsecret : [254, 9, 3, 8] ++ (salt.1 ++ (0x60 :: (iv.1 ++ encrypted))) = secretPart
  -- where each field of the secret part stands
  have husageAt : At secretPart 0 ([254, 9, 3, 8] ++ (salt.1 ++ (0x60 :: (iv.1 ++ encrypted)))) :=
    hsecret ▸ at_zero _
  have hsaltAt : At secretPart 4 (salt.1 ++ (0x60 :: (iv.1 ++ encrypted))) := husageAt.advance
  have hcountAt : At secretPart 12 (0x60 :: (iv.1 ++ encrypted)) := by
    simpa [hsalt] using hsaltAt.advance
  have hencryptedAt : At secretPart 29 encrypted := by
    simpa [hiv] using hcountAt.next.advance
  have hsaltTake := hsaltAt.take_eq
  have hivTake := hcountAt.next.take_eq
  rw [hsalt] at hsaltTake
  rw [hiv] at hivTake
  have hlength := hencryptedAt.length_eq
  unfold decryptSecretPart
  rw [if_neg (by simpa using husageAt.take_eq), dif_pos (by omega)]
  simp only [hsaltTake, hivTake, hencryptedAt.drop_eq, List.getD_eq_getElem?_getD, hcountAt.head,
    Option.getD_some, ← hencrypted, cfbDecrypt_cfbEncrypt]
  simp [hdigest]

theorem decryptSecretKeyMaterial_encrypt (P : Primitives)
    (publicKeyPacketBody cleartext password : Bytes) (salt : Octets 8) (iv : Octets 16) :
    decryptSecretKeyMaterial P publicKeyPacketBody
        (encryptSecretKeyMaterial P publicKeyPacketBody cleartext password salt iv) password =
      some cleartext := by
  have hbody : encryptSecretKeyMaterial P publicKeyPacketBody cleartext password salt iv =
      publicKeyPacketBody ++ ([254, 9, 3, 8] ++ (salt.1 ++ (0x60 :: (iv.1 ++
        cfbEncrypt P (deriveS2kKey P password salt 0x60 32) iv
          (cleartext ++ (P.sha1 cleartext).1))))) := by
    rw [encryptSecretKeyMaterial]
    simp [length_deriveS2kKey]
  rw [hbody, decryptSecretKeyMaterial, List.take_left, List.drop_left, if_pos rfl]
  exact decryptSecretPart_encrypted P cleartext password salt iv

/-! ### The secrets of an identity -/

/-- A key with its public body, its secret, and the stored body that protects it. -/
structure SecretKey where
  publicBody : Bytes
  cleartext : Bytes
  secretBody : Bytes

def PgpOwnSubkey.secretKey (keyAlgorithm : PgpKeyAlgorithm) (subkey : PgpOwnSubkey) : SecretKey :=
  ⟨buildOwnSubkeyPubBody keyAlgorithm subkey, subkeyCleartext keyAlgorithm subkey,
    subkey.secretPacketBody⟩

/-- The master key and the subkeys. -/
def secretKeys (impl : Impl) : List SecretKey :=
  ⟨buildOwnMasterPubBody impl, masterCleartext impl, impl.ownMasterSecretPacketBody⟩ ::
    impl.ownSubkeys.map (PgpOwnSubkey.secretKey impl.keyAlgorithm)

def SecretKey.OpenedBy (P : Primitives) (password : Bytes) (key : SecretKey) : Prop :=
  decryptSecretKeyMaterial P key.publicBody key.secretBody password = some key.cleartext

/-- The password is accepted, and every secret decrypts under it. -/
def CurrentPassword (P : Primitives) (impl : Impl) (password : Bytes) : Prop :=
  rejects P impl password = false ∧ ∀ key ∈ secretKeys impl, key.OpenedBy P password

/-- Neither the password check nor any secret is touched. -/
structure SameSecrets (impl impl' : Impl) : Prop where
  generated : impl'.ownKeyGenerated = impl.ownKeyGenerated
  checkHash : impl'.passwordCheckHash = impl.passwordCheckHash
  keys : secretKeys impl' = secretKeys impl

theorem SameSecrets.refl (impl : Impl) : SameSecrets impl impl := ⟨rfl, rfl, rfl⟩

theorem SameSecrets.rejects {impl impl' : Impl} (h : SameSecrets impl impl') (P : Primitives)
    (password : Bytes) : rejects P impl' password = rejects P impl password := by
  simp only [Pgp.rejects, h.generated, h.checkHash]

theorem SameSecrets.currentPassword_iff {P : Primitives} {impl impl' : Impl}
    (h : SameSecrets impl impl') (password : Bytes) :
    CurrentPassword P impl' password ↔ CurrentPassword P impl password := by
  simp only [CurrentPassword, h.rejects, h.keys]

/-- Writing back a subkey with the same secret. -/
theorem SameSecrets.setSubkey {impl : Impl} {i : ℕ} {subkey subkey' : PgpOwnSubkey}
    (hsubkey : impl.ownSubkeys[i]? = some subkey)
    (hsame : subkey'.secretKey impl.keyAlgorithm = subkey.secretKey impl.keyAlgorithm) :
    SameSecrets impl { impl with ownSubkeys := impl.ownSubkeys.set i subkey' } := by
  have hset : (impl.ownSubkeys.set i subkey').map (PgpOwnSubkey.secretKey impl.keyAlgorithm) =
      impl.ownSubkeys.map (PgpOwnSubkey.secretKey impl.keyAlgorithm) := by
    apply List.ext_getElem?
    intro j
    rw [List.getElem?_map, List.getElem?_map, List.getElem?_set]
    split_ifs with hij hlen
    · subst hij
      rw [hsubkey, Option.map_some, Option.map_some, hsame]
    · subst hij
      exact absurd (List.getElem?_eq_some_iff.mp hsubkey).1 hlen
    · rfl
  exact ⟨rfl, rfl, congrArg (List.cons _) hset⟩

section Preserved

variable {P : Primitives} {faults : Faults} {env : Env} {impl : Impl}

theorem SetPrimaryUserIdWith_sameSecrets (throws : Bool) (now : UInt32) (password : Bytes)
    (userIdIndex : ℤ) :
    SameSecrets impl (SetPrimaryUserIdWith P throws now password userIdIndex impl).2 := by
  unfold SetPrimaryUserIdWith
  split
  · exact SameSecrets.refl impl
  · dsimp only
    split_ifs <;> exact ⟨rfl, rfl, rfl⟩

theorem AddUserIdWith_sameSecrets (password : Bytes) (userId : Buffer) (makePrimary : Bool) :
    SameSecrets impl (AddUserIdWith P faults env password userId makePrimary impl).2 := by
  unfold AddUserIdWith
  dsimp only
  split_ifs
  · exact SameSecrets.refl impl
  · exact SameSecrets.refl impl
  · obtain ⟨hgenerated, hcheckHash, hkeys⟩ := SetPrimaryUserIdWith_sameSecrets (P := P)
      (faults.signing 1) (env.clock 2) password _
    exact ⟨hgenerated, hcheckHash, hkeys⟩
  · exact ⟨rfl, rfl, rfl⟩

theorem RevokeUserIdWith_sameSecrets (now : UInt32) (password : Bytes) (userIdIndex : ℤ)
    (reasonCode : UInt8) (reasonText : Buffer) :
    SameSecrets impl
      (RevokeUserIdWith P faults now password userIdIndex reasonCode reasonText impl).2 := by
  unfold RevokeUserIdWith
  split
  · exact SameSecrets.refl impl
  · dsimp only
    split_ifs <;> exact ⟨rfl, rfl, rfl⟩

theorem RevokeSubkeyWith_sameSecrets (now : UInt32) (password : Bytes) (subkeyIndex : ℤ)
    (reasonCode : UInt8) (reasonText : Buffer) :
    SameSecrets impl
      (RevokeSubkeyWith P faults now password subkeyIndex reasonCode reasonText impl).2 := by
  unfold RevokeSubkeyWith
  split
  · exact SameSecrets.refl impl
  · rename_i subkey hsubkey
    dsimp only
    split_ifs
    · exact SameSecrets.refl impl
    · exact SameSecrets.refl impl
    · exact SameSecrets.setSubkey (atIndex_eq_some hsubkey).2 rfl

theorem SetKeyExpirationWith_sameSecrets (now : UInt32) (password : Bytes) (subkeyIndex : ℤ)
    (expirationSeconds : UInt32) :
    SameSecrets impl
      (SetKeyExpirationWith P faults now password subkeyIndex expirationSeconds impl).2 := by
  unfold SetKeyExpirationWith
  split
  · exact SameSecrets.refl impl
  split
  · split
    · exact SameSecrets.refl impl
    · split
      · exact SameSecrets.refl impl
      · dsimp only
        split_ifs <;> exact ⟨rfl, rfl, rfl⟩
  · split
    · exact SameSecrets.refl impl
    · rename_i subkey hsubkey
      dsimp only
      split_ifs
      · exact SameSecrets.refl impl
      · exact SameSecrets.setSubkey (atIndex_eq_some hsubkey).2 rfl

theorem ImportPeerPublicKey_sameSecrets (now : UInt32) (keyBlock : Buffer) :
    SameSecrets impl (ImportPeerPublicKey P now keyBlock impl).2 := by
  unfold ImportPeerPublicKey
  split
  · exact SameSecrets.refl impl
  · split
    · exact SameSecrets.refl impl
    · exact ⟨rfl, rfl, rfl⟩

theorem ImportAdditionalRecipientPublicKey_sameSecrets (now : UInt32) (keyBlock : Buffer) :
    SameSecrets impl (ImportAdditionalRecipientPublicKey P now keyBlock impl).2 := by
  unfold ImportAdditionalRecipientPublicKey
  split
  · exact SameSecrets.refl impl
  · split
    · exact SameSecrets.refl impl
    · split
      · exact SameSecrets.refl impl
      · exact ⟨rfl, rfl, rfl⟩

end Preserved

/-! ### The operations that protect secrets -/

section Protecting

variable {P : Primitives} {faults : Faults} {env : Env} {impl : Impl}

theorem rejects_eq_false_iff {password : Bytes} :
    rejects P impl password = false ↔ impl.ownKeyGenerated = true ∧ password ≠ [] ∧
      P.sha256 password = impl.passwordCheckHash := by
  simp only [rejects, checkPasswordHash, Bool.or_eq_false_iff, Bool.not_eq_false', and_assoc,
    decide_eq_false_iff_not, decide_eq_true_eq]

/-- A key as it is stored when it has just been protected. -/
theorem SecretKey.openedBy_of_encrypted (publicBody cleartext password : Bytes) (salt : Octets 8)
    (iv : Octets 16) :
    SecretKey.OpenedBy P password ⟨publicBody, cleartext,
      encryptSecretKeyMaterial P publicBody cleartext password salt iv⟩ :=
  decryptSecretKeyMaterial_encrypt P publicBody cleartext password salt iv

theorem CurrentPassword.storeRsa {userId password : Bytes} {expirationSeconds : UInt32}
    (halgorithm : impl.keyAlgorithm = PGP_KEY_ALGORITHM_RSA) (hpassword : password ≠ []) :
    CurrentPassword P (storeRsa P env userId password expirationSeconds impl) password := by
  have hkey : (Pgp.storeRsa P env userId password expirationSeconds impl).keyAlgorithm =
    PGP_KEY_ALGORITHM_RSA := halgorithm
  refine ⟨rejects_eq_false_iff.mpr ⟨rfl, hpassword, rfl⟩, fun key hmem => ?_⟩
  rw [secretKeys, buildOwnMasterPubBody_rsa hkey, masterCleartext, hkey] at hmem
  rcases List.mem_cons.mp hmem with rfl | hmem
  · exact SecretKey.openedBy_of_encrypted ..
  · obtain rfl := List.mem_singleton.mp hmem
    exact SecretKey.openedBy_of_encrypted ..

theorem CurrentPassword.storeEd25519 {userId password : Bytes} {expirationSeconds : UInt32}
    (halgorithm : impl.keyAlgorithm = PGP_KEY_ALGORITHM_ED25519_X25519)
    (hpassword : password ≠ []) :
    CurrentPassword P (storeEd25519 P env userId password expirationSeconds impl) password := by
  have hkey : (Pgp.storeEd25519 P env userId password expirationSeconds impl).keyAlgorithm =
    PGP_KEY_ALGORITHM_ED25519_X25519 := halgorithm
  refine ⟨rejects_eq_false_iff.mpr ⟨rfl, hpassword, rfl⟩, fun key hmem => ?_⟩
  rw [secretKeys, buildOwnMasterPubBody_ed25519 hkey, masterCleartext, hkey] at hmem
  rcases List.mem_cons.mp hmem with rfl | hmem
  · exact SecretKey.openedBy_of_encrypted ..
  · obtain rfl := List.mem_singleton.mp hmem
    exact SecretKey.openedBy_of_encrypted ..

/-- Key generation leaves the engine alone, or its password becomes current. -/
theorem GenerateKeyPair_currentPassword (userId : Buffer) (password : Bytes)
    (expirationSeconds : UInt32) :
    (GenerateKeyPair P env userId password expirationSeconds impl).2 = impl ∨
      CurrentPassword P (GenerateKeyPair P env userId password expirationSeconds impl).2
        password := by
  unfold GenerateKeyPair
  split
  · exact Or.inl rfl
  rename_i hguard
  have hpassword := (not_or.mp hguard).2
  split
  · rename_i halgorithm
    split
    · exact Or.inl rfl
    dsimp only
    split
    · exact Or.inl rfl
    · exact Or.inr (CurrentPassword.storeRsa halgorithm hpassword)
  · rename_i halgorithm
    dsimp only
    split
    · exact Or.inl rfl
    · exact Or.inr (CurrentPassword.storeEd25519 halgorithm hpassword)

/-- The new password becomes current whatever the state of the secrets was. -/
theorem ChangePassword_currentPassword (oldPassword newPassword : Bytes) :
    (ChangePassword P env oldPassword newPassword impl).2 = impl ∨
      CurrentPassword P (ChangePassword P env oldPassword newPassword impl).2 newPassword := by
  unfold ChangePassword
  split
  · exact Or.inl rfl
  rename_i hguard
  obtain ⟨hnew, hold⟩ := not_or.mp hguard
  have hgenerated := ownKeyGenerated_of_not_rejects (by simpa using hold)
  dsimp only
  split
  · exact Or.inl rfl
  rw [zipWith_mapIdx]
  refine Or.inr ⟨rejects_eq_false_iff.mpr ⟨hgenerated, hnew, rfl⟩, fun key hmem => ?_⟩
  rcases List.mem_cons.mp hmem with rfl | hmem
  · exact SecretKey.openedBy_of_encrypted ..
  · obtain ⟨subkey, hsubkey, rfl⟩ := List.mem_map.mp hmem
    obtain ⟨i, hi, rfl⟩ := List.mem_mapIdx.mp hsubkey
    exact SecretKey.openedBy_of_encrypted ..

/-- A new subkey is protected under the password the call was given. -/
theorem AddSubkey_currentPassword {password current : Bytes} (keyFlags : UInt8)
    (expirationSeconds : UInt32) (h : CurrentPassword P impl current)
    (hsame : rejects P impl password = false → password = current) :
    CurrentPassword P (AddSubkey P env password keyFlags expirationSeconds impl).2 current := by
  unfold AddSubkey
  split
  · exact h
  rename_i hpassword
  obtain rfl := hsame (by simpa using hpassword)
  dsimp only
  split_ifs
  · exact h
  · exact h
  · exact h
  · refine ⟨rejects_eq_false_iff.mpr (rejects_eq_false_iff.mp h.1), fun key hmem => ?_⟩
    rcases List.mem_cons.mp hmem with rfl | hmem
    · exact h.2 _ List.mem_cons_self
    · rw [List.map_append] at hmem
      rcases List.mem_append.mp hmem with hold | hnew
      · exact h.2 key (List.mem_cons_of_mem _ hold)
      · obtain rfl := List.mem_singleton.mp hnew
        exact SecretKey.openedBy_of_encrypted ..

end Protecting

/-! ### Runs -/

section Runs

variable (P : Primitives)

def EngineOp.passwords : EngineOp → List Bytes
  | .generateKeyPair _ password _ => [password]
  | .addUserId password _ _ => [password]
  | .revokeUserId password _ _ _ => [password]
  | .setPrimaryUserId password _ => [password]
  | .addSubkey password _ _ => [password]
  | .revokeSubkey password _ _ _ => [password]
  | .setKeyExpiration password _ _ => [password]
  | .changePassword oldPassword newPassword => [oldPassword, newPassword]
  | .importPeerPublicKey _ => []
  | .importAdditionalRecipientPublicKey _ => []
  | .setSymmetricCipherPreference _ => []

/-- The states that calls with passwords from `S` lead to, with any steps of any
call throwing. -/
inductive ReachableWith (S : Set Bytes) : Impl → Prop
  | new (keyAlgorithm : PgpKeyAlgorithm) (rsaKeyBits : ℤ) :
      ReachableWith S (Impl.new keyAlgorithm rsaKeyBits)
  | call {impl : Impl} (h : ReachableWith S impl) (faults : Faults) (env : Env) (op : EngineOp)
      (hpasswords : ∀ password ∈ op.passwords, password ∈ S) :
      ReachableWith S (op.callWith P faults env impl).2

/-- A generated identity has a current password among those of the run. -/
def OnePassword (S : Set Bytes) (impl : Impl) : Prop :=
  impl.ownKeyGenerated = true → ∃ password ∈ S, CurrentPassword P impl password

variable {P} {S : Set Bytes} {impl : Impl}

theorem OnePassword.of_sameSecrets {impl' : Impl} (hsame : SameSecrets impl impl')
    (hone : OnePassword P S impl) : OnePassword P S impl' := by
  intro hgenerated
  rw [hsame.generated] at hgenerated
  obtain ⟨password, hmem, hcurrent⟩ := hone hgenerated
  exact ⟨password, hmem, (hsame.currentPassword_iff password).mpr hcurrent⟩

/-- Without a collision among them, one password of the run is accepted. -/
theorem CurrentPassword.unique (hcollision : Set.InjOn P.sha256 S) {current other : Bytes}
    (h : CurrentPassword P impl current) (hcurrent : current ∈ S) (hother : other ∈ S)
    (haccepted : rejects P impl other = false) : other = current := by
  have hcurrentHash := (rejects_eq_false_iff.mp h.1).2.2
  have hotherHash := (rejects_eq_false_iff.mp haccepted).2.2
  exact hcollision hother hcurrent (hotherHash.trans hcurrentHash.symm)

theorem OnePassword.call (hcollision : Set.InjOn P.sha256 S) (hone : OnePassword P S impl)
    (faults : Faults) (env : Env) (op : EngineOp)
    (hpasswords : ∀ password ∈ op.passwords, password ∈ S) :
    OnePassword P S (op.callWith P faults env impl).2 := by
  cases op with
  | generateKeyPair userId password expirationSeconds =>
      rw [EngineOp.callWith]
      rcases GenerateKeyPairWith_agrees P faults env userId password expirationSeconds impl with
        hagrees | hfails
      · rw [hagrees]
        rcases @GenerateKeyPair_currentPassword P env impl userId password
          expirationSeconds with hsame | hcurrent
        · rwa [hsame]
        · exact fun _ => ⟨password, hpasswords password List.mem_cons_self, hcurrent⟩
      · rwa [hfails]
  | addUserId => exact hone.of_sameSecrets (AddUserIdWith_sameSecrets ..)
  | revokeUserId => exact hone.of_sameSecrets (RevokeUserIdWith_sameSecrets ..)
  | setPrimaryUserId => exact hone.of_sameSecrets (SetPrimaryUserIdWith_sameSecrets ..)
  | addSubkey password keyFlags expirationSeconds =>
      rw [EngineOp.callWith]
      rcases AddSubkeyWith_agrees P faults env password keyFlags expirationSeconds impl with
        hagrees | hfails
      · rw [hagrees]
        intro hgenerated
        have hkept : (AddSubkey P env password keyFlags expirationSeconds impl).2.ownKeyGenerated =
            impl.ownKeyGenerated := by
          unfold AddSubkey
          dsimp only
          split_ifs <;> rfl
        rw [hkept] at hgenerated
        obtain ⟨current, hmem, hcurrent⟩ := hone hgenerated
        have hsame : rejects P impl password = false → password = current :=
          hcurrent.unique hcollision hmem (hpasswords password List.mem_cons_self)
        exact ⟨current, hmem,
          AddSubkey_currentPassword keyFlags expirationSeconds hcurrent hsame⟩
      · rwa [hfails]
  | revokeSubkey => exact hone.of_sameSecrets (RevokeSubkeyWith_sameSecrets ..)
  | setKeyExpiration => exact hone.of_sameSecrets (SetKeyExpirationWith_sameSecrets ..)
  | changePassword oldPassword newPassword =>
      rw [EngineOp.callWith]
      rcases ChangePasswordWith_agrees P faults env oldPassword newPassword impl with
        hagrees | hfails
      · rw [hagrees]
        rcases @ChangePassword_currentPassword P env impl oldPassword newPassword with hsame | hcurrent
        · rwa [hsame]
        · exact fun _ => ⟨newPassword, hpasswords newPassword (by simp [EngineOp.passwords]),
            hcurrent⟩
      · rwa [hfails]
  | importPeerPublicKey => exact hone.of_sameSecrets (ImportPeerPublicKey_sameSecrets ..)
  | importAdditionalRecipientPublicKey =>
      exact hone.of_sameSecrets (ImportAdditionalRecipientPublicKey_sameSecrets ..)
  | setSymmetricCipherPreference => exact hone.of_sameSecrets ⟨rfl, rfl, rfl⟩

theorem ReachableWith.onePassword (hcollision : Set.InjOn P.sha256 S)
    (h : ReachableWith P S impl) : OnePassword P S impl := by
  induction h with
  | new keyAlgorithm rsaKeyBits =>
      intro hgenerated
      exact absurd hgenerated (by simp [Impl.new])
  | call _ faults env op hpasswords ih => exact ih.call hcollision faults env op hpasswords

theorem GenerateKeyPairWith_unchanged (faults : Faults) (env : Env) (userId : Buffer)
    (password : Bytes) (expirationSeconds : UInt32) :
    Unchanged impl (GenerateKeyPairWith P faults env userId password expirationSeconds impl) := by
  unfold GenerateKeyPairWith
  split
  · exact Unchanged.same _
  split
  · split
    · exact Unchanged.same _
    split
    · exact Unchanged.same _
    · apply Unchanged.stores
  · split
    · exact Unchanged.same _
    · apply Unchanged.stores

/-- A call that reports an error touches no secret. -/
theorem sameSecrets_of_error (faults : Faults) (env : Env) (op : EngineOp)
    (hstatus : (op.callWith P faults env impl).1 ≠ NO_ERROR) :
    SameSecrets impl (op.callWith P faults env impl).2 := by
  have hunchanged : Unchanged impl (op.callWith P faults env impl) →
      SameSecrets impl (op.callWith P faults env impl).2 := by
    intro h
    rw [h hstatus]
    exact SameSecrets.refl impl
  cases op with
  | generateKeyPair userId password expirationSeconds =>
      exact hunchanged (GenerateKeyPairWith_unchanged faults env userId password expirationSeconds)
  | addUserId => exact AddUserIdWith_sameSecrets ..
  | revokeUserId => exact RevokeUserIdWith_sameSecrets ..
  | setPrimaryUserId => exact SetPrimaryUserIdWith_sameSecrets ..
  | addSubkey password keyFlags expirationSeconds =>
      exact hunchanged (AddSubkeyWith_unchanged password keyFlags expirationSeconds)
  | revokeSubkey => exact RevokeSubkeyWith_sameSecrets ..
  | setKeyExpiration => exact SetKeyExpirationWith_sameSecrets ..
  | changePassword oldPassword newPassword =>
      exact hunchanged (ChangePasswordWith_unchanged oldPassword newPassword)
  | importPeerPublicKey => exact ImportPeerPublicKey_sameSecrets ..
  | importAdditionalRecipientPublicKey => exact ImportAdditionalRecipientPublicKey_sameSecrets ..
  | setSymmetricCipherPreference => exact ⟨rfl, rfl, rfl⟩

/-- In every state of a run one of its passwords is accepted and opens every
secret, and no call that reports an error changes which one. -/
theorem one_currentPassword (hcollision : Set.InjOn P.sha256 S) (h : ReachableWith P S impl) :
    (impl.ownKeyGenerated = true → ∃ current ∈ S, CurrentPassword P impl current ∧
        ∀ other ∈ S, rejects P impl other = false → other = current) ∧
      ∀ (faults : Faults) (env : Env) (op : EngineOp),
        (op.callWith P faults env impl).1 ≠ NO_ERROR → ∀ password,
          CurrentPassword P (op.callWith P faults env impl).2 password ↔
            CurrentPassword P impl password := by
  refine ⟨fun hgenerated => ?_, fun faults env op hstatus password => ?_⟩
  · obtain ⟨current, hmem, hcurrent⟩ := h.onePassword hcollision hgenerated
    exact ⟨current, hmem, hcurrent, fun other hother haccepted =>
      hcurrent.unique hcollision hmem hother haccepted⟩
  · exact (sameSecrets_of_error faults env op hstatus).currentPassword_iff password

end Runs

/-- An identity whose password has been changed and which has then been given a
subkey under the new one. -/
def rekeyedOwner : Impl :=
  ((EngineOp.addSubkey (ascii "new") 0x0C 0).callWith standIn Faults.none (Env.numbered 3000 20)
    ((EngineOp.changePassword (ascii "pw") (ascii "new")).callWith standIn Faults.none
      (Env.numbered 2000 10)
      ((EngineOp.generateKeyPair ⟨ascii "alice", length_alice⟩ (ascii "pw") 0).callWith standIn
        Faults.none (Env.numbered 1000 7)
        (Impl.new PGP_KEY_ALGORITHM_ED25519_X25519 2048)).2).2).2

theorem rekeyedOwner_reachableWith :
    ReachableWith standIn {ascii "pw", ascii "new"} rekeyedOwner := by
  apply ReachableWith.call
  · apply ReachableWith.call
    · apply ReachableWith.call
      · exact ReachableWith.new PGP_KEY_ALGORITHM_ED25519_X25519 2048
      · simp [EngineOp.passwords]
    · simp [EngineOp.passwords]
  · simp [EngineOp.passwords]

theorem one_currentPassword_rekeyed :
    ∃ current ∈ ({ascii "pw", ascii "new"} : Set Bytes),
      CurrentPassword standIn rekeyedOwner current := by
  have hcollision : Set.InjOn standIn.sha256 ({ascii "pw", ascii "new"} : Set Bytes) := by
    rintro a (rfl | rfl) b (rfl | rfl) hhash
    · rfl
    · exact absurd hhash (by decide)
    · exact absurd hhash (by decide)
    · rfl
  obtain ⟨hone, -⟩ := one_currentPassword hcollision rekeyedOwner_reachableWith
  obtain ⟨current, hmem, hcurrent, -⟩ := hone (by decide)
  exact ⟨current, hmem, hcurrent⟩

end HashCryptoLib.Pgp
