import HashCryptoLib.Pgp.Export
import HashCryptoLib.Pgp.HeldKeys

/-!
Two parties and one exported block. The subkey a sender chooses is one whose
private half the exporter holds, or there is none to choose; the key a signer
signs with is the one a verifier finds under the issuer's key ID.
-/

namespace HashCryptoLib.Pgp

open BigEndian

/-- The key IDs of an identity tell its keys apart. -/
def Impl.DistinctKeyIds (impl : Impl) : Prop :=
  (impl.ownMasterKeyId :: impl.ownSubkeys.map PgpOwnSubkey.keyId).Nodup

/-! ### Encryption -/

/-- Neither revoked nor expired; the sum is taken in 32 bits. -/
def PgpOwnSubkey.usable (now : UInt32) (subkey : PgpOwnSubkey) : Bool :=
  !subkey.isRevoked &&
    !(subkey.expirationSeconds ≠ 0 && subkey.creationTime + subkey.expirationSeconds ≤ now)

/-- What a sender takes from a subkey. -/
def PgpPeerSubkey.recipient (subkey : PgpPeerSubkey) : PgpEncryptionRecipient :=
  match subkey.algorithm with
  | PGP_KEY_ALGORITHM_RSA =>
    { algorithm := PGP_KEY_ALGORITHM_RSA, rsaPublicKey := subkey.rsaKey, rsaKeyId := subkey.keyId }
  | PGP_KEY_ALGORITHM_ED25519_X25519 =>
    { algorithm := PGP_KEY_ALGORITHM_ED25519_X25519
      x25519PublicKey := subkey.x25519Key, x25519KeyId := subkey.keyId
      x25519Fingerprint := subkey.fingerprint }

/-- The recipient that a peer makes of an exported block. -/
def Impl.exportedRecipient (impl : Impl) (now : UInt32) : PgpEncryptionRecipient :=
  ((exportedIdentity impl).chooseSubkey now).recipient

section Encryption

variable {P : Primitives} {impl : Impl} {now : UInt32}

theorem peerSubkeyOf_usable (keyAlgorithm : PgpKeyAlgorithm) (subkey : PgpOwnSubkey) :
    (peerSubkeyOf keyAlgorithm subkey).usable now = subkey.usable now := by
  have hcreation : (peerSubkeyOf keyAlgorithm subkey).creationTime = subkey.creationTime := by
    cases keyAlgorithm <;> rfl
  have hpositive : decide (subkey.expirationSeconds > 0) =
      decide (subkey.expirationSeconds ≠ 0) := decide_eq_decide.mpr UInt32.pos_iff_ne_zero
  simp only [PgpPeerSubkey.usable, PgpPeerSubkey.expired, PgpOwnSubkey.usable, hcreation]
  simp [peerSubkeyOf, hpositive]

theorem chooseSubkey_recipient {out : ParsedPeerPublicKeyBlock} {chosen : PgpPeerSubkey}
    (h : chooseBestPeerEncryptionSubkey now out.subkeys = some chosen) :
    (out.chooseSubkey now).recipient = chosen.recipient := by
  rw [ParsedPeerPublicKeyBlock.chooseSubkey, h]
  cases halgorithm : chosen.algorithm <;>
    simp [ParsedPeerPublicKeyBlock.recipient, PgpPeerSubkey.recipient, halgorithm]

theorem chooseSubkey_recipient_none {out : ParsedPeerPublicKeyBlock}
    (h : chooseBestPeerEncryptionSubkey now out.subkeys = none) :
    (out.chooseSubkey now).recipient =
      if out.masterAlgorithm = PGP_KEY_ALGORITHM_RSA then
        { algorithm := PGP_KEY_ALGORITHM_RSA
          rsaPublicKey := out.masterRsaKey, rsaKeyId := out.masterKeyId }
      else out.recipient := by
  rw [ParsedPeerPublicKeyBlock.chooseSubkey, h]
  dsimp only
  split_ifs <;> rfl

theorem PgpOwnSubkey.Generated.decryptionKey {keyAlgorithm : PgpKeyAlgorithm}
    {subkey : PgpOwnSubkey} (h : subkey.Generated P keyAlgorithm)
    (hencrypts : subkey.isEd25519Sign = false) :
    (subkey.decryptionKey keyAlgorithm).Generated P := by
  cases keyAlgorithm with
  | PGP_KEY_ALGORITHM_RSA => exact h.2.2
  | PGP_KEY_ALGORITHM_ED25519_X25519 =>
      simp only [PgpOwnSubkey.Generated, hencrypts, Bool.false_eq_true, if_false] at h
      exact h.2.2.2

/-- What a sender takes from an encryption subkey is the public half of what
its owner decrypts with. -/
theorem peerSubkeyOf_recipient {keyAlgorithm : PgpKeyAlgorithm} {subkey : PgpOwnSubkey}
    (h : subkey.Generated P keyAlgorithm) (hencrypts : subkey.isEd25519Sign = false) :
    (peerSubkeyOf keyAlgorithm subkey).recipient =
      (subkey.decryptionKey keyAlgorithm).recipient P := by
  cases keyAlgorithm with
  | PGP_KEY_ALGORITHM_RSA =>
      obtain ⟨-, hpublic, -⟩ := h
      simp [PgpPeerSubkey.recipient, peerSubkeyOf, unboundPeerSubkeyOf, DecryptionKey.recipient,
        PgpOwnSubkey.decryptionKey, hpublic]
  | PGP_KEY_ALGORITHM_ED25519_X25519 =>
      simp only [PgpOwnSubkey.Generated, hencrypts, Bool.false_eq_true, if_false] at h
      obtain ⟨-, -, hpublic, -⟩ := h
      simp [PgpPeerSubkey.recipient, peerSubkeyOf, unboundPeerSubkeyOf, DecryptionKey.recipient,
        PgpOwnSubkey.decryptionKey, hpublic, hencrypts]

/-- A curve subkey is flagged for encryption unless it is one that signs. -/
theorem PgpOwnSubkey.Generated.flags {subkey : PgpOwnSubkey}
    (h : subkey.Generated P PGP_KEY_ALGORITHM_ED25519_X25519) :
    subkey.keyFlags = if subkey.isEd25519Sign then 0x02 else 0x0C := by
  cases hsign : subkey.isEd25519Sign with
  | true =>
      simp only [PgpOwnSubkey.Generated, hsign, if_true] at h
      exact h.2.1
  | false =>
      simp only [PgpOwnSubkey.Generated, hsign, Bool.false_eq_true, if_false] at h
      exact h.2.1

/-- With a usable encryption subkey in the block, the sender picks one. -/
theorem exportedRecipient_own (hkeys : OwnKeysGenerated P impl) {usable : PgpOwnSubkey}
    (hmem : usable ∈ impl.ownSubkeys) (husable : usable.usable now = true)
    (hencrypts : usable.isEd25519Sign = false) :
    ∃ subkey ∈ impl.ownSubkeys, subkey.isEd25519Sign = false ∧
      impl.exportedRecipient now = (subkey.decryptionKey impl.keyAlgorithm).recipient P := by
  have hpeer : peerSubkeyOf impl.keyAlgorithm usable ∈ (exportedIdentity impl).subkeys :=
    List.mem_map_of_mem hmem
  have husable' : (peerSubkeyOf impl.keyAlgorithm usable).usable now = true := by
    rw [peerSubkeyOf_usable, husable]
  cases hchoice : chooseBestPeerEncryptionSubkey now (exportedIdentity impl).subkeys with
  | none =>
      rw [chooseBestPeerEncryptionSubkey_eq_none.mp hchoice _ hpeer] at husable'
      cases husable'
  | some chosen =>
      obtain ⟨hchosen, -⟩ := chooseBestPeerEncryptionSubkey_mem hchoice
      obtain ⟨subkey, hsubkey, rfl⟩ := List.mem_map.mp hchosen
      have hgenerated := hkeys.subkeys subkey hsubkey
      have hsign : subkey.isEd25519Sign = false := by
        cases halgorithm : impl.keyAlgorithm with
        | PGP_KEY_ALGORITHM_RSA =>
            rw [halgorithm] at hgenerated
            exact hgenerated.1
        | PGP_KEY_ALGORITHM_ED25519_X25519 =>
            have hflags := (halgorithm ▸ hkeys.subkeys usable hmem).flags
            rw [halgorithm] at hgenerated hpeer husable' hchoice
            have hflagged : (peerSubkeyOf PGP_KEY_ALGORITHM_ED25519_X25519 usable).encrypts =
                true := by
              simp [PgpPeerSubkey.encrypts, peerSubkeyOf, hflags, hencrypts]
            have hchosenFlags := chooseBestPeerEncryptionSubkey_encrypts hchoice hpeer husable'
              hflagged
            have hsubkeyFlags := hgenerated.flags
            cases hsign : subkey.isEd25519Sign with
            | false => rfl
            | true =>
                rw [hsign, if_pos rfl] at hsubkeyFlags
                simp only [PgpPeerSubkey.encrypts, peerSubkeyOf, hsubkeyFlags] at hchosenFlags
                exact absurd hchosenFlags (by decide)
      refine ⟨subkey, hsubkey, hsign, ?_⟩
      rw [Impl.exportedRecipient, chooseSubkey_recipient hchoice,
        peerSubkeyOf_recipient hgenerated hsign]

/-- Without any usable subkey the sender falls back to an RSA master key. -/
theorem exportedRecipient_master (halgorithm : impl.keyAlgorithm = PGP_KEY_ALGORITHM_RSA)
    (hnone : ∀ subkey ∈ impl.ownSubkeys, subkey.usable now = false) :
    impl.exportedRecipient now =
      { algorithm := PGP_KEY_ALGORITHM_RSA
        rsaPublicKey := impl.ownMasterPublicKey, rsaKeyId := impl.ownMasterKeyId } := by
  have hchoice : chooseBestPeerEncryptionSubkey now (exportedIdentity impl).subkeys = none := by
    rw [chooseBestPeerEncryptionSubkey_eq_none]
    intro subkey hmem
    obtain ⟨own, hown, rfl⟩ := List.mem_map.mp hmem
    rw [peerSubkeyOf_usable, hnone own hown]
  rw [Impl.exportedRecipient, chooseSubkey_recipient_none hchoice]
  simp [exportedIdentity, halgorithm]

/-- Without a usable encryption subkey of a curve identity nothing can be
encrypted: the sender is left with a default key, or with a subkey that signs. -/
theorem exportedRecipient_curve (hlawful : P.Lawful)
    (halgorithm : impl.keyAlgorithm = PGP_KEY_ALGORITHM_ED25519_X25519)
    (hnone : ∀ subkey ∈ impl.ownSubkeys, subkey.usable now = true → subkey.isEd25519Sign = true)
    (plain : Bytes) (seed : ℕ) :
    encryptSessionKey P (impl.exportedRecipient now) plain seed = none := by
  cases hchoice : chooseBestPeerEncryptionSubkey now (exportedIdentity impl).subkeys with
  | none =>
      have hrecipient : impl.exportedRecipient now = {} := by
        rw [Impl.exportedRecipient, chooseSubkey_recipient_none hchoice]
        simp [exportedIdentity, halgorithm, ParsedPeerPublicKeyBlock.recipient]
      have hfails : P.rsaEncrypt ({} : PgpEncryptionRecipient).rsaPublicKey seed plain = none :=
        hlawful.rsaEncrypt_zero seed plain
      rw [hrecipient, encryptSessionKey]
      simp only [hfails, Option.map_none]
  | some chosen =>
      obtain ⟨hchosen, husable⟩ := chooseBestPeerEncryptionSubkey_mem hchoice
      obtain ⟨subkey, hsubkey, rfl⟩ := List.mem_map.mp hchosen
      rw [peerSubkeyOf_usable] at husable
      have hsign := hnone subkey hsubkey husable
      rw [Impl.exportedRecipient, chooseSubkey_recipient hchoice, halgorithm]
      simp [PgpPeerSubkey.recipient, peerSubkeyOf, unboundPeerSubkeyOf, hsign, encryptSessionKey,
        hlawful.x25519Agree_zero]

end Encryption

/-! ### Signatures -/

/-- The last own subkey that may sign and is not revoked, else the master key. -/
def selectActiveSigningKeyMaterial (impl : Impl) : SigningKey :=
  match impl.ownSubkeys.reverse.find? fun subkey =>
      !subkey.isRevoked && subkey.keyFlags &&& 0x02 ≠ 0 with
  | some subkey => subkey.signingKey impl.keyAlgorithm
  | none => impl.masterSigningKey

section Signatures

variable {P : Primitives} {impl : Impl}

/-- Either the master key, or a subkey that may sign. -/
theorem selectActiveSigningKeyMaterial_cases (impl : Impl) :
    selectActiveSigningKeyMaterial impl = impl.masterSigningKey ∨
      ∃ subkey ∈ impl.ownSubkeys, subkey.keyFlags &&& 0x02 ≠ 0 ∧
        selectActiveSigningKeyMaterial impl = subkey.signingKey impl.keyAlgorithm := by
  unfold selectActiveSigningKeyMaterial
  split
  · rename_i subkey hfind
    have hflags := List.find?_some hfind
    simp only [ne_eq, Bool.and_eq_true, decide_eq_true_eq] at hflags
    exact Or.inr ⟨subkey, List.mem_reverse.mp (List.mem_of_find?_eq_some hfind), hflags.2, rfl⟩
  · exact Or.inl rfl

/-- The public half of a subkey that may sign, as a peer knows it. -/
theorem PgpOwnSubkey.Generated.signingKey {keyAlgorithm : PgpKeyAlgorithm} {subkey : PgpOwnSubkey}
    (h : subkey.Generated P keyAlgorithm) (hsigns : subkey.keyFlags &&& 0x02 ≠ 0) :
    ∃ verifier, (peerSubkeyOf keyAlgorithm subkey).verificationKey = some verifier ∧
      (subkey.signingKey keyAlgorithm).Generated P verifier := by
  cases keyAlgorithm with
  | PGP_KEY_ALGORITHM_RSA =>
      obtain ⟨-, hpublic, seed, bits, hbits, hkey⟩ := h
      exact ⟨.rsa subkey.rsaPublicKey, rfl, seed, bits, hbits, hkey, by rw [hpublic]; rfl⟩
  | PGP_KEY_ALGORITHM_ED25519_X25519 =>
      have hsign : subkey.isEd25519Sign = true := by
        by_contra hother
        rw [h.flags, if_neg hother] at hsigns
        exact hsigns (by decide)
      simp only [PgpOwnSubkey.Generated, hsign, if_true] at h
      obtain ⟨-, -, seed, hpair⟩ := h
      refine ⟨.ed25519 subkey.ed25519PublicKey, ?_, seed, congrArg Prod.fst hpair, ?_⟩
      · simp [PgpPeerSubkey.verificationKey, peerSubkeyOf, unboundPeerSubkeyOf, hsign]
      · rw [← congrArg Prod.snd hpair]

/-- Every generated key has a size the engine supports. -/
theorem OwnKeysGenerated.activeModulus_size (hkeys : OwnKeysGenerated P impl)
    (hgenerated : impl.ownKeyGenerated = true) :
    (selectActiveSigningKeyMaterial impl).rsaKey.modulus.size ≤ 4096 := by
  cases halgorithm : impl.keyAlgorithm with
  | PGP_KEY_ALGORITHM_RSA =>
      have hle {key : RsaPrivateKey} {seed bits : ℕ} (hbits : IsRsaKeySize bits)
          (hkey : key = (P.generateRsaKey seed bits).1) : key.modulus.size ≤ 4096 := by
        rw [hkey]
        exact (generateRsaKey_bounds P seed hbits).1
      rcases selectActiveSigningKeyMaterial_cases impl with hactive | ⟨subkey, hmem, -, hactive⟩
      · obtain ⟨seed, bits, hbits, hkey, -⟩ : SigningKey.Generated P
            ⟨PGP_KEY_ALGORITHM_RSA, impl.ownMasterPrivateKey, impl.ownEd25519PrivateKey,
              impl.ownMasterKeyId⟩ impl.masterVerificationKey :=
          halgorithm ▸ hkeys.master hgenerated
        rw [hactive]
        exact hle hbits hkey
      · obtain ⟨-, -, seed, bits, hbits, hkey⟩ := halgorithm ▸ hkeys.subkeys subkey hmem
        rw [hactive]
        exact hle hbits hkey
  | PGP_KEY_ALGORITHM_ED25519_X25519 =>
      rcases selectActiveSigningKeyMaterial_cases impl with hactive | ⟨subkey, hmem, -, hactive⟩
      · rw [hactive, Impl.masterSigningKey, (hkeys.rsaFields halgorithm).2]
        simp
      · have hsubkey := halgorithm ▸ hkeys.subkeys subkey hmem
        rw [hactive, PgpOwnSubkey.signingKey, hsubkey.1]
        simp

theorem find?_of_nodup {α κ : Type} [DecidableEq κ] (key : α → κ) {xs : List α} {x : α}
    (hmem : x ∈ xs) (hdistinct : (xs.map key).Nodup) :
    xs.find? (fun y => key y = key x) = some x := by
  induction xs with
  | nil => cases hmem
  | cons y ys ih =>
      rw [List.map_cons, List.nodup_cons] at hdistinct
      rcases List.mem_cons.mp hmem with rfl | htail
      · simp
      · have hne : key y ≠ key x := fun heq => hdistinct.1 (heq ▸ List.mem_map_of_mem htail)
        rw [List.find?_cons_of_neg (by simpa using hne), ih htail hdistinct.2]

/-- The subkey a peer finds under a key ID among distinct ones. -/
theorem find?_keyId {subkeys : List PgpOwnSubkey} {subkey : PgpOwnSubkey}
    (keyAlgorithm : PgpKeyAlgorithm) (hmem : subkey ∈ subkeys)
    (hdistinct : (subkeys.map PgpOwnSubkey.keyId).Nodup) :
    (subkeys.map (peerSubkeyOf keyAlgorithm)).find? (fun peer => peer.keyId.1 = subkey.keyId.1) =
      some (peerSubkeyOf keyAlgorithm subkey) := by
  have hkeyId (other : PgpOwnSubkey) : (peerSubkeyOf keyAlgorithm other).keyId = other.keyId := by
    cases keyAlgorithm <;> rfl
  have hdistinct' : (subkeys.map fun other => other.keyId.1).Nodup := by
    have hmap := hdistinct.map Subtype.val_injective
    rwa [List.map_map] at hmap
  rw [List.find?_map]
  simp only [Function.comp_def, hkeyId]
  rw [find?_of_nodup (fun other : PgpOwnSubkey => other.keyId.1) hmem hdistinct',
    Option.map_some]

/-- What an engine knows after it has imported an exported block. -/
theorem importPeer_exported (verifier impl : Impl) (now : UInt32) :
    let imported := verifier.importPeer ((exportedIdentity impl).chooseSubkey now)
    imported.peerMasterKey = impl.masterVerificationKey ∧
      imported.peerMasterKeyId = impl.ownMasterKeyId ∧
      imported.peerSubkeys = impl.ownSubkeys.map (peerSubkeyOf impl.keyAlgorithm) := by
  obtain ⟨-, halgorithm, hrsa, hed25519, hkeyId, -, -, hsubkeys⟩ :=
    chooseSubkey_kept (exportedIdentity impl) now
  refine ⟨?_, hkeyId, hsubkeys⟩
  generalize (exportedIdentity impl).chooseSubkey now = parsed at *
  have hfamily : parsed.masterAlgorithm = impl.keyAlgorithm := halgorithm
  cases hown : impl.keyAlgorithm <;>
    simp only [Impl.peerMasterKey, Impl.importPeer, hfamily, hown, hrsa, hed25519,
      exportedIdentity, Impl.masterVerificationKey]

/-- What an identity signs with its active signing key, whoever imported its
block verifies. -/
theorem verifyWithPeer_active (hlawful : P.Lawful) (hreachable : Reachable P impl)
    (hgenerated : impl.ownKeyGenerated = true) (hdistinct : impl.DistinctKeyIds)
    (now : UInt32) {signedAt : UInt32} (verifier : Impl) {documentData : Bytes}
    {signatureType : UInt8}
    (hsigned : (selectActiveSigningKeyMaterial impl).sign P signatureType documentData []
      signedAt ≠ []) :
    verifyWithPeer P (verifier.importPeer ((exportedIdentity impl).chooseSubkey now)) documentData
      ((selectActiveSigningKeyMaterial impl).sign P signatureType documentData [] signedAt) =
        some true := by
  have hkeys := hreachable.ownKeysGenerated
  obtain ⟨hmaster, hmasterKeyId, hsubkeys⟩ := importPeer_exported verifier impl now
  have hissuer := SigningKey.findIssuerKeyId_sign P (hkeys.activeModulus_size hgenerated) hsigned
  rw [verifyWithPeer, selectPeerVerificationKeyMaterial, hissuer]
  dsimp only
  rw [hmaster, hmasterKeyId, hsubkeys]
  rcases selectActiveSigningKeyMaterial_cases impl with hactive | ⟨subkey, hmem, hflags, hactive⟩
  · rw [hactive] at hsigned ⊢
    have hown : impl.masterSigningKey.keyId.1 = impl.ownMasterKeyId.1 := rfl
    rw [if_pos hown]
    exact SigningKey.verify_sign hlawful (hkeys.master hgenerated) (by simp) hsigned
  · obtain ⟨hmasterDistinct, hsubkeysDistinct⟩ := List.nodup_cons.mp hdistinct
    have hne : (subkey.signingKey impl.keyAlgorithm).keyId.1 ≠ impl.ownMasterKeyId.1 := fun heq =>
      hmasterDistinct (Subtype.ext heq ▸ List.mem_map_of_mem hmem)
    obtain ⟨verifierKey, hverifier, hpair⟩ := (hkeys.subkeys subkey hmem).signingKey hflags
    rw [hactive] at hsigned ⊢
    rw [if_neg hne]
    have hfind : (impl.ownSubkeys.map (peerSubkeyOf impl.keyAlgorithm)).find? (fun peer =>
        peer.keyId.1 = (subkey.signingKey impl.keyAlgorithm).keyId.1) =
          some (peerSubkeyOf impl.keyAlgorithm subkey) :=
      find?_keyId impl.keyAlgorithm hmem hsubkeysDistinct
    simp only [hfind, hverifier, Option.getD_some]
    exact SigningKey.verify_sign hlawful hpair (by simp) hsigned

end Signatures

end HashCryptoLib.Pgp
