import HashCryptoLib.Pgp.Step
import HashCryptoLib.Pgp.StandIn

/-!
The exported public block and the peer parser in step. Every signature packet
an own operation stores is read back by the subpacket scanner as what it was
issued for; this is an invariant of the own identity, and from it the parser
recovers the exporter's master key, user IDs and subkeys, in order.
-/

namespace HashCryptoLib.Pgp

open BigEndian Cursor

/-! ### Scanning what was built -/

theorem SubpacketScan.record_signatureType (scan : SubpacketScan) (subpacket : UInt8 × Bytes) :
    (scan.record subpacket).signatureType = scan.signatureType := by
  unfold SubpacketScan.record
  split_ifs <;> rfl

theorem foldl_record_signatureType (scan : SubpacketScan) (subpackets : List (UInt8 × Bytes)) :
    (subpackets.foldl SubpacketScan.record scan).signatureType = scan.signatureType := by
  induction subpackets generalizing scan with
  | nil => rfl
  | cons subpacket subpackets ih =>
      rw [List.foldl_cons, ih, SubpacketScan.record_signatureType]

/-- The scanner reads the area whose length the 16-bit field still shows. -/
theorem scan_signatureBody (signatureType pkAlgorithm hashAlgorithm : UInt8)
    (hashedSubpackets unhashedSubpackets leftHash signatureMpis : Bytes) :
    scanSignatureHashedSubpackets (signatureBody signatureType pkAlgorithm hashAlgorithm
        hashedSubpackets unhashedSubpackets leftHash signatureMpis) =
      some ((walkSubpackets (signatureBody signatureType pkAlgorithm hashAlgorithm
        hashedSubpackets unhashedSubpackets leftHash signatureMpis)
          (6 + hashedSubpackets.length % 2 ^ 16) 6).foldl SubpacketScan.record
            { signatureType }) := by
  have hat := signatureBody_at signatureType pkAlgorithm hashAlgorithm hashedSubpackets
    unhashedSubpackets leftHash signatureMpis
  have hlength := readBigEndian16_mod hat
  have hle := hat.length_eq
  simp only [List.length_append, appendBigEndian16, length_toOctets] at hle
  have hmod := Nat.mod_le hashedSubpackets.length (2 ^ 16)
  rw [scanSignatureHashedSubpackets, if_neg, hlength]
  · dsimp only
    rw [if_neg (by omega)]
    rfl
  · have hversion : (signatureBody signatureType pkAlgorithm hashAlgorithm hashedSubpackets
        unhashedSubpackets leftHash signatureMpis)[0]? = some 4 := rfl
    rw [hversion]
    simp only [ne_eq, not_true_eq_false, or_false]
    omega

/-! ### What a stored signature packet says -/

/-- A signature packet the parser reads as one of the given type. -/
def CarriesType (packet : Bytes) (signatureType : UInt8) : Prop :=
  ∃ body, packet = writePacket PGP_TAG_SIGNATURE body ∧ body.length < 2 ^ 32 ∧
    ∃ scan, scanSignatureHashedSubpackets body = some scan ∧ scan.signatureType = signatureType

/-- A binding signature the parser reads with these flags and this expiration,
which is reported as present exactly when it is not zero. -/
def Binds (packet : Bytes) (keyFlags : UInt8) (expirationSeconds : UInt32) : Prop :=
  ∃ body, packet = writePacket PGP_TAG_SIGNATURE body ∧ body.length < 2 ^ 32 ∧
    scanSignatureHashedSubpackets body = some
      { signatureType := 0x18, haveKeyFlags := true, keyFlags
        haveExpiration := expirationSeconds ≠ 0, expirationSeconds }

/-- Any signature the master key issues is read as one of its type. The hashed
area of a revocation may be longer than its 16-bit length field can say. -/
theorem carriesType_of_signed (P : Primitives) {impl : Impl} {signatureType : UInt8}
    {documentData extra packet : Bytes} {now : UInt32}
    (hmodulus : impl.ownMasterPrivateKey.modulus.size ≤ 4096)
    (hextra : extra.length < 2 ^ 31 + 64)
    (hpacket : packet = signWithOwnMasterKey P impl signatureType documentData extra now)
    (hsigned : packet ≠ []) : CarriesType packet signatureType := by
  subst hpacket
  obtain ⟨leftHash, signatureMpis, -, hbody, hlen⟩ :=
    impl.masterSigningKey.sign_eq P hmodulus hsigned
  exact ⟨_, hbody, by omega, _, scan_signatureBody .., foldl_record_signatureType ..⟩

theorem length_flagsAndExpiration (flags : UInt8) (expirationSeconds : UInt32) :
    (flagsAndExpiration flags expirationSeconds).length ≤ 9 := by
  unfold flagsAndExpiration buildKeyFlagsSubpacket buildKeyExpirationSubpacket
  split_ifs <;>
    simp [length_appendSubpacket, appendBigEndian32, appendNewFormatLength]

theorem recorded_expiration (expirationSeconds : UInt32) :
    UInt32.ofNat (ofOctets ((appendBigEndian32 expirationSeconds.toNat).take 4)) =
      expirationSeconds := by
  have hlt : expirationSeconds.toNat < 256 ^ 4 := by simpa using expirationSeconds.toNat_lt
  rw [List.take_of_length_le (by simp [appendBigEndian32]), appendBigEndian32,
    ofOctets_toOctets_of_lt hlt, UInt32.ofNat_toNat]

/-- The walk over the hashed area of a binding signature. -/
theorem walkSubpackets_flagsAndExpiration {body rest : Bytes} {now expirationSeconds : UInt32}
    {flags : UInt8} (h : At body 6
      (hashedSubpacketsOf now (flagsAndExpiration flags expirationSeconds) ++ rest)) :
    walkSubpackets body
        (6 + (hashedSubpacketsOf now (flagsAndExpiration flags expirationSeconds)).length) 6 =
      (2, appendBigEndian32 now.toNat) :: (27, [flags]) ::
        if expirationSeconds > 0 then [(9, appendBigEndian32 expirationSeconds.toNat)] else [] := by
  simp only [hashedSubpacketsOf, flagsAndExpiration, buildKeyFlagsSubpacket,
    List.append_assoc] at h ⊢
  have hflags := h.advance
  have htail := hflags.advance
  have htime : (appendBigEndian32 now.toNat).length + 1 < 2 ^ 32 := by simp [appendBigEndian32]
  rw [walkSubpackets_cons htime h (by simp only [List.length_append]; omega),
    walkSubpackets_cons (by simp) hflags (by simp only [List.length_append]; omega)]
  split_ifs at h htail ⊢ with hexpires
  · have hexpiration : (appendBigEndian32 expirationSeconds.toNat).length + 1 < 2 ^ 32 := by
      simp [appendBigEndian32]
    rw [buildKeyExpirationSubpacket] at htail ⊢
    rw [walkSubpackets_cons hexpiration htail (by simp only [List.length_append]; omega)]
    simp only [List.length_append, ← Nat.add_assoc, walkSubpackets_end]
    rfl
  · simp only [List.length_append, List.length_nil, Nat.add_zero, ← Nat.add_assoc,
      walkSubpackets_end]
    rfl

theorem binds_of_signed (P : Primitives) {impl : Impl} {documentData packet : Bytes}
    {keyFlags : UInt8} {expirationSeconds now : UInt32}
    (hmodulus : impl.ownMasterPrivateKey.modulus.size ≤ 4096)
    (hpacket : packet = signWithOwnMasterKey P impl 0x18 documentData
      (flagsAndExpiration keyFlags expirationSeconds) now)
    (hsigned : packet ≠ []) : Binds packet keyFlags expirationSeconds := by
  have hextra := length_flagsAndExpiration keyFlags expirationSeconds
  subst hpacket
  obtain ⟨leftHash, signatureMpis, -, hbody, hlen⟩ :=
    impl.masterSigningKey.sign_eq P hmodulus hsigned
  have htime := length_appendNewFormatLength_le (4 + 1)
  have hhashed : (hashedSubpacketsOf now (flagsAndExpiration keyFlags expirationSeconds)).length <
      2 ^ 16 := by
    simp only [hashedSubpacketsOf, List.length_append, length_appendSubpacket,
      length_appendBigEndian32]
    omega
  refine ⟨_, hbody, by omega, ?_⟩
  rw [scan_signatureBody, Nat.mod_eq_of_lt hhashed,
    walkSubpackets_flagsAndExpiration (signatureBody_hashed_at ..)]
  have hexpiration := recorded_expiration expirationSeconds
  split_ifs with hexpires
  · have hne : expirationSeconds ≠ 0 := (UInt32.pos_iff_ne_zero).mp hexpires
    simp [SubpacketScan.record, hexpiration, hne]
  · have hzero : expirationSeconds = 0 := by
      by_contra hne
      exact hexpires (UInt32.pos_iff_ne_zero.mpr hne)
    simp [SubpacketScan.record, hzero]

/-! ### The invariant -/

structure UserIdWellFormed (uid : PgpOwnUserId) : Prop where
  length_lt : uid.uidText.length < 2 ^ 31
  cert : CarriesType uid.certSigPacket 0x13
  revocation : uid.isRevoked = true → CarriesType uid.revocationSigPacket 0x30

structure SubkeyWellFormed (P : Primitives) (keyAlgorithm : PgpKeyAlgorithm)
    (subkey : PgpOwnSubkey) : Prop where
  modulus_size : subkey.rsaPublicKey.modulus.size ≤ 4096
  exponent_le : subkey.rsaPublicKey.publicExponent ≤ 17
  identified : (subkey.fingerprint, subkey.keyId) =
    computeFingerprintAndKeyId P (buildOwnSubkeyPubBody keyAlgorithm subkey)
  binding : Binds subkey.bindingSigPacket subkey.keyFlags subkey.expirationSeconds
  revocation : subkey.isRevoked = true → CarriesType subkey.revocationSigPacket 0x28

/-- What the export relies on, in every state of an engine. -/
structure OwnWellFormed (P : Primitives) (impl : Impl) : Prop where
  privateModulus_size : impl.ownMasterPrivateKey.modulus.size ≤ 4096
  modulus_size : impl.ownMasterPublicKey.modulus.size ≤ 4096
  exponent_le : impl.ownMasterPublicKey.publicExponent ≤ 17
  identified : impl.ownKeyGenerated = true →
    (impl.ownMasterFingerprint, impl.ownMasterKeyId) =
      computeFingerprintAndKeyId P (buildOwnMasterPubBody impl)
  userIds : ∀ uid ∈ impl.ownUserIds, UserIdWellFormed uid
  subkeys : ∀ subkey ∈ impl.ownSubkeys, SubkeyWellFormed P impl.keyAlgorithm subkey

section Invariant

variable {P : Primitives}

theorem generateRsaKey_bounds (P : Primitives) (seed : ℕ) {bits : ℕ} (h : IsRsaKeySize bits) :
    (P.generateRsaKey seed bits).1.modulus.size ≤ 4096 ∧
      (P.generateRsaKey seed bits).1.publicExponent ≤ 17 := by
  obtain ⟨hsize, hexponent⟩ := (P.generateRsaKey seed bits).2
  exact ⟨hsize.trans_le h.le, hexponent.le⟩

theorem GeneratedPackets.signed_of_full {packets : GeneratedPackets}
    (h : packets.anyEmpty = false) : packets.certSigPacket ≠ [] ∧ packets.bindSigPacket ≠ [] := by
  simp only [GeneratedPackets.anyEmpty, Bool.or_eq_false_iff, decide_eq_false_iff_not] at h
  exact ⟨h.1.1.1, h.1.1.2⟩

theorem OwnWellFormed.storeRsa {impl : Impl} {env : Env} {userId : Buffer} {password : Bytes}
    {expirationSeconds : UInt32} (halgorithm : impl.keyAlgorithm = PGP_KEY_ALGORITHM_RSA)
    (hbits : IsRsaKeySize impl.rsaKeyBits.toNat)
    (hfull : (generateRsaPackets P env (P.generateRsaKey (env.seed 0) impl.rsaKeyBits.toNat).1
      (P.generateRsaKey (env.seed 1) impl.rsaKeyBits.toNat).1 userId.1 password
      expirationSeconds).anyEmpty = false) :
    OwnWellFormed P (storeRsa P env userId.1 password expirationSeconds impl) := by
  have hmaster := generateRsaKey_bounds P (env.seed 0) hbits
  have hsubkey := generateRsaKey_bounds P (env.seed 1) hbits
  obtain ⟨hcert, hbind⟩ := GeneratedPackets.signed_of_full hfull
  have hkey : (Pgp.storeRsa P env userId.1 password expirationSeconds impl).keyAlgorithm =
    PGP_KEY_ALGORITHM_RSA := halgorithm
  -- both signatures of the fresh identity are signatures by the stored master key
  have hsigns := signWithOwnMasterKey_rsa P hkey
  constructor
  · exact hmaster.1
  · exact hmaster.1
  · exact hmaster.2
  · intro _
    rw [buildOwnMasterPubBody_rsa hkey]
    rfl
  · intro uid huid
    obtain rfl := List.mem_singleton.mp huid
    have hextra := length_flagsAndExpiration 0x03 expirationSeconds
    exact ⟨userId.2, carriesType_of_signed P hmaster.1 (hextra.trans_lt (by norm_num))
      (hsigns ..).symm hcert, fun hrevoked => absurd hrevoked (by simp)⟩
  · intro subkey hmem
    obtain rfl := List.mem_singleton.mp hmem
    refine ⟨hsubkey.1, hsubkey.2, ?_, binds_of_signed P hmaster.1 (hsigns ..).symm hbind,
      fun hrevoked => absurd hrevoked (by simp)⟩
    rw [hkey]
    rfl

theorem OwnWellFormed.storeEd25519 {impl : Impl} {env : Env} {userId : Buffer} {password : Bytes}
    {expirationSeconds : UInt32}
    (halgorithm : impl.keyAlgorithm = PGP_KEY_ALGORITHM_ED25519_X25519)
    (hinv : OwnWellFormed P impl) :
    OwnWellFormed P (storeEd25519 P env userId.1 password expirationSeconds impl) := by
  have hkey : (Pgp.storeEd25519 P env userId.1 password expirationSeconds impl).keyAlgorithm =
    PGP_KEY_ALGORITHM_ED25519_X25519 := halgorithm
  have hprivate : (Pgp.storeEd25519 P env userId.1 password expirationSeconds
    impl).ownMasterPrivateKey.modulus.size ≤ 4096 := hinv.privateModulus_size
  have hsigns := signWithOwnMasterKey_ed25519 P hkey
  constructor
  · exact hinv.privateModulus_size
  · exact hinv.modulus_size
  · exact hinv.exponent_le
  · intro _
    rw [buildOwnMasterPubBody_ed25519 hkey]
    rfl
  · intro uid huid
    obtain rfl := List.mem_singleton.mp huid
    have hextra := length_flagsAndExpiration 0x03 expirationSeconds
    exact ⟨userId.2, carriesType_of_signed P hprivate (hextra.trans_lt (by norm_num))
      (hsigns ..).symm (buildEd25519SignaturePacket_ne_nil _ _ _ _ _ _ _),
      fun hrevoked => absurd hrevoked (by simp)⟩
  · intro subkey hmem
    obtain rfl := List.mem_singleton.mp hmem
    refine ⟨by simp, by simp, ?_,
      binds_of_signed P hprivate (hsigns ..).symm
        (buildEd25519SignaturePacket_ne_nil _ _ _ _ _ _ _),
      fun hrevoked => absurd hrevoked (by simp)⟩
    rw [hkey]
    rfl

/-- Replacing the user IDs keeps the invariant, if the new ones satisfy it. -/
theorem OwnWellFormed.withUserIds {impl : Impl} (hinv : OwnWellFormed P impl)
    {ownUserIds : List PgpOwnUserId} (huids : ∀ uid ∈ ownUserIds, UserIdWellFormed uid) :
    OwnWellFormed P { impl with ownUserIds } :=
  ⟨hinv.privateModulus_size, hinv.modulus_size, hinv.exponent_le, hinv.identified, huids,
    hinv.subkeys⟩

/-- Replacing the subkeys keeps the invariant, if the new ones satisfy it. -/
theorem OwnWellFormed.withSubkeys {impl : Impl} (hinv : OwnWellFormed P impl)
    {ownSubkeys : List PgpOwnSubkey}
    (hsubkeys : ∀ subkey ∈ ownSubkeys, SubkeyWellFormed P impl.keyAlgorithm subkey) :
    OwnWellFormed P { impl with ownSubkeys } :=
  ⟨hinv.privateModulus_size, hinv.modulus_size, hinv.exponent_le, hinv.identified, hinv.userIds,
    hsubkeys⟩

theorem forall_mem_set {α : Type} {p : α → Prop} {xs : List α} {i : ℕ} {x : α}
    (hxs : ∀ y ∈ xs, p y) (hx : p x) : ∀ y ∈ xs.set i x, p y := by
  intro y hy
  rcases List.mem_or_eq_of_mem_set hy with hmem | rfl
  · exact hxs y hmem
  · exact hx

theorem length_revocationReason_lt (reasonCode : UInt8) (reasonText : Buffer) :
    (buildRevocationReasonSubpacket reasonCode reasonText.1).length < 2 ^ 31 + 64 := by
  have htext := reasonText.2
  have hheader := length_appendNewFormatLength_le ((reasonCode :: reasonText.1).length + 1)
  rw [buildRevocationReasonSubpacket, length_appendSubpacket]
  simp only [List.length_cons] at hheader ⊢
  omega

theorem length_primaryFlag (isPrimary : Bool) :
    (buildPrimaryUserIdSubpacket isPrimary).length ≤ 3 := by
  simp [buildPrimaryUserIdSubpacket, length_appendSubpacket, appendNewFormatLength]

/-- The subkey `AddSubkey` appends satisfies the invariant. -/
theorem SubkeyWellFormed.boundSubkey {impl : Impl} (hinv : OwnWellFormed P impl) {env : Env}
    {password : Bytes} {keyFlags : UInt8} {expirationSeconds : UInt32}
    (hflags : impl.keyAlgorithm = PGP_KEY_ALGORITHM_RSA ∧ IsRsaKeySize impl.rsaKeyBits.toNat ∨
      impl.keyAlgorithm = PGP_KEY_ALGORITHM_ED25519_X25519 ∧ (keyFlags = 0x0C ∨ keyFlags = 0x02))
    (hsigned : (Pgp.boundSubkey P env password keyFlags expirationSeconds
      impl).bindingSigPacket ≠ []) :
    SubkeyWellFormed P impl.keyAlgorithm
      (Pgp.boundSubkey P env password keyFlags expirationSeconds impl) := by
  have hbind : Binds (Pgp.boundSubkey P env password keyFlags expirationSeconds
      impl).bindingSigPacket keyFlags expirationSeconds :=
    binds_of_signed P hinv.privateModulus_size rfl hsigned
  have hkey : (freshSubkey P env keyFlags impl).rsaPublicKey.modulus.size ≤ 4096 ∧
      (freshSubkey P env keyFlags impl).rsaPublicKey.publicExponent ≤ 17 := by
    rcases hflags with ⟨halgorithm, hbits⟩ | ⟨halgorithm, -⟩
    · simp only [freshSubkey, halgorithm]
      exact generateRsaKey_bounds P _ hbits
    · simp only [freshSubkey, halgorithm]
      split_ifs <;> simp
  exact ⟨hkey.1, hkey.2, rfl, hbind, fun hrevoked => absurd hrevoked (by simp [Pgp.boundSubkey])⟩

theorem OwnWellFormed.step {impl impl' : Impl} (hstep : EngineStep P impl impl')
    (hinv : OwnWellFormed P impl) : OwnWellFormed P impl' := by
  have hprivate := hinv.privateModulus_size
  cases hstep with
  | generateRsa env userId password expirationSeconds hpassword halgorithm hbits hfull =>
      exact OwnWellFormed.storeRsa halgorithm hbits hfull
  | generateEd25519 env userId password expirationSeconds hpassword halgorithm =>
      exact OwnWellFormed.storeEd25519 halgorithm hinv
  | addUserId password uid now hpassword hlength hcert hsigned hrevoked hprimary =>
      have hextra := length_flagsAndExpiration 0x03 impl.keyExpirationSeconds
      apply hinv.withUserIds
      intro other hmem
      rcases List.mem_append.mp hmem with hold | hnew
      · exact hinv.userIds other hold
      · obtain rfl := List.mem_singleton.mp hnew
        exact ⟨hlength, carriesType_of_signed P hprivate (hextra.trans_lt (by norm_num)) hcert
          hsigned, fun h => absurd h (by simp [hrevoked])⟩
  | setPrimaryUserId password i uid newCert now hpassword huid hcert hsigned =>
      -- only this user ID gets a new certificate, the others lose a flag in memory
      have huidInv := hinv.userIds uid (List.mem_of_getElem? huid)
      have hcertInv : CarriesType newCert 0x13 := by
        have hextra := length_flagsAndExpiration 0x03 impl.keyExpirationSeconds
        have hflag := length_primaryFlag true
        refine carriesType_of_signed P hprivate ?_ hcert hsigned
        rw [List.length_append]
        omega
      have hnew : UserIdWellFormed { uid with certSigPacket := newCert } :=
        ⟨huidInv.length_lt, hcertInv, huidInv.revocation⟩
      apply hinv.withUserIds
      intro other hmem
      obtain ⟨j, hj, rfl⟩ := List.mem_mapIdx.mp hmem
      have hset := forall_mem_set hinv.userIds hnew _ (List.getElem_mem hj)
      exact ⟨hset.length_lt, hset.cert, hset.revocation⟩
  | revokeUserId password i uid reasonCode reasonText revocationSig now hpassword huid hsig
      hsigned =>
      have huidInv := hinv.userIds uid (List.mem_of_getElem? huid)
      exact hinv.withUserIds (forall_mem_set hinv.userIds ⟨huidInv.length_lt, huidInv.cert,
        fun _ => carriesType_of_signed P hprivate (length_revocationReason_lt _ _) hsig hsigned⟩)
  | addSubkey env password keyFlags expirationSeconds hpassword hflags hsigned =>
      apply hinv.withSubkeys
      intro other hmem
      rcases List.mem_append.mp hmem with hold | hnew
      · exact hinv.subkeys other hold
      · obtain rfl := List.mem_singleton.mp hnew
        exact SubkeyWellFormed.boundSubkey hinv hflags hsigned
  | revokeSubkey password i subkey reasonCode reasonText revocationSig now hpassword hsubkey hsig
      hsigned =>
      have hsubkeyInv := hinv.subkeys subkey (List.mem_of_getElem? hsubkey)
      exact hinv.withSubkeys (forall_mem_set hinv.subkeys ⟨hsubkeyInv.modulus_size,
        hsubkeyInv.exponent_le, hsubkeyInv.identified, hsubkeyInv.binding,
        fun _ => carriesType_of_signed P hprivate (length_revocationReason_lt _ _) hsig hsigned⟩)
  | expirePrimary password i uid expirationSeconds newCert now hpassword hindex huid hcert
      hsigned =>
      have huidInv := hinv.userIds uid (List.mem_of_getElem? huid)
      have hcertInv : CarriesType newCert 0x13 := by
        have hextra := length_flagsAndExpiration 0x03 expirationSeconds
        have hflag : (keptPrimaryFlag uid).length ≤ 3 := by
          unfold keptPrimaryFlag
          split_ifs
          · exact length_primaryFlag true
          · simp
        refine carriesType_of_signed P hprivate ?_ hcert hsigned
        rw [List.length_append]
        omega
      have hnew : UserIdWellFormed { uid with certSigPacket := newCert } :=
        ⟨huidInv.length_lt, hcertInv, huidInv.revocation⟩
      exact ⟨hprivate, hinv.modulus_size, hinv.exponent_le, hinv.identified,
        forall_mem_set hinv.userIds hnew, hinv.subkeys⟩
  | expireSubkey password i subkey expirationSeconds newBinding now hpassword hsubkey hsig
      hsigned =>
      have hsubkeyInv := hinv.subkeys subkey (List.mem_of_getElem? hsubkey)
      exact hinv.withSubkeys (forall_mem_set hinv.subkeys ⟨hsubkeyInv.modulus_size,
        hsubkeyInv.exponent_le, hsubkeyInv.identified, binds_of_signed P hprivate hsig hsigned,
        hsubkeyInv.revocation⟩)
  | changePassword env password newPassword hnew hpassword =>
      refine ⟨hprivate, hinv.modulus_size, hinv.exponent_le, hinv.identified, hinv.userIds, ?_⟩
      intro other hmem
      obtain ⟨j, hj, rfl⟩ := List.mem_mapIdx.mp hmem
      have hold := hinv.subkeys _ (List.getElem_mem hj)
      exact ⟨hold.modulus_size, hold.exponent_le, hold.identified, hold.binding, hold.revocation⟩
  -- the peer calls leave the own identity alone
  | importPeer now binary parsed hparse => exact ⟨hprivate, hinv.modulus_size, hinv.exponent_le,
      hinv.identified, hinv.userIds, hinv.subkeys⟩
  | importRecipient now binary parsed hparse hsubkey => exact ⟨hprivate, hinv.modulus_size,
      hinv.exponent_le, hinv.identified, hinv.userIds, hinv.subkeys⟩
  | preferCipher algorithm => exact ⟨hprivate, hinv.modulus_size, hinv.exponent_le,
      hinv.identified, hinv.userIds, hinv.subkeys⟩

theorem OwnWellFormed.new (P : Primitives) (keyAlgorithm : PgpKeyAlgorithm) (rsaKeyBits : ℤ) :
    OwnWellFormed P (Impl.new keyAlgorithm rsaKeyBits) := by
  constructor <;> simp [Impl.new]

theorem Reachable.wellFormed {impl : Impl} (h : Reachable P impl) : OwnWellFormed P impl :=
  h.invariant (OwnWellFormed.new P) fun _ _ => OwnWellFormed.step

end Invariant

/-! ### Walking an exported block -/

/-- What a peer sees of an own user ID. -/
def peerUserIdOf (uid : PgpOwnUserId) : PgpPeerUserId :=
  { uidText := uid.uidText, isRevoked := uid.isRevoked }

/-- The key material of an own subkey, as a peer that has not read its binding
signature sees it. -/
def unboundPeerSubkeyOf (keyAlgorithm : PgpKeyAlgorithm) (subkey : PgpOwnSubkey) : PgpPeerSubkey :=
  match keyAlgorithm with
  | PGP_KEY_ALGORITHM_RSA =>
    { algorithm := PGP_KEY_ALGORITHM_RSA
      rsaKey := subkey.rsaPublicKey
      keyId := subkey.keyId
      fingerprint := subkey.fingerprint
      creationTime := subkey.creationTime }
  | PGP_KEY_ALGORITHM_ED25519_X25519 =>
    { algorithm := PGP_KEY_ALGORITHM_ED25519_X25519
      x25519Key := if subkey.isEd25519Sign then Octets.zero 32 else subkey.x25519PublicKey
      ed25519Key := if subkey.isEd25519Sign then subkey.ed25519PublicKey else Octets.zero 32
      isEd25519 := subkey.isEd25519Sign
      keyId := subkey.keyId
      fingerprint := subkey.fingerprint
      creationTime := subkey.creationTime }

/-- What a peer sees of an own subkey. -/
def peerSubkeyOf (keyAlgorithm : PgpKeyAlgorithm) (subkey : PgpOwnSubkey) : PgpPeerSubkey :=
  { unboundPeerSubkeyOf keyAlgorithm subkey with
    haveKeyFlags := true
    keyFlags := subkey.keyFlags
    haveExpiration := subkey.expirationSeconds ≠ 0
    expirationSeconds := subkey.expirationSeconds
    isRevoked := subkey.isRevoked }

section Walk

variable {P : Primitives} {binary rest : Bytes} {pos : ℕ} {walk : PeerWalk}

theorem modify_append_singleton {α : Type} (xs : List α) (x : α) (f : α → α) :
    (xs ++ [x]).modify xs.length f = xs ++ [f x] := by
  induction xs with
  | nil => rfl
  | cons y ys ih => simpa using ih

/-- A stored signature packet is one `sign` step of the walk. -/
theorem walkPeerBlock_signature {packet : Bytes} {signatureType : UInt8}
    (hpacket : CarriesType packet signatureType) (h : At binary pos (packet ++ rest)) :
    ∃ next scan, scan.signatureType = signatureType ∧
      walkPeerBlock P binary pos walk = walkPeerBlock P binary next (walk.sign scan) ∧
      At binary next rest := by
  obtain ⟨body, rfl, hbody, scan, hscan, htype⟩ := hpacket
  obtain ⟨next, hstep, hnext⟩ := walkPeerBlock_packet P walk (by decide) hbody h
  refine ⟨next, scan, htype, ?_, hnext⟩
  rw [hstep]
  simp [PeerWalk.packet, hscan, PGP_TAG_SIGNATURE, PGP_TAG_PUBLIC_KEY, PGP_TAG_PUBLIC_SUBKEY,
    PGP_TAG_USER_ID]

/-- A rendered user ID adds itself, with its revocation, and nothing else. -/
theorem walkPeerBlock_userId {uid : PgpOwnUserId} (huid : UserIdWellFormed uid)
    (h : At binary pos (renderUserId uid ++ rest)) :
    ∃ next walk', walkPeerBlock P binary pos walk = walkPeerBlock P binary next walk' ∧
      At binary next rest ∧
      walk'.out = { walk.out with userIds := walk.out.userIds ++ [peerUserIdOf uid] } := by
  rw [renderUserId, List.append_assoc, List.append_assoc] at h
  obtain ⟨next₁, hstep₁, h₁⟩ := walkPeerBlock_packet P walk (by decide)
    (huid.length_lt.trans (by norm_num)) h
  obtain ⟨next₂, scan₂, htype₂, hstep₂, h₂⟩ := walkPeerBlock_signature huid.cert h₁
  have hadded : (walk.packet P PGP_TAG_USER_ID uid.uidText).sign scan₂ =
      ⟨{ walk.out with userIds := walk.out.userIds ++ [{ uidText := uid.uidText }] }, OWNER_UID,
        walk.out.userIds.length⟩ := by
    simp [PeerWalk.packet, PeerWalk.sign, htype₂, PGP_TAG_PUBLIC_KEY, PGP_TAG_PUBLIC_SUBKEY,
      PGP_TAG_USER_ID]
  rw [hstep₁, hstep₂, hadded]
  cases hrevoked : uid.isRevoked with
  | false =>
      refine ⟨next₂, _, rfl, by simpa [hrevoked] using h₂, ?_⟩
      simp [peerUserIdOf, hrevoked]
  | true =>
      rw [hrevoked, if_pos rfl] at h₂
      obtain ⟨next₃, scan₃, htype₃, hstep₃, h₃⟩ :=
        walkPeerBlock_signature (huid.revocation hrevoked) h₂
      refine ⟨next₃, _, hstep₃, h₃, ?_⟩
      simp [PeerWalk.sign, htype₃, modify_append_singleton, peerUserIdOf, hrevoked]

theorem walkPeerBlock_userIds {uids : List PgpOwnUserId}
    (huids : ∀ uid ∈ uids, UserIdWellFormed uid)
    (h : At binary pos (uids.flatMap renderUserId ++ rest)) :
    ∃ next walk', walkPeerBlock P binary pos walk = walkPeerBlock P binary next walk' ∧
      At binary next rest ∧
      walk'.out = { walk.out with userIds := walk.out.userIds ++ uids.map peerUserIdOf } := by
  induction uids generalizing pos walk with
  | nil => exact ⟨pos, walk, rfl, h, by simp⟩
  | cons uid uids ih =>
      rw [List.flatMap_cons, List.append_assoc] at h
      obtain ⟨next₁, walk₁, hstep₁, h₁, hout₁⟩ :=
        walkPeerBlock_userId (huids uid List.mem_cons_self) h
      obtain ⟨next₂, walk₂, hstep₂, h₂, hout₂⟩ :=
        ih (fun other hmem => huids other (List.mem_cons_of_mem _ hmem)) h₁
      exact ⟨next₂, walk₂, hstep₁.trans hstep₂, h₂, by simp [hout₂, hout₁]⟩

/-! ### Subkeys and the master key -/

theorem length_buildRsaPublicKeyPacketBody_bounds (creationTime : UInt32) {key : RsaPublicKey}
    (hmodulus : key.modulus.size ≤ 4096) (hexponent : key.publicExponent ≤ 17) :
    6 ≤ (buildRsaPublicKeyPacketBody creationTime key.modulus key.publicExponent).length ∧
      (buildRsaPublicKeyPacketBody creationTime key.modulus key.publicExponent).length < 2 ^ 32 ∧
      key.publicExponent.size < 2 ^ 16 := by
  have hsize : key.publicExponent.size ≤ 5 := Nat.size_le.mpr (by omega)
  rw [length_buildRsaPublicKeyPacketBody]
  unfold octetsOfBits
  omega

theorem SubkeyWellFormed.body_bounds {keyAlgorithm : PgpKeyAlgorithm} {subkey : PgpOwnSubkey}
    (hsubkey : SubkeyWellFormed P keyAlgorithm subkey) :
    6 ≤ (buildOwnSubkeyPubBody keyAlgorithm subkey).length ∧
      (buildOwnSubkeyPubBody keyAlgorithm subkey).length < 2 ^ 32 := by
  have hrsa := length_buildRsaPublicKeyPacketBody_bounds subkey.creationTime
    hsubkey.modulus_size hsubkey.exponent_le
  cases keyAlgorithm with
  | PGP_KEY_ALGORITHM_RSA => exact ⟨hrsa.1, hrsa.2.1⟩
  | PGP_KEY_ALGORITHM_ED25519_X25519 =>
      simp only [buildOwnSubkeyPubBody]
      split_ifs
      · rw [length_buildEd25519PublicKeyPacketBody]
        omega
      · rw [length_buildX25519PublicKeyPacketBody]
        omega

/-- A rendered subkey body parses to the subkey's key material. -/
theorem parsePeerSubkey_build {keyAlgorithm : PgpKeyAlgorithm} {subkey : PgpOwnSubkey}
    (hsubkey : SubkeyWellFormed P keyAlgorithm subkey) :
    parsePeerSubkey P (buildOwnSubkeyPubBody keyAlgorithm subkey) =
      some (unboundPeerSubkeyOf keyAlgorithm subkey) := by
  have hidentified := hsubkey.identified
  have hfingerprint := congrArg Prod.fst hidentified
  have hkeyId := congrArg Prod.snd hidentified
  cases keyAlgorithm with
  | PGP_KEY_ALGORITHM_RSA =>
      obtain ⟨-, -, hexponent⟩ := length_buildRsaPublicKeyPacketBody_bounds
        subkey.creationTime hsubkey.modulus_size hsubkey.exponent_le
      obtain ⟨htime, halgorithm⟩ := buildRsaPublicKeyPacketBody_head subkey.creationTime
        subkey.rsaPublicKey.modulus subkey.rsaPublicKey.publicExponent
      have hparse := parseRsaPublicKeyPacketBody_build P subkey.creationTime
        (hsubkey.modulus_size.trans_lt (by norm_num)) hexponent
      simp only [buildOwnSubkeyPubBody] at hfingerprint hkeyId ⊢
      simp [parsePeerSubkey, unboundPeerSubkeyOf, htime, halgorithm, hparse, ← hfingerprint,
        ← hkeyId]
  | PGP_KEY_ALGORITHM_ED25519_X25519 =>
      cases hsign : subkey.isEd25519Sign with
      | true =>
          obtain ⟨htime, halgorithm⟩ := buildEd25519PublicKeyPacketBody_head subkey.creationTime
            subkey.ed25519PublicKey
          have hparse := parseEd25519PublicKeyPacketBody_build P subkey.creationTime
            subkey.ed25519PublicKey
          simp only [buildOwnSubkeyPubBody, hsign, if_true] at hfingerprint hkeyId ⊢
          simp [parsePeerSubkey, unboundPeerSubkeyOf, htime, halgorithm, hparse, hsign,
            ← hfingerprint, ← hkeyId, PGP_ALGO_RSA, PGP_ALGO_ECDH, PGP_ALGO_EDDSA]
      | false =>
          obtain ⟨htime, halgorithm⟩ := buildX25519PublicKeyPacketBody_head subkey.creationTime
            subkey.x25519PublicKey
          have hparse := parseX25519PublicKeyPacketBody_build P subkey.creationTime
            subkey.x25519PublicKey
          simp only [buildOwnSubkeyPubBody, hsign, Bool.false_eq_true, if_false]
            at hfingerprint hkeyId ⊢
          simp [parsePeerSubkey, unboundPeerSubkeyOf, htime, halgorithm, hparse, hsign,
            ← hfingerprint, ← hkeyId, PGP_ALGO_RSA, PGP_ALGO_ECDH]

/-- Reading its binding signature completes what a peer knows of a subkey. -/
theorem bind_unboundPeerSubkeyOf (keyAlgorithm : PgpKeyAlgorithm) (subkey : PgpOwnSubkey) :
    (unboundPeerSubkeyOf keyAlgorithm subkey).bind
        { signatureType := 0x18, haveKeyFlags := true, keyFlags := subkey.keyFlags
          haveExpiration := subkey.expirationSeconds ≠ 0
          expirationSeconds := subkey.expirationSeconds } =
      { peerSubkeyOf keyAlgorithm subkey with isRevoked := false } := by
  by_cases hzero : subkey.expirationSeconds = 0 <;> cases keyAlgorithm <;>
    simp [PgpPeerSubkey.bind, peerSubkeyOf, unboundPeerSubkeyOf, hzero]

/-- A rendered subkey adds itself, with its flags, expiration and revocation,
and nothing else. -/
theorem walkPeerBlock_subkey {keyAlgorithm : PgpKeyAlgorithm} {subkey : PgpOwnSubkey}
    (hsubkey : SubkeyWellFormed P keyAlgorithm subkey)
    (h : At binary pos (renderSubkey (writePacket PGP_TAG_PUBLIC_SUBKEY
      (buildOwnSubkeyPubBody keyAlgorithm subkey)) subkey ++ rest)) :
    ∃ next walk', walkPeerBlock P binary pos walk = walkPeerBlock P binary next walk' ∧
      At binary next rest ∧
      walk'.out = { walk.out with
        subkeys := walk.out.subkeys ++ [peerSubkeyOf keyAlgorithm subkey] } := by
  obtain ⟨hlow, hhigh⟩ := hsubkey.body_bounds
  rw [renderSubkey, List.append_assoc, List.append_assoc] at h
  obtain ⟨next₁, hstep₁, h₁⟩ := walkPeerBlock_packet P walk (by decide) hhigh h
  obtain ⟨body, hpacket, hbody, hscan⟩ := hsubkey.binding
  rw [hpacket] at h₁
  obtain ⟨next₂, hstep₂, h₂⟩ := walkPeerBlock_packet P
    (walk.packet P PGP_TAG_PUBLIC_SUBKEY (buildOwnSubkeyPubBody keyAlgorithm subkey))
    (by decide) hbody h₁
  have hbound : ((walk.packet P PGP_TAG_PUBLIC_SUBKEY
      (buildOwnSubkeyPubBody keyAlgorithm subkey)).packet P PGP_TAG_SIGNATURE body) =
      ⟨{ walk.out with subkeys := walk.out.subkeys ++
          [{ peerSubkeyOf keyAlgorithm subkey with isRevoked := false }] }, OWNER_SUBKEY,
        walk.out.subkeys.length⟩ := by
    rw [← bind_unboundPeerSubkeyOf]
    simp [PeerWalk.packet, PeerWalk.sign, parsePeerSubkey_build hsubkey, hscan, not_lt.mpr hlow,
      modify_append_singleton, PGP_TAG_PUBLIC_KEY, PGP_TAG_PUBLIC_SUBKEY, PGP_TAG_SIGNATURE,
      PGP_TAG_USER_ID]
  rw [hstep₁, hstep₂, hbound]
  cases hrevoked : subkey.isRevoked with
  | false =>
      refine ⟨next₂, _, rfl, by simpa [hrevoked] using h₂, ?_⟩
      simp [peerSubkeyOf, hrevoked]
  | true =>
      rw [hrevoked, if_pos rfl] at h₂
      obtain ⟨next₃, scan₃, htype₃, hstep₃, h₃⟩ :=
        walkPeerBlock_signature (hsubkey.revocation hrevoked) h₂
      refine ⟨next₃, _, hstep₃, h₃, ?_⟩
      simp [PeerWalk.sign, htype₃, modify_append_singleton, peerSubkeyOf, hrevoked]

theorem walkPeerBlock_subkeys {keyAlgorithm : PgpKeyAlgorithm} {subkeys : List PgpOwnSubkey}
    (hsubkeys : ∀ subkey ∈ subkeys, SubkeyWellFormed P keyAlgorithm subkey)
    (h : At binary pos (subkeys.flatMap (fun subkey => renderSubkey (writePacket
      PGP_TAG_PUBLIC_SUBKEY (buildOwnSubkeyPubBody keyAlgorithm subkey)) subkey) ++ rest)) :
    ∃ next walk', walkPeerBlock P binary pos walk = walkPeerBlock P binary next walk' ∧
      At binary next rest ∧
      walk'.out = { walk.out with
        subkeys := walk.out.subkeys ++ subkeys.map (peerSubkeyOf keyAlgorithm) } := by
  induction subkeys generalizing pos walk with
  | nil => exact ⟨pos, walk, rfl, h, by simp⟩
  | cons subkey subkeys ih =>
      rw [List.flatMap_cons, List.append_assoc] at h
      obtain ⟨next₁, walk₁, hstep₁, h₁, hout₁⟩ :=
        walkPeerBlock_subkey (hsubkeys subkey List.mem_cons_self) h
      obtain ⟨next₂, walk₂, hstep₂, h₂, hout₂⟩ :=
        ih (fun other hmem => hsubkeys other (List.mem_cons_of_mem _ hmem)) h₁
      exact ⟨next₂, walk₂, hstep₁.trans hstep₂, h₂, by simp [hout₂, hout₁]⟩

end Walk

/-- The identity a peer learns from an export: key material, names and subkeys,
with the single-valued subkey fields still unset. -/
def exportedIdentity (impl : Impl) : ParsedPeerPublicKeyBlock :=
  { haveMaster := true
    masterAlgorithm := impl.keyAlgorithm
    masterRsaKey := match impl.keyAlgorithm with
      | PGP_KEY_ALGORITHM_RSA => impl.ownMasterPublicKey
      | PGP_KEY_ALGORITHM_ED25519_X25519 => {}
    masterEd25519Key := match impl.keyAlgorithm with
      | PGP_KEY_ALGORITHM_RSA => Octets.zero 32
      | PGP_KEY_ALGORITHM_ED25519_X25519 => impl.ownEd25519PublicKey
    masterKeyId := impl.ownMasterKeyId
    masterFingerprint := impl.ownMasterFingerprint
    userIds := impl.ownUserIds.map peerUserIdOf
    subkeys := impl.ownSubkeys.map (peerSubkeyOf impl.keyAlgorithm) }

section Export

variable {P : Primitives} {impl : Impl}

theorem OwnWellFormed.masterBody_bounds (hinv : OwnWellFormed P impl) :
    6 ≤ (buildOwnMasterPubBody impl).length ∧ (buildOwnMasterPubBody impl).length < 2 ^ 32 := by
  cases halgorithm : impl.keyAlgorithm with
  | PGP_KEY_ALGORITHM_RSA =>
      rw [buildOwnMasterPubBody_rsa halgorithm]
      obtain ⟨hlow, hhigh, -⟩ := length_buildRsaPublicKeyPacketBody_bounds impl.keyCreationTime
        hinv.modulus_size hinv.exponent_le
      exact ⟨hlow, hhigh⟩
  | PGP_KEY_ALGORITHM_ED25519_X25519 =>
      rw [buildOwnMasterPubBody_ed25519 halgorithm, length_buildEd25519PublicKeyPacketBody]
      omega

theorem parsePeerMaster_build (hinv : OwnWellFormed P impl)
    (hgenerated : impl.ownKeyGenerated = true) :
    parsePeerMaster P {} (buildOwnMasterPubBody impl) =
      some { exportedIdentity impl with userIds := [], subkeys := [] } := by
  have hidentified := hinv.identified hgenerated
  have hfingerprint := congrArg Prod.fst hidentified
  have hkeyId := congrArg Prod.snd hidentified
  cases halgorithm : impl.keyAlgorithm with
  | PGP_KEY_ALGORITHM_RSA =>
      obtain ⟨-, -, hexponent⟩ := length_buildRsaPublicKeyPacketBody_bounds
        impl.keyCreationTime hinv.modulus_size hinv.exponent_le
      obtain ⟨-, hoctet⟩ := buildRsaPublicKeyPacketBody_head impl.keyCreationTime
        impl.ownMasterPublicKey.modulus impl.ownMasterPublicKey.publicExponent
      have hparse := parseRsaPublicKeyPacketBody_build P impl.keyCreationTime
        (hinv.modulus_size.trans_lt (by norm_num)) hexponent
      rw [buildOwnMasterPubBody_rsa halgorithm] at hfingerprint hkeyId ⊢
      simp [parsePeerMaster, exportedIdentity, halgorithm, hoctet, hparse, ← hfingerprint,
        ← hkeyId]
  | PGP_KEY_ALGORITHM_ED25519_X25519 =>
      obtain ⟨-, hoctet⟩ := buildEd25519PublicKeyPacketBody_head impl.keyCreationTime
        impl.ownEd25519PublicKey
      have hparse := parseEd25519PublicKeyPacketBody_build P impl.keyCreationTime
        impl.ownEd25519PublicKey
      rw [buildOwnMasterPubBody_ed25519 halgorithm] at hfingerprint hkeyId ⊢
      simp [parsePeerMaster, exportedIdentity, halgorithm, hoctet, hparse, ← hfingerprint,
        ← hkeyId, PGP_ALGO_RSA, PGP_ALGO_EDDSA]

/-- The walk over a whole exported block. -/
theorem walkPeerBlock_export (hinv : OwnWellFormed P impl)
    (hgenerated : impl.ownKeyGenerated = true) :
    (walkPeerBlock P (renderOwnKeyBlocks impl).1 0 {}).out = exportedIdentity impl := by
  obtain ⟨hlow, hhigh⟩ := hinv.masterBody_bounds
  have hblock : At (renderOwnKeyBlocks impl).1 0 (writePacket PGP_TAG_PUBLIC_KEY
      (buildOwnMasterPubBody impl) ++ (impl.ownUserIds.flatMap renderUserId ++
        (impl.ownSubkeys.flatMap (fun subkey => renderSubkey (writePacket PGP_TAG_PUBLIC_SUBKEY
          (buildOwnSubkeyPubBody impl.keyAlgorithm subkey)) subkey) ++ []))) := by
    have hrender := at_zero (renderOwnKeyBlocks impl).1
    simpa [renderOwnKeyBlocks, hgenerated] using hrender
  obtain ⟨next₁, hstep₁, h₁⟩ := walkPeerBlock_packet P {} (by decide) hhigh hblock
  obtain ⟨next₂, walk₂, hstep₂, h₂, hout₂⟩ := walkPeerBlock_userIds hinv.userIds h₁
  obtain ⟨next₃, walk₃, hstep₃, h₃, hout₃⟩ := walkPeerBlock_subkeys hinv.subkeys h₂
  have hmaster : (PeerWalk.packet P {} PGP_TAG_PUBLIC_KEY (buildOwnMasterPubBody impl)).out =
      { exportedIdentity impl with userIds := [], subkeys := [] } := by
    simp [PeerWalk.packet, parsePeerMaster_build hinv hgenerated, not_lt.mpr hlow]
  rw [hstep₁, hstep₂, hstep₃, walkPeerBlock_end P walk₃ h₃, hout₃, hout₂, hmaster]
  simp [exportedIdentity]

/-- Parsing the public block of a well-formed identity recovers the identity. -/
theorem parsePeerPublicKeyBlock_export (hinv : OwnWellFormed P impl)
    (hgenerated : impl.ownKeyGenerated = true) (now : UInt32) :
    parsePeerPublicKeyBlock P now (renderOwnKeyBlocks impl).1 =
      some ((exportedIdentity impl).chooseSubkey now) := by
  rw [parsePeerPublicKeyBlock, walkPeerBlock_export hinv hgenerated]
  rfl

/-- The choice of a subkey touches only the single-valued subkey fields. -/
theorem chooseSubkey_kept (out : ParsedPeerPublicKeyBlock) (now : UInt32) :
    (out.chooseSubkey now).haveMaster = out.haveMaster ∧
      (out.chooseSubkey now).masterAlgorithm = out.masterAlgorithm ∧
      (out.chooseSubkey now).masterRsaKey = out.masterRsaKey ∧
      (out.chooseSubkey now).masterEd25519Key = out.masterEd25519Key ∧
      (out.chooseSubkey now).masterKeyId = out.masterKeyId ∧
      (out.chooseSubkey now).masterFingerprint = out.masterFingerprint ∧
      (out.chooseSubkey now).userIds = out.userIds ∧
      (out.chooseSubkey now).subkeys = out.subkeys := by
  unfold ParsedPeerPublicKeyBlock.chooseSubkey
  split
  · simp
  · split_ifs <;> simp

/-- Taking the armor off an exported block gives the rendered packets back. -/
theorem decodeKeyBlockToBinary_export (impl : Impl) :
    decodeKeyBlockToBinary (exportPublicKeyArmored impl) = some (renderOwnKeyBlocks impl).1 := by
  have hlabel : DASH ∉ ascii "PGP PUBLIC KEY BLOCK" := by decide
  have harmor := armorDecode_armorEncode hlabel (renderOwnKeyBlocks impl).1 []
  rw [List.append_nil] at harmor
  rw [decodeKeyBlockToBinary, if_pos ⟨_, rfl⟩, exportPublicKeyArmored, harmor, Option.map_some]

/-- Parsing the exported public block of a reachable identity recovers its
master key, its user IDs and its subkeys, in order. -/
theorem parse_exportPublicKeyArmored (hreachable : Reachable P impl)
    (hgenerated : impl.ownKeyGenerated = true) (now : UInt32) :
    ∃ parsed, (decodeKeyBlockToBinary (exportPublicKeyArmored impl)).bind
        (parsePeerPublicKeyBlock P now) = some parsed ∧
      parsed.haveMaster = true ∧ parsed.masterAlgorithm = impl.keyAlgorithm ∧
      (impl.keyAlgorithm = PGP_KEY_ALGORITHM_RSA →
        parsed.masterRsaKey = impl.ownMasterPublicKey) ∧
      (impl.keyAlgorithm = PGP_KEY_ALGORITHM_ED25519_X25519 →
        parsed.masterEd25519Key = impl.ownEd25519PublicKey) ∧
      parsed.masterKeyId = impl.ownMasterKeyId ∧
      parsed.masterFingerprint = impl.ownMasterFingerprint ∧
      parsed.userIds = impl.ownUserIds.map peerUserIdOf ∧
      parsed.subkeys = impl.ownSubkeys.map (peerSubkeyOf impl.keyAlgorithm) := by
  have hparse := parsePeerPublicKeyBlock_export hreachable.wellFormed hgenerated now
  obtain ⟨hhave, halgorithm, hrsa, hed25519, hkeyId, hfingerprint, huserIds, hsubkeys⟩ :=
    chooseSubkey_kept (exportedIdentity impl) now
  refine ⟨(exportedIdentity impl).chooseSubkey now, ?_, hhave, halgorithm, ?_, ?_, hkeyId,
    hfingerprint, huserIds, hsubkeys⟩
  · rw [decodeKeyBlockToBinary_export, Option.bind_some, hparse]
  · intro hfamily
    rw [hrsa, exportedIdentity, hfamily]
  · intro hfamily
    rw [hed25519, exportedIdentity, hfamily]

end Export

/-! ### An identity with some history -/

/-- A curve identity with three user IDs and three subkeys, of each of which one has been
revoked. -/
def managedOwner : Impl :=
  [EngineOp.addUserId (ascii "pw") ⟨ascii "bob", length_bob⟩ false,
    .addUserId (ascii "pw") ⟨ascii "carol", by decide⟩ true, .addSubkey (ascii "pw") 0x02 0,
    .addSubkey (ascii "pw") 0x0C 3600, .revokeUserId (ascii "pw") 1 0x20 ⟨ascii "left", by decide⟩,
    .revokeSubkey (ascii "pw") 1 1 ⟨ascii "new one", by decide⟩].foldl
      (fun impl op => (op.call standIn (Env.numbered 2000 9) impl).2)
      (freshOwner standIn (Env.numbered 1000 7) (ascii "alice") (ascii "pw") 0)

theorem managedOwner_reachable : Reachable standIn managedOwner :=
  (freshOwner_reachable (Env.numbered 1000 7) ⟨ascii "alice", by decide⟩ 0 (by decide)
    (by decide)).calls _ _

/-- Its block is read back with every user ID and subkey, and with what was revoked. -/
theorem parse_exportPublicKeyArmored_managed :
    ∃ parsed, (decodeKeyBlockToBinary (exportPublicKeyArmored managedOwner)).bind
        (parsePeerPublicKeyBlock standIn 2000) = some parsed ∧
      parsed.userIds.map (fun uid => (uid.uidText, uid.isRevoked)) =
        [(ascii "alice", false), (ascii "bob", true), (ascii "carol", false)] ∧
      parsed.subkeys.map (fun subkey => (subkey.keyFlags, subkey.isRevoked)) =
        [(0x0C, false), (0x02, true), (0x0C, false)] := by
  obtain ⟨parsed, hparse, -, -, -, -, -, -, huserIds, hsubkeys⟩ :=
    parse_exportPublicKeyArmored managedOwner_reachable (by decide +kernel) 2000
  refine ⟨parsed, hparse, ?_, ?_⟩
  · rw [huserIds]
    decide +kernel
  · rw [hsubkeys]
    decide +kernel

end HashCryptoLib.Pgp
