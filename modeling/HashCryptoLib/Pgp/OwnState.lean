import HashCryptoLib.Pgp.HeldKeys
import HashCryptoLib.Pgp.Export

/-!
The representation invariant of the own identity. The state is redundant: the
primary user ID is a flag and a certification, the first subkey stands in the
flat fields as well, and every cached signature packet repeats what the fields
beside it say. In every reachable state all of it agrees.
-/

namespace HashCryptoLib.Pgp

open BigEndian Cursor

/-! ### Reading a self-certification -/

/-- An area of subpackets, written one behind another. -/
def subpacketArea (subpackets : List (UInt8 × Bytes)) : Bytes :=
  subpackets.flatMap fun subpacket => appendSubpacket subpacket.1 subpacket.2

/-- The scanners find in an area what was written there. -/
theorem walkSubpackets_area {data rest : Bytes} (subpackets : List (UInt8 × Bytes))
    (hshort : ∀ subpacket ∈ subpackets, subpacket.2.length + 1 < 2 ^ 32) :
    ∀ {pos : ℕ}, At data pos (subpacketArea subpackets ++ rest) →
      walkSubpackets data (pos + (subpacketArea subpackets).length) pos =
        subpackets.map fun subpacket => (subpacket.1 &&& 0x7F, subpacket.2) := by
  induction subpackets with
  | nil =>
      intro pos h
      exact walkSubpackets_end data pos
  | cons subpacket subpackets ih =>
      intro pos h
      obtain ⟨hfirst, hrest⟩ := List.forall_mem_cons.mp hshort
      simp only [subpacketArea, List.flatMap_cons, List.append_assoc] at h
      have hnext := ih hrest h.advance
      simp only [subpacketArea, List.flatMap_cons, List.length_append, List.map_cons] at hnext ⊢
      rw [walkSubpackets_cons hfirst h (by omega), ← Nat.add_assoc, hnext]

/-- The hashed subpackets of a signature body. -/
def hashedSubpackets (body : Bytes) : List (UInt8 × Bytes) :=
  walkSubpackets body (6 + readBigEndian16 body 4) 6

/-- What the engine writes into a self-certification: the time, the key flags,
the key expiration unless it is zero, and the Primary User ID flag or not. -/
def certificationSubpackets (now expirationSeconds : UInt32) (primary : Bool) :
    List (UInt8 × Bytes) :=
  (2, appendBigEndian32 now.toNat) :: (27, [0x03]) ::
    ((if expirationSeconds > 0 then [(9, appendBigEndian32 expirationSeconds.toNat)] else []) ++
      if primary then [(25, [1])] else [])

/-- A self-certification that says this expiration and this flag, to the
engine's own scanner and to anyone who reads its subpackets. -/
def Certified (packet : Bytes) (expirationSeconds : UInt32) (primary : Bool) : Prop :=
  ∃ body now, packet = writePacket PGP_TAG_SIGNATURE body ∧ body.length < 2 ^ 32 ∧
    body[1]? = some 0x13 ∧
    hashedSubpackets body = certificationSubpackets now expirationSeconds primary ∧
    scanSignatureHashedSubpackets body = some
      { signatureType := 0x13, haveKeyFlags := true, keyFlags := 0x03
        haveExpiration := expirationSeconds ≠ 0, expirationSeconds }

/-- The Primary User ID subpacket, or nothing. -/
def primaryFlag (primary : Bool) : Bytes :=
  if primary then buildPrimaryUserIdSubpacket true else []

theorem hashedSubpacketsOf_certification (now expirationSeconds : UInt32) (primary : Bool) :
    hashedSubpacketsOf now (flagsAndExpiration 0x03 expirationSeconds ++ primaryFlag primary) =
      subpacketArea (certificationSubpackets now expirationSeconds primary) := by
  simp only [hashedSubpacketsOf, flagsAndExpiration, primaryFlag, buildKeyFlagsSubpacket,
    buildKeyExpirationSubpacket, buildPrimaryUserIdSubpacket, subpacketArea,
    certificationSubpackets, List.flatMap_cons, List.flatMap_append, List.append_assoc]
  split_ifs <;> simp

theorem certificationSubpackets_short (now expirationSeconds : UInt32) (primary : Bool) :
    ∀ subpacket ∈ certificationSubpackets now expirationSeconds primary,
      subpacket.2.length + 1 < 2 ^ 32 ∧ subpacket.1 &&& 0x7F = subpacket.1 := by
  intro subpacket hmem
  simp only [certificationSubpackets, List.mem_cons, List.mem_append, List.mem_ite_nil_right,
    List.not_mem_nil, or_false] at hmem
  rcases hmem with rfl | rfl | ⟨-, rfl⟩ | ⟨-, rfl⟩
  · exact ⟨by simp, show (2 : UInt8) &&& 0x7F = 2 by decide⟩
  · exact ⟨by simp, show (27 : UInt8) &&& 0x7F = 27 by decide⟩
  · exact ⟨by simp, show (9 : UInt8) &&& 0x7F = 9 by decide⟩
  · exact ⟨by simp, show (25 : UInt8) &&& 0x7F = 25 by decide⟩

/-- What the scanner makes of a certification. -/
theorem record_certification (now expirationSeconds : UInt32) (primary : Bool) :
    (certificationSubpackets now expirationSeconds primary).foldl SubpacketScan.record
        { signatureType := 0x13 } =
      { signatureType := 0x13, haveKeyFlags := true, keyFlags := 0x03
        haveExpiration := expirationSeconds ≠ 0, expirationSeconds } := by
  have hexpiration := recorded_expiration expirationSeconds
  by_cases hzero : expirationSeconds = 0
  · subst hzero
    cases primary <;> simp [certificationSubpackets, SubpacketScan.record]
  · have hpos : expirationSeconds > 0 := UInt32.pos_iff_ne_zero.mpr hzero
    cases primary <;>
      simp [certificationSubpackets, SubpacketScan.record, hpos, hzero, hexpiration]

theorem certified_of_signed (P : Primitives) {impl : Impl} {documentData packet : Bytes}
    {expirationSeconds now : UInt32} {primary : Bool}
    (hmodulus : impl.ownMasterPrivateKey.modulus.size ≤ 4096)
    (hpacket : packet = signWithOwnMasterKey P impl 0x13 documentData
      (flagsAndExpiration 0x03 expirationSeconds ++ primaryFlag primary) now)
    (hsigned : packet ≠ []) : Certified packet expirationSeconds primary := by
  have hextra := length_flagsAndExpiration 0x03 expirationSeconds
  have hflag : (primaryFlag primary).length ≤ 3 := by
    unfold primaryFlag
    split_ifs
    · exact length_primaryFlag true
    · simp
  subst hpacket
  obtain ⟨leftHash, signatureMpis, -, hbody, hlen⟩ :=
    impl.masterSigningKey.sign_eq P hmodulus hsigned
  rw [List.length_append] at hlen
  have htime := length_appendNewFormatLength_le (4 + 1)
  have hhashed : (hashedSubpacketsOf now (flagsAndExpiration 0x03 expirationSeconds ++
      primaryFlag primary)).length < 2 ^ 16 := by
    simp only [hashedSubpacketsOf, List.length_append, length_appendSubpacket,
      length_appendBigEndian32]
    omega
  have hshort := certificationSubpackets_short now expirationSeconds primary
  have hat := signatureBody_hashed_at 0x13 impl.masterSigningKey.pkAlgorithm
    impl.masterSigningKey.hashAlgorithm
    (hashedSubpacketsOf now (flagsAndExpiration 0x03 expirationSeconds ++ primaryFlag primary))
    (unhashedSubpacketsOf impl.masterSigningKey.keyId) leftHash signatureMpis
  have hlength := readBigEndian16_of_at hhashed (signatureBody_at 0x13
    impl.masterSigningKey.pkAlgorithm impl.masterSigningKey.hashAlgorithm
    (hashedSubpacketsOf now (flagsAndExpiration 0x03 expirationSeconds ++ primaryFlag primary))
    (unhashedSubpacketsOf impl.masterSigningKey.keyId) leftHash signatureMpis)
  -- the walk over the hashed area, for the scanner and for any reader
  have hwalk : walkSubpackets (signatureBody 0x13 impl.masterSigningKey.pkAlgorithm
      impl.masterSigningKey.hashAlgorithm (hashedSubpacketsOf now (flagsAndExpiration 0x03
        expirationSeconds ++ primaryFlag primary)) (unhashedSubpacketsOf
          impl.masterSigningKey.keyId) leftHash signatureMpis)
      (6 + (hashedSubpacketsOf now (flagsAndExpiration 0x03 expirationSeconds ++
        primaryFlag primary)).length) 6 =
      certificationSubpackets now expirationSeconds primary := by
    rw [hashedSubpacketsOf_certification] at hat ⊢
    rw [walkSubpackets_area _ (fun subpacket hmem => (hshort subpacket hmem).1) hat]
    calc (certificationSubpackets now expirationSeconds primary).map
          (fun subpacket => (subpacket.1 &&& 0x7F, subpacket.2))
        = (certificationSubpackets now expirationSeconds primary).map id := by
          apply List.map_congr_left
          intro subpacket hmem
          rw [(hshort subpacket hmem).2]
          rfl
      _ = certificationSubpackets now expirationSeconds primary := List.map_id _
  refine ⟨_, now, hbody, by omega, rfl, ?_, ?_⟩
  · rw [hashedSubpackets, hlength, hwalk]
  · rw [scan_signatureBody, Nat.mod_eq_of_lt hhashed, hwalk, record_certification]

/-- A certification without the flag has no fourth subpacket. -/
theorem certified_unflagged (P : Primitives) {impl : Impl} {documentData packet : Bytes}
    {expirationSeconds now : UInt32} (hmodulus : impl.ownMasterPrivateKey.modulus.size ≤ 4096)
    (hpacket : packet = signWithOwnMasterKey P impl 0x13 documentData
      (flagsAndExpiration 0x03 expirationSeconds) now)
    (hsigned : packet ≠ []) : Certified packet expirationSeconds false := by
  apply certified_of_signed P hmodulus _ hsigned
  · exact documentData
  · exact now
  · rw [hpacket, primaryFlag, if_neg Bool.false_ne_true, List.append_nil]

/-! ### The invariant -/

/-- Which user ID is the primary one. -/
def PrimaryAt (ownUserIds : List PgpOwnUserId) (i : ℕ) : Prop :=
  i < ownUserIds.length ∧
    ∀ j uid, ownUserIds[j]? = some uid → (uid.isPrimary = true ↔ j = i)

/-- The flat subkey fields hold this subkey. -/
def MirroredBy (impl : Impl) (subkey : PgpOwnSubkey) : Prop :=
  subkey.keyId = impl.ownSubkeyKeyId ∧ subkey.fingerprint = impl.ownSubkeyFingerprint ∧
    match impl.keyAlgorithm with
    | PGP_KEY_ALGORITHM_RSA =>
      subkey.rsaPrivateKey = impl.ownSubkeyPrivateKey ∧
        subkey.rsaPublicKey = impl.ownSubkeyPublicKey
    | PGP_KEY_ALGORITHM_ED25519_X25519 =>
      subkey.x25519PrivateKey = impl.ownX25519PrivateKey ∧
        subkey.x25519PublicKey = impl.ownX25519PublicKey

/-- A user ID whose cached packets say what its fields say. -/
structure UserIdCoherent (keyExpirationSeconds : UInt32) (uid : PgpOwnUserId) : Prop where
  certified : ∃ expirationSeconds primary,
    Certified uid.certSigPacket expirationSeconds primary ∧
      (uid.isPrimary = true → expirationSeconds = keyExpirationSeconds)
  revocation : uid.isRevoked = true ↔ uid.revocationSigPacket ≠ []

structure OwnCoherent (impl : Impl) : Prop where
  primary : impl.ownKeyGenerated = true → ∃ i, PrimaryAt impl.ownUserIds i
  userIds : ∀ uid ∈ impl.ownUserIds, UserIdCoherent impl.keyExpirationSeconds uid
  mirror : impl.ownKeyGenerated = true →
    ∃ subkey, impl.ownSubkeys[0]? = some subkey ∧ MirroredBy impl subkey
  revocations : ∀ subkey ∈ impl.ownSubkeys,
    subkey.isRevoked = true ↔ subkey.revocationSigPacket ≠ []

section Coherent

variable {P : Primitives} {impl : Impl}

theorem PrimaryAt.singleton (uid : PgpOwnUserId) (h : uid.isPrimary = true) :
    PrimaryAt [uid] 0 := by
  refine ⟨by simp, fun j other hother => ?_⟩
  cases j with
  | zero =>
      obtain rfl : uid = other := by simpa using hother
      simp [h]
  | succ j => simp at hother

theorem PrimaryAt.append {uids : List PgpOwnUserId} {i : ℕ} (h : PrimaryAt uids i)
    {uid : PgpOwnUserId} (huid : uid.isPrimary = false) : PrimaryAt (uids ++ [uid]) i := by
  obtain ⟨hlt, hiff⟩ := h
  refine ⟨by simp; omega, fun j other hother => ?_⟩
  by_cases hj : j < uids.length
  · rw [List.getElem?_append_left hj] at hother
    exact hiff j other hother
  · rw [List.getElem?_append_right (by omega)] at hother
    have hsame : other = uid := by
      cases hindex : j - uids.length with
      | zero =>
          rw [hindex] at hother
          simpa using hother.symm
      | succ k =>
          rw [hindex] at hother
          simp at hother
    subst hsame
    rw [huid]
    simp only [Bool.false_eq_true, false_iff]
    omega

/-- Writing a user ID back with its flag unchanged moves nothing. -/
theorem PrimaryAt.set {uids : List PgpOwnUserId} {i k : ℕ} (h : PrimaryAt uids i)
    {uid uid' : PgpOwnUserId} (huid : uids[k]? = some uid) (hflag : uid'.isPrimary = uid.isPrimary) :
    PrimaryAt (uids.set k uid') i := by
  obtain ⟨hlt, hiff⟩ := h
  refine ⟨by rwa [List.length_set], fun j other hother => ?_⟩
  rw [List.getElem?_set] at hother
  split_ifs at hother with hkj hlen
  · subst hkj
    obtain rfl := Option.some.inj hother
    rw [hflag]
    exact hiff _ uid huid
  · exact hiff j other hother

/-- Moving the flag puts it at the target and nowhere else. -/
theorem PrimaryAt.moved {uids : List PgpOwnUserId} {i : ℕ} (h : i < uids.length) :
    PrimaryAt (uids.mapIdx fun j uid => { uid with isPrimary := j = i }) i := by
  refine ⟨by simpa using h, fun j uid huid => ?_⟩
  rw [List.getElem?_mapIdx] at huid
  obtain ⟨other, -, rfl⟩ := Option.map_eq_some_iff.mp huid
  simp

/-- The search for the primary user ID finds it. -/
theorem PrimaryAt.primaryIndex {uids : List PgpOwnUserId} {i : ℕ} (h : PrimaryAt uids i) :
    primaryIndex uids = some i := by
  obtain ⟨hlt, hiff⟩ := h
  have hfind : uids.findIdx? PgpOwnUserId.isPrimary = some i := by
    rw [List.findIdx?_eq_some_iff_getElem]
    refine ⟨hlt, (hiff i _ (List.getElem?_eq_getElem hlt)).mpr rfl, fun j hj => ?_⟩
    intro hprimary
    have hji := (hiff j _ (List.getElem?_eq_getElem (by omega))).mp hprimary
    omega
  rw [Pgp.primaryIndex, hfind]

theorem lt_of_getElem? {α : Type} {xs : List α} {i : ℕ} {x : α} (h : xs[i]? = some x) :
    i < xs.length := by
  obtain ⟨hlt, -⟩ := List.getElem?_eq_some_iff.mp h
  exact hlt

/-- The first entry after an entry is written back. -/
theorem head_set {α : Type} {xs : List α} {k : ℕ} {x x' y : α} {p : α → Prop}
    (hx : xs[k]? = some x) (hy : xs[0]? = some y) (hp : p y) (hkept : p x → p x') :
    ∃ y', (xs.set k x')[0]? = some y' ∧ p y' := by
  rw [List.getElem?_set]
  split_ifs with hk hlen
  · subst hk
    obtain rfl := Option.some.inj (hx.symm.trans hy)
    exact ⟨x', rfl, hkept hp⟩
  · exact absurd (lt_of_getElem? hx) hlen
  · exact ⟨y, hy, hp⟩

theorem OwnCoherent.storeRsa {env : Env} {userId password : Bytes} {expirationSeconds : UInt32}
    (halgorithm : impl.keyAlgorithm = PGP_KEY_ALGORITHM_RSA)
    (hbits : IsRsaKeySize impl.rsaKeyBits.toNat)
    (hfull : (generateRsaPackets P env (P.generateRsaKey (env.seed 0) impl.rsaKeyBits.toNat).1
      (P.generateRsaKey (env.seed 1) impl.rsaKeyBits.toNat).1 userId password
      expirationSeconds).anyEmpty = false) :
    OwnCoherent (storeRsa P env userId password expirationSeconds impl) := by
  obtain ⟨hcert, -⟩ := GeneratedPackets.signed_of_full hfull
  have hkey : (Pgp.storeRsa P env userId password expirationSeconds impl).keyAlgorithm =
    PGP_KEY_ALGORITHM_RSA := halgorithm
  have hsigns := signWithOwnMasterKey_rsa P hkey
  constructor
  · exact fun _ => ⟨0, PrimaryAt.singleton _ rfl⟩
  · intro uid hmem
    obtain rfl := List.mem_singleton.mp hmem
    exact ⟨⟨expirationSeconds, false, certified_unflagged P
      (generateRsaKey_bounds P (env.seed 0) hbits).1 (hsigns ..).symm hcert, fun _ => rfl⟩,
      by simp⟩
  · refine fun _ => ⟨_, rfl, rfl, rfl, ?_⟩
    rw [hkey]
    exact ⟨rfl, rfl⟩
  · intro subkey hmem
    obtain rfl := List.mem_singleton.mp hmem
    simp

theorem OwnCoherent.storeEd25519 {env : Env} {userId password : Bytes}
    {expirationSeconds : UInt32}
    (halgorithm : impl.keyAlgorithm = PGP_KEY_ALGORITHM_ED25519_X25519)
    (hwell : OwnWellFormed P impl) :
    OwnCoherent (storeEd25519 P env userId password expirationSeconds impl) := by
  have hkey : (Pgp.storeEd25519 P env userId password expirationSeconds impl).keyAlgorithm =
    PGP_KEY_ALGORITHM_ED25519_X25519 := halgorithm
  have hprivate : (Pgp.storeEd25519 P env userId password expirationSeconds
    impl).ownMasterPrivateKey.modulus.size ≤ 4096 := hwell.privateModulus_size
  have hsigns := signWithOwnMasterKey_ed25519 P hkey
  constructor
  · exact fun _ => ⟨0, PrimaryAt.singleton _ rfl⟩
  · intro uid hmem
    obtain rfl := List.mem_singleton.mp hmem
    exact ⟨⟨expirationSeconds, false, certified_unflagged P hprivate (hsigns ..).symm
      (buildEd25519SignaturePacket_ne_nil _ _ _ _ _ _ _), fun _ => rfl⟩, by simp⟩
  · refine fun _ => ⟨_, rfl, rfl, rfl, ?_⟩
    rw [hkey]
    exact ⟨rfl, rfl⟩
  · intro subkey hmem
    obtain rfl := List.mem_singleton.mp hmem
    simp

/-- The flag moves to a user ID that is certified again; the others lose it. -/
theorem UserIdCoherent.moved {uids : List PgpOwnUserId} {i : ℕ} {uid : PgpOwnUserId}
    {keyExpirationSeconds : UInt32} {newCert : Bytes}
    (hold : ∀ uid ∈ uids, UserIdCoherent keyExpirationSeconds uid) (huid : uids[i]? = some uid)
    (hcert : Certified newCert keyExpirationSeconds true) :
    ∀ other ∈ (uids.set i { uid with certSigPacket := newCert }).mapIdx
      (fun j uid => { uid with isPrimary := j = i }),
        UserIdCoherent keyExpirationSeconds other := by
  intro other hmem
  obtain ⟨j, hj, rfl⟩ := List.mem_mapIdx.mp hmem
  have hrevocation : ∀ other ∈ uids.set i { uid with certSigPacket := newCert },
      (other.isRevoked = true ↔ other.revocationSigPacket ≠ []) :=
    forall_mem_set (fun other hmem => (hold other hmem).revocation)
      (hold uid (List.mem_of_getElem? huid)).revocation
  have hother := hrevocation _ (List.getElem_mem hj)
  refine ⟨?_, hother⟩
  -- the target has the new certification, and nothing else is primary
  by_cases hji : j = i
  · subst hji
    refine ⟨keyExpirationSeconds, true, ?_, fun _ => rfl⟩
    simp only [List.getElem_set_self]
    exact hcert
  · have hkept : (uids.set i { uid with certSigPacket := newCert })[j] ∈ uids := by
      rw [List.getElem_set_ne (by omega)]
      exact List.getElem_mem _
    obtain ⟨expirationSeconds, primary, hcertified, -⟩ := (hold _ hkept).certified
    exact ⟨expirationSeconds, primary, hcertified, fun h => absurd h (by simp [hji])⟩

/-- Only the primary user ID follows a change of the key's expiration. -/
theorem UserIdCoherent.expired {uids : List PgpOwnUserId} {i : ℕ} {uid : PgpOwnUserId}
    {oldExpiration expirationSeconds : UInt32} {newCert : Bytes} {primary : Bool}
    (hold : ∀ uid ∈ uids, UserIdCoherent oldExpiration uid) (hprimary : PrimaryAt uids i)
    (huid : uids[i]? = some uid) (hcert : Certified newCert expirationSeconds primary) :
    ∀ other ∈ uids.set i { uid with certSigPacket := newCert },
      UserIdCoherent expirationSeconds other := by
  intro other hmem
  obtain ⟨j, hj, rfl⟩ := List.getElem_of_mem hmem
  by_cases hji : j = i
  · subst hji
    simp only [List.getElem_set_self]
    exact ⟨⟨expirationSeconds, _, hcert, fun _ => rfl⟩,
      (hold uid (List.mem_of_getElem? huid)).revocation⟩
  · rw [List.getElem_set_ne (by omega)]
    have hlen : j < uids.length := by rwa [List.length_set] at hj
    have hother := hold _ (List.getElem_mem hlen)
    obtain ⟨formerExpiration, flag, hcertified, -⟩ := hother.certified
    exact ⟨⟨formerExpiration, flag, hcertified, fun h => absurd
      ((hprimary.2 j _ (List.getElem?_eq_getElem hlen)).mp h) hji⟩, hother.revocation⟩

theorem boundSubkey_revocation (P : Primitives) (env : Env) (password : Bytes) (keyFlags : UInt8)
    (expirationSeconds : UInt32) (impl : Impl) :
    (boundSubkey P env password keyFlags expirationSeconds impl).isRevoked = true ↔
      (boundSubkey P env password keyFlags expirationSeconds impl).revocationSigPacket ≠ [] := by
  have hfresh : (freshSubkey P env keyFlags impl).revocationSigPacket = [] := by
    unfold freshSubkey
    split
    · rfl
    · split_ifs <;> rfl
  simp [boundSubkey, hfresh]

theorem OwnCoherent.step {impl' : Impl} (hstep : EngineStep P impl impl')
    (hwell : OwnWellFormed P impl) (hinv : OwnCoherent impl) : OwnCoherent impl' := by
  have hprivate := hwell.privateModulus_size
  cases hstep with
  | generateRsa env userId password expirationSeconds hpassword halgorithm hbits hfull =>
      exact OwnCoherent.storeRsa halgorithm hbits hfull
  | generateEd25519 env userId password expirationSeconds hpassword halgorithm =>
      exact OwnCoherent.storeEd25519 halgorithm hwell
  | addUserId password uid now hpassword hlength hcert hsigned hrevoked hprimary hunrevoked =>
      refine ⟨fun hgenerated => ?_, ?_, hinv.mirror, hinv.revocations⟩
      · obtain ⟨i, hi⟩ := hinv.primary hgenerated
        exact ⟨i, hi.append hprimary⟩
      · intro other hmem
        rcases List.mem_append.mp hmem with hold | hnew
        · exact hinv.userIds other hold
        · obtain rfl := List.mem_singleton.mp hnew
          exact ⟨⟨_, false, certified_unflagged P hprivate hcert hsigned, fun _ => rfl⟩,
            by simp [hrevoked, hunrevoked]⟩
  | setPrimaryUserId password i uid newCert now hpassword huid hcert hsigned =>
      refine ⟨fun _ => ⟨i, ?_⟩, UserIdCoherent.moved hinv.userIds huid
        (certified_of_signed P hprivate hcert hsigned), hinv.mirror, hinv.revocations⟩
      apply PrimaryAt.moved
      rw [List.length_set]
      exact lt_of_getElem? huid
  | revokeUserId password i uid reasonCode reasonText revocationSig now hpassword huid hsig
      hsigned =>
      refine ⟨fun hgenerated => ?_, ?_, hinv.mirror, hinv.revocations⟩
      · obtain ⟨k, hk⟩ := hinv.primary hgenerated
        exact ⟨k, hk.set huid rfl⟩
      · have hold := hinv.userIds uid (List.mem_of_getElem? huid)
        exact forall_mem_set hinv.userIds ⟨hold.certified, by simp [hsigned]⟩
  | addSubkey env password keyFlags expirationSeconds hpassword hflags hsigned =>
      refine ⟨hinv.primary, hinv.userIds, fun hgenerated => ?_, ?_⟩
      · obtain ⟨subkey, hfirst, hmirror⟩ := hinv.mirror hgenerated
        refine ⟨subkey, ?_, hmirror⟩
        -- the mirrored subkey is the first one, which stays in its place
        rw [List.getElem?_append_left (lt_of_getElem? hfirst)]
        exact hfirst
      · intro other hmem
        rcases List.mem_append.mp hmem with hold | hnew
        · exact hinv.revocations other hold
        · obtain rfl := List.mem_singleton.mp hnew
          exact boundSubkey_revocation P env password keyFlags expirationSeconds impl
  | revokeSubkey password i subkey reasonCode reasonText revocationSig now hpassword hsubkey hsig
      hsigned =>
      refine ⟨hinv.primary, hinv.userIds, fun hgenerated => ?_, ?_⟩
      · obtain ⟨first, hfirst, hmirror⟩ := hinv.mirror hgenerated
        exact head_set hsubkey hfirst hmirror id
      · exact forall_mem_set hinv.revocations (by simp [hsigned])
  | expirePrimary password i uid expirationSeconds newCert now hpassword hindex huid hcert
      hsigned =>
      obtain ⟨k, hk⟩ := hinv.primary (ownKeyGenerated_of_not_rejects hpassword)
      -- the search found the primary user ID, which is the only one to follow the change
      obtain rfl : k = i := Option.some.inj (hk.primaryIndex.symm.trans hindex)
      exact ⟨fun _ => ⟨k, hk.set huid rfl⟩, UserIdCoherent.expired hinv.userIds hk huid
        (certified_of_signed P hprivate hcert hsigned), hinv.mirror, hinv.revocations⟩
  | expireSubkey password i subkey expirationSeconds newBinding now hpassword hsubkey hsig
      hsigned =>
      refine ⟨hinv.primary, hinv.userIds, fun hgenerated => ?_, ?_⟩
      · obtain ⟨first, hfirst, hmirror⟩ := hinv.mirror hgenerated
        exact head_set hsubkey hfirst hmirror id
      · exact forall_mem_set hinv.revocations
          (hinv.revocations subkey (List.mem_of_getElem? hsubkey))
  | changePassword env password newPassword hnew hpassword =>
      refine ⟨hinv.primary, hinv.userIds, fun hgenerated => ?_, ?_⟩
      · obtain ⟨first, hfirst, hmirror⟩ := hinv.mirror hgenerated
        refine ⟨_, by rw [List.getElem?_mapIdx, hfirst, Option.map_some], ?_⟩
        exact hmirror
      · intro other hmem
        obtain ⟨j, hj, rfl⟩ := List.mem_mapIdx.mp hmem
        have hold := hinv.revocations _ (List.getElem_mem hj)
        exact hold
  | importPeer | importRecipient | preferCipher =>
      exact ⟨hinv.primary, hinv.userIds, hinv.mirror, hinv.revocations⟩

theorem Reachable.coherent (h : Reachable P impl) : OwnCoherent impl := by
  have hboth : OwnWellFormed P impl ∧ OwnCoherent impl := by
    apply h.invariant
    · intro keyAlgorithm rsaKeyBits
      exact ⟨OwnWellFormed.new P keyAlgorithm rsaKeyBits, by constructor <;> simp [Impl.new]⟩
    · intro impl impl' hstep hinv
      exact ⟨hinv.1.step hstep, hinv.2.step hstep hinv.1⟩
  exact hboth.2

/-! ### The representation invariant -/

/-- What the fields of a generated identity say of each other. -/
structure OwnRepresentation (P : Primitives) (impl : Impl) : Prop where
  /-- Exactly one user ID is marked primary. -/
  onePrimary : ∃! i : ℕ, ∃ uid, impl.ownUserIds[i]? = some uid ∧ uid.isPrimary = true
  /-- The flat subkey fields hold the first of the subkeys, of which there is one. -/
  firstSubkey : ∃ subkey, impl.ownSubkeys[0]? = some subkey ∧ MirroredBy impl subkey
  masterIdentified : (impl.ownMasterFingerprint, impl.ownMasterKeyId) =
    computeFingerprintAndKeyId P (buildOwnMasterPubBody impl)
  subkeysIdentified : ∀ subkey ∈ impl.ownSubkeys, (subkey.fingerprint, subkey.keyId) =
    computeFingerprintAndKeyId P (buildOwnSubkeyPubBody impl.keyAlgorithm subkey)
  userIdRevoked : ∀ uid ∈ impl.ownUserIds, uid.isRevoked = true ↔ uid.revocationSigPacket ≠ []
  subkeyRevoked : ∀ subkey ∈ impl.ownSubkeys,
    subkey.isRevoked = true ↔ subkey.revocationSigPacket ≠ []
  /-- The primary user ID's certification carries the key expiration. -/
  primaryCertified : ∀ uid ∈ impl.ownUserIds, uid.isPrimary = true →
    ∃ primary, Certified uid.certSigPacket impl.keyExpirationSeconds primary
  /-- Every binding signature carries its subkey's flags and expiration. -/
  subkeysBound : ∀ subkey ∈ impl.ownSubkeys,
    Binds subkey.bindingSigPacket subkey.keyFlags subkey.expirationSeconds

/-- The own identity is coherent in every state that calls lead to. -/
theorem representation_of_reachable (h : Reachable P impl)
    (hgenerated : impl.ownKeyGenerated = true) : OwnRepresentation P impl := by
  have hwell := h.wellFormed
  have hcoherent := h.coherent
  obtain ⟨i, hlt, hiff⟩ := hcoherent.primary hgenerated
  refine ⟨⟨i, ⟨impl.ownUserIds[i], List.getElem?_eq_getElem hlt, ?_⟩, ?_⟩,
    hcoherent.mirror hgenerated, hwell.identified hgenerated,
    fun subkey hmem => (hwell.subkeys subkey hmem).identified,
    fun uid hmem => (hcoherent.userIds uid hmem).revocation, hcoherent.revocations,
    fun uid hmem hprimary => ?_, fun subkey hmem => (hwell.subkeys subkey hmem).binding⟩
  · exact (hiff i _ (List.getElem?_eq_getElem hlt)).mpr rfl
  · rintro j ⟨uid, huid, hprimary⟩
    exact (hiff j uid huid).mp hprimary
  · obtain ⟨expirationSeconds, primary, hcertified, hcurrent⟩ :=
      (hcoherent.userIds uid hmem).certified
    rw [hcurrent hprimary] at hcertified
    exact ⟨primary, hcertified⟩

end Coherent

/-- An identity with several user IDs and subkeys, in which some are revoked. -/
theorem representation_of_reachable_managed : OwnRepresentation standIn managedOwner :=
  representation_of_reachable managedOwner_reachable (by decide +kernel)

end HashCryptoLib.Pgp
