import HashCryptoLib.Pgp.SessionKey
import HashCryptoLib.Pgp.Step
import HashCryptoLib.Pgp.Verification

/-!
The keys an engine holds. Every own key came out of a generator, its public half
is the one that is exported, and the flat subkey fields hold the first own
subkey; every key of a peer is of a size that a block can carry. All of it holds
of every reachable state.
-/

namespace HashCryptoLib.Pgp

open BigEndian

/-! ### Own keys -/

/-- One own subkey as a decryption key. -/
def PgpOwnSubkey.decryptionKey (keyAlgorithm : PgpKeyAlgorithm) (subkey : PgpOwnSubkey) :
    DecryptionKey where
  algorithm := keyAlgorithm
  rsaSubkey := subkey.rsaPrivateKey
  x25519PrivateKey := subkey.x25519PrivateKey
  fingerprint := subkey.fingerprint
  keyId := subkey.keyId

/-- The flat subkey fields as a decryption key. -/
def Impl.flatDecryptionKey (impl : Impl) : DecryptionKey where
  algorithm := impl.keyAlgorithm
  rsaSubkey := impl.ownSubkeyPrivateKey
  x25519PrivateKey := impl.ownX25519PrivateKey
  fingerprint := impl.ownSubkeyFingerprint
  keyId := impl.ownSubkeyKeyId

def Impl.subkeyDecryptionKeys (impl : Impl) : List DecryptionKey :=
  impl.ownSubkeys.map (PgpOwnSubkey.decryptionKey impl.keyAlgorithm)

/-- One own subkey as a signing key. -/
def PgpOwnSubkey.signingKey (keyAlgorithm : PgpKeyAlgorithm) (subkey : PgpOwnSubkey) :
    SigningKey where
  algorithm := keyAlgorithm
  rsaKey := subkey.rsaPrivateKey
  ed25519Key := subkey.ed25519PrivateKey
  keyId := subkey.keyId

/-- The public half of the own master key. -/
def Impl.masterVerificationKey (impl : Impl) : VerificationKey :=
  match impl.keyAlgorithm with
  | PGP_KEY_ALGORITHM_RSA => .rsa impl.ownMasterPublicKey
  | PGP_KEY_ALGORITHM_ED25519_X25519 => .ed25519 impl.ownEd25519PublicKey

/-- A subkey as generated for its purpose. Among curve subkeys the key flags
tell the purpose. -/
def PgpOwnSubkey.Generated (P : Primitives) (keyAlgorithm : PgpKeyAlgorithm)
    (subkey : PgpOwnSubkey) : Prop :=
  match keyAlgorithm with
  | PGP_KEY_ALGORITHM_RSA =>
    subkey.isEd25519Sign = false ∧ subkey.rsaPublicKey = subkey.rsaPrivateKey.publicKey ∧
      ∃ seed bits, IsRsaKeySize bits ∧ subkey.rsaPrivateKey = (P.generateRsaKey seed bits).1
  | PGP_KEY_ALGORITHM_ED25519_X25519 =>
    subkey.rsaPrivateKey = {} ∧
      if subkey.isEd25519Sign then
        subkey.keyFlags = 0x02 ∧ ∃ seed,
          (subkey.ed25519PrivateKey, subkey.ed25519PublicKey) = P.generateEd25519Key seed
      else
        subkey.keyFlags = 0x0C ∧ subkey.x25519PublicKey = P.x25519PublicKey subkey.x25519PrivateKey ∧
          ∃ seed, subkey.x25519PrivateKey = P.generateX25519PrivateKey seed

structure OwnKeysGenerated (P : Primitives) (impl : Impl) : Prop where
  master : impl.ownKeyGenerated = true →
    impl.masterSigningKey.Generated P impl.masterVerificationKey
  subkeys : ∀ subkey ∈ impl.ownSubkeys, subkey.Generated P impl.keyAlgorithm
  /-- The flat fields mirror the first subkey. -/
  mirror : impl.ownKeyGenerated = true →
    impl.subkeyDecryptionKeys.head? = some impl.flatDecryptionKey
  /-- The fields of the other family keep their defaults. -/
  rsaFields : impl.keyAlgorithm = PGP_KEY_ALGORITHM_ED25519_X25519 →
    impl.ownSubkeyPrivateKey = {} ∧ impl.ownMasterPrivateKey = {}
  curveFields : impl.keyAlgorithm = PGP_KEY_ALGORITHM_RSA →
    impl.ownX25519PrivateKey = Octets.zero 32

section OwnKeys

variable {P : Primitives} {impl : Impl}

theorem OwnKeysGenerated.new (P : Primitives) (keyAlgorithm : PgpKeyAlgorithm) (rsaKeyBits : ℤ) :
    OwnKeysGenerated P (Impl.new keyAlgorithm rsaKeyBits) := by
  constructor <;> simp [Impl.new]

theorem OwnKeysGenerated.storeRsa {env : Env} {userId password : Bytes}
    {expirationSeconds : UInt32} (halgorithm : impl.keyAlgorithm = PGP_KEY_ALGORITHM_RSA)
    (hbits : IsRsaKeySize impl.rsaKeyBits.toNat) (hinv : OwnKeysGenerated P impl) :
    OwnKeysGenerated P (storeRsa P env userId password expirationSeconds impl) := by
  have hkey : (Pgp.storeRsa P env userId password expirationSeconds impl).keyAlgorithm =
    PGP_KEY_ALGORITHM_RSA := halgorithm
  have hcurve := hinv.curveFields halgorithm
  constructor
  · intro _
    rw [Impl.masterVerificationKey, hkey, SigningKey.Generated, Impl.masterSigningKey, hkey]
    exact ⟨_, _, hbits, rfl, rfl⟩
  · intro subkey hmem
    obtain rfl := List.mem_singleton.mp hmem
    rw [hkey]
    exact ⟨rfl, rfl, _, _, hbits, rfl⟩
  · intro _
    simp only [Impl.subkeyDecryptionKeys, Impl.flatDecryptionKey, Pgp.storeRsa, storeGenerated,
      List.map_cons, List.head?_cons, PgpOwnSubkey.decryptionKey, hcurve]
  · intro hother
    rw [hkey] at hother
    cases hother
  · exact fun _ => hcurve

theorem OwnKeysGenerated.storeEd25519 {env : Env} {userId password : Bytes}
    {expirationSeconds : UInt32}
    (halgorithm : impl.keyAlgorithm = PGP_KEY_ALGORITHM_ED25519_X25519)
    (hinv : OwnKeysGenerated P impl) :
    OwnKeysGenerated P (storeEd25519 P env userId password expirationSeconds impl) := by
  have hkey : (Pgp.storeEd25519 P env userId password expirationSeconds impl).keyAlgorithm =
    PGP_KEY_ALGORITHM_ED25519_X25519 := halgorithm
  obtain ⟨hsubkey, hmaster⟩ := hinv.rsaFields halgorithm
  constructor
  · intro _
    rw [Impl.masterVerificationKey, hkey, SigningKey.Generated, Impl.masterSigningKey, hkey]
    exact ⟨_, rfl, rfl⟩
  · intro subkey hmem
    obtain rfl := List.mem_singleton.mp hmem
    rw [hkey]
    exact ⟨rfl, rfl, rfl, _, rfl⟩
  · intro _
    simp only [Impl.subkeyDecryptionKeys, Impl.flatDecryptionKey, Pgp.storeEd25519,
      storeGenerated, List.map_cons, List.head?_cons, PgpOwnSubkey.decryptionKey, hsubkey]
  · exact fun _ => ⟨hsubkey, hmaster⟩
  · intro hother
    rw [hkey] at hother
    cases hother

theorem PgpOwnSubkey.Generated.boundSubkey {env : Env} {password : Bytes} {keyFlags : UInt8}
    {expirationSeconds : UInt32}
    (hflags : impl.keyAlgorithm = PGP_KEY_ALGORITHM_RSA ∧ IsRsaKeySize impl.rsaKeyBits.toNat ∨
      impl.keyAlgorithm = PGP_KEY_ALGORITHM_ED25519_X25519 ∧
        (keyFlags = 0x0C ∨ keyFlags = 0x02)) :
    (boundSubkey P env password keyFlags expirationSeconds impl).Generated P
      impl.keyAlgorithm := by
  rcases hflags with ⟨halgorithm, hbits⟩ | ⟨halgorithm, rfl | rfl⟩
  · simp only [PgpOwnSubkey.Generated, Pgp.boundSubkey, freshSubkey, halgorithm]
    exact ⟨trivial, trivial, _, _, hbits, rfl⟩
  · have hne : (0x0C : UInt8) ≠ 0x02 := by decide
    simp only [PgpOwnSubkey.Generated, Pgp.boundSubkey, freshSubkey, halgorithm, hne, if_false]
    exact ⟨trivial, trivial, trivial, _, rfl⟩
  · simp only [PgpOwnSubkey.Generated, Pgp.boundSubkey, freshSubkey, halgorithm, if_true]
    exact ⟨trivial, trivial, _, rfl⟩

/-- A change that keeps the keys of every subkey keeps the invariant. -/
theorem OwnKeysGenerated.withSubkeys (hinv : OwnKeysGenerated P impl)
    {ownSubkeys : List PgpOwnSubkey}
    (hsubkeys : ∀ subkey ∈ ownSubkeys, subkey.Generated P impl.keyAlgorithm)
    (hkeys : impl.ownKeyGenerated = true →
      (ownSubkeys.map (PgpOwnSubkey.decryptionKey impl.keyAlgorithm)).head? =
        impl.subkeyDecryptionKeys.head?) :
    OwnKeysGenerated P { impl with ownSubkeys } :=
  ⟨hinv.master, hsubkeys, fun hgenerated => (hkeys hgenerated).trans (hinv.mirror hgenerated),
    hinv.rsaFields, hinv.curveFields⟩

theorem map_set_of_eq {α β : Type} {xs : List α} {i : ℕ} {x y : α} {f : α → β}
    (hx : xs[i]? = some x) (hf : f y = f x) : (xs.set i y).map f = xs.map f := by
  apply List.ext_getElem?
  intro j
  rw [List.map_set, List.getElem?_set, hf]
  split_ifs with hij hlen
  · subst hij
    rw [List.getElem?_map, hx, Option.map_some]
  · subst hij
    rw [List.getElem?_eq_none (by omega)]
  · rfl

theorem OwnKeysGenerated.setSubkey (hinv : OwnKeysGenerated P impl) {i : ℕ}
    {subkey subkey' : PgpOwnSubkey} (hsubkey : impl.ownSubkeys[i]? = some subkey)
    (hkey : subkey'.decryptionKey impl.keyAlgorithm = subkey.decryptionKey impl.keyAlgorithm)
    (hgenerated : subkey'.Generated P impl.keyAlgorithm) :
    OwnKeysGenerated P { impl with ownSubkeys := impl.ownSubkeys.set i subkey' } := by
  apply hinv.withSubkeys
  · intro other hmem
    rcases List.mem_or_eq_of_mem_set hmem with hold | rfl
    · exact hinv.subkeys other hold
    · exact hgenerated
  · intro _
    rw [map_set_of_eq hsubkey hkey]
    rfl

theorem OwnKeysGenerated.step {impl' : Impl} (hstep : EngineStep P impl impl')
    (hinv : OwnKeysGenerated P impl) : OwnKeysGenerated P impl' := by
  cases hstep with
  | generateRsa env userId password expirationSeconds hpassword halgorithm hbits hfull =>
      exact OwnKeysGenerated.storeRsa halgorithm hbits hinv
  | generateEd25519 env userId password expirationSeconds hpassword halgorithm =>
      exact OwnKeysGenerated.storeEd25519 halgorithm hinv
  | addSubkey env password keyFlags expirationSeconds hpassword hflags hsigned =>
      apply hinv.withSubkeys
      · intro other hmem
        rcases List.mem_append.mp hmem with hold | hnew
        · exact hinv.subkeys other hold
        · obtain rfl := List.mem_singleton.mp hnew
          exact PgpOwnSubkey.Generated.boundSubkey hflags
      · intro hgenerated
        have hmirror := hinv.mirror hgenerated
        rw [List.map_append, List.head?_append, ← Impl.subkeyDecryptionKeys, hmirror]
        rfl
  | revokeSubkey password i subkey reasonCode reasonText revocationSig now hpassword hsubkey hsig
      hsigned =>
      exact hinv.setSubkey hsubkey rfl (hinv.subkeys subkey (List.mem_of_getElem? hsubkey))
  | expireSubkey password i subkey expirationSeconds newBinding now hpassword hsubkey hsig
      hsigned =>
      exact hinv.setSubkey hsubkey rfl (hinv.subkeys subkey (List.mem_of_getElem? hsubkey))
  | changePassword env password newPassword hnew hpassword =>
      refine ⟨hinv.master, ?_, ?_, hinv.rsaFields, hinv.curveFields⟩
      · intro other hmem
        obtain ⟨j, hj, rfl⟩ := List.mem_mapIdx.mp hmem
        have hold := hinv.subkeys _ (List.getElem_mem hj)
        exact hold
      · intro hgenerated
        refine Eq.trans (congrArg List.head? ?_) (hinv.mirror hgenerated)
        apply List.ext_getElem
        · simp [Impl.subkeyDecryptionKeys]
        · intro j hj hj'
          simp [Impl.subkeyDecryptionKeys, PgpOwnSubkey.decryptionKey]
  -- calls that touch user IDs or peers only
  | addUserId | setPrimaryUserId | revokeUserId | expirePrimary | importPeer | importRecipient
  | preferCipher =>
      exact ⟨hinv.master, hinv.subkeys, hinv.mirror, hinv.rsaFields, hinv.curveFields⟩

theorem Reachable.ownKeysGenerated (h : Reachable P impl) : OwnKeysGenerated P impl :=
  h.invariant (OwnKeysGenerated.new P) fun _ _ => OwnKeysGenerated.step

end OwnKeys

/-! ### The password -/

/-- The stored hash is that of some password. -/
def HasPassword (P : Primitives) (impl : Impl) : Prop :=
  impl.ownKeyGenerated = true →
    ∃ password ≠ [], checkPasswordHash P impl.passwordCheckHash password = true

theorem HasPassword.step {P : Primitives} {impl impl' : Impl} (hstep : EngineStep P impl impl')
    (hinv : HasPassword P impl) : HasPassword P impl' := by
  have hself (password : Bytes) : checkPasswordHash P (P.sha256 password) password = true := by
    simp [checkPasswordHash]
  cases hstep with
  | generateRsa env userId password expirationSeconds hpassword halgorithm hbits hfull =>
      exact fun _ => ⟨password, hpassword, hself password⟩
  | generateEd25519 env userId password expirationSeconds hpassword halgorithm =>
      exact fun _ => ⟨password, hpassword, hself password⟩
  | changePassword env password newPassword hnew hpassword =>
      exact fun _ => ⟨newPassword, hnew, hself newPassword⟩
  | addUserId | setPrimaryUserId | revokeUserId | addSubkey | revokeSubkey | expirePrimary
  | expireSubkey | importPeer | importRecipient | preferCipher => exact hinv

theorem Reachable.hasPassword {P : Primitives} {impl : Impl} (h : Reachable P impl) :
    HasPassword P impl :=
  h.invariant (fun _ _ hgenerated => by simp [Impl.new] at hgenerated) fun _ _ => HasPassword.step

/-! ### Peer keys -/

theorem readBigEndian16_lt (data : Bytes) (pos : ℕ) : readBigEndian16 data pos < 2 ^ 16 := by
  have hlt := ofOctets_lt ((data.drop pos).take 2)
  have hlen : ((data.drop pos).take 2).length ≤ 2 := List.length_take_le _ _
  exact hlt.trans_le ((Nat.pow_le_pow_right (by norm_num) hlen).trans (by norm_num))

theorem length_readOctets {data octets : Bytes} {pos n : ℕ}
    (h : readOctets data pos n = some octets) : octets.length = n := by
  unfold readOctets at h
  split_ifs at h with hle
  obtain rfl := Option.some.inj h
  rw [List.length_take, List.length_drop]
  omega

/-- The bit count of an MPI has 16 bits. -/
theorem readMpi_size {data : Bytes} {pos value next : ℕ}
    (h : readMpi data pos = some (value, next)) : value.size ≤ 2 ^ 16 := by
  have hbits := readBigEndian16_lt data pos
  obtain ⟨⟨octets, _⟩, hoctets, heq⟩ := Option.map_eq_some_iff.mp h
  obtain rfl : ofOctets octets = value := congrArg Prod.fst heq
  have hsize := size_ofOctets_le octets
  unfold readMpiOctets at hoctets
  split_ifs at hoctets
  obtain ⟨read, hread, heq⟩ := Option.map_eq_some_iff.mp hoctets
  obtain rfl : read = octets := congrArg Prod.fst heq
  have hlen := length_readOctets hread
  unfold octetsOfBits at hlen
  omega

/-- Every RSA key of a parsed block has a size that an MPI can carry. -/
structure ParsedPeerPublicKeyBlock.Sized (out : ParsedPeerPublicKeyBlock) : Prop where
  master : out.masterRsaKey.modulus.size ≤ 2 ^ 16
  subkeys : ∀ subkey ∈ out.subkeys, subkey.rsaKey.modulus.size ≤ 2 ^ 16
  chosen : out.subkeyRsaKey.modulus.size ≤ 2 ^ 16

section PeerKeys

variable {P : Primitives}

theorem parseRsaPublicKeyPacketBody_size {body : Bytes} {n e : ℕ} {keyId : Octets 8}
    (h : parseRsaPublicKeyPacketBody P body = some (n, e, keyId)) : n.size ≤ 2 ^ 16 := by
  unfold parseRsaPublicKeyPacketBody at h
  split_ifs at h
  split at h
  · cases h
  · rename_i n' pos hread
    obtain ⟨_, -, heq⟩ := Option.map_eq_some_iff.mp h
    obtain rfl : n' = n := congrArg Prod.fst heq
    exact readMpi_size hread

theorem parsePeerMaster_sized {out out' : ParsedPeerPublicKeyBlock} {body : Bytes}
    (hout : out.Sized) (h : parsePeerMaster P out body = some out') : out'.Sized := by
  simp only [parsePeerMaster] at h
  split_ifs at h
  · obtain ⟨⟨n, e, keyId⟩, hparse, rfl⟩ := Option.map_eq_some_iff.mp h
    exact ⟨parseRsaPublicKeyPacketBody_size hparse, hout.subkeys, hout.chosen⟩
  · obtain ⟨_, -, rfl⟩ := Option.map_eq_some_iff.mp h
    exact ⟨hout.master, hout.subkeys, hout.chosen⟩

theorem parsePeerSubkey_sized {body : Bytes} {subkey : PgpPeerSubkey}
    (h : parsePeerSubkey P body = some subkey) : subkey.rsaKey.modulus.size ≤ 2 ^ 16 := by
  simp only [parsePeerSubkey] at h
  split_ifs at h
  · obtain ⟨⟨n, e, keyId⟩, hparse, rfl⟩ := Option.map_eq_some_iff.mp h
    exact parseRsaPublicKeyPacketBody_size hparse
  · obtain ⟨_, -, rfl⟩ := Option.map_eq_some_iff.mp h
    simp
  · obtain ⟨_, -, rfl⟩ := Option.map_eq_some_iff.mp h
    simp

theorem forall_mem_modify {α : Type} {p : α → Prop} {f : α → α} {xs : List α} (i : ℕ)
    (hxs : ∀ x ∈ xs, p x) (hf : ∀ x, p x → p (f x)) : ∀ x ∈ xs.modify i f, p x := by
  intro x hx
  obtain ⟨j, hj, rfl⟩ := List.getElem_of_mem hx
  rw [List.length_modify] at hj
  rw [List.getElem_modify]
  split_ifs
  · exact hf _ (hxs _ (List.getElem_mem hj))
  · exact hxs _ (List.getElem_mem hj)

theorem PeerWalk.sign_sized {walk : PeerWalk} (scan : SubpacketScan) (hout : walk.out.Sized) :
    (walk.sign scan).out.Sized := by
  unfold PeerWalk.sign
  split_ifs
  · exact ⟨hout.master, hout.subkeys, hout.chosen⟩
  · exact ⟨hout.master, forall_mem_modify _ hout.subkeys fun _ h => h, hout.chosen⟩
  · refine ⟨hout.master, forall_mem_modify _ hout.subkeys fun subkey h => ?_, hout.chosen⟩
    unfold PgpPeerSubkey.bind
    split_ifs <;> exact h
  · exact hout
  · exact hout

theorem PeerWalk.packet_sized {walk : PeerWalk} (tag : UInt8) (body : Bytes)
    (hout : walk.out.Sized) : (walk.packet P tag body).out.Sized := by
  unfold PeerWalk.packet
  split_ifs
  · exact hout
  · split
    · exact hout
    · rename_i out hparse
      exact parsePeerMaster_sized hout hparse
  · exact hout
  · split
    · exact hout
    · rename_i newSubkey hparse
      refine ⟨hout.master, fun subkey hmem => ?_, hout.chosen⟩
      rcases List.mem_append.mp hmem with hold | hnew
      · exact hout.subkeys subkey hold
      · obtain rfl := List.mem_singleton.mp hnew
        exact parsePeerSubkey_sized hparse
  · exact ⟨hout.master, hout.subkeys, hout.chosen⟩
  · split
    · exact hout
    · exact PeerWalk.sign_sized _ hout
  · exact hout

theorem walkPeerBlock_sized {binary : Bytes} {pos : ℕ} {walk : PeerWalk} (hout : walk.out.Sized) :
    (walkPeerBlock P binary pos walk).out.Sized := by
  fun_induction walkPeerBlock P binary pos walk with
  | case1 | case2 => exact hout
  | case3 pos walk hpos header hhead body hbody ih => exact ih (PeerWalk.packet_sized _ _ hout)
  | case4 => exact hout

theorem ParsedPeerPublicKeyBlock.Sized.chooseSubkey {out : ParsedPeerPublicKeyBlock}
    (hout : out.Sized) (now : UInt32) : (out.chooseSubkey now).Sized := by
  unfold ParsedPeerPublicKeyBlock.chooseSubkey
  split
  · rename_i chosen hchosen
    exact ⟨hout.master, hout.subkeys, hout.subkeys chosen
      (chooseBestPeerEncryptionSubkey_mem hchosen).1⟩
  · split_ifs
    · exact ⟨hout.master, hout.subkeys, hout.master⟩
    · exact ⟨hout.master, hout.subkeys, hout.chosen⟩

theorem parsePeerPublicKeyBlock_sized {now : UInt32} {binary : Bytes}
    {parsed : ParsedPeerPublicKeyBlock}
    (h : parsePeerPublicKeyBlock P now binary = some parsed) : parsed.Sized := by
  have hempty : ({} : PeerWalk).out.Sized := ⟨by simp, by simp, by simp⟩
  simp only [parsePeerPublicKeyBlock] at h
  split_ifs at h
  obtain rfl := Option.some.inj h
  exact (walkPeerBlock_sized hempty).chooseSubkey now

theorem ParsedPeerPublicKeyBlock.Sized.recipient {parsed : ParsedPeerPublicKeyBlock}
    (h : parsed.Sized) : parsed.recipient.rsaPublicKey.modulus.size ≤ 2 ^ 16 := by
  unfold ParsedPeerPublicKeyBlock.recipient
  split
  · exact h.chosen
  · simp

/-- The keys a message may be encrypted to. -/
structure PeerKeysSized (impl : Impl) : Prop where
  primary : impl.peerSubkeyPublicKey.modulus.size ≤ 2 ^ 16
  additional : ∀ recipient ∈ impl.additionalRecipients,
    recipient.rsaPublicKey.modulus.size ≤ 2 ^ 16

theorem PeerKeysSized.step {impl impl' : Impl} (hstep : EngineStep P impl impl')
    (hinv : PeerKeysSized impl) : PeerKeysSized impl' := by
  cases hstep with
  | importPeer now binary parsed hparse =>
      have hsized := parsePeerPublicKeyBlock_sized hparse
      refine ⟨?_, hinv.additional⟩
      simp only [Impl.importPeer]
      split
      · exact hsized.chosen
      · exact hinv.primary
  | importRecipient now binary parsed hparse hsubkey =>
      refine ⟨hinv.primary, fun recipient hmem => ?_⟩
      rcases List.mem_append.mp hmem with hold | hnew
      · exact hinv.additional recipient hold
      · obtain rfl := List.mem_singleton.mp hnew
        exact (parsePeerPublicKeyBlock_sized hparse).recipient
  | generateRsa | generateEd25519 | addUserId | setPrimaryUserId | revokeUserId | addSubkey
  | revokeSubkey | expirePrimary | expireSubkey | changePassword | preferCipher =>
      exact ⟨hinv.primary, hinv.additional⟩

theorem Reachable.peerKeysSized {impl : Impl} (h : Reachable P impl) : PeerKeysSized impl :=
  h.invariant (fun _ _ => ⟨by simp [Impl.new], by simp [Impl.new]⟩) fun _ _ => PeerKeysSized.step

theorem PeerKeysSized.recipients {impl : Impl} (h : PeerKeysSized impl) :
    ∀ recipient ∈ impl.recipients, recipient.rsaPublicKey.modulus.size ≤ 2 ^ 16 := by
  intro recipient hmem
  rcases List.mem_cons.mp hmem with rfl | hadditional
  · unfold Impl.primaryRecipient
    split
    · exact h.primary
    · simp
  · exact h.additional recipient hadditional

end PeerKeys

end HashCryptoLib.Pgp
