import HashCryptoLib.Pgp.BufferRoundTrip
import HashCryptoLib.Pgp.OutputSizes
import HashCryptoLib.Pgp.Passwords
import HashCryptoLib.Pgp.PeerBlock
import HashCryptoLib.Pgp.PrimaryFlag

/-!
The two blocks an identity exports. They are the same list of packets, except that in the secret
block each key is followed by its protected secret. In every state that calls lead to, the
password that is accepted opens all of these, and what comes out is the private half of the key in
front of it.
-/

namespace HashCryptoLib.Pgp

open BigEndian Cursor

/-! ### The calls -/

/-- The text `ExportSecretKeyArmored` hands out. -/
def exportSecretKeyArmored (impl : Impl) : Bytes :=
  armorEncode (ascii "PGP PRIVATE KEY BLOCK") (renderOwnKeyBlocks impl).2

def deliverKeyBlock (armored : Impl → Bytes) (buffer : Option Int32) (impl : Impl) :
    Except Fault Outcome :=
  if impl.ownKeyGenerated = false then .ok { status := INVALID_ARGUMENT }
  else deliver buffer 0 (armored impl)

def ExportPublicKeyArmored : Option Int32 → Impl → Except Fault Outcome :=
  deliverKeyBlock exportPublicKeyArmored

def ExportSecretKeyArmored : Option Int32 → Impl → Except Fault Outcome :=
  deliverKeyBlock exportSecretKeyArmored

/-! ### Keys and their secrets -/

/-- What the library says of the numbers of a key: none is larger than the modulus. -/
def Primitives.RsaSecretsSized (P : Primitives) : Prop :=
  ∀ seed bits, IsRsaKeySize bits →
    let key := (P.generateRsaKey seed bits).1
    key.privateExponent.size ≤ bits ∧ key.prime1.size ≤ bits ∧ key.prime2.size ≤ bits

/-- The private half, as it is written, of the key in a public body. -/
inductive IsSecretOf (P : Primitives) : Bytes → Bytes → Prop
  | rsa (creationTime : UInt32) (seed : ℕ) {bits : ℕ} (hbits : IsRsaKeySize bits) :
      IsSecretOf P
        (buildRsaPublicKeyPacketBody creationTime (P.generateRsaKey seed bits).1.modulus
          (P.generateRsaKey seed bits).1.publicExponent)
        (buildRsaSecretKeyCleartext (P.generateRsaKey seed bits).1)
  | ed25519 (creationTime : UInt32) (seed : ℕ) :
      IsSecretOf P (buildEd25519PublicKeyPacketBody creationTime (P.generateEd25519Key seed).2)
        (buildEd25519SecretKeyCleartext (P.generateEd25519Key seed).1)
  | x25519 (creationTime : UInt32) (seed : ℕ) :
      IsSecretOf P
        (buildX25519PublicKeyPacketBody creationTime
          (P.x25519PublicKey (P.generateX25519PrivateKey seed)))
        (buildX25519SecretKeyCleartext (P.generateX25519PrivateKey seed))

/-- A packet of the public block, and the one in its place in the secret block. -/
inductive SecretOf (P : Primitives) (password : Bytes) : BlockPacket → BlockPacket → Prop
  | masterKey {publicBody secretPart cleartext : Bytes}
      (hsecret : IsSecretOf P publicBody cleartext)
      (hopens : decryptSecretPart P secretPart password = some cleartext) :
      SecretOf P password (PGP_TAG_PUBLIC_KEY, publicBody)
        (PGP_TAG_SECRET_KEY, publicBody ++ secretPart)
  | subkey {publicBody secretPart cleartext : Bytes} (hsecret : IsSecretOf P publicBody cleartext)
      (hopens : decryptSecretPart P secretPart password = some cleartext) :
      SecretOf P password (PGP_TAG_PUBLIC_SUBKEY, publicBody)
        (PGP_TAG_SECRET_SUBKEY, publicBody ++ secretPart)
  | other {packet : BlockPacket} (hkey : packet.1 ≠ PGP_TAG_PUBLIC_KEY)
      (hsubkey : packet.1 ≠ PGP_TAG_PUBLIC_SUBKEY) : SecretOf P password packet packet

section Secrets

variable {P : Primitives} {password publicBody secretPart secretBody cleartext : Bytes}

/-- The inverse modulo the larger prime is not larger than that. -/
theorem size_inverseMod_le {p q : ℕ} (h : p ≤ q) : (inverseMod p q).size ≤ q.size := by
  rcases Nat.eq_zero_or_pos q with rfl | hpos
  · obtain rfl := Nat.le_zero.mp h
    simp [inverseMod]
  · have hmod : (0 : ℤ) ≤ Nat.gcdA p q % q := Int.emod_nonneg _ (by omega)
    have hlt : Nat.gcdA p q % q < q := Int.emod_lt_of_pos _ (by omega)
    apply Nat.size_le_size
    rw [inverseMod]
    omega

theorem length_buildRsaSecretKeyCleartext_le {key : RsaPrivateKey} {bits : ℕ}
    (hexponent : key.privateExponent.size ≤ bits) (hprime1 : key.prime1.size ≤ bits)
    (hprime2 : key.prime2.size ≤ bits) :
    (buildRsaSecretKeyCleartext key).length ≤ 4 * (2 + octetsOfBits bits) := by
  have hmono {n : ℕ} (h : n ≤ bits) : octetsOfBits n ≤ octetsOfBits bits := by
    unfold octetsOfBits
    omega
  have hordered : (buildRsaSecretKeyCleartext key).length =
      (2 + octetsOfBits key.privateExponent.size) +
        (2 + octetsOfBits (min key.prime1 key.prime2).size) +
        (2 + octetsOfBits (max key.prime1 key.prime2).size) +
        (2 + octetsOfBits (inverseMod (min key.prime1 key.prime2)
          (max key.prime1 key.prime2)).size) := by
    by_cases hless : key.prime1 < key.prime2
    · rw [min_eq_left hless.le, max_eq_right hless.le]
      simp only [buildRsaSecretKeyCleartext, if_pos hless, List.length_append, length_encodeMpi]
    · rw [min_eq_right (not_lt.mp hless), max_eq_left (not_lt.mp hless)]
      simp only [buildRsaSecretKeyCleartext, if_neg hless, List.length_append, length_encodeMpi]
  have hmin : (min key.prime1 key.prime2).size ≤ bits :=
    (Nat.size_le_size (min_le_left _ _)).trans hprime1
  have hmax : (max key.prime1 key.prime2).size ≤ bits := by
    rcases max_choice key.prime1 key.prime2 with hchoice | hchoice <;> rw [hchoice] <;> assumption
  have hinverse := (size_inverseMod_le (min_le_max (a := key.prime1) (b := key.prime2))).trans hmax
  have h1 := hmono hexponent
  have h2 := hmono hmin
  have h3 := hmono hmax
  have h4 := hmono hinverse
  omega

/-- Neither half of a key is long. -/
theorem IsSecretOf.length_le (hsized : P.RsaSecretsSized) (h : IsSecretOf P publicBody cleartext) :
    publicBody.length ≤ 2 ^ 12 ∧ cleartext.length ≤ 2 ^ 12 := by
  have hoctets (octets : Octets 32) : (encodeMpi (ofOctets octets.1)).length ≤ 34 :=
    length_encodeMpi_le 32 octets.2.le
  cases h with
  | rsa creationTime seed hbits =>
      obtain ⟨hmodulus, hexponent⟩ := generateRsaKey_bounds P seed hbits
      obtain ⟨hprivate, hprime1, hprime2⟩ := hsized seed _ hbits
      have hcleartext := length_buildRsaSecretKeyCleartext_le hprivate hprime1 hprime2
      have hbits := hbits.le
      have hsize := Nat.size_le_size hexponent
      have h17 : Nat.size 17 = 5 := by decide +kernel
      rw [length_buildRsaPublicKeyPacketBody]
      unfold octetsOfBits at *
      omega
  | ed25519 creationTime seed =>
      have hcleartext := hoctets (P.generateEd25519Key seed).1
      rw [length_buildEd25519PublicKeyPacketBody, buildEd25519SecretKeyCleartext]
      omega
  | x25519 creationTime seed =>
      have hcleartext := hoctets (P.generateX25519PrivateKey seed)
      rw [length_buildX25519PublicKeyPacketBody, buildX25519SecretKeyCleartext]
      omega

/-- A protected secret is its cleartext, with a digest, behind 29 octets. -/
theorem length_of_decryptSecretPart
    (h : decryptSecretPart P secretPart password = some cleartext) :
    secretPart.length = cleartext.length + 49 := by
  unfold decryptSecretPart at h
  split_ifs at h with husage hlong
  dsimp only at h
  split_ifs at h with hdigest
  obtain rfl := Option.some.inj h
  have hdigest := congrArg List.length hdigest
  simp only [List.length_drop, List.length_take, length_cfbDecrypt, Octets.length_eq] at hdigest ⊢
  omega

theorem SecretKey.OpenedBy.split {key : SecretKey} (h : key.OpenedBy P password) :
    ∃ secretPart, key.secretBody = key.publicBody ++ secretPart ∧
      decryptSecretPart P secretPart password = some key.cleartext := by
  rw [SecretKey.OpenedBy, decryptSecretKeyMaterial] at h
  split_ifs at h with hpublic
  refine ⟨key.secretBody.drop key.publicBody.length, ?_, h⟩
  calc key.secretBody
      = key.secretBody.take key.publicBody.length ++ key.secretBody.drop key.publicBody.length :=
        (List.take_append_drop _ _).symm
    _ = _ := by rw [hpublic]

end Secrets

/-! ### The secrets of an identity -/

section Identity

variable {P : Primitives} {impl : Impl}

theorem OwnKeysGenerated.master_isSecretOf (hkeys : OwnKeysGenerated P impl)
    (hgenerated : impl.ownKeyGenerated = true) :
    IsSecretOf P (buildOwnMasterPubBody impl) (masterCleartext impl) := by
  have hmaster := hkeys.master hgenerated
  cases halgorithm : impl.keyAlgorithm with
  | PGP_KEY_ALGORITHM_RSA =>
      simp only [Impl.masterVerificationKey, SigningKey.Generated, Impl.masterSigningKey,
        halgorithm] at hmaster
      obtain ⟨seed, bits, hbits, hkey, hpublic⟩ := hmaster
      rw [buildOwnMasterPubBody_rsa halgorithm, masterCleartext, halgorithm,
        VerificationKey.rsa.inj hpublic, hkey]
      exact .rsa _ seed hbits
  | PGP_KEY_ALGORITHM_ED25519_X25519 =>
      simp only [Impl.masterVerificationKey, SigningKey.Generated, Impl.masterSigningKey,
        halgorithm] at hmaster
      obtain ⟨seed, hkey, hpublic⟩ := hmaster
      rw [buildOwnMasterPubBody_ed25519 halgorithm, masterCleartext, halgorithm,
        VerificationKey.ed25519.inj hpublic, hkey]
      exact .ed25519 _ seed

theorem PgpOwnSubkey.Generated.isSecretOf {keyAlgorithm : PgpKeyAlgorithm} {subkey : PgpOwnSubkey}
    (h : subkey.Generated P keyAlgorithm) :
    IsSecretOf P (buildOwnSubkeyPubBody keyAlgorithm subkey)
      (subkeyCleartext keyAlgorithm subkey) := by
  cases keyAlgorithm with
  | PGP_KEY_ALGORITHM_RSA =>
      obtain ⟨-, hpublic, seed, bits, hbits, hkey⟩ := h
      rw [buildOwnSubkeyPubBody, subkeyCleartext]
      rw [hpublic, hkey]
      exact .rsa _ seed hbits
  | PGP_KEY_ALGORITHM_ED25519_X25519 =>
      obtain ⟨-, h⟩ := h
      rw [buildOwnSubkeyPubBody, subkeyCleartext]
      split_ifs at h ⊢ with hsign
      · obtain ⟨-, seed, hpair⟩ := h
        rw [(Prod.mk.inj hpair).1, (Prod.mk.inj hpair).2]
        exact .ed25519 _ seed
      · obtain ⟨-, hpublic, seed, hkey⟩ := h
        rw [hpublic, hkey]
        exact .x25519 _ seed

/-- Every secret is the private half of its public body. -/
theorem OwnKeysGenerated.isSecretOf (hkeys : OwnKeysGenerated P impl)
    (hgenerated : impl.ownKeyGenerated = true) :
    ∀ key ∈ secretKeys impl, IsSecretOf P key.publicBody key.cleartext := by
  intro key hmem
  rcases List.mem_cons.mp hmem with rfl | hmem
  · exact hkeys.master_isSecretOf hgenerated
  · obtain ⟨subkey, hsubkey, rfl⟩ := List.mem_map.mp hmem
    exact (hkeys.subkeys subkey hsubkey).isSecretOf

end Identity

/-! ### One block beside the other -/

/-- Two stretches of packets, each packet with the one in its place. -/
def Beside (P : Primitives) (password publicOctets secretOctets : Bytes) : Prop :=
  ∃ packets secretPackets, IsPacketList publicOctets packets ∧
    IsPacketList secretOctets secretPackets ∧
    List.Forall₂ (SecretOf P password) packets secretPackets

section Blocks

variable {P : Primitives} {password : Bytes}

theorem Beside.nil : Beside P password [] [] := ⟨[], [], .nil, .nil, .nil⟩

theorem Beside.append {front front' behind behind' : Bytes}
    (hfront : Beside P password front front')
    (hbehind : Beside P password behind behind') :
    Beside P password (front ++ behind) (front' ++ behind') := by
  obtain ⟨packets, secretPackets, hpackets, hsecrets, hmatch⟩ := hfront
  obtain ⟨others, secretOthers, hothers, hsecretOthers, hmatch'⟩ := hbehind
  exact ⟨_, _, hpackets.append hothers, hsecrets.append hsecretOthers,
    List.rel_append hmatch hmatch'⟩

theorem Beside.flatMap {α : Type} {xs : List α} {render render' : α → Bytes}
    (h : ∀ x ∈ xs, Beside P password (render x) (render' x)) :
    Beside P password (xs.flatMap render) (xs.flatMap render') := by
  induction xs with
  | nil => exact Beside.nil
  | cons x xs ih =>
      obtain ⟨hfirst, hrest⟩ := List.forall_mem_cons.mp h
      rw [List.flatMap_cons, List.flatMap_cons]
      exact hfirst.append (ih hrest)

/-- A packet that is no key stands in both blocks. -/
theorem Beside.other {tag : UInt8} {body : Bytes} (htag : tag < 64) (hbody : body.length < 2 ^ 32)
    (hkey : tag ≠ PGP_TAG_PUBLIC_KEY) (hsubkey : tag ≠ PGP_TAG_PUBLIC_SUBKEY) :
    Beside P password (writePacket tag body) (writePacket tag body) :=
  ⟨_, _, .single htag hbody, .single htag hbody, .cons (.other hkey hsubkey) .nil⟩

theorem Beside.signature {packet : Bytes} {signatureType : UInt8}
    (h : CarriesType packet signatureType) : Beside P password packet packet := by
  obtain ⟨body, rfl, hbody, -⟩ := h
  exact .other (by decide) hbody (by decide) (by decide)

/-- A signature that is only there where something is revoked. -/
theorem Beside.revocation {packet : Bytes} {signatureType : UInt8} {isRevoked : Bool}
    (h : isRevoked = true → CarriesType packet signatureType) :
    Beside P password (if isRevoked then packet else []) (if isRevoked then packet else []) := by
  cases hrevoked : isRevoked with
  | false => exact Beside.nil
  | true => exact Beside.signature (h hrevoked)

theorem Beside.userId {uid : PgpOwnUserId} (h : UserIdWellFormed uid) :
    Beside P password (renderUserId uid) (renderUserId uid) := by
  have htext : Beside P password (writePacket PGP_TAG_USER_ID uid.uidText)
      (writePacket PGP_TAG_USER_ID uid.uidText) :=
    .other (by decide) (h.length_lt.trans (by norm_num)) (by decide) (by decide)
  exact (htext.append (.signature h.cert)).append (.revocation h.revocation)

theorem Beside.ownSubkey {keyAlgorithm : PgpKeyAlgorithm} {subkey : PgpOwnSubkey}
    (h : SubkeyWellFormed P keyAlgorithm subkey)
    (hkey : Beside P password
      (writePacket PGP_TAG_PUBLIC_SUBKEY (buildOwnSubkeyPubBody keyAlgorithm subkey))
      (writePacket PGP_TAG_SECRET_SUBKEY subkey.secretPacketBody)) :
    Beside P password
      (renderSubkey (writePacket PGP_TAG_PUBLIC_SUBKEY
        (buildOwnSubkeyPubBody keyAlgorithm subkey)) subkey)
      (renderSubkey (writePacket PGP_TAG_SECRET_SUBKEY subkey.secretPacketBody) subkey) := by
  obtain ⟨body, hpacket, hbody, -⟩ := h.binding
  have hbinding : Beside P password subkey.bindingSigPacket subkey.bindingSigPacket := by
    rw [hpacket]
    exact .other (by decide) hbody (by decide) (by decide)
  exact (hkey.append hbinding).append (.revocation h.revocation)

/-- A key and its secret: both bodies fit a packet, and the secret body goes on where the public
one ends. -/
theorem SecretKey.OpenedBy.bodies {key : SecretKey} (hsized : P.RsaSecretsSized)
    (hopened : key.OpenedBy P password) (hsecret : IsSecretOf P key.publicBody key.cleartext) :
    key.publicBody.length < 2 ^ 32 ∧ key.secretBody.length < 2 ^ 32 ∧
      ∃ secretPart, key.secretBody = key.publicBody ++ secretPart ∧
        decryptSecretPart P secretPart password = some key.cleartext := by
  obtain ⟨secretPart, hbody, hopens⟩ := hopened.split
  obtain ⟨hpublic, hcleartext⟩ := hsecret.length_le hsized
  have hlength := length_of_decryptSecretPart hopens
  refine ⟨by omega, ?_, secretPart, hbody, hopens⟩
  rw [hbody, List.length_append]
  omega

/-- The two blocks of an identity whose password is current. -/
theorem CurrentPassword.beside {impl : Impl} (hsized : P.RsaSecretsSized)
    (hreachable : Reachable P impl) (hcurrent : CurrentPassword P impl password) :
    Beside P password (renderOwnKeyBlocks impl).1 (renderOwnKeyBlocks impl).2 := by
  have hgenerated := ownKeyGenerated_of_not_rejects hcurrent.1
  have hwell := hreachable.wellFormed
  have hsecrets := hreachable.ownKeysGenerated.isSecretOf hgenerated
  have hbodies (key : SecretKey) (hmem : key ∈ secretKeys impl) :=
    (hcurrent.2 key hmem).bodies hsized (hsecrets key hmem)
  have hmaster : Beside P password (writePacket PGP_TAG_PUBLIC_KEY (buildOwnMasterPubBody impl))
      (writePacket PGP_TAG_SECRET_KEY impl.ownMasterSecretPacketBody) := by
    have hmem : (⟨buildOwnMasterPubBody impl, masterCleartext impl,
        impl.ownMasterSecretPacketBody⟩ : SecretKey) ∈ secretKeys impl := List.mem_cons_self
    obtain ⟨hpublic, hsecret, secretPart, hbody, hopens⟩ := hbodies _ hmem
    refine ⟨_, _, .single (by decide) hpublic, .single (by decide) hsecret, .cons ?_ .nil⟩
    dsimp only at hbody
    rw [hbody]
    exact .masterKey (hsecrets _ hmem) hopens
  have huserIds : Beside P password (impl.ownUserIds.flatMap renderUserId)
      (impl.ownUserIds.flatMap renderUserId) :=
    .flatMap fun uid hmem => .userId (hwell.userIds uid hmem)
  have hsubkeys : Beside P password
      (impl.ownSubkeys.flatMap fun subkey => renderSubkey (writePacket PGP_TAG_PUBLIC_SUBKEY
        (buildOwnSubkeyPubBody impl.keyAlgorithm subkey)) subkey)
      (impl.ownSubkeys.flatMap fun subkey => renderSubkey
        (writePacket PGP_TAG_SECRET_SUBKEY subkey.secretPacketBody) subkey) := by
    refine .flatMap fun subkey hsubkey => .ownSubkey (hwell.subkeys subkey hsubkey) ?_
    have hmem : subkey.secretKey impl.keyAlgorithm ∈ secretKeys impl :=
      List.mem_cons_of_mem _ (List.mem_map_of_mem hsubkey)
    obtain ⟨hpublic, hsecret, secretPart, hbody, hopens⟩ := hbodies _ hmem
    refine ⟨_, _, .single (by decide) hpublic, .single (by decide) hsecret, .cons ?_ .nil⟩
    have hsame : subkey.secretPacketBody =
      buildOwnSubkeyPubBody impl.keyAlgorithm subkey ++ secretPart := hbody
    rw [hsame]
    exact .subkey (hsecrets _ hmem) hopens
  rw [renderOwnKeyBlocks, if_neg (by simp [hgenerated])]
  exact (hmaster.append huserIds).append hsubkeys

theorem SecretOf.length_le (hsized : P.RsaSecretsSized) {packet secretPacket : BlockPacket}
    (h : SecretOf P password packet secretPacket) :
    (writePacket secretPacket.1 secretPacket.2).length ≤
      (writePacket packet.1 packet.2).length + 2 ^ 13 - 1 := by
  have hlonger {publicBody secretPart cleartext : Bytes}
      (hsecret : IsSecretOf P publicBody cleartext)
      (hopens : decryptSecretPart P secretPart password = some cleartext) :
      packetSize (publicBody ++ secretPart).length ≤
        packetSize publicBody.length + 2 ^ 13 - 1 := by
    have hlength := length_of_decryptSecretPart hopens
    have hcleartext := (hsecret.length_le hsized).2
    rw [List.length_append, packetSize, packetSize]
    split_ifs <;> omega
  rw [length_writePacket, length_writePacket]
  cases h with
  | masterKey hsecret hopens => exact hlonger hsecret hopens
  | subkey hsecret hopens => exact hlonger hsecret hopens
  | other => exact Nat.le_sub_one_of_lt (by omega)

/-- The secret block is longer by less than 2^13 octets for each packet. -/
theorem Beside.length_le (hsized : P.RsaSecretsSized) {publicOctets secretOctets : Bytes}
    (h : Beside P password publicOctets secretOctets) :
    secretOctets.length ≤ 2 ^ 13 * publicOctets.length := by
  obtain ⟨packets, secretPackets, ⟨rfl, -⟩, ⟨rfl, -⟩, hmatch⟩ := h
  induction hmatch with
  | nil => simp
  | @cons packet secretPacket packets secretPackets hfirst _ ih =>
      have hpacket := hfirst.length_le hsized
      have hpos := List.length_pos_iff.mpr (writePacket_ne_nil packet.1 packet.2)
      simp only [List.flatMap_cons, List.length_append]
      omega

end Blocks

/-! ### Every state of a run -/

/-- The states that calls with passwords from `S` lead to. -/
inductive ReachableBy (P : Primitives) (S : Set Bytes) : Impl → Prop
  | new (keyAlgorithm : PgpKeyAlgorithm) (rsaKeyBits : ℤ) :
      ReachableBy P S (Impl.new keyAlgorithm rsaKeyBits)
  | call {impl : Impl} (h : ReachableBy P S impl) (env : Env) (op : EngineOp)
      (hpasswords : ∀ password ∈ op.passwords, password ∈ S) :
      ReachableBy P S (op.call P env impl).2

section Runs

variable {P : Primitives} {S : Set Bytes} {impl : Impl}

theorem ReachableBy.reachable (h : ReachableBy P S impl) : Reachable P impl := by
  induction h with
  | new keyAlgorithm rsaKeyBits => exact .new keyAlgorithm rsaKeyBits
  | call _ env op _ ih => exact ih.call env op

theorem ReachableBy.reachableWith (h : ReachableBy P S impl) : ReachableWith P S impl := by
  induction h with
  | new keyAlgorithm rsaKeyBits => exact .new keyAlgorithm rsaKeyBits
  | call _ env op hpasswords ih =>
      rw [← EngineOp.callWith_none]
      exact ih.call Faults.none env op hpasswords

theorem deliverKeyBlock_noError {armored : Impl → Bytes} {buffer : Option Int32}
    {outcome : Outcome} (h : deliverKeyBlock armored buffer impl = .ok outcome)
    (hstatus : outcome.status = NO_ERROR) :
    impl.ownKeyGenerated = true ∧ outcome.output = armored impl := by
  rw [deliverKeyBlock] at h
  split_ifs at h with hnone
  · obtain rfl := Except.ok.inj h
    cases hstatus
  · obtain ⟨rfl, -⟩ := deliver_eq_delivered h hstatus
    exact ⟨Bool.not_eq_false _ ▸ hnone, rfl⟩

theorem deliverKeyBlock_maxValue (armored : Impl → Bytes)
    (hgenerated : impl.ownKeyGenerated = true) (hlength : (armored impl).length < 2 ^ 31) :
    deliverKeyBlock armored (some Int32.maxValue) impl = .ok (delivered (armored impl)) := by
  rw [deliverKeyBlock, if_neg (by simp [hgenerated])]
  exact deliver_maxValue 0 ⟨armored impl, hlength⟩

theorem decodeKeyBlockToBinary_armored {label : Bytes} (hlabel : DASH ∉ label) (block : Bytes) :
    decodeKeyBlockToBinary (armorEncode label block) = some block := by
  have hdecode := armorDecode_armorEncode hlabel block []
  rw [List.append_nil] at hdecode
  rw [decodeKeyBlockToBinary, if_pos ⟨_, rfl⟩, hdecode, Option.map_some]

/-- What the two calls hand out in any state of a run. The secret block is the public one with a
secret behind each key, and the password that is accepted opens each of them to the private half
of that key. -/
theorem ExportSecretKeyArmored_opens (hsized : P.RsaSecretsSized)
    (hcollision : Set.InjOn P.sha256 S) (hreachable : ReachableBy P S impl)
    {publicBuffer secretBuffer : Option Int32} {publicBlock secretBlock : Outcome}
    (hpublic : ExportPublicKeyArmored publicBuffer impl = .ok publicBlock)
    (hpublicStatus : publicBlock.status = NO_ERROR)
    (hsecret : ExportSecretKeyArmored secretBuffer impl = .ok secretBlock)
    (hsecretStatus : secretBlock.status = NO_ERROR) :
    ∃ current ∈ S, rejects P impl current = false ∧ ∃ packets secretPackets,
      (decodeKeyBlockToBinary publicBlock.output).bind (walkPackets · 0) = some packets ∧
      (decodeKeyBlockToBinary secretBlock.output).bind (walkPackets · 0) = some secretPackets ∧
      List.Forall₂ (SecretOf P current) packets secretPackets := by
  obtain ⟨hgenerated, hpublicOutput⟩ := deliverKeyBlock_noError hpublic hpublicStatus
  obtain ⟨-, hsecretOutput⟩ := deliverKeyBlock_noError hsecret hsecretStatus
  obtain ⟨current, hmem, hcurrent⟩ :=
    hreachable.reachableWith.onePassword hcollision hgenerated
  obtain ⟨packets, secretPackets, hpackets, hsecrets, hmatch⟩ :=
    hcurrent.beside hsized hreachable.reachable
  refine ⟨current, hmem, hcurrent.1, packets, secretPackets, ?_, ?_, hmatch⟩
  · rw [hpublicOutput, exportPublicKeyArmored, decodeKeyBlockToBinary_armored (by decide)]
    exact hpackets.walk
  · rw [hsecretOutput, exportSecretKeyArmored, decodeKeyBlockToBinary_armored (by decide)]
    exact hsecrets.walk

theorem standIn_rsaSecretsSized : standIn.RsaSecretsSized := fun _ _ _ =>
  ⟨Nat.zero_le _, Nat.zero_le _, Nat.zero_le _⟩

theorem shortLivedOwner_current : CurrentPassword standIn shortLivedOwner (ascii "pw") := by
  obtain hsame | hcurrent := @GenerateKeyPair_currentPassword standIn (Env.numbered 1000 7)
    (Impl.new PGP_KEY_ALGORITHM_RSA 1024) ⟨ascii "alice", length_alice⟩ (ascii "pw") 1000
  · have hgenerated := shortLivedOwner_published.generated
    rw [shortLivedOwner, hsame] at hgenerated
    cases hgenerated
  · exact hcurrent

theorem shortLivedOwner_reachableBy : ReachableBy standIn {ascii "pw"} shortLivedOwner :=
  .call (.new PGP_KEY_ALGORITHM_RSA 1024) (Env.numbered 1000 7)
    (.generateKeyPair ⟨ascii "alice", length_alice⟩ (ascii "pw") 1000)
    fun _ hmem => List.mem_singleton.mp hmem

theorem length_shortLivedSecretBlock :
    (exportSecretKeyArmored shortLivedOwner).length < 2 ^ 31 := by
  have hsecret := (shortLivedOwner_current.beside standIn_rsaSecretsSized
    shortLivedOwner_published.reachable).length_le standIn_rsaSecretsSized
  have hpublic : (renderOwnKeyBlocks shortLivedOwner).1.length < 2 ^ 14 := by decide +kernel
  have hlabel : (ascii "PGP PRIVATE KEY BLOCK").length = 21 := by decide
  rw [exportSecretKeyArmored, length_armorEncode, armorSize, hlabel]
  omega

/-- Both blocks of one identity, and its password. -/
theorem ExportSecretKeyArmored_opens_shortLived :
    ∃ publicBlock secretBlock packets secretPackets,
      ExportPublicKeyArmored (some Int32.maxValue) shortLivedOwner = .ok publicBlock ∧
      ExportSecretKeyArmored (some Int32.maxValue) shortLivedOwner = .ok secretBlock ∧
      (decodeKeyBlockToBinary publicBlock.output).bind (walkPackets · 0) = some packets ∧
      (decodeKeyBlockToBinary secretBlock.output).bind (walkPackets · 0) = some secretPackets ∧
      List.Forall₂ (SecretOf standIn (ascii "pw")) packets secretPackets := by
  have hpublic := deliverKeyBlock_maxValue exportPublicKeyArmored
    shortLivedOwner_published.generated length_shortLivedBlock
  have hsecret := deliverKeyBlock_maxValue exportSecretKeyArmored
    shortLivedOwner_published.generated length_shortLivedSecretBlock
  obtain ⟨current, hmem, -, packets, secretPackets, hpackets, hsecretPackets, hmatch⟩ :=
    ExportSecretKeyArmored_opens standIn_rsaSecretsSized (Set.injOn_singleton _ _)
      shortLivedOwner_reachableBy hpublic rfl hsecret rfl
  obtain rfl := Set.mem_singleton_iff.mp hmem
  exact ⟨_, _, packets, secretPackets, hpublic, hsecret, hpackets, hsecretPackets, hmatch⟩

end Runs

end HashCryptoLib.Pgp
