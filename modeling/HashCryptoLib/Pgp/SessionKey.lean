import HashCryptoLib.Lib.KeyWrap
import HashCryptoLib.Pgp.Armor
import HashCryptoLib.Pgp.StandIn
import HashCryptoLib.Pgp.State

/-!
Session keys on their way to a recipient: AES key wrap, the key derivation of
the curve recipients, and the public-key encrypted session key packet, built
for one recipient and searched for by one recipient.
-/

namespace HashCryptoLib.Pgp

open BigEndian Cursor

/-! ### AES key wrap -/

/-- The octets in blocks of eight; an incomplete last block is left out. -/
def octetBlocks (octets : Bytes) : List (Octets 8) :=
  if h : 8 ≤ octets.length then
    ⟨octets.take 8, List.length_take_of_le h⟩ :: octetBlocks (octets.drop 8)
  else []
termination_by octets.length
decreasing_by
  rw [List.length_drop]
  omega

/-- The step number in big-endian order, mixed into the register. -/
def xorStep (t : ℕ) (a : Octets 8) : Octets 8 :=
  ⟨xorOctets a.1 (toOctets 8 t), by simp⟩

def joinBlocks (a r : Octets 8) : Octets 16 := ⟨a.1 ++ r.1, by simp⟩

def splitBlock (block : Octets 16) : Octets 8 × Octets 8 :=
  (⟨block.1.take 8, by simp⟩, ⟨block.1.drop 8, by simp⟩)

section Wrap

variable (P : Primitives) (kek : Bytes)

def wrapStep (t : ℕ) (s : Octets 8 × Octets 8) : Octets 8 × Octets 8 :=
  let encrypted := splitBlock (P.aesEncrypt kek (joinBlocks s.1 s.2))
  (xorStep t encrypted.1, encrypted.2)

def unwrapStep (t : ℕ) (s : Octets 8 × Octets 8) : Octets 8 × Octets 8 :=
  splitBlock (P.aesDecrypt kek (joinBlocks (xorStep t s.1) s.2))

def keyWrapIv : Octets 8 := ⟨List.replicate 8 0xA6, rfl⟩

/-- The empty result is a failure. -/
def aesKeyWrap (plaintext : Bytes) : Bytes :=
  if plaintext = [] ∨ plaintext.length % 8 ≠ 0 then []
  else
    let wrapped := KeyWrap.passes (wrapStep P kek) 6 1 keyWrapIv (octetBlocks plaintext)
    wrapped.1.1 ++ wrapped.2.flatMap Subtype.val

def aesKeyUnwrap (ciphertext : Bytes) : Option Bytes :=
  if ciphertext.length < 16 ∨ ciphertext.length % 8 ≠ 0 then none
  else
    match octetBlocks ciphertext with
    | [] => none
    | a :: r =>
      let unwrapped := KeyWrap.unpasses (unwrapStep P kek) 6 1 a r
      if unwrapped.1 = keyWrapIv then some (unwrapped.2.flatMap Subtype.val) else none

end Wrap

theorem xorStep_xorStep (t : ℕ) (a : Octets 8) : xorStep t (xorStep t a) = a :=
  Subtype.ext (xorOctets_xorOctets (by simp))

theorem joinBlocks_splitBlock (block : Octets 16) :
    joinBlocks (splitBlock block).1 (splitBlock block).2 = block :=
  Subtype.ext (List.take_append_drop 8 block.1)

theorem splitBlock_joinBlocks (a r : Octets 8) : splitBlock (joinBlocks a r) = (a, r) := by
  simp only [splitBlock, joinBlocks, List.take_left' a.2, List.drop_left' a.2]

/-- Under this key the block cipher permutes the blocks. -/
structure BlockPermutation (P : Primitives) (kek : Bytes) : Prop where
  decrypt_encrypt : ∀ block, P.aesDecrypt kek (P.aesEncrypt kek block) = block
  encrypt_decrypt : ∀ block, P.aesEncrypt kek (P.aesDecrypt kek block) = block

theorem unwrapStep_wrapStep {P : Primitives} {kek : Bytes}
    (hdecrypt : ∀ block, P.aesDecrypt kek (P.aesEncrypt kek block) = block) (t : ℕ)
    (s : Octets 8 × Octets 8) : unwrapStep P kek t (wrapStep P kek t s) = s := by
  simp only [unwrapStep, wrapStep, xorStep_xorStep, joinBlocks_splitBlock, hdecrypt,
    splitBlock_joinBlocks]

theorem wrapStep_unwrapStep {P : Primitives} {kek : Bytes}
    (hencrypt : ∀ block, P.aesEncrypt kek (P.aesDecrypt kek block) = block) (t : ℕ)
    (s : Octets 8 × Octets 8) : wrapStep P kek t (unwrapStep P kek t s) = s := by
  simp only [unwrapStep, wrapStep, joinBlocks_splitBlock, hencrypt, splitBlock_joinBlocks,
    xorStep_xorStep]

theorem octetBlocks_append (a : Octets 8) (rest : Bytes) :
    octetBlocks (a.1 ++ rest) = a :: octetBlocks rest := by
  rw [octetBlocks, dif_pos (by simp)]
  simp only [List.take_left' a.2, List.drop_left' a.2]

theorem octetBlocks_flatMap (blocks : List (Octets 8)) :
    octetBlocks (blocks.flatMap Subtype.val) = blocks := by
  induction blocks with
  | nil => rw [List.flatMap_nil, octetBlocks, dif_neg (by simp)]
  | cons block blocks ih => rw [List.flatMap_cons, octetBlocks_append, ih]

theorem flatMap_octetBlocks {octets : Bytes} (h : octets.length % 8 = 0) :
    (octetBlocks octets).flatMap Subtype.val = octets := by
  fun_induction octetBlocks octets with
  | case1 octets hlen ih =>
      rw [List.flatMap_cons, ih (by rw [List.length_drop]; omega), List.take_append_drop]
  | case2 octets hlen =>
      have hnil : octets.length = 0 := by omega
      rw [List.length_eq_zero_iff.mp hnil, List.flatMap_nil]

theorem length_flatMap_blocks (blocks : List (Octets 8)) :
    (blocks.flatMap Subtype.val).length = 8 * blocks.length := by
  induction blocks with
  | nil => rfl
  | cons block blocks ih =>
      rw [List.flatMap_cons, List.length_append, ih, Octets.length_eq, List.length_cons]
      omega

theorem length_aesKeyWrap (P : Primitives) (kek : Bytes) {plaintext : Bytes}
    (hne : plaintext ≠ []) (h : plaintext.length % 8 = 0) :
    (aesKeyWrap P kek plaintext).length = plaintext.length + 8 := by
  have hblocks := congrArg List.length (flatMap_octetBlocks h)
  rw [length_flatMap_blocks] at hblocks
  rw [aesKeyWrap, if_neg (by simp [hne, h])]
  simp only [List.length_append, length_flatMap_blocks, KeyWrap.length_passes,
    Octets.length_eq, hblocks]
  omega

theorem unwrap_wrap {P : Primitives} {kek plaintext : Bytes}
    (hdecrypt : ∀ block, P.aesDecrypt kek (P.aesEncrypt kek block) = block)
    (hne : plaintext ≠ []) (h : plaintext.length % 8 = 0) :
    aesKeyUnwrap P kek (aesKeyWrap P kek plaintext) = some plaintext := by
  have hlen := length_aesKeyWrap P kek hne h
  have hpos := List.length_pos_iff.mpr hne
  have hunwrap := KeyWrap.unpasses_passes (unwrapStep_wrapStep hdecrypt) 6 1 keyWrapIv
    (octetBlocks plaintext)
  rw [aesKeyUnwrap, if_neg (by omega), aesKeyWrap, if_neg (by simp [hne, h])]
  simp only [octetBlocks_append, octetBlocks_flatMap, hunwrap, if_true, flatMap_octetBlocks h]

theorem aesKeyUnwrap_aesKeyWrap {P : Primitives} (hlawful : P.Lawful) {kek plaintext : Bytes}
    (hkek : kek.length = 16) (hne : plaintext ≠ []) (h : plaintext.length % 8 = 0) :
    aesKeyUnwrap P kek (aesKeyWrap P kek plaintext) = some plaintext :=
  unwrap_wrap (fun block => hlawful.aesDecrypt_aesEncrypt kek block hkek) hne h

/-- What unwraps is the wrapping of what it unwraps to. -/
theorem aesKeyWrap_of_unwrap {P : Primitives} {kek ciphertext plaintext : Bytes}
    (hencrypt : ∀ block, P.aesEncrypt kek (P.aesDecrypt kek block) = block)
    (h : aesKeyUnwrap P kek ciphertext = some plaintext) :
    aesKeyWrap P kek plaintext = ciphertext := by
  rw [aesKeyUnwrap] at h
  by_cases hsize : ciphertext.length < 16 ∨ ciphertext.length % 8 ≠ 0
  · rw [if_pos hsize] at h
    cases h
  rw [if_neg hsize] at h
  have hblocks : (octetBlocks ciphertext).flatMap Subtype.val = ciphertext :=
    flatMap_octetBlocks (by omega)
  cases hcut : octetBlocks ciphertext with
  | nil => rw [hcut] at h; cases h
  | cons a r =>
      rw [hcut] at h hblocks
      dsimp only at h
      by_cases hiv : (KeyWrap.unpasses (unwrapStep P kek) 6 1 a r).1 = keyWrapIv
      · rw [if_pos hiv] at h
        obtain rfl := Option.some.inj h
        have hwrap := KeyWrap.passes_unpasses (wrapStep_unwrapStep hencrypt) 6 1 a r
        have hlength := congrArg List.length hblocks
        rw [List.flatMap_cons, List.length_append, length_flatMap_blocks, a.2] at hlength
        have hplain := length_flatMap_blocks (KeyWrap.unpasses (unwrapStep P kek) 6 1 a r).2
        rw [KeyWrap.length_unpasses] at hplain
        have hne : (KeyWrap.unpasses (unwrapStep P kek) 6 1 a r).2.flatMap Subtype.val ≠ [] :=
          List.length_pos_iff.mp (by omega)
        rw [hiv] at hwrap
        rw [aesKeyWrap, if_neg (by rw [not_or, not_not]; exact ⟨hne, by omega⟩),
          octetBlocks_flatMap, hwrap, ← hblocks, List.flatMap_cons]
      · rw [if_neg hiv] at h
        cases h

/-- Wrapping and unwrapping undo each other, whatever is wrapped and whatever unwraps. -/
theorem keyWrap_bijection {P : Primitives} {kek : Bytes} (hperm : BlockPermutation P kek) :
    (∀ plaintext : Bytes, plaintext ≠ [] → plaintext.length % 8 = 0 →
      aesKeyUnwrap P kek (aesKeyWrap P kek plaintext) = some plaintext) ∧
    ∀ ciphertext plaintext : Bytes, aesKeyUnwrap P kek ciphertext = some plaintext →
      aesKeyWrap P kek plaintext = ciphertext :=
  ⟨fun _ hne h => unwrap_wrap hperm.decrypt_encrypt hne h,
    fun _ _ h => aesKeyWrap_of_unwrap hperm.encrypt_decrypt h⟩

theorem keyWrap_bijection_standIn :
    (∀ plaintext : Bytes, plaintext ≠ [] → plaintext.length % 8 = 0 →
      aesKeyUnwrap standIn [] (aesKeyWrap standIn [] plaintext) = some plaintext) ∧
    ∀ ciphertext plaintext : Bytes, aesKeyUnwrap standIn [] ciphertext = some plaintext →
      aesKeyWrap standIn [] plaintext = ciphertext :=
  keyWrap_bijection ⟨StandIn.mask_mask [], StandIn.mask_mask []⟩

/-! ### Session key packets -/

def computeEcdhKek (P : Primitives) (sharedSecret : Octets 32) (param : Bytes) (kekLength : ℕ) :
    Bytes :=
  (P.sha256 (appendBigEndian32 1 ++ sharedSecret.1 ++ param)).1.take kekLength

def buildEcdhKdfParam (recipientSubkeyFingerprint : Octets 20) : Bytes :=
  UInt8.ofNat PGP_X25519_OID.length :: (PGP_X25519_OID ++ [PGP_ALGO_ECDH, 3, 1, 8, 7] ++
    ascii "Anonymous Sender    " ++ recipientSubkeyFingerprint.1)

def sessionKeyChecksum (sessionKey : Bytes) : ℕ := (sessionKey.map UInt8.toNat).sum

/-- The cipher octet, the session key and its checksum. -/
def sessionKeyPlain (cipherAlgorithmOctet : UInt8) (sessionKey : Bytes) : Bytes :=
  cipherAlgorithmOctet :: (sessionKey ++ appendBigEndian16 (sessionKeyChecksum sessionKey))

/-- Padding to a multiple of eight octets, each holding the padding's length. -/
def padPkcs5 (octets : Bytes) : Bytes :=
  let padLength := 8 - octets.length % 8
  octets ++ List.replicate padLength (UInt8.ofNat padLength)

def pkAlgorithmOctet : PgpKeyAlgorithm → UInt8
  | PGP_KEY_ALGORITHM_RSA => PGP_ALGO_RSA
  | PGP_KEY_ALGORITHM_ED25519_X25519 => PGP_ALGO_ECDH

/-- The key ID a recipient's session key packet is addressed to. -/
def PgpEncryptionRecipient.keyId (recipient : PgpEncryptionRecipient) : Octets 8 :=
  match recipient.algorithm with
  | PGP_KEY_ALGORITHM_RSA => recipient.rsaKeyId
  | PGP_KEY_ALGORITHM_ED25519_X25519 => recipient.x25519KeyId

def pkeskBody (keyId : Octets 8) (algorithm : PgpKeyAlgorithm) (tail : Bytes) : Bytes :=
  3 :: (keyId.1 ++ (pkAlgorithmOctet algorithm :: tail))

/-- What a session key packet for this recipient holds behind the key ID and the
algorithm; `seed` draws the RSA padding or the ephemeral key. -/
def encryptSessionKey (P : Primitives) (recipient : PgpEncryptionRecipient) (plain : Bytes)
    (seed : ℕ) : Option Bytes :=
  match recipient.algorithm with
  | PGP_KEY_ALGORITHM_RSA =>
    (P.rsaEncrypt recipient.rsaPublicKey seed plain).map fun pkcsCipher =>
      encodeMpi (ofOctets pkcsCipher.1)
  | PGP_KEY_ALGORITHM_ED25519_X25519 =>
    let ephemeralPrivateKey := P.generateX25519PrivateKey seed
    match P.x25519Agree ephemeralPrivateKey recipient.x25519PublicKey with
    | none => none
    | some sharedSecret =>
      let param := buildEcdhKdfParam recipient.x25519Fingerprint
      let wrapped := aesKeyWrap P (computeEcdhKek P sharedSecret param 16) (padPkcs5 plain)
      if wrapped = [] then none
      else
        some (encodeNativePointMpi (P.x25519PublicKey ephemeralPrivateKey) ++
          (UInt8.ofNat wrapped.length :: wrapped))

/-- The empty result is a failure. -/
def buildPkeskPacketForRecipient (P : Primitives) (recipient : PgpEncryptionRecipient)
    (sessionKey : Bytes) (cipherAlgorithmOctet : UInt8) (seed : ℕ) : Bytes :=
  match encryptSessionKey P recipient (sessionKeyPlain cipherAlgorithmOctet sessionKey) seed with
  | none => []
  | some tail => writePacket PGP_TAG_PKESK (pkeskBody recipient.keyId recipient.algorithm tail)

/-- The key parameters of `parseAndDecryptMessage`. -/
structure DecryptionKey where
  algorithm : PgpKeyAlgorithm
  rsaSubkey : RsaPrivateKey
  x25519PrivateKey : Octets 32
  fingerprint : Octets 20
  keyId : Octets 8

/-- `none` ends the whole search, `some none` goes on to the next packet. -/
def openRsaPkesk (P : Primitives) (key : DecryptionKey) (message : Bytes) (p pkeskEnd : ℕ) :
    Option (Option Bytes) :=
  if p + 2 > pkeskEnd then none
  else
    let byteLength := octetsOfBits (readBigEndian16 message p)
    if p + 2 + byteLength > pkeskEnd then none
    else
      let cipherInt := ofOctets ((message.drop (p + 2)).take byteLength)
      P.rsaDecrypt key.rsaSubkey (toOctets (rsaModulusByteLength key.rsaSubkey.modulus) cipherInt)

def openEcdhPkesk (P : Primitives) (key : DecryptionKey) (message : Bytes) (p pkeskEnd : ℕ) :
    Option Bytes := do
  let (ephemeralPublicKey, mpiPos) ← readNativePointMpi message p
  if mpiPos ≥ pkeskEnd then none
  else
    let wrappedLength := (← message[mpiPos]?).toNat
    if mpiPos + 1 + wrappedLength > pkeskEnd then none
    else
      let wrapped := (message.drop (mpiPos + 1)).take wrappedLength
      let sharedSecret ← P.x25519Agree key.x25519PrivateKey ephemeralPublicKey
      let kek := computeEcdhKek P sharedSecret (buildEcdhKdfParam key.fingerprint) 16
      let unwrapped ← aesKeyUnwrap P kek wrapped
      let padLength := (← unwrapped.getLast?).toNat
      if padLength ≥ 1 ∧ padLength ≤ 8 ∧ padLength ≤ unwrapped.length then
        some (unwrapped.take (unwrapped.length - padLength))
      else none

/-- One session key packet, its body at `bodyPos`. The first ten octets are
read without a look at the packet's length. -/
def tryPkesk (P : Primitives) (key : DecryptionKey) (message : Bytes) (bodyPos pkeskEnd : ℕ)
    (found : Option Bytes) : Except Fault (Option (Option Bytes)) :=
  match message[bodyPos]? with
  | none => .error .outOfBounds
  | some version =>
    if version ≠ 3 then .ok none
    else
      match readOctets message (bodyPos + 1) 8, message[bodyPos + 9]? with
      | some thisKeyId, some pkAlgo =>
        if found = none ∧ thisKeyId = key.keyId.1 ∧ pkAlgo = pkAlgorithmOctet key.algorithm then
          match key.algorithm with
          | PGP_KEY_ALGORITHM_RSA => .ok (openRsaPkesk P key message (bodyPos + 10) pkeskEnd)
          | PGP_KEY_ALGORITHM_ED25519_X25519 =>
            .ok (some (openEcdhPkesk P key message (bodyPos + 10) pkeskEnd))
        else .ok (some found)
      | _, _ => .error .outOfBounds

/-- The loop over the leading session key packets: the cleartext found, and
where the first other packet starts. -/
def findSessionKey (P : Primitives) (key : DecryptionKey) (message : Bytes) (pos : ℕ)
    (found : Option Bytes) : Except Fault (Option (Option Bytes × ℕ)) :=
  match _hhead : readPacketHeader message pos none false with
  | none => .ok (some (found, pos))
  | some header =>
    if header.tag ≠ PGP_TAG_PKESK then .ok (some (found, pos))
    else if _hend : header.bodyPos + header.bodyLength > message.length then .ok none
    else
      match tryPkesk P key message header.bodyPos (header.bodyPos + header.bodyLength) found with
      | .error fault => .error fault
      | .ok none => .ok none
      | .ok (some found) => findSessionKey P key message (header.bodyPos + header.bodyLength) found
termination_by message.length - pos
decreasing_by
  have := bodyPos_gt _hhead
  omega

def pgpSymmetricSessionKeyLength (cipherAlgorithmOctet : UInt8) : ℕ :=
  if cipherAlgorithmOctet = 7 then 16 else if cipherAlgorithmOctet = 8 then 24 else 32

/-- The session key in a cleartext of the right length with the right checksum. -/
def sessionKeyOf (sessionPlain : Bytes) : Option Bytes :=
  match sessionPlain with
  | [] => none
  | cipher :: rest =>
    if cipher ≠ 7 ∧ cipher ≠ 8 ∧ cipher ≠ 9 then none
    else
      let sessionKeyLength := pgpSymmetricSessionKeyLength cipher
      if rest.length ≠ sessionKeyLength + 2 then none
      else
        let sessionKey := rest.take sessionKeyLength
        if sessionKeyChecksum sessionKey % 2 ^ 16 ≠ readBigEndian16 rest sessionKeyLength then none
        else some sessionKey

/-! ### A packet and its recipient -/

/-- What a sender knows of a decryption key. -/
def DecryptionKey.recipient (P : Primitives) (key : DecryptionKey) : PgpEncryptionRecipient :=
  match key.algorithm with
  | PGP_KEY_ALGORITHM_RSA =>
    { algorithm := PGP_KEY_ALGORITHM_RSA
      rsaPublicKey := key.rsaSubkey.publicKey, rsaKeyId := key.keyId }
  | PGP_KEY_ALGORITHM_ED25519_X25519 =>
    { algorithm := PGP_KEY_ALGORITHM_ED25519_X25519
      x25519PublicKey := P.x25519PublicKey key.x25519PrivateKey, x25519KeyId := key.keyId
      x25519Fingerprint := key.fingerprint }

/-- A key whose secret part came out of a generator. -/
def DecryptionKey.Generated (P : Primitives) (key : DecryptionKey) : Prop :=
  match key.algorithm with
  | PGP_KEY_ALGORITHM_RSA =>
    ∃ seed bits, IsRsaKeySize bits ∧ key.rsaSubkey = (P.generateRsaKey seed bits).1
  | PGP_KEY_ALGORITHM_ED25519_X25519 =>
    ∃ seed, key.x25519PrivateKey = P.generateX25519PrivateKey seed

theorem DecryptionKey.recipient_keyId (P : Primitives) (key : DecryptionKey) :
    (key.recipient P).keyId = key.keyId := by
  cases halgorithm : key.algorithm <;>
    simp [DecryptionKey.recipient, PgpEncryptionRecipient.keyId, halgorithm]

theorem DecryptionKey.recipient_algorithm (P : Primitives) (key : DecryptionKey) :
    (key.recipient P).algorithm = key.algorithm := by
  cases halgorithm : key.algorithm <;> simp [DecryptionKey.recipient, halgorithm]

theorem DecryptionKey.Generated.recipient_rsa {P : Primitives} {key : DecryptionKey}
    (h : key.Generated P)
    (halgorithm : key.algorithm = PGP_KEY_ALGORITHM_RSA) :
    (key.recipient P).algorithm = PGP_KEY_ALGORITHM_RSA ∧ ∃ n bits, IsRsaKeySize bits ∧
      (key.recipient P).rsaPublicKey = (P.generateRsaKey n bits).1.publicKey := by
  simp only [DecryptionKey.Generated, halgorithm] at h
  obtain ⟨n, bits, hbits, hkey⟩ := h
  simp only [DecryptionKey.recipient, halgorithm, hkey]
  exact ⟨trivial, n, bits, hbits, rfl⟩

theorem DecryptionKey.Generated.modulus_size {P : Primitives} {key : DecryptionKey}
    (h : key.Generated P) :
    (key.recipient P).rsaPublicKey.modulus.size ≤ 4096 := by
  cases halgorithm : key.algorithm with
  | PGP_KEY_ALGORITHM_RSA =>
      obtain ⟨-, n, bits, hbits, hpublic⟩ := h.recipient_rsa halgorithm
      rw [hpublic]
      exact (P.generateRsaKey n bits).2.1.le.trans hbits.le
  | PGP_KEY_ALGORITHM_ED25519_X25519 => simp [DecryptionKey.recipient, halgorithm]

theorem length_sessionKeyPlain (cipherAlgorithmOctet : UInt8) (sessionKey : Bytes) :
    (sessionKeyPlain cipherAlgorithmOctet sessionKey).length = sessionKey.length + 3 := by
  simp [sessionKeyPlain]

theorem padPkcs5_facts (octets : Bytes) :
    padPkcs5 octets ≠ [] ∧ (padPkcs5 octets).length % 8 = 0 ∧
      (padPkcs5 octets).length ≤ octets.length + 8 := by
  have hmod : octets.length % 8 < 8 := Nat.mod_lt _ (by norm_num)
  have hlen : (padPkcs5 octets).length = octets.length + (8 - octets.length % 8) := by
    simp [padPkcs5]
  refine ⟨List.ne_nil_of_length_pos (by omega), ?_, ?_⟩ <;> omega

theorem getLast?_padPkcs5 (octets : Bytes) :
    (padPkcs5 octets).getLast? = some (UInt8.ofNat (8 - octets.length % 8)) := by
  have hmod : octets.length % 8 < 8 := Nat.mod_lt _ (by norm_num)
  obtain ⟨n, hn⟩ : ∃ n, 8 - octets.length % 8 = n + 1 := ⟨7 - octets.length % 8, by omega⟩
  simp [padPkcs5, hn, List.replicate_succ']

theorem length_computeEcdhKek (P : Primitives) (sharedSecret : Octets 32) (param : Bytes) :
    (computeEcdhKek P sharedSecret param 16).length = 16 := by
  rw [computeEcdhKek, List.length_take, Octets.length_eq]
  rfl

/-- A packet tail is short: an RSA cipher text, or a point and a wrapped key. -/
theorem encryptSessionKey_length {P : Primitives} {recipient : PgpEncryptionRecipient}
    {plain tail : Bytes} {seed : ℕ} (hmodulus : recipient.rsaPublicKey.modulus.size ≤ 2 ^ 16)
    (hplain : plain.length ≤ 35) (h : encryptSessionKey P recipient plain seed = some tail) :
    tail.length < 2 ^ 16 := by
  unfold encryptSessionKey at h
  cases halgorithm : recipient.algorithm with
  | PGP_KEY_ALGORITHM_RSA =>
      simp only [halgorithm, Option.map_eq_some_iff] at h
      obtain ⟨pkcsCipher, -, rfl⟩ := h
      have hle := octetsOfBits_size_le (ofOctets_lt pkcsCipher.1)
      have hbytes : rsaModulusByteLength recipient.rsaPublicKey.modulus ≤ 2 ^ 13 := by
        unfold rsaModulusByteLength octetsOfBits
        omega
      rw [Octets.length_eq] at hle
      rw [length_encodeMpi]
      omega
  | PGP_KEY_ALGORITHM_ED25519_X25519 =>
      simp only [halgorithm] at h
      split at h
      · cases h
      · rename_i sharedSecret hagree
        obtain ⟨hne, hmod, hle⟩ := padPkcs5_facts plain
        have hwrapped := length_aesKeyWrap P (computeEcdhKek P sharedSecret
          (buildEcdhKdfParam recipient.x25519Fingerprint) 16) hne hmod
        split_ifs at h
        obtain rfl := Option.some.inj h
        simp only [List.length_append, length_encodeNativePointMpi, List.length_cons, hwrapped]
        omega

/-- The RSA half of opening one's own packet. The cipher text travels as an MPI,
without its leading zeros, and is padded again before it is decrypted. -/
theorem openRsaPkesk_own {P : Primitives} (hlawful : P.Lawful) {key : DecryptionKey}
    {message plain rest : Bytes} {p seed genSeed bits : ℕ} (hbits : IsRsaKeySize bits)
    (hkey : key.rsaSubkey = (P.generateRsaKey genSeed bits).1)
    {pkcsCipher : Octets (rsaModulusByteLength key.rsaSubkey.modulus)}
    (hcipher : P.rsaEncrypt key.rsaSubkey.publicKey seed plain = some pkcsCipher)
    (h : At message p (encodeMpi (ofOctets pkcsCipher.1) ++ rest)) :
    openRsaPkesk P key message p (p + (encodeMpi (ofOctets pkcsCipher.1)).length) =
      some (some plain) := by
  obtain ⟨hgenerated, -⟩ := (P.generateRsaKey genSeed bits).2
  have hmodulus : key.rsaSubkey.modulus.size ≤ 4096 := by
    rw [hkey]
    exact hgenerated.le.trans hbits.le
  have hbytes : rsaModulusByteLength key.rsaSubkey.modulus ≤ 512 := by
    unfold rsaModulusByteLength octetsOfBits
    omega
  have hsize := size_ofOctets_le pkcsCipher.1
  rw [Octets.length_eq] at hsize
  have hstrip := toOctets_strip pkcsCipher.1
  rw [Octets.length_eq] at hstrip
  rw [encodeMpi, List.append_assoc] at h
  have hbitLength := readBigEndian16_of_at (show (ofOctets pkcsCipher.1).size < 2 ^ 16 by omega) h
  have hoctets := h.advance.take_eq
  simp only [length_appendBigEndian16, length_toOctets] at hoctets
  rw [length_encodeMpi, openRsaPkesk, if_neg (by omega), hbitLength, if_neg (by omega)]
  simp only [hoctets, hstrip]
  have hdecrypt : ∀ privateKey : RsaPrivateKey, privateKey = (P.generateRsaKey genSeed bits).1 →
      ∀ cipher, P.rsaEncrypt privateKey.publicKey seed plain = some cipher →
        P.rsaDecrypt privateKey cipher.1 = some (some plain) := by
    rintro _ rfl cipher hencrypt
    exact hlawful.rsaDecrypt_rsaEncrypt genSeed bits seed plain cipher hbits hencrypt
  exact hdecrypt _ hkey pkcsCipher hcipher

/-- The curve half: both sides derive the same wrapping key, and the padding is
taken off again. -/
theorem openEcdhPkesk_own {P : Primitives} (hlawful : P.Lawful) {key : DecryptionKey}
    {message plain wrapped rest : Bytes} {p seed genSeed : ℕ} {sharedSecret : Octets 32}
    (hplain : plain.length ≤ 35) (hkey : key.x25519PrivateKey = P.generateX25519PrivateKey genSeed)
    (hagree : P.x25519Agree (P.generateX25519PrivateKey seed)
      (P.x25519PublicKey key.x25519PrivateKey) = some sharedSecret)
    (hwrapped : wrapped = aesKeyWrap P
      (computeEcdhKek P sharedSecret (buildEcdhKdfParam key.fingerprint) 16) (padPkcs5 plain))
    (h : At message p (encodeNativePointMpi (P.x25519PublicKey (P.generateX25519PrivateKey seed)) ++
      (UInt8.ofNat wrapped.length :: (wrapped ++ rest)))) :
    openEcdhPkesk P key message p (p + 36 + wrapped.length) = some plain := by
  obtain ⟨hne, hmod, hle⟩ := padPkcs5_facts plain
  have hkek := length_computeEcdhKek P sharedSecret (buildEcdhKdfParam key.fingerprint)
  have hlen := length_aesKeyWrap P (computeEcdhKek P sharedSecret
    (buildEcdhKdfParam key.fingerprint) 16) hne hmod
  rw [← hwrapped] at hlen
  have hoctet : (UInt8.ofNat wrapped.length).toNat = wrapped.length := by
    rw [UInt8.toNat_ofNat']
    omega
  obtain ⟨hpoint, hlengthAt⟩ := readNativePointMpi_of_at h
  have hwrappedAt := hlengthAt.next.take_eq
  have hagree' : P.x25519Agree key.x25519PrivateKey
      (P.x25519PublicKey (P.generateX25519PrivateKey seed)) = some sharedSecret := by
    rw [hkey] at hagree ⊢
    rw [hlawful.x25519Agree_comm, hagree]
  have hunwrap := aesKeyUnwrap_aesKeyWrap hlawful hkek hne hmod
  rw [← hwrapped] at hunwrap
  have hpad : 8 - plain.length % 8 ≤ 8 := by omega
  have hpadOctet : (UInt8.ofNat (8 - plain.length % 8)).toNat = 8 - plain.length % 8 := by
    rw [UInt8.toNat_ofNat']
    omega
  have hpadded : (padPkcs5 plain).length = plain.length + (8 - plain.length % 8) := by
    simp [padPkcs5]
  simp only [openEcdhPkesk, hpoint, Option.bind_eq_bind, Option.bind_some, hlengthAt.head, hoctet,
    hwrappedAt, hagree', hunwrap, getLast?_padPkcs5, hpadOctet]
  rw [if_neg (by omega), if_neg (by omega), if_pos (by omega), hpadded, Nat.add_sub_cancel,
    padPkcs5, List.take_left]

/-! ### The search over the leading packets -/

/-- The fixed head of a packet body, wherever it stands. -/
theorem pkeskBody_at {message tail rest : Bytes} {bodyPos : ℕ} {keyId : Octets 8}
    {algorithm : PgpKeyAlgorithm} (h : At message bodyPos (pkeskBody keyId algorithm tail ++ rest)) :
    message[bodyPos]? = some 3 ∧ readOctets message (bodyPos + 1) 8 = some keyId.1 ∧
      message[bodyPos + 9]? = some (pkAlgorithmOctet algorithm) ∧
      At message (bodyPos + 10) (tail ++ rest) := by
  simp only [pkeskBody, List.cons_append, List.append_assoc] at h
  have hkeyId := readOctets_of_at h.next
  have halgorithm := h.next.advance
  rw [Octets.length_eq] at hkeyId halgorithm
  exact ⟨h.head, hkeyId, halgorithm.head, halgorithm.next⟩

/-- A packet for somebody else, or one behind the one found, is skipped. -/
theorem tryPkesk_skip (P : Primitives) {key : DecryptionKey} {message tail rest : Bytes}
    {bodyPos : ℕ} {keyId : Octets 8} {algorithm : PgpKeyAlgorithm} {found : Option Bytes}
    (hskip : found ≠ none ∨ keyId ≠ key.keyId)
    (h : At message bodyPos (pkeskBody keyId algorithm tail ++ rest)) (pkeskEnd : ℕ) :
    tryPkesk P key message bodyPos pkeskEnd found = .ok (some found) := by
  obtain ⟨hversion, hkeyId, halgorithm, -⟩ := pkeskBody_at h
  have hcond : ¬ (found = none ∧ keyId.1 = key.keyId.1 ∧
      pkAlgorithmOctet algorithm = pkAlgorithmOctet key.algorithm) := by
    rintro ⟨hnone, heq, -⟩
    exact hskip.elim (fun hfound => hfound hnone) fun hne => hne (Subtype.ext heq)
  simp only [tryPkesk, hversion, hkeyId, halgorithm, hcond]
  rfl

theorem encryptSessionKey_rsa (P : Primitives) {key : DecryptionKey}
    (halgorithm : key.algorithm = PGP_KEY_ALGORITHM_RSA) (plain : Bytes) (seed : ℕ) :
    encryptSessionKey P (key.recipient P) plain seed =
      (P.rsaEncrypt key.rsaSubkey.publicKey seed plain).map fun pkcsCipher =>
        encodeMpi (ofOctets pkcsCipher.1) := by
  obtain ⟨algorithm, rsaSubkey, x25519PrivateKey, fingerprint, keyId⟩ := key
  cases halgorithm
  rfl

theorem encryptSessionKey_x25519 (P : Primitives) {key : DecryptionKey} {plain tail : Bytes}
    {seed : ℕ} (halgorithm : key.algorithm = PGP_KEY_ALGORITHM_ED25519_X25519)
    (h : encryptSessionKey P (key.recipient P) plain seed = some tail) :
    ∃ sharedSecret wrapped, P.x25519Agree (P.generateX25519PrivateKey seed)
        (P.x25519PublicKey key.x25519PrivateKey) = some sharedSecret ∧
      wrapped = aesKeyWrap P (computeEcdhKek P sharedSecret (buildEcdhKdfParam key.fingerprint) 16)
        (padPkcs5 plain) ∧
      tail = encodeNativePointMpi (P.x25519PublicKey (P.generateX25519PrivateKey seed)) ++
        (UInt8.ofNat wrapped.length :: wrapped) := by
  obtain ⟨algorithm, rsaSubkey, x25519PrivateKey, fingerprint, keyId⟩ := key
  cases halgorithm
  dsimp only [encryptSessionKey, DecryptionKey.recipient] at h
  split at h
  · cases h
  · rename_i sharedSecret hagree
    split at h
    · cases h
    · exact ⟨sharedSecret, _, hagree, rfl, (Option.some.inj h).symm⟩

/-- One's own packet gives the cleartext it was built from. -/
theorem tryPkesk_own {P : Primitives} (hlawful : P.Lawful) {key : DecryptionKey}
    (hgenerated : key.Generated P) {message plain tail rest : Bytes} {bodyPos seed : ℕ}
    (hplain : plain.length ≤ 35)
    (hencrypt : encryptSessionKey P (key.recipient P) plain seed = some tail)
    (h : At message bodyPos (pkeskBody key.keyId key.algorithm tail ++ rest)) :
    tryPkesk P key message bodyPos (bodyPos + 10 + tail.length) none = .ok (some (some plain)) := by
  obtain ⟨hversion, hkeyId, hoctet, htail⟩ := pkeskBody_at h
  cases halgorithm : key.algorithm with
  | PGP_KEY_ALGORITHM_RSA =>
      simp only [DecryptionKey.Generated, halgorithm] at hgenerated
      obtain ⟨genSeed, bits, hbits, hkey⟩ := hgenerated
      rw [encryptSessionKey_rsa P halgorithm, Option.map_eq_some_iff] at hencrypt
      obtain ⟨pkcsCipher, hcipher, rfl⟩ := hencrypt
      have hopen := openRsaPkesk_own hlawful hbits hkey hcipher htail
      simp only [tryPkesk, hversion, hkeyId, hoctet, halgorithm, hopen]
      rfl
  | PGP_KEY_ALGORITHM_ED25519_X25519 =>
      simp only [DecryptionKey.Generated, halgorithm] at hgenerated
      obtain ⟨genSeed, hkey⟩ := hgenerated
      obtain ⟨sharedSecret, wrapped, hagree, hwrapped, rfl⟩ :=
        encryptSessionKey_x25519 P halgorithm hencrypt
      rw [List.append_assoc, List.cons_append] at htail
      have hopen := openEcdhPkesk_own hlawful hplain hkey hagree hwrapped htail
      have hend : bodyPos + 10 + (encodeNativePointMpi (P.x25519PublicKey
          (P.generateX25519PrivateKey seed)) ++ (UInt8.ofNat wrapped.length :: wrapped)).length =
          bodyPos + 10 + 36 + wrapped.length := by
        simp only [List.length_append, length_encodeNativePointMpi, List.length_cons]
        omega
      simp only [tryPkesk, hversion, hkeyId, hoctet, halgorithm, hend, hopen]
      rfl

/-- The session key packets of a message, one for each recipient. -/
def buildPkeskPackets (P : Primitives) (sessionKey : Bytes) (cipherAlgorithmOctet : UInt8)
    (seed : ℕ → ℕ) : ℕ → List PgpEncryptionRecipient → Option Bytes
  | _, [] => some []
  | i, recipient :: recipients =>
    let pkeskPacket :=
      buildPkeskPacketForRecipient P recipient sessionKey cipherAlgorithmOctet (seed i)
    if pkeskPacket = [] then none
    else
      (buildPkeskPackets P sessionKey cipherAlgorithmOctet seed (i + 1) recipients).map
        (pkeskPacket ++ ·)

section Search

variable {P : Primitives} {key : DecryptionKey} {message rest : Bytes} {pos : ℕ}

variable (P key) in
/-- One step of the search, over a written packet. -/
theorem findSessionKey_packet (found : Option Bytes) {body : Bytes} (hbody : body.length < 2 ^ 32)
    (h : At message pos (writePacket PGP_TAG_PKESK body ++ rest)) :
    ∃ bodyPos, At message bodyPos (body ++ rest) ∧
      ∀ found', tryPkesk P key message bodyPos (bodyPos + body.length) found = .ok (some found') →
        findSessionKey P key message pos found =
          findSessionKey P key message (bodyPos + body.length) found' := by
  obtain ⟨bodyPos, hread, hat⟩ := readPacketHeader_writePacket (by decide) hbody h
  refine ⟨bodyPos, hat, fun found' htry => ?_⟩
  rw [findSessionKey]
  split
  · rename_i hnone
    rw [hread] at hnone
    cases hnone
  · rename_i header hsome
    rw [hread] at hsome
    cases hsome
    rw [if_neg (by simp), dif_neg (Nat.not_lt.mpr hat.le)]
    simp only [htry]

theorem findSessionKey_end (P : Primitives) (key : DecryptionKey) {message rest : Bytes} {pos : ℕ}
    {body : Bytes} {tag : UInt8} (found : Option Bytes) (htag : tag < 64)
    (hne : tag ≠ PGP_TAG_PKESK) (hbody : body.length < 2 ^ 32)
    (h : At message pos (writePacket tag body ++ rest)) :
    findSessionKey P key message pos found = .ok (some (found, pos)) := by
  obtain ⟨bodyPos, hread, -⟩ := readPacketHeader_writePacket htag hbody h
  rw [findSessionKey]
  split
  · rfl
  · rename_i header hsome
    rw [hread] at hsome
    cases hsome
    rw [if_pos hne]

/-- The sizes the search needs: a packet body must fit a 32-bit length. -/
theorem pkeskBody_length {recipient : PgpEncryptionRecipient} {plain tail : Bytes} {seed : ℕ}
    (hmodulus : recipient.rsaPublicKey.modulus.size ≤ 2 ^ 16) (hplain : plain.length ≤ 35)
    (h : encryptSessionKey P recipient plain seed = some tail) :
    (pkeskBody recipient.keyId recipient.algorithm tail).length = 10 + tail.length ∧
      (pkeskBody recipient.keyId recipient.algorithm tail).length < 2 ^ 32 := by
  have htail := encryptSessionKey_length hmodulus hplain h
  have hlen : (pkeskBody recipient.keyId recipient.algorithm tail).length = 10 + tail.length := by
    simp only [pkeskBody, List.length_cons, List.length_append, Octets.length_eq]
    omega
  omega

variable {sessionKey pkesks : Bytes} {cipherAlgorithmOctet : UInt8} {seed : ℕ → ℕ} {i : ℕ}
  {recipients : List PgpEncryptionRecipient}

/-- A list of packets is the first packet and the others. -/
theorem buildPkeskPackets_cons {recipient : PgpEncryptionRecipient}
    (h : buildPkeskPackets P sessionKey cipherAlgorithmOctet seed i (recipient :: recipients) =
      some pkesks) :
    ∃ tail others, encryptSessionKey P recipient
        (sessionKeyPlain cipherAlgorithmOctet sessionKey) (seed i) = some tail ∧
      buildPkeskPackets P sessionKey cipherAlgorithmOctet seed (i + 1) recipients = some others ∧
      pkesks = writePacket PGP_TAG_PKESK (pkeskBody recipient.keyId recipient.algorithm tail) ++
        others := by
  rw [buildPkeskPackets] at h
  cases htail : encryptSessionKey P recipient (sessionKeyPlain cipherAlgorithmOctet sessionKey)
      (seed i) with
  | none => simp [buildPkeskPacketForRecipient, htail] at h
  | some tail =>
      simp only [buildPkeskPacketForRecipient, htail, if_neg (writePacket_ne_nil _ _),
        Option.map_eq_some_iff] at h
      obtain ⟨others, hothers, rfl⟩ := h
      exact ⟨tail, others, rfl, hothers, rfl⟩

variable (key) in
/-- Packets for others leave the search as it was. -/
theorem findSessionKey_skip (found : Option Bytes) (hkey : sessionKey.length ≤ 32)
    (hmodulus : ∀ recipient ∈ recipients, recipient.rsaPublicKey.modulus.size ≤ 2 ^ 16)
    (hskip : found ≠ none ∨ ∀ recipient ∈ recipients, recipient.keyId ≠ key.keyId)
    (hbuild : buildPkeskPackets P sessionKey cipherAlgorithmOctet seed i recipients = some pkesks)
    (h : At message pos (pkesks ++ rest)) :
    ∃ next, At message next rest ∧
      findSessionKey P key message pos found = findSessionKey P key message next found := by
  induction recipients generalizing i pos pkesks with
  | nil =>
      obtain rfl := Option.some.inj hbuild
      exact ⟨pos, h, rfl⟩
  | cons recipient recipients ih =>
      obtain ⟨tail, others, hencrypt, hothers, rfl⟩ := buildPkeskPackets_cons hbuild
      have hplain := length_sessionKeyPlain cipherAlgorithmOctet sessionKey
      obtain ⟨-, hbody⟩ := pkeskBody_length (hmodulus recipient List.mem_cons_self)
        (by omega) hencrypt
      rw [List.append_assoc] at h
      obtain ⟨bodyPos, hat, hstep⟩ := findSessionKey_packet P key found hbody h
      have hforeign : found ≠ none ∨ recipient.keyId ≠ key.keyId :=
        hskip.imp_right fun hids => hids recipient List.mem_cons_self
      obtain ⟨next, hnext, hrest⟩ := ih
        (fun other hmem => hmodulus other (List.mem_cons_of_mem _ hmem))
        (hskip.imp_right fun hids other hmem => hids other (List.mem_cons_of_mem _ hmem))
        hothers hat.advance
      exact ⟨next, hnext, (hstep found (tryPkesk_skip P hforeign hat _)).trans hrest⟩

theorem buildPkeskPackets_append {before after : List PgpEncryptionRecipient}
    (h : buildPkeskPackets P sessionKey cipherAlgorithmOctet seed i (before ++ after) =
      some pkesks) :
    ∃ first second, buildPkeskPackets P sessionKey cipherAlgorithmOctet seed i before = some first ∧
      buildPkeskPackets P sessionKey cipherAlgorithmOctet seed (i + before.length) after =
        some second ∧ pkesks = first ++ second := by
  induction before generalizing i pkesks with
  | nil => exact ⟨[], pkesks, rfl, h, rfl⟩
  | cons recipient before ih =>
      obtain ⟨tail, others, hencrypt, hothers, rfl⟩ := buildPkeskPackets_cons h
      obtain ⟨first, second, hfirst, hsecond, rfl⟩ := ih hothers
      refine ⟨_, second, ?_, ?_, (List.append_assoc _ _ _).symm⟩
      · simp only [buildPkeskPackets, buildPkeskPacketForRecipient, hencrypt,
          if_neg (writePacket_ne_nil _ _), hfirst, Option.map_some]
      · rw [List.length_cons, ← Nat.add_assoc, Nat.add_right_comm]
        exact hsecond

/-- The search finds one's own packet among those of the others. -/
theorem findSessionKey_own (hlawful : P.Lawful) (hgenerated : key.Generated P)
    (hkey : sessionKey.length ≤ 32) {before after : List PgpEncryptionRecipient}
    (hbefore : ∀ recipient ∈ before, recipient.keyId ≠ key.keyId)
    (hmodulus : ∀ recipient ∈ before ++ key.recipient P :: after,
      recipient.rsaPublicKey.modulus.size ≤ 2 ^ 16)
    (hbuild : buildPkeskPackets P sessionKey cipherAlgorithmOctet seed i
      (before ++ key.recipient P :: after) = some pkesks)
    {body : Bytes} {tag : UInt8} (htag : tag < 64) (hne : tag ≠ PGP_TAG_PKESK)
    (hlength : body.length < 2 ^ 32)
    (h : At message pos (pkesks ++ (writePacket tag body ++ rest))) :
    ∃ next, At message next (writePacket tag body ++ rest) ∧
      findSessionKey P key message pos none =
        .ok (some (some (sessionKeyPlain cipherAlgorithmOctet sessionKey), next)) := by
  have hplain := length_sessionKeyPlain cipherAlgorithmOctet sessionKey
  obtain ⟨first, second, hfirst, hsecond, rfl⟩ := buildPkeskPackets_append hbuild
  obtain ⟨tail, others, hencrypt, hothers, rfl⟩ := buildPkeskPackets_cons hsecond
  obtain ⟨hlen, hbody⟩ := pkeskBody_length (hmodulus _ (by simp)) (by omega) hencrypt
  rw [DecryptionKey.recipient_keyId, DecryptionKey.recipient_algorithm] at hlen hbody h
  simp only [List.append_assoc] at h
  -- the packets before, the own packet, the packets after, the end
  obtain ⟨own, hownAt, hskipped⟩ := findSessionKey_skip key none hkey
    (fun recipient hmem => hmodulus recipient (List.mem_append_left _ hmem)) (.inr hbefore) hfirst h
  obtain ⟨bodyPos, hat, hstep⟩ := findSessionKey_packet P key none hbody hownAt
  have hown := tryPkesk_own hlawful hgenerated (by omega) hencrypt hat
  rw [Nat.add_assoc, ← hlen] at hown
  obtain ⟨next, hnext, hrest⟩ := findSessionKey_skip key
    (some (sessionKeyPlain cipherAlgorithmOctet sessionKey)) hkey
    (fun recipient hmem => hmodulus recipient
      (List.mem_append_right _ (List.mem_cons_of_mem _ hmem)))
    (.inl (by simp)) hothers hat.advance
  refine ⟨next, hnext, ?_⟩
  rw [hskipped, hstep _ hown, hrest, findSessionKey_end P key _ htag hne hlength hnext]

end Search

/-! ### Recipients that can be encrypted to -/

section Encryptable

variable {P : Primitives} {recipient : PgpEncryptionRecipient}

/-- A session key can be encrypted to it, whatever is drawn. -/
def Encryptable (P : Primitives) (recipient : PgpEncryptionRecipient) : Prop :=
  ∀ plain seed, plain.length ≤ 35 → (encryptSessionKey P recipient plain seed).isSome = true

theorem Encryptable.rsa (hlawful : P.Lawful)
    (halgorithm : recipient.algorithm = PGP_KEY_ALGORITHM_RSA) {n bits : ℕ} (hbits : IsRsaKeySize bits)
    (hpublic : recipient.rsaPublicKey = (P.generateRsaKey n bits).1.publicKey) :
    Encryptable P recipient := by
  intro plain seed hplain
  have hroom : plain.length + 11 ≤ bits / 8 := by
    rcases hbits with rfl | rfl | rfl | rfl <;> omega
  rw [encryptSessionKey, halgorithm, hpublic]
  dsimp only
  rw [Option.isSome_map]
  exact hlawful.rsaEncrypt_isSome n bits seed plain hbits hroom

theorem Encryptable.curve (hagrees : P.Agrees)
    (halgorithm : recipient.algorithm = PGP_KEY_ALGORITHM_ED25519_X25519) {n : ℕ}
    (hpublic : recipient.x25519PublicKey = P.x25519PublicKey (P.generateX25519PrivateKey n)) :
    Encryptable P recipient := by
  intro plain seed _
  obtain ⟨sharedSecret, hshared⟩ := Option.isSome_iff_exists.mp (hagrees seed n)
  obtain ⟨hne, hmod, -⟩ := padPkcs5_facts plain
  have hwrapped := length_aesKeyWrap P (computeEcdhKek P sharedSecret
    (buildEcdhKdfParam recipient.x25519Fingerprint) 16) hne hmod
  rw [encryptSessionKey, halgorithm, hpublic]
  simp only [hshared]
  rw [if_neg (List.ne_nil_of_length_pos (by omega))]
  rfl

/-- What a sender knows of a generated key, it can encrypt to. -/
theorem DecryptionKey.Generated.encryptable (hlawful : P.Lawful) (hagrees : P.Agrees)
    {key : DecryptionKey} (h : key.Generated P) : Encryptable P (key.recipient P) := by
  cases halgorithm : key.algorithm with
  | PGP_KEY_ALGORITHM_RSA =>
      obtain ⟨hrsa, n, bits, hbits, hpublic⟩ := h.recipient_rsa halgorithm
      exact .rsa hlawful hrsa hbits hpublic
  | PGP_KEY_ALGORITHM_ED25519_X25519 =>
      simp only [DecryptionKey.Generated, halgorithm] at h
      obtain ⟨n, hkey⟩ := h
      have hpublic : (key.recipient P).x25519PublicKey =
          P.x25519PublicKey (P.generateX25519PrivateKey n) := by
        simp only [DecryptionKey.recipient, halgorithm, hkey]
      exact .curve hagrees ((key.recipient_algorithm P).trans halgorithm) hpublic

theorem buildPkeskPackets_encryptable {sessionKey : Bytes} {cipherAlgorithmOctet : UInt8}
    {seed : ℕ → ℕ} {i : ℕ} {recipients : List PgpEncryptionRecipient}
    (hencryptable : ∀ recipient ∈ recipients, Encryptable P recipient)
    (hkey : sessionKey.length ≤ 32) :
    ∃ pkesks, buildPkeskPackets P sessionKey cipherAlgorithmOctet seed i recipients =
      some pkesks := by
  induction recipients generalizing i with
  | nil => exact ⟨[], rfl⟩
  | cons recipient recipients ih =>
      have hplain := length_sessionKeyPlain cipherAlgorithmOctet sessionKey
      obtain ⟨tail, htail⟩ := Option.isSome_iff_exists.mp
        (hencryptable recipient (.head _) (sessionKeyPlain cipherAlgorithmOctet sessionKey)
          (seed i) (by omega))
      obtain ⟨others, hothers⟩ := @ih (i + 1) fun other hmem => hencryptable other (.tail _ hmem)
      rw [buildPkeskPackets, buildPkeskPacketForRecipient, htail]
      dsimp only
      rw [if_neg (writePacket_ne_nil _ _), hothers]
      exact ⟨_, rfl⟩

end Encryptable

/-- The cleartext of a session key gives the session key back. -/
theorem sessionKeyOf_sessionKeyPlain {cipher : PgpSymmetricAlgorithm} {sessionKey : Bytes}
    (hlen : sessionKey.length = pgpSymmetricSessionKeyLength cipher.octet) :
    sessionKeyOf (sessionKeyPlain cipher.octet sessionKey) = some sessionKey := by
  have hcipher : ¬ (cipher.octet ≠ 7 ∧ cipher.octet ≠ 8 ∧ cipher.octet ≠ 9) := by
    cases cipher <;> simp [PgpSymmetricAlgorithm.octet]
  have hstored := readBigEndian16_mod (at_append sessionKey
    (appendBigEndian16 (sessionKeyChecksum sessionKey) ++ []))
  rw [List.append_nil] at hstored
  simp only [sessionKeyOf, sessionKeyPlain]
  rw [if_neg hcipher, if_neg (by simp [hlen]), ← hlen, List.take_left, hstored,
    if_neg (by simp)]

end HashCryptoLib.Pgp
