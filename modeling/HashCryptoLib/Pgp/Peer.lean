import HashCryptoLib.Pgp.Armor
import HashCryptoLib.Pgp.State
import Mathlib.Data.List.MinMax

/-!
Importing a peer's public key block: the scan of a signature's hashed
subpackets, the packet walk that attributes each signature to the user ID or
subkey before it, and the choice of the encryption subkey. The calls that change
the engine's view of its peers stand at the end.
-/

namespace HashCryptoLib.Pgp

open BigEndian Cursor

/-! ### Hashed subpackets -/

/-- What `scanSignatureHashedSubpackets` stores in its out-parameters. -/
structure SubpacketScan where
  signatureType : UInt8 := 0
  haveKeyFlags : Bool := false
  keyFlags : UInt8 := 0
  haveExpiration : Bool := false
  expirationSeconds : UInt32 := 0
  deriving DecidableEq, Repr

/-- One subpacket: key flags (27) and key expiration (9) are recorded. -/
def SubpacketScan.record (scan : SubpacketScan) (subpacket : UInt8 × Bytes) : SubpacketScan :=
  if subpacket.1 = 27 ∧ subpacket.2.length ≥ 1 then
    { scan with haveKeyFlags := true, keyFlags := subpacket.2.headD 0 }
  else if subpacket.1 = 9 ∧ subpacket.2.length ≥ 4 then
    { scan with
      haveExpiration := true
      expirationSeconds := UInt32.ofNat (ofOctets (subpacket.2.take 4)) }
  else scan

def scanSignatureHashedSubpackets (body : Bytes) : Option SubpacketScan :=
  if body.length < 6 ∨ body[0]? ≠ some 4 then none
  else
    let endPos := 6 + readBigEndian16 body 4
    if endPos > body.length then none
    else
      some ((walkSubpackets body endPos 6).foldl SubpacketScan.record
        { signatureType := body.getD 1 0 })

/-! ### Choosing an encryption subkey -/

/-- The sum is taken in 32 bits. -/
def PgpPeerSubkey.expired (subkey : PgpPeerSubkey) (now : UInt32) : Bool :=
  subkey.haveExpiration && subkey.expirationSeconds > 0 &&
    subkey.creationTime + subkey.expirationSeconds ≤ now

/-- The later of the best so far and a candidate; a tie keeps the best so far. -/
def newer (best : Option PgpPeerSubkey) (candidate : PgpPeerSubkey) : Option PgpPeerSubkey :=
  match best with
  | none => some candidate
  | some b => if candidate.creationTime > b.creationTime then some candidate else some b

/-- `bestWithFlags` and `bestAny` after one more candidate. -/
def considerSubkey (now : UInt32) (best : Option PgpPeerSubkey × Option PgpPeerSubkey)
    (candidate : PgpPeerSubkey) : Option PgpPeerSubkey × Option PgpPeerSubkey :=
  if candidate.isRevoked || candidate.expired now then best
  else if candidate.haveKeyFlags && candidate.keyFlags &&& 0x0C ≠ 0 then
    (newer best.1 candidate, newer best.2 candidate)
  else (best.1, newer best.2 candidate)

def chooseBestPeerEncryptionSubkey (now : UInt32) (subkeys : List PgpPeerSubkey) :
    Option PgpPeerSubkey :=
  let best := subkeys.foldl (considerSubkey now) (none, none)
  best.1.or best.2

/-! ### Walking a block -/

inductive OwnerKind
  | OWNER_NONE
  | OWNER_MASTER
  | OWNER_UID
  | OWNER_SUBKEY
  deriving DecidableEq, Repr

export OwnerKind (OWNER_NONE OWNER_MASTER OWNER_UID OWNER_SUBKEY)

structure ParsedPeerPublicKeyBlock where
  haveMaster : Bool := false
  masterAlgorithm : PgpKeyAlgorithm := PGP_KEY_ALGORITHM_RSA
  masterRsaKey : RsaPublicKey := {}
  masterEd25519Key : Octets 32 := Octets.zero 32
  masterKeyId : Octets 8 := Octets.zero 8
  masterFingerprint : Octets 20 := Octets.zero 20
  haveSubkey : Bool := false
  subkeyAlgorithm : PgpKeyAlgorithm := PGP_KEY_ALGORITHM_RSA
  subkeyRsaKey : RsaPublicKey := {}
  subkeyX25519Key : Octets 32 := Octets.zero 32
  subkeyKeyId : Octets 8 := Octets.zero 8
  subkeyFingerprint : Octets 20 := Octets.zero 20
  userIds : List PgpPeerUserId := []
  subkeys : List PgpPeerSubkey := []
  deriving DecidableEq

/-- The block so far, and what the next signature packet belongs to. -/
structure PeerWalk where
  out : ParsedPeerPublicKeyBlock := {}
  currentOwnerKind : OwnerKind := OWNER_NONE
  currentOwnerIndex : ℕ := 0

section Walk

variable (P : Primitives)

/-- The block with its master key set from a public-key body, unless the body
does not parse. -/
def parsePeerMaster (out : ParsedPeerPublicKeyBlock) (body : Bytes) :
    Option ParsedPeerPublicKeyBlock :=
  let masterFingerprint := (computeFingerprintAndKeyId P body).1
  if body[5]? = some PGP_ALGO_RSA then
    (parseRsaPublicKeyPacketBody P body).map fun (n, e, keyId) =>
      { out with
        masterAlgorithm := PGP_KEY_ALGORITHM_RSA, masterRsaKey := ⟨n, e⟩, masterKeyId := keyId
        haveMaster := true, masterFingerprint }
  else if body[5]? = some PGP_ALGO_EDDSA then
    (parseEd25519PublicKeyPacketBody P body).map fun (point, keyId) =>
      { out with
        masterAlgorithm := PGP_KEY_ALGORITHM_ED25519_X25519, masterEd25519Key := point
        masterKeyId := keyId, haveMaster := true, masterFingerprint }
  else none

def parsePeerSubkey (body : Bytes) : Option PgpPeerSubkey :=
  let creationTime := readCreationTime body
  let fingerprint := (computeFingerprintAndKeyId P body).1
  if body[5]? = some PGP_ALGO_RSA then
    (parseRsaPublicKeyPacketBody P body).map fun (n, e, keyId) =>
      { algorithm := PGP_KEY_ALGORITHM_RSA, rsaKey := ⟨n, e⟩, keyId, fingerprint, creationTime }
  else if body[5]? = some PGP_ALGO_ECDH then
    (parseX25519PublicKeyPacketBody P body).map fun (point, keyId, fingerprint) =>
      { algorithm := PGP_KEY_ALGORITHM_ED25519_X25519, x25519Key := point, keyId, fingerprint
        creationTime }
  else if body[5]? = some PGP_ALGO_EDDSA then
    (parseEd25519PublicKeyPacketBody P body).map fun (point, keyId) =>
      { algorithm := PGP_KEY_ALGORITHM_ED25519_X25519, isEd25519 := true, ed25519Key := point
        keyId, fingerprint, creationTime }
  else none

/-- A binding signature tells a subkey its flags and its expiration. -/
def PgpPeerSubkey.bind (subkey : PgpPeerSubkey) (scan : SubpacketScan) : PgpPeerSubkey :=
  let subkey := if scan.haveKeyFlags then
    { subkey with haveKeyFlags := true, keyFlags := scan.keyFlags } else subkey
  if scan.haveExpiration then
    { subkey with haveExpiration := true, expirationSeconds := scan.expirationSeconds } else subkey

/-- A signature packet, attributed to the current owner. -/
def PeerWalk.sign (walk : PeerWalk) (scan : SubpacketScan) : PeerWalk :=
  let i := walk.currentOwnerIndex
  if scan.signatureType = 0x30 ∧ walk.currentOwnerKind = OWNER_UID then
    { walk with out.userIds := walk.out.userIds.modify i fun uid => { uid with isRevoked := true } }
  else if walk.currentOwnerKind = OWNER_SUBKEY then
    if scan.signatureType = 0x28 then
      { walk with
        out.subkeys := walk.out.subkeys.modify i fun subkey => { subkey with isRevoked := true } }
    else if scan.signatureType = 0x18 then
      { walk with out.subkeys := walk.out.subkeys.modify i fun subkey => subkey.bind scan }
    else walk
  else walk

/-- One packet of a block. -/
def PeerWalk.packet (walk : PeerWalk) (tag : UInt8) (body : Bytes) : PeerWalk :=
  if tag = PGP_TAG_PUBLIC_KEY then
    if walk.out.haveMaster ∨ body.length < 6 then { walk with currentOwnerKind := OWNER_NONE }
    else
      match parsePeerMaster P walk.out body with
      | none => { walk with currentOwnerKind := OWNER_NONE }
      | some out => { walk with out, currentOwnerKind := OWNER_MASTER }
  else if tag = PGP_TAG_PUBLIC_SUBKEY then
    if body.length < 6 then { walk with currentOwnerKind := OWNER_NONE }
    else
      match parsePeerSubkey P body with
      | none => { walk with currentOwnerKind := OWNER_NONE }
      | some newSubkey =>
        { out := { walk.out with subkeys := walk.out.subkeys ++ [newSubkey] }
          currentOwnerKind := OWNER_SUBKEY
          currentOwnerIndex := walk.out.subkeys.length }
  else if tag = PGP_TAG_USER_ID then
    { out := { walk.out with userIds := walk.out.userIds ++ [{ uidText := body }] }
      currentOwnerKind := OWNER_UID
      currentOwnerIndex := walk.out.userIds.length }
  else if tag = PGP_TAG_SIGNATURE then
    match scanSignatureHashedSubpackets body with
    | none => walk
    | some scan => walk.sign scan
  else walk

/-- The packet loop: it ends at the first packet that does not fit. -/
def walkPeerBlock (binary : Bytes) (pos : ℕ) (walk : PeerWalk) : PeerWalk :=
  if pos < binary.length then
    match _hhead : readPacketHeader binary pos none false with
    | none => walk
    | some header =>
      match readOctets binary header.bodyPos header.bodyLength with
      | none => walk
      | some body =>
        walkPeerBlock binary (header.bodyPos + header.bodyLength) (walk.packet P header.tag body)
  else walk
termination_by binary.length - pos
decreasing_by
  have := bodyPos_gt _hhead
  omega

/-- The single-valued subkey fields: the chosen subkey, or an RSA master. -/
def ParsedPeerPublicKeyBlock.chooseSubkey (out : ParsedPeerPublicKeyBlock) (now : UInt32) :
    ParsedPeerPublicKeyBlock :=
  match chooseBestPeerEncryptionSubkey now out.subkeys with
  | some chosen =>
    { out with
      subkeyAlgorithm := chosen.algorithm, subkeyRsaKey := chosen.rsaKey
      subkeyX25519Key := chosen.x25519Key, subkeyKeyId := chosen.keyId
      subkeyFingerprint := chosen.fingerprint, haveSubkey := true }
  | none =>
    if out.masterAlgorithm = PGP_KEY_ALGORITHM_RSA then
      { out with
        subkeyAlgorithm := PGP_KEY_ALGORITHM_RSA, subkeyRsaKey := out.masterRsaKey
        subkeyKeyId := out.masterKeyId, haveSubkey := true }
    else { out with haveSubkey := false }

def parsePeerPublicKeyBlock (now : UInt32) (binary : Bytes) : Option ParsedPeerPublicKeyBlock :=
  let out := (walkPeerBlock P binary 0 {}).out
  if out.haveMaster = false then none else some (out.chooseSubkey now)

/-- An armored block is recognized by its first five octets. -/
def decodeKeyBlockToBinary (keyBlock : Bytes) : Option Bytes :=
  if ascii "-----" <+: keyBlock then (armorDecode keyBlock).map Prod.snd else some keyBlock

/-- The peer fields after an import. Of the flat key fields only those of the
block's own algorithms are overwritten. -/
def Impl.importPeer (impl : Impl) (parsed : ParsedPeerPublicKeyBlock) : Impl :=
  { impl with
    peerMasterAlgorithm := parsed.masterAlgorithm
    peerSubkeyAlgorithm := parsed.subkeyAlgorithm
    peerMasterPublicKey := match parsed.masterAlgorithm with
      | PGP_KEY_ALGORITHM_RSA => parsed.masterRsaKey
      | PGP_KEY_ALGORITHM_ED25519_X25519 => impl.peerMasterPublicKey
    peerEd25519PublicKey := match parsed.masterAlgorithm with
      | PGP_KEY_ALGORITHM_RSA => impl.peerEd25519PublicKey
      | PGP_KEY_ALGORITHM_ED25519_X25519 => parsed.masterEd25519Key
    peerMasterKeyId := parsed.masterKeyId
    peerSubkeyPublicKey := match parsed.subkeyAlgorithm with
      | PGP_KEY_ALGORITHM_RSA => parsed.subkeyRsaKey
      | PGP_KEY_ALGORITHM_ED25519_X25519 => impl.peerSubkeyPublicKey
    peerX25519PublicKey := match parsed.subkeyAlgorithm with
      | PGP_KEY_ALGORITHM_RSA => impl.peerX25519PublicKey
      | PGP_KEY_ALGORITHM_ED25519_X25519 => parsed.subkeyX25519Key
    peerSubkeyFingerprint := match parsed.subkeyAlgorithm with
      | PGP_KEY_ALGORITHM_RSA => impl.peerSubkeyFingerprint
      | PGP_KEY_ALGORITHM_ED25519_X25519 => parsed.subkeyFingerprint
    peerSubkeyKeyId := parsed.subkeyKeyId
    peerUserIds := parsed.userIds
    peerSubkeys := parsed.subkeys
    peerKeyImported := true }

/-- `haveSubkey` is not looked at, so a peer without a usable subkey is imported
as well. -/
def ImportPeerPublicKey (now : UInt32) (keyBlock : Buffer) (impl : Impl) : Status × Impl :=
  if keyBlock.1 = [] then (INVALID_ARGUMENT, impl)
  else
    match (decodeKeyBlockToBinary keyBlock.1).bind (parsePeerPublicKeyBlock P now) with
    | none => (INVALID_DATA, impl)
    | some parsed => (NO_ERROR, impl.importPeer parsed)

/-- The recipient that messages for this block's owner are encrypted to. -/
def ParsedPeerPublicKeyBlock.recipient (parsed : ParsedPeerPublicKeyBlock) :
    PgpEncryptionRecipient :=
  match parsed.subkeyAlgorithm with
  | PGP_KEY_ALGORITHM_RSA =>
    { algorithm := PGP_KEY_ALGORITHM_RSA
      rsaPublicKey := parsed.subkeyRsaKey, rsaKeyId := parsed.subkeyKeyId }
  | PGP_KEY_ALGORITHM_ED25519_X25519 =>
    { algorithm := PGP_KEY_ALGORITHM_ED25519_X25519
      x25519PublicKey := parsed.subkeyX25519Key, x25519KeyId := parsed.subkeyKeyId
      x25519Fingerprint := parsed.subkeyFingerprint }

/-- The first recipient of every message: the imported peer. -/
def Impl.primaryRecipient (impl : Impl) : PgpEncryptionRecipient :=
  match impl.peerSubkeyAlgorithm with
  | PGP_KEY_ALGORITHM_RSA =>
    { algorithm := PGP_KEY_ALGORITHM_RSA
      rsaPublicKey := impl.peerSubkeyPublicKey, rsaKeyId := impl.peerSubkeyKeyId }
  | PGP_KEY_ALGORITHM_ED25519_X25519 =>
    { algorithm := PGP_KEY_ALGORITHM_ED25519_X25519
      x25519PublicKey := impl.peerX25519PublicKey, x25519KeyId := impl.peerSubkeyKeyId
      x25519Fingerprint := impl.peerSubkeyFingerprint }

def Impl.recipients (impl : Impl) : List PgpEncryptionRecipient :=
  impl.primaryRecipient :: impl.additionalRecipients

def ImportAdditionalRecipientPublicKey (now : UInt32) (keyBlock : Buffer) (impl : Impl) :
    Status × Impl :=
  if impl.peerKeyImported = false ∨ keyBlock.1 = [] then (INVALID_ARGUMENT, impl)
  else
    match (decodeKeyBlockToBinary keyBlock.1).bind (parsePeerPublicKeyBlock P now) with
    | none => (INVALID_DATA, impl)
    | some parsed =>
      if parsed.haveSubkey = false then (INVALID_DATA, impl)
      else
        (NO_ERROR,
          { impl with additionalRecipients := impl.additionalRecipients ++ [parsed.recipient] })

end Walk

def SetSymmetricCipherPreference (algorithm : PgpSymmetricAlgorithm) (impl : Impl) :
    Status × Impl :=
  (NO_ERROR, { impl with symmetricCipherPreference := algorithm })

theorem Impl.importPeer_primaryRecipient (impl : Impl) (parsed : ParsedPeerPublicKeyBlock) :
    (impl.importPeer parsed).primaryRecipient = parsed.recipient := by
  simp only [Impl.primaryRecipient, Impl.importPeer, ParsedPeerPublicKeyBlock.recipient]
  cases parsed.subkeyAlgorithm <;> rfl

/-! ### What the choice picks -/

def PgpPeerSubkey.usable (now : UInt32) (subkey : PgpPeerSubkey) : Bool :=
  !(subkey.isRevoked || subkey.expired now)

/-- Flagged for encryption. -/
def PgpPeerSubkey.encrypts (subkey : PgpPeerSubkey) : Bool :=
  subkey.haveKeyFlags && subkey.keyFlags &&& 0x0C ≠ 0

/-- The newest subkey, the first one of several. -/
def newest (subkeys : List PgpPeerSubkey) : Option PgpPeerSubkey :=
  subkeys.argmax fun subkey => subkey.creationTime.toNat

theorem foldl_newer (subkeys : List PgpPeerSubkey) : subkeys.foldl newer none = newest subkeys := by
  rw [newest, List.argmax]
  congr 1
  funext best candidate
  cases best with
  | none => rfl
  | some b => simp only [newer, List.argAux, gt_iff_lt, UInt32.lt_iff_toNat_lt]

theorem foldl_considerSubkey (now : UInt32) (subkeys : List PgpPeerSubkey)
    (best : Option PgpPeerSubkey × Option PgpPeerSubkey) :
    subkeys.foldl (considerSubkey now) best =
      ((subkeys.filter fun subkey => subkey.usable now && subkey.encrypts).foldl newer best.1,
        (subkeys.filter (PgpPeerSubkey.usable now)).foldl newer best.2) := by
  induction subkeys generalizing best with
  | nil => rfl
  | cons subkey subkeys ih =>
      rw [List.foldl_cons, ih, considerSubkey]
      cases hrejected : subkey.isRevoked || subkey.expired now with
      | true =>
          have husable : subkey.usable now = false := by rw [PgpPeerSubkey.usable, hrejected]; rfl
          simp [husable]
      | false =>
          have husable : subkey.usable now = true := by rw [PgpPeerSubkey.usable, hrejected]; rfl
          cases hencrypts : subkey.haveKeyFlags && decide (subkey.keyFlags &&& 0x0C ≠ 0) with
          | true =>
              have hflagged : subkey.encrypts = true := hencrypts
              simp [husable, hflagged]
          | false =>
              have hflagged : subkey.encrypts = false := hencrypts
              simp [husable, hflagged]

/-- The newest usable subkey flagged for encryption, else the newest usable one. -/
theorem chooseBestPeerEncryptionSubkey_eq (now : UInt32) (subkeys : List PgpPeerSubkey) :
    chooseBestPeerEncryptionSubkey now subkeys =
      (newest (subkeys.filter fun subkey => subkey.usable now && subkey.encrypts)).or
        (newest (subkeys.filter (PgpPeerSubkey.usable now))) := by
  simp only [chooseBestPeerEncryptionSubkey, foldl_considerSubkey, foldl_newer]

section Choice

variable {now : UInt32} {subkeys : List PgpPeerSubkey} {chosen : PgpPeerSubkey}

theorem newest_mem (h : newest subkeys = some chosen) : chosen ∈ subkeys := List.argmax_mem h

theorem newest_eq_none : newest subkeys = none ↔ subkeys = [] := List.argmax_eq_none

theorem chooseBestPeerEncryptionSubkey_mem
    (h : chooseBestPeerEncryptionSubkey now subkeys = some chosen) :
    chosen ∈ subkeys ∧ chosen.usable now = true := by
  rw [chooseBestPeerEncryptionSubkey_eq, Option.or_eq_some_iff] at h
  rcases h with hflagged | ⟨-, hany⟩
  · obtain ⟨hmem, hkept⟩ := List.mem_filter.mp (newest_mem hflagged)
    exact ⟨hmem, (Bool.and_eq_true _ _ ▸ hkept).1⟩
  · exact List.mem_filter.mp (newest_mem hany)

theorem chooseBestPeerEncryptionSubkey_eq_none :
    chooseBestPeerEncryptionSubkey now subkeys = none ↔
      ∀ subkey ∈ subkeys, subkey.usable now = false := by
  rw [chooseBestPeerEncryptionSubkey_eq, Option.or_eq_none_iff, newest_eq_none, newest_eq_none,
    List.filter_eq_nil_iff, List.filter_eq_nil_iff]
  constructor
  · exact fun h subkey hmem => by simpa using h.2 subkey hmem
  · intro h
    exact ⟨fun subkey hmem => by simp [h subkey hmem], fun subkey hmem => by simp [h subkey hmem]⟩

/-- A subkey flagged for encryption is preferred. -/
theorem chooseBestPeerEncryptionSubkey_encrypts
    (h : chooseBestPeerEncryptionSubkey now subkeys = some chosen) {subkey : PgpPeerSubkey}
    (hmem : subkey ∈ subkeys) (husable : subkey.usable now = true)
    (hencrypts : subkey.encrypts = true) : chosen.encrypts = true := by
  rw [chooseBestPeerEncryptionSubkey_eq, Option.or_eq_some_iff] at h
  rcases h with hflagged | ⟨hnone, -⟩
  · obtain ⟨-, hkept⟩ := List.mem_filter.mp (newest_mem hflagged)
    exact (Bool.and_eq_true _ _ ▸ hkept).2
  · rw [newest_eq_none, List.filter_eq_nil_iff] at hnone
    exact absurd (by simp [husable, hencrypts]) (hnone subkey hmem)

end Choice

/-! ### Steps of the walk -/

theorem walkPeerBlock_end (P : Primitives) {binary : Bytes} {pos : ℕ} (walk : PeerWalk)
    (h : At binary pos []) : walkPeerBlock P binary pos walk = walk := by
  have hlen := h.length_eq
  rw [walkPeerBlock, if_neg (by simp at hlen; omega)]

/-- A written packet is one step, wherever it stands. -/
theorem walkPeerBlock_packet (P : Primitives) {binary body rest : Bytes} {pos : ℕ} {tag : UInt8}
    (walk : PeerWalk) (htag : tag < 64) (hbody : body.length < 2 ^ 32)
    (h : At binary pos (writePacket tag body ++ rest)) :
    ∃ next, walkPeerBlock P binary pos walk = walkPeerBlock P binary next (walk.packet P tag body) ∧
      At binary next rest := by
  obtain ⟨bodyPos, hread, hat⟩ := readPacketHeader_writePacket htag hbody h
  refine ⟨bodyPos + body.length, ?_, hat.advance⟩
  have hpos : pos < binary.length := h.lt_iff.mpr (by simp [writePacket])
  rw [walkPeerBlock, if_pos hpos]
  split
  · rename_i hnone
    rw [hread] at hnone
    cases hnone
  · rename_i header hsome
    rw [hread] at hsome
    cases hsome
    simp only [readOctets_of_at hat]

end HashCryptoLib.Pgp
