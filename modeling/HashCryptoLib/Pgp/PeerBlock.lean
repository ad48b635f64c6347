import HashCryptoLib.Pgp.Framing
import HashCryptoLib.Pgp.Peer
import HashCryptoLib.Pgp.StandIn

/-!
A peer's key block as the list of its packets. The walk over the octets is a fold
over that list; each user ID packet, and each subkey packet that can be read,
becomes one record, and what a signature packet changes is the record of the
current owner. The owner is meant to be the packet the signature stands behind,
but a packet of a kind the walk does not know leaves the owner as it was.
-/

namespace HashCryptoLib.Pgp

open BigEndian Cursor

/-- A tag and a body. -/
abbrev BlockPacket := UInt8 × Bytes

/-- The packets that the loop comes to: up to the first that does not fit. -/
def blockPackets (binary : Bytes) (pos : ℕ) : List BlockPacket :=
  if pos < binary.length then
    match _hhead : readPacketHeader binary pos none false with
    | none => []
    | some header =>
      match readOctets binary header.bodyPos header.bodyLength with
      | none => []
      | some body =>
        (header.tag, body) :: blockPackets binary (header.bodyPos + header.bodyLength)
  else []
termination_by binary.length - pos
decreasing_by
  have := bodyPos_gt _hhead
  omega

theorem blockPackets_end {binary : Bytes} {pos : ℕ} (h : ¬ pos < binary.length) :
    blockPackets binary pos = [] := by
  rw [blockPackets, if_neg h]

theorem blockPackets_stop {binary : Bytes} {pos : ℕ}
    (h : readPacketHeader binary pos none false = none) : blockPackets binary pos = [] := by
  rw [blockPackets]
  split_ifs
  · split
    · rfl
    · rename_i hsome
      rw [h] at hsome
      cases hsome
  · rfl

theorem blockPackets_cut {binary : Bytes} {pos : ℕ} {header : PacketHeader}
    (hread : readPacketHeader binary pos none false = some header)
    (hbody : readOctets binary header.bodyPos header.bodyLength = none) :
    blockPackets binary pos = [] := by
  rw [blockPackets]
  split_ifs
  · split
    · rfl
    · rename_i hsome
      rw [hread] at hsome
      cases hsome
      rw [hbody]
  · rfl

theorem blockPackets_cons {binary body : Bytes} {pos : ℕ} {header : PacketHeader}
    (hread : readPacketHeader binary pos none false = some header)
    (hbody : readOctets binary header.bodyPos header.bodyLength = some body) :
    blockPackets binary pos =
      (header.tag, body) :: blockPackets binary (header.bodyPos + header.bodyLength) := by
  rw [blockPackets.eq_def binary pos, if_pos (lt_length_of_read hread)]
  split
  · rename_i hnone
    rw [hread] at hnone
    cases hnone
  · rename_i hsome
    rw [hread] at hsome
    cases hsome
    rw [hbody]

/-- The fold over the packets of a block. -/
def PeerWalk.packets (P : Primitives) (walk : PeerWalk) (packets : List BlockPacket) : PeerWalk :=
  packets.foldl (fun walk packet => walk.packet P packet.1 packet.2) walk

theorem walkPeerBlock_eq (P : Primitives) (binary : Bytes) (pos : ℕ) (walk : PeerWalk) :
    walkPeerBlock P binary pos walk = walk.packets P (blockPackets binary pos) := by
  fun_induction walkPeerBlock P binary pos walk with
  | case1 pos walk hpos hhead =>
      rw [blockPackets_stop hhead]
      rfl
  | case2 pos walk hpos header hhead hread =>
      rw [blockPackets_cut hhead hread]
      rfl
  | case3 pos walk hpos header hhead body hread ih =>
      rw [ih, blockPackets_cons hhead hread]
      rfl
  | case4 pos walk hpos =>
      rw [blockPackets_end hpos]
      rfl

namespace PeerWalk

variable (P : Primitives)

@[simp] theorem packets_nil (walk : PeerWalk) : walk.packets P [] = walk := rfl

@[simp] theorem packets_cons (walk : PeerWalk) (packet : BlockPacket)
    (packets : List BlockPacket) :
    walk.packets P (packet :: packets) = (walk.packet P packet.1 packet.2).packets P packets := rfl

theorem packets_append (walk : PeerWalk) (packets more : List BlockPacket) :
    walk.packets P (packets ++ more) = (walk.packets P packets).packets P more :=
  List.foldl_append

theorem packets_concat (walk : PeerWalk) (packets : List BlockPacket) (packet : BlockPacket) :
    walk.packets P (packets ++ [packet]) = (walk.packets P packets).packet P packet.1 packet.2 := by
  rw [packets_append, packets_cons, packets_nil]

end PeerWalk

/-! ### One packet -/

/-- The record of a subkey packet, if it can be read. -/
def recordedSubkey (P : Primitives) (body : Bytes) : Option PgpPeerSubkey :=
  if body.length < 6 then none else parsePeerSubkey P body

/-- The record of a user ID behind a signature that is attributed to it. -/
def PgpPeerUserId.signed (scan : SubpacketScan) (uid : PgpPeerUserId) : PgpPeerUserId :=
  if scan.signatureType = 0x30 then { uid with isRevoked := true } else uid

/-- The record of a subkey behind a signature that is attributed to it. -/
def PgpPeerSubkey.signed (scan : SubpacketScan) (subkey : PgpPeerSubkey) : PgpPeerSubkey :=
  if scan.signatureType = 0x28 then { subkey with isRevoked := true }
  else if scan.signatureType = 0x18 then subkey.bind scan
  else subkey

theorem PgpPeerUserId.signed_eq_self_iff (scan : SubpacketScan) (uid : PgpPeerUserId) :
    uid.signed scan = uid ↔ (scan.signatureType = 0x30 → uid.isRevoked = true) := by
  rw [PgpPeerUserId.signed]
  split_ifs with htype
  · cases uid
    simp [htype, eq_comm]
  · exact iff_of_true rfl fun h => absurd h htype

/-- The record has the flags and the expiration that a binding signature gives. -/
def PgpPeerSubkey.Bound (scan : SubpacketScan) (subkey : PgpPeerSubkey) : Prop :=
  (scan.haveKeyFlags = true →
    subkey.haveKeyFlags = true ∧ subkey.keyFlags = scan.keyFlags) ∧
  (scan.haveExpiration = true →
    subkey.haveExpiration = true ∧ subkey.expirationSeconds = scan.expirationSeconds)

theorem PgpPeerSubkey.bind_eq_self_iff (scan : SubpacketScan) (subkey : PgpPeerSubkey) :
    subkey.bind scan = subkey ↔ subkey.Bound scan := by
  rw [PgpPeerSubkey.bind, PgpPeerSubkey.Bound]
  cases subkey
  cases scan.haveKeyFlags <;> cases scan.haveExpiration <;> simp [eq_comm, and_assoc]

theorem PgpPeerSubkey.signed_eq_self_iff (scan : SubpacketScan) (subkey : PgpPeerSubkey) :
    subkey.signed scan = subkey ↔
      (scan.signatureType = 0x28 → subkey.isRevoked = true) ∧
        (scan.signatureType = 0x18 → subkey.Bound scan) := by
  rw [PgpPeerSubkey.signed]
  by_cases hrevoked : scan.signatureType = 0x28
  · cases subkey
    simp [hrevoked, eq_comm]
  rw [if_neg hrevoked, and_iff_right fun h => absurd h hrevoked]
  by_cases hbinding : scan.signatureType = 0x18
  · rw [if_pos hbinding, subkey.bind_eq_self_iff]
    exact ⟨fun h _ => h, fun h => h hbinding⟩
  · rw [if_neg hbinding]
    exact iff_of_true rfl fun h => absurd h hbinding

section Packet

variable {P : Primitives} {walk : PeerWalk} {tag : UInt8} {body : Bytes}

namespace PeerWalk

theorem packet_publicKey :
    (walk.packet P PGP_TAG_PUBLIC_KEY body).out.userIds = walk.out.userIds ∧
      (walk.packet P PGP_TAG_PUBLIC_KEY body).out.subkeys = walk.out.subkeys ∧
      ((walk.packet P PGP_TAG_PUBLIC_KEY body).currentOwnerKind = OWNER_NONE ∨
        (walk.packet P PGP_TAG_PUBLIC_KEY body).currentOwnerKind = OWNER_MASTER) := by
  rw [packet, if_pos rfl]
  split_ifs
  · exact ⟨rfl, rfl, Or.inl rfl⟩
  · cases hmaster : parsePeerMaster P walk.out body with
    | none => exact ⟨rfl, rfl, Or.inl rfl⟩
    | some out =>
        rw [parsePeerMaster] at hmaster
        dsimp only at hmaster
        split_ifs at hmaster
        · obtain ⟨parsed, -, rfl⟩ := Option.map_eq_some_iff.mp hmaster
          exact ⟨rfl, rfl, Or.inr rfl⟩
        · obtain ⟨parsed, -, rfl⟩ := Option.map_eq_some_iff.mp hmaster
          exact ⟨rfl, rfl, Or.inr rfl⟩

theorem packet_userId :
    walk.packet P PGP_TAG_USER_ID body =
      { out := { walk.out with userIds := walk.out.userIds ++ [{ uidText := body }] }
        currentOwnerKind := OWNER_UID
        currentOwnerIndex := walk.out.userIds.length } := by
  rw [packet, if_neg (by decide), if_neg (by decide), if_pos rfl]

theorem packet_subkey :
    walk.packet P PGP_TAG_PUBLIC_SUBKEY body =
      match recordedSubkey P body with
      | none => { walk with currentOwnerKind := OWNER_NONE }
      | some newSubkey =>
        { out := { walk.out with subkeys := walk.out.subkeys ++ [newSubkey] }
          currentOwnerKind := OWNER_SUBKEY
          currentOwnerIndex := walk.out.subkeys.length } := by
  rw [packet, if_neg (by decide), if_pos rfl, recordedSubkey]
  split_ifs
  · rfl
  · rfl

theorem packet_signature :
    walk.packet P PGP_TAG_SIGNATURE body =
      match scanSignatureHashedSubpackets body with
      | none => walk
      | some scan => walk.sign scan := by
  rw [packet, if_neg (by decide), if_neg (by decide), if_neg (by decide)]
  exact if_pos rfl

/-- A packet of any other kind is passed over. -/
theorem packet_other (hkey : tag ≠ PGP_TAG_PUBLIC_KEY) (hsubkey : tag ≠ PGP_TAG_PUBLIC_SUBKEY)
    (huid : tag ≠ PGP_TAG_USER_ID) (hsignature : tag ≠ PGP_TAG_SIGNATURE) :
    walk.packet P tag body = walk := by
  rw [packet, if_neg hkey, if_neg hsubkey, if_neg huid, if_neg hsignature]

/-- What a signature changes: the record of the owner, and nothing else. -/
theorem sign_spec (walk : PeerWalk) (scan : SubpacketScan) :
    (walk.sign scan).currentOwnerKind = walk.currentOwnerKind ∧
      (walk.sign scan).currentOwnerIndex = walk.currentOwnerIndex ∧
      (walk.sign scan).out.haveMaster = walk.out.haveMaster ∧
      (walk.sign scan).out.userIds =
        (if walk.currentOwnerKind = OWNER_UID then
          walk.out.userIds.modify walk.currentOwnerIndex (PgpPeerUserId.signed scan)
        else walk.out.userIds) ∧
      (walk.sign scan).out.subkeys =
        if walk.currentOwnerKind = OWNER_SUBKEY then
          walk.out.subkeys.modify walk.currentOwnerIndex (PgpPeerSubkey.signed scan)
        else walk.out.subkeys := by
  rw [sign]
  cases hkind : walk.currentOwnerKind with
  | OWNER_NONE => simp [hkind]
  | OWNER_MASTER => simp [hkind]
  | OWNER_UID =>
      by_cases htype : scan.signatureType = 0x30
      · have hsigned : PgpPeerUserId.signed scan = fun uid => { uid with isRevoked := true } :=
          funext fun uid => if_pos htype
        simp [htype, hsigned]
      · have hsame : PgpPeerUserId.signed scan = id := funext fun uid => if_neg htype
        simp [hkind, htype, hsame]
  | OWNER_SUBKEY =>
      by_cases hrevoked : scan.signatureType = 0x28
      · have hsigned : PgpPeerSubkey.signed scan = fun subkey => { subkey with isRevoked := true } :=
          funext fun subkey => if_pos hrevoked
        simp [hrevoked, hsigned]
      by_cases hbinding : scan.signatureType = 0x18
      · have hsigned : PgpPeerSubkey.signed scan = fun subkey => subkey.bind scan :=
          funext fun subkey => (if_neg hrevoked).trans (if_pos hbinding)
        simp [hbinding, hsigned]
      · have hsame : PgpPeerSubkey.signed scan = id :=
          funext fun subkey => (if_neg hrevoked).trans (if_neg hbinding)
        simp [hkind, hrevoked, hbinding, hsame]

end PeerWalk

end Packet

/-! ### The owner of a signature -/

/-- The last packet that is not a signature. -/
def nearestPacket (packets : List BlockPacket) : Option BlockPacket :=
  packets.reverse.find? fun packet => packet.1 ≠ PGP_TAG_SIGNATURE

theorem nearestPacket_concat (packets : List BlockPacket) (packet : BlockPacket) :
    nearestPacket (packets ++ [packet]) =
      if packet.1 = PGP_TAG_SIGNATURE then nearestPacket packets else some packet := by
  rw [nearestPacket, List.reverse_append, List.reverse_singleton, List.singleton_append,
    List.find?_cons]
  by_cases htag : packet.1 = PGP_TAG_SIGNATURE
  · simp [htag, nearestPacket]
  · simp [htag]

/-- A kind of packet that the walk passes over. -/
def UnknownTag (tag : UInt8) : Prop :=
  tag ≠ PGP_TAG_PUBLIC_KEY ∧ tag ≠ PGP_TAG_PUBLIC_SUBKEY ∧ tag ≠ PGP_TAG_USER_ID ∧
    tag ≠ PGP_TAG_SIGNATURE

/-- How the owner stands to the packets that have been walked over: it is the last record
of its kind, and the packet of that record, or one that is passed over, is the nearest. -/
structure OwnerStands (P : Primitives) (packets : List BlockPacket) (walk : PeerWalk) : Prop where
  uid_index : walk.currentOwnerKind = OWNER_UID →
    walk.currentOwnerIndex + 1 = walk.out.userIds.length
  subkey_index : walk.currentOwnerKind = OWNER_SUBKEY →
    walk.currentOwnerIndex + 1 = walk.out.subkeys.length
  uid_nearest : walk.currentOwnerKind = OWNER_UID → ∃ packet, nearestPacket packets = some packet ∧
    (packet.1 = PGP_TAG_USER_ID ∨ UnknownTag packet.1)
  subkey_nearest : walk.currentOwnerKind = OWNER_SUBKEY →
    ∃ packet, nearestPacket packets = some packet ∧
      (packet.1 = PGP_TAG_PUBLIC_SUBKEY ∧ recordedSubkey P packet.2 ≠ none ∨ UnknownTag packet.1)

namespace OwnerStands

variable {P : Primitives} {packets : List BlockPacket} {walk : PeerWalk} {tag : UInt8} {body : Bytes}

/-- Where nothing owns what comes next, there is nothing to say. -/
theorem of_none (hkind : walk.currentOwnerKind = OWNER_NONE ∨ walk.currentOwnerKind = OWNER_MASTER) :
    OwnerStands P packets walk := by
  constructor <;> intro h <;> rw [h] at hkind <;> rcases hkind with hkind | hkind <;> cases hkind

theorem signature (h : OwnerStands P packets walk) (body : Bytes) :
    OwnerStands P (packets ++ [(PGP_TAG_SIGNATURE, body)])
      (walk.packet P PGP_TAG_SIGNATURE body) := by
  have hnearest := nearestPacket_concat packets (PGP_TAG_SIGNATURE, body)
  rw [if_pos rfl] at hnearest
  rw [PeerWalk.packet_signature]
  cases scanSignatureHashedSubpackets body with
  | none => exact ⟨h.uid_index, h.subkey_index, hnearest ▸ h.uid_nearest, hnearest ▸ h.subkey_nearest⟩
  | some scan =>
      obtain ⟨hkind, hindex, -, huids, hsubkeys⟩ := walk.sign_spec scan
      have huidsLength : (walk.sign scan).out.userIds.length = walk.out.userIds.length := by
        rw [huids]
        split_ifs <;> simp
      have hsubkeysLength : (walk.sign scan).out.subkeys.length = walk.out.subkeys.length := by
        rw [hsubkeys]
        split_ifs <;> simp
      constructor
      · rw [hkind, hindex, huidsLength]
        exact h.uid_index
      · rw [hkind, hindex, hsubkeysLength]
        exact h.subkey_index
      · rw [hkind, hnearest]
        exact h.uid_nearest
      · rw [hkind, hnearest]
        exact h.subkey_nearest

theorem packet (h : OwnerStands P packets walk) (tag : UInt8) (body : Bytes) :
    OwnerStands P (packets ++ [(tag, body)]) (walk.packet P tag body) := by
  by_cases hsignature : tag = PGP_TAG_SIGNATURE
  · subst hsignature
    exact h.signature body
  have hnearest := nearestPacket_concat packets (tag, body)
  rw [if_neg hsignature] at hnearest
  by_cases hkey : tag = PGP_TAG_PUBLIC_KEY
  · subst hkey
    exact of_none PeerWalk.packet_publicKey.2.2
  by_cases hsubkey : tag = PGP_TAG_PUBLIC_SUBKEY
  · subst hsubkey
    rw [PeerWalk.packet_subkey]
    cases hrecorded : recordedSubkey P body with
    | none => exact of_none (Or.inl rfl)
    | some newSubkey =>
        refine ⟨(nomatch ·), fun _ => by simp, (nomatch ·), fun _ => ⟨_, hnearest, Or.inl ⟨rfl, ?_⟩⟩⟩
        rw [hrecorded]
        exact Option.some_ne_none _
  by_cases huid : tag = PGP_TAG_USER_ID
  · subst huid
    rw [PeerWalk.packet_userId]
    exact ⟨fun _ => by simp, (nomatch ·), fun _ => ⟨_, hnearest, Or.inl rfl⟩, (nomatch ·)⟩
  · have hunknown : UnknownTag tag := ⟨hkey, hsubkey, huid, hsignature⟩
    rw [PeerWalk.packet_other hkey hsubkey huid hsignature]
    exact ⟨h.uid_index, h.subkey_index, fun _ => ⟨_, hnearest, Or.inr hunknown⟩,
      fun _ => ⟨_, hnearest, Or.inr hunknown⟩⟩

end OwnerStands

/-- Induction on the packets, the last one first. -/
theorem ownerStands (P : Primitives) (packets : List BlockPacket) :
    OwnerStands P packets (({} : PeerWalk).packets P packets) := by
  induction packets using List.reverseRecOn with
  | nil => exact .of_none (Or.inl rfl)
  | append_singleton packets packet ih =>
      rw [PeerWalk.packets_concat]
      exact ih.packet packet.1 packet.2

/-! ### Attribution -/

section Attribution

variable (P : Primitives) (binary : Bytes)

/-- A signature changes only the record of the packet it stands behind, with no other
packet than signatures between. -/
def Attributed : Prop :=
  ∀ before body after, blockPackets binary 0 = before ++ (PGP_TAG_SIGNATURE, body) :: after →
    let walk := ({} : PeerWalk).packets P before
    let next := walk.packet P PGP_TAG_SIGNATURE body
    (∀ i : ℕ, next.out.userIds[i]? ≠ walk.out.userIds[i]? →
      i + 1 = walk.out.userIds.length ∧
        ∃ uid, nearestPacket before = some (PGP_TAG_USER_ID, uid)) ∧
    ∀ i : ℕ, next.out.subkeys[i]? ≠ walk.out.subkeys[i]? →
      i + 1 = walk.out.subkeys.length ∧
        ∃ key, nearestPacket before = some (PGP_TAG_PUBLIC_SUBKEY, key) ∧
          recordedSubkey P key ≠ none

/-- Behind a packet of a kind that is passed over, a signature tells the record of the
owner nothing new: it does not revoke what is not revoked yet, nor bind a subkey with other
flags or another expiration. -/
def NothingNewBehindUnknown : Prop :=
  ∀ before body after, blockPackets binary 0 = before ++ (PGP_TAG_SIGNATURE, body) :: after →
    ∀ packet scan, nearestPacket before = some packet → UnknownTag packet.1 →
      scanSignatureHashedSubpackets body = some scan →
        let walk := ({} : PeerWalk).packets P before
        (walk.currentOwnerKind = OWNER_UID →
          ∀ uid ∈ walk.out.userIds[walk.currentOwnerIndex]?,
            scan.signatureType = 0x30 → uid.isRevoked = true) ∧
        (walk.currentOwnerKind = OWNER_SUBKEY →
          ∀ subkey ∈ walk.out.subkeys[walk.currentOwnerIndex]?,
            (scan.signatureType = 0x28 → subkey.isRevoked = true) ∧
              (scan.signatureType = 0x18 → subkey.Bound scan))

variable {P binary}

/-- Only a record that the change makes different is changed. -/
theorem getElem?_modify_ne {α : Type} {xs : List α} {f : α → α} {index i : ℕ}
    (h : (xs.modify index f)[i]? ≠ xs[i]?) : index = i ∧ ∃ x ∈ xs[i]?, f x ≠ x := by
  rw [List.getElem?_modify] at h
  cases hget : xs[i]? with
  | none =>
      rw [hget] at h
      exact absurd rfl h
  | some x =>
      rw [hget] at h
      by_cases hindex : index = i
      · exact ⟨hindex, x, rfl, fun hsame => h (by simp [hindex, hsame])⟩
      · exact absurd (by simp [hindex]) h

/-- What a change makes different, it changes. -/
theorem getElem?_modify_self {α : Type} {xs : List α} {f : α → α} {index : ℕ} {x : α}
    (hget : xs[index]? = some x) (hne : f x ≠ x) : (xs.modify index f)[index]? ≠ xs[index]? := by
  rw [List.getElem?_modify, hget]
  simpa using hne

variable (P binary) in
/-- A signature is attributed as it should be exactly where none behind a packet of an
unknown kind tells the owner anything new. -/
theorem attributed_iff : Attributed P binary ↔ NothingNewBehindUnknown P binary := by
  constructor
  · intro h before body after hsplit packet scan hnearest hunknown hscan
    obtain ⟨huids, hsubkeys⟩ := h before body after hsplit
    have hsign : (({} : PeerWalk).packets P before).packet P PGP_TAG_SIGNATURE body =
        (({} : PeerWalk).packets P before).sign scan := by
      rw [PeerWalk.packet_signature, hscan]
    obtain ⟨-, -, -, huidsEq, hsubkeysEq⟩ := (({} : PeerWalk).packets P before).sign_spec scan
    refine ⟨fun hkind uid hget => ?_, fun hkind subkey hget => ?_⟩
    · rw [← uid.signed_eq_self_iff]
      by_contra hne
      rw [if_pos hkind] at huidsEq
      obtain ⟨-, uid', hnearest'⟩ := huids _ (by
        rw [hsign, huidsEq]
        exact getElem?_modify_self hget hne)
      obtain rfl := Option.some.inj (hnearest.symm.trans hnearest')
      exact hunknown.2.2.1 rfl
    · rw [← subkey.signed_eq_self_iff]
      by_contra hne
      rw [if_pos hkind] at hsubkeysEq
      obtain ⟨-, key, hnearest', -⟩ := hsubkeys _ (by
        rw [hsign, hsubkeysEq]
        exact getElem?_modify_self hget hne)
      obtain rfl := Option.some.inj (hnearest.symm.trans hnearest')
      exact hunknown.2.1 rfl
  · intro h before body after hsplit
    have hstands := ownerStands P before
    have hquiet := h before body after hsplit
    dsimp only at hquiet ⊢
    rw [PeerWalk.packet_signature]
    cases hscan : scanSignatureHashedSubpackets body with
    | none => exact ⟨fun i hne => absurd rfl hne, fun i hne => absurd rfl hne⟩
    | some scan =>
        obtain ⟨-, -, -, huidsEq, hsubkeysEq⟩ := (({} : PeerWalk).packets P before).sign_spec scan
        refine ⟨fun i hne => ?_, fun i hne => ?_⟩
        · rw [huidsEq] at hne
          split_ifs at hne with hkind
          · obtain ⟨rfl, uid, hget, hchanged⟩ := getElem?_modify_ne hne
            obtain ⟨⟨tag, text⟩, hnearest, rfl | hunknown⟩ := hstands.uid_nearest hkind
            · exact ⟨hstands.uid_index hkind, text, hnearest⟩
            · have hknown := (hquiet _ scan hnearest hunknown hscan).1 hkind uid hget
              exact absurd ((uid.signed_eq_self_iff scan).mpr hknown) hchanged
          · exact absurd rfl hne
        · rw [hsubkeysEq] at hne
          split_ifs at hne with hkind
          · obtain ⟨rfl, subkey, hget, hchanged⟩ := getElem?_modify_ne hne
            obtain ⟨⟨tag, key⟩, hnearest, ⟨rfl, hrecorded⟩ | hunknown⟩ := hstands.subkey_nearest hkind
            · exact ⟨hstands.subkey_index hkind, key, hnearest, hrecorded⟩
            · have hknown := (hquiet _ scan hnearest hunknown hscan).2 hkind subkey hget
              exact absurd ((subkey.signed_eq_self_iff scan).mpr hknown) hchanged
          · exact absurd rfl hne

end Attribution

/-- An RSA key with a modulus of 16 bits, made at time 1. -/
def smallKeyBody : Bytes := [4, 0, 0, 0, 1, 1, 0, 16, 0xC3, 0x51, 0, 5, 17]

/-- A key, its user ID, a user attribute, and the revocation of that attribute. -/
def attributeBlock : Bytes :=
  writePacket PGP_TAG_PUBLIC_KEY smallKeyBody ++
    (writePacket PGP_TAG_USER_ID (ascii "alice") ++
      (writePacket 17 [1] ++ writePacket PGP_TAG_SIGNATURE [4, 0x30, 1, 8, 0, 0]))

/-- The block is accepted, and the user ID counts as revoked. -/
theorem attributeBlock_misattributed :
    (parsePeerPublicKeyBlock standIn 0 attributeBlock).isSome = true ∧
      ¬ Attributed standIn attributeBlock := by
  refine ⟨by decide +kernel, fun h => ?_⟩
  obtain ⟨-, uid, hnearest⟩ := (h
    [(PGP_TAG_PUBLIC_KEY, smallKeyBody), (PGP_TAG_USER_ID, ascii "alice"), (17, [1])]
    [4, 0x30, 1, 8, 0, 0] [] (by decide +kernel)).1 0 (by decide +kernel)
  cases hnearest

end HashCryptoLib.Pgp
