import HashCryptoLib.Pgp.Export
import HashCryptoLib.Pgp.PeerBlock
import Mathlib.Data.List.TakeWhile

/-!
Which identity an imported block is. Its first primary key packet says that, and
the user IDs and subkeys up to the next primary key packet are its own; but the
walk records those of every key in the block, and a message may then be encrypted
to a subkey of another identity.
-/

namespace HashCryptoLib.Pgp

open BigEndian Cursor

/-! ### The identities in a block -/

def notPrimaryKey (packet : BlockPacket) : Bool := packet.1 ≠ PGP_TAG_PUBLIC_KEY

/-- What stands before the first primary key packet. -/
def leadingPackets (packets : List BlockPacket) : List BlockPacket :=
  packets.takeWhile notPrimaryKey

/-- The first primary key packet, and what stands between it and the next. -/
def firstIdentity (packets : List BlockPacket) : List BlockPacket :=
  (packets.dropWhile notPrimaryKey).take 1 ++
    ((packets.dropWhile notPrimaryKey).drop 1).takeWhile notPrimaryKey

/-- The second primary key packet, and all behind it. -/
def furtherPackets (packets : List BlockPacket) : List BlockPacket :=
  ((packets.dropWhile notPrimaryKey).drop 1).dropWhile notPrimaryKey

theorem identities_split (packets : List BlockPacket) :
    leadingPackets packets ++ (firstIdentity packets ++ furtherPackets packets) = packets := by
  rw [firstIdentity, furtherPackets, List.append_assoc, List.takeWhile_append_dropWhile,
    List.take_append_drop, leadingPackets, List.takeWhile_append_dropWhile]

theorem furtherPackets_head {packets rest : List BlockPacket} {packet : BlockPacket}
    (h : furtherPackets packets = packet :: rest) : packet.1 = PGP_TAG_PUBLIC_KEY := by
  have hhead := List.head?_dropWhile_not notPrimaryKey
    ((packets.dropWhile notPrimaryKey).drop 1)
  rw [← furtherPackets, h, List.head?_cons] at hhead
  simpa [notPrimaryKey] using hhead

/-- A user ID packet becomes a record. -/
def IsUserId (packet : BlockPacket) : Prop := packet.1 = PGP_TAG_USER_ID

/-- A subkey packet that can be read becomes a record. -/
def IsSubkey (P : Primitives) (packet : BlockPacket) : Prop :=
  packet.1 = PGP_TAG_PUBLIC_SUBKEY ∧ recordedSubkey P packet.2 ≠ none

instance : DecidablePred IsUserId := fun packet => inferInstanceAs (Decidable (packet.1 = _))

instance (P : Primitives) : DecidablePred (IsSubkey P) :=
  fun packet => inferInstanceAs (Decidable (packet.1 = _ ∧ recordedSubkey P packet.2 ≠ none))

/-! ### One block behind another -/

section Shift

variable {data rest : Bytes} {pos : ℕ}

theorem readOctets_shift (h : At data pos rest) (k n : ℕ) :
    readOctets data (pos + k) n = readOctets rest k n := by
  rw [readOctets, readOctets, h.length_eq, ← List.drop_drop, h.drop_eq]
  by_cases hle : k + n ≤ rest.length
  · rw [if_pos hle, if_pos (by omega)]
  · rw [if_neg hle, if_neg (by omega)]

/-- A header is read from what stands ahead. -/
theorem readPacketHeader_shift (h : At data pos rest) (k : ℕ) (acceptPartial : Bool) :
    readPacketHeader data (pos + k) none acceptPartial =
      (readPacketHeader rest k none acceptPartial).map fun header =>
        { header with bodyPos := pos + header.bodyPos } := by
  have hget (i : ℕ) : data[pos + k + i]? = rest[k + i]? := by
    rw [Nat.add_assoc, h.getElem?_eq]
  have hread (i n : ℕ) : readOctets data (pos + k + i) n = readOctets rest (k + i) n := by
    rw [Nat.add_assoc, readOctets_shift h]
  have hfirst := hget 0
  have hover : pos + k + 1 > data.length ↔ k + 1 > rest.length := by
    rw [h.length_eq]
    omega
  have hleft : data.length - (pos + k + 1) = rest.length - (k + 1) := by
    rw [h.length_eq]
    omega
  simp only [Nat.add_zero] at hfirst
  simp only [readPacketHeader, hfirst, hget, hread, Option.getD_none, hover, hleft]
  cases rest[k]? with
  | none => rfl
  | some first =>
      cases rest[k + 1]? with
      | none =>
          dsimp only
          split_ifs <;> simp [Function.comp_def, Nat.add_assoc]
      | some lenFirst =>
          dsimp only
          split_ifs <;> simp [Function.comp_def, Nat.add_assoc]

/-- So are the packets behind it. -/
theorem blockPackets_shift (h : At data pos rest) (k : ℕ) :
    blockPackets data (pos + k) = blockPackets rest k := by
  have hlength := h.length_eq
  fun_induction blockPackets rest k with
  | case1 k hlt hhead =>
      have hshift := readPacketHeader_shift h k false
      rw [hhead, Option.map_none] at hshift
      rw [blockPackets_stop hshift]
  | case2 k hlt header hhead hread =>
      have hshift := readPacketHeader_shift h k false
      rw [hhead, Option.map_some] at hshift
      rw [blockPackets_cut hshift (by rw [readOctets_shift h, hread])]
  | case3 k hlt header hhead body hread ih =>
      have hshift := readPacketHeader_shift h k false
      rw [hhead, Option.map_some] at hshift
      rw [blockPackets_cons hshift (by rw [readOctets_shift h, hread]), Nat.add_assoc, ih]
  | case4 k hlt => rw [blockPackets_end (by omega)]

/-- A stream of packets with definite lengths, and whatever stands behind it. -/
theorem blockPackets_streamOf (packets : List FramedPacket) (rest : Bytes)
    (hwhole : ∀ packet ∈ packets, ¬ packet.IsPartial) :
    blockPackets (streamOf packets ++ rest) 0 =
      packets.map FramedPacket.content ++ blockPackets rest 0 := by
  induction packets with
  | nil => rfl
  | cons packet packets ih =>
      have hstream : streamOf (packet :: packets) ++ rest =
          packet.octets ++ (streamOf packets ++ rest) := by
        rw [streamOf, List.map_cons, List.flatten_cons, List.append_assoc]
        rfl
      have hat := at_zero (packet.octets ++ (streamOf packets ++ rest))
      obtain ⟨bodyPos, hread, hbody, hnext⟩ :=
        FramedPacket.readPacketHeader_octets (hwhole packet List.mem_cons_self) hat
      have hbehind : At (packet.octets ++ (streamOf packets ++ rest)) (bodyPos + packet.body.length)
          (streamOf packets ++ rest) := hbody.advance
      have htail := blockPackets_shift hbehind 0
      rw [Nat.add_zero] at htail
      rw [hstream, blockPackets_cons (hread none false) (readOctets_of_at hbody), htail,
        ih fun other hmem => hwhole other (.tail _ hmem)]
      rfl

end Shift

/-! ### What is recorded -/

namespace PeerWalk

variable {P : Primitives} {walk : PeerWalk} {packets : List BlockPacket}

/-- What one packet does to the records: a new one at the end, or none is added. -/
theorem packet_records (walk : PeerWalk) (packet : BlockPacket) :
    (walk.packet P packet.1 packet.2).out.userIds.length =
        walk.out.userIds.length + (if IsUserId packet then 1 else 0) ∧
      (walk.packet P packet.1 packet.2).out.subkeys.length =
        walk.out.subkeys.length + if IsSubkey P packet then 1 else 0 := by
  obtain ⟨tag, body⟩ := packet
  have hone {kind : Prop} [Decidable kind] (n : ℕ) (h : kind) : n + 1 = n + if kind then 1 else 0 :=
    by rw [if_pos h]
  have hnone {kind : Prop} [Decidable kind] (n : ℕ) (h : ¬ kind) : n = n + if kind then 1 else 0 :=
    by rw [if_neg h, Nat.add_zero]
  by_cases hkey : tag = PGP_TAG_PUBLIC_KEY
  · subst hkey
    obtain ⟨huids, hsubkeys, -⟩ := @packet_publicKey P walk body
    rw [huids, hsubkeys]
    exact ⟨hnone _ (nomatch ·), hnone _ (nomatch ·.1)⟩
  by_cases hsubkey : tag = PGP_TAG_PUBLIC_SUBKEY
  · subst hsubkey
    dsimp only
    rw [packet_subkey]
    cases hrecorded : recordedSubkey P body with
    | none => exact ⟨hnone _ (nomatch ·), hnone _ fun h => h.2 hrecorded⟩
    | some newSubkey =>
        refine ⟨hnone _ (nomatch ·), ?_⟩
        rw [List.length_append, List.length_singleton]
        exact hone _ ⟨rfl, by rw [hrecorded]; exact Option.some_ne_none _⟩
  by_cases huid : tag = PGP_TAG_USER_ID
  · subst huid
    dsimp only
    rw [packet_userId]
    refine ⟨?_, hnone _ (nomatch ·.1)⟩
    rw [List.length_append, List.length_singleton]
    exact hone _ rfl
  have hother : ¬ IsUserId (tag, body) ∧ ¬ IsSubkey P (tag, body) := ⟨huid, fun h => hsubkey h.1⟩
  by_cases hsignature : tag = PGP_TAG_SIGNATURE
  · subst hsignature
    dsimp only
    rw [packet_signature]
    cases scanSignatureHashedSubpackets body with
    | none => exact ⟨hnone _ hother.1, hnone _ hother.2⟩
    | some scan =>
        obtain ⟨-, -, -, huids, hsubkeys⟩ := walk.sign_spec scan
        dsimp only
        rw [huids, hsubkeys, if_neg hother.1, if_neg hother.2]
        constructor
        · split_ifs <;> simp
        · split_ifs <;> simp
  · dsimp only
    rw [packet_other hkey hsubkey huid hsignature]
    exact ⟨hnone _ hother.1, hnone _ hother.2⟩

theorem packets_records (walk : PeerWalk) (packets : List BlockPacket) :
    (walk.packets P packets).out.userIds.length =
        walk.out.userIds.length + packets.countP (fun packet => IsUserId packet) ∧
      (walk.packets P packets).out.subkeys.length =
        walk.out.subkeys.length + packets.countP (fun packet => IsSubkey P packet) := by
  induction packets generalizing walk with
  | nil => exact ⟨rfl, rfl⟩
  | cons packet packets ih =>
      obtain ⟨huids, hsubkeys⟩ := ih (walk.packet P packet.1 packet.2)
      obtain ⟨huids', hsubkeys'⟩ := walk.packet_records (P := P) packet
      rw [packets_cons, huids, hsubkeys, huids', hsubkeys', List.countP_cons, List.countP_cons]
      simp only [decide_eq_true_eq]
      exact ⟨by omega, by omega⟩

/-- While no user ID is the owner and none comes, the user IDs stay. -/
theorem packet_userIds {packet : BlockPacket} (hkind : walk.currentOwnerKind ≠ OWNER_UID)
    (h : ¬ IsUserId packet) :
    (walk.packet P packet.1 packet.2).currentOwnerKind ≠ OWNER_UID ∧
      (walk.packet P packet.1 packet.2).out.userIds = walk.out.userIds := by
  obtain ⟨tag, body⟩ := packet
  by_cases hkey : tag = PGP_TAG_PUBLIC_KEY
  · subst hkey
    obtain ⟨huids, -, hnone | hmaster⟩ := @packet_publicKey P walk body
    · exact ⟨by rw [hnone]; decide, huids⟩
    · exact ⟨by rw [hmaster]; decide, huids⟩
  by_cases hsubkey : tag = PGP_TAG_PUBLIC_SUBKEY
  · subst hsubkey
    dsimp only
    rw [packet_subkey]
    cases recordedSubkey P body with
    | none => exact ⟨(nomatch ·), rfl⟩
    | some newSubkey => exact ⟨(nomatch ·), rfl⟩
  by_cases hsignature : tag = PGP_TAG_SIGNATURE
  · subst hsignature
    dsimp only
    rw [packet_signature]
    cases scanSignatureHashedSubpackets body with
    | none => exact ⟨hkind, rfl⟩
    | some scan =>
        obtain ⟨hkind', -, -, huids, -⟩ := walk.sign_spec scan
        rw [if_neg hkind] at huids
        exact ⟨by rw [hkind']; exact hkind, huids⟩
  · dsimp only
    rw [packet_other hkey hsubkey h hsignature]
    exact ⟨hkind, rfl⟩

theorem packets_userIds (hkind : walk.currentOwnerKind ≠ OWNER_UID)
    (h : ∀ packet ∈ packets, ¬ IsUserId packet) :
    (walk.packets P packets).out.userIds = walk.out.userIds := by
  induction packets generalizing walk with
  | nil => rfl
  | cons packet packets ih =>
      obtain ⟨hkind', hsame⟩ := packet_userIds (P := P) hkind (h packet List.mem_cons_self)
      rw [packets_cons, ih hkind' fun other hmem => h other (List.mem_cons_of_mem _ hmem), hsame]

/-- While no subkey is the owner and none comes, the subkeys stay. -/
theorem packet_subkeys {packet : BlockPacket} (hkind : walk.currentOwnerKind ≠ OWNER_SUBKEY)
    (h : ¬ IsSubkey P packet) :
    (walk.packet P packet.1 packet.2).currentOwnerKind ≠ OWNER_SUBKEY ∧
      (walk.packet P packet.1 packet.2).out.subkeys = walk.out.subkeys := by
  obtain ⟨tag, body⟩ := packet
  by_cases hkey : tag = PGP_TAG_PUBLIC_KEY
  · subst hkey
    obtain ⟨-, hsubkeys, hnone | hmaster⟩ := @packet_publicKey P walk body
    · exact ⟨by rw [hnone]; decide, hsubkeys⟩
    · exact ⟨by rw [hmaster]; decide, hsubkeys⟩
  by_cases hsubkey : tag = PGP_TAG_PUBLIC_SUBKEY
  · subst hsubkey
    dsimp only
    rw [packet_subkey]
    cases hrecorded : recordedSubkey P body with
    | none => exact ⟨(nomatch ·), rfl⟩
    | some newSubkey => exact absurd ⟨rfl, by rw [hrecorded]; exact Option.some_ne_none _⟩ h
  by_cases huid : tag = PGP_TAG_USER_ID
  · subst huid
    dsimp only
    rw [packet_userId]
    exact ⟨(nomatch ·), rfl⟩
  by_cases hsignature : tag = PGP_TAG_SIGNATURE
  · subst hsignature
    dsimp only
    rw [packet_signature]
    cases scanSignatureHashedSubpackets body with
    | none => exact ⟨hkind, rfl⟩
    | some scan =>
        obtain ⟨hkind', -, -, -, hsubkeys⟩ := walk.sign_spec scan
        rw [if_neg hkind] at hsubkeys
        exact ⟨by rw [hkind']; exact hkind, hsubkeys⟩
  · dsimp only
    rw [packet_other hkey hsubkey huid hsignature]
    exact ⟨hkind, rfl⟩

theorem packets_subkeys (hkind : walk.currentOwnerKind ≠ OWNER_SUBKEY)
    (h : ∀ packet ∈ packets, ¬ IsSubkey P packet) :
    (walk.packets P packets).out.subkeys = walk.out.subkeys := by
  induction packets generalizing walk with
  | nil => rfl
  | cons packet packets ih =>
      obtain ⟨hkind', hsame⟩ := packet_subkeys hkind (h packet List.mem_cons_self)
      rw [packets_cons, ih hkind' fun other hmem => h other (List.mem_cons_of_mem _ hmem), hsame]

end PeerWalk

/-! ### One identity -/

section Identity

variable (P : Primitives) (now : UInt32)

/-- What an accepted block gives, its first identity gives. -/
def OneIdentity (binary : Bytes) : Prop :=
  ∀ parsed, parsePeerPublicKeyBlock P now binary = some parsed →
    let own := ({} : PeerWalk).packets P (firstIdentity (blockPackets binary 0))
    parsed.userIds = own.out.userIds ∧ parsed.subkeys = own.out.subkeys

/-- No user ID and no readable subkey stands outside of the first identity. -/
def NothingOutside (binary : Bytes) : Prop :=
  ∀ packet ∈ leadingPackets (blockPackets binary 0) ++ furtherPackets (blockPackets binary 0),
    ¬ IsUserId packet ∧ ¬ IsSubkey P packet

/-- The subkeys that messages may be encrypted to are those of the block in front. -/
def AddsNoSubkey (binary other : Bytes) : Prop :=
  ∀ parsed parsed', parsePeerPublicKeyBlock P now binary = some parsed →
    parsePeerPublicKeyBlock P now (binary ++ other) = some parsed' →
      parsed'.subkeys = parsed.subkeys

variable {P now}

theorem parsePeerPublicKeyBlock_lists {binary : Bytes} {parsed : ParsedPeerPublicKeyBlock}
    (h : parsePeerPublicKeyBlock P now binary = some parsed) :
    parsed.userIds = (({} : PeerWalk).packets P (blockPackets binary 0)).out.userIds ∧
      parsed.subkeys = (({} : PeerWalk).packets P (blockPackets binary 0)).out.subkeys := by
  rw [parsePeerPublicKeyBlock, walkPeerBlock_eq] at h
  split_ifs at h
  obtain rfl := Option.some.inj h
  obtain ⟨-, -, -, -, -, -, huids, hsubkeys⟩ :=
    chooseSubkey_kept (({} : PeerWalk).packets P (blockPackets binary 0)).out now
  exact ⟨huids, hsubkeys⟩

/-- Before the first key, nothing is recorded that is not a user ID or a subkey. -/
theorem packets_leading {packets : List BlockPacket}
    (h : ∀ packet ∈ packets, packet.1 ≠ PGP_TAG_PUBLIC_KEY ∧ ¬ IsUserId packet ∧
      ¬ IsSubkey P packet) : ({} : PeerWalk).packets P packets = {} := by
  induction packets with
  | nil => rfl
  | cons packet packets ih =>
      obtain ⟨tag, body⟩ := packet
      obtain ⟨hkey, huid, hsubkey⟩ := h _ List.mem_cons_self
      have hsame : ({} : PeerWalk).packet P tag body = {} := by
        by_cases htag : tag = PGP_TAG_PUBLIC_SUBKEY
        · subst htag
          rw [PeerWalk.packet_subkey]
          cases hrecorded : recordedSubkey P body with
          | none => rfl
          | some newSubkey =>
              exact absurd ⟨rfl, by rw [hrecorded]; exact Option.some_ne_none _⟩ hsubkey
        by_cases hsignature : tag = PGP_TAG_SIGNATURE
        · subst hsignature
          rw [PeerWalk.packet_signature]
          cases scanSignatureHashedSubpackets body with
          | none => rfl
          | some scan => simp [PeerWalk.sign]
        · exact PeerWalk.packet_other hkey htag huid hsignature
      rw [PeerWalk.packets_cons]
      show (({} : PeerWalk).packet P tag body).packets P packets = {}
      rw [hsame]
      exact ih fun other hmem => h other (List.mem_cons_of_mem _ hmem)

theorem packet_haveMaster {walk : PeerWalk} (h : walk.out.haveMaster = true) (tag : UInt8)
    (body : Bytes) : (walk.packet P tag body).out.haveMaster = true := by
  by_cases hkey : tag = PGP_TAG_PUBLIC_KEY
  · rw [PeerWalk.packet, if_pos hkey, if_pos (Or.inl h)]
    exact h
  by_cases hsubkey : tag = PGP_TAG_PUBLIC_SUBKEY
  · subst hsubkey
    rw [PeerWalk.packet_subkey]
    cases recordedSubkey P body <;> exact h
  by_cases huid : tag = PGP_TAG_USER_ID
  · subst huid
    rw [PeerWalk.packet_userId]
    exact h
  by_cases hsignature : tag = PGP_TAG_SIGNATURE
  · subst hsignature
    rw [PeerWalk.packet_signature]
    cases scanSignatureHashedSubpackets body with
    | none => exact h
    | some scan => exact (walk.sign_spec scan).2.2.1.trans h
  · rw [PeerWalk.packet_other hkey hsubkey huid hsignature]
    exact h

theorem packets_haveMaster {walk : PeerWalk} (h : walk.out.haveMaster = true)
    (packets : List BlockPacket) : (walk.packets P packets).out.haveMaster = true := by
  induction packets generalizing walk with
  | nil => exact h
  | cons packet packets ih => exact ih (packet_haveMaster h packet.1 packet.2)

/-- Behind a primary key packet, what holds no record adds none and changes none. -/
theorem packets_behindKey {walk : PeerWalk} {packets : List BlockPacket}
    (hfirst : ∀ packet ∈ packets.head?, packet.1 = PGP_TAG_PUBLIC_KEY) :
    ((∀ packet ∈ packets, ¬ IsUserId packet) →
        (walk.packets P packets).out.userIds = walk.out.userIds) ∧
      ((∀ packet ∈ packets, ¬ IsSubkey P packet) →
        (walk.packets P packets).out.subkeys = walk.out.subkeys) := by
  cases packets with
  | nil => exact ⟨fun _ => rfl, fun _ => rfl⟩
  | cons packet packets =>
      obtain ⟨tag, body⟩ := packet
      obtain rfl : tag = PGP_TAG_PUBLIC_KEY := hfirst _ rfl
      obtain ⟨huids, hsubkeys, howner⟩ := @PeerWalk.packet_publicKey P walk body
      rw [PeerWalk.packets_cons]
      refine ⟨fun hnone => ?_, fun hnone => ?_⟩
      · refine (PeerWalk.packets_userIds ?_ fun other hmem => hnone other (.tail _ hmem)).trans huids
        dsimp only
        rcases howner with howner | howner <;> rw [howner] <;> decide
      · refine (PeerWalk.packets_subkeys ?_ fun other hmem => hnone other (.tail _ hmem)).trans
          hsubkeys
        dsimp only
        rcases howner with howner | howner <;> rw [howner] <;> decide

theorem oneIdentity_iff_nothingOutside (binary : Bytes) :
    OneIdentity P now binary ↔
      ((parsePeerPublicKeyBlock P now binary).isSome = true → NothingOutside P binary) := by
  have hsplit := identities_split (blockPackets binary 0)
  constructor
  · intro hone haccepted
    obtain ⟨parsed, hparsed⟩ := Option.isSome_iff_exists.mp haccepted
    obtain ⟨huids, hsubkeys⟩ := hone parsed hparsed
    obtain ⟨huids', hsubkeys'⟩ := parsePeerPublicKeyBlock_lists hparsed
    -- both lists are counted on the whole and on the first identity
    have hwhole := ({} : PeerWalk).packets_records (P := P) (blockPackets binary 0)
    have hown := ({} : PeerWalk).packets_records (P := P) (firstIdentity (blockPackets binary 0))
    rw [← huids', ← hsubkeys', huids, hsubkeys, hown.1, hown.2, ← hsplit, List.countP_append,
      List.countP_append, List.countP_append, List.countP_append] at hwhole
    intro packet hmem
    have hnone (kind : BlockPacket → Prop) [DecidablePred kind]
        (hleading : (leadingPackets (blockPackets binary 0)).countP (fun packet => kind packet) = 0)
        (hfurther : (furtherPackets (blockPackets binary 0)).countP (fun packet => kind packet) = 0) :
        ¬ kind packet := by
      rcases List.mem_append.mp hmem with hmem | hmem
      · simpa using List.countP_eq_zero.mp hleading packet hmem
      · simpa using List.countP_eq_zero.mp hfurther packet hmem
    rw [hsplit] at hwhole
    exact ⟨hnone _ (by omega) (by omega), hnone _ (by omega) (by omega)⟩
  · intro hnothing parsed hparsed
    have houtside := hnothing (by rw [hparsed]; rfl)
    obtain ⟨huids, hsubkeys⟩ := parsePeerPublicKeyBlock_lists hparsed
    have hleading : ({} : PeerWalk).packets P (leadingPackets (blockPackets binary 0)) = {} := by
      refine packets_leading fun packet hmem => ⟨?_, houtside packet (List.mem_append_left _ hmem)⟩
      simpa [notPrimaryKey] using List.mem_takeWhile_imp hmem
    have hkey : ∀ packet ∈ (furtherPackets (blockPackets binary 0)).head?,
        packet.1 = PGP_TAG_PUBLIC_KEY := fun packet hhead => by
      obtain ⟨rest, hrest⟩ := List.head?_eq_some_iff.mp hhead
      exact furtherPackets_head hrest
    have hfurther := @packets_behindKey P
      (({} : PeerWalk).packets P (firstIdentity (blockPackets binary 0))) _ hkey
    have hwalk : ({} : PeerWalk).packets P (blockPackets binary 0) =
        (({} : PeerWalk).packets P (firstIdentity (blockPackets binary 0))).packets P
          (furtherPackets (blockPackets binary 0)) := by
      rw [← PeerWalk.packets_append, ← congrArg (({} : PeerWalk).packets P) hsplit,
        PeerWalk.packets_append, hleading]
    rw [huids, hsubkeys, hwalk]
    exact ⟨hfurther.1 fun packet hmem => (houtside packet (List.mem_append_right _ hmem)).1,
      hfurther.2 fun packet hmem => (houtside packet (List.mem_append_right _ hmem)).2⟩

/-- What a second block adds. -/
theorem addsNoSubkey_iff {packets : List FramedPacket} {other : Bytes}
    (hwhole : ∀ packet ∈ packets, ¬ packet.IsPartial)
    (haccepted : (parsePeerPublicKeyBlock P now (streamOf packets)).isSome = true)
    (hkey : ∀ packet ∈ (blockPackets other 0).head?, packet.1 = PGP_TAG_PUBLIC_KEY) :
    AddsNoSubkey P now (streamOf packets) other ↔
      ∀ packet ∈ blockPackets other 0, ¬ IsSubkey P packet := by
  have hfront := blockPackets_streamOf packets [] hwhole
  have hboth := blockPackets_streamOf packets other hwhole
  have hempty : blockPackets [] 0 = [] := by rw [blockPackets, if_neg (by simp)]
  rw [List.append_nil, hempty, List.append_nil] at hfront
  have hwalk : ({} : PeerWalk).packets P (blockPackets (streamOf packets ++ other) 0) =
      (({} : PeerWalk).packets P (blockPackets (streamOf packets) 0)).packets P
        (blockPackets other 0) := by
    rw [hboth, hfront, PeerWalk.packets_append]
  obtain ⟨parsed, hparsed⟩ := Option.isSome_iff_exists.mp haccepted
  obtain ⟨-, hsubkeys⟩ := parsePeerPublicKeyBlock_lists hparsed
  constructor
  · intro hadds
    have hmaster : (({} : PeerWalk).packets P (blockPackets (streamOf packets) 0)).out.haveMaster =
        true := by
      rw [parsePeerPublicKeyBlock, walkPeerBlock_eq] at hparsed
      split_ifs at hparsed with hnone
      exact Bool.of_not_eq_false hnone
    have hmaster' := packets_haveMaster (P := P) hmaster (blockPackets other 0)
    rw [← hwalk] at hmaster'
    have hparsed' : parsePeerPublicKeyBlock P now (streamOf packets ++ other) =
        some ((({} : PeerWalk).packets P
          (blockPackets (streamOf packets ++ other) 0)).out.chooseSubkey now) := by
      rw [parsePeerPublicKeyBlock, walkPeerBlock_eq]
      exact if_neg (by rw [hmaster']; decide)
    obtain ⟨-, hsubkeys'⟩ := parsePeerPublicKeyBlock_lists hparsed'
    have hsame := hadds _ _ hparsed hparsed'
    have hcount := (({} : PeerWalk).packets P (blockPackets (streamOf packets) 0)).packets_records
      (P := P) (blockPackets other 0)
    rw [← hwalk, ← hsubkeys', hsame, hsubkeys] at hcount
    intro packet hmem
    have hzero : (blockPackets other 0).countP (fun packet => IsSubkey P packet) = 0 := by omega
    simpa using List.countP_eq_zero.mp hzero packet hmem
  · intro hnone parsed₁ parsed' h₁ h'
    obtain ⟨-, hsubkeys₁⟩ := parsePeerPublicKeyBlock_lists h₁
    obtain ⟨-, hsubkeys'⟩ := parsePeerPublicKeyBlock_lists h'
    rw [hsubkeys', hsubkeys₁, hwalk]
    exact (packets_behindKey hkey).2 hnone

variable (P now) in
/-- A block is one identity exactly where nothing is recorded outside of its first one; and a
key block behind another adds no subkey exactly where it holds none. -/
theorem oneIdentity_iff :
    (∀ binary, OneIdentity P now binary ↔
      ((parsePeerPublicKeyBlock P now binary).isSome = true → NothingOutside P binary)) ∧
    ∀ packets other, (∀ packet ∈ packets, ¬ packet.IsPartial) →
      (parsePeerPublicKeyBlock P now (streamOf packets)).isSome = true →
      (∀ packet ∈ (blockPackets other 0).head?, packet.1 = PGP_TAG_PUBLIC_KEY) →
        (AddsNoSubkey P now (streamOf packets) other ↔
          ∀ packet ∈ blockPackets other 0, ¬ IsSubkey P packet) :=
  ⟨oneIdentity_iff_nothingOutside, fun _ _ => addsNoSubkey_iff⟩

end Identity

/-! ### Two blocks in one -/

/-- A key of another owner, with a modulus of 16 bits, made at time 2. -/
def otherKeyBody : Bytes := [4, 0, 0, 0, 2, 1, 0, 16, 0xD3, 0x61, 0, 5, 17]

/-- A key, its user ID and its subkey, made when the key was made. -/
def smallBlock (keyBody : Bytes) (name : Bytes) : Bytes :=
  writePacket PGP_TAG_PUBLIC_KEY keyBody ++
    (writePacket PGP_TAG_USER_ID name ++ writePacket PGP_TAG_PUBLIC_SUBKEY keyBody)

/-- Two blocks in one: the key is that of the first, and what is encrypted goes to the
subkey of the second. -/
theorem smallBlock_joined :
    (parsePeerPublicKeyBlock standIn 10 (smallBlock smallKeyBody (ascii "alice") ++
        smallBlock otherKeyBody (ascii "bob"))).map
        (fun parsed => (parsed.masterRsaKey, parsed.recipient.rsaPublicKey)) =
        some (⟨0xC351, 17⟩, ⟨0xD361, 17⟩) ∧
      ¬ OneIdentity standIn 10 (smallBlock smallKeyBody (ascii "alice") ++
        smallBlock otherKeyBody (ascii "bob")) := by
  refine ⟨by decide +kernel, fun hone => ?_⟩
  obtain ⟨parsed, hparsed⟩ := Option.isSome_iff_exists.mp
    (show (parsePeerPublicKeyBlock standIn 10 (smallBlock smallKeyBody (ascii "alice") ++
      smallBlock otherKeyBody (ascii "bob"))).isSome = true by decide +kernel)
  obtain ⟨huids, -⟩ := hone parsed hparsed
  obtain ⟨huids', -⟩ := parsePeerPublicKeyBlock_lists hparsed
  rw [huids'] at huids
  revert huids
  decide +kernel

/-- A lone key, as a packet. -/
def smallKeyPacket : FramedPacket where
  tag := PGP_TAG_PUBLIC_KEY
  body := smallKeyBody
  framing := .newFormat .oneOctet
  legal := ⟨by decide, show smallKeyBody.length < 192 by decide⟩

theorem oneIdentity_iff_smallKey :
    AddsNoSubkey standIn 10 (streamOf [smallKeyPacket]) (smallBlock otherKeyBody (ascii "bob")) ↔
      ∀ packet ∈ blockPackets (smallBlock otherKeyBody (ascii "bob")) 0,
        ¬ IsSubkey standIn packet :=
  (oneIdentity_iff standIn 10).2 [smallKeyPacket] _ (by decide) (by decide +kernel)
    (by decide +kernel)

end HashCryptoLib.Pgp
