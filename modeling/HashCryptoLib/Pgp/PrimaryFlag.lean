import HashCryptoLib.Pgp.Framing
import HashCryptoLib.Pgp.OwnState
import HashCryptoLib.Pgp.StandIn

/-!
The Primary User ID flag on the wire. `SetPrimaryUserId` certifies its target
with the flag and moves the in-memory mark, but leaves the certification of the
user ID that had the mark before as it is. The exported block therefore carries
the flag once, and at the user ID that is reported primary, only while the mark
is never taken from a user ID whose certification has the flag.
-/

namespace HashCryptoLib.Pgp

open BigEndian Cursor

/-! ### The flag in a packet sequence -/

/-- A self-certification that carries the Primary User ID flag. -/
def carriesPrimaryFlag (body : Bytes) : Bool :=
  body[1]? = some 0x13 ∧ ∃ subpacket ∈ hashedSubpackets body, subpacket = (25, [1])

/-- For each user ID of a packet sequence, whether one of the signatures behind
it is a self-certification that carries the flag. -/
def primaryFlags : List (UInt8 × Bytes) → List Bool
  | [] => []
  | packet :: packets =>
    if packet.1 = PGP_TAG_USER_ID then
      (packets.takeWhile fun other => other.1 = PGP_TAG_SIGNATURE).any
        (fun other => carriesPrimaryFlag other.2) :: primaryFlags packets
    else primaryFlags packets

/-- The answer and, with `NO_ERROR`, the flag. -/
def GetUserIdIsPrimary (userIdIndex : ℤ) (impl : Impl) : Status × Option Bool :=
  match atIndex impl.ownUserIds userIdIndex with
  | none => (INVALID_ARGUMENT, none)
  | some uid => (NO_ERROR, some uid.isPrimary)

/-- In the exported public block at most one user ID carries the flag, and that
one is reported primary. -/
def PrimaryOnWire (impl : Impl) : Prop :=
  ∃ packets, (decodeKeyBlockToBinary (exportPublicKeyArmored impl)).bind (walkPackets · 0) =
      some packets ∧
    (∀ i : ℕ, (primaryFlags packets)[i]? = some true →
      GetUserIdIsPrimary i impl = (NO_ERROR, some true)) ∧
    ∀ i j : ℕ, (primaryFlags packets)[i]? = some true →
      (primaryFlags packets)[j]? = some true → i = j

/-- Whether the certification of an own user ID carries the flag. -/
def PgpOwnUserId.flagged (uid : PgpOwnUserId) : Bool :=
  match signaturePacketBody uid.certSigPacket with
  | none => false
  | some body => carriesPrimaryFlag body

/-! ### The packets of an exported block -/

/-- The octets are these packets, one behind another. -/
def IsPacketList (octets : Bytes) (packets : List (UInt8 × Bytes)) : Prop :=
  octets = packets.flatMap (fun packet => writePacket packet.1 packet.2) ∧
    ∀ packet ∈ packets, packet.1 < 64 ∧ packet.2.length < 2 ^ 32

theorem IsPacketList.nil : IsPacketList [] [] := ⟨rfl, by simp⟩

theorem IsPacketList.single {tag : UInt8} {body : Bytes} (htag : tag < 64)
    (hbody : body.length < 2 ^ 32) : IsPacketList (writePacket tag body) [(tag, body)] :=
  ⟨by simp, by simpa using ⟨htag, hbody⟩⟩

theorem IsPacketList.append {xs ys : Bytes} {ps qs : List (UInt8 × Bytes)}
    (hxs : IsPacketList xs ps) (hys : IsPacketList ys qs) : IsPacketList (xs ++ ys) (ps ++ qs) := by
  obtain ⟨rfl, hps⟩ := hxs
  obtain ⟨rfl, hqs⟩ := hys
  refine ⟨by rw [List.flatMap_append], fun packet hmem => ?_⟩
  rcases List.mem_append.mp hmem with hmem | hmem
  · exact hps packet hmem
  · exact hqs packet hmem

/-- The packet walk reads back what was written. -/
theorem walkPackets_of_isPacketList {data : Bytes} (packets : List (UInt8 × Bytes))
    (hshort : ∀ packet ∈ packets, packet.1 < 64 ∧ packet.2.length < 2 ^ 32) :
    ∀ {pos : ℕ}, At data pos (packets.flatMap fun packet => writePacket packet.1 packet.2) →
      walkPackets data pos = some packets := by
  induction packets with
  | nil =>
      intro pos h
      have hlen := h.length_eq
      rw [walkPackets, if_neg (by simp at hlen; omega)]
  | cons packet packets ih =>
      intro pos h
      obtain ⟨⟨htag, hbody⟩, hrest⟩ := List.forall_mem_cons.mp hshort
      rw [List.flatMap_cons] at h
      obtain ⟨bodyPos, hread, hat⟩ := readPacketHeader_writePacket htag hbody h
      have hlt : pos < data.length := h.lt_iff.mpr (by simp [writePacket_ne_nil])
      rw [walkPackets_step hlt (hread none false) hat, ih hrest hat.advance]
      rfl

theorem IsPacketList.walk {octets : Bytes} {packets : List (UInt8 × Bytes)}
    (h : IsPacketList octets packets) : walkPackets octets 0 = some packets := by
  apply walkPackets_of_isPacketList packets h.2
  rw [← h.1]
  exact at_zero octets

/-! ### Reading the flags off -/

theorem primaryFlags_skip {packets : List (UInt8 × Bytes)}
    (hother : ∀ packet ∈ packets, packet.1 ≠ PGP_TAG_USER_ID) (rest : List (UInt8 × Bytes)) :
    primaryFlags (packets ++ rest) = primaryFlags rest := by
  induction packets with
  | nil => rfl
  | cons packet packets ih =>
      obtain ⟨hfirst, hrest⟩ := List.forall_mem_cons.mp hother
      rw [List.cons_append, primaryFlags, if_neg hfirst, ih hrest]

/-- A user ID's flag is that of its own signatures. -/
theorem primaryFlags_userId {text : Bytes} {signatures rest : List (UInt8 × Bytes)}
    (hsignatures : ∀ packet ∈ signatures, packet.1 = PGP_TAG_SIGNATURE)
    (hrest : ∀ packet ∈ rest.head?, packet.1 ≠ PGP_TAG_SIGNATURE) :
    primaryFlags ((PGP_TAG_USER_ID, text) :: (signatures ++ rest)) =
      signatures.any (fun packet => carriesPrimaryFlag packet.2) :: primaryFlags rest := by
  have htake : (signatures ++ rest).takeWhile (fun other => decide (other.1 = PGP_TAG_SIGNATURE)) =
      signatures := by
    rw [List.takeWhile_append_of_pos (fun packet hmem => by simpa using hsignatures packet hmem)]
    cases rest with
    | nil => simp
    | cons packet rest =>
        have hfirst := hrest packet rfl
        simp [hfirst]
  have hskip : primaryFlags (signatures ++ rest) = primaryFlags rest := by
    apply primaryFlags_skip
    intro packet hmem
    rw [hsignatures packet hmem]
    decide
  rw [primaryFlags, if_pos rfl, htake, hskip]

theorem Certified.flag {packet : Bytes} {expirationSeconds : UInt32} {primary : Bool}
    (h : Certified packet expirationSeconds primary) :
    ∃ body, packet = writePacket PGP_TAG_SIGNATURE body ∧ body.length < 2 ^ 32 ∧
      carriesPrimaryFlag body = primary := by
  obtain ⟨body, now, hpacket, hbody, htype, hsubpackets, -⟩ := h
  refine ⟨body, hpacket, hbody, ?_⟩
  simp only [carriesPrimaryFlag, htype, hsubpackets, true_and]
  cases primary with
  | true => simp [certificationSubpackets]
  | false =>
      simp only [certificationSubpackets, Bool.false_eq_true, if_false, List.append_nil]
      split_ifs <;> simp

theorem Certified.flagged {uid : PgpOwnUserId} {expirationSeconds : UInt32} {primary : Bool}
    (h : Certified uid.certSigPacket expirationSeconds primary) : uid.flagged = primary := by
  obtain ⟨body, hpacket, hbody, hflag⟩ := h.flag
  rw [PgpOwnUserId.flagged, hpacket, signaturePacketBody_writePacket hbody]
  exact hflag

/-- A signature of another type carries no flag. -/
theorem not_carriesPrimaryFlag {body : Bytes} {scan : SubpacketScan}
    (hscan : scanSignatureHashedSubpackets body = some scan) (htype : scan.signatureType ≠ 0x13) :
    carriesPrimaryFlag body = false := by
  unfold scanSignatureHashedSubpackets at hscan
  split_ifs at hscan with hhead
  dsimp only at hscan
  split_ifs at hscan
  obtain rfl := Option.some.inj hscan
  rw [foldl_record_signatureType, List.getD_eq_getElem?_getD] at htype
  simp only [carriesPrimaryFlag, decide_eq_false_iff_not, not_and]
  intro hbody
  rw [hbody] at htype
  exact absurd rfl htype

/-! ### The exported block -/

/-- A stored signature is one packet. -/
theorem CarriesType.isPacketList {packet : Bytes} {signatureType : UInt8}
    (h : CarriesType packet signatureType) :
    ∃ body, IsPacketList packet [(PGP_TAG_SIGNATURE, body)] ∧
      (signatureType ≠ 0x13 → carriesPrimaryFlag body = false) := by
  obtain ⟨body, rfl, hbody, scan, hscan, htype⟩ := h
  refine ⟨body, IsPacketList.single (by decide) hbody, fun hother => ?_⟩
  apply not_carriesPrimaryFlag hscan
  rwa [htype]

/-- A user ID and the signatures behind it, of which only the certification can
carry the flag. -/
theorem renderUserId_packets {keyExpirationSeconds : UInt32} {uid : PgpOwnUserId} (huid : UserIdWellFormed uid)
    (hcoherent : UserIdCoherent keyExpirationSeconds uid) :
    ∃ signatures, IsPacketList (renderUserId uid) ((PGP_TAG_USER_ID, uid.uidText) :: signatures) ∧
      (∀ packet ∈ signatures, packet.1 = PGP_TAG_SIGNATURE) ∧
      signatures.any (fun packet => carriesPrimaryFlag packet.2) = uid.flagged := by
  obtain ⟨expirationSeconds, primary, hcertified, -⟩ := hcoherent.certified
  have hlength := huid.length_lt
  have htext : IsPacketList (writePacket PGP_TAG_USER_ID uid.uidText)
      [(PGP_TAG_USER_ID, uid.uidText)] := IsPacketList.single (by decide) (by omega)
  obtain ⟨certBody, hcert, hcertBody, hflag⟩ := hcertified.flag
  have hcertList : IsPacketList uid.certSigPacket [(PGP_TAG_SIGNATURE, certBody)] := by
    rw [hcert]
    exact IsPacketList.single (by decide) hcertBody
  rw [hcertified.flagged]
  cases hrevoked : uid.isRevoked with
  | false =>
      refine ⟨[(PGP_TAG_SIGNATURE, certBody)], ?_, by simp, by simpa using hflag⟩
      simpa [renderUserId, hrevoked] using htext.append hcertList
  | true =>
      obtain ⟨revocationBody, hrevocation, hunflagged⟩ :=
        (huid.revocation hrevoked).isPacketList
      refine ⟨[(PGP_TAG_SIGNATURE, certBody), (PGP_TAG_SIGNATURE, revocationBody)], ?_, by simp, ?_⟩
      · simpa [renderUserId, hrevoked] using (htext.append hcertList).append hrevocation
      · simp [hflag, hunflagged (by decide)]

/-- Packets that belong to no user ID and do not begin with a signature. -/
def BehindUserIds (packets : List (UInt8 × Bytes)) : Prop :=
  (∀ packet ∈ packets, packet.1 ≠ PGP_TAG_USER_ID) ∧
    ∀ packet ∈ packets.head?, packet.1 ≠ PGP_TAG_SIGNATURE

theorem renderSubkey_packets {P : Primitives} {keyAlgorithm : PgpKeyAlgorithm}
    {subkey : PgpOwnSubkey} (hsubkey : SubkeyWellFormed P keyAlgorithm subkey) :
    ∃ packets, IsPacketList (renderSubkey (writePacket PGP_TAG_PUBLIC_SUBKEY
        (buildOwnSubkeyPubBody keyAlgorithm subkey)) subkey) packets ∧ BehindUserIds packets ∧
      packets ≠ [] := by
  have hkey : IsPacketList (writePacket PGP_TAG_PUBLIC_SUBKEY
      (buildOwnSubkeyPubBody keyAlgorithm subkey))
      [(PGP_TAG_PUBLIC_SUBKEY, buildOwnSubkeyPubBody keyAlgorithm subkey)] :=
    IsPacketList.single (by decide) hsubkey.body_bounds.2
  obtain ⟨bindBody, hbind, hbindBody, -⟩ := hsubkey.binding
  have hbindList : IsPacketList subkey.bindingSigPacket [(PGP_TAG_SIGNATURE, bindBody)] := by
    rw [hbind]
    exact IsPacketList.single (by decide) hbindBody
  have htags : (PGP_TAG_PUBLIC_SUBKEY ≠ PGP_TAG_USER_ID ∧ PGP_TAG_SIGNATURE ≠ PGP_TAG_USER_ID) ∧
      PGP_TAG_PUBLIC_SUBKEY ≠ PGP_TAG_SIGNATURE := by decide
  cases hrevoked : subkey.isRevoked with
  | false =>
      refine ⟨_, by simpa [renderSubkey, hrevoked] using hkey.append hbindList, ?_, by simp⟩
      simpa [BehindUserIds] using htags
  | true =>
      obtain ⟨revocationBody, hrevocation, -⟩ := (hsubkey.revocation hrevoked).isPacketList
      refine ⟨_, by simpa [renderSubkey, hrevoked] using
        (hkey.append hbindList).append hrevocation, ?_, by simp⟩
      simpa [BehindUserIds] using htags

theorem renderSubkeys_packets {P : Primitives} {keyAlgorithm : PgpKeyAlgorithm}
    {subkeys : List PgpOwnSubkey}
    (hsubkeys : ∀ subkey ∈ subkeys, SubkeyWellFormed P keyAlgorithm subkey) :
    ∃ packets, IsPacketList (subkeys.flatMap fun subkey => renderSubkey
        (writePacket PGP_TAG_PUBLIC_SUBKEY (buildOwnSubkeyPubBody keyAlgorithm subkey)) subkey)
      packets ∧ BehindUserIds packets := by
  induction subkeys with
  | nil => exact ⟨[], IsPacketList.nil, by simp [BehindUserIds]⟩
  | cons subkey subkeys ih =>
      obtain ⟨hfirst, hrest⟩ := List.forall_mem_cons.mp hsubkeys
      obtain ⟨packets, hpackets, ⟨hother, hhead⟩, hne⟩ := renderSubkey_packets hfirst
      obtain ⟨rest, hlist, hothers, -⟩ := ih hrest
      refine ⟨packets ++ rest, hpackets.append hlist, ?_, ?_⟩
      · intro packet hmem
        rcases List.mem_append.mp hmem with hmem | hmem
        · exact hother packet hmem
        · exact hothers packet hmem
      · rwa [List.head?_append_of_ne_nil _ hne]

/-- The flags of a list of user IDs, with the subkeys behind it. -/
theorem renderUserIds_packets {keyExpirationSeconds : UInt32} {uids : List PgpOwnUserId} {tail : Bytes}
    {rest : List (UInt8 × Bytes)} (huids : ∀ uid ∈ uids, UserIdWellFormed uid)
    (hcoherent : ∀ uid ∈ uids, UserIdCoherent keyExpirationSeconds uid) (htail : IsPacketList tail rest)
    (hrest : BehindUserIds rest) :
    ∃ packets, IsPacketList (uids.flatMap renderUserId ++ tail) packets ∧
      primaryFlags packets = uids.map PgpOwnUserId.flagged ∧
      ∀ packet ∈ packets.head?, packet.1 ≠ PGP_TAG_SIGNATURE := by
  induction uids with
  | nil =>
      refine ⟨rest, by simpa using htail, ?_, hrest.2⟩
      have hskip := primaryFlags_skip hrest.1 []
      rw [List.append_nil] at hskip
      rw [hskip]
      rfl
  | cons uid uids ih =>
      obtain ⟨huid, huids⟩ := List.forall_mem_cons.mp huids
      obtain ⟨hfirst, hothers⟩ := List.forall_mem_cons.mp hcoherent
      obtain ⟨signatures, hlist, htags, hflag⟩ := renderUserId_packets huid hfirst
      obtain ⟨packets, hpackets, hflags, hhead⟩ := ih huids hothers
      refine ⟨(PGP_TAG_USER_ID, uid.uidText) :: (signatures ++ packets), ?_, ?_, ?_⟩
      · simpa using hlist.append hpackets
      · rw [primaryFlags_userId htags hhead, hflag, hflags, List.map_cons]
      · rintro packet ⟨⟩
        show PGP_TAG_USER_ID ≠ PGP_TAG_SIGNATURE
        decide

section Wire

variable {P : Primitives} {impl : Impl}

/-- The exported block carries the flags of the stored certifications. -/
theorem exported_primaryFlags (hreachable : Reachable P impl)
    (hgenerated : impl.ownKeyGenerated = true) :
    ∃ packets, (decodeKeyBlockToBinary (exportPublicKeyArmored impl)).bind (walkPackets · 0) =
        some packets ∧ primaryFlags packets = impl.ownUserIds.map PgpOwnUserId.flagged := by
  have hwell := hreachable.wellFormed
  obtain ⟨subkeyPackets, hsubkeys, hbehind⟩ := renderSubkeys_packets hwell.subkeys
  obtain ⟨packets, hlist, hflags, hhead⟩ := renderUserIds_packets hwell.userIds
    hreachable.coherent.userIds hsubkeys hbehind
  have hmaster : IsPacketList (writePacket PGP_TAG_PUBLIC_KEY (buildOwnMasterPubBody impl))
      [(PGP_TAG_PUBLIC_KEY, buildOwnMasterPubBody impl)] :=
    IsPacketList.single (by decide) hwell.masterBody_bounds.2
  have hblock := (hmaster.append hlist).walk
  refine ⟨(PGP_TAG_PUBLIC_KEY, buildOwnMasterPubBody impl) :: packets, ?_, ?_⟩
  · rw [decodeKeyBlockToBinary_export, Option.bind_some, renderOwnKeyBlocks,
      if_neg (by simp [hgenerated])]
    simpa using hblock
  · rw [primaryFlags, if_neg (show PGP_TAG_PUBLIC_KEY ≠ PGP_TAG_USER_ID by decide), hflags]

/-- Only the user ID with the mark has a certification with the flag. -/
def FlagHeld (impl : Impl) : Prop :=
  ∀ uid ∈ impl.ownUserIds, uid.flagged = true → uid.isPrimary = true

theorem primaryOnWire_iff (hreachable : Reachable P impl)
    (hgenerated : impl.ownKeyGenerated = true) : PrimaryOnWire impl ↔ FlagHeld impl := by
  obtain ⟨packets, hpackets, hflags⟩ := exported_primaryFlags hreachable hgenerated
  obtain ⟨k, -, hprimary⟩ := hreachable.coherent.primary hgenerated
  have hflag : ∀ i : ℕ, (primaryFlags packets)[i]? = some true ↔
      ∃ uid, impl.ownUserIds[i]? = some uid ∧ uid.flagged = true := by
    intro i
    rw [hflags, List.getElem?_map, Option.map_eq_some_iff]
  have hreports : ∀ (i : ℕ) (uid : PgpOwnUserId), impl.ownUserIds[i]? = some uid →
      GetUserIdIsPrimary i impl = (NO_ERROR, some uid.isPrimary) := by
    intro i uid huid
    have hindex : atIndex impl.ownUserIds (i : ℤ) = some uid := by
      rw [atIndex, if_pos (Int.natCast_nonneg i), Int.toNat_natCast, huid]
    rw [GetUserIdIsPrimary, hindex]
  constructor
  · rintro ⟨packets', hpackets', hreported, -⟩ uid hmem hflagged
    obtain rfl := Option.some.inj (hpackets.symm.trans hpackets')
    obtain ⟨i, hi⟩ := List.mem_iff_getElem?.mp hmem
    have hanswer := hreported i ((hflag i).mpr ⟨uid, hi, hflagged⟩)
    rw [hreports i uid hi] at hanswer
    simpa using hanswer
  · intro hheld
    refine ⟨packets, hpackets, fun i hi => ?_, fun i j hi hj => ?_⟩
    · obtain ⟨uid, huid, hflagged⟩ := (hflag i).mp hi
      rw [hreports i uid huid, hheld uid (List.mem_of_getElem? huid) hflagged]
    · obtain ⟨uid, huid, hflagged⟩ := (hflag i).mp hi
      obtain ⟨other, hother, hflagged'⟩ := (hflag j).mp hj
      have hik := (hprimary i uid huid).mp (hheld uid (List.mem_of_getElem? huid) hflagged)
      have hjk := (hprimary j other hother).mp
        (hheld other (List.mem_of_getElem? hother) hflagged')
      rw [hik, hjk]

end Wire

/-! ### Runs that never leave a flag behind -/

variable (P : Primitives)

/-- If the call moves the primary mark, no user ID it takes the mark from, or
passes over, has a certification with the flag. -/
def MovesMarkCleanly (impl : Impl) : EngineOp → Prop
  | .setPrimaryUserId password userIdIndex =>
    rejects P impl password = false → (atIndex impl.ownUserIds userIdIndex).isSome →
      ∀ (i : ℕ) (uid : PgpOwnUserId), impl.ownUserIds[i]? = some uid → (i : ℤ) ≠ userIdIndex →
        uid.flagged = false
  | .addUserId password userId makePrimary =>
    makePrimary = true → userId.1 ≠ [] → rejects P impl password = false →
      ∀ uid ∈ impl.ownUserIds, uid.flagged = false
  | _ => True

/-- The states that calls lead to which move the mark cleanly. -/
inductive CleanlyReachable : Impl → Prop
  | new (keyAlgorithm : PgpKeyAlgorithm) (rsaKeyBits : ℤ) :
      CleanlyReachable (Impl.new keyAlgorithm rsaKeyBits)
  | call {impl : Impl} (h : CleanlyReachable impl) (env : Env) (op : EngineOp)
      (hclean : MovesMarkCleanly P impl op) : CleanlyReachable (op.call P env impl).2

variable {P} {impl : Impl}

theorem CleanlyReachable.reachable (h : CleanlyReachable P impl) : Reachable P impl := by
  induction h with
  | new keyAlgorithm rsaKeyBits => exact .new keyAlgorithm rsaKeyBits
  | call _ env op _ ih => exact .call ih env op

theorem FlagHeld.of_ownUserIds_eq {impl' : Impl} (hsame : impl'.ownUserIds = impl.ownUserIds)
    (hheld : FlagHeld impl) : FlagHeld impl' := by
  unfold FlagHeld
  rwa [hsame]

theorem FlagHeld.generateKeyPair (hheld : FlagHeld impl) (env : Env) (userId : Buffer)
    (password : Bytes) (expirationSeconds : UInt32) :
    FlagHeld (GenerateKeyPair P env userId password expirationSeconds impl).2 := by
  have hstore : ∀ (seeded : Impl) (packets : GeneratedPackets) (subkey : PgpOwnSubkey),
      FlagHeld (storeGenerated P seeded packets subkey userId.1 password expirationSeconds
        (env.clock 0)) := by
    intro seeded packets subkey uid hmem _
    obtain rfl := List.mem_singleton.mp hmem
    rfl
  unfold GenerateKeyPair
  split
  · exact hheld
  · split
    · split
      · exact hheld
      · dsimp only
        split
        · exact hheld
        · apply hstore
    · dsimp only
      split
      · exact hheld
      · apply hstore

/-- The target gets mark and flag, and the others have no flag. -/
theorem FlagHeld.setPrimaryUserId (hheld : FlagHeld impl) (now : UInt32) (password : Bytes)
    (userIdIndex : ℤ)
    (hclean : rejects P impl password = false → (atIndex impl.ownUserIds userIdIndex).isSome →
      ∀ (i : ℕ) (uid : PgpOwnUserId), impl.ownUserIds[i]? = some uid → (i : ℤ) ≠ userIdIndex →
        uid.flagged = false) :
    FlagHeld (SetPrimaryUserId P now password userIdIndex impl).2 := by
  unfold SetPrimaryUserId
  split
  · exact hheld
  · rename_i target htarget
    split
    · exact hheld
    · rename_i hpassword
      dsimp only
      split
      · exact hheld
      · intro uid hmem hflagged
        obtain ⟨i, hi, rfl⟩ := List.mem_mapIdx.mp hmem
        by_cases hindex : (i : ℤ) = userIdIndex
        · exact decide_eq_true hindex
        · have hne : userIdIndex.toNat ≠ i := by
            have := (atIndex_eq_some htarget).1
            omega
          have hlt : i < impl.ownUserIds.length := by simpa using hi
          have hunflagged := hclean (by simpa using hpassword) (by simp [htarget]) i
            impl.ownUserIds[i] (List.getElem?_eq_getElem hlt) hindex
          simp only [List.getElem_set_ne hne] at hflagged
          exact absurd (hunflagged.symm.trans hflagged) Bool.false_ne_true

theorem FlagHeld.append (hheld : FlagHeld impl) (uid : PgpOwnUserId) (huid : uid.flagged = false) :
    FlagHeld { impl with ownUserIds := impl.ownUserIds ++ [uid] } := by
  intro other hmem hflagged
  rcases List.mem_append.mp hmem with hold | hnew
  · exact hheld other hold hflagged
  · obtain rfl := List.mem_singleton.mp hnew
    exact absurd (huid.symm.trans hflagged) Bool.false_ne_true

theorem FlagHeld.addUserId (hheld : FlagHeld impl) (hwell : OwnWellFormed P impl) (env : Env)
    (password : Bytes) (userId : Buffer) (makePrimary : Bool)
    (hclean : makePrimary = true → userId.1 ≠ [] → rejects P impl password = false →
      ∀ uid ∈ impl.ownUserIds, uid.flagged = false) :
    FlagHeld (AddUserId P env password userId makePrimary impl).2 := by
  unfold AddUserId
  split
  · exact hheld
  rename_i hguard
  obtain ⟨huser, hpassword⟩ := not_or.mp hguard
  dsimp only
  split
  · exact hheld
  rename_i hsigned
  have hadded := hheld.append
    { uidText := userId.1, certCreationTime := env.clock 0
      certSigPacket := signUserId P impl 0x13 { uidText := userId.1 }
        (flagsAndExpiration 0x03 impl.keyExpirationSeconds) (env.clock 1) }
    (certified_unflagged P hwell.privateModulus_size rfl hsigned).flagged
  split
  · rename_i hprimary
    apply hadded.setPrimaryUserId
    -- the others are the user IDs that were there before
    intro _ _ i uid huid hne
    have hold := hclean hprimary huser (by simpa using hpassword)
    rcases List.mem_append.mp (List.mem_of_getElem? huid) with hmem | hmem
    · exact hold uid hmem
    · have hlt := lt_of_getElem? huid
      simp only [List.length_append, List.length_cons, List.length_nil] at hlt hne
      rw [List.getElem?_append_left (by omega)] at huid
      exact hold uid (List.mem_of_getElem? huid)
  · exact hadded

theorem FlagHeld.revokeUserId (hheld : FlagHeld impl) (now : UInt32) (password : Bytes)
    (userIdIndex : ℤ) (reasonCode : UInt8) (reasonText : Buffer) :
    FlagHeld (RevokeUserId P now password userIdIndex reasonCode reasonText impl).2 := by
  unfold RevokeUserId
  split
  · exact hheld
  · rename_i uid huid
    have hmem := List.mem_of_getElem? (atIndex_eq_some huid).2
    split
    · exact hheld
    · dsimp only
      split
      · exact hheld
      · exact forall_mem_set hheld (hheld uid hmem)

/-- The new certification of the primary user ID has the flag it keeps. -/
theorem FlagHeld.setKeyExpiration (hheld : FlagHeld impl) (hwell : OwnWellFormed P impl)
    (now : UInt32) (password : Bytes) (subkeyIndex : ℤ) (expirationSeconds : UInt32) :
    FlagHeld (SetKeyExpiration P now password subkeyIndex expirationSeconds impl).2 := by
  unfold SetKeyExpiration
  split
  · exact hheld
  split
  · split
    · exact hheld
    · split
      · exact hheld
      · rename_i uid huid
        dsimp only
        split
        · exact hheld
        · rename_i hsigned
          apply forall_mem_set hheld
          intro hflagged
          have hcertified : Certified _ _ uid.isPrimary :=
            certified_of_signed P hwell.privateModulus_size rfl hsigned
          exact hcertified.flagged.symm.trans hflagged
  · split
    · exact hheld
    · dsimp only
      split <;> exact hheld

theorem AddSubkey_ownUserIds (env : Env) (password : Bytes) (keyFlags : UInt8)
    (expirationSeconds : UInt32) :
    (AddSubkey P env password keyFlags expirationSeconds impl).2.ownUserIds = impl.ownUserIds := by
  unfold AddSubkey
  dsimp only
  split_ifs <;> rfl

theorem RevokeSubkey_ownUserIds (now : UInt32) (password : Bytes) (subkeyIndex : ℤ)
    (reasonCode : UInt8) (reasonText : Buffer) :
    (RevokeSubkey P now password subkeyIndex reasonCode reasonText impl).2.ownUserIds =
      impl.ownUserIds := by
  unfold RevokeSubkey
  split
  · rfl
  · dsimp only
    split_ifs <;> rfl

theorem ChangePassword_ownUserIds (env : Env) (oldPassword newPassword : Bytes) :
    (ChangePassword P env oldPassword newPassword impl).2.ownUserIds = impl.ownUserIds := by
  unfold ChangePassword
  dsimp only
  split_ifs <;> rfl

theorem ImportPeerPublicKey_ownUserIds (now : UInt32) (keyBlock : Buffer) :
    (ImportPeerPublicKey P now keyBlock impl).2.ownUserIds = impl.ownUserIds := by
  unfold ImportPeerPublicKey
  split
  · rfl
  · split <;> rfl

theorem ImportAdditionalRecipientPublicKey_ownUserIds (now : UInt32) (keyBlock : Buffer) :
    (ImportAdditionalRecipientPublicKey P now keyBlock impl).2.ownUserIds = impl.ownUserIds := by
  unfold ImportAdditionalRecipientPublicKey
  split
  · rfl
  · split
    · rfl
    · split <;> rfl

theorem FlagHeld.call (hheld : FlagHeld impl) (hwell : OwnWellFormed P impl) (env : Env)
    (op : EngineOp) (hclean : MovesMarkCleanly P impl op) : FlagHeld (op.call P env impl).2 := by
  cases op with
  | generateKeyPair userId password expirationSeconds =>
      exact hheld.generateKeyPair env userId password expirationSeconds
  | addUserId password userId makePrimary =>
      exact hheld.addUserId hwell env password userId makePrimary hclean
  | revokeUserId password userIdIndex reasonCode reasonText =>
      exact hheld.revokeUserId (env.clock 0) password userIdIndex reasonCode reasonText
  | setPrimaryUserId password userIdIndex =>
      exact hheld.setPrimaryUserId (env.clock 0) password userIdIndex hclean
  | setKeyExpiration password subkeyIndex expirationSeconds =>
      exact hheld.setKeyExpiration hwell (env.clock 0) password subkeyIndex expirationSeconds
  | addSubkey => exact hheld.of_ownUserIds_eq (AddSubkey_ownUserIds ..)
  | revokeSubkey => exact hheld.of_ownUserIds_eq (RevokeSubkey_ownUserIds ..)
  | changePassword => exact hheld.of_ownUserIds_eq (ChangePassword_ownUserIds ..)
  | importPeerPublicKey => exact hheld.of_ownUserIds_eq (ImportPeerPublicKey_ownUserIds ..)
  | importAdditionalRecipientPublicKey =>
      exact hheld.of_ownUserIds_eq (ImportAdditionalRecipientPublicKey_ownUserIds ..)
  | setSymmetricCipherPreference => exact hheld.of_ownUserIds_eq rfl

theorem CleanlyReachable.flagHeld (h : CleanlyReachable P impl) : FlagHeld impl := by
  induction h with
  | new keyAlgorithm rsaKeyBits => simp [FlagHeld, Impl.new]
  | call h env op hclean ih => exact ih.call h.reachable.wellFormed env op hclean

/-- While the mark moves cleanly, the exported block agrees with it. -/
theorem primaryOnWire_of_cleanlyReachable (h : CleanlyReachable P impl)
    (hgenerated : impl.ownKeyGenerated = true) : PrimaryOnWire impl :=
  (primaryOnWire_iff h.reachable hgenerated).mpr h.flagHeld

/-- Two user IDs, the second of which was made primary when it was added. -/
def twoUserIds : Impl :=
  (AddUserId standIn (Env.numbered 2000 9) (ascii "pw") ⟨ascii "bob", length_bob⟩ true
    (freshOwner standIn (Env.numbered 1000 7) (ascii "alice") (ascii "pw") 0)).2

theorem freshOwner_cleanlyReachable (env : Env) (userId : Buffer) {password : Bytes}
    (expirationSeconds : UInt32) (huser : userId.1 ≠ []) (hpassword : password ≠ []) :
    CleanlyReachable P (freshOwner P env userId.1 password expirationSeconds) := by
  have hcall := CleanlyReachable.call (.new (P := P) PGP_KEY_ALGORITHM_ED25519_X25519 2048) env
    (.generateKeyPair userId password expirationSeconds) trivial
  rwa [EngineOp.call, GenerateKeyPair_ed25519 P env expirationSeconds huser hpassword rfl] at hcall

theorem twoUserIds_cleanlyReachable : CleanlyReachable standIn twoUserIds := by
  have hfresh := freshOwner_cleanlyReachable (P := standIn) (Env.numbered 1000 7)
    ⟨ascii "alice", by decide⟩ 0 (by decide) (show ascii "pw" ≠ [] by decide)
  refine hfresh.call (Env.numbered 2000 9) (.addUserId (ascii "pw") ⟨ascii "bob", by decide⟩ true) ?_
  intro _ _ _
  decide +kernel

theorem primaryOnWire_twoUserIds : PrimaryOnWire twoUserIds :=
  primaryOnWire_of_cleanlyReachable twoUserIds_cleanlyReachable (by decide)

/-- A user ID the mark is taken from keeps its flag on the wire. -/
theorem flag_left_behind (hreachable : Reachable P impl) (env : Env) (password : Bytes)
    {userIdIndex : ℤ}
    (haccepted : (SetPrimaryUserId P (env.clock 0) password userIdIndex impl).1 = NO_ERROR)
    {i : ℕ} {uid : PgpOwnUserId} (huid : impl.ownUserIds[i]? = some uid)
    (hother : (i : ℤ) ≠ userIdIndex) (hflagged : uid.flagged = true) :
    ¬ PrimaryOnWire (SetPrimaryUserId P (env.clock 0) password userIdIndex impl).2 := by
  have hcall : Reachable P (SetPrimaryUserId P (env.clock 0) password userIdIndex impl).2 :=
    hreachable.call env (.setPrimaryUserId password userIdIndex)
  unfold SetPrimaryUserId at haccepted hcall ⊢
  split at haccepted
  · cases haccepted
  · rename_i target htarget
    simp only [htarget] at hcall ⊢
    split at haccepted
    · cases haccepted
    · rename_i hpassword
      rw [if_neg hpassword] at hcall ⊢
      dsimp only at haccepted hcall ⊢
      split at haccepted
      · cases haccepted
      · rename_i hsigned
        rw [if_neg hsigned] at hcall ⊢
        have hgenerated := ownKeyGenerated_of_not_rejects (by simpa using hpassword)
        rw [primaryOnWire_iff hcall hgenerated]
        intro hheld
        have hne : userIdIndex.toNat ≠ i := by
          have := (atIndex_eq_some htarget).1
          omega
        -- the old certification is still there, but the mark is not
        have hstays := hheld { uid with isPrimary := decide ((i : ℤ) = userIdIndex) }
          (List.mem_of_getElem? (by
            rw [List.getElem?_mapIdx, List.getElem?_set_ne hne, huid, Option.map_some])) hflagged
        exact hother (of_decide_eq_true hstays)

/-- After the mark has gone to the second user ID and back, both carry the flag. -/
theorem twoUserIds_bothFlagged :
    Reachable standIn (SetPrimaryUserId standIn 3000 (ascii "pw") 0 twoUserIds).2 ∧
      (SetPrimaryUserId standIn 3000 (ascii "pw") 0 twoUserIds).2.ownKeyGenerated = true ∧
      ¬ PrimaryOnWire (SetPrimaryUserId standIn 3000 (ascii "pw") 0 twoUserIds).2 := by
  have hreachable := twoUserIds_cleanlyReachable.reachable
  have hflagged : twoUserIds.ownUserIds.map PgpOwnUserId.flagged = [false, true] := by
    decide +kernel
  refine ⟨hreachable.call (Env.numbered 3000 0) (.setPrimaryUserId (ascii "pw") 0),
    by decide, ?_⟩
  have hsecond : (twoUserIds.ownUserIds[1]?).map PgpOwnUserId.flagged = some true := by
    rw [← List.getElem?_map, hflagged]
    rfl
  obtain ⟨uid, huid, hflag⟩ := Option.map_eq_some_iff.mp hsecond
  exact flag_left_behind hreachable (Env.numbered 3000 0) (ascii "pw") (by decide) huid
    (by decide) hflag

end HashCryptoLib.Pgp
