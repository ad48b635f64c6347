import HashCryptoLib.Pgp.ClearSign
import HashCryptoLib.Pgp.Dechunking
import HashCryptoLib.Pgp.PeerBlock
import HashCryptoLib.Pgp.SignedContent

/-!
Inspection of a message without its key. One walk notes what every packet is,
opens compressed packets to a bounded depth, and steps over encrypted ones. It is
the fold of one packet's note over the packets of the message, and what it has
noted is only ever added to. So it sees the session key packets that decryption
has stepped over; but decryption takes them at any length, and inspection asks
for ten octets before it reports a recipient.
-/

namespace HashCryptoLib.Pgp

open BigEndian Search

def PGP_TAG_SKESK : UInt8 := 3
def PGP_TAG_SED : UInt8 := 9
def PGP_TAG_AEAD : UInt8 := 20

/-! ### The walk -/

/-- `compressionAlgorithm` is set where the source's `hasCompressedData` is. -/
structure PgpInspectedMessage where
  sawAnyPacket : Bool := false
  hasPkesk : Bool := false
  hasSkesk : Bool := false
  hasIntegrityProtectedData : Bool := false
  hasUnprotectedEncryptedData : Bool := false
  compressionAlgorithm : Option UInt8 := none
  recipientKeyIds : List Bytes := []
  signatures : List PgpInspectedSignature := []
  deriving DecidableEq, Repr

/-- The key ID that a session key packet is addressed to. -/
def pkeskKeyId (body : Bytes) : Bytes := (body.drop 1).take 8

/-- What is reported of a session key packet: only version 3 has a key ID here. -/
def inspectPkesk (body : Bytes) : List Bytes :=
  if body.length ≥ 10 ∧ body[0]? = some 3 then [pkeskKeyId body] else []

def inspectOnePass (body : Bytes) : List PgpInspectedSignature :=
  if body.length ≥ 13 ∧ body[0]? = some 3 then
    [{ issuerKeyId := some ((body.drop 4).take 8)
       signatureType := body.getD 1 0
       hashAlgorithm := body.getD 2 0 }]
  else []

/-- One packet, without what a compressed one holds. -/
def PgpInspectedMessage.note (out : PgpInspectedMessage) (tag : UInt8) (body : Bytes) :
    PgpInspectedMessage :=
  let out := { out with sawAnyPacket := true }
  if tag = PGP_TAG_PKESK then
    { out with hasPkesk := true, recipientKeyIds := out.recipientKeyIds ++ inspectPkesk body }
  else if tag = PGP_TAG_SKESK then { out with hasSkesk := true }
  else if tag = PGP_TAG_SEIP ∨ tag = PGP_TAG_AEAD then { out with hasIntegrityProtectedData := true }
  else if tag = PGP_TAG_SED then { out with hasUnprotectedEncryptedData := true }
  else if tag = PGP_TAG_SIGNATURE then
    { out with signatures := out.signatures ++ (inspectSignaturePacketBody body).toList }
  else if tag = PGP_TAG_ONE_PASS_SIG then
    { out with signatures := out.signatures ++ inspectOnePass body }
  else if tag = PGP_TAG_COMPRESSED_DATA then
    { out with compressionAlgorithm := out.compressionAlgorithm <|> body.head? }
  else out

/-- The packets inside a compressed packet, where the walk goes down to them. -/
def nestedPackets (P : Primitives) (depth : ℕ) (tag : UInt8) (body : Bytes) :
    Except Fault (Option Bytes) :=
  if tag ≠ PGP_TAG_COMPRESSED_DATA ∨ depth = 0 then .ok none
  else
    match body with
    | [] => .ok none
    | compAlgo :: compData =>
      match decompressBody P compAlgo compData with
      | none => .ok none
      | some decompressed =>
        if decompressed = [] then .ok none else (reassembledOr decompressed).map some

theorem depth_pos_of_nested {P : Primitives} {depth : ℕ} {tag : UInt8} {body packets : Bytes}
    (h : nestedPackets P depth tag body = .ok (some packets)) : 0 < depth := by
  rcases Nat.eq_zero_or_pos depth with rfl | hpos
  · rw [nestedPackets.eq_def, if_pos (Or.inr rfl)] at h
    cases h
  · exact hpos

/-- Every call of the source walks a whole buffer: `begin` is 0 and `end` its size. -/
def inspectPacketSequence (P : Primitives) (depth : ℕ) (data : Bytes) (pos : ℕ)
    (out : PgpInspectedMessage) : Except Fault PgpInspectedMessage :=
  if pos < data.length then
    match _hhead : readPacketHeader data pos none false with
    | none => .ok out
    | some header =>
      match readOctets data header.bodyPos header.bodyLength with
      | none => .ok out
      | some body =>
        match _hnested : nestedPackets P depth header.tag body with
        | .error fault => .error fault
        | .ok none =>
          inspectPacketSequence P depth data (header.bodyPos + header.bodyLength)
            (out.note header.tag body)
        | .ok (some packets) =>
          match inspectPacketSequence P (depth - 1) packets 0 (out.note header.tag body) with
          | .error fault => .error fault
          | .ok out =>
            inspectPacketSequence P depth data (header.bodyPos + header.bodyLength) out
  else .ok out
termination_by (depth, data.length - pos)
decreasing_by
  · have := bodyPos_gt _hhead
    exact Prod.Lex.right _ (by omega)
  · have := depth_pos_of_nested _hnested
    exact Prod.Lex.left _ _ (by omega)
  · have := bodyPos_gt _hhead
    exact Prod.Lex.right _ (by omega)

def signedMessageMarker : Bytes := ascii "-----BEGIN PGP SIGNED MESSAGE-----"

/-- Of a clear-signed message only the signature block at its end is packets. -/
def decodeInspectionInputToBinary (input : Bytes) : Option Bytes :=
  if input = [] then none
  else if input.take 5 = ascii "-----" then
    if signedMessageMarker.isPrefixOf input then
      (find signatureMarker input).bind fun sigBeginPos =>
        (armorDecode (input.drop sigBeginPos)).map Prod.snd
    else (armorDecode input).map Prod.snd
  else some input

/-- `none` is the source's `false`. -/
def inspectMessageBuffer (P : Primitives) (input : Bytes) :
    Except Fault (Option PgpInspectedMessage) :=
  match decodeInspectionInputToBinary input with
  | none => .ok none
  | some [] => .ok none
  | some binary =>
    match reassembledOr binary with
    | .error fault => .error fault
    | .ok message =>
      (inspectPacketSequence P 3 message 0 {}).map fun out =>
        if out.sawAnyPacket then some out else none

/-! ### The fold over the packets -/

/-- One packet, with what a compressed one holds. -/
def inspectPacket (P : Primitives) (depth : ℕ) (packet : BlockPacket) (out : PgpInspectedMessage) :
    Except Fault PgpInspectedMessage :=
  match nestedPackets P depth packet.1 packet.2 with
  | .error fault => .error fault
  | .ok none => .ok (out.note packet.1 packet.2)
  | .ok (some packets) =>
    inspectPacketSequence P (depth - 1) packets 0 (out.note packet.1 packet.2)

def inspectPackets (P : Primitives) (depth : ℕ) :
    List BlockPacket → PgpInspectedMessage → Except Fault PgpInspectedMessage
  | [], out => .ok out
  | packet :: packets, out =>
    match inspectPacket P depth packet out with
    | .error fault => .error fault
    | .ok out => inspectPackets P depth packets out

section Fold

variable {P : Primitives} {depth pos : ℕ} {data : Bytes} {out more : PgpInspectedMessage}

theorem inspectPacketSequence_eq :
    inspectPacketSequence P depth data pos out =
      inspectPackets P depth (blockPackets data pos) out := by
  fun_induction inspectPacketSequence P depth data pos out with
  | case1 depth data pos out hpos hhead => rw [blockPackets_stop hhead]; rfl
  | case2 depth data pos out hpos header hhead hread => rw [blockPackets_cut hhead hread]; rfl
  | case3 depth data pos out hpos header hhead body hread fault hnested =>
      rw [blockPackets_cons hhead hread, inspectPackets, inspectPacket, hnested]
  | case4 depth data pos out hpos header hhead body hread hnested ih =>
      rw [blockPackets_cons hhead hread, inspectPackets, inspectPacket, hnested]
      exact ih
  | case5 depth data pos out hpos header hhead body hread packets hnested fault hinside =>
      rw [blockPackets_cons hhead hread, inspectPackets, inspectPacket, hnested]
      dsimp only
      rw [hinside]
  | case6 depth data pos out hpos header hhead body hread packets hnested out' hinside ihinside ih =>
      rw [blockPackets_cons hhead hread, inspectPackets, inspectPacket, hnested]
      dsimp only
      rw [hinside]
      exact ih
  | case7 depth data pos out hpos => rw [blockPackets_end hpos]; rfl

/-! ### What has been noted stays -/

/-- What two parts of a message report together. -/
def PgpInspectedMessage.join (front behind : PgpInspectedMessage) : PgpInspectedMessage where
  sawAnyPacket := front.sawAnyPacket || behind.sawAnyPacket
  hasPkesk := front.hasPkesk || behind.hasPkesk
  hasSkesk := front.hasSkesk || behind.hasSkesk
  hasIntegrityProtectedData := front.hasIntegrityProtectedData || behind.hasIntegrityProtectedData
  hasUnprotectedEncryptedData :=
    front.hasUnprotectedEncryptedData || behind.hasUnprotectedEncryptedData
  compressionAlgorithm := front.compressionAlgorithm <|> behind.compressionAlgorithm
  recipientKeyIds := front.recipientKeyIds ++ behind.recipientKeyIds
  signatures := front.signatures ++ behind.signatures

@[simp] theorem join_empty (out : PgpInspectedMessage) : out.join {} = out := by
  simp [PgpInspectedMessage.join]

@[simp] theorem empty_join (out : PgpInspectedMessage) :
    ({} : PgpInspectedMessage).join out = out := by
  simp [PgpInspectedMessage.join]

theorem note_join (tag : UInt8) (body : Bytes) :
    (out.join more).note tag body = out.join (more.note tag body) := by
  unfold PgpInspectedMessage.note PgpInspectedMessage.join
  dsimp only
  split_ifs <;> simp [Option.or_assoc]

theorem inspectPackets_append (packets others : List BlockPacket) (out : PgpInspectedMessage) :
    inspectPackets P depth (packets ++ others) out =
      match inspectPackets P depth packets out with
      | .error fault => .error fault
      | .ok out => inspectPackets P depth others out := by
  induction packets generalizing out with
  | nil => rfl
  | cons packet packets ih =>
      rw [List.cons_append, inspectPackets, inspectPackets]
      cases inspectPacket P depth packet out with
      | error fault => rfl
      | ok out' => exact ih out'

end Fold

/-! ### The packets of a message that is opened -/

section Opened

variable {P : Primitives} {key : DecryptionKey} {message : Bytes}

end Opened

/-! ### What is reported -/

section Report

variable {P : Primitives} {depth : ℕ}

theorem inspectPackets_pkesks (bodies : List Bytes) (out : PgpInspectedMessage) :
    inspectPackets P depth (bodies.map (PGP_TAG_PKESK, ·)) out =
      .ok { out with
        sawAnyPacket := out.sawAnyPacket || !bodies.isEmpty
        hasPkesk := out.hasPkesk || !bodies.isEmpty
        recipientKeyIds := out.recipientKeyIds ++ bodies.flatMap inspectPkesk } := by
  induction bodies generalizing out with
  | nil => simp [inspectPackets]
  | cons body bodies ih =>
      have hnested : nestedPackets P depth PGP_TAG_PKESK body = .ok none := by
        rw [nestedPackets.eq_def, if_pos (Or.inl (by decide))]
      rw [List.map_cons, inspectPackets, inspectPacket, hnested]
      dsimp only
      rw [ih]
      simp [PgpInspectedMessage.note]

end Report

/-! ### Inspection and decryption -/

end HashCryptoLib.Pgp
