import HashCryptoLib.Pgp.Dechunking
import HashCryptoLib.Pgp.SignedContent

/-!
The message parser with every read checked. A read names the octets that it may
look at, a whole buffer or the body of one packet, and faults outside of them. The
header reader and everything behind the session key packets only read what is
there, and give what the parser gives. In a session key packet the version, the
key ID, the algorithm and the point of a curve recipient are read without a look
at the length of the body.
-/

namespace HashCryptoLib.Pgp

open BigEndian

/-! ### Reads -/

namespace Region

/-- All of a buffer. -/
def whole (data : Bytes) : Region := ⟨data, 0, data.length⟩

/-- `data[i]`. -/
def read (region : Region) (i : ℕ) : Except Fault UInt8 :=
  if region.first ≤ i ∧ i < region.last then
    match region.data[i]? with
    | some octet => .ok octet
    | none => .error .outOfBounds
  else .error .outOfBounds

/-- The `n` octets at `pos`. -/
def readRange (region : Region) (pos n : ℕ) : Except Fault Bytes :=
  if n = 0 ∨ region.first ≤ pos ∧ pos + n ≤ region.last ∧ region.last ≤ region.data.length then
    .ok ((region.data.drop pos).take n)
  else .error .outOfBounds

end Region

open Region

/-! ### Packet headers -/

/-- `readPacketHeader`, which knows the size of the whole buffer. -/
def readPacketHeaderChecked (data : Bytes) (pos : ℕ) (dataEnd : Option ℕ)
    (acceptPartial : Bool) : Except Fault (Option PacketHeader) :=
  let effectiveEnd := dataEnd.getD data.length
  if pos ≥ data.length then .ok none
  else do
    let first ← (whole data).read pos
    if first &&& 0x80 = 0 then .ok none
    else if first &&& 0x40 ≠ 0 then
      let tag := first &&& 0x3F
      if pos + 1 ≥ data.length then .ok none
      else do
        let lenFirst ← (whole data).read (pos + 1)
        if lenFirst < 192 then .ok (some ⟨tag, lenFirst.toNat, pos + 2, false⟩)
        else if lenFirst < 224 then
          if pos + 2 ≥ data.length then .ok none
          else do
            let second ← (whole data).read (pos + 2)
            .ok (some ⟨tag, (lenFirst.toNat - 192) * 256 + second.toNat + 192, pos + 3, false⟩)
        else if lenFirst < 255 then
          .ok (if acceptPartial then some ⟨tag, 2 ^ (lenFirst &&& 0x1F).toNat, pos + 2, true⟩
            else none)
        else if pos + 5 ≥ data.length then .ok none
        else do
          let octets ← (whole data).readRange (pos + 2) 4
          .ok (some ⟨tag, ofOctets octets, pos + 6, false⟩)
    else
      let tag := (first >>> 2) &&& 0x0F
      let lengthType := first &&& 0x03
      if lengthType = 0 then
        if pos + 1 ≥ data.length then .ok none
        else do
          let octets ← (whole data).readRange (pos + 1) 1
          .ok (some ⟨tag, ofOctets octets, pos + 2, false⟩)
      else if lengthType = 1 then
        if pos + 2 ≥ data.length then .ok none
        else do
          let octets ← (whole data).readRange (pos + 1) 2
          .ok (some ⟨tag, ofOctets octets, pos + 3, false⟩)
      else if lengthType = 2 then
        if pos + 4 ≥ data.length then .ok none
        else do
          let octets ← (whole data).readRange (pos + 1) 4
          .ok (some ⟨tag, ofOctets octets, pos + 5, false⟩)
      else if pos + 1 > effectiveEnd then .ok none
      else .ok (some ⟨tag, effectiveEnd - (pos + 1), pos + 1, false⟩)

theorem ok_bind {α β : Type} (a : α) (f : α → Except Fault β) : (Except.ok a >>= f) = f a := rfl

theorem read_whole {data : Bytes} {i : ℕ} {octet : UInt8} (h : data[i]? = some octet) :
    (whole data).read i = .ok octet := by
  have hlt := (List.getElem?_eq_some_iff.mp h).1
  rw [Region.read, if_pos ⟨Nat.zero_le _, hlt⟩]
  show (match data[i]? with
    | some octet => Except.ok octet
    | none => Except.error Fault.outOfBounds) = _
  rw [h]

theorem readRange_whole {data octets : Bytes} {pos n : ℕ} (h : readOctets data pos n = some octets) :
    (whole data).readRange pos n = .ok octets := by
  rw [readOctets] at h
  split_ifs at h with hle
  rw [Region.readRange, if_pos (Or.inr ⟨Nat.zero_le _, hle, le_rfl⟩), ← Option.some.inj h]
  rfl

theorem readOctets_some {data : Bytes} {pos n : ℕ} (h : pos + n ≤ data.length) :
    readOctets data pos n = some ((data.drop pos).take n) := if_pos h

theorem readOctets_none {data : Bytes} {pos n : ℕ} (h : data.length < pos + n) :
    readOctets data pos n = none := if_neg (by omega)

theorem readPacketHeaderChecked_eq (data : Bytes) (pos : ℕ) (dataEnd : Option ℕ)
    (acceptPartial : Bool) :
    readPacketHeaderChecked data pos dataEnd acceptPartial =
      .ok (readPacketHeader data pos dataEnd acceptPartial) := by
  rw [readPacketHeaderChecked, readPacketHeader]
  dsimp only
  by_cases hpos : pos ≥ data.length
  · rw [if_pos hpos, List.getElem?_eq_none hpos]
  have hfirst := List.getElem?_eq_getElem (Nat.lt_of_not_le hpos)
  rw [if_neg hpos, hfirst, read_whole hfirst, ok_bind]
  dsimp only
  by_cases h80 : data[pos] &&& 0x80 = 0
  · rw [if_pos h80, if_pos h80]
  rw [if_neg h80, if_neg h80]
  by_cases h40 : data[pos] &&& 0x40 ≠ 0
  · -- the new format: each length octet is read behind its own test
    rw [if_pos h40, if_pos h40]
    by_cases hlen : pos + 1 ≥ data.length
    · rw [if_pos hlen, List.getElem?_eq_none hlen]
    have hlenFirst := List.getElem?_eq_getElem (Nat.lt_of_not_le hlen)
    rw [if_neg hlen, hlenFirst, read_whole hlenFirst, ok_bind]
    dsimp only
    split_ifs with hone htwo hsecond
    · rfl
    · rw [List.getElem?_eq_none hsecond, Option.map_none]
    · have hread := List.getElem?_eq_getElem (Nat.lt_of_not_le hsecond)
      rw [hread, read_whole hread, ok_bind, Option.map_some]
    · rfl
    · rfl
    · rw [readOctets_none (by omega), Option.map_none]
    · have hread := @readOctets_some data (pos + 2) 4 (by omega)
      rw [hread, readRange_whole hread, ok_bind, Option.map_some]
  · rw [if_neg h40, if_neg h40]
    split_ifs
    · rw [readOctets_none (by omega), Option.map_none]
    · have hread := @readOctets_some data (pos + 1) 1 (by omega)
      rw [hread, readRange_whole hread, ok_bind, Option.map_some]
    · rw [readOctets_none (by omega), Option.map_none]
    · have hread := @readOctets_some data (pos + 1) 2 (by omega)
      rw [hread, readRange_whole hread, ok_bind, Option.map_some]
    · rw [readOctets_none (by omega), Option.map_none]
    · have hread := @readOctets_some data (pos + 1) 4 (by omega)
      rw [hread, readRange_whole hread, ok_bind, Option.map_some]
    · rfl
    · rfl

/-! ### Session key packets -/

/-- The caller passes the whole message as `body`, and its size is the only limit here. -/
def readNativePointMpiChecked (body : Region) (pos : ℕ) :
    Except Fault (Option (Octets 32 × ℕ)) :=
  if pos + 2 > body.data.length then .ok none
  else do
    let bitLength ← body.readRange pos 2
    let byteLength := octetsOfBits (ofOctets bitLength)
    if byteLength ≠ 33 ∨ pos + 2 + byteLength > body.data.length then .ok none
    else do
      let marker ← body.read (pos + 2)
      if marker ≠ 0x40 then .ok none
      else do
        let point ← body.readRange (pos + 3) 32
        if hlen : point.length = 32 then .ok (some (⟨point, hlen⟩, pos + 2 + byteLength))
        else .ok none

section Messages

variable (P : Primitives) (key : DecryptionKey)

/-- `none` ends the whole search. -/
def openRsaPkeskChecked (body : Region) (p : ℕ) : Except Fault (Option (Option Bytes)) :=
  if p + 2 > body.last then .ok none
  else do
    let bitLength ← body.readRange p 2
    let byteLength := octetsOfBits (ofOctets bitLength)
    if p + 2 + byteLength > body.last then .ok none
    else do
      let cipher ← body.readRange (p + 2) byteLength
      .ok (P.rsaDecrypt key.rsaSubkey
        (toOctets (rsaModulusByteLength key.rsaSubkey.modulus) (ofOctets cipher)))

/-- What is done with the point and the wrapped key of a curve recipient. -/
def unwrapSessionKeyChecked (ephemeralPublicKey : Octets 32) (wrapped : Bytes) :
    Except Fault (Option Bytes) :=
  match P.x25519Agree key.x25519PrivateKey ephemeralPublicKey with
  | none => .ok none
  | some sharedSecret =>
    let kek := computeEcdhKek P sharedSecret (buildEcdhKdfParam key.fingerprint) 16
    match aesKeyUnwrap P kek wrapped with
    | none => .ok none
    | some unwrapped =>
      if unwrapped = [] then .ok none
      else do
        let padLength := (← (whole unwrapped).read (unwrapped.length - 1)).toNat
        .ok (if padLength ≥ 1 ∧ padLength ≤ 8 ∧ padLength ≤ unwrapped.length then
          some (unwrapped.take (unwrapped.length - padLength))
        else none)

def openEcdhPkeskChecked (body : Region) (p : ℕ) : Except Fault (Option Bytes) := do
  match ← readNativePointMpiChecked body p with
  | none => .ok none
  | some (ephemeralPublicKey, mpiPos) =>
    if mpiPos ≥ body.last then .ok none
    else do
      let wrappedLength ← body.read mpiPos
      if mpiPos + 1 + wrappedLength.toNat > body.last then .ok none
      else do
        let wrapped ← body.readRange (mpiPos + 1) wrappedLength.toNat
        unwrapSessionKeyChecked P key ephemeralPublicKey wrapped

/-- One session key packet, its fields read inside its body. -/
def tryPkeskChecked (message : Bytes) (bodyPos pkeskEnd : ℕ) (found : Option Bytes) :
    Except Fault (Option (Option Bytes)) := do
  let body : Region := ⟨message, bodyPos, pkeskEnd⟩
  let version ← body.read bodyPos
  if version ≠ 3 then .ok none
  else do
    let thisKeyId ← body.readRange (bodyPos + 1) 8
    let pkAlgo ← body.read (bodyPos + 9)
    if found = none ∧ thisKeyId = key.keyId.1 ∧ pkAlgo = pkAlgorithmOctet key.algorithm then
      match key.algorithm with
      | PGP_KEY_ALGORITHM_RSA => openRsaPkeskChecked P key body (bodyPos + 10)
      | PGP_KEY_ALGORITHM_ED25519_X25519 =>
        (openEcdhPkeskChecked P key body (bodyPos + 10)).map some
    else .ok (some found)

def findSessionKeyChecked (message : Bytes) (pos : ℕ) (found : Option Bytes) :
    Except Fault (Option (Option Bytes × ℕ)) :=
  match _hhead : readPacketHeaderChecked message pos none false with
  | .error fault => .error fault
  | .ok none => .ok (some (found, pos))
  | .ok (some header) =>
    if header.tag ≠ PGP_TAG_PKESK then .ok (some (found, pos))
    else if _hend : header.bodyPos + header.bodyLength > message.length then .ok none
    else
      match tryPkeskChecked P key message header.bodyPos
          (header.bodyPos + header.bodyLength) found with
      | .error fault => .error fault
      | .ok none => .ok none
      | .ok (some found) =>
        findSessionKeyChecked message (header.bodyPos + header.bodyLength) found
termination_by message.length - pos
decreasing_by
  have := bodyPos_gt (Except.ok.inj ((readPacketHeaderChecked_eq _ _ _ _).symm.trans _hhead))
  omega

end Messages

def sessionKeyOfChecked (sessionPlain : Bytes) : Except Fault (Option Bytes) :=
  if sessionPlain = [] then .ok none
  else do
    let cipher ← (whole sessionPlain).read 0
    if cipher ≠ 7 ∧ cipher ≠ 8 ∧ cipher ≠ 9 then .ok none
    else
      let sessionKeyLength := pgpSymmetricSessionKeyLength cipher
      if sessionPlain.length ≠ 1 + sessionKeyLength + 2 then .ok none
      else do
        let sessionKey ← (whole sessionPlain).readRange 1 sessionKeyLength
        let storedChecksum ← (whole sessionPlain).readRange (1 + sessionKeyLength) 2
        .ok (if sessionKeyChecksum sessionKey % 2 ^ 16 ≠ ofOctets storedChecksum then none
          else some sessionKey)

/-! ### The protected packet -/

def decryptSeipChecked (P : Primitives) (sessionKey message : Bytes) (pos : ℕ) :
    Except Fault (Option Bytes) := do
  match ← readPacketHeaderChecked message pos none false with
  | none => .ok none
  | some header =>
    if header.tag ≠ PGP_TAG_SEIP then .ok none
    else if header.bodyPos + header.bodyLength > message.length ∨ header.bodyLength < 1 then
      .ok none
    else do
      let version ← (whole message).read header.bodyPos
      if version ≠ 1 then .ok none
      else do
        let encrypted ← (whole message).readRange (header.bodyPos + 1) (header.bodyLength - 1)
        .ok (some (cfbDecrypt P sessionKey (Octets.zero 16) encrypted))

def checkMdcChecked (P : Primitives) (plain : Bytes) : Except Fault (Option ℕ) :=
  if plain.length < 18 + 2 + 20 then .ok none
  else do
    let mdcHashOffset := plain.length - 20
    let mdcTagOffset := mdcHashOffset - 2
    let trailer ← (whole plain).readRange mdcTagOffset 2
    if trailer ≠ [0xD3, 0x14] then .ok none
    else do
      let protectedOctets ← (whole plain).readRange 0 mdcHashOffset
      let storedMdc ← (whole plain).readRange mdcHashOffset 20
      .ok (if (P.sha1 protectedOctets).1 ≠ storedMdc then none else some mdcTagOffset)

/-- The literal body stays where it is, as `literalBody` and `literalBodyLength`. -/
def literalPartsChecked (packets : Bytes) (wantSignature : Bool) (literal : PacketHeader) :
    Except Fault (Option (Region × Option Bytes)) :=
  let sigPacketStart := literal.bodyPos + literal.bodyLength
  if literal.tag ≠ PGP_TAG_LITERAL_DATA ∨ sigPacketStart > packets.length then .ok none
  else
    let literalBody : Region := ⟨packets, literal.bodyPos, sigPacketStart⟩
    if wantSignature = false then .ok (some (literalBody, none))
    else do
      match ← readPacketHeaderChecked packets sigPacketStart none false with
      | none => .ok none
      | some signature =>
        if signature.tag ≠ PGP_TAG_SIGNATURE ∨
            signature.bodyPos + signature.bodyLength > packets.length then .ok none
        else do
          let signaturePacket ← (whole packets).readRange sigPacketStart
            (signature.bodyPos + signature.bodyLength - sigPacketStart)
          .ok (some (literalBody, some signaturePacket))

def parseDecompressedPacketsChecked (packets : Bytes) (wantSignature : Bool) :
    Except Fault (Option (Region × Option Bytes)) := do
  match ← readPacketHeaderChecked packets 0 none false with
  | none => .ok none
  | some first =>
    if first.tag = PGP_TAG_ONE_PASS_SIG then
      match ← readPacketHeaderChecked packets (first.bodyPos + first.bodyLength) none false with
      | none => .ok none
      | some literal => literalPartsChecked packets wantSignature literal
    else literalPartsChecked packets wantSignature first

def parseInnerPacketChecked (P : Primitives) (innerData : Bytes) (innerPos innerEnd : ℕ)
    (wantSignature : Bool) : Except Fault (Option (Region × Option Bytes)) := do
  match ← readPacketHeaderChecked innerData innerPos (some innerEnd) false with
  | none => .ok none
  | some header =>
    if header.bodyPos + header.bodyLength > innerEnd then .ok none
    else if header.tag = PGP_TAG_COMPRESSED_DATA then
      if header.bodyLength < 1 then .ok none
      else do
        let compAlgo ← (whole innerData).read header.bodyPos
        let compData ← (whole innerData).readRange (header.bodyPos + 1) (header.bodyLength - 1)
        match decompressBody P compAlgo compData with
        | none => .ok none
        | some decompressed => do
          let packets ← reassembledOr decompressed
          parseDecompressedPacketsChecked packets wantSignature
    else if header.tag = PGP_TAG_LITERAL_DATA then
      .ok (some (⟨innerData, header.bodyPos, header.bodyPos + header.bodyLength⟩, none))
    else .ok none

def literalContentChecked (literalBody : Region) : Except Fault (Option Bytes) :=
  let literalBodyLength := literalBody.last - literalBody.first
  if literalBodyLength < 6 then .ok none
  else do
    let filenameLength ← literalBody.read (literalBody.first + 1)
    let contentOffset := 1 + 1 + filenameLength.toNat + 4
    if contentOffset > literalBodyLength then .ok none
    else (literalBody.readRange (literalBody.first + contentOffset)
      (literalBodyLength - contentOffset)).map some

def parseProtectedChecked (P : Primitives) (plain : Bytes) (wantSignature : Bool) :
    Except Fault (Option (Region × Option Bytes)) := do
  match ← checkMdcChecked P plain with
  | none => .ok none
  | some mdcTagOffset =>
    match ← reassemblePartialBodyLengthRange plain 18 mdcTagOffset with
    | some inner => parseInnerPacketChecked P inner 0 inner.length wantSignature
    | none => parseInnerPacketChecked P plain 18 mdcTagOffset wantSignature

def openMessageChecked (P : Primitives) (key : DecryptionKey) (inputMessage : Bytes)
    (wantSignature : Bool) : Except Fault (Option (Region × Option Bytes)) := do
  let message ← reassembledOr inputMessage
  match ← findSessionKeyChecked P key message 0 none with
  | none | some (none, _) => .ok none
  | some (some sessionPlain, pos) =>
    match ← sessionKeyOfChecked sessionPlain with
    | none => .ok none
    | some sessionKey =>
      match ← decryptSeipChecked P sessionKey message pos with
      | none => .ok none
      | some plain => parseProtectedChecked P plain wantSignature

def parseAndDecryptMessageChecked (P : Primitives) (key : DecryptionKey) (inputMessage : Bytes)
    (wantSignature : Bool) : Except Fault (Option Bytes × Option Bytes) := do
  match ← openMessageChecked P key inputMessage wantSignature with
  | none => .ok (none, none)
  | some (literalBody, signaturePacket) =>
    (literalContentChecked literalBody).map fun content => (content, signaturePacket)


/-! ### Behind the session key packets nothing else is read -/

theorem read_whole_getElem {data : Bytes} {i : ℕ} (h : i < data.length) :
    (whole data).read i = .ok data[i] := read_whole (List.getElem?_eq_getElem h)

theorem readRange_whole_le {data : Bytes} {pos n : ℕ} (h : pos + n ≤ data.length) :
    (whole data).readRange pos n = .ok ((data.drop pos).take n) :=
  readRange_whole (readOctets_some h)

theorem unwrapSessionKeyChecked_eq (P : Primitives) (key : DecryptionKey)
    (ephemeralPublicKey : Octets 32) (wrapped : Bytes) :
    unwrapSessionKeyChecked P key ephemeralPublicKey wrapped =
      .ok ((P.x25519Agree key.x25519PrivateKey ephemeralPublicKey).bind fun sharedSecret =>
        (aesKeyUnwrap P (computeEcdhKek P sharedSecret (buildEcdhKdfParam key.fingerprint) 16)
          wrapped).bind fun unwrapped => unwrapped.getLast?.bind fun padLength =>
            if padLength.toNat ≥ 1 ∧ padLength.toNat ≤ 8 ∧ padLength.toNat ≤ unwrapped.length then
              some (unwrapped.take (unwrapped.length - padLength.toNat))
            else none) := by
  rw [unwrapSessionKeyChecked]
  cases P.x25519Agree key.x25519PrivateKey ephemeralPublicKey with
  | none => rfl
  | some sharedSecret =>
      dsimp only
      rw [Option.bind_some]
      cases aesKeyUnwrap P
          (computeEcdhKek P sharedSecret (buildEcdhKdfParam key.fingerprint) 16) wrapped with
      | none => rfl
      | some unwrapped =>
          dsimp only
          rw [Option.bind_some]
          by_cases hnil : unwrapped = []
          · rw [if_pos hnil, hnil]
            rfl
          · have hlast : unwrapped.length - 1 < unwrapped.length :=
              Nat.sub_one_lt (List.length_pos_iff.mpr hnil).ne'
            rw [if_neg hnil, read_whole_getElem hlast, ok_bind, List.getLast?_eq_getElem?,
              List.getElem?_eq_getElem hlast, Option.bind_some]

theorem sessionKeyOfChecked_eq (sessionPlain : Bytes) :
    sessionKeyOfChecked sessionPlain = .ok (sessionKeyOf sessionPlain) := by
  rw [sessionKeyOfChecked]
  cases sessionPlain with
  | nil => rfl
  | cons cipher rest =>
      rw [if_neg (List.cons_ne_nil _ _), read_whole_getElem (Nat.zero_lt_succ _), ok_bind,
        List.getElem_cons_zero, sessionKeyOf]
      dsimp only
      by_cases hcipher : cipher ≠ 7 ∧ cipher ≠ 8 ∧ cipher ≠ 9
      · rw [if_pos hcipher, if_pos hcipher]
      rw [if_neg hcipher, if_neg hcipher]
      by_cases hlen : rest.length ≠ pgpSymmetricSessionKeyLength cipher + 2
      · rw [if_pos hlen, if_pos (by rw [List.length_cons]; omega)]
      have hfits : (cipher :: rest).length = 1 + pgpSymmetricSessionKeyLength cipher + 2 := by
        rw [List.length_cons]
        omega
      rw [if_neg hlen, if_neg (not_not_intro hfits), readRange_whole_le (by omega), ok_bind,
        readRange_whole_le (by omega), ok_bind, Nat.add_comm 1, List.drop_succ_cons,
        List.drop_succ_cons, List.drop_zero]
      rfl

theorem decryptSeipChecked_eq (P : Primitives) (sessionKey message : Bytes) (pos : ℕ) :
    decryptSeipChecked P sessionKey message pos = .ok (decryptSeip P sessionKey message pos) := by
  rw [decryptSeipChecked, decryptSeip, readPacketHeaderChecked_eq, ok_bind]
  cases readPacketHeader message pos none false with
  | none => rfl
  | some header =>
      dsimp only
      by_cases htag : header.tag ≠ PGP_TAG_SEIP
      · rw [if_pos htag, if_pos htag]
      rw [if_neg htag, if_neg htag]
      by_cases hover : header.bodyPos + header.bodyLength > message.length
      · rw [if_pos (Or.inl hover), readOctets_none hover]
      rw [readOctets_some (Nat.le_of_not_lt hover)]
      by_cases hempty : header.bodyLength < 1
      · rw [if_pos (Or.inr hempty), Nat.lt_one_iff.mp hempty, List.take_zero]
      have hlt : header.bodyPos < message.length := by omega
      obtain ⟨n, hn⟩ : ∃ n, header.bodyLength = n + 1 := ⟨header.bodyLength - 1, by omega⟩
      rw [if_neg (by omega), read_whole_getElem hlt, ok_bind, List.drop_eq_getElem_cons hlt, hn,
        List.take_succ_cons, Nat.add_sub_cancel]
      by_cases hversion : message[header.bodyPos] = 1
      · rw [if_neg (not_not_intro hversion), readRange_whole_le (by omega), ok_bind, hversion]
        rfl
      · rw [if_pos hversion]
        split
        · rename_i hone
          exact absurd (List.cons.inj (Option.some.inj hone)).1 hversion
        · rfl

theorem checkMdcChecked_eq (P : Primitives) (plain : Bytes) :
    checkMdcChecked P plain = .ok (checkMdc P plain) := by
  rw [checkMdcChecked, checkMdc]
  dsimp only
  by_cases hshort : plain.length < 18 + 2 + 20
  · rw [if_pos hshort, if_pos hshort]
  rw [if_neg hshort, if_neg hshort, readRange_whole_le (by omega), ok_bind]
  by_cases htag : (plain.drop (plain.length - 20 - 2)).take 2 ≠ [0xD3, 0x14]
  · rw [if_pos htag, if_pos htag]
  have hstored : (plain.drop (plain.length - 20)).take 20 = plain.drop (plain.length - 20) :=
    List.take_of_length_le (by rw [List.length_drop]; omega)
  rw [if_neg htag, if_neg htag, readRange_whole_le (by omega), ok_bind,
    readRange_whole_le (by omega), ok_bind, hstored, List.drop_zero]

/-! ### The packets inside -/

namespace Region

/-- A region of octets that are there. -/
structure Held (region : Region) : Prop where
  first_le : region.first ≤ region.last
  last_le : region.last ≤ region.data.length

def octets (region : Region) : Bytes := window region.data region.first region.last

theorem take_eq_octets (data : Bytes) (pos n : ℕ) :
    (data.drop pos).take n = octets ⟨data, pos, pos + n⟩ := by
  rw [octets, window, Nat.add_sub_cancel_left]

theorem Held.length_octets {region : Region} (h : region.Held) :
    region.octets.length = region.last - region.first := length_window region.first h.last_le

theorem Held.read {region : Region} (h : region.Held) {i : ℕ}
    (hi : i < region.last - region.first) :
    region.read (region.first + i) = .ok (region.octets.getD i 0) := by
  have hfirst := h.first_le
  have hlast := h.last_le
  have hget : region.data[region.first + i]? = some (region.octets.getD i 0) := by
    have hoctet : region.octets[i]? = region.data[region.first + i]? := by
      rw [octets, window, List.getElem?_take_of_lt hi, List.getElem?_drop]
    have hsome := List.getElem?_eq_getElem (show i < region.octets.length by rwa [h.length_octets])
    rw [← hoctet, List.getD_eq_getElem?_getD, hsome, Option.getD_some]
  rw [Region.read, if_pos ⟨by omega, by omega⟩, hget]

theorem Held.readRange {region : Region} (h : region.Held) {i n : ℕ}
    (hi : i + n ≤ region.last - region.first) :
    region.readRange (region.first + i) n = .ok ((region.octets.drop i).take n) := by
  have hfirst := h.first_le
  have hlast := h.last_le
  rw [Region.readRange, if_pos (Or.inr ⟨by omega, by omega, hlast⟩), octets, window,
    List.drop_take, List.take_take, Nat.min_eq_left (by omega), List.drop_drop]

end Region

/-- The checked result is there and is the unchecked one. -/
def Gives (checked : Except Fault (Option (Region × Option Bytes)))
    (unchecked : Option (Bytes × Option Bytes)) : Prop :=
  ∃ opened, checked = .ok opened ∧ (∀ parts ∈ opened, parts.1.Held) ∧
    unchecked = opened.map fun parts => (parts.1.octets, parts.2)

theorem gives_none : Gives (.ok none) none := ⟨none, rfl, nofun, rfl⟩

theorem gives_some {region : Region} (h : region.Held) (signature : Option Bytes) :
    Gives (.ok (some (region, signature))) (some (region.octets, signature)) :=
  ⟨_, rfl, fun _ hparts => Option.some.inj hparts ▸ h, rfl⟩

theorem literalContentChecked_eq {literalBody : Region} (h : literalBody.Held) :
    literalContentChecked literalBody = .ok (literalContent literalBody.octets) := by
  rw [literalContentChecked, literalContent, h.length_octets]
  dsimp only
  by_cases hshort : literalBody.last - literalBody.first < 6
  · rw [if_pos hshort, if_pos hshort]
  rw [if_neg hshort, if_neg hshort, h.read (by omega), ok_bind]
  by_cases hover : 1 + 1 + (literalBody.octets.getD 1 0).toNat + 4 >
      literalBody.last - literalBody.first
  · rw [if_pos hover, if_pos hover]
  have hrest : (literalBody.octets.drop (1 + 1 + (literalBody.octets.getD 1 0).toNat + 4)).take
      (literalBody.last - literalBody.first - (1 + 1 + (literalBody.octets.getD 1 0).toNat + 4)) =
      literalBody.octets.drop (1 + 1 + (literalBody.octets.getD 1 0).toNat + 4) :=
    List.take_of_length_le (by rw [List.length_drop, h.length_octets])
  rw [if_neg hover, if_neg hover, h.readRange (by omega), hrest]
  rfl

theorem literalPartsChecked_gives (packets : Bytes) (wantSignature : Bool)
    (literal : PacketHeader) :
    Gives (literalPartsChecked packets wantSignature literal)
      (if literal.tag ≠ PGP_TAG_LITERAL_DATA then none
      else
        (readOctets packets literal.bodyPos literal.bodyLength).bind fun body =>
          if wantSignature = false then some (body, none)
          else
            (readPacketHeader packets (literal.bodyPos + literal.bodyLength) none false).bind
              fun signature =>
                if signature.tag ≠ PGP_TAG_SIGNATURE ∨
                    signature.bodyPos + signature.bodyLength > packets.length then none
                else some (body, some ((packets.drop (literal.bodyPos + literal.bodyLength)).take
                  (signature.bodyPos + signature.bodyLength -
                    (literal.bodyPos + literal.bodyLength))))) := by
  rw [literalPartsChecked]
  dsimp only
  by_cases htag : literal.tag ≠ PGP_TAG_LITERAL_DATA
  · rw [if_pos (Or.inl htag), if_pos htag]
    exact gives_none
  rw [if_neg htag]
  by_cases hover : literal.bodyPos + literal.bodyLength > packets.length
  · rw [if_pos (Or.inr hover), readOctets_none hover]
    exact gives_none
  have hheld : Region.Held ⟨packets, literal.bodyPos, literal.bodyPos + literal.bodyLength⟩ :=
    ⟨Nat.le_add_right _ _, Nat.le_of_not_lt hover⟩
  rw [if_neg (not_or.mpr ⟨htag, hover⟩), readOctets_some hheld.last_le, Option.bind_some,
    take_eq_octets]
  by_cases hwant : wantSignature = false
  · rw [if_pos hwant, if_pos hwant]
    exact gives_some hheld none
  rw [if_neg hwant, if_neg hwant, readPacketHeaderChecked_eq, ok_bind]
  cases readPacketHeader packets (literal.bodyPos + literal.bodyLength) none false with
  | none => exact gives_none
  | some signature =>
      rw [Option.bind_some]
      dsimp only
      split_ifs with hsignature
      · exact gives_none
      · rw [readRange_whole_le (by omega), ok_bind]
        exact gives_some hheld _

theorem parseDecompressedPacketsChecked_gives (packets : Bytes) (wantSignature : Bool) :
    Gives (parseDecompressedPacketsChecked packets wantSignature)
      (parseDecompressedPackets packets wantSignature) := by
  rw [parseDecompressedPacketsChecked, parseDecompressedPackets, readPacketHeaderChecked_eq, ok_bind]
  cases readPacketHeader packets 0 none false with
  | none => exact gives_none
  | some first =>
      rw [Option.bind_eq_bind, Option.bind_some]
      dsimp only
      by_cases hone : first.tag = PGP_TAG_ONE_PASS_SIG
      · rw [if_pos hone, if_pos hone, readPacketHeaderChecked_eq, ok_bind]
        cases readPacketHeader packets (first.bodyPos + first.bodyLength) none false with
        | none => exact gives_none
        | some literal => exact literalPartsChecked_gives packets wantSignature literal
      · rw [if_neg hone, if_neg hone]
        exact literalPartsChecked_gives packets wantSignature first

theorem parseInnerPacketChecked_gives (P : Primitives) {innerData : Bytes} {innerPos innerEnd : ℕ}
    (hend : innerEnd ≤ innerData.length) (wantSignature : Bool) :
    ∃ unchecked, parseInnerPacket P innerData innerPos innerEnd wantSignature = .ok unchecked ∧
      Gives (parseInnerPacketChecked P innerData innerPos innerEnd wantSignature) unchecked := by
  rw [parseInnerPacketChecked, parseInnerPacket, readPacketHeaderChecked_eq, ok_bind]
  cases readPacketHeader innerData innerPos (some innerEnd) false with
  | none => exact ⟨none, rfl, gives_none⟩
  | some header =>
      dsimp only
      by_cases hover : header.bodyPos + header.bodyLength > innerEnd
      · rw [if_pos hover, if_pos hover]
        exact ⟨none, rfl, gives_none⟩
      rw [if_neg hover, if_neg hover]
      by_cases hcompressed : header.tag = PGP_TAG_COMPRESSED_DATA
      · rw [if_pos hcompressed, if_pos hcompressed]
        by_cases hempty : header.bodyLength < 1
        · rw [if_pos hempty, Nat.lt_one_iff.mp hempty, List.take_zero]
          exact ⟨none, rfl, gives_none⟩
        have hlt : header.bodyPos < innerData.length := by omega
        obtain ⟨n, hn⟩ : ∃ n, header.bodyLength = n + 1 := ⟨header.bodyLength - 1, by omega⟩
        rw [if_neg hempty, read_whole_getElem hlt, ok_bind, readRange_whole_le (by omega), ok_bind,
          List.drop_eq_getElem_cons hlt, hn, List.take_succ_cons, Nat.add_sub_cancel]
        dsimp only
        cases decompressBody P innerData[header.bodyPos]
            ((innerData.drop (header.bodyPos + 1)).take n) with
        | none => exact ⟨none, rfl, gives_none⟩
        | some decompressed =>
            obtain ⟨packets, hpackets⟩ := reassembledOr_ok decompressed
            dsimp only
            rw [hpackets, ok_bind]
            exact ⟨_, rfl, parseDecompressedPacketsChecked_gives packets wantSignature⟩
      · rw [if_neg hcompressed, if_neg hcompressed]
        have hheld : Region.Held ⟨innerData, header.bodyPos, header.bodyPos + header.bodyLength⟩ :=
          ⟨Nat.le_add_right _ _, (Nat.le_of_not_lt hover).trans hend⟩
        split_ifs
        · rw [take_eq_octets]
          exact ⟨_, rfl, gives_some hheld none⟩
        · exact ⟨none, rfl, gives_none⟩

theorem checkMdc_lt {P : Primitives} {plain : Bytes} {mdcTagOffset : ℕ}
    (h : checkMdc P plain = some mdcTagOffset) :
    18 ≤ mdcTagOffset ∧ mdcTagOffset + 22 = plain.length ∧
      (plain.drop mdcTagOffset).take 2 = [0xD3, 0x14] := by
  rw [checkMdc] at h
  split at h
  · cases h
  · dsimp only at h
    split_ifs at h with htag
    obtain rfl := Option.some.inj h
    exact ⟨by omega, by omega, not_not.mp htag⟩

/-- Putting the chunks together is the one step behind the session key packets that can
read what is not there. -/
theorem parseProtectedChecked_gives (P : Primitives) (plain : Bytes) (wantSignature : Bool)
    (hsplice : ∀ mdcTagOffset fault, checkMdc P plain = some mdcTagOffset →
      reassemblePartialBodyLengthRange plain 18 mdcTagOffset ≠ .error fault) :
    ∃ unchecked, parseProtected P plain wantSignature = .ok unchecked ∧
      Gives (parseProtectedChecked P plain wantSignature) unchecked := by
  rw [parseProtectedChecked, parseProtected, checkMdcChecked_eq, ok_bind]
  cases hmdc : checkMdc P plain with
  | none => exact ⟨none, rfl, gives_none⟩
  | some mdcTagOffset =>
      have hle := (checkMdc_lt hmdc).2.1
      dsimp only
      cases hinner : reassemblePartialBodyLengthRange plain 18 mdcTagOffset with
      | error fault => exact absurd hinner (hsplice mdcTagOffset fault hmdc)
      | ok inner =>
          rw [ok_bind]
          cases inner with
          | some inner => exact parseInnerPacketChecked_gives P le_rfl wantSignature
          | none => exact parseInnerPacketChecked_gives P (by omega) wantSignature

end HashCryptoLib.Pgp
