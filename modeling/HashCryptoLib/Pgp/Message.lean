import HashCryptoLib.Pgp.Bzip2
import HashCryptoLib.Pgp.SessionKey

/-!
Encrypted messages in memory: the two builders and the parser. A message is the
session key packets of its recipients and one integrity-protected packet around
a compressed one, which holds a literal packet, or a one-pass signature, a
literal packet and a signature.
-/

namespace HashCryptoLib.Pgp

open BigEndian Cursor

/-! ### Building -/

/-- The random draws of one message, and the clock. Of `sessionKey` the cipher's
key length is used. -/
structure MessageEnv where
  sessionKey : Octets 32
  prefixOctets : Octets 16
  seed : ℕ → ℕ
  now : UInt32

def MessageEnv.sessionKeyFor (env : MessageEnv) (cipherAlgorithmOctet : UInt8) : Bytes :=
  env.sessionKey.1.take (pgpSymmetricSessionKeyLength cipherAlgorithmOctet)

def buildOnePassSignaturePacket (signatureType hashAlgorithm publicKeyAlgorithm : UInt8)
    (keyId : Octets 8) (isLast : Bool) : Bytes :=
  writePacket PGP_TAG_ONE_PASS_SIG
    (3 :: signatureType :: hashAlgorithm :: publicKeyAlgorithm ::
      (keyId.1 ++ [if isLast then 1 else 0]))

/-- Binary data without a file name and without a date. -/
def literalBody (plaintext : Bytes) : Bytes :=
  98 :: 0 :: (appendBigEndian32 0 ++ plaintext)

def compressedPacket (P : Primitives) (content : Bytes) : Bytes :=
  writePacket PGP_TAG_COMPRESSED_DATA (1 :: P.deflate content)

/-- What is encrypted: the random prefix with its last two octets repeated, the
content, and the modification detection code over all of it. -/
def plainForCfb (P : Primitives) (prefixOctets : Octets 16) (content : Bytes) : Bytes :=
  let mdcPreimage := prefixOctets.1 ++ prefixOctets.1.drop 14 ++ content ++ [0xD3, 0x14]
  mdcPreimage ++ (P.sha1 mdcPreimage).1

def seipPacket (P : Primitives) (sessionKey : Bytes) (prefixOctets : Octets 16) (content : Bytes) :
    Bytes :=
  writePacket PGP_TAG_SEIP
    (1 :: cfbEncrypt P sessionKey (Octets.zero 16) (plainForCfb P prefixOctets content))

/-- The session key packets and the protected packet of a message. -/
def encryptContent (P : Primitives) (env : MessageEnv) (recipients : List PgpEncryptionRecipient)
    (cipherAlgorithmOctet : UInt8) (content : Bytes) : Option Bytes :=
  let sessionKey := env.sessionKeyFor cipherAlgorithmOctet
  (buildPkeskPackets P sessionKey cipherAlgorithmOctet env.seed 0 recipients).map
    (· ++ seipPacket P sessionKey env.prefixOctets (compressedPacket P content))

def buildEncryptedMessageMultiRecipient (P : Primitives) (env : MessageEnv)
    (recipients : List PgpEncryptionRecipient) (cipherAlgorithmOctet : UInt8) (plaintext : Bytes) :
    Option Bytes :=
  if recipients = [] then none
  else
    encryptContent P env recipients cipherAlgorithmOctet
      (writePacket PGP_TAG_LITERAL_DATA (literalBody plaintext))

/-- The announcement of a signature by this key, the last one of the message. -/
def SigningKey.onePass (key : SigningKey) : Bytes :=
  buildOnePassSignaturePacket 0 key.hashAlgorithm key.pkAlgorithm key.keyId true

def buildEncryptedSignedMessageMultiRecipient (P : Primitives) (env : MessageEnv)
    (recipients : List PgpEncryptionRecipient) (signingKey : SigningKey)
    (cipherAlgorithmOctet : UInt8) (plaintext : Bytes) : Option Bytes :=
  if recipients = [] then none
  else
    let sigPacket := signingKey.sign P 0 plaintext [] env.now
    if sigPacket = [] then none
    else
      encryptContent P env recipients cipherAlgorithmOctet
        (signingKey.onePass ++ writePacket PGP_TAG_LITERAL_DATA (literalBody plaintext) ++
          sigPacket)

/-! ### Parsing -/

/-- The reassembled data, or the data itself where nothing was reassembled. -/
def reassembledOr (data : Bytes) : Except Fault Bytes :=
  (reassemblePartialBodyLengths data).map (·.getD data)

/-- The protected packet at `pos`, deciphered. -/
def decryptSeip (P : Primitives) (sessionKey message : Bytes) (pos : ℕ) : Option Bytes :=
  match readPacketHeader message pos none false with
  | none => none
  | some header =>
    if header.tag ≠ PGP_TAG_SEIP then none
    else
      match readOctets message header.bodyPos header.bodyLength with
      | some (1 :: encrypted) => some (cfbDecrypt P sessionKey (Octets.zero 16) encrypted)
      | _ => none

/-- Where the modification detection code starts, if it is there and right. -/
def checkMdc (P : Primitives) (plain : Bytes) : Option ℕ :=
  if plain.length < 18 + 2 + 20 then none
  else
    let mdcHashOffset := plain.length - 20
    let mdcTagOffset := mdcHashOffset - 2
    if (plain.drop mdcTagOffset).take 2 ≠ [0xD3, 0x14] then none
    else if (P.sha1 (plain.take mdcHashOffset)).1 ≠ plain.drop mdcHashOffset then none
    else some mdcTagOffset

def decompressBody (P : Primitives) (compAlgo : UInt8) (compData : Bytes) : Option Bytes :=
  if compAlgo = 0 then some compData
  else if compAlgo = 1 then P.inflate compData
  else if compAlgo = 2 then P.zlibDecompress compData
  else if compAlgo = 3 then bzip2DecompressBuffer compData
  else none

/-- The packets inside a compressed one: the literal body and, where it is asked
for, the signature packet behind it. -/
def parseDecompressedPackets (packets : Bytes) (wantSignature : Bool) :
    Option (Bytes × Option Bytes) := do
  let first ← readPacketHeader packets 0 none false
  let literal ← if first.tag = PGP_TAG_ONE_PASS_SIG then
      readPacketHeader packets (first.bodyPos + first.bodyLength) none false
    else some first
  if literal.tag ≠ PGP_TAG_LITERAL_DATA then none
  else
    let body ← readOctets packets literal.bodyPos literal.bodyLength
    if wantSignature = false then some (body, none)
    else
      let sigPacketStart := literal.bodyPos + literal.bodyLength
      let signature ← readPacketHeader packets sigPacketStart none false
      if signature.tag ≠ PGP_TAG_SIGNATURE ∨
          signature.bodyPos + signature.bodyLength > packets.length then none
      else
        some (body, some ((packets.drop sigPacketStart).take
          (signature.bodyPos + signature.bodyLength - sigPacketStart)))

/-- The inner packet between `innerPos` and `innerEnd`. A literal packet outside
a compressed one comes without a signature, asked for or not. -/
def parseInnerPacket (P : Primitives) (innerData : Bytes) (innerPos innerEnd : ℕ)
    (wantSignature : Bool) : Except Fault (Option (Bytes × Option Bytes)) :=
  match readPacketHeader innerData innerPos (some innerEnd) false with
  | none => .ok none
  | some header =>
    if header.bodyPos + header.bodyLength > innerEnd then .ok none
    else
      let body := (innerData.drop header.bodyPos).take header.bodyLength
      if header.tag = PGP_TAG_COMPRESSED_DATA then
        match body with
        | [] => .ok none
        | compAlgo :: compData =>
          match decompressBody P compAlgo compData with
          | none => .ok none
          | some decompressed =>
            (reassembledOr decompressed).map fun packets =>
              parseDecompressedPackets packets wantSignature
      else if header.tag = PGP_TAG_LITERAL_DATA then .ok (some (body, none))
      else .ok none

/-- The content behind the format octet, the file name and the date. -/
def literalContent (literalBody : Bytes) : Option Bytes :=
  if literalBody.length < 6 then none
  else
    let contentOffset := 1 + 1 + (literalBody.getD 1 0).toNat + 4
    if contentOffset > literalBody.length then none else some (literalBody.drop contentOffset)

/-- The inner packets of a deciphered protected packet. -/
def parseProtected (P : Primitives) (plain : Bytes) (wantSignature : Bool) :
    Except Fault (Option (Bytes × Option Bytes)) :=
  match checkMdc P plain with
  | none => .ok none
  | some mdcTagOffset =>
    match reassemblePartialBodyLengthRange plain 18 mdcTagOffset with
    | .error fault => .error fault
    | .ok (some inner) => parseInnerPacket P inner 0 inner.length wantSignature
    | .ok none => parseInnerPacket P plain 18 mdcTagOffset wantSignature

/-- The body of the literal packet of a message, and its signature packet. -/
def openMessage (P : Primitives) (key : DecryptionKey) (inputMessage : Bytes)
    (wantSignature : Bool) : Except Fault (Option (Bytes × Option Bytes)) :=
  match reassembledOr inputMessage with
  | .error fault => .error fault
  | .ok message =>
    match findSessionKey P key message 0 none with
    | .error fault => .error fault
    | .ok none => .ok none
    | .ok (some (found, pos)) =>
      match (found.bind sessionKeyOf).bind fun sessionKey =>
          decryptSeip P sessionKey message pos with
      | none => .ok none
      | some plain => parseProtected P plain wantSignature

/-- The plaintext, `none` where the source returns `false`, and what was stored
in `*outSignaturePacket`, which happens before the last checks. -/
def parseAndDecryptMessage (P : Primitives) (key : DecryptionKey) (inputMessage : Bytes)
    (wantSignature : Bool) : Except Fault (Option Bytes × Option Bytes) :=
  (openMessage P key inputMessage wantSignature).map fun
    | none => (none, none)
    | some (literalBody, signaturePacket) => (literalContent literalBody, signaturePacket)

end HashCryptoLib.Pgp
