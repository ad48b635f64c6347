import HashCryptoLib.Pgp.Signature
import Mathlib.Data.List.DropRight

/-!
What the octets under a signature say. Nothing separates the document from what is hashed
behind it, and a document may itself end like a trailer; but the last four octets always tell
how far back the hashed part goes, so the octets can be read from their end.
-/

namespace HashCryptoLib.Pgp

open BigEndian Cursor

/-! ### Reading from the end -/

@[simp] theorem rdrop_append_length {α : Type*} (front back : List α) :
    (front ++ back).rdrop back.length = front := by
  rw [List.rdrop, List.length_append, Nat.add_sub_cancel, List.take_left]

@[simp] theorem rtake_append_length {α : Type*} (front back : List α) :
    (front ++ back).rtake back.length = back := by
  rw [List.rtake, List.length_append, Nat.add_sub_cancel, List.drop_left]

/-- Everything that is hashed for a version-4 signature. -/
@[ext]
structure SignedContents where
  documentData : Bytes
  signatureType : UInt8
  pkAlgorithm : UInt8
  hashAlgorithm : UInt8
  hashedSubpackets : Bytes
  deriving DecidableEq, Repr

def SignedContents.octets (contents : SignedContents) : Bytes :=
  toBeHashed contents.documentData contents.signatureType contents.pkAlgorithm
    contents.hashAlgorithm contents.hashedSubpackets

/-- The contents, from the number in the last four octets backwards. -/
def signedContentsOf (octets : Bytes) : SignedContents :=
  let areaLength := ofOctets (octets.rtake 4) - 6
  -- what is left of the octets as the trailer, the area and the fields are taken off
  let hashedPart := octets.rdrop 6
  let fields := (hashedPart.rdrop areaLength).rtake 6
  { documentData := (hashedPart.rdrop areaLength).rdrop 6
    signatureType := fields.getD 1 0
    pkAlgorithm := fields.getD 2 0
    hashAlgorithm := fields.getD 3 0
    hashedSubpackets := hashedPart.rtake areaLength }

theorem signedContentsOf_octets {contents : SignedContents}
    (hlength : 6 + contents.hashedSubpackets.length < 2 ^ 32) :
    signedContentsOf contents.octets = contents := by
  obtain ⟨documentData, signatureType, pkAlgorithm, hashAlgorithm, area⟩ := contents
  generalize hfields : [4, signatureType, pkAlgorithm, hashAlgorithm] ++
    appendBigEndian16 area.length = fields
  generalize hnumber : appendBigEndian32 (6 + area.length) = number
  have hfields6 : fields.length = 6 := by simp [← hfields]
  have hnumber4 : number.length = 4 := by simp [← hnumber]
  have htrailer6 : ([4, 0xFF] ++ number).length = 6 := by simp [hnumber4]
  have hshape : SignedContents.octets ⟨documentData, signatureType, pkAlgorithm, hashAlgorithm,
      area⟩ = documentData ++ fields ++ area ++ ([4, 0xFF] ++ number) := by
    simp only [SignedContents.octets, toBeHashed, ← hfields, ← hnumber, List.append_assoc]
  have hlast : (documentData ++ fields ++ area ++ ([4, 0xFF] ++ number)).rtake 4 = number := by
    rw [← List.append_assoc, ← hnumber4]
    exact rtake_append_length _ _
  have harea : ofOctets number - 6 = area.length := by
    rw [← hnumber, appendBigEndian32, ofOctets_toOctets_of_lt hlength]
    omega
  have hrest : (documentData ++ fields ++ area ++ ([4, 0xFF] ++ number)).rdrop 6 =
      documentData ++ fields ++ area := by
    rw [← htrailer6]
    exact rdrop_append_length _ _
  have hdocument : (documentData ++ fields).rdrop 6 = documentData := by
    rw [← hfields6]
    exact rdrop_append_length _ _
  have hheader : (documentData ++ fields).rtake 6 = fields := by
    rw [← hfields6]
    exact rtake_append_length _ _
  simp only [signedContentsOf, hshape, hlast, harea, hrest, rdrop_append_length,
    rtake_append_length, hdocument, hheader]
  simp [← hfields]

/-- The octets determine all they were made from, the algorithms too. -/
theorem octets_injective {contents contents' : SignedContents}
    (hlength : 6 + contents.hashedSubpackets.length < 2 ^ 32)
    (hlength' : 6 + contents'.hashedSubpackets.length < 2 ^ 32)
    (h : contents.octets = contents'.octets) : contents = contents' := by
  calc contents
      = signedContentsOf contents.octets := (signedContentsOf_octets hlength).symm
    _ = signedContentsOf contents'.octets := by rw [h]
    _ = contents' := signedContentsOf_octets hlength'

/-- With the algorithms given, the rest is determined. -/
theorem toBeHashed_injective {documentData documentData' hashedSubpackets hashedSubpackets' : Bytes}
    {signatureType signatureType' pkAlgorithm hashAlgorithm : UInt8}
    (hshort : hashedSubpackets.length < 2 ^ 31) (hshort' : hashedSubpackets'.length < 2 ^ 31)
    (h : toBeHashed documentData signatureType pkAlgorithm hashAlgorithm hashedSubpackets =
      toBeHashed documentData' signatureType' pkAlgorithm hashAlgorithm hashedSubpackets') :
    documentData = documentData' ∧ signatureType = signatureType' ∧
      hashedSubpackets = hashedSubpackets' := by
  have heq := @octets_injective
    ⟨documentData, signatureType, pkAlgorithm, hashAlgorithm, hashedSubpackets⟩
    ⟨documentData', signatureType', pkAlgorithm, hashAlgorithm, hashedSubpackets'⟩
    (by dsimp only; omega) (by dsimp only; omega) h
  simp only [SignedContents.mk.injEq] at heq
  tauto

/-! ### What a parsed packet has hashed -/

theorem length_of_readOctets {data octets : Bytes} {pos n : ℕ}
    (h : readOctets data pos n = some octets) : octets.length = n := by
  unfold readOctets at h
  split_ifs at h with hfits
  obtain rfl := Option.some.inj h
  rw [List.length_take, List.length_drop]
  omega

theorem length_of_readArea16 {body area : Bytes} {pos next : ℕ}
    (h : readArea16 body pos = some (area, next)) : area.length < 2 ^ 16 := by
  unfold readArea16 at h
  split_ifs at h
  obtain ⟨octets, hoctets, hpair⟩ := Option.map_eq_some_iff.mp h
  obtain ⟨rfl, -⟩ := Prod.mk.inj hpair
  rw [length_of_readOctets hoctets, readBigEndian16]
  have hlt := ofOctets_lt ((body.drop pos).take 2)
  have hle : ((body.drop pos).take 2).length ≤ 2 := List.length_take_le _ _
  have hpow := Nat.pow_le_pow_right (show 0 < 256 by norm_num) hle
  omega

theorem hashedSubpackets_of_parseSignaturePacketBody {body : Bytes} {parsed : ParsedSignature}
    (h : parseSignaturePacketBody body = some parsed) :
    parsed.hashedSubpackets.length < 2 ^ 16 := by
  unfold parseSignaturePacketBody at h
  split at h
  case h_2 => cases h
  -- the subpackets are read before anything of the signature value
  split at h
  · cases h
  split at h
  · cases h
  split at h
  · cases h
  rename_i harea
  have hlength := length_of_readArea16 harea
  repeat' split at h
  all_goals first
    | cases h; done
    | (obtain ⟨_, _, rfl⟩ := Option.map_eq_some_iff.mp h; exact hlength)
    | (obtain rfl := Option.some.inj h; exact hlength)

/-! ### The calls that hash -/

/-- What a signature is about, whatever key has made it. -/
structure Preimage where
  documentData : Bytes
  signatureType : UInt8
  hashedSubpackets : Bytes
  deriving DecidableEq, Repr

/-- These octets are hashed for this preimage, by one of the builders or by a verifier that has
read a packet. -/
inductive Hashes : Preimage → Bytes → Prop
  | built (signatureType : UInt8) (documentData extraHashedSubpacket : Bytes) (now : UInt32) :
      Hashes ⟨documentData, signatureType, hashedSubpacketsOf now extraHashedSubpacket⟩
        (toBeHashed documentData signatureType 1 8 (hashedSubpacketsOf now extraHashedSubpacket))
  | builtEd25519 (signatureType : UInt8) (documentData extraHashedSubpacket : Bytes)
      (now : UInt32) :
      Hashes ⟨documentData, signatureType, hashedSubpacketsOf now extraHashedSubpacket⟩
        (toBeHashed documentData signatureType PGP_ALGO_EDDSA 10
          (hashedSubpacketsOf now extraHashedSubpacket))
  | verified (documentData signaturePacketBytes : Bytes) (parsed : ParsedSignature)
      (hparsed : (signaturePacketBody signaturePacketBytes).bind parseSignaturePacketBody =
        some parsed)
      (halgorithms : parsed.pkAlgorithm = PGP_ALGO_RSA ∧ parsed.hashAlgorithm = 8) :
      Hashes ⟨documentData, parsed.signatureType, parsed.hashedSubpackets⟩
        (toBeHashed documentData parsed.signatureType 1 8 parsed.hashedSubpackets)
  | verifiedEd25519 (documentData signaturePacketBytes : Bytes) (parsed : ParsedSignature)
      (hparsed : (signaturePacketBody signaturePacketBytes).bind parseSignaturePacketBody =
        some parsed)
      (halgorithms : parsed.pkAlgorithm = PGP_ALGO_EDDSA ∧ parsed.hashAlgorithm = 10) :
      Hashes ⟨documentData, parsed.signatureType, parsed.hashedSubpackets⟩
        (toBeHashed documentData parsed.signatureType PGP_ALGO_EDDSA 10 parsed.hashedSubpackets)

/-- Two sets of primitives that answer alike about the octets hashed for a document. -/
structure AlikeOnHashed (P Q : Primitives) (documentData : Bytes) : Prop where
  digests : ∀ preimage octets, Hashes preimage octets → preimage.documentData = documentData →
    P.sha256 octets = Q.sha256 octets ∧ P.sha512 octets = Q.sha512 octets
  signatures : ∀ preimage octets, Hashes preimage octets → preimage.documentData = documentData →
    (∀ key, P.rsaSign key octets = Q.rsaSign key octets) ∧
      ∀ key signature, P.rsaVerify key octets signature = Q.rsaVerify key octets signature
  ed25519Sign : P.ed25519Sign = Q.ed25519Sign
  ed25519Verify : P.ed25519Verify = Q.ed25519Verify

section Alike

variable {P Q : Primitives} {documentData : Bytes}

/-! No builder and no verifier hashes anything else. -/

theorem AlikeOnHashed.build (h : AlikeOnHashed P Q documentData) (signingKey : RsaPrivateKey)
    (signatureType : UInt8) (extra : Bytes) (issuerKeyId : Octets 8) (now : UInt32) :
    buildSignaturePacket P signingKey signatureType documentData extra issuerKeyId now =
      buildSignaturePacket Q signingKey signatureType documentData extra issuerKeyId now := by
  have hbuilt := Hashes.built signatureType documentData extra now
  simp only [buildSignaturePacket, (h.digests _ _ hbuilt rfl).1,
    (h.signatures _ _ hbuilt rfl).1]

theorem AlikeOnHashed.buildEd25519 (h : AlikeOnHashed P Q documentData) (privateKey : Octets 32)
    (signatureType : UInt8) (extra : Bytes) (issuerKeyId : Octets 8) (now : UInt32) :
    buildEd25519SignaturePacket P privateKey signatureType documentData extra issuerKeyId now =
      buildEd25519SignaturePacket Q privateKey signatureType documentData extra issuerKeyId
        now := by
  have hbuilt := Hashes.builtEd25519 signatureType documentData extra now
  simp only [buildEd25519SignaturePacket, (h.digests _ _ hbuilt rfl).2, h.ed25519Sign]

theorem AlikeOnHashed.verify (h : AlikeOnHashed P Q documentData) (verifyingKey : RsaPublicKey)
    (signaturePacketBytes : Bytes) :
    verifySignaturePacket P verifyingKey documentData signaturePacketBytes =
      verifySignaturePacket Q verifyingKey documentData signaturePacketBytes := by
  simp only [verifySignaturePacket]
  split
  · rfl
  rename_i parsed hparsed
  split_ifs with halgorithms
  · rfl
  have hverified := Hashes.verified documentData signaturePacketBytes parsed hparsed
    (by simpa using halgorithms)
  exact (h.signatures _ _ hverified rfl).2 _ _

theorem AlikeOnHashed.verifyEd25519 (h : AlikeOnHashed P Q documentData) (publicKey : Octets 32)
    (signaturePacketBytes : Bytes) :
    verifyEd25519SignaturePacket P publicKey documentData signaturePacketBytes =
      verifyEd25519SignaturePacket Q publicKey documentData signaturePacketBytes := by
  simp only [verifyEd25519SignaturePacket]
  split
  · rfl
  rename_i parsed hparsed
  split_ifs with halgorithms
  · rfl
  have hverified := Hashes.verifiedEd25519 documentData signaturePacketBytes parsed hparsed
    (by simpa using halgorithms)
  rw [(h.digests _ _ hverified rfl).2, h.ed25519Verify]

end Alike

/-! ### Unambiguous octets -/

/-- What a verifier has read is never too long. -/
theorem length_hashedSubpackets_of_verified {signaturePacketBytes : Bytes}
    {parsed : ParsedSignature}
    (hparsed : (signaturePacketBody signaturePacketBytes).bind parseSignaturePacketBody =
      some parsed) : parsed.hashedSubpackets.length ≤ 65535 := by
  obtain ⟨body, -, hbody⟩ := Option.bind_eq_some_iff.mp hparsed
  have := hashedSubpackets_of_parseSignaturePacketBody hbody
  omega

theorem Hashes.octets_eq {preimage : Preimage} {octets : Bytes} (h : Hashes preimage octets) :
    ∃ pkAlgorithm hashAlgorithm, octets = SignedContents.octets ⟨preimage.documentData,
      preimage.signatureType, pkAlgorithm, hashAlgorithm, preimage.hashedSubpackets⟩ := by
  cases h with
  | built => exact ⟨1, 8, rfl⟩
  | builtEd25519 => exact ⟨PGP_ALGO_EDDSA, 10, rfl⟩
  | verified => exact ⟨1, 8, rfl⟩
  | verifiedEd25519 => exact ⟨PGP_ALGO_EDDSA, 10, rfl⟩

/-- Whoever hashes them, the same octets are about the same document, type and subpackets. -/
theorem Hashes.preimage_unique {preimage preimage' : Preimage} {octets : Bytes}
    (hashes : Hashes preimage octets) (hashes' : Hashes preimage' octets)
    (hlength : preimage.hashedSubpackets.length ≤ 65535)
    (hlength' : preimage'.hashedSubpackets.length ≤ 65535) : preimage = preimage' := by
  obtain ⟨pkAlgorithm, hashAlgorithm, heq⟩ := hashes.octets_eq
  obtain ⟨pkAlgorithm', hashAlgorithm', heq'⟩ := hashes'.octets_eq
  have hcontents := octets_injective (by dsimp only; omega) (by dsimp only; omega)
    (heq.symm.trans heq')
  obtain ⟨documentData, signatureType, area⟩ := preimage
  simp only [SignedContents.mk.injEq] at hcontents
  obtain ⟨rfl, rfl, -, -, rfl⟩ := hcontents
  rfl

/-- A document that ends like a trailer, hashed by a verifier and by a builder. -/
theorem preimage_unique_trailer :
    (⟨[4, 0xFF, 0, 0, 0, 6], 0, [5, 2, 0, 0, 0, 0]⟩ : Preimage) =
      ⟨[4, 0xFF, 0, 0, 0, 6], 0, hashedSubpacketsOf 0 []⟩ := by
  have hread : (signaturePacketBody [0xC2, 19, 4, 0, 1, 8, 0, 6, 5, 2, 0, 0, 0, 0, 0, 0, 0xAB,
      0xCD, 0, 1, 1]).bind parseSignaturePacketBody =
      some ⟨1, 0, 8, [5, 2, 0, 0, 0, 0], [1], []⟩ := by
    decide
  exact (Hashes.verified [4, 0xFF, 0, 0, 0, 6] _ _ hread ⟨rfl, rfl⟩).preimage_unique
    (Hashes.built 0 [4, 0xFF, 0, 0, 0, 6] [] 0) (by decide) (by decide)

end HashCryptoLib.Pgp
