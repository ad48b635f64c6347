import HashCryptoLib.Pgp.Inspection

/-!
Signature and one-pass signature packets as any producer may write them, and what
inspection reports of them. A version-3 signature has its issuer at a fixed place;
a version-4 signature has two areas of subpackets, in any of the lengths that a
subpacket may have.
-/

namespace HashCryptoLib.Pgp

open BigEndian Cursor

/-! ### Subpackets -/

/-- The lengths of a subpacket, which count its type octet. -/
inductive SubpacketLength
  | oneOctet
  | twoOctets
  | fiveOctets
  deriving DecidableEq, Repr

/-- The lengths a form can hold. The two-octet form reaches further here than in a
packet header, which needs some of its first octets for partial lengths. -/
def SubpacketLength.Fits : SubpacketLength → ℕ → Prop
  | .oneOctet, length => length < 192
  | .twoOctets, length => 192 ≤ length ∧ length < 16320
  | .fiveOctets, length => length < 2 ^ 32

def SubpacketLength.octets : SubpacketLength → ℕ → Bytes
  | .oneOctet, length => [UInt8.ofNat length]
  | .twoOctets, length =>
    [UInt8.ofNat ((length - 192) / 256 + 192), UInt8.ofNat ((length - 192) % 256)]
  | .fiveOctets, length => 0xFF :: toOctets 4 length

theorem readSignatureSubpacketLength_octets {form : SubpacketLength} {data rest : Bytes}
    {pos endPos length : ℕ} (hfits : form.Fits length)
    (h : At data pos (form.octets length ++ rest))
    (hend : pos + (form.octets length).length ≤ endPos) :
    readSignatureSubpacketLength data pos endPos =
      some (length, pos + (form.octets length).length) := by
  cases form with
  | oneOctet =>
      have hnat := toNat_shortLength hfits
      have hlt : UInt8.ofNat length < 192 := by
        rw [UInt8.lt_iff_toNat_lt, hnat]
        exact hfits
      simp only [SubpacketLength.octets, List.length_cons, List.length_nil] at h hend ⊢
      rw [readSignatureSubpacketLength, if_neg (by omega), h.head]
      simp [hlt, hnat]
  | twoOctets =>
      obtain ⟨hlow, hhigh⟩ := hfits
      have hfirst : (UInt8.ofNat ((length - 192) / 256 + 192)).toNat =
          (length - 192) / 256 + 192 := by
        rw [UInt8.toNat_ofNat']
        exact Nat.mod_eq_of_lt (by omega)
      have hsecond : (UInt8.ofNat ((length - 192) % 256)).toNat = (length - 192) % 256 := by
        rw [UInt8.toNat_ofNat']
        exact Nat.mod_eq_of_lt (by omega)
      have h192 : ¬ UInt8.ofNat ((length - 192) / 256 + 192) < 192 := by
        rw [UInt8.lt_iff_toNat_lt, hfirst]
        show ¬ (length - 192) / 256 + 192 < 192
        omega
      have h255 : UInt8.ofNat ((length - 192) / 256 + 192) < 255 := by
        rw [UInt8.lt_iff_toNat_lt, hfirst]
        show (length - 192) / 256 + 192 < 255
        omega
      simp only [SubpacketLength.octets, List.length_cons, List.length_nil] at h hend ⊢
      rw [readSignatureSubpacketLength, if_neg (by omega), h.head]
      dsimp only
      rw [if_neg h192, if_pos h255, if_neg (by omega), h.next.head, Option.map_some, hfirst,
        hsecond]
      refine congrArg (fun n => some (n, pos + 2)) ?_
      omega
  | fiveOctets =>
      have hoctets := readOctets_of_at h.next
      simp only [SubpacketLength.octets, List.length_cons, length_toOctets] at h hend hoctets ⊢
      rw [readSignatureSubpacketLength, if_neg (by omega), h.head]
      dsimp only
      rw [if_neg (by decide), if_neg (by decide), if_neg (by omega), hoctets, Option.map_some,
        ofOctets_toOctets_of_lt (by simpa [SubpacketLength.Fits] using hfits)]

/-- A subpacket, with the length it is written with. The type octet may have the
critical bit. -/
structure Subpacket where
  type : UInt8
  body : Bytes
  form : SubpacketLength
  legal : form.Fits (body.length + 1)

namespace Subpacket

def octets (subpacket : Subpacket) : Bytes :=
  subpacket.form.octets (subpacket.body.length + 1) ++ subpacket.type :: subpacket.body

/-- What the scanners make of a subpacket: its type without the critical bit, and
its body. -/
def content (subpacket : Subpacket) : UInt8 × Bytes := (subpacket.type &&& 0x7F, subpacket.body)

end Subpacket

/-- The subpackets of an area, written one behind another. -/
def areaOctets (subpackets : List Subpacket) : Bytes := subpackets.flatMap Subpacket.octets

theorem walkSubpackets_areaOctets {data rest : Bytes} (subpackets : List Subpacket) :
    ∀ {pos : ℕ}, At data pos (areaOctets subpackets ++ rest) →
      walkSubpackets data (pos + (areaOctets subpackets).length) pos =
        subpackets.map Subpacket.content := by
  induction subpackets with
  | nil =>
      intro pos h
      exact walkSubpackets_end data pos
  | cons subpacket subpackets ih =>
      intro pos h
      have harea : areaOctets (subpacket :: subpackets) =
          subpacket.form.octets (subpacket.body.length + 1) ++
            (subpacket.type :: (subpacket.body ++ areaOctets subpackets)) := by
        simp [areaOctets, Subpacket.octets]
      have hnext : pos + (areaOctets (subpacket :: subpackets)).length =
          pos + (subpacket.form.octets (subpacket.body.length + 1)).length +
            (subpacket.body.length + 1) + (areaOctets subpackets).length := by
        rw [harea]
        simp only [List.length_append, List.length_cons]
        omega
      rw [hnext]
      rw [harea, List.append_assoc] at h
      have hbody := h.advance
      rw [List.cons_append, List.append_assoc] at hbody
      have hrest := hbody.next.advance
      rw [Nat.add_assoc _ 1, Nat.add_comm 1] at hrest
      rw [walkSubpackets_step (readSignatureSubpacketLength_octets subpacket.legal h (by omega))
        hbody (by omega), ih hrest]
      rfl

/-! ### The issuer -/

/-- The key ID in an issuer subpacket. -/
def explicitIssuer (subpacket : UInt8 × Bytes) : Option Bytes :=
  if subpacket.1 = 16 ∧ subpacket.2.length = 8 then some subpacket.2 else none

/-- The key ID in an issuer fingerprint subpacket: a version-4 fingerprint has
twenty octets and ends in it, those of versions 5 and 6 have 32 and start with it. -/
def fingerprintIssuer (subpacket : UInt8 × Bytes) : Option Bytes :=
  if subpacket.1 ≠ 33 then none
  else
    match subpacket.2 with
    | [] => none
    | version :: fingerprint =>
      if version = 4 ∧ 20 ≤ fingerprint.length then some ((fingerprint.take 20).drop 12)
      else if (version = 5 ∨ version = 6) ∧ 32 ≤ fingerprint.length then some (fingerprint.take 8)
      else none

/-- The issuer that an area names: in an issuer subpacket, else by a fingerprint. -/
def areaIssuer (subpackets : List (UInt8 × Bytes)) : Option Bytes :=
  subpackets.findSome? explicitIssuer <|> subpackets.findSome? fingerprintIssuer

/-- An issuer subpacket settles the scan. -/
theorem recordIssuer_settled (keyId : Bytes) (subpackets : List (UInt8 × Bytes)) :
    subpackets.foldl recordIssuer (some keyId, true) = (some keyId, true) := by
  induction subpackets with
  | nil => rfl
  | cons subpacket subpackets ih =>
      have hone : recordIssuer (some keyId, true) subpacket = (some keyId, true) := by
        simp [recordIssuer]
      rw [List.foldl_cons, hone, ih]

theorem recordIssuer_explicit {subpacket : UInt8 × Bytes} {keyId : Bytes}
    (h : explicitIssuer subpacket = some keyId) (found : Option Bytes) :
    recordIssuer (found, false) subpacket = (some keyId, true) := by
  rw [explicitIssuer] at h
  split_ifs at h with hexplicit
  obtain rfl := Option.some.inj h
  exact if_pos ⟨hexplicit.1, hexplicit.2, rfl⟩

/-- A fingerprint counts where nothing was found before it. -/
theorem recordIssuer_other {subpacket : UInt8 × Bytes} (h : explicitIssuer subpacket = none)
    (found : Option Bytes) :
    recordIssuer (found, false) subpacket = (found <|> fingerprintIssuer subpacket, false) := by
  obtain ⟨type, body⟩ := subpacket
  have hexplicit : ¬ (type = 16 ∧ body.length = 8 ∧ false = false) := by
    rintro ⟨htype, hlength, -⟩
    rw [explicitIssuer, if_pos ⟨htype, hlength⟩] at h
    cases h
  rw [recordIssuer]
  dsimp only
  rw [if_neg hexplicit]
  cases found with
  | some keyId => simp
  | none =>
      by_cases htype : type = 33
      · subst htype
        cases body with
        | nil => rfl
        | cons version fingerprint =>
            have hfour : (fingerprint.drop 12).take 8 = (fingerprint.take 20).drop 12 := by
              rw [List.drop_take]
            have hlong : 33 ≤ (version :: fingerprint).length ↔ 32 ≤ fingerprint.length := by
              rw [List.length_cons]
              omega
            have hshort : 21 ≤ (version :: fingerprint).length ↔ 20 ≤ fingerprint.length := by
              rw [List.length_cons]
              omega
            simp only [fingerprintIssuer, List.getElem?_cons_zero, Option.some.injEq,
              List.drop_succ_cons, List.drop_zero, ge_iff_le, hlong, hshort, hfour, true_and, ne_eq,
              not_true_eq_false, if_false]
            simp only [and_comm]
            split_ifs <;> rfl
      · have hnone : fingerprintIssuer (type, body) = none := if_pos htype
        rw [hnone, if_neg (fun hand => htype hand.1), if_neg (fun hand => htype hand.1)]
        rfl

theorem recordIssuer_area (subpackets : List (UInt8 × Bytes)) (found : Option Bytes) :
    (subpackets.foldl recordIssuer (found, false)).1 =
      (subpackets.findSome? explicitIssuer <|> found <|>
        subpackets.findSome? fingerprintIssuer) := by
  induction subpackets generalizing found with
  | nil => simp
  | cons subpacket subpackets ih =>
      rw [List.foldl_cons, List.findSome?_cons, List.findSome?_cons]
      cases hexplicit : explicitIssuer subpacket with
      | some keyId =>
          rw [recordIssuer_explicit hexplicit, recordIssuer_settled]
          rfl
      | none =>
          rw [recordIssuer_other hexplicit, ih]
          dsimp only
          congr 1
          cases found with
          | some keyId => rfl
          | none => cases fingerprintIssuer subpacket <;> simp

/-- The scan of an area finds the issuer that the area names. -/
theorem findIssuerKeyIdInSubpackets_area {data rest : Bytes} {pos : ℕ}
    (subpackets : List Subpacket) (h : At data pos (areaOctets subpackets ++ rest)) :
    findIssuerKeyIdInSubpackets data pos (pos + (areaOctets subpackets).length) =
      areaIssuer (subpackets.map Subpacket.content) := by
  rw [findIssuerKeyIdInSubpackets, walkSubpackets_areaOctets subpackets h, recordIssuer_area,
    areaIssuer]
  simp

/-! ### Signatures -/

/-- An area that its two length octets can announce. -/
abbrev SubpacketArea := { subpackets : List Subpacket // (areaOctets subpackets).length < 2 ^ 16 }

def SubpacketArea.octets (area : SubpacketArea) : Bytes := areaOctets area.1

def SubpacketArea.issuer (area : SubpacketArea) : Option Bytes :=
  areaIssuer (area.1.map Subpacket.content)

/-- The body of a signature packet. `rest` is what follows the fields that
inspection reads: the first octets of the digest, and the signature's numbers. -/
inductive SignatureLayout
  | v3 (signatureType : UInt8) (created : Octets 4) (issuer : Octets 8)
      (pkAlgorithm hashAlgorithm : UInt8) (rest : Bytes)
  | v4 (signatureType pkAlgorithm hashAlgorithm : UInt8) (hashed unhashed : SubpacketArea)
      (rest : Bytes)

namespace SignatureLayout

def octets : SignatureLayout → Bytes
  | v3 signatureType created issuer pkAlgorithm hashAlgorithm rest =>
    3 :: 5 :: signatureType :: (created.1 ++ (issuer.1 ++ pkAlgorithm :: hashAlgorithm :: rest))
  | v4 signatureType pkAlgorithm hashAlgorithm hashed unhashed rest =>
    4 :: signatureType :: pkAlgorithm :: hashAlgorithm ::
      (appendBigEndian16 hashed.octets.length ++ (hashed.octets ++
        (appendBigEndian16 unhashed.octets.length ++ (unhashed.octets ++ rest))))

/-- What there is to report: of a version-4 signature, the issuer that the hashed
area names, else the one that the other area names. -/
def inspected : SignatureLayout → PgpInspectedSignature
  | v3 signatureType _ issuer _ hashAlgorithm _ =>
    { issuerKeyId := some issuer.1
      signatureType := signatureType
      hashAlgorithm := hashAlgorithm }
  | v4 signatureType _ hashAlgorithm hashed unhashed _ =>
    { issuerKeyId := hashed.issuer <|> unhashed.issuer
      signatureType := signatureType
      hashAlgorithm := hashAlgorithm }

theorem inspectSignaturePacketBody_v3 (signatureType : UInt8) (created : Octets 4)
    (issuer : Octets 8) (pkAlgorithm hashAlgorithm : UInt8) (rest : Bytes) :
    inspectSignaturePacketBody
        (v3 signatureType created issuer pkAlgorithm hashAlgorithm rest).octets =
      some (v3 signatureType created issuer pkAlgorithm hashAlgorithm rest).inspected := by
  have hat := at_zero (v3 signatureType created issuer pkAlgorithm hashAlgorithm rest).octets
  have htype : (v3 signatureType created issuer pkAlgorithm hashAlgorithm rest).octets.getD 2 0 =
      signatureType := rfl
  have hversion : (v3 signatureType created issuer pkAlgorithm hashAlgorithm rest).octets[0]? =
      some 3 := rfl
  have hmaterial : (v3 signatureType created issuer pkAlgorithm hashAlgorithm rest).octets[1]? =
      some 5 := rfl
  nth_rewrite 2 [octets] at hat
  generalize (v3 signatureType created issuer pkAlgorithm hashAlgorithm rest).octets = body at *
  have hissuer := hat.next.next.next.advance
  have halgorithms := hissuer.advance
  rw [created.2] at hissuer
  rw [created.2, issuer.2] at halgorithms
  have hkeyId := hissuer.take_eq
  rw [issuer.2] at hkeyId
  have hhash : body.getD 16 0 = hashAlgorithm := by
    rw [List.getD_eq_getElem?_getD, halgorithms.next.head]
    rfl
  have hlength := halgorithms.length_eq
  rw [List.length_cons, List.length_cons] at hlength
  rw [inspectSignaturePacketBody, if_pos hversion,
    if_neg (not_or.mpr ⟨by omega, not_not.mpr hmaterial⟩), htype, hhash]
  exact congrArg some (congrArg (PgpInspectedSignature.mk · _ _) (congrArg some hkeyId))

theorem inspectSignaturePacketBody_v4 (signatureType pkAlgorithm hashAlgorithm : UInt8)
    (hashed unhashed : SubpacketArea) (rest : Bytes) :
    inspectSignaturePacketBody
        (v4 signatureType pkAlgorithm hashAlgorithm hashed unhashed rest).octets =
      some (v4 signatureType pkAlgorithm hashAlgorithm hashed unhashed rest).inspected := by
  have hat := at_zero (v4 signatureType pkAlgorithm hashAlgorithm hashed unhashed rest).octets
  have htype : (v4 signatureType pkAlgorithm hashAlgorithm hashed unhashed rest).octets.getD 1 0 =
      signatureType := rfl
  have hhash : (v4 signatureType pkAlgorithm hashAlgorithm hashed unhashed rest).octets.getD 3 0 =
      hashAlgorithm := rfl
  have hversion : (v4 signatureType pkAlgorithm hashAlgorithm hashed unhashed rest).octets[0]? =
      some 4 := rfl
  nth_rewrite 2 [octets] at hat
  generalize (v4 signatureType pkAlgorithm hashAlgorithm hashed unhashed rest).octets = body at *
  have hlengthAt := hat.next.next.next.next
  have hhashedAt := hlengthAt.advance
  rw [length_appendBigEndian16] at hhashedAt
  have hunhashedLengthAt := hhashedAt.advance
  have hunhashedAt := hunhashedLengthAt.advance
  rw [length_appendBigEndian16] at hunhashedAt
  have hhashedLength : readBigEndian16 body 4 = hashed.octets.length :=
    readBigEndian16_of_at hashed.2 hlengthAt
  have hunhashedLength : readBigEndian16 body (6 + hashed.octets.length) = unhashed.octets.length :=
    readBigEndian16_of_at unhashed.2 hunhashedLengthAt
  have hinHashed : findIssuerKeyIdInSubpackets body 6 (6 + hashed.octets.length) = hashed.issuer :=
    findIssuerKeyIdInSubpackets_area hashed.1 hhashedAt
  have hinUnhashed : findIssuerKeyIdInSubpackets body (6 + hashed.octets.length + 2)
      (6 + hashed.octets.length + 2 + unhashed.octets.length) = unhashed.issuer :=
    findIssuerKeyIdInSubpackets_area unhashed.1 hunhashedAt
  have hend : 6 + hashed.octets.length + 2 + unhashed.octets.length ≤ body.length := hunhashedAt.le
  have hthree : ¬ body[0]? = some 3 := by
    rw [hversion]
    decide
  rw [inspectSignaturePacketBody, if_neg hthree, if_pos hversion, if_neg (by omega)]
  simp only [hhashedLength, hunhashedLength, hinHashed, hinUnhashed, htype, hhash]
  rw [if_neg (by omega)]
  simp only [inspected, hend, and_true]
  cases hashed.issuer <;> rfl

theorem inspectSignaturePacketBody_octets (signature : SignatureLayout) :
    inspectSignaturePacketBody signature.octets = some signature.inspected := by
  cases signature with
  | v3 signatureType created issuer pkAlgorithm hashAlgorithm rest =>
      exact inspectSignaturePacketBody_v3 ..
  | v4 signatureType pkAlgorithm hashAlgorithm hashed unhashed rest =>
      exact inspectSignaturePacketBody_v4 ..

end SignatureLayout

/-- The body of a one-pass signature packet; `isLast` says whether another one
follows. -/
structure OnePassLayout where
  signatureType : UInt8
  hashAlgorithm : UInt8
  pkAlgorithm : UInt8
  keyId : Octets 8
  isLast : UInt8

namespace OnePassLayout

def octets (onePass : OnePassLayout) : Bytes :=
  3 :: onePass.signatureType :: onePass.hashAlgorithm :: onePass.pkAlgorithm ::
    (onePass.keyId.1 ++ [onePass.isLast])

def inspected (onePass : OnePassLayout) : PgpInspectedSignature where
  issuerKeyId := some onePass.keyId.1
  signatureType := onePass.signatureType
  hashAlgorithm := onePass.hashAlgorithm

theorem inspectOnePass_octets (onePass : OnePassLayout) :
    inspectOnePass onePass.octets = [onePass.inspected] := by
  have hlength : onePass.octets.length = 13 := by
    simp [octets]
  have hkeyId : (onePass.octets.drop 4).take 8 = onePass.keyId.1 := by
    have htake := (at_zero onePass.octets).next.next.next.next.take_eq
    rw [onePass.keyId.2] at htake
    exact htake
  have hversion : onePass.octets[0]? = some 3 := rfl
  rw [inspectOnePass, if_pos ⟨hlength.ge, hversion⟩, hkeyId]
  rfl

end OnePassLayout

end HashCryptoLib.Pgp
