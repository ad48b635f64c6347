import HashCryptoLib.Pgp.State
import Mathlib.Logic.Equiv.List

/-!
Detached CMS signatures: a blob holds certificates, signer infos, and in each signer info
perhaps an attribute that names the certificate it is to be verified with. The signature
library looks for each signer's certificate by the signer's identifier; the service compares
one attribute with one certificate.
-/

namespace HashCryptoLib.Certificates

open Pgp (Status)
open Pgp.Status

inductive CmsVerificationResult
  | CMS_VERIFICATION_VALID
  | CMS_VERIFICATION_TAMPERED_DATA
  | CMS_VERIFICATION_UNTRUSTED_SIGNER
  | CMS_VERIFICATION_TECHNICAL_ERROR
  | CMS_VERIFICATION_SIGNING_CERT_MISMATCH
  deriving DecidableEq, Repr

open CmsVerificationResult

/-! ### Blobs -/

/-- `ASN1_TYPE`, as far as it is told apart. -/
inductive Asn1Type
  | sequence (data : Bytes)
  | other
  deriving DecidableEq, Repr

/-- A signer info: whom it names as its signer, the values of its
signing-certificate-v2 attribute if it has one, and the signature over its attributes. -/
structure CmsSignerInfo (SignerId : Type) where
  sid : SignerId
  signingCertificateV2 : Option (List Asn1Type) := none
  signature : Bytes := []
  deriving DecidableEq, Repr

/-- An element of the certificate set; the other kinds are passed over. -/
inductive CmsCertificateChoice (Cert : Type)
  | certificate (cert : Cert)
  | other
  deriving DecidableEq, Repr

structure CmsContentInfo (Cert SignerId : Type) where
  certificates : List (CmsCertificateChoice Cert)
  signerInfos : List (CmsSignerInfo SignerId)

/-- The signature library. `certCmp` says whether a signer identifier is that of a
certificate, `signatureVerifies` everything that is checked of a signer info under a
certificate but its trust, `checkSigningCert` compares an attribute with a list of that one
certificate. -/
structure OpenSsl (Cert SignerId EssSigningCertV2 : Type) where
  d2i_CMS_ContentInfo : Bytes → Option (CmsContentInfo Cert SignerId)
  d2i_X509 : Bytes → Option Cert
  d2i_ESS_SIGNING_CERT_V2 : Bytes → Option EssSigningCertV2
  certCmp : SignerId → Cert → Bool
  signatureVerifies : CmsSignerInfo SignerId → Cert → Bytes → Bool
  chainsTo : Cert → CmsContentInfo Cert SignerId → Bytes → Bool
  checkSigningCert : EssSigningCertV2 → Cert → Bool

variable {Cert SignerId EssSigningCertV2 : Type} (ssl : OpenSsl Cert SignerId EssSigningCertV2)

/-- `CMS_get1_certs` -/
def CmsContentInfo.certs (cms : CmsContentInfo Cert SignerId) : List Cert :=
  cms.certificates.filterMap fun
    | .certificate cert => some cert
    | .other => none

/-- The certificate that a signer info is verified with: the first embedded one with the
signer's identifier. -/
def signerCert (cms : CmsContentInfo Cert SignerId) (signerInfo : CmsSignerInfo SignerId) :
    Option Cert :=
  cms.certs.find? (ssl.certCmp signerInfo.sid)

/-- `CMS_verify` without a check of trust. -/
def CMS_verify (cms : CmsContentInfo Cert SignerId) (data : Bytes) : Bool :=
  !cms.signerInfos.isEmpty && cms.signerInfos.all fun signerInfo =>
    (signerCert ssl cms signerInfo).any (ssl.signatureVerifies signerInfo · data)

/-! ### The service -/

/-- A signing-certificate-v2 attribute that can be read. -/
def signingCertV2 (signerInfo : CmsSignerInfo SignerId) : Option EssSigningCertV2 := do
  let values ← signerInfo.signingCertificateV2
  match values with
  | .sequence data :: _ => ssl.d2i_ESS_SIGNING_CERT_V2 data
  | _ => none

def CmsSigningCertMatchesSigner (cms : CmsContentInfo Cert SignerId) (actualSignerCert : Cert) :
    Bool :=
  match cms.signerInfos with
  | [] => true
  | signerInfo :: _ =>
    match signingCertV2 ssl signerInfo with
    | none => true
    | some ess => ssl.checkSigningCert ess actualSignerCert

def VerifyDetached (data cmsDer trustedRootCertDer : Bytes) :
    Status × Option CmsVerificationResult :=
  if data = [] ∨ cmsDer = [] then (INVALID_ARGUMENT, none)
  else
    match ssl.d2i_CMS_ContentInfo cmsDer with
    | none => (NO_ERROR, some CMS_VERIFICATION_TECHNICAL_ERROR)
    | some cms =>
      if !CMS_verify ssl cms data then (NO_ERROR, some CMS_VERIFICATION_TAMPERED_DATA)
      else if cms.certs.head?.any (!CmsSigningCertMatchesSigner ssl cms ·) then
        (NO_ERROR, some CMS_VERIFICATION_SIGNING_CERT_MISMATCH)
      else if trustedRootCertDer = [] then (NO_ERROR, some CMS_VERIFICATION_VALID)
      else
        match ssl.d2i_X509 trustedRootCertDer with
        | none => (INVALID_ARGUMENT, none)
        | some trustedRoot =>
          if ssl.chainsTo trustedRoot cms data then (NO_ERROR, some CMS_VERIFICATION_VALID)
          else (NO_ERROR, some CMS_VERIFICATION_UNTRUSTED_SIGNER)

/-! ### Substituted certificates -/

/-- A signer info has a readable attribute, and that does not name the certificate. -/
def Contradicts (signerInfo : CmsSignerInfo SignerId) (cert : Cert) : Prop :=
  ∃ ess ∈ signingCertV2 ssl signerInfo, ssl.checkSigningCert ess cert = false

/-- A signer info whose attribute does not name the certificate it was verified with. -/
def Substituted (cms : CmsContentInfo Cert SignerId) (signerInfo : CmsSignerInfo SignerId) :
    Prop :=
  ∃ cert ∈ signerCert ssl cms signerInfo, Contradicts ssl signerInfo cert

/-- The first signer info contradicts the first certificate. -/
def FirstContradicts (cms : CmsContentInfo Cert SignerId) : Prop :=
  ∃ signerInfo ∈ cms.signerInfos.head?, ∃ cert ∈ cms.certs.head?, Contradicts ssl signerInfo cert

theorem matchesSigner_eq_false_iff {cms : CmsContentInfo Cert SignerId} {cert : Cert} :
    CmsSigningCertMatchesSigner ssl cms cert = false ↔
      ∃ signerInfo ∈ cms.signerInfos.head?, Contradicts ssl signerInfo cert := by
  rw [CmsSigningCertMatchesSigner]
  cases cms.signerInfos with
  | nil => simp
  | cons signerInfo others => cases h : signingCertV2 ssl signerInfo <;> simp [Contradicts, h]

/-- What the service reports as a mismatch. -/
theorem VerifyDetached_mismatch {data cmsDer trustedRootCertDer : Bytes}
    {cms : CmsContentInfo Cert SignerId} (hdata : data ≠ []) (hder : cmsDer ≠ [])
    (hparsed : ssl.d2i_CMS_ContentInfo cmsDer = some cms)
    (haccepted : CMS_verify ssl cms data = true) :
    VerifyDetached ssl data cmsDer trustedRootCertDer =
        (NO_ERROR, some CMS_VERIFICATION_SIGNING_CERT_MISMATCH) ↔ FirstContradicts ssl cms := by
  have hreported : cms.certs.head?.any (!CmsSigningCertMatchesSigner ssl cms ·) = true ↔
      FirstContradicts ssl cms := by
    cases hcerts : cms.certs.head? with
    | none => simp [FirstContradicts, hcerts]
    | some cert => simp [FirstContradicts, hcerts, matchesSigner_eq_false_iff]
  rw [← hreported, VerifyDetached, if_neg (by simp [hdata, hder]), hparsed]
  simp only [haccepted, Bool.not_true, Bool.false_eq_true, if_false]
  split_ifs with hmismatch hroot
  · simp [hmismatch]
  · simp [hmismatch]
  · cases ssl.d2i_X509 trustedRootCertDer with
    | none => simp [hmismatch]
    | some trustedRoot =>
        dsimp only
        split_ifs <;> simp [hmismatch]

/-! ### Arrangements -/

/-- The signer info has an attribute that can be read. -/
def carries (signerInfo : CmsSignerInfo SignerId) : Bool := (signingCertV2 ssl signerInfo).isSome

/-- The signer of a signer info, and whether there is an attribute, whatever it names. -/
def slot (signerInfo : CmsSignerInfo SignerId) : SignerId × Bool :=
  (signerInfo.sid, carries ssl signerInfo)

/-- The same certificates and the same signers in the same order, with attributes in the same
places. -/
structure SameArrangement (cms made : CmsContentInfo Cert SignerId) : Prop where
  certificates : made.certificates = cms.certificates
  slots : made.signerInfos.map (slot ssl) = cms.signerInfos.map (slot ssl)

/-- An accepted blob that is arranged like this one is reported just when one of its signer
infos does not name the certificate it was verified with. -/
def DetectsSubstitution (cms : CmsContentInfo Cert SignerId) (data : Bytes) : Prop :=
  ∀ made, SameArrangement ssl cms made → CMS_verify ssl made data = true →
  ∀ cmsDer ≠ [], ssl.d2i_CMS_ContentInfo cmsDer = some made → ∀ trustedRootCertDer,
    (VerifyDetached ssl data cmsDer trustedRootCertDer =
        (NO_ERROR, some CMS_VERIFICATION_SIGNING_CERT_MISMATCH) ↔
      ∃ signerInfo ∈ made.signerInfos, Substituted ssl made signerInfo)

/-- No signer info behind the first has an attribute, and the first has one only where it is
verified with the first certificate. -/
structure OnlyFirstNames (cms : CmsContentInfo Cert SignerId) : Prop where
  first : ∀ signerInfo ∈ cms.signerInfos.head?, carries ssl signerInfo = true →
    signerCert ssl cms signerInfo = cms.certs.head?
  behind : ∀ signerInfo ∈ cms.signerInfos.tail, carries ssl signerInfo = false

/-- Every blob can be encoded, who has signed can sign another attribute, and there is an
attribute that names a given certificate alone, and one that names none. -/
structure OpenSsl.Expressive : Prop where
  encodes : ∀ cms, ∃ cmsDer ≠ [], ssl.d2i_CMS_ContentInfo cmsDer = some cms
  signs : ∀ (signerInfo : CmsSignerInfo SignerId) cert data,
    ssl.signatureVerifies signerInfo cert data = true → ∀ values, ∃ signature,
      ssl.signatureVerifies
        { signerInfo with signingCertificateV2 := values, signature } cert data = true
  names : ∀ named : Option Cert, ∃ data ess, ssl.d2i_ESS_SIGNING_CERT_V2 data = some ess ∧
    ∀ cert, ssl.checkSigningCert ess cert = true ↔ named = some cert

section Arrangements

variable {ssl} {cms made : CmsContentInfo Cert SignerId} {data : Bytes}
  {signerInfo info : CmsSignerInfo SignerId}

theorem SameArrangement.symm (h : SameArrangement ssl cms made) : SameArrangement ssl made cms :=
  ⟨h.certificates.symm, h.slots.symm⟩

theorem SameArrangement.certs (h : SameArrangement ssl cms made) : made.certs = cms.certs := by
  rw [CmsContentInfo.certs, h.certificates, CmsContentInfo.certs]

theorem SameArrangement.signerCert (h : SameArrangement ssl cms made)
    (hsame : slot ssl info = slot ssl signerInfo) :
    signerCert ssl made info = Certificates.signerCert ssl cms signerInfo := by
  have hsid : info.sid = signerInfo.sid := congrArg Prod.fst hsame
  rw [Certificates.signerCert, h.certs, hsid, Certificates.signerCert]

theorem carries_of_contradicts {cert : Cert} (h : Contradicts ssl signerInfo cert) :
    carries ssl signerInfo = true := by
  obtain ⟨ess, hess, -⟩ := h
  exact Option.isSome_of_mem hess

theorem carries_of_substituted (h : Substituted ssl cms signerInfo) :
    carries ssl signerInfo = true := by
  obtain ⟨cert, -, hcontradicts⟩ := h
  exact carries_of_contradicts hcontradicts

/-- The condition is one on the arrangement. -/
theorem OnlyFirstNames.of_arrangement (h : OnlyFirstNames ssl cms)
    (hmade : SameArrangement ssl cms made) : OnlyFirstNames ssl made := by
  have hslots := hmade.slots
  refine ⟨?_, ?_⟩
  · intro info hinfo hcarries
    have hhead : (made.signerInfos.map (slot ssl)).head? = some (slot ssl info) := by
      rw [List.head?_map, Option.mem_def.mp hinfo, Option.map_some]
    rw [hslots, List.head?_map, Option.map_eq_some_iff] at hhead
    obtain ⟨signerInfo, hsigner, hsame⟩ := hhead
    rw [hmade.signerCert hsame.symm, hmade.certs]
    exact h.first signerInfo hsigner ((congrArg Prod.snd hsame).trans hcarries)
  · intro info hinfo
    have htail : slot ssl info ∈ (made.signerInfos.map (slot ssl)).tail := by
      rw [← List.map_tail]
      exact List.mem_map_of_mem hinfo
    rw [hslots, ← List.map_tail, List.mem_map] at htail
    obtain ⟨signerInfo, hsigner, hsame⟩ := htail
    exact (congrArg Prod.snd hsame).symm.trans (h.behind signerInfo hsigner)

theorem substituted_iff_head_or_tail (cms : CmsContentInfo Cert SignerId) :
    (∃ signerInfo ∈ cms.signerInfos, Substituted ssl cms signerInfo) ↔
      (∃ signerInfo ∈ cms.signerInfos.head?, Substituted ssl cms signerInfo) ∨
        ∃ signerInfo ∈ cms.signerInfos.tail, Substituted ssl cms signerInfo := by
  cases cms.signerInfos <;> simp

/-- Where only the first signer info names a certificate, and is verified with the first one,
the service looks at the right one. -/
theorem OnlyFirstNames.contradicts_iff (h : OnlyFirstNames ssl cms) :
    FirstContradicts ssl cms ↔ ∃ signerInfo ∈ cms.signerInfos, Substituted ssl cms signerInfo := by
  have hbehind : ¬ ∃ signerInfo ∈ cms.signerInfos.tail, Substituted ssl cms signerInfo := by
    rintro ⟨signerInfo, hmem, hsubstituted⟩
    have hcarries := carries_of_substituted hsubstituted
    rw [h.behind signerInfo hmem] at hcarries
    cases hcarries
  rw [substituted_iff_head_or_tail, or_iff_left hbehind]
  constructor
  · rintro ⟨signerInfo, hmem, cert, hcert, hcontradicts⟩
    refine ⟨signerInfo, hmem, cert, ?_, hcontradicts⟩
    rw [h.first signerInfo hmem (carries_of_contradicts hcontradicts)]
    exact hcert
  · rintro ⟨signerInfo, hmem, cert, hcert, hcontradicts⟩
    refine ⟨signerInfo, hmem, cert, ?_, hcontradicts⟩
    rw [← h.first signerInfo hmem (carries_of_contradicts hcontradicts)]
    exact hcert

theorem OnlyFirstNames.detects (h : OnlyFirstNames ssl cms) (hdata : data ≠ []) :
    DetectsSubstitution ssl cms data := by
  intro made hmade haccepted cmsDer hder hparsed trustedRootCertDer
  rw [VerifyDetached_mismatch ssl hdata hder hparsed haccepted]
  exact (h.of_arrangement hmade).contradicts_iff

/-! ### Attributes that mislead -/

variable (ssl) in
/-- The signer info verifies with its certificate; an attribute of it names this certificate
alone. -/
structure Names (cms : CmsContentInfo Cert SignerId) (data : Bytes) (named : Option Cert)
    (signerInfo : CmsSignerInfo SignerId) : Prop where
  verifies : (signerCert ssl cms signerInfo).any (ssl.signatureVerifies signerInfo · data) = true
  contradicts_iff : ∀ cert, Contradicts ssl signerInfo cert ↔
    carries ssl signerInfo = true ∧ named ≠ some cert

/-- A signer with an attribute can name in it what it likes. -/
theorem OpenSsl.Expressive.resign (h : ssl.Expressive)
    (hverifies : (signerCert ssl cms signerInfo).any
      (ssl.signatureVerifies signerInfo · data) = true) (named : Option Cert) :
    ∃ info, slot ssl info = slot ssl signerInfo ∧ Names ssl cms data named info := by
  cases hcarries : carries ssl signerInfo with
  | false =>
      refine ⟨signerInfo, rfl, hverifies, fun cert => ?_⟩
      rw [hcarries]
      simp only [Bool.false_eq_true, false_and, iff_false]
      intro hcontradicts
      rw [carries_of_contradicts hcontradicts] at hcarries
      cases hcarries
  | true =>
      obtain ⟨cert, hcert, hsigned⟩ := (Option.any_eq_true _ _).mp hverifies
      obtain ⟨octets, ess, hess, hnames⟩ := h.names named
      obtain ⟨signature, hsigned⟩ := h.signs signerInfo cert data hsigned
        (some [.sequence octets])
      have hread : signingCertV2 ssl { signerInfo with
          signingCertificateV2 := some [.sequence octets], signature } = some ess := hess
      have hinfo : carries ssl { signerInfo with
          signingCertificateV2 := some [.sequence octets], signature } = true := by
        rw [carries, hread]
        rfl
      refine ⟨{ signerInfo with signingCertificateV2 := some [.sequence octets], signature }, ?_,
        ?_, fun other => ?_⟩
      · rw [slot, slot, hinfo, hcarries]
      · have hfound : signerCert ssl cms { signerInfo with
            signingCertificateV2 := some [.sequence octets], signature } = some cert := hcert
        rw [hfound]
        exact hsigned
      · rw [hinfo, Contradicts, hread, and_iff_right rfl, Ne, ← hnames other]
        simp

theorem OpenSsl.Expressive.resignAll (h : ssl.Expressive)
    {signerInfos : List (CmsSignerInfo SignerId)}
    (hverifies : ∀ signerInfo ∈ signerInfos,
      (signerCert ssl cms signerInfo).any (ssl.signatureVerifies signerInfo · data) = true)
    (named : Option Cert) :
    ∃ infos : List (CmsSignerInfo SignerId),
      infos.map (slot ssl) = signerInfos.map (slot ssl) ∧
        ∀ info ∈ infos, Names ssl cms data named info := by
  induction signerInfos with
  | nil => exact ⟨[], rfl, by simp⟩
  | cons signerInfo signerInfos ih =>
      rw [List.forall_mem_cons] at hverifies
      obtain ⟨info, hslot, hinfo⟩ := h.resign hverifies.1 named
      obtain ⟨infos, hslots, hinfos⟩ := ih hverifies.2
      exact ⟨info :: infos, by rw [List.map_cons, hslot, hslots, List.map_cons],
        List.forall_mem_cons.mpr ⟨hinfo, hinfos⟩⟩

variable (ssl) in
/-- The first signer info names the first certificate alone, those behind it name none. -/
structure Misleads (cms made : CmsContentInfo Cert SignerId) (data : Bytes) : Prop where
  arrangement : SameArrangement ssl cms made
  first : ∀ info ∈ made.signerInfos.head?, Names ssl cms data cms.certs.head? info
  behind : ∀ info ∈ made.signerInfos.tail, Names ssl cms data none info

theorem OpenSsl.Expressive.misleads (h : ssl.Expressive)
    (haccepted : CMS_verify ssl cms data = true) : ∃ made, Misleads ssl cms made data := by
  rw [CMS_verify, Bool.and_eq_true, List.all_eq_true] at haccepted
  have hverifies := haccepted.2
  cases hinfos : cms.signerInfos with
  | nil => exact ⟨cms, ⟨rfl, rfl⟩, by simp [hinfos], by simp [hinfos]⟩
  | cons signerInfo signerInfos =>
      rw [hinfos, List.forall_mem_cons] at hverifies
      obtain ⟨info, hslot, hinfo⟩ := h.resign hverifies.1 cms.certs.head?
      obtain ⟨infos, hslots, hbehind⟩ := h.resignAll hverifies.2 none
      refine ⟨⟨cms.certificates, info :: infos⟩, ⟨rfl, ?_⟩, ?_, hbehind⟩
      · rw [hinfos, List.map_cons, List.map_cons, hslot, hslots]
      · rintro _ ⟨⟩
        exact hinfo

/-- Such a blob is accepted, and not reported. -/
theorem Misleads.accepted (h : Misleads ssl cms made data)
    (haccepted : CMS_verify ssl cms data = true) : CMS_verify ssl made data = true := by
  rw [CMS_verify, Bool.and_eq_true, List.all_eq_true] at haccepted ⊢
  have hlength := congrArg List.length h.arrangement.slots
  rw [List.length_map, List.length_map] at hlength
  refine ⟨?_, fun info hinfo => ?_⟩
  · have hne := haccepted.1
    simp only [Bool.not_eq_true', List.isEmpty_eq_false_iff, ← List.length_pos_iff] at hne ⊢
    omega
  · rw [h.arrangement.signerCert rfl]
    cases hinfos : made.signerInfos with
    | nil =>
        rw [hinfos] at hinfo
        cases hinfo
    | cons first others =>
        rw [hinfos] at hinfo
        rcases List.mem_cons.mp hinfo with rfl | hother
        · exact (h.first info (by rw [hinfos]; rfl)).verifies
        · exact (h.behind info (by rw [hinfos]; exact hother)).verifies

theorem Misleads.not_firstContradicts (h : Misleads ssl cms made data) :
    ¬ FirstContradicts ssl made := by
  rintro ⟨info, hinfo, cert, hcert, hcontradicts⟩
  rw [h.arrangement.certs] at hcert
  exact (((h.first info hinfo).contradicts_iff cert).mp hcontradicts).2 hcert

theorem Names.substituted {named : Option Cert} (hmade : SameArrangement ssl cms made)
    (h : Names ssl cms data named info) (hcarries : carries ssl info = true)
    (hnamed : named ≠ signerCert ssl made info) : Substituted ssl made info := by
  obtain ⟨cert, hcert, -⟩ := (Option.any_eq_true _ _).mp h.verifies
  rw [hmade.signerCert rfl, hcert] at hnamed
  exact ⟨cert, (hmade.signerCert rfl).trans hcert, (h.contradicts_iff cert).mpr ⟨hcarries, hnamed⟩⟩

/-- Unless only the first signer info has an attribute, and is verified with the first
certificate, there is a substituted one. -/
theorem Misleads.substituted (h : Misleads ssl cms made data)
    (hmisarranged : ¬ OnlyFirstNames ssl cms) :
    ∃ info ∈ made.signerInfos, Substituted ssl made info := by
  by_contra hnone
  push Not at hnone
  have honly : OnlyFirstNames ssl made := by
    refine ⟨fun info hinfo hcarries => ?_, fun info hinfo => ?_⟩
    · by_contra hother
      rw [h.arrangement.certs] at hother
      exact hnone info (List.mem_of_mem_head? hinfo)
        ((h.first info hinfo).substituted h.arrangement hcarries (Ne.symm hother))
    · by_contra hcarries
      rw [Bool.not_eq_false] at hcarries
      have hnamed := h.behind info hinfo
      obtain ⟨cert, hcert, -⟩ := (Option.any_eq_true _ _).mp hnamed.verifies
      refine hnone info (List.mem_of_mem_tail hinfo) (hnamed.substituted h.arrangement hcarries ?_)
      rw [h.arrangement.signerCert rfl, hcert]
      exact (Option.some_ne_none cert).symm
  exact hmisarranged (honly.of_arrangement h.arrangement.symm)

end Arrangements

/-- Blobs of one arrangement are reported just when a certificate was substituted, if and only
if no signer info behind the first has an attribute, and the first has one only where it is
verified with the first certificate. -/
theorem VerifyDetached_substitution {cms : CmsContentInfo Cert SignerId} {data : Bytes}
    (hdata : data ≠ []) (haccepted : CMS_verify ssl cms data = true) :
    (OnlyFirstNames ssl cms → DetectsSubstitution ssl cms data) ∧
      (ssl.Expressive → (DetectsSubstitution ssl cms data ↔ OnlyFirstNames ssl cms)) := by
  refine ⟨fun honly => honly.detects hdata, fun hexpressive =>
    ⟨fun hdetects => ?_, fun honly => honly.detects hdata⟩⟩
  by_contra hmisarranged
  obtain ⟨made, hmade⟩ := hexpressive.misleads haccepted
  obtain ⟨cmsDer, hder, hparsed⟩ := hexpressive.encodes made
  have hmadeAccepted := hmade.accepted haccepted
  have hreported := (hdetects made hmade.arrangement hmadeAccepted cmsDer hder hparsed []).mpr
    (hmade.substituted hmisarranged)
  rw [VerifyDetached_mismatch ssl hdata hder hparsed hmadeAccepted] at hreported
  exact hmade.not_firstContradicts hreported

/-! ### A library to look at blobs with -/

/-- Certificates are numbers. A signer identifier is the number of one, an attribute is by its
length the number behind that of one, or zero. -/
def numbered (blobs : Bytes → Option (CmsContentInfo ℕ ℕ)) : OpenSsl ℕ ℕ ℕ where
  d2i_CMS_ContentInfo := blobs
  d2i_X509 der := der.head?.map (·.toNat)
  d2i_ESS_SIGNING_CERT_V2 der := some der.length
  certCmp sid cert := sid = cert
  signatureVerifies _ _ _ := true
  chainsTo _ _ _ := true
  checkSigningCert ess cert := ess = cert + 1

/-- A signer with an attribute that names a certificate. -/
def namingSigner (sid named : ℕ) : CmsSignerInfo ℕ :=
  { sid := sid, signingCertificateV2 := some [.sequence (List.replicate (named + 1) 0)] }

/-- The parts of a blob, as lists of numbers. -/
abbrev Parts := List (Option ℕ) × List (ℕ × Option (List (Option (List ℕ))) × List ℕ)

def octetsOf (numbers : List ℕ) : Bytes := numbers.map UInt8.ofNat

def certificateOf : Option ℕ → CmsCertificateChoice ℕ
  | some cert => .certificate cert
  | none => .other

def valueOf : Option (List ℕ) → Asn1Type
  | some data => .sequence (octetsOf data)
  | none => .other

def signerInfoOf : ℕ × Option (List (Option (List ℕ))) × List ℕ → CmsSignerInfo ℕ
  | (sid, values, signature) =>
    { sid, signingCertificateV2 := values.map (List.map valueOf), signature := octetsOf signature }

def blobOf (parts : Parts) : CmsContentInfo ℕ ℕ where
  certificates := parts.1.map certificateOf
  signerInfos := parts.2.map signerInfoOf

/-- The number of the parts is the length of the encoding, less one. -/
def decodeBlob (der : Bytes) : Option (CmsContentInfo ℕ ℕ) :=
  (Encodable.decode (der.length - 1)).map blobOf

theorem octetsOf_surjective : Function.Surjective octetsOf := by
  intro octets
  refine ⟨octets.map UInt8.toNat, ?_⟩
  rw [octetsOf, List.map_map]
  exact List.map_congr_left (fun octet _ => UInt8.ofNat_toNat) |>.trans (List.map_id _)

theorem valueOf_surjective : Function.Surjective valueOf := by
  rintro (data | _)
  · obtain ⟨numbers, rfl⟩ := octetsOf_surjective data
    exact ⟨some numbers, rfl⟩
  · exact ⟨none, rfl⟩

theorem signerInfoOf_surjective : Function.Surjective signerInfoOf := by
  rintro ⟨sid, values, signature⟩
  obtain ⟨numbers, rfl⟩ := octetsOf_surjective signature
  cases values with
  | none => exact ⟨(sid, none, numbers), rfl⟩
  | some values =>
      obtain ⟨parts, rfl⟩ := List.map_surjective_iff.mpr valueOf_surjective values
      exact ⟨(sid, some parts, numbers), rfl⟩

theorem blobOf_surjective : Function.Surjective blobOf := by
  rintro ⟨certificates, signerInfos⟩
  have hcertificate : Function.Surjective certificateOf := by
    rintro (cert | _)
    · exact ⟨some cert, rfl⟩
    · exact ⟨none, rfl⟩
  obtain ⟨certs, rfl⟩ := List.map_surjective_iff.mpr hcertificate certificates
  obtain ⟨signers, rfl⟩ := List.map_surjective_iff.mpr signerInfoOf_surjective signerInfos
  exact ⟨(certs, signers), rfl⟩

theorem numbered_expressive : (numbered decodeBlob).Expressive where
  encodes cms := by
    obtain ⟨parts, rfl⟩ := blobOf_surjective cms
    refine ⟨List.replicate (Encodable.encode parts + 1) 0, by simp, ?_⟩
    show decodeBlob _ = _
    rw [decodeBlob, List.length_replicate, Nat.add_sub_cancel, Encodable.encodek, Option.map_some]
  signs _ _ _ _ _ := ⟨[], rfl⟩
  names named := by
    cases named with
    | none => exact ⟨[], 0, rfl, by simp [numbered]⟩
    | some cert =>
        refine ⟨List.replicate (cert + 1) 0, cert + 1, by simp [numbered], ?_⟩
        simp [numbered]

/-- Three certificates and two signers, the first of whom names its certificate. -/
def twoSigners : CmsContentInfo ℕ ℕ where
  certificates := [.certificate 1, .other, .certificate 2, .certificate 3]
  signerInfos := [namingSigner 1 1, { sid := 2 }]

/-- However such a blob is made, it is reported just when the first signer's certificate was
substituted. -/
theorem VerifyDetached_substitution_twoSigners :
    DetectsSubstitution (numbered decodeBlob) twoSigners [0] ∧
      ¬ DetectsSubstitution (numbered decodeBlob)
        { twoSigners with certificates := [.certificate 2, .certificate 1, .certificate 3] } [0] := by
  constructor
  · refine (VerifyDetached_substitution (numbered decodeBlob) (by decide) (by decide)).1 ?_
    constructor <;> decide
  · rw [(VerifyDetached_substitution (numbered decodeBlob) (by decide) (by decide)).2
      numbered_expressive]
    intro honly
    exact absurd (honly.first (namingSigner 1 1) rfl (by decide)) (by decide)

/-! ### Blobs in another order -/

/-- An honest blob with another certificate in front is reported, and one with a second
signer under a substituted certificate is valid. -/
theorem VerifyDetached_other_orders :
    (∃ cms : CmsContentInfo ℕ ℕ, CMS_verify (numbered fun _ => some cms) cms [0] = true ∧
      VerifyDetached (numbered fun _ => some cms) [0] [0] [] =
        (NO_ERROR, some CMS_VERIFICATION_SIGNING_CERT_MISMATCH) ∧
      ¬ ∃ signerInfo ∈ cms.signerInfos, Substituted (numbered fun _ => some cms) cms signerInfo) ∧
    ∃ cms : CmsContentInfo ℕ ℕ, CMS_verify (numbered fun _ => some cms) cms [0] = true ∧
      VerifyDetached (numbered fun _ => some cms) [0] [0] [] =
        (NO_ERROR, some CMS_VERIFICATION_VALID) ∧
      ∃ signerInfo ∈ cms.signerInfos, Substituted (numbered fun _ => some cms) cms signerInfo := by
  constructor
  · refine ⟨⟨[.certificate 2, .certificate 1], [namingSigner 1 1]⟩, by decide,
      by decide, ?_⟩
    simp [Substituted, Contradicts, signerCert, signingCertV2, namingSigner, numbered,
      CmsContentInfo.certs]
  · refine ⟨⟨[.certificate 1, .certificate 2], [namingSigner 1 1, namingSigner 2 3]⟩,
      by decide, by decide, namingSigner 2 3, by simp, ?_⟩
    simp [Substituted, Contradicts, signerCert, signingCertV2, namingSigner, numbered,
      CmsContentInfo.certs]

end HashCryptoLib.Certificates
