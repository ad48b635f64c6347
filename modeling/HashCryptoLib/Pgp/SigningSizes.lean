import HashCryptoLib.Pgp.ClearSign
import HashCryptoLib.Pgp.Faults
import HashCryptoLib.Pgp.OutputSizes

/-!
The sizes that the signing calls report. A signature is made anew for the query and for
the call behind it, over the time of each, and leading zero octets of its numbers are
not written; the answer leaves no room for a signature with fewer of them.
-/

namespace HashCryptoLib.Pgp

open BigEndian

/-! ### The size of a signature packet -/

/-- How many octets the numbers of a signature take. -/
def SigningKey.mpiOctets (P : Primitives) (key : SigningKey) (signatureType : UInt8)
    (documentData extraHashedSubpacket : Bytes) (now : UInt32) : Option ℕ :=
  let hashed := toBeHashed documentData signatureType key.pkAlgorithm key.hashAlgorithm
    (hashedSubpacketsOf now extraHashedSubpacket)
  match key.algorithm with
  | PGP_KEY_ALGORITHM_RSA =>
    (P.rsaSign key.rsaKey hashed).map fun rawSignature =>
      octetsOfBits (ofOctets rawSignature.1).size
  | PGP_KEY_ALGORITHM_ED25519_X25519 =>
    let rawSignature := P.ed25519Sign key.ed25519Key (P.sha512 hashed).1
    some (octetsOfBits (ofOctets (rawSignature.1.take 32)).size +
      octetsOfBits (ofOctets (rawSignature.1.drop 32)).size)

/-- The octets of a signature packet by those of its numbers. -/
def SigningKey.packetSize (key : SigningKey) (extraLength mpiOctets : ℕ) : ℕ :=
  Pgp.packetSize ((match key.algorithm with
    | PGP_KEY_ALGORITHM_RSA => 28
    | PGP_KEY_ALGORITHM_ED25519_X25519 => 30) + extraLength + mpiOctets)

theorem length_builtBody (signatureType pkAlgorithm hashAlgorithm : UInt8) (now : UInt32)
    (extra : Bytes) (issuerKeyId : Octets 8) {leftHash : Bytes} (hleft : 2 ≤ leftHash.length)
    (signatureMpis : Bytes) :
    (signatureBody signatureType pkAlgorithm hashAlgorithm (hashedSubpacketsOf now extra)
      (unhashedSubpacketsOf issuerKeyId) leftHash signatureMpis).length =
      26 + extra.length + signatureMpis.length := by
  have hhashed : (hashedSubpacketsOf now extra).length = 6 + extra.length := by
    rw [hashedSubpacketsOf, List.length_append]
    rfl
  have hunhashed : (unhashedSubpacketsOf issuerKeyId).length = 10 := by
    rw [unhashedSubpacketsOf, appendSubpacket, List.length_append, List.length_cons, issuerKeyId.2,
      length_appendNewFormatLength]
    rfl
  rw [signatureBody]
  simp only [List.length_cons, List.length_append, length_appendBigEndian16, hhashed, hunhashed,
    List.length_take]
  omega

section Sign

variable {P : Primitives} {key : SigningKey} {signatureType : UInt8} {document extra : Bytes}
  {now : UInt32}

theorem sign_eq_nil_of_mpiOctets (h : key.mpiOctets P signatureType document extra now = none) :
    key.sign P signatureType document extra now = [] := by
  obtain ⟨algorithm, rsaKey, ed25519Key, keyId⟩ := key
  cases algorithm with
  | PGP_KEY_ALGORITHM_RSA =>
      have hsigned := Option.map_eq_none_iff.mp h
      show buildSignaturePacket P rsaKey signatureType document extra keyId now = []
      have hraw : P.rsaSign rsaKey (toBeHashed document signatureType 1 8
          (hashedSubpacketsOf now extra)) = none := hsigned
      rw [buildSignaturePacket, hraw]
  | PGP_KEY_ALGORITHM_ED25519_X25519 => cases h

theorem length_sign {mpiOctets : ℕ}
    (h : key.mpiOctets P signatureType document extra now = some mpiOctets) :
    (key.sign P signatureType document extra now).length =
      key.packetSize extra.length mpiOctets := by
  obtain ⟨algorithm, rsaKey, ed25519Key, keyId⟩ := key
  cases algorithm with
  | PGP_KEY_ALGORITHM_RSA =>
      obtain ⟨rawSignature, hsigned, rfl⟩ := Option.map_eq_some_iff.mp h
      have hraw : P.rsaSign rsaKey (toBeHashed document signatureType 1 8
          (hashedSubpacketsOf now extra)) = some rawSignature := hsigned
      show (buildSignaturePacket P rsaKey signatureType document extra keyId now).length = _
      rw [buildSignaturePacket]
      dsimp only
      rw [hraw]
      dsimp only
      rw [length_writePacket, length_builtBody _ _ _ _ _ _ (by rw [Octets.length_eq]; omega),
        length_encodeMpi, SigningKey.packetSize]
      congr 1
      dsimp only
      omega
  | PGP_KEY_ALGORITHM_ED25519_X25519 =>
      obtain rfl := Option.some.inj h
      show (buildEd25519SignaturePacket P ed25519Key signatureType document extra keyId
        now).length = _
      rw [buildEd25519SignaturePacket]
      dsimp only
      rw [length_writePacket, length_builtBody _ _ _ _ _ _ (by rw [Octets.length_eq]; omega),
        List.length_append, length_encodeMpi, length_encodeMpi, SigningKey.packetSize]
      congr 1
      dsimp only [SigningKey.pkAlgorithm, SigningKey.hashAlgorithm]
      omega

end Sign

/-! ### The calls -/

/-- The calls that make a signature and hand it out. -/
inductive SigningCall
  | signBuffer (input : Buffer)
  | clearSignString (input : Buffer)
  | revokeKeyArmored (reasonCode : UInt8) (reasonText : Buffer)

namespace SigningCall

variable (P : Primitives) (password : Bytes) (impl : Impl)

def run (now : UInt32) (buffer : Option Int32) : SigningCall → Except Fault Outcome
  | signBuffer input => SignBuffer P now password input buffer impl
  | clearSignString input => ClearSignString P now password input buffer impl
  | revokeKeyArmored reasonCode reasonText =>
    (RevokeKeyArmoredWith P Faults.none now password reasonCode reasonText buffer impl).map Prod.fst

def key : SigningCall → SigningKey
  | signBuffer _ | clearSignString _ => selectActiveSigningKeyMaterial impl
  | revokeKeyArmored _ _ => impl.masterSigningKey

def signatureType : SigningCall → UInt8
  | signBuffer _ => 0x00
  | clearSignString _ => 0x01
  | revokeKeyArmored _ _ => 0x20

def document : SigningCall → Bytes
  | signBuffer input => input.1
  | clearSignString input => clearSignedDocument input.1
  | revokeKeyArmored _ _ => buildKeyHashPrefix (buildOwnMasterPubBody impl)

def extra : SigningCall → Bytes
  | signBuffer _ | clearSignString _ => []
  | revokeKeyArmored reasonCode reasonText =>
    buildRevocationReasonSubpacket reasonCode reasonText.1

/-- What is handed out with a signature packet. -/
def output (sigPacket : Bytes) : SigningCall → Bytes
  | signBuffer _ => sigPacket
  | clearSignString input =>
    clearSignHeader impl.keyAlgorithm ++ writtenLines (splitAndCanonicalizeLines input.1) ++
      armorEncode (ascii "PGP SIGNATURE") sigPacket
  | revokeKeyArmored _ _ => armorEncode (ascii "PGP PUBLIC KEY BLOCK") sigPacket

/-- How many octets the numbers of the signature take that a call makes at a time. -/
def mpiOctets (now : UInt32) (call : SigningCall) : Option ℕ :=
  (call.key impl).mpiOctets P call.signatureType (call.document impl) call.extra now

/-- The size of what is handed out, by that number. -/
def outputSize (mpiOctets : ℕ) (call : SigningCall) : ℕ :=
  let packetSize := (call.key impl).packetSize call.extra.length mpiOctets
  match call with
  | signBuffer _ => packetSize
  | clearSignString input =>
    (clearSignHeader impl.keyAlgorithm).length +
      (writtenLines (splitAndCanonicalizeLines input.1)).length + armorSize 13 packetSize
  | revokeKeyArmored _ _ => armorSize 20 packetSize

variable {P password impl} {call : SigningCall} {now now' : UInt32}

theorem run_eq (call : SigningCall) (now : UInt32) (buffer : Option Int32) :
    call.run P password impl now buffer =
      let sigPacket :=
        (call.key impl).sign P call.signatureType (call.document impl) call.extra now
      if rejects P impl password then .ok { status := .INVALID_ARGUMENT }
      else if sigPacket = [] then .ok { status := .UNEXPECTED_ERROR }
      else deliver buffer 0 (call.output impl sigPacket) := by
  cases call with
  | signBuffer input => rfl
  | clearSignString input => rfl
  | revokeKeyArmored reasonCode reasonText =>
      have hsign : signWithOwnMasterKey P impl 0x20
          (buildKeyHashPrefix (buildOwnMasterPubBody impl))
          (buildRevocationReasonSubpacket reasonCode reasonText.1) now =
          impl.masterSigningKey.sign P 0x20 (buildKeyHashPrefix (buildOwnMasterPubBody impl))
            (buildRevocationReasonSubpacket reasonCode reasonText.1) now := rfl
      have hnothing (packet : Bytes) : caught (Faults.none.signing 0) packet = packet := rfl
      rw [run, RevokeKeyArmoredWith]
      dsimp only [key, signatureType, document, extra, output]
      rw [hnothing, hsign]
      split_ifs
      · rfl
      · rfl
      · cases deliver buffer 0 (armorEncode (ascii "PGP PUBLIC KEY BLOCK") _) with
        | error fault => rfl
        | ok outcome => rfl

theorem length_output (call : SigningCall) {sigPacket : Bytes} {n : ℕ}
    (h : sigPacket.length = (call.key impl).packetSize call.extra.length n) :
    (call.output impl sigPacket).length = call.outputSize impl n := by
  cases call with
  | signBuffer input => exact h
  | clearSignString input =>
      rw [output, List.length_append, List.length_append, length_armorEncode, h]
      rfl
  | revokeKeyArmored reasonCode reasonText =>
      rw [output, length_armorEncode, h]
      rfl

theorem sign_ne_nil {n : ℕ} (h : call.mpiOctets P impl now = some n) :
    (call.key impl).sign P call.signatureType (call.document impl) call.extra now ≠ [] := by
  intro hnil
  have hlength := length_sign h
  rw [hnil, SigningKey.packetSize, Pgp.packetSize, List.length_nil] at hlength
  omega

/-- The signature of the second run is handed out in no more octets than that of the first. -/
def NoLonger (impl : Impl) (n n' : ℕ) : SigningCall → Prop
  | signBuffer _ => n' ≤ n
  | call => ((call.key impl).packetSize call.extra.length n' + 2) / 3 ≤
      ((call.key impl).packetSize call.extra.length n + 2) / 3

/-- Two outputs compare by the octets of the numbers, in armor by the packets' groups of three. -/
theorem outputSize_le_iff {n n' : ℕ} (call : SigningCall) :
    call.outputSize impl n' ≤ call.outputSize impl n ↔ call.NoLonger impl n n' := by
  cases call with
  | signBuffer input =>
      show SigningKey.packetSize _ _ n' ≤ SigningKey.packetSize _ _ n ↔ n' ≤ n
      rw [SigningKey.packetSize, SigningKey.packetSize, packetSize_le_iff]
      omega
  | clearSignString input =>
      rw [outputSize, outputSize]
      rw [Nat.add_le_add_iff_left, armorSize_le_iff]
      rfl
  | revokeKeyArmored reasonCode reasonText => exact armorSize_le_iff

/-- The size that is reported is enough exactly where the numbers of the second signature take
no more octets than those of the first, up to the rounding of the armor; beyond the range of an
`int`, where the wrapped size is no less. -/
theorem queryHonoured_iff (P : Primitives) (password : Bytes) (impl : Impl) (call : SigningCall)
    (now now' : UInt32) :
    QueryHonoured (call.run P password impl now none) (call.run P password impl now') ↔
      rejects P impl password = true ∨ ∀ n n', call.mpiOctets P impl now = some n →
        call.mpiOctets P impl now' = some n' →
          (call.outputSize impl n < 2 ^ 31 → call.NoLonger impl n n') ∧
            (2 ^ 31 ≤ call.outputSize impl n →
              (call.outputSize impl n' : ℤ) ≤ castInt (call.outputSize impl n)) := by
  rw [funext (run_eq call now'), run_eq]
  dsimp only
  cases rejects P impl password with
  | true => exact iff_of_true (queryHonoured_refused _) (Or.inl rfl)
  | false =>
      simp only [Bool.false_eq_true, if_false, false_or]
      cases hquery : call.mpiOctets P impl now with
      | none =>
          rw [if_pos (sign_eq_nil_of_mpiOctets hquery)]
          exact iff_of_true (queryHonoured_refused _) (by rintro _ _ ⟨⟩)
      | some n =>
          rw [if_neg (sign_ne_nil hquery)]
          cases hcall : call.mpiOctets P impl now' with
          | none =>
              simp only [sign_eq_nil_of_mpiOctets hcall, if_true]
              exact iff_of_true (queryHonoured_fails _ (by decide)) (by rintro _ _ _ ⟨⟩)
          | some n' =>
              have hsizes : call.outputSize impl n' ≤ call.outputSize impl n ↔
                  call.NoLonger impl n n' := outputSize_le_iff call
              simp only [if_neg (sign_ne_nil hcall)]
              rw [queryHonoured_deliver_iff, Nat.add_zero, length_output call (length_sign hquery),
                length_output call (length_sign hcall), le_castInt_iff]
              constructor
              · rintro h _ _ ⟨⟩ ⟨⟩
                exact ⟨fun hlt => hsizes.mp (h.1 hlt), h.2⟩
              · intro h
                obtain ⟨hsmall, hlarge⟩ := h n n' rfl rfl
                exact ⟨fun hlt => hsizes.mpr (hsmall hlt), hlarge⟩

end SigningCall

/-! ### A query that is answered too low -/

/-- An Ed25519 identity. -/
def curveOwner : Impl :=
  (GenerateKeyPair standIn (Env.numbered 1000 7) ⟨ascii "alice", length_alice⟩ (ascii "pw") 0
    (Impl.new PGP_KEY_ALGORITHM_ED25519_X25519 0)).2

theorem signBuffer_tooSmall : ¬ ∀ call : SigningCall,
    QueryHonoured (call.run standIn (ascii "pw") curveOwner 1139 none)
      (call.run standIn (ascii "pw") curveOwner 1140) := by
  intro h
  have hquery : (SigningCall.signBuffer ⟨ascii "hi", by decide⟩).run standIn (ascii "pw") curveOwner
      1139 none = .ok { status := .BUFFER_TOO_SMALL, outputSize := some 95 } := by decide +kernel
  have hcall : (SigningCall.signBuffer ⟨ascii "hi", by decide⟩).run standIn (ascii "pw") curveOwner
      1140 (some 95) = .ok { status := .BUFFER_TOO_SMALL, outputSize := some 96 } := by
    decide +kernel
  obtain ⟨outcome, houtcome, hstatus⟩ := h _ _ _ hquery rfl 95 rfl
  obtain rfl := Except.ok.inj (hcall.symm.trans houtcome)
  exact hstatus rfl

end HashCryptoLib.Pgp
