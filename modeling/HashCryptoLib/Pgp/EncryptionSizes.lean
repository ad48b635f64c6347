import HashCryptoLib.Pgp.BufferRoundTrip
import HashCryptoLib.Pgp.OutputSizes

/-!
The sizes that the encrypting calls report. A message is made anew for the query and for
the call behind it; leading zero octets of an RSA ciphertext are not written, so one
message can be longer than the other by more than the margin that is added.
-/

namespace HashCryptoLib.Pgp

open BigEndian

/-! ### The size of a message -/

section Message

variable (P : Primitives)

/-- How many octets the encrypted session key takes: those of a number for RSA, always the same
for a curve. -/
def cipherOctets (recipient : PgpEncryptionRecipient) (plain : Bytes) (seed : ℕ) : Option ℕ :=
  match recipient.algorithm with
  | PGP_KEY_ALGORITHM_RSA =>
    (P.rsaEncrypt recipient.rsaPublicKey seed plain).map fun pkcsCipher =>
      octetsOfBits (ofOctets pkcsCipher.1).size
  | PGP_KEY_ALGORITHM_ED25519_X25519 =>
    (P.x25519Agree (P.generateX25519PrivateKey seed) recipient.x25519PublicKey).map fun _ =>
      (padPkcs5 plain).length + 8

def pkeskSize (recipient : PgpEncryptionRecipient) (cipherOctets : ℕ) : ℕ :=
  packetSize ((match recipient.algorithm with
    | PGP_KEY_ALGORITHM_RSA => 12
    | PGP_KEY_ALGORITHM_ED25519_X25519 => 46) + cipherOctets)

/-- These numbers for all the recipients of a message. -/
def allCipherOctets (plain : Bytes) (seed : ℕ → ℕ) :
    ℕ → List PgpEncryptionRecipient → Option (List ℕ)
  | _, [] => some []
  | i, recipient :: recipients =>
    (cipherOctets P recipient plain (seed i)).bind fun octets =>
      (allCipherOctets plain seed (i + 1) recipients).map (octets :: ·)

/-- What the length of a message depends on: how many octets each encrypted session key takes,
and the compressed content. -/
structure MessageParts where
  cipherOctets : List ℕ
  deflatedLength : ℕ

def messageParts (env : MessageEnv) (recipients : List PgpEncryptionRecipient)
    (cipherAlgorithmOctet : UInt8) (content : Bytes) : Option MessageParts :=
  (allCipherOctets P
    (sessionKeyPlain cipherAlgorithmOctet (env.sessionKeyFor cipherAlgorithmOctet))
    env.seed 0 recipients).map fun cipherOctets =>
      { cipherOctets, deflatedLength := (P.deflate content).length }

/-- The octets of the session key packets. -/
def MessageParts.pkeskSizes (recipients : List PgpEncryptionRecipient) (parts : MessageParts) : ℕ :=
  (List.zipWith pkeskSize recipients parts.cipherOctets).sum

/-- The octets of the protected packet, around the compressed one. -/
def MessageParts.protectedSize (parts : MessageParts) : ℕ :=
  packetSize (41 + packetSize (1 + parts.deflatedLength))

/-- The session key packets, and the protected packet around the compressed one. -/
def MessageParts.size (recipients : List PgpEncryptionRecipient) (parts : MessageParts) : ℕ :=
  parts.pkeskSizes recipients + parts.protectedSize

variable {P}

theorem length_pkeskBody (keyId : Octets 8) (algorithm : PgpKeyAlgorithm) (tail : Bytes) :
    (pkeskBody keyId algorithm tail).length = 10 + tail.length := by
  rw [pkeskBody, List.length_cons, List.length_append, List.length_cons, keyId.2]
  omega

theorem length_buildPkeskPacketForRecipient (P : Primitives)
    (recipient : PgpEncryptionRecipient) (sessionKey : Bytes) (cipherAlgorithmOctet : UInt8) (seed : ℕ) :
    (buildPkeskPacketForRecipient P recipient sessionKey cipherAlgorithmOctet seed).length =
      (cipherOctets P recipient (sessionKeyPlain cipherAlgorithmOctet sessionKey) seed).elim 0
        (pkeskSize recipient) := by
  obtain ⟨hne, hmod, -⟩ := padPkcs5_facts (sessionKeyPlain cipherAlgorithmOctet sessionKey)
  rw [buildPkeskPacketForRecipient, encryptSessionKey, cipherOctets]
  cases halgorithm : recipient.algorithm with
  | PGP_KEY_ALGORITHM_RSA =>
      dsimp only
      cases P.rsaEncrypt recipient.rsaPublicKey seed
          (sessionKeyPlain cipherAlgorithmOctet sessionKey) with
      | none => rfl
      | some pkcsCipher =>
          dsimp only [Option.map_some, Option.elim_some]
          rw [length_writePacket, length_pkeskBody, length_encodeMpi, pkeskSize, halgorithm]
          dsimp only
          congr 1
          omega
  | PGP_KEY_ALGORITHM_ED25519_X25519 =>
      dsimp only
      cases P.x25519Agree (P.generateX25519PrivateKey seed) recipient.x25519PublicKey with
      | none => rfl
      | some sharedSecret =>
          have hwrapped := length_aesKeyWrap P (computeEcdhKek P sharedSecret
            (buildEcdhKdfParam recipient.x25519Fingerprint) 16) hne hmod
          dsimp only [Option.map_some, Option.elim_some]
          rw [if_neg (List.length_pos_iff.mp (by omega))]
          dsimp only
          rw [length_writePacket, length_pkeskBody, List.length_append, List.length_cons, hwrapped,
            length_encodeNativePointMpi, pkeskSize, halgorithm]
          dsimp only
          congr 1
          omega

theorem pkeskSize_pos (recipient : PgpEncryptionRecipient) (octets : ℕ) :
    0 < pkeskSize recipient octets := by
  rw [pkeskSize, packetSize]
  omega

theorem length_buildPkeskPackets (P : Primitives) (sessionKey : Bytes)
    (cipherAlgorithmOctet : UInt8) (seed : ℕ → ℕ) (i : ℕ)
    (recipients : List PgpEncryptionRecipient) :
    (buildPkeskPackets P sessionKey cipherAlgorithmOctet seed i recipients).map List.length =
      (allCipherOctets P (sessionKeyPlain cipherAlgorithmOctet sessionKey) seed i recipients).map
        fun octets => (List.zipWith pkeskSize recipients octets).sum := by
  induction recipients generalizing i with
  | nil => rfl
  | cons recipient recipients ih =>
      have hlength := length_buildPkeskPacketForRecipient P recipient sessionKey
        cipherAlgorithmOctet (seed i)
      have hothers := ih (i + 1)
      rw [buildPkeskPackets, allCipherOctets]
      cases hcipher : cipherOctets P recipient (sessionKeyPlain cipherAlgorithmOctet sessionKey)
          (seed i) with
      | none =>
          rw [hcipher] at hlength
          rw [if_pos (List.length_eq_zero_iff.mp hlength)]
          rfl
      | some octets =>
          rw [hcipher] at hlength
          have hpos := pkeskSize_pos recipient octets
          rw [if_neg (List.length_pos_iff.mp (hlength ▸ hpos)), Option.bind_some, Option.map_map,
            Option.map_map]
          cases hbuilt : buildPkeskPackets P sessionKey cipherAlgorithmOctet seed (i + 1)
              recipients with
          | none =>
              rw [hbuilt, Option.map_none] at hothers
              rw [Option.map_eq_none_iff.mp hothers.symm]
              rfl
          | some others =>
              rw [hbuilt, Option.map_some] at hothers
              obtain ⟨sizes, hsizes, hsum⟩ := Option.map_eq_some_iff.mp hothers.symm
              rw [hsizes, Option.map_some, Option.map_some]
              apply congrArg some
              show (_ ++ others).length = (List.zipWith pkeskSize (recipient :: recipients)
                (octets :: sizes)).sum
              rw [List.length_append, hlength, List.zipWith_cons_cons, List.sum_cons, hsum]
              rfl

theorem encryptContent_size (P : Primitives) (env : MessageEnv)
    (recipients : List PgpEncryptionRecipient) (cipherAlgorithmOctet : UInt8) (content : Bytes) :
    (encryptContent P env recipients cipherAlgorithmOctet content).map List.length =
      (messageParts P env recipients cipherAlgorithmOctet content).map
        (MessageParts.size recipients) := by
  have hpkesks := length_buildPkeskPackets P (env.sessionKeyFor cipherAlgorithmOctet)
    cipherAlgorithmOctet env.seed 0 recipients
  rw [encryptContent, messageParts]
  cases hbuilt : buildPkeskPackets P (env.sessionKeyFor cipherAlgorithmOctet)
      cipherAlgorithmOctet env.seed 0 recipients with
  | none =>
      rw [hbuilt, Option.map_none] at hpkesks
      rw [Option.map_eq_none_iff.mp hpkesks.symm]
      rfl
  | some pkesks =>
      rw [hbuilt, Option.map_some] at hpkesks
      obtain ⟨octets, hoctets, hsum⟩ := Option.map_eq_some_iff.mp hpkesks.symm
      rw [hoctets]
      apply congrArg some
      show (pkesks ++ seipPacket P _ env.prefixOctets (compressedPacket P content)).length = _
      rw [List.length_append, seipPacket, length_writePacket, List.length_cons, length_cfbEncrypt,
        length_plainForCfb, compressedPacket, length_writePacket, List.length_cons,
        MessageParts.size, MessageParts.pkeskSizes, MessageParts.protectedSize, hsum,
        Nat.add_comm (P.deflate content).length 1]
      congr 2
      dsimp only
      omega

end Message

/-! ### The calls -/

def EncryptStringArmored (P : Primitives) (env : MessageEnv) (inputString : Buffer)
    (buffer : Option Int32) (impl : Impl) : Except Fault Outcome :=
  if impl.peerKeyImported = false then .ok { status := .INVALID_ARGUMENT }
  else
    match buildEncryptedMessageMultiRecipient P env impl.recipients
        impl.symmetricCipherPreference.octet inputString.1 with
    | none => .ok { status := .UNEXPECTED_ERROR }
    | some message =>
      deliver buffer (impl.recipients.length * 4) (armorEncode (ascii "PGP MESSAGE") message)

/-- The calls that make a message and hand it out. -/
inductive EncryptionCall
  | encryptBuffer (input : Buffer)
  | encryptStringArmored (inputString : Buffer)
  | encryptAndSignBuffer (password : Bytes) (input : Buffer)

namespace EncryptionCall

variable (P : Primitives) (impl : Impl)

def run (env : MessageEnv) (buffer : Option Int32) : EncryptionCall → Except Fault Outcome
  | encryptBuffer input => EncryptBuffer P env input buffer impl
  | encryptStringArmored inputString => EncryptStringArmored P env inputString buffer impl
  | encryptAndSignBuffer password input => EncryptAndSignBuffer P env password input buffer impl

def refuses : EncryptionCall → Bool
  | encryptBuffer _ | encryptStringArmored _ => !impl.peerKeyImported
  | encryptAndSignBuffer password _ => !impl.peerKeyImported || rejects P impl password

/-- What is compressed and encrypted; there is none where it cannot be signed. -/
def content (env : MessageEnv) : EncryptionCall → Option Bytes
  | encryptBuffer input | encryptStringArmored input =>
    some (writePacket PGP_TAG_LITERAL_DATA (literalBody input.1))
  | encryptAndSignBuffer _ input =>
    let signingKey := selectActiveSigningKeyMaterial impl
    let sigPacket := signingKey.sign P 0 input.1 [] env.now
    if sigPacket = [] then none
    else
      some (signingKey.onePass ++ writePacket PGP_TAG_LITERAL_DATA (literalBody input.1) ++
        sigPacket)

/-- What is handed out with a message. -/
def output (message : Bytes) : EncryptionCall → Bytes
  | encryptBuffer _ | encryptAndSignBuffer _ _ => message
  | encryptStringArmored _ => armorEncode (ascii "PGP MESSAGE") message

/-- What is added to the answer of a query. -/
def margin : EncryptionCall → ℕ
  | encryptBuffer _ | encryptAndSignBuffer _ _ => impl.recipients.length * 2
  | encryptStringArmored _ => impl.recipients.length * 4

/-- What the length of the message depends on that a call makes with its draws and its time. -/
def parts (env : MessageEnv) (call : EncryptionCall) : Option MessageParts :=
  (call.content P impl env).bind
    (messageParts P env impl.recipients impl.symmetricCipherPreference.octet)

/-- The size of what is handed out, by these. -/
def outputSize (parts : MessageParts) : EncryptionCall → ℕ
  | encryptBuffer _ | encryptAndSignBuffer _ _ => parts.size impl.recipients
  | encryptStringArmored _ => armorSize 11 (parts.size impl.recipients)

variable {P impl} {call : EncryptionCall} {env env' : MessageEnv}

theorem run_eq (call : EncryptionCall) (env : MessageEnv) (buffer : Option Int32) :
    call.run P impl env buffer =
      if call.refuses P impl then .ok { status := .INVALID_ARGUMENT }
      else
        match (call.content P impl env).bind
            (encryptContent P env impl.recipients impl.symmetricCipherPreference.octet) with
        | none => .ok { status := .UNEXPECTED_ERROR }
        | some message => deliver buffer (call.margin impl) (call.output message) := by
  have hrecipients : impl.recipients ≠ [] := List.cons_ne_nil _ _
  cases call with
  | encryptBuffer input =>
      rw [run, EncryptBuffer, buildEncryptedMessageMultiRecipient, if_neg hrecipients, refuses]
      cases impl.peerKeyImported with
      | false => rfl
      | true => rfl
  | encryptStringArmored inputString =>
      rw [run, EncryptStringArmored, buildEncryptedMessageMultiRecipient, if_neg hrecipients, refuses]
      cases impl.peerKeyImported with
      | false => rfl
      | true => rfl
  | encryptAndSignBuffer password input =>
      rw [run, EncryptAndSignBuffer, buildEncryptedSignedMessageMultiRecipient, if_neg hrecipients,
        refuses, content]
      dsimp only
      cases impl.peerKeyImported with
      | false => rfl
      | true =>
          cases rejects P impl password with
          | true => rfl
          | false =>
              by_cases hunsigned :
                  (selectActiveSigningKeyMaterial impl).sign P 0 input.1 [] env.now = []
              · rw [if_pos hunsigned, if_pos hunsigned]
                rfl
              · rw [if_neg hunsigned, if_neg hunsigned]
                rfl

/-- What a call hands out is as long as its parts say. -/
theorem message_size (P : Primitives) (impl : Impl) (call : EncryptionCall) (env : MessageEnv) :
    ((call.content P impl env).bind (encryptContent P env impl.recipients
      impl.symmetricCipherPreference.octet)).map (fun message => (call.output message).length) =
        (call.parts P impl env).map fun parts => call.outputSize impl parts := by
  rw [parts]
  cases call.content P impl env with
  | none => rfl
  | some content =>
      have hsize := encryptContent_size P env impl.recipients
        impl.symmetricCipherPreference.octet content
      cases call with
      | encryptBuffer input => exact hsize
      | encryptStringArmored inputString =>
          have harmored := congrArg (Option.map (armorSize 11)) hsize
          rw [Option.map_map, Option.map_map] at harmored
          refine Eq.trans ?_ harmored
          exact congrArg (Option.map · _) (funext fun message => length_armorEncode _ message)
      | encryptAndSignBuffer password input => exact hsize

theorem deflatedLength_of_messageParts {recipients : List PgpEncryptionRecipient}
    {cipherAlgorithmOctet : UInt8} {content : Bytes} {parts : MessageParts}
    (h : messageParts P env recipients cipherAlgorithmOctet content = some parts) :
    parts.deflatedLength = (P.deflate content).length := by
  obtain ⟨cipherOctets, -, rfl⟩ := Option.map_eq_some_iff.mp h
  rfl

/-- The message of the second run is no longer than that of the first and the margin. Only a
call that signs compresses something else in its second run. -/
def Fits (impl : Impl) (parts parts' : MessageParts) : EncryptionCall → Prop
  | encryptBuffer _ => parts'.pkeskSizes impl.recipients ≤
      parts.pkeskSizes impl.recipients + impl.recipients.length * 2
  | encryptStringArmored _ =>
    armorSize 11 (parts'.pkeskSizes impl.recipients + parts.protectedSize) ≤
      armorSize 11 (parts.pkeskSizes impl.recipients + parts.protectedSize) +
        impl.recipients.length * 4
  | encryptAndSignBuffer _ _ =>
    parts'.size impl.recipients ≤ parts.size impl.recipients + impl.recipients.length * 2

theorem fits_iff {parts parts' : MessageParts} (h : call.parts P impl env = some parts)
    (h' : call.parts P impl env' = some parts') :
    call.Fits impl parts parts' ↔
      call.outputSize impl parts' ≤ call.outputSize impl parts + call.margin impl := by
  cases call with
  | encryptBuffer input =>
      have hdeflated := (deflatedLength_of_messageParts h').trans
        (deflatedLength_of_messageParts h).symm
      show _ ↔ parts'.pkeskSizes impl.recipients + parts'.protectedSize ≤
        parts.pkeskSizes impl.recipients + parts.protectedSize + impl.recipients.length * 2
      rw [Fits, MessageParts.protectedSize, MessageParts.protectedSize, hdeflated]
      omega
  | encryptStringArmored inputString =>
      have hdeflated := (deflatedLength_of_messageParts h').trans
        (deflatedLength_of_messageParts h).symm
      have hsame : parts.protectedSize = parts'.protectedSize := by
        rw [MessageParts.protectedSize, MessageParts.protectedSize, hdeflated]
      show _ ↔ armorSize 11 (parts'.pkeskSizes impl.recipients + parts'.protectedSize) ≤ _
      rw [Fits, hsame]
      exact hsame ▸ Iff.rfl
  | encryptAndSignBuffer password input => exact Iff.rfl

/-- The size that is reported is enough exactly where the session keys, and the compressed
content of a call that signs, do not grow by more octets than the margin makes up for; beyond
the range of an `int`, where the wrapped size is no less. -/
theorem sizeQueryHonoured_iff (P : Primitives) (impl : Impl) (call : EncryptionCall)
    (env env' : MessageEnv) :
    QueryHonoured (call.run P impl env none) (call.run P impl env') ↔
      call.refuses P impl = true ∨ ∀ parts parts', call.parts P impl env = some parts →
        call.parts P impl env' = some parts' →
          (call.outputSize impl parts + call.margin impl < 2 ^ 31 → call.Fits impl parts parts') ∧
            (2 ^ 31 ≤ call.outputSize impl parts + call.margin impl →
              (call.outputSize impl parts' : ℤ) ≤
                castInt (call.outputSize impl parts + call.margin impl)) := by
  have hquery := message_size P impl call env
  have hcall := message_size P impl call env'
  rw [funext (run_eq call env'), run_eq]
  cases call.refuses P impl with
  | true => exact iff_of_true (queryHonoured_refused _) (Or.inl rfl)
  | false =>
      simp only [Bool.false_eq_true, if_false, false_or]
      cases hmade : (call.content P impl env).bind
          (encryptContent P env impl.recipients impl.symmetricCipherPreference.octet) with
      | none =>
          rw [hmade, Option.map_none] at hquery
          rw [Option.map_eq_none_iff.mp hquery.symm]
          exact iff_of_true (queryHonoured_refused _) (by rintro _ _ ⟨⟩)
      | some message =>
          rw [hmade, Option.map_some] at hquery
          obtain ⟨parts, hparts, hsize⟩ := Option.map_eq_some_iff.mp hquery.symm
          cases hmade' : (call.content P impl env').bind
              (encryptContent P env' impl.recipients impl.symmetricCipherPreference.octet) with
          | none =>
              rw [hmade', Option.map_none] at hcall
              rw [hparts, Option.map_eq_none_iff.mp hcall.symm]
              exact iff_of_true (queryHonoured_fails _ (by decide)) (by rintro _ _ _ ⟨⟩)
          | some message' =>
              rw [hmade', Option.map_some] at hcall
              obtain ⟨parts', hparts', hsize'⟩ := Option.map_eq_some_iff.mp hcall.symm
              have hfits := fits_iff hparts hparts'
              rw [hparts, hparts']
              dsimp only
              rw [queryHonoured_deliver_iff, ← hsize, ← hsize', le_castInt_iff]
              constructor
              · rintro h _ _ ⟨⟩ ⟨⟩
                exact ⟨fun hlt => hfits.mpr (h.1 hlt), h.2⟩
              · intro h
                obtain ⟨hsmall, hlarge⟩ := h _ _ rfl rfl
                exact ⟨fun hlt => hfits.mp (hsmall hlt), hlarge⟩

end EncryptionCall

/-! ### A query that is answered too low -/

/-- The stand-in, with ciphertexts of two sizes: every other padding makes three more zero
octets in front. -/
def variedRsa : Primitives where
  __ := standIn
  rsaEncrypt key padding message :=
    if h : padding % 2 = 1 ∧ message.length + 14 ≤ rsaModulusByteLength key.modulus then
      (StandIn.pkcs1Block (rsaModulusByteLength key.modulus - 3) 2 message).map fun block =>
        ⟨0 :: 0 :: 0 :: block.1, by simp only [List.length_cons, Octets.length_eq]; omega⟩
    else StandIn.pkcs1Block _ 2 message
  rsaDecrypt _ cipher := some (StandIn.pkcs1Message (0 :: cipher.dropWhile (· = 0)))

theorem pkcs1Message_stripped {len : ℕ} {message : Bytes} {block : Octets len}
    (h : StandIn.pkcs1Block len 2 message = some block) :
    StandIn.pkcs1Message (0 :: block.1.dropWhile (· = 0)) = some message := by
  have hmessage := StandIn.pkcs1Message_pkcs1Block h
  rw [StandIn.pkcs1Block] at h
  split_ifs at h
  obtain rfl := Option.some.inj h
  exact hmessage

theorem variedRsa_lawful : variedRsa.Lawful where
  aesDecrypt_aesEncrypt := standIn_lawful.aesDecrypt_aesEncrypt
  rsaVerify_rsaSign := standIn_lawful.rsaVerify_rsaSign
  rsaDecrypt_rsaEncrypt seed bits padding message cipher _ h := by
    refine congrArg some ?_
    dsimp only [variedRsa] at h
    split_ifs at h with hvaried
    · obtain ⟨block, hblock, rfl⟩ := Option.map_eq_some_iff.mp h
      dsimp only
      rw [List.dropWhile_cons_of_pos (by decide), List.dropWhile_cons_of_pos (by decide),
        List.dropWhile_cons_of_pos (by decide)]
      exact pkcs1Message_stripped hblock
    · exact pkcs1Message_stripped h
  rsaSign_isSome := standIn_lawful.rsaSign_isSome
  rsaEncrypt_isSome seed bits padding message hbits hlen := by
    dsimp only [variedRsa]
    split_ifs with hvaried
    · rw [Option.isSome_map]
      exact StandIn.pkcs1Block_isSome 2 (by omega)
    · exact standIn_lawful.rsaEncrypt_isSome seed bits padding message hbits hlen
  rsaEncrypt_zero padding message := by
    have hlen : rsaModulusByteLength ({} : RsaPublicKey).modulus = 1 := by decide
    dsimp only [variedRsa]
    rw [dif_neg (by rw [hlen]; omega)]
    exact standIn_lawful.rsaEncrypt_zero padding message
  ed25519Verify_ed25519Sign := standIn_lawful.ed25519Verify_ed25519Sign
  x25519Agree_comm seed seed' := by
    dsimp only [variedRsa]
    exact standIn_lawful.x25519Agree_comm seed seed'
  x25519Agree_zero := standIn_lawful.x25519Agree_zero
  inflate_deflate := standIn_lawful.inflate_deflate
  deflate_length := standIn_lawful.deflate_length

/-- An engine that has imported the key block of an RSA identity. -/
def correspondent : Impl :=
  (Impl.new PGP_KEY_ALGORITHM_RSA 1024).importPeer
    ((exportedIdentity shortLivedOwner).chooseSubkey 1500)

/-- All draws the same. -/
def MessageEnv.constant (seed : ℕ) : MessageEnv where
  sessionKey := Octets.zero 32
  prefixOctets := Octets.zero 16
  seed _ := seed
  now := 1600

theorem encryptBuffer_tooSmall : ¬ ∀ call : EncryptionCall,
    QueryHonoured (call.run variedRsa correspondent (.constant 1) none)
      (call.run variedRsa correspondent (.constant 0)) := by
  intro h
  have hquery : (EncryptionCall.encryptBuffer ⟨ascii "hi", by decide⟩).run variedRsa correspondent
      (.constant 1) none = .ok { status := .BUFFER_TOO_SMALL, outputSize := some 196 } := by
    decide +kernel
  have hcall : (EncryptionCall.encryptBuffer ⟨ascii "hi", by decide⟩).run variedRsa correspondent
      (.constant 0) (some 196) = .ok { status := .BUFFER_TOO_SMALL, outputSize := some 197 } := by
    decide +kernel
  obtain ⟨outcome, houtcome, hstatus⟩ := h _ _ _ hquery rfl 196 rfl
  obtain rfl := Except.ok.inj (hcall.symm.trans houtcome)
  exact hstatus rfl

end HashCryptoLib.Pgp
