import HashCryptoLib.Pgp.KeyChoice
import HashCryptoLib.Pgp.MessageRoundTrip

/-!
The calls on buffers: encrypting, decrypting, signing and verifying, as the
engine offers them to a caller with an `int`-sized output buffer. None of them
changes the engine, so each is a function from a state to an outcome.
-/

namespace HashCryptoLib.Pgp

open BigEndian

/-! ### Output buffers -/

/-- What a call leaves behind: its status, the octets it wrote, and what it
stored through `outputBufferSize` and through its pointer to a verdict. -/
structure Outcome where
  status : Status
  output : Bytes := []
  outputSize : Option ℤ := none
  isValid : Option Bool := none
  deriving DecidableEq, Repr

/-- `static_cast<int>` of a size. -/
def castInt (size : ℕ) : ℤ := Int.bmod size (2 ^ 32)

theorem castInt_of_lt {size : ℕ} (h : size < 2 ^ 31) : castInt size = size := by
  exact Int.bmod_eq_of_le (by omega) (by omega)

/-- The end of every call that fills a buffer. `none` is a null pointer, which
asks for the size; `margin` is added to the answer. The comparison is made after
the size has been cast to `int`, the copy before. -/
def deliver (buffer : Option Int32) (margin : ℕ) (data : Bytes) : Except Fault Outcome :=
  match buffer with
  | none =>
    .ok { status := BUFFER_TOO_SMALL, outputSize := some (castInt (data.length + margin)) }
  | some capacity =>
    if capacity.toInt < castInt data.length then
      .ok { status := BUFFER_TOO_SMALL, outputSize := some (castInt data.length) }
    else if data.length ≤ capacity.toInt then
      .ok { status := NO_ERROR, output := data, outputSize := some (castInt data.length) }
    else .error .outOfBounds

/-- The outcome of a call whose output is all of `data`. -/
def delivered (data : Bytes) : Outcome :=
  { status := NO_ERROR, output := data, outputSize := some data.length }

theorem deliver_eq_delivered {buffer : Option Int32} {margin : ℕ} {data : Bytes}
    {outcome : Outcome} (h : deliver buffer margin data = .ok outcome)
    (hstatus : outcome.status = NO_ERROR) :
    outcome = delivered data ∧ data.length < 2 ^ 31 := by
  unfold deliver at h
  cases buffer with
  | none =>
      obtain rfl := Except.ok.inj h
      cases hstatus
  | some capacity =>
      dsimp only at h
      split_ifs at h with hsmall hfits
      · obtain rfl := Except.ok.inj h
        cases hstatus
      · have hcapacity := Int32.toInt_lt capacity
        have hlength : data.length < 2 ^ 31 := by omega
        obtain rfl := Except.ok.inj h
        exact ⟨by rw [delivered, castInt_of_lt hlength], hlength⟩

theorem deliver_of_le {capacity : Int32} {data : Bytes} (margin : ℕ)
    (h : (data.length : ℤ) ≤ capacity.toInt) :
    deliver (some capacity) margin data = .ok (delivered data) := by
  have hcapacity := Int32.toInt_lt capacity
  have hlength : data.length < 2 ^ 31 := by omega
  simp only [deliver, castInt_of_lt hlength]
  rw [if_neg (by omega), if_pos h]
  rfl

section Calls

variable (P : Primitives)

/-! ### Encrypting and decrypting -/

def EncryptBuffer (env : MessageEnv) (input : Buffer) (buffer : Option Int32) (impl : Impl) :
    Except Fault Outcome :=
  if impl.peerKeyImported = false then .ok { status := INVALID_ARGUMENT }
  else
    match buildEncryptedMessageMultiRecipient P env impl.recipients
        impl.symmetricCipherPreference.octet input.1 with
    | none => .ok { status := UNEXPECTED_ERROR }
    | some message => deliver buffer (impl.recipients.length * 2) message

def EncryptAndSignBuffer (env : MessageEnv) (password : Bytes) (input : Buffer)
    (buffer : Option Int32) (impl : Impl) : Except Fault Outcome :=
  if impl.peerKeyImported = false ∨ rejects P impl password then .ok { status := INVALID_ARGUMENT }
  else
    match buildEncryptedSignedMessageMultiRecipient P env impl.recipients
        (selectActiveSigningKeyMaterial impl) impl.symmetricCipherPreference.octet input.1 with
    | none => .ok { status := UNEXPECTED_ERROR }
    | some message => deliver buffer (impl.recipients.length * 2) message

/-- The keys in turn, until one opens the message. A signature that was found on
the way is kept. -/
def tryKeys (message : Bytes) (wantSignature : Bool) :
    List DecryptionKey → Option Bytes → Except Fault (Option Bytes × Option Bytes)
  | [], signature => .ok (none, signature)
  | key :: keys, signature =>
    match parseAndDecryptMessage P key message wantSignature with
    | .error fault => .error fault
    | .ok (some plaintext, found) => .ok (some plaintext, found.or signature)
    | .ok (none, found) => tryKeys message wantSignature keys (found.or signature)

/-- The flat subkey fields first, then every own subkey. -/
def parseAndDecryptMessageWithAnyOwnSubkey (impl : Impl) (message : Bytes) (wantSignature : Bool) :
    Except Fault (Option Bytes × Option Bytes) :=
  tryKeys P message wantSignature (impl.flatDecryptionKey :: impl.subkeyDecryptionKeys) none

def DecryptBuffer (password : Bytes) (input : Buffer) (buffer : Option Int32) (impl : Impl) :
    Except Fault Outcome :=
  if rejects P impl password ∨ input.1 = [] then .ok { status := INVALID_ARGUMENT }
  else
    match parseAndDecryptMessageWithAnyOwnSubkey P impl input.1 false with
    | .error fault => .error fault
    | .ok (none, _) => .ok { status := INVALID_DATA }
    | .ok (some plaintext, _) => deliver buffer 0 plaintext

/-- The verdict is stored only when the plaintext is delivered. -/
def DecryptAndVerifyBuffer (password : Bytes) (input : Buffer) (buffer : Option Int32)
    (impl : Impl) : Except Fault Outcome :=
  if impl.peerKeyImported = false ∨ rejects P impl password ∨ input.1 = [] then
    .ok { status := INVALID_ARGUMENT }
  else
    match parseAndDecryptMessageWithAnyOwnSubkey P impl input.1 true with
    | .error fault => .error fault
    | .ok (none, _) => .ok { status := INVALID_DATA }
    | .ok (some plaintext, signature) =>
      match verifyWithPeer P impl plaintext (signature.getD []) with
      | none => .ok { status := INVALID_DATA }
      | some verified =>
        (deliver buffer 0 plaintext).map fun outcome =>
          if outcome.status = NO_ERROR then { outcome with isValid := some verified } else outcome

/-! ### Signing and verifying -/

def SignBuffer (now : UInt32) (password : Bytes) (input : Buffer) (buffer : Option Int32)
    (impl : Impl) : Except Fault Outcome :=
  if rejects P impl password then .ok { status := INVALID_ARGUMENT }
  else
    let sigPacket := (selectActiveSigningKeyMaterial impl).sign P 0x00 input.1 [] now
    if sigPacket = [] then .ok { status := UNEXPECTED_ERROR } else deliver buffer 0 sigPacket

def VerifyBuffer (input signature : Buffer) (impl : Impl) : Outcome :=
  if impl.peerKeyImported = false ∨ signature.1 = [] then { status := INVALID_ARGUMENT }
  else
    match verifyWithPeer P impl input.1 signature.1 with
    | none => { status := INVALID_DATA }
    | some verified => { status := NO_ERROR, isValid := some verified }

end Calls

/-! ### The search through the own keys -/

section Search

variable {P : Primitives} {message : Bytes} {wantSignature : Bool}

/-- The outcome of the search is that of any key which opens the message, if
every key before it finds nothing. -/
theorem tryKeys_of_mem {keys : List DecryptionKey} {key : DecryptionKey}
    {result : Bytes × Option Bytes} (hmem : key ∈ keys)
    (hopens : parseAndDecryptMessage P key message wantSignature = .ok (some result.1, result.2))
    (hothers : ∀ other ∈ keys,
      parseAndDecryptMessage P other message wantSignature = .ok (some result.1, result.2) ∨
        parseAndDecryptMessage P other message wantSignature = .ok (none, none)) :
    tryKeys P message wantSignature keys none = .ok (some result.1, result.2) := by
  induction keys with
  | nil => cases hmem
  | cons first keys ih =>
      rcases hothers first List.mem_cons_self with hfirst | hfirst
      · simp [tryKeys, hfirst]
      · have htail : key ∈ keys := by
          rcases List.mem_cons.mp hmem with rfl | htail
          · rw [hopens] at hfirst
            cases hfirst
          · exact htail
        rw [tryKeys, hfirst]
        exact ih htail fun other hother => hothers other (List.mem_cons_of_mem _ hother)

theorem tryKeys_none {keys : List DecryptionKey}
    (hkeys : ∀ key ∈ keys, parseAndDecryptMessage P key message wantSignature = .ok (none, none)) :
    tryKeys P message wantSignature keys none = .ok (none, none) := by
  induction keys with
  | nil => rfl
  | cons key keys ih =>
      rw [tryKeys, hkeys key List.mem_cons_self]
      exact ih fun other hother => hkeys other (List.mem_cons_of_mem _ hother)

end Search

end HashCryptoLib.Pgp
