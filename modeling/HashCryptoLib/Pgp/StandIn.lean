import HashCryptoLib.Lib.Sha
import HashCryptoLib.Pgp.Armor
import HashCryptoLib.Pgp.Primitives

/-!
A crypto library that satisfies every law, so that runs of the engine can be
evaluated: the digests are the real ones, keys are numbered by their seeds,
Diffie-Hellman is done in the multiplicative group of the curve's field, and
the ciphers are permutations without strength.
-/

namespace HashCryptoLib.Pgp

open BigEndian

namespace StandIn

/-- A modulus of the size asked for, one for each seed. -/
def modulusOf (seed bits : ℕ) : ℕ :=
  if bits = 0 then 0 else 2 ^ (bits - 1) + seed % 2 ^ (bits - 1)

theorem size_modulusOf (seed bits : ℕ) : (modulusOf seed bits).size = bits := by
  cases bits with
  | zero => rfl
  | succ n =>
      have hpow : 2 ^ (n + 1) = 2 ^ n + 2 ^ n := by ring
      have hmod : seed % 2 ^ n < 2 ^ n := Nat.mod_lt _ (by positivity)
      have hupper : (modulusOf seed (n + 1)).size ≤ n + 1 := by
        rw [Nat.size_le, modulusOf, if_neg (by omega), Nat.add_sub_cancel]
        omega
      have hlower : n < (modulusOf seed (n + 1)).size := by
        rw [Nat.lt_size, modulusOf, if_neg (by omega), Nat.add_sub_cancel]
        omega
      omega

/-- The PKCS#1 v1.5 block of a message: a type octet, padding, a zero. -/
def pkcs1Block (len : ℕ) (type : UInt8) (message : Bytes) : Option (Octets len) :=
  if h : message.length + 11 ≤ len then
    some ⟨0 :: type :: (List.replicate (len - message.length - 3) 0xFF ++ 0 :: message), by
      simp only [List.length_cons, List.length_append, List.length_replicate]
      omega⟩
  else none

theorem pkcs1Block_isSome {len : ℕ} {message : Bytes} (type : UInt8)
    (h : message.length + 11 ≤ len) : (pkcs1Block len type message).isSome = true := by
  rw [pkcs1Block, dif_pos h]
  rfl

/-- The message behind the padding of a type 2 block. -/
def pkcs1Message (block : Bytes) : Option Bytes :=
  match block with
  | 0 :: 2 :: padded => ((padded.dropWhile (· ≠ 0)).tail?)
  | _ => none

theorem pkcs1Message_pkcs1Block {len : ℕ} {message : Bytes} {block : Octets len}
    (h : pkcs1Block len 2 message = some block) : pkcs1Message block.1 = some message := by
  unfold pkcs1Block at h
  split_ifs at h
  obtain rfl := Option.some.inj h
  simp [pkcs1Message]

/-- The order of the field. -/
def fieldOrder : ℕ := 2 ^ 255 - 19

def privateOctets (seed : ℕ) : Octets 32 := ⟨toOctets 32 seed, length_toOctets 32 seed⟩

/-- The public value of a private exponent. -/
def power (base : ℕ) (key : Octets 32) : ℕ := base ^ ofOctets key.1 % fieldOrder

def agree (key point : Octets 32) : Option (Octets 32) :=
  if point = Octets.zero 32 then none
  else some ⟨toOctets 32 (power (ofOctets point.1) key), length_toOctets 32 _⟩

def publicPoint (key : Octets 32) : Octets 32 := ⟨toOctets 32 (power 9 key), length_toOctets 32 _⟩

theorem power_pos (key : Octets 32) : 0 < power 9 key := by
  rw [Nat.pos_iff_ne_zero]
  intro hzero
  have hcoprime : Nat.Coprime (9 ^ ofOctets key.1) fieldOrder :=
    Nat.Coprime.pow_left _ (by decide)
  have hdvd : fieldOrder ∣ 9 ^ ofOctets key.1 := Nat.dvd_of_mod_eq_zero hzero
  have hone := Nat.Coprime.eq_one_of_dvd hcoprime.symm hdvd
  norm_num [fieldOrder] at hone

theorem power_lt (base : ℕ) (key : Octets 32) : power base key < 256 ^ 32 :=
  lt_trans (Nat.mod_lt _ (by norm_num [fieldOrder])) (by norm_num [fieldOrder])

theorem ofOctets_publicPoint (key : Octets 32) : ofOctets (publicPoint key).1 = power 9 key :=
  ofOctets_toOctets_of_lt (power_lt 9 key)

theorem publicPoint_ne_zero (key : Octets 32) : publicPoint key ≠ Octets.zero 32 := by
  intro hzero
  have hpos := power_pos key
  rw [← ofOctets_publicPoint, hzero] at hpos
  revert hpos
  decide

theorem agree_comm (key key' : Octets 32) :
    agree key (publicPoint key') = agree key' (publicPoint key) := by
  have hpower : power (power 9 key') key = power (power 9 key) key' := by
    simp only [power, ← Nat.pow_mod, ← pow_mul]
    rw [Nat.mul_comm]
  simp only [agree, publicPoint_ne_zero, if_false, ofOctets_publicPoint, hpower]

def edSignature (publicKey : Octets 32) (message : Bytes) : Octets 64 :=
  ⟨Sha.sha512.hash (publicKey.1 ++ message), Sha.sha512.length_hash _⟩

/-- The octets a cipher block is combined with. -/
def mask (key : Bytes) (block : Octets 16) : Octets 16 :=
  ⟨xorOctets block.1 (Sha.sha256.hash key), by
    rw [length_xorOctets, Octets.length_eq, Sha.Variant.length_hash]
    rfl⟩

theorem mask_mask (key : Bytes) (block : Octets 16) : mask key (mask key block) = block := by
  have hlen : block.1.length ≤ (Sha.sha256.hash key).length := by
    rw [Octets.length_eq, Sha.Variant.length_hash]
    decide
  exact Subtype.ext (xorOctets_xorOctets hlen)

end StandIn

open StandIn in
def standIn : Primitives where
  sha1 message := ⟨Sha.sha1 message, Sha.length_sha1 message⟩
  sha256 message := ⟨Sha.sha256.hash message, Sha.sha256.length_hash message⟩
  sha512 message := ⟨Sha.sha512.hash message, Sha.sha512.length_hash message⟩
  aesEncrypt := mask
  aesDecrypt := mask
  generateRsaKey seed bits :=
    ⟨{ modulus := modulusOf seed bits, publicExponent := 17 }, size_modulusOf seed bits, rfl⟩
  rsaSign _ message := pkcs1Block _ 1 (Sha.sha256.hash message)
  rsaVerify key message signature :=
    some ((pkcs1Block (rsaModulusByteLength key.modulus) 1 (Sha.sha256.hash message)).map (·.1) =
      some signature)
  rsaEncrypt _ _ message := pkcs1Block _ 2 message
  rsaDecrypt _ cipher := some (pkcs1Message cipher)
  generateEd25519Key seed := (privateOctets seed, privateOctets seed)
  ed25519Sign := edSignature
  ed25519Verify publicKey message signature := signature = edSignature publicKey message
  generateX25519PrivateKey := privateOctets
  x25519PublicKey := publicPoint
  x25519Agree := agree
  deflate data := data
  inflate := some
  zlibDecompress := some

theorem standIn_lawful : standIn.Lawful where
  aesDecrypt_aesEncrypt key block _ := StandIn.mask_mask key block
  rsaVerify_rsaSign seed bits message signature _ h := by
    have hblock := congrArg (Option.map (·.1)) h
    exact congrArg some (decide_eq_true hblock)
  rsaDecrypt_rsaEncrypt seed bits padding message cipher _ h := by
    simp only [standIn] at h ⊢
    rw [StandIn.pkcs1Message_pkcs1Block h]
  rsaSign_isSome seed bits message hbits := by
    have hlen : (Sha.sha256.hash message).length = 32 := Sha.sha256.length_hash message
    have hmodulus := le_rsaModulusByteLength (standIn.generateRsaKey seed bits).2.1
    refine StandIn.pkcs1Block_isSome 1 (le_trans ?_ hmodulus)
    rcases hbits with rfl | rfl | rfl | rfl <;> omega
  rsaEncrypt_isSome seed bits padding message hbits hlen :=
    StandIn.pkcs1Block_isSome 2
      (hlen.trans (le_rsaModulusByteLength (standIn.generateRsaKey seed bits).2.1))
  rsaEncrypt_zero padding message := by
    have hlen : rsaModulusByteLength 0 = 1 := by decide
    simp [standIn, StandIn.pkcs1Block, hlen]
  ed25519Verify_ed25519Sign seed message := by simp [standIn]
  x25519Agree_comm seed seed' := by
    simp only [standIn]
    exact StandIn.agree_comm (StandIn.privateOctets seed) (StandIn.privateOctets seed')
  x25519Agree_zero key := by simp [standIn, StandIn.agree]
  inflate_deflate data := rfl
  deflate_length data := by
    simp only [standIn]
    omega

theorem standIn_agrees : standIn.Agrees := by
  intro seed seed'
  simp [standIn, StandIn.agree, StandIn.publicPoint_ne_zero]

/-- The user IDs of the identities that the runs below make, as `int` lengths. -/
theorem length_alice : (ascii "alice").length < 2 ^ 31 := by decide

theorem length_bob : (ascii "bob").length < 2 ^ 31 := by decide

end HashCryptoLib.Pgp
