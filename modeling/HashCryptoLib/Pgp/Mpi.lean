import HashCryptoLib.Pgp.Packet

/-!
Multiprecision integers: a 16-bit bit count and the minimal big-endian octets
of the value. An `Integer` of the crypto library is a natural number here, its
`BitCount` is `Nat.size`. Curve points travel in the same envelope with a
leading 0x40 octet.
-/

namespace HashCryptoLib.Pgp

open BigEndian Cursor

def encodeMpi (value : ℕ) : Bytes :=
  appendBigEndian16 value.size ++ toOctets (octetsOfBits value.size) value

/-- The octets of an MPI at `pos`, leading zeros and all, and the position
behind it. -/
def readMpiOctets (data : Bytes) (pos : ℕ) : Option (Bytes × ℕ) :=
  if pos + 2 > data.length then none
  else
    let byteLength := octetsOfBits (readBigEndian16 data pos)
    (readOctets data (pos + 2) byteLength).map fun octets => (octets, pos + 2 + byteLength)

def readMpi (data : Bytes) (pos : ℕ) : Option (ℕ × ℕ) :=
  (readMpiOctets data pos).map fun (octets, next) => (ofOctets octets, next)

/-- `CryptoPP::Integer::MinEncodedSize`, which is 1 for zero. -/
def rsaModulusByteLength (modulus : ℕ) : ℕ := max 1 (octetsOfBits modulus.size)

theorem le_rsaModulusByteLength {modulus bits : ℕ} (h : modulus.size = bits) :
    bits / 8 ≤ rsaModulusByteLength modulus := by
  unfold rsaModulusByteLength octetsOfBits
  omega

def encodeNativePointMpi (point : Octets 32) : Bytes :=
  encodeMpi (ofOctets (0x40 :: point.1))

def readNativePointMpi (body : Bytes) (pos : ℕ) : Option (Octets 32 × ℕ) :=
  if pos + 2 > body.length then none
  else
    let byteLength := octetsOfBits (readBigEndian16 body pos)
    if byteLength ≠ 33 ∨ pos + 2 + byteLength > body.length ∨ body[pos + 2]? ≠ some 0x40 then none
    else
      match readOctets body (pos + 3) 32 with
      | none => none
      | some point =>
        if hlen : point.length = 32 then some (⟨point, hlen⟩, pos + 2 + byteLength) else none

@[simp] theorem length_encodeMpi (value : ℕ) :
    (encodeMpi value).length = 2 + octetsOfBits value.size := by
  simp [encodeMpi, appendBigEndian16]

theorem octetsOfBits_size_le {value len : ℕ} (h : value < 256 ^ len) :
    octetsOfBits value.size ≤ len := by
  have hpow : (256 : ℕ) ^ len = 2 ^ (8 * len) := by rw [pow_mul]; norm_num
  have hsize : value.size ≤ 8 * len := Nat.size_le.mpr (hpow ▸ h)
  unfold octetsOfBits
  omega

theorem readMpiOctets_of_at {data rest : Bytes} {pos value : ℕ} (hsize : value.size < 2 ^ 16)
    (h : At data pos (encodeMpi value ++ rest)) :
    readMpiOctets data pos =
        some (toOctets (octetsOfBits value.size) value, pos + (encodeMpi value).length) ∧
      At data (pos + (encodeMpi value).length) rest := by
  refine ⟨?_, h.advance⟩
  have hle := h.le
  rw [length_encodeMpi] at hle
  rw [encodeMpi, List.append_assoc] at h
  have hbits := readBigEndian16_of_at hsize h
  have hoctets := readOctets_of_at h.advance
  simp only [appendBigEndian16, length_toOctets] at hoctets
  rw [readMpiOctets, if_neg (by omega), hbits]
  simp only [hoctets, Option.map_some, length_encodeMpi]
  rw [Nat.add_assoc]

theorem readMpi_of_at {data rest : Bytes} {pos value : ℕ} (hsize : value.size < 2 ^ 16)
    (h : At data pos (encodeMpi value ++ rest)) :
    readMpi data pos = some (value, pos + (encodeMpi value).length) ∧
      At data (pos + (encodeMpi value).length) rest := by
  obtain ⟨hread, hrest⟩ := readMpiOctets_of_at hsize h
  refine ⟨?_, hrest⟩
  simp only [readMpi, hread, Option.map_some,
    ofOctets_toOctets_of_lt (lt_pow_octetsOfBits value)]

/-- The 0x40 prefix makes every point MPI 263 bits long, whatever the point. -/
theorem size_nativePoint (point : Octets 32) : (ofOctets (0x40 :: point.1)).size = 263 := by
  have hlt := ofOctets_lt point.1
  have hcons := ofOctets_cons 0x40 point.1
  rw [point.2] at hlt hcons
  have hstart : (0x40 : UInt8).toNat = 64 := rfl
  rw [hstart] at hcons
  have hupper : (ofOctets (0x40 :: point.1)).size ≤ 263 := by rw [Nat.size_le]; omega
  have hlower : 262 < (ofOctets (0x40 :: point.1)).size := by rw [Nat.lt_size]; omega
  omega

theorem encodeNativePointMpi_eq (point : Octets 32) :
    encodeNativePointMpi point = appendBigEndian16 263 ++ (0x40 :: point.1) := by
  have hoctets : octetsOfBits 263 = (0x40 :: point.1).length := by
    rw [List.length_cons, point.2]
    rfl
  rw [encodeNativePointMpi, encodeMpi, size_nativePoint, hoctets, toOctets_ofOctets]

@[simp] theorem length_encodeNativePointMpi (point : Octets 32) :
    (encodeNativePointMpi point).length = 35 := by
  rw [encodeNativePointMpi, length_encodeMpi, size_nativePoint]
  rfl

theorem readNativePointMpi_of_at {body rest : Bytes} {pos : ℕ} {point : Octets 32}
    (h : At body pos (encodeNativePointMpi point ++ rest)) :
    readNativePointMpi body pos = some (point, pos + 35) ∧ At body (pos + 35) rest := by
  have hrest := h.advance
  have hle := h.le
  rw [length_encodeNativePointMpi] at hrest hle
  refine ⟨?_, hrest⟩
  rw [encodeNativePointMpi_eq, List.append_assoc] at h
  have hbits := readBigEndian16_of_at (by norm_num) h
  have hblob : At body (pos + 2) (0x40 :: (point.1 ++ rest)) := by
    simpa [appendBigEndian16] using h.advance
  have hpoint := readOctets_of_at hblob.next
  rw [point.2] at hpoint
  rw [readNativePointMpi, if_neg (by omega), hbits]
  simp [octetsOfBits, hblob.head, hpoint, point.2, hle]

end HashCryptoLib.Pgp
