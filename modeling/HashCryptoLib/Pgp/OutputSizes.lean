import HashCryptoLib.Pgp.Engine

/-!
How long the outputs of the calls are, and when the answer to a query for the size
leaves enough room for the next call. The two calls draw and sign anew, so what they
make need not have one length.
-/

namespace HashCryptoLib.Pgp

open BigEndian

/-! ### Lengths -/

/-- The octets of a packet around a body of that length. -/
def packetSize (bodyLength : ℕ) : ℕ :=
  1 + (if bodyLength < 192 then 1 else if bodyLength < 8384 then 2 else 5) + bodyLength

/-- The characters of an armored block around that many octets. -/
def armorSize (labelLength dataLength : ℕ) : ℕ :=
  let b64Length := 4 * ((dataLength + 2) / 3)
  78 + 2 * labelLength + b64Length + 2 * ((b64Length + 63) / 64)

/-- The armor rounds up to groups of three octets. -/
theorem armorSize_le_iff {labelLength m n : ℕ} :
    armorSize labelLength m ≤ armorSize labelLength n ↔ (m + 2) / 3 ≤ (n + 2) / 3 := by
  rw [armorSize, armorSize]
  omega

theorem length_appendNewFormatLength (length : ℕ) :
    (appendNewFormatLength length).length =
      if length < 192 then 1 else if length < 8384 then 2 else 5 := by
  rw [appendNewFormatLength]
  split_ifs <;> rfl

theorem length_writePacket (tag : UInt8) (body : Bytes) :
    (writePacket tag body).length = packetSize body.length := by
  rw [writePacket, List.length_cons, List.length_append, length_appendNewFormatLength, packetSize]
  omega

theorem packetSize_lt_packetSize {m n : ℕ} (h : m < n) : packetSize m < packetSize n := by
  rw [packetSize, packetSize]
  split_ifs <;> omega

theorem packetSize_le_iff {m n : ℕ} : packetSize m ≤ packetSize n ↔ m ≤ n := by
  constructor
  · intro h
    by_contra hlt
    have := packetSize_lt_packetSize (not_le.mp hlt)
    omega
  · intro h
    rcases Nat.lt_or_eq_of_le h with hlt | rfl
    · exact (packetSize_lt_packetSize hlt).le
    · exact le_rfl

/-- A CRLF for every line of up to 64 digits. -/
theorem length_armorLines (b64 : Bytes) :
    (armorLines b64).length = b64.length + 2 * ((b64.length + 63) / 64) := by
  induction hlength : b64.length using Nat.strong_induction_on generalizing b64 with
  | _ length ih =>
      rw [armorLines]
      split_ifs with hnil
      · rw [hnil] at hlength
        subst hlength
        rfl
      · have hpos := List.length_pos_iff.mpr hnil
        have hrest := ih (b64.drop 64).length (by rw [List.length_drop]; omega) (b64.drop 64) rfl
        rw [List.length_append, List.length_append, hrest, List.length_take, List.length_drop]
        show min 64 b64.length + 2 + _ = _
        omega

theorem length_crcOctets (data : Bytes) : (crcOctets data).length = 3 := length_toOctets 3 _

theorem length_armorEncode (label data : Bytes) :
    (armorEncode label data).length = armorSize label.length data.length := by
  have hbegin : (ascii "-----BEGIN ").length = 11 := by decide
  have hend : (ascii "-----END ").length = 9 := by decide
  have hdashes : (ascii "-----\r\n").length = 7 := by decide
  have hversion : (ascii "Version: HashCryptoLib CPgpEngine\r\n\r\n").length = 37 := by decide
  rw [armorEncode]
  simp only [List.length_append, List.length_cons, List.length_nil, hbegin, hend, hdashes, hversion,
    length_armorLines, length_base64Encode, length_crcOctets]
  rw [armorSize]
  omega

/-! ### Queries -/

/-- A caller who asks for the size, and then offers a buffer of the size that was reported,
is not told that it is too small, and nothing is written behind it. -/
def QueryHonoured (query : Except Fault Outcome) (call : Option Int32 → Except Fault Outcome) :
    Prop :=
  ∀ outcome size, query = .ok outcome → outcome.outputSize = some size →
    ∀ capacity : Int32, capacity.toInt = size →
      ∃ outcome', call (some capacity) = .ok outcome' ∧ outcome'.status ≠ .BUFFER_TOO_SMALL

/-- Within the range of an `int` nothing is cast. -/
theorem le_castInt_iff {size' size : ℕ} :
    (size' : ℤ) ≤ castInt size ↔
      (size < 2 ^ 31 → size' ≤ size) ∧ (2 ^ 31 ≤ size → (size' : ℤ) ≤ castInt size) := by
  by_cases hlt : size < 2 ^ 31
  · rw [castInt_of_lt hlt, Int.ofNat_le]
    exact ⟨fun h => ⟨fun _ => h, fun hle => absurd hlt (not_lt.mpr hle)⟩, fun h => h.1 hlt⟩
  · exact ⟨fun h => ⟨fun h' => absurd h' hlt, fun _ => h⟩, fun h => h.2 (not_lt.mp hlt)⟩

/-- A size is reported as an `int`, whatever it is. -/
theorem exists_capacity (size : ℕ) : ∃ capacity : Int32, capacity.toInt = castInt size :=
  ⟨Int32.ofInt size, Int32.toInt_ofInt⟩

/-- A call that refuses its arguments reports no size. -/
theorem queryHonoured_refused {status : Status} (call : Option Int32 → Except Fault Outcome) :
    QueryHonoured (.ok { status }) call := by
  intro outcome size houtcome hsize
  obtain rfl := Except.ok.inj houtcome
  cases hsize

/-- Nor is there anything to fit into a buffer for a call that fails. -/
theorem queryHonoured_fails (query : Except Fault Outcome) {status : Status}
    (hstatus : status ≠ .BUFFER_TOO_SMALL) : QueryHonoured query fun _ => .ok { status } := by
  intro _ _ _ _ _ _
  exact ⟨_, rfl, hstatus⟩

/-- What the second call makes has to fit into what was answered for the first. -/
theorem queryHonoured_deliver_iff {margin : ℕ} {data data' : Bytes} :
    QueryHonoured (deliver none margin data) (fun buffer => deliver buffer margin data') ↔
      (data'.length : ℤ) ≤ castInt (data.length + margin) := by
  constructor
  · intro h
    obtain ⟨capacity, hcapacity⟩ := exists_capacity (data.length + margin)
    obtain ⟨outcome, houtcome, hstatus⟩ := h _ _ rfl rfl capacity hcapacity
    dsimp only [deliver] at houtcome
    split_ifs at houtcome with hsmall hfits
    · obtain rfl := Except.ok.inj houtcome
      exact absurd rfl hstatus
    · rwa [hcapacity] at hfits
  · intro h outcome size houtcome hsize capacity hcapacity
    obtain rfl := Except.ok.inj houtcome
    obtain rfl := Option.some.inj hsize
    refine ⟨_, deliver_of_le margin (hcapacity ▸ h), ?_⟩
    exact fun hsmall => nomatch hsmall

end HashCryptoLib.Pgp
