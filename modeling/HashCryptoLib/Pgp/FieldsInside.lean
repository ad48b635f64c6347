import HashCryptoLib.Pgp.CheckedReads
import Mathlib.Logic.Relation

/-!
When the message parser stays where the octets are. A session key packet has to
hold the version, the key ID and the algorithm in its body, and the point in front of
a wrapped key as well. Behind a protected packet the chunks are put together from
the octets in front of the modification detection code; if they end inside a packet
header, the code is taken for the rest of it, and the copy runs past the end.
-/

namespace HashCryptoLib.Pgp

open BigEndian Cursor Region

/-! ### A header that runs into the modification detection code -/

section Trailer

variable {mdc : Bytes} (hlong : 2 ≤ mdc.length)
include hlong

theorem readOctets_mdc {octets : Bytes} {n : ℕ} (hn : n ≤ 4)
    (h : readOctets octets 0 n = none) :
    ∃ read, readOctets (octets ++ 0xD3 :: 0x14 :: mdc) 0 n = some read ∧ 211 ≤ ofOctets read ∧
      ofOctets read < 2 ^ 32 := by
  have hshort : octets.length < n := by
    by_contra hfits
    rw [readOctets_some (by omega)] at h
    cases h
  refine ⟨_, readOctets_some (by rw [List.length_append, List.length_cons, List.length_cons]; omega),
    ?_, ?_⟩
  · -- the tag octet is one of the octets of the number
    apply toNat_le_ofOctets (b := 0xD3)
    obtain ⟨k, hk⟩ : ∃ k, n = octets.length + (k + 1) := ⟨n - octets.length - 1, by omega⟩
    rw [List.drop_zero, hk, List.take_length_add_append, List.take_succ_cons]
    exact List.mem_append_right _ List.mem_cons_self
  · have hlt := ofOctets_lt (((octets ++ 0xD3 :: 0x14 :: mdc).drop 0).take n)
    have hlen : (((octets ++ 0xD3 :: 0x14 :: mdc).drop 0).take n).length ≤ 4 :=
      (List.length_take_le _ _).trans hn
    calc ofOctets _ < 256 ^ (((octets ++ 0xD3 :: 0x14 :: mdc).drop 0).take n).length := hlt
      _ ≤ 256 ^ 4 := Nat.pow_le_pow_right (by decide) hlen
      _ = 2 ^ 32 := by decide

theorem decode_mdc {more : Bytes} (h : decodeNewFormatBodyLength more = none) :
    ∃ headerSize length, decodeNewFormatBodyLength (more ++ 0xD3 :: 0x14 :: mdc) =
        some (headerSize, length, false) ∧
      more.length < headerSize ∧ headerSize ≤ 5 ∧ 211 ≤ length ∧ length < 2 ^ 32 := by
  cases more with
  | nil =>
      -- the code's tag and length are a length of two octets
      exact ⟨2, 5076, by simp [decodeNewFormatBodyLength], by decide, by decide, by decide, by decide⟩
  | cons lenFirst rest =>
      have hbyte := lenFirst.toNat_lt
      simp only [decodeNewFormatBodyLength, UInt8.lt_iff_toNat_lt, UInt8.reduceToNat] at h
      split_ifs at h with h192 h224 h255
      · have hrest : rest = [] := by simpa using h
        subst hrest
        refine ⟨2, (lenFirst.toNat - 192) * 256 + 211 + 192, ?_, by simp, by decide, by omega, by omega⟩
        simp [decodeNewFormatBodyLength, UInt8.lt_iff_toNat_lt, h192, h224]
      · have hnone := Option.map_eq_none_iff.mp h
        obtain ⟨read, hread, hlow, hlt⟩ := readOctets_mdc hlong le_rfl hnone
        have hshort : rest.length < 4 := by
          by_contra hfits
          rw [readOctets_some (by omega)] at hnone
          cases hnone
        refine ⟨5, ofOctets read, ?_, by rw [List.length_cons]; omega, le_rfl, hlow, hlt⟩
        simp only [List.cons_append, decodeNewFormatBodyLength, UInt8.lt_iff_toNat_lt,
          UInt8.reduceToNat, h192, h224, h255, if_false, hread, Option.map_some]

/-- A header cut short goes on into the code, which announces a long body. -/
theorem CutHeader.mdc_read {tail data : Bytes} {pos : ℕ} (h : CutHeader tail)
    (hat : At data pos (tail ++ 0xD3 :: 0x14 :: mdc)) (dataEnd : Option ℕ) :
    ∃ tag bodyLength bodyPos, readPacketHeader data pos dataEnd true =
        some ⟨tag, bodyLength, bodyPos, false⟩ ∧
      pos + tail.length < bodyPos ∧ bodyPos ≤ pos + 6 ∧ 211 ≤ bodyLength ∧ bodyLength < 2 ^ 32 := by
  obtain ⟨first, more, rfl, h80, ⟨h40, hdec⟩ | ⟨h40, form, htype, hoctets⟩⟩ := h.cases
  · obtain ⟨headerSize, length, hlength, hpast, hfive, hlow, hlt⟩ := decode_mdc hlong hdec
    refine ⟨first &&& 0x3F, length, pos + 1 + headerSize, ?_, by rw [List.length_cons]; omega,
      by omega, hlow, hlt⟩
    rw [readPacketHeader_new hat h80 h40, List.append_eq, hlength, Option.map_some]
  · have hsize : form.size ≤ 4 := by cases form <;> decide
    obtain ⟨read, hread, hlow, hlt⟩ := readOctets_mdc hlong hsize hoctets
    have hshort : more.length < form.size := by
      by_contra hfits
      rw [readOctets_some (by omega)] at hoctets
      cases hoctets
    refine ⟨(first >>> 2) &&& 0x0F, ofOctets read, pos + 1 + form.size, ?_,
      by rw [List.length_cons]; omega, by omega, hlow, hlt⟩
    rw [readPacketHeader_old hat h80 h40 htype, List.append_eq, hread, Option.map_some]

end Trailer

section Splice

variable {P : Primitives} {plain : Bytes} {mdcTagOffset : ℕ}

theorem splice_of_not_cutShort (hmdc : checkMdc P plain = some mdcTagOffset)
    (hcut : ¬ CutShort (window plain 18 mdcTagOffset)) (fault : Fault) :
    reassemblePartialBodyLengthRange plain 18 mdcTagOffset ≠ .error fault := by
  obtain ⟨hle, hlen, -⟩ := checkMdc_lt hmdc
  obtain ⟨result, hlocal⟩ := reassembleLoop_local _ (window plain 18 mdcTagOffset) [] false le_rfl
    hcut
  obtain ⟨hloop, -⟩ := hlocal plain _ 18 (at_window hle (by omega))
  rw [length_window 18 (by omega), Nat.add_sub_cancel' hle] at hloop
  rw [reassemblePartialBodyLengthRange, if_neg (by omega), hloop]
  intro h
  cases h

theorem splice_of_cutShort (hmdc : checkMdc P plain = some mdcTagOffset)
    (hcut : CutShort (window plain 18 mdcTagOffset)) :
    reassemblePartialBodyLengthRange plain 18 mdcTagOffset = .error .outOfBounds := by
  obtain ⟨hle, hlen, htag⟩ := checkMdc_lt hmdc
  obtain ⟨mdc, hmdcAt⟩ : ∃ mdc, plain.drop mdcTagOffset = 0xD3 :: 0x14 :: mdc :=
    ⟨(plain.drop mdcTagOffset).drop 2, by
      conv_lhs => rw [← List.take_append_drop 2 (plain.drop mdcTagOffset), htag]
      rfl⟩
  have hlong := congrArg List.length hmdcAt
  rw [List.length_drop, List.length_cons, List.length_cons] at hlong
  obtain ⟨packets, tail, hwindow, htail⟩ := hcut
  have hlength := length_window 18 (show mdcTagOffset ≤ plain.length by omega)
  have hat := at_window hle (show mdcTagOffset ≤ plain.length by omega)
  rw [hwindow, List.length_append] at hlength
  rw [hwindow, hmdcAt, List.append_assoc] at hat
  have htailLength : 0 < tail.length := by
    obtain ⟨first, more, rfl, -⟩ := htail.cases
    exact Nat.zero_lt_succ _
  obtain ⟨tag, bodyLength, bodyPos, hread, hpast, hsix, hlow, hlt⟩ :=
    htail.mdc_read (by omega) hat.advance (some mdcTagOffset)
  rw [reassemblePartialBodyLengthRange, if_neg (by omega),
    reassembleLoop_streamOf mdcTagOffset packets [] false hat (by omega)]
  apply reassembleLoop_overrun (bodyPos + bodyLength) (by omega) hread
  · rw [if_neg (by rw [sizeSub]; split_ifs <;> omega)]
  · omega

end Splice

/-! ### The fields of a session key packet -/

/-- As far as the point of a curve recipient is read, it is in the packet's body. -/
structure PointInside (message : Bytes) (p pkeskEnd : ℕ) : Prop where
  bitLength : p + 2 ≤ message.length → p + 2 ≤ pkeskEnd
  marker : octetsOfBits (readBigEndian16 message p) = 33 → p + 35 ≤ message.length →
    p + 3 ≤ pkeskEnd
  point : octetsOfBits (readBigEndian16 message p) = 33 → p + 35 ≤ message.length →
    message[p + 2]? = some 0x40 → p + 35 ≤ pkeskEnd

/-- The body of a session key packet holds the fields that are read of it. -/
structure PkeskInside (key : DecryptionKey) (message : Bytes) (bodyPos pkeskEnd : ℕ)
    (found : Option Bytes) : Prop where
  version : bodyPos + 1 ≤ pkeskEnd
  keyIdAndAlgorithm : message[bodyPos]? = some 3 → bodyPos + 10 ≤ pkeskEnd
  point : message[bodyPos]? = some 3 → found = none →
    readOctets message (bodyPos + 1) 8 = some key.keyId.1 →
      message[bodyPos + 9]? = some PGP_ALGO_ECDH →
        key.algorithm = PGP_KEY_ALGORITHM_ED25519_X25519 →
          PointInside message (bodyPos + 10) pkeskEnd

section Reads

variable {data : Bytes} {first last : ℕ}

theorem read_inside (hlast : last ≤ data.length) {i : ℕ} (hfirst : first ≤ i) (hi : i + 1 ≤ last) :
    ∃ octet, data[i]? = some octet ∧ Region.read ⟨data, first, last⟩ i = .ok octet := by
  have hget := List.getElem?_eq_getElem (show i < data.length by omega)
  refine ⟨_, hget, ?_⟩
  rw [Region.read, if_pos ⟨hfirst, hi⟩]
  dsimp only
  rw [hget]

theorem read_outside {i : ℕ} (hi : ¬ i + 1 ≤ last) :
    Region.read ⟨data, first, last⟩ i = .error .outOfBounds :=
  if_neg fun h => hi h.2

theorem readRange_inside (hlast : last ≤ data.length) {pos n : ℕ} (hfirst : first ≤ pos)
    (hle : pos + n ≤ last) :
    Region.readRange ⟨data, first, last⟩ pos n = .ok ((data.drop pos).take n) :=
  if_pos (Or.inr ⟨hfirst, hle, hlast⟩)

theorem readRange_outside {pos n : ℕ} (hn : n ≠ 0) (hover : ¬ pos + n ≤ last) :
    Region.readRange ⟨data, first, last⟩ pos n = .error .outOfBounds :=
  if_neg fun h => h.elim hn fun h => hover h.2.1

end Reads

section Point

variable {message : Bytes} {bodyPos p pkeskEnd : ℕ} (hend : pkeskEnd ≤ message.length)
  (hp : bodyPos ≤ p)
include hend hp

theorem readNativePointMpiChecked_inside (h : PointInside message p pkeskEnd) :
    readNativePointMpiChecked ⟨message, bodyPos, pkeskEnd⟩ p =
      .ok (readNativePointMpi message p) := by
  have hbits : ofOctets ((message.drop p).take 2) = readBigEndian16 message p := rfl
  rw [readNativePointMpiChecked, readNativePointMpi]
  dsimp only
  by_cases hshort : p + 2 > message.length
  · rw [if_pos hshort, if_pos hshort]
  rw [if_neg hshort, if_neg hshort,
    readRange_inside hend hp (h.bitLength (Nat.le_of_not_lt hshort)), ok_bind, hbits]
  by_cases hpoint : octetsOfBits (readBigEndian16 message p) = 33 ∧ p + 35 ≤ message.length
  · obtain ⟨hlength, hfits⟩ := hpoint
    rw [hlength]
    obtain ⟨marker, hmarker, hread⟩ :=
      read_inside hend (Nat.le_add_right_of_le hp) (h.marker hlength hfits)
    rw [if_neg (by omega), hread, ok_bind, hmarker]
    by_cases hforty : marker = 0x40
    · have hinside := h.point hlength hfits (hforty ▸ hmarker)
      rw [if_neg (not_not_intro hforty), if_neg (by simp [hforty]; omega),
        readRange_inside hend (by omega) (by omega), ok_bind, readOctets_some (by omega)]
      dsimp only
      split_ifs <;> rfl
    · rw [if_pos hforty, if_pos (Or.inr (Or.inr fun h => hforty (Option.some.inj h)))]
  · have hover : octetsOfBits (readBigEndian16 message p) ≠ 33 ∨
        p + 2 + octetsOfBits (readBigEndian16 message p) > message.length := by omega
    rw [if_pos hover, if_pos (hover.imp_right Or.inl)]

theorem readNativePointMpiChecked_outside (h : ¬ PointInside message p pkeskEnd) :
    readNativePointMpiChecked ⟨message, bodyPos, pkeskEnd⟩ p = .error .outOfBounds := by
  have hvalue : ofOctets ((message.drop p).take 2) = readBigEndian16 message p := rfl
  rw [readNativePointMpiChecked]
  dsimp only
  by_cases hshort : p + 2 > message.length
  · exact absurd ⟨fun hfits => by omega, fun _ hfits => by omega, fun _ hfits => by omega⟩ h
  rw [if_neg hshort]
  by_cases hbits : p + 2 ≤ pkeskEnd
  · rw [readRange_inside hend hp hbits, ok_bind, hvalue]
    by_cases hpoint : octetsOfBits (readBigEndian16 message p) = 33 ∧ p + 35 ≤ message.length
    · obtain ⟨hlength, hfits⟩ := hpoint
      rw [if_neg (by rw [not_or, not_not]; exact ⟨hlength, by omega⟩)]
      by_cases hmarker : p + 3 ≤ pkeskEnd
      · obtain ⟨marker, hget, hread⟩ := read_inside hend (Nat.le_add_right_of_le hp) hmarker
        rw [hread, ok_bind]
        by_cases hforty : marker = 0x40
        · have hover : ¬ p + 35 ≤ pkeskEnd := fun hinside =>
            h ⟨fun _ => hbits, fun _ _ => hmarker, fun _ _ _ => hinside⟩
          rw [if_neg (not_not_intro hforty), readRange_outside (by decide) (by omega)]
          rfl
        · refine absurd ⟨fun _ => hbits, fun _ _ => hmarker, fun _ _ hpoint => ?_⟩ h
          exact absurd (Option.some.inj (hget.symm.trans hpoint)) hforty
      · rw [read_outside (by omega)]
        rfl
    · exact absurd ⟨fun _ => hbits, fun hlength hfits => absurd ⟨hlength, hfits⟩ hpoint,
        fun hlength hfits => absurd ⟨hlength, hfits⟩ hpoint⟩ h
  · rw [readRange_outside (by decide) hbits]
    rfl

end Point

section Packet

variable {P : Primitives} {key : DecryptionKey} {message : Bytes} {bodyPos p pkeskEnd : ℕ}
  {found : Option Bytes} (hend : pkeskEnd ≤ message.length)
include hend

theorem openRsaPkeskChecked_eq (hp : bodyPos ≤ p) :
    openRsaPkeskChecked P key ⟨message, bodyPos, pkeskEnd⟩ p =
      .ok (openRsaPkesk P key message p pkeskEnd) := by
  have hbits : ofOctets ((message.drop p).take 2) = readBigEndian16 message p := rfl
  rw [openRsaPkeskChecked, openRsaPkesk]
  dsimp only
  by_cases hshort : p + 2 > pkeskEnd
  · rw [if_pos hshort, if_pos hshort]
  rw [if_neg hshort, if_neg hshort, readRange_inside hend hp (Nat.le_of_not_lt hshort), ok_bind,
    hbits]
  by_cases hover : p + 2 + octetsOfBits (readBigEndian16 message p) > pkeskEnd
  · rw [if_pos hover, if_pos hover]
  rw [if_neg hover, if_neg hover, readRange_inside hend (by omega) (Nat.le_of_not_lt hover), ok_bind]

theorem openEcdhPkeskChecked_inside (hp : bodyPos ≤ p) (h : PointInside message p pkeskEnd) :
    openEcdhPkeskChecked P key ⟨message, bodyPos, pkeskEnd⟩ p =
      .ok (openEcdhPkesk P key message p pkeskEnd) := by
  rw [openEcdhPkeskChecked, openEcdhPkesk, readNativePointMpiChecked_inside hend hp h, ok_bind]
  cases hpoint : readNativePointMpi message p with
  | none => rfl
  | some point =>
      obtain ⟨ephemeralPublicKey, mpiPos⟩ := point
      have hmpiPos : mpiPos = p + 35 := by
        rw [readNativePointMpi] at hpoint
        grind
      rw [Option.bind_eq_bind, Option.bind_some]
      dsimp only
      by_cases hshort : mpiPos ≥ pkeskEnd
      · rw [if_pos hshort, if_pos hshort]
      obtain ⟨wrappedLength, hget, hread⟩ :=
        read_inside hend (show bodyPos ≤ mpiPos by omega) (show mpiPos + 1 ≤ pkeskEnd by omega)
      rw [if_neg hshort, if_neg hshort, hread, ok_bind, hget, Option.bind_eq_bind, Option.bind_some]
      by_cases hover : mpiPos + 1 + wrappedLength.toNat > pkeskEnd
      · rw [if_pos hover, if_pos hover]
      rw [if_neg hover, if_neg hover, readRange_inside hend (by omega) (Nat.le_of_not_lt hover),
        ok_bind, unwrapSessionKeyChecked_eq]
      rfl

theorem tryPkeskChecked_inside (P : Primitives)
    (h : PkeskInside key message bodyPos pkeskEnd found) :
    ∃ next, tryPkeskChecked P key message bodyPos pkeskEnd found = .ok next ∧
      tryPkesk P key message bodyPos pkeskEnd found = .ok next := by
  obtain ⟨version, hversion, hread⟩ := read_inside hend (le_refl bodyPos) h.version
  rw [tryPkeskChecked, tryPkesk, hversion]
  dsimp only
  rw [hread, ok_bind]
  by_cases hthree : version = 3
  · have hfields := h.keyIdAndAlgorithm (hthree ▸ hversion)
    obtain ⟨pkAlgo, halgo, hreadAlgo⟩ :=
      read_inside hend (Nat.le_add_right bodyPos 9) (show bodyPos + 9 + 1 ≤ pkeskEnd by omega)
    have hkeyId := @readOctets_some message (bodyPos + 1) 8 (by omega)
    rw [if_neg (not_not_intro hthree), if_neg (not_not_intro hthree),
      readRange_inside hend (by omega) (by omega), ok_bind, hreadAlgo, ok_bind, hkeyId, halgo]
    dsimp only
    by_cases hmatches : found = none ∧ (message.drop (bodyPos + 1)).take 8 = key.keyId.1 ∧
        pkAlgo = pkAlgorithmOctet key.algorithm
    · rw [if_pos hmatches, if_pos hmatches]
      obtain ⟨hfound, hmine, hmatch⟩ := hmatches
      cases halgorithm : key.algorithm with
      | PGP_KEY_ALGORITHM_RSA => exact ⟨_, openRsaPkeskChecked_eq hend (by omega), rfl⟩
      | PGP_KEY_ALGORITHM_ED25519_X25519 =>
          rw [halgorithm] at hmatch
          have hpoint := h.point (hthree ▸ hversion) hfound (hkeyId.trans (congrArg some hmine))
            (halgo.trans (congrArg some hmatch)) halgorithm
          dsimp only
          rw [openEcdhPkeskChecked_inside hend (by omega) hpoint]
          exact ⟨_, rfl, rfl⟩
    · rw [if_neg hmatches, if_neg hmatches]
      exact ⟨_, rfl, rfl⟩
  · rw [if_pos hthree, if_pos hthree]
    exact ⟨_, rfl, rfl⟩

theorem tryPkeskChecked_outside (h : ¬ PkeskInside key message bodyPos pkeskEnd found) :
    tryPkeskChecked P key message bodyPos pkeskEnd found = .error .outOfBounds := by
  rw [tryPkeskChecked]
  by_cases hempty : bodyPos + 1 ≤ pkeskEnd
  · obtain ⟨version, hversion, hread⟩ := read_inside hend (le_refl bodyPos) hempty
    rw [hread, ok_bind]
    by_cases hthree : version = 3
    · rw [if_neg (not_not_intro hthree)]
      by_cases hkeyId : bodyPos + 1 + 8 ≤ pkeskEnd
      · rw [readRange_inside hend (by omega) hkeyId, ok_bind]
        by_cases halgo : bodyPos + 9 + 1 ≤ pkeskEnd
        · obtain ⟨pkAlgo, hget, hreadAlgo⟩ := read_inside hend (Nat.le_add_right bodyPos 9) halgo
          -- all that is left is the point of a curve recipient
          have hpoint : ¬ (found = none ∧ readOctets message (bodyPos + 1) 8 = some key.keyId.1 ∧
              message[bodyPos + 9]? = some PGP_ALGO_ECDH ∧
              key.algorithm = PGP_KEY_ALGORITHM_ED25519_X25519 →
                PointInside message (bodyPos + 10) pkeskEnd) := fun hinside =>
            h ⟨hempty, fun _ => halgo, fun _ hfound hmine halgorithm hkey =>
              hinside ⟨hfound, hmine, halgorithm, hkey⟩⟩
          obtain ⟨⟨hfound, hmine, hecdh, halgorithm⟩, houtside⟩ := Classical.not_imp.mp hpoint
          rw [readOctets_some (by omega)] at hmine
          have hmatch : pkAlgo = pkAlgorithmOctet key.algorithm := by
            rw [halgorithm]
            exact Option.some.inj (hget.symm.trans hecdh)
          rw [hreadAlgo, ok_bind, if_pos ⟨hfound, Option.some.inj hmine, hmatch⟩, halgorithm]
          dsimp only
          rw [openEcdhPkeskChecked, readNativePointMpiChecked_outside hend (by omega) houtside]
          rfl
        · rw [read_outside halgo]
          rfl
      · rw [readRange_outside (by decide) hkeyId]
        rfl
    · refine absurd ⟨hempty, fun hpacket => ?_, fun hpacket => ?_⟩ h
      all_goals exact absurd (Option.some.inj (hversion.symm.trans hpacket)) hthree
  · rw [read_outside hempty]
    rfl

end Packet

/-! ### The search -/

section Search

variable {P : Primitives} {key : DecryptionKey} {message : Bytes}

/-- A session key packet at `pos` that ends inside the message. -/
def PkeskAt (message : Bytes) (pos bodyPos pkeskEnd : ℕ) : Prop :=
  ∃ header, readPacketHeader message pos none false = some header ∧ header.tag = PGP_TAG_PKESK ∧
    bodyPos = header.bodyPos ∧ pkeskEnd = header.bodyPos + header.bodyLength ∧
      pkeskEnd ≤ message.length

/-- The search goes on behind a session key packet, with what it has found by then. -/
def SearchStep (P : Primitives) (key : DecryptionKey) (message : Bytes) (s s' : ℕ × Option Bytes) :
    Prop :=
  ∃ bodyPos, PkeskAt message s.1 bodyPos s'.1 ∧
    tryPkesk P key message bodyPos s'.1 s.2 = .ok (some s'.2)

/-- Every session key packet that the search gets to holds its fields. -/
def PacketsInside (P : Primitives) (key : DecryptionKey) (message : Bytes)
    (start : ℕ × Option Bytes) : Prop :=
  ∀ s, Relation.ReflTransGen (SearchStep P key message) start s → ∀ bodyPos pkeskEnd,
    PkeskAt message s.1 bodyPos pkeskEnd → PkeskInside key message bodyPos pkeskEnd s.2

theorem packetsInside_iff {pos : ℕ} {found : Option Bytes} :
    PacketsInside P key message (pos, found) ↔ ∀ bodyPos pkeskEnd,
      PkeskAt message pos bodyPos pkeskEnd → PkeskInside key message bodyPos pkeskEnd found ∧
        ∀ found', tryPkesk P key message bodyPos pkeskEnd found = .ok (some found') →
          PacketsInside P key message (pkeskEnd, found') := by
  constructor
  · intro h bodyPos pkeskEnd hpacket
    refine ⟨h _ .refl bodyPos pkeskEnd hpacket, fun found' htry s hs => h s (.head ?_ hs)⟩
    exact ⟨bodyPos, hpacket, htry⟩
  · intro h s hs bodyPos pkeskEnd hpacket
    rcases hs.cases_head with rfl | ⟨⟨next, found'⟩, ⟨bodyPos', hstep, htry⟩, hs⟩
    · exact (h bodyPos pkeskEnd hpacket).1
    · exact (h bodyPos' next hstep).2 found' htry s hs bodyPos pkeskEnd hpacket

theorem packetsInside_end {pos : ℕ} (found : Option Bytes)
    (h : ∀ bodyPos pkeskEnd, ¬ PkeskAt message pos bodyPos pkeskEnd) :
    PacketsInside P key message (pos, found) :=
  packetsInside_iff.mpr fun bodyPos pkeskEnd hpacket => absurd hpacket (h bodyPos pkeskEnd)

theorem PkeskAt.unique {pos bodyPos bodyPos' pkeskEnd pkeskEnd' : ℕ}
    (h : PkeskAt message pos bodyPos pkeskEnd) (h' : PkeskAt message pos bodyPos' pkeskEnd') :
    bodyPos = bodyPos' ∧ pkeskEnd = pkeskEnd' := by
  obtain ⟨header, hread, -, rfl, rfl, -⟩ := h
  obtain ⟨header', hread', -, rfl, rfl, -⟩ := h'
  obtain rfl := Option.some.inj (hread.symm.trans hread')
  exact ⟨rfl, rfl⟩

theorem findSessionKey_eq (pos : ℕ) (found : Option Bytes) :
    findSessionKey P key message pos found =
      match readPacketHeader message pos none false with
      | none => .ok (some (found, pos))
      | some header =>
        if header.tag ≠ PGP_TAG_PKESK then .ok (some (found, pos))
        else if header.bodyPos + header.bodyLength > message.length then .ok none
        else
          match tryPkesk P key message header.bodyPos
              (header.bodyPos + header.bodyLength) found with
          | .error fault => .error fault
          | .ok none => .ok none
          | .ok (some found) =>
            findSessionKey P key message (header.bodyPos + header.bodyLength) found := by
  rw [findSessionKey]
  split
  all_goals
    rename_i hread
    rw [hread]
  rfl

theorem findSessionKeyChecked_eq (pos : ℕ) (found : Option Bytes) :
    findSessionKeyChecked P key message pos found =
      match readPacketHeader message pos none false with
      | none => .ok (some (found, pos))
      | some header =>
        if header.tag ≠ PGP_TAG_PKESK then .ok (some (found, pos))
        else if header.bodyPos + header.bodyLength > message.length then .ok none
        else
          match tryPkeskChecked P key message header.bodyPos
              (header.bodyPos + header.bodyLength) found with
          | .error fault => .error fault
          | .ok none => .ok none
          | .ok (some found) =>
            findSessionKeyChecked P key message (header.bodyPos + header.bodyLength) found := by
  rw [findSessionKeyChecked]
  split
  all_goals
    rename_i hread
    rw [readPacketHeaderChecked_eq] at hread
  · cases hread
  · rw [Except.ok.inj hread]
  · rw [Except.ok.inj hread]
    rfl

/-- The search reads inside the packets it gets to, or it reads what it should not. -/
theorem findSessionKeyChecked_spec (P : Primitives) (key : DecryptionKey) (message : Bytes) (pos : ℕ)
    (found : Option Bytes) :
    (PacketsInside P key message (pos, found) ∧
        ∃ result, findSessionKeyChecked P key message pos found = .ok result ∧
          findSessionKey P key message pos found = .ok result) ∨
      (¬ PacketsInside P key message (pos, found) ∧
        findSessionKeyChecked P key message pos found = .error .outOfBounds) := by
  induction hn : message.length - pos using Nat.strong_induction_on generalizing pos found with
  | _ n ih =>
  rw [findSessionKeyChecked_eq, findSessionKey_eq]
  cases hread : readPacketHeader message pos none false with
  | none =>
      refine Or.inl ⟨packetsInside_end found ?_, _, rfl, rfl⟩
      rintro bodyPos pkeskEnd ⟨header, hsome, -⟩
      exact absurd (hread.symm.trans hsome) (Option.some_ne_none header).symm
  | some header =>
      dsimp only
      by_cases htag : header.tag ≠ PGP_TAG_PKESK
      · rw [if_pos htag]
        refine Or.inl ⟨packetsInside_end found ?_, _, rfl, if_pos htag⟩
        rintro bodyPos pkeskEnd ⟨header', hsome, htag', -⟩
        obtain rfl := Option.some.inj (hread.symm.trans hsome)
        exact htag htag'
      rw [if_neg htag, if_neg htag]
      by_cases hover : header.bodyPos + header.bodyLength > message.length
      · rw [if_pos hover]
        refine Or.inl ⟨packetsInside_end found ?_, _, rfl, if_pos hover⟩
        rintro bodyPos pkeskEnd ⟨header', hsome, -, -, rfl, hend⟩
        obtain rfl := Option.some.inj (hread.symm.trans hsome)
        exact absurd hend (Nat.not_le_of_lt hover)
      rw [if_neg hover, if_neg hover]
      have hend := Nat.le_of_not_lt hover
      have hpacket : PkeskAt message pos header.bodyPos (header.bodyPos + header.bodyLength) :=
        ⟨header, hread, not_not.mp htag, rfl, rfl, hend⟩
      by_cases hinside : PkeskInside key message header.bodyPos
          (header.bodyPos + header.bodyLength) found
      · obtain ⟨next, hchecked, htry⟩ := tryPkeskChecked_inside hend P hinside
        rw [hchecked, htry]
        have hsearch : PacketsInside P key message (pos, found) ↔
            ∀ found', next = some found' →
              PacketsInside P key message (header.bodyPos + header.bodyLength, found') := by
          rw [packetsInside_iff]
          constructor
          · intro h found' hnext
            exact (h _ _ hpacket).2 found' (htry.trans (congrArg Except.ok hnext))
          · intro h bodyPos pkeskEnd hpacket'
            obtain ⟨rfl, rfl⟩ := hpacket.unique hpacket'
            exact ⟨hinside, fun found' htry' => h found' (Except.ok.inj (htry.symm.trans htry'))⟩
        cases next with
        | none => exact Or.inl ⟨hsearch.mpr nofun, _, rfl, rfl⟩
        | some found' =>
            have hgt := bodyPos_gt hread
            have hlt := lt_length_of_read hread
            have hrest := ih _ (by omega) (header.bodyPos + header.bodyLength) found' rfl
            have hstep : PacketsInside P key message (pos, found) ↔
                PacketsInside P key message (header.bodyPos + header.bodyLength, found') :=
              hsearch.trans ⟨fun h => h found' rfl, fun h _ hnext => Option.some.inj hnext ▸ h⟩
            rw [hstep]
            exact hrest
      · refine Or.inr ⟨fun h => hinside (packetsInside_iff.mp h _ _ hpacket).1, ?_⟩
        rw [tryPkeskChecked_outside hend hinside]

end Search

/-! ### The whole parser -/

section Message

variable {P : Primitives} {key : DecryptionKey} {input : Bytes} {wantSignature : Bool}

/-- What this key deciphers of a message, before any look at it. -/
def DeciphersTo (P : Primitives) (key : DecryptionKey) (input plain : Bytes) : Prop :=
  ∃ message sessionPlain pos sessionKey, reassembledOr input = .ok message ∧
    findSessionKey P key message 0 none = .ok (some (some sessionPlain, pos)) ∧
      sessionKeyOf sessionPlain = some sessionKey ∧
        decryptSeip P sessionKey message pos = some plain

/-- The session key packets hold their fields, and the content in front of the modification
detection code does not end inside a packet header. -/
structure FieldsInside (P : Primitives) (key : DecryptionKey) (input : Bytes) : Prop where
  packets : ∀ message, reassembledOr input = .ok message → PacketsInside P key message (0, none)
  content : ∀ plain mdcTagOffset, DeciphersTo P key input plain →
    checkMdc P plain = some mdcTagOffset → ¬ CutShort (window plain 18 mdcTagOffset)

/-- No read of the parser is outside of what it reads. -/
def ReadsInside (P : Primitives) (key : DecryptionKey) (input : Bytes) (wantSignature : Bool) :
    Prop :=
  ∃ result, parseAndDecryptMessageChecked P key input wantSignature = .ok result

theorem DeciphersTo.unique {plain plain' : Bytes} (h : DeciphersTo P key input plain)
    (h' : DeciphersTo P key input plain') : plain = plain' := by
  obtain ⟨message, sessionPlain, pos, sessionKey, hmessage, hfound, hkey, hplain⟩ := h
  obtain ⟨message', sessionPlain', pos', sessionKey', hmessage', hfound', hkey', hplain'⟩ := h'
  obtain rfl := Except.ok.inj (hmessage.symm.trans hmessage')
  obtain ⟨hsession, rfl⟩ :=
    Prod.mk.inj (Option.some.inj (Except.ok.inj (hfound.symm.trans hfound')))
  obtain rfl := Option.some.inj hsession
  obtain rfl := Option.some.inj (hkey.symm.trans hkey')
  exact Option.some.inj (hplain.symm.trans hplain')

theorem deciphersTo_iff (plain : Bytes) {message : Bytes} {search : Option (Option Bytes × ℕ)}
    (hmessage : reassembledOr input = .ok message)
    (hfound : findSessionKey P key message 0 none = .ok search) :
    DeciphersTo P key input plain ↔ ∃ sessionPlain pos, search = some (some sessionPlain, pos) ∧
      ∃ sessionKey, sessionKeyOf sessionPlain = some sessionKey ∧
        decryptSeip P sessionKey message pos = some plain := by
  constructor
  · rintro ⟨other, sessionPlain, pos, sessionKey, hother, hsearch, hkey, hplain⟩
    obtain rfl := Except.ok.inj (hmessage.symm.trans hother)
    exact ⟨sessionPlain, pos, Except.ok.inj (hfound.symm.trans hsearch), sessionKey, hkey, hplain⟩
  · rintro ⟨sessionPlain, pos, rfl, sessionKey, hkey, hplain⟩
    exact ⟨message, sessionPlain, pos, sessionKey, hmessage, hfound, hkey, hplain⟩

/-- The parser without the splice of the content is inside of what it reads when the session
key packets are; what it deciphers is checked and taken apart. -/
theorem openMessageChecked_cases (wantSignature : Bool) {message : Bytes}
    (hmessage : reassembledOr input = .ok message)
    (hpackets : PacketsInside P key message (0, none)) :
    (openMessage P key input wantSignature = .ok none ∧
        openMessageChecked P key input wantSignature = .ok none ∧
          ∀ plain, ¬ DeciphersTo P key input plain) ∨
      ∃ plain, DeciphersTo P key input plain ∧
        openMessage P key input wantSignature = parseProtected P plain wantSignature ∧
          openMessageChecked P key input wantSignature =
            parseProtectedChecked P plain wantSignature := by
  obtain ⟨-, search, hchecked, hfound⟩ | ⟨houtside, -⟩ :=
    findSessionKeyChecked_spec P key message 0 none
  · have hplainIff (plain : Bytes) := deciphersTo_iff plain hmessage hfound
    rw [openMessageChecked, openMessage, hmessage, ok_bind, hchecked, ok_bind]
    dsimp only
    rw [hfound]
    rcases search with _ | ⟨_ | sessionPlain, pos⟩
    · exact Or.inl ⟨rfl, rfl, fun plain => by simp [hplainIff]⟩
    · exact Or.inl ⟨rfl, rfl, fun plain => by simp [hplainIff]⟩
    · dsimp only
      rw [sessionKeyOfChecked_eq, ok_bind, Option.bind_some]
      cases hkey : sessionKeyOf sessionPlain with
      | none => exact Or.inl ⟨rfl, rfl, fun plain => by simp [hplainIff, hkey]⟩
      | some sessionKey =>
          dsimp only
          rw [decryptSeipChecked_eq, ok_bind, Option.bind_some]
          cases hplain : decryptSeip P sessionKey message pos with
          | none => exact Or.inl ⟨rfl, rfl, fun plain => by simp [hplainIff, hkey, hplain]⟩
          | some plain =>
              refine Or.inr ⟨plain, ?_, rfl, rfl⟩
              rw [hplainIff]
              exact ⟨sessionPlain, pos, rfl, sessionKey, hkey, hplain⟩
  · exact absurd hpackets houtside

/-- The checked parser gives what the parser gives, or reads outside; which of the two is
decided by the fields. -/
theorem openMessageChecked_spec (P : Primitives) (key : DecryptionKey) (input : Bytes)
    (wantSignature : Bool) :
    (FieldsInside P key input ∧ ∃ unchecked,
        openMessage P key input wantSignature = .ok unchecked ∧
          Gives (openMessageChecked P key input wantSignature) unchecked) ∨
      (¬ FieldsInside P key input ∧
        openMessageChecked P key input wantSignature = .error .outOfBounds) := by
  obtain ⟨message, hmessage⟩ := reassembledOr_ok input
  by_cases hpackets : PacketsInside P key message (0, none)
  · have hall : ∀ other, reassembledOr input = .ok other → PacketsInside P key other (0, none) :=
      fun other hother => Except.ok.inj (hmessage.symm.trans hother) ▸ hpackets
    rcases openMessageChecked_cases wantSignature hmessage hpackets with
      ⟨hopen, hchecked, hno⟩ | ⟨plain, hplain, hopen, hchecked⟩
    · refine Or.inl ⟨⟨hall, fun plain _ hplain => absurd hplain (hno plain)⟩, none, hopen, ?_⟩
      rw [hchecked]
      exact gives_none
    rw [hopen, hchecked]
    by_cases hcut : ∃ mdcTagOffset, checkMdc P plain = some mdcTagOffset ∧
        CutShort (window plain 18 mdcTagOffset)
    · obtain ⟨mdcTagOffset, hmdc, hcut⟩ := hcut
      refine Or.inr ⟨fun h => h.content plain mdcTagOffset hplain hmdc hcut, ?_⟩
      rw [parseProtectedChecked, checkMdcChecked_eq, ok_bind, hmdc]
      dsimp only
      rw [splice_of_cutShort hmdc hcut]
      rfl
    · have hwhole : ∀ mdcTagOffset, checkMdc P plain = some mdcTagOffset →
          ¬ CutShort (window plain 18 mdcTagOffset) :=
        fun mdcTagOffset hmdc hshort => hcut ⟨mdcTagOffset, hmdc, hshort⟩
      refine Or.inl ⟨⟨hall, fun plain' mdcTagOffset hplain' => ?_⟩,
        parseProtectedChecked_gives P plain wantSignature fun mdcTagOffset fault hmdc =>
          splice_of_not_cutShort hmdc (hwhole mdcTagOffset hmdc) fault⟩
      obtain rfl := hplain.unique hplain'
      exact hwhole mdcTagOffset
  · refine Or.inr ⟨fun h => hpackets (h.packets message hmessage), ?_⟩
    rcases findSessionKeyChecked_spec P key message 0 none with
      ⟨hinside, -⟩ | ⟨-, hfault⟩
    · exact absurd hinside hpackets
    · rw [openMessageChecked, hmessage, ok_bind, hfault]
      rfl

/-- A result of the checked parser is the parser's result. -/
theorem parseAndDecryptMessage_of_checked {result : Option Bytes × Option Bytes}
    (h : parseAndDecryptMessageChecked P key input wantSignature = .ok result) :
    parseAndDecryptMessage P key input wantSignature = .ok result := by
  rw [parseAndDecryptMessageChecked] at h
  rcases openMessageChecked_spec P key input wantSignature with ⟨-, unchecked, hopen, opened, hchecked, hheld, rfl⟩ |
      ⟨-, hfault⟩
  · rw [hchecked, ok_bind] at h
    rw [parseAndDecryptMessage, hopen, ← h]
    cases opened with
    | none => rfl
    | some parts =>
        dsimp only
        rw [literalContentChecked_eq (hheld parts rfl)]
        rfl
  · rw [hfault] at h
    cases h

/-- The reads are all inside exactly when the fields are. -/
theorem fieldsInside_iff :
    ReadsInside P key input wantSignature ↔ FieldsInside P key input := by
  rw [ReadsInside, parseAndDecryptMessageChecked]
  rcases openMessageChecked_spec P key input wantSignature with ⟨hinside, -, -, opened, hchecked, hheld, -⟩ |
      ⟨houtside, hfault⟩
  · refine iff_of_true ?_ hinside
    rw [hchecked, ok_bind]
    cases opened with
    | none => exact ⟨_, rfl⟩
    | some parts =>
        dsimp only
        rw [literalContentChecked_eq (hheld parts rfl)]
        exact ⟨_, rfl⟩
  · refine iff_of_false ?_ houtside
    rintro ⟨result, hok⟩
    rw [hfault] at hok
    cases hok

end Message

/-- An empty session key packet: its version is behind the message. -/
theorem emptyPkesk_outside :
    ¬ ReadsInside standIn shortLivedOwner.flatDecryptionKey [0xC1, 0x00] false := by
  rintro ⟨result, hok⟩
  have hfault : parseAndDecryptMessageChecked standIn shortLivedOwner.flatDecryptionKey [0xC1, 0x00]
      false = .error .outOfBounds := by
    decide +kernel
  rw [hfault] at hok
  cases hok

end HashCryptoLib.Pgp
