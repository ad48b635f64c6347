import HashCryptoLib.Wrapper.ListingFormat

/-!
What the wrapper reports of a listing, part by part: each line that gpg prints adds what its
packet says, wherever the next packet's comment stands.
-/

namespace HashCryptoLib.Wrapper

open Pgp (ascii LF Failure fail)
open Pgp.Status

/-! ### The markers in a line -/

section Markers

variable {line rest begun : Bytes} {name : String} {parts : List Part}

theorem startsSignature_eq_false_iff :
    startsSignature line = false ↔
      contains SIGNATURE line = false ∧ contains ONEPASS_SIG line = false := by
  rw [startsSignature, Bool.or_eq_false_iff]

/-- A line without a colon is not a heading. -/
theorem markers_of_no_colon (h : COLON ∉ line) :
    contains PUBKEY_ENC line = false ∧ startsSignature line = false ∧
      contains COMPRESSED line = false := by
  refine ⟨contains_eq_false COLON (by decide) h, ?_,
    contains_eq_false COLON (by decide) h⟩
  exact startsSignature_eq_false_iff.mpr ⟨contains_eq_false COLON (by decide) h,
    contains_eq_false COLON (by decide) h⟩

theorem offset_of_no_hash (h : HASH ∉ line) : contains OFFSET_MARKER line = false :=
  contains_eq_false HASH (by decide) h

/-- The markers in a heading are those of its name. -/
theorem markers_heading (hname : COLON ∉ ascii name)
    (hparts : parts.all (Part.lacks COLON) = true) (hrest : COLON ∉ rest) :
    contains PUBKEY_ENC (heading name parts ++ rest) =
        decide (ascii "pubkey enc packet" = ascii name) ∧
      startsSignature (heading name parts ++ rest) =
        (decide (ascii "signature packet" = ascii name) ||
          decide (ascii "onepass_sig packet" = ascii name)) ∧
      contains COMPRESSED (heading name parts ++ rest) =
        decide (ascii "compressed packet" = ascii name) := by
  refine ⟨?_, ?_, ?_⟩
  · exact contains_heading (by decide) hname (by decide) hparts rest hrest
  · rw [startsSignature, @contains_heading SIGNATURE name "signature packet" parts
      (by decide) hname (by decide) hparts rest hrest,
      @contains_heading ONEPASS_SIG name "onepass_sig packet" parts (by decide) hname
        (by decide) hparts rest hrest]
  · exact contains_heading (by decide) hname (by decide) hparts rest hrest

/-! ### Comments -/

theorem PacketComment.colon_not_mem (comment : PacketComment) (tag : ℕ) :
    COLON ∉ comment.text tag := by
  apply not_mem_textOf
  rcases comment with ⟨off, ctb, hlen, plen, length, newCtb⟩
  cases length <;> cases newCtb <;> rfl

theorem PacketComment.text_eq (comment : PacketComment) (tag : ℕ) :
    ∃ rest, comment.text tag = HASH :: ascii " off=" ++ rest :=
  ⟨_, List.flatMap_cons⟩

/-- A heading's marker is not in a comment, so that it is in the line before it or nowhere. -/
theorem contains_append_comment {pattern : Bytes} (hcolon : COLON ∈ pattern)
    (hhash : HASH ∉ pattern) (begun : Bytes) (comment : PacketComment) (tag : ℕ) :
    contains pattern (begun ++ comment.text tag) = contains pattern begun := by
  obtain ⟨rest, hrest⟩ := comment.text_eq tag
  have hno : ¬ pattern <:+: ascii " off=" ++ rest := by
    intro hinfix
    apply Search.not_infix_of_not_mem hcolon (comment.colon_not_mem tag)
    rw [hrest]
    exact List.infix_cons hinfix
  have hne : pattern ≠ [] := List.ne_nil_of_mem hcolon
  rw [hrest, List.cons_append, Bool.eq_iff_iff, contains_iff, contains_iff,
    Search.infix_append_cons_iff hne hhash]
  exact or_iff_left hno

theorem startsSignature_append_comment (begun : Bytes) (comment : PacketComment) (tag : ℕ) :
    startsSignature (begun ++ comment.text tag) = startsSignature begun := by
  rw [startsSignature, contains_append_comment (by decide) (by decide),
    contains_append_comment (by decide) (by decide), startsSignature]

theorem contains_offset_comment (begun : Bytes) (comment : PacketComment) (tag : ℕ) :
    contains OFFSET_MARKER (begun ++ comment.text tag) = true := by
  obtain ⟨rest, hrest⟩ := comment.text_eq tag
  rw [contains_iff, hrest, ← List.append_assoc]
  exact ⟨begun, rest, rfl⟩

theorem PacketComment.head_text (comment : PacketComment) (tag : ℕ) :
    ∀ c ∈ (comment.text tag).head?, isDigit c = false := by
  obtain ⟨rest, hrest⟩ := comment.text_eq tag
  rw [hrest]
  rintro c ⟨⟩
  rfl

/-- Where a comment begins on a line in which no tag was found, its own tag is found. -/
theorem tagOfLine_comment (hbegun : tagMarkerPos begun = none)
    (comment : PacketComment) (tag : ℕ) : tagOfLine (begun ++ comment.text tag) = some (Int32.ofNat tag) := by
  obtain ⟨rest, hrest⟩ := comment.text_eq tag
  -- the mark that is found first may be one in the text before, with no tag behind it
  obtain ⟨i, hle, hoffset, htag⟩ : ∃ i ≤ begun.length,
      Search.find OFFSET_MARKER (begun ++ comment.text tag) = some i ∧
        ¬ ascii "tag=" <:+: begun.drop i := by
    cases hfind : Search.find OFFSET_MARKER begun with
    | none =>
        have hno : ¬ OFFSET_MARKER <:+: begun := by
          rw [← contains_eq_false_iff, contains, hfind]
          rfl
        refine ⟨begun.length, le_rfl, ?_, ?_⟩
        · rw [hrest, ← List.append_assoc]
          exact Search.find_append_of_not_infix (by decide) hno
        · rw [List.drop_length]
          exact Search.not_infix_of_not_mem (c := 0x67) (by decide) List.not_mem_nil
    | some i =>
        refine ⟨i, (Search.find_eq_some_iff.mp hfind).1, Search.find_append_right hfind _, ?_⟩
        rw [tagMarkerPos, hfind] at hbegun
        dsimp only [Search.findFrom] at hbegun
        rw [Option.map_eq_none_iff] at hbegun
        rw [← Search.find_isSome_iff, hbegun]
        exact Bool.false_ne_true
  have hfront : FirstAt (ascii "tag=") (begun.drop i ++ textOf [.words (ascii "# off="),
      .number comment.off, .words (ascii " ctb="), .hex comment.ctb] ++ SPACE :: []) := by
    apply firstAt_of_separator (x := 0x74)
    · rfl
    · decide
    · have hhash : textOf [.words (ascii "# off="), .number comment.off, .words (ascii " ctb="),
          .hex comment.ctb] = HASH :: textOf [.words (ascii " off="), .number comment.off,
            .words (ascii " ctb="), .hex comment.ctb] := rfl
      rw [hhash, Search.infix_append_cons_iff (by decide) (by decide), not_or]
      exact ⟨htag, Search.not_infix_of_not_mem (c := 0x67) (by decide) (not_mem_textOf rfl)⟩
    · decide
  have hshape : begun.drop i ++ comment.text tag = begun.drop i ++ textOf [.words (ascii "# off="),
      .number comment.off, .words (ascii " ctb="), .hex comment.ctb] ++ SPACE :: [] ++
      ascii "tag=" ++
      (decimal tag ++ textOf [.words (ascii " hlen="), .number comment.hlen,
        .words (ascii " plen="), .number comment.plen, .words comment.length.text,
        .words (if comment.newCtb then ascii " new-ctb" else [])]) := by
    have hwords : ascii " tag=" = SPACE :: ascii "tag=" := rfl
    rw [PacketComment.text, hwords]
    simp [textOf, Part.text]
  have hbefore : begun ++ comment.text tag = begun.take i ++ (begun.drop i ++ comment.text tag) := by
    rw [← List.append_assoc, List.take_append_drop]
  have htake : (begun.take i).length = i := List.length_take_of_le hle
  rw [tagOfLine, tagMarkerPos, hoffset]
  dsimp only
  rw [Search.findFrom_of_drop (List.drop_append_of_le_length hle), hshape, hfront, hbefore, hshape]
  dsimp only [Option.map_some]
  generalize begun.drop i ++ textOf [.words (ascii "# off="), .number comment.off,
    .words (ascii " ctb="), .hex comment.ctb] ++ SPACE :: [] = front
  have hlength : i + front.length + 4 = (begun.take i ++ (front ++ ascii "tag=")).length := by
    rw [List.length_append, List.length_append, htake]
    simp only [Nat.add_assoc]
    rfl
  rw [hlength, ← List.append_assoc (begun.take i)]
  apply parseDecimalAt_append
  rintro c ⟨⟩
  rfl

/-- No algorithm is found in a comment. -/
theorem algorithmOfLine_append_comment (begun : Bytes) (comment : PacketComment) (tag : ℕ) :
    algorithmOfLine (begun ++ comment.text tag) = algorithmOfLine begun := by
  rw [algorithmOfLine, algorithmOfLine]
  cases hfind : Search.find (ascii "algo=") begun with
  | some i =>
      have hle : i + 5 ≤ begun.length := by
        have hat := (Search.find_eq_some_iff.mp hfind).2.1.length_le
        rw [List.length_drop] at hat
        have hfive : (ascii "algo=").length = 5 := rfl
        omega
      rw [Search.find_append_right hfind]
      exact parseDecimalAt_append_right hle (comment.head_text tag)
  | none =>
      have hno : contains (ascii "algo=") (begun ++ comment.text tag) = false := by
        have hshape : begun ++ comment.text tag = begun ++ HASH :: (textOf [
            .words (ascii " off="), .number comment.off, .words (ascii " ctb="),
            .hex comment.ctb] ++ SPACE :: (textOf [.words (ascii "tag="), .number tag] ++
            SPACE :: textOf [.words (ascii "hlen="), .number comment.hlen, .words (ascii " plen="),
              .number comment.plen, .words comment.length.text,
              .words (if comment.newCtb then ascii " new-ctb" else [])])) := by
          have hwords : ascii "# off=" = HASH :: ascii " off=" ∧
              ascii " tag=" = SPACE :: ascii "tag=" ∧
              ascii " hlen=" = SPACE :: ascii "hlen=" := ⟨rfl, rfl, rfl⟩
          rw [PacketComment.text, hwords.1, hwords.2.1, hwords.2.2]
          simp [textOf, Part.text]
        have hne : ascii "algo=" ≠ [] ∧ HASH ∉ ascii "algo=" ∧ SPACE ∉ ascii "algo=" := by
          decide
        have hlast : contains (ascii "algo=") (textOf [.words (ascii "hlen="),
            .number comment.hlen, .words (ascii " plen="), .number comment.plen,
            .words comment.length.text, .words (if comment.newCtb then ascii " new-ctb" else [])])
            = false := by
          apply contains_textOf_eq_false 0x67 (by decide)
          rcases comment with ⟨off, ctb, hlen, plen, length, newCtb⟩
          cases length <;> cases newCtb <;> rfl
        rw [hshape, contains_append_separator hne.1 hne.2.1,
          contains_append_separator hne.1 hne.2.2, contains_append_separator hne.1 hne.2.2, hlast,
          contains_textOf_eq_false 0x67 (by decide) rfl,
          contains_textOf_eq_false 0x6C (by decide) rfl, contains, hfind]
        rfl
      rw [contains, Option.isSome_eq_false_iff, Option.isNone_iff_eq_none] at hno
      rw [hno]

theorem compressionOfLine_append_comment (begun : Bytes) (comment : PacketComment) (tag : ℕ) :
    compressionOfLine (begun ++ comment.text tag) = compressionOfLine begun := by
  rw [compressionOfLine, contains_append_comment (by decide) (by decide),
    startsSignature_append_comment, contains_append_comment (by decide) (by decide),
    algorithmOfLine_append_comment, compressionOfLine]

/-! ### The lines with values -/

/-- Which markers are in a line that does not begin a packet. -/
structure Markers (pubkeyEnc signature compressed : Bool) (line : Bytes) : Prop where
  offset : contains OFFSET_MARKER line = false
  pubkeyEnc : contains PUBKEY_ENC line = pubkeyEnc
  signature : startsSignature line = signature
  compressed : contains COMPRESSED line = compressed

theorem heading_markers (hname : COLON ∉ ascii name ∧ HASH ∉ ascii name)
    (hparts : parts.all (Part.lacks COLON) = true ∧ parts.all (Part.lacks HASH) = true) :
    Markers (decide (ascii "pubkey enc packet" = ascii name))
      (decide (ascii "signature packet" = ascii name) ||
        decide (ascii "onepass_sig packet" = ascii name))
      (decide (ascii "compressed packet" = ascii name)) (heading name parts) := by
  have hmarkers := @markers_heading [] name parts hname.1 hparts.1 List.not_mem_nil
  rw [List.append_nil] at hmarkers
  exact ⟨offset_of_no_hash (not_mem_heading (by decide) hname.2 hparts.2), hmarkers.1,
    hmarkers.2.1, hmarkers.2.2⟩

theorem textOf_markers
    (hparts : parts.all (Part.lacks COLON) = true ∧ parts.all (Part.lacks HASH) = true) :
    Markers false false false (textOf parts) := by
  have hmarkers := markers_of_no_colon (not_mem_textOf hparts.1)
  exact ⟨offset_of_no_hash (not_mem_textOf hparts.2), hmarkers.1, hmarkers.2.1, hmarkers.2.2⟩

theorem pubkeyEncLine_markers (version : ℕ) (algo : UInt8) (keyId : KeyId) :
    Markers true false false (pubkeyEncLine version algo keyId) := by
  have hmarkers := @heading_markers "pubkey enc packet" [.words (ascii " version "),
    .number version, .words (ascii ", algo "), .number algo.toNat, .words (ascii ", keyid "),
    .keyId keyId] (by decide) ⟨rfl, rfl⟩
  exact hmarkers

theorem signatureLine_markers (algo : UInt8) (keyId : KeyId) :
    Markers false true false (signatureLine algo keyId) := by
  have hmarkers := @heading_markers "signature packet" [.words (ascii " algo "), .number algo.toNat,
    .words (ascii ", keyid "), .keyId keyId] (by decide) ⟨rfl, rfl⟩
  exact hmarkers

theorem onepassSigLine_markers (keyId : KeyId) :
    Markers false true false (onepassSigLine keyId) := by
  have hmarkers := @heading_markers "onepass_sig packet" [.words (ascii " keyid "),
    .keyId keyId] (by decide) ⟨rfl, rfl⟩
  exact hmarkers

theorem compressedLine_markers (algo : UInt8) : Markers false false true (compressedLine algo) := by
  have hmarkers := @heading_markers "compressed packet" [.words (ascii " algo="), .number algo.toNat]
    (by decide) ⟨rfl, rfl⟩
  exact hmarkers

theorem sigclassLine_markers (version created md5len : ℕ) (sigclass : UInt8) :
    Markers false false false (sigclassLine version created md5len sigclass) :=
  textOf_markers ⟨rfl, rfl⟩

theorem digestLine_markers (digestAlgo : UInt8) (digestStart : UInt8 × UInt8) :
    Markers false false false (digestLine digestAlgo digestStart) :=
  textOf_markers ⟨rfl, rfl⟩

theorem onepassValuesLine_markers (version : ℕ) (sigclass digest pubkey : UInt8) (last : ℕ) :
    Markers false false false (onepassValuesLine version sigclass digest pubkey last) :=
  textOf_markers ⟨rfl, rfl⟩

/-! ### What the lines add -/

theorem recipientOfLine_eq_none (h : contains PUBKEY_ENC line = false) :
    recipientOfLine line = none := by
  rw [recipientOfLine, h, if_neg Bool.false_ne_true]

theorem recipientOfLine_pubkeyEncLine (version : ℕ) (algo : UInt8) (keyId : KeyId) (hrest : COLON ∉ rest) :
    recipientOfLine (pubkeyEncLine version algo keyId ++ rest) = some keyId.text := by
  have hparse := @parseKeyIdAfterMarker_heading "pubkey enc packet" [.words (ascii " version "),
    .number version, .words (ascii ", algo "), .number algo.toNat] (by decide) rfl keyId rest
  have hmarker := @markers_heading rest "pubkey enc packet" [.words (ascii " version "),
    .number version, .words (ascii ", algo "), .number algo.toNat, .words (ascii ", keyid "),
    .keyId keyId] (by decide) rfl hrest
  have hpubkey : contains PUBKEY_ENC (pubkeyEncLine version algo keyId ++ rest) = true :=
    hmarker.1
  rw [recipientOfLine, if_pos hpubkey,
    show parseKeyIdAfterMarker (pubkeyEncLine version algo keyId ++ rest) = _ from hparse]
  rfl

theorem compressionOfLine_eq_none (h : contains COMPRESSED line = false) :
    compressionOfLine line = none := by
  rw [compressionOfLine, h, Bool.and_false, if_neg Bool.false_ne_true]

theorem HarmlessLine.compressionOfLine {ofSignature : Bool} (h : HarmlessLine ofSignature line) :
    compressionOfLine line = none := by
  rw [Wrapper.compressionOfLine]
  split_ifs with hline
  · rw [Bool.and_eq_true] at hline
    exact h.compressed hline.2
  · rfl

theorem compressionOfLine_compressedLine (algo : UInt8) :
    compressionOfLine (compressedLine algo) = some (Int32.ofNat algo.toNat) := by
  have hmarkers := compressedLine_markers algo
  rw [compressionOfLine, hmarkers.pubkeyEnc, hmarkers.signature, hmarkers.compressed,
    algorithmOfLine_compressedLine]
  rfl

theorem startedSignature_signatureLine (algo : UInt8) (keyId : KeyId) :
    startedSignature (signatureLine algo keyId) = { issuerKeyId := keyId.text } := by
  have hparse := @parseKeyIdAfterMarker_heading "signature packet" [.words (ascii " algo "),
    .number algo.toNat] (by decide) rfl keyId []
  rw [List.append_nil] at hparse
  rw [startedSignature, show parseKeyIdAfterMarker (signatureLine algo keyId) = _ from hparse]

theorem startedSignature_onepassSigLine (keyId : KeyId) :
    startedSignature (onepassSigLine keyId) = { issuerKeyId := keyId.text } := by
  rw [startedSignature, parseKeyIdAfterMarker_onepassSigLine]

/-! ### Steps of the signature that is read -/

variable {done : List GpgInspectedSignature} {pending : Option GpgInspectedSignature}

theorem signatureStep_started {compressed : Bool} (h : Markers false true compressed line) :
    signatureStep (done, pending) line = (done, some (startedSignature line)) := by
  simp [signatureStep, completeSignatures, h.offset, h.pubkeyEnc, h.signature]

theorem signatureStep_details (h : Markers false false false line) :
    signatureStep (done, pending) line = (done, pending.map (·.readDetails line)) := by
  simp [signatureStep, completeSignatures, h.offset, h.pubkeyEnc, h.signature, h.compressed]

/-- A comment completes the signature that was read, whatever line it is on. -/
theorem signatureStep_comment (hbegun : startsSignature begun = false) (comment : PacketComment)
    (tag : ℕ) :
    signatureStep (done, pending) (begun ++ comment.text tag) =
      (done ++ pending.toList, none) := by
  rw [signatureStep, completeSignatures, contains_offset_comment, if_pos rfl,
    startsSignature_append_comment, hbegun]
  simp

theorem signatureStep_pubkeyEnc {signature compressed : Bool}
    (h : Markers true signature compressed line) :
    signatureStep (done, pending) line = (done, pending) := by
  simp [signatureStep, completeSignatures, h.offset, h.pubkeyEnc]

theorem signatureStep_compressed (h : Markers false false true line) :
    signatureStep (done, pending) line = (done, pending) := by
  simp [signatureStep, completeSignatures, h.offset, h.pubkeyEnc, h.signature, h.compressed]

theorem signatureStep_nil (signatures : Signatures) : signatureStep signatures [] = signatures := by
  rcases signatures with ⟨done, pending⟩
  have hmarkers : Markers false false false [] := by
    constructor <;> decide
  rw [signatureStep_details hmarkers]
  cases pending with
  | none => rfl
  | some pending =>
      rw [Option.map_some, readDetails_eq_self (by decide) (by decide)]

/-- What is listed once another packet begins. -/
def settled (signatures : Signatures) : List GpgInspectedSignature :=
  signatures.1 ++ signatures.2.toList

/-- A harmless line leaves the signature that is read as it is, though it may complete it. -/
theorem signatureStep_harmless {ofSignature : Bool} (h : HarmlessLine ofSignature line)
    (hpending : pending.isSome = true → ofSignature = true) :
    settled (signatureStep (done, pending) line) = done ++ pending.toList ∧
      ((signatureStep (done, pending) line).2 = none ∨
        (signatureStep (done, pending) line).2 = pending) := by
  rw [signatureStep, completeSignatures]
  simp only [h.pubkeyEnc, h.signature, Bool.false_eq_true, if_false]
  cases hoffset : contains OFFSET_MARKER line with
  | true => cases contains COMPRESSED line <;> simp [settled]
  | false =>
      cases hcompressed : contains COMPRESSED line with
      | true => simp [settled]
      | false =>
          cases pending with
          | none => simp [settled]
          | some signature =>
              obtain ⟨hsigclass, hdigest⟩ := h.details (hpending rfl) hoffset hcompressed
              simp [settled, readDetails_eq_self hsigclass hdigest]

theorem foldl_harmless {ofSignature : Bool} {lines : List LineText}
    (h : ∀ line ∈ lines, HarmlessLine ofSignature line.val)
    (hpending : pending.isSome = true → ofSignature = true) (signatures : Signatures)
    (hsignatures : signatures.2 = none ∨ signatures.2 = pending) :
    settled ((lines.map Subtype.val).foldl signatureStep signatures) = settled signatures := by
  induction lines generalizing signatures with
  | nil => rfl
  | cons line lines ih =>
      rw [List.forall_mem_cons] at h
      rcases signatures with ⟨done, read⟩
      have hread : read.isSome = true → ofSignature = true := by
        rcases hsignatures with rfl | rfl
        · simp
        · exact hpending
      obtain ⟨hsettled, hstep⟩ := @signatureStep_harmless _ done read _ h.1 hread
      rw [List.map_cons, List.foldl_cons, ih h.2, hsettled, settled]
      rcases hstep with hnone | hsame
      · exact .inl hnone
      · rw [hsame]
        exact hsignatures

/-- The lines with its values give the signature of a packet, or none. -/
theorem foldl_valueLines (body : PacketBody) (done : List GpgInspectedSignature) :
    body.valueLines.foldl signatureStep (done, none) = (done, body.inspectedSignature) := by
  cases body with
  | pubkeyEnc version algo keyId details =>
      exact signatureStep_pubkeyEnc (pubkeyEncLine_markers version algo keyId)
  | signature algo keyId version created md5len sigclass digestAlgo digestStart details =>
      rw [PacketBody.valueLines, List.foldl_cons, List.foldl_cons, List.foldl_cons, List.foldl_nil,
        signatureStep_started (signatureLine_markers algo keyId),
        signatureStep_details (sigclassLine_markers version created md5len sigclass),
        signatureStep_details (digestLine_markers digestAlgo digestStart),
        startedSignature_signatureLine, Option.map_some, Option.map_some,
        readDetails_sigclassLine, readDetails_digestLine]
      rfl
  | onepassSig keyId version sigclass digest pubkey last details =>
      rw [PacketBody.valueLines, List.foldl_cons, List.foldl_cons, List.foldl_nil,
        signatureStep_started (onepassSigLine_markers keyId),
        signatureStep_details (onepassValuesLine_markers version sigclass digest pubkey last),
        startedSignature_onepassSigLine, Option.map_some, readDetails_onepassValuesLine]
      rfl
  | compressed algo details => exact signatureStep_compressed (compressedLine_markers algo)
  | other tag heading details => rfl

end Markers

/-! ### Whole listings -/

theorem PacketBody.lines_ne_nil (body : PacketBody) : body.lines ≠ [] := by
  cases body <;> exact List.cons_ne_nil _ _

theorem PacketBody.dropLast_append_getLastD (body : PacketBody) :
    body.lines.dropLast ++ [body.lines.getLastD []] = body.lines := by
  rw [List.getLastD_eq_getLast?, List.getLast?_eq_some_getLast body.lines_ne_nil, Option.getD_some]
  exact List.dropLast_concat_getLast body.lines_ne_nil

/-- What the lines of a listing add is what the packets' lines and their comments add, wherever
a comment stands. -/
theorem filterMap_listingLines {β : Type} {f : Bytes → Option β} {Begun : Bytes → Prop}
    {added : ℕ → List β} (hnil : f [] = none) (hbegunNil : Begun [])
    (hcomment : ∀ begun (comment : PacketComment) tag, Begun begun →
      (f (begun ++ comment.text tag)).toList = (f begun).toList ++ added tag)
    {packets : List ListedPacket}
    (hlines : ∀ packet ∈ packets, ∀ line ∈ packet.body.lines, Begun line) {begun : Bytes}
    (hbegun : Begun begun) :
    (listingLines begun packets).filterMap f =
      (f begun).toList ++
        packets.flatMap fun packet => added packet.body.tag ++ packet.body.lines.filterMap f := by
  induction packets generalizing begun with
  | nil =>
      rw [listingLines, List.flatMap_nil, List.append_nil]
      split_ifs with hempty
      · rw [hempty, hnil]
        rfl
      · exact filterMap_singleton f
  | cons packet packets ih =>
      rw [List.forall_mem_cons] at hlines
      have hlast : Begun (packet.body.lines.getLastD []) := by
        apply hlines.1
        rw [← packet.body.dropLast_append_getLastD]
        simp
      rw [listingLines, ← List.singleton_append, List.filterMap_append, filterMap_singleton,
        hcomment _ _ _ hbegun, List.flatMap_cons, List.append_assoc, List.append_assoc]
      congr 2
      split_ifs
      · rw [List.filterMap_append, ih hlines.2 hlast, ← filterMap_singleton, ← List.append_assoc,
          ← List.filterMap_append, packet.body.dropLast_append_getLastD]
      · rw [List.filterMap_append, ih hlines.2 hbegunNil, hnil]
        rfl

theorem foldl_listingLines_nil (begun : Bytes) (signatures : Signatures) :
    (listingLines begun []).foldl signatureStep signatures = signatureStep signatures begun := by
  rw [listingLines]
  split_ifs with hempty
  · rw [hempty, signatureStep_nil]
    rfl
  · rfl

theorem ListedPacket.Harmless.settled_lines {packet : ListedPacket} (h : packet.Harmless)
    (done : List GpgInspectedSignature) :
    settled (packet.body.lines.foldl signatureStep (done, none)) =
      done ++ packet.body.inspectedSignature.toList := by
  rw [PacketBody.lines, List.foldl_append, foldl_valueLines, foldl_harmless h id _ (.inr rfl)]
  rfl

/-- What is read of a packet without its last line. -/
def PacketBody.cutSignature : PacketBody → Option GpgInspectedSignature
  | .signature _ keyId _ _ _ sigclass _ _ [] =>
    some { issuerKeyId := keyId.text, signatureType := Int32.ofNat sigclass.toNat }
  | .onepassSig keyId _ _ _ _ _ [] => some { issuerKeyId := keyId.text }
  | body => body.inspectedSignature

theorem PacketBody.cutSignature_of_freeLines {body : PacketBody} (h : body.freeLines ≠ []) :
    body.cutSignature = body.inspectedSignature := by
  cases body with
  | pubkeyEnc version algo keyId details => rfl
  | signature algo keyId version created md5len sigclass digestAlgo digestStart details =>
      cases details with
      | nil => exact absurd rfl h
      | cons line details => rfl
  | onepassSig keyId version sigclass digest pubkey last details =>
      cases details with
      | nil => exact absurd rfl h
      | cons line details => rfl
  | compressed algo details => rfl
  | other tag heading details => rfl

theorem foldl_valueLines_dropLast {body : PacketBody} (h : body.freeLines = [])
    (done : List GpgInspectedSignature) :
    body.valueLines.dropLast.foldl signatureStep (done, none) = (done, body.cutSignature) := by
  cases body with
  | pubkeyEnc version algo keyId details => rfl
  | signature algo keyId version created md5len sigclass digestAlgo digestStart details =>
      obtain rfl : details = [] := h
      show [signatureLine algo keyId, sigclassLine version created md5len sigclass].foldl
        signatureStep (done, none) = _
      rw [List.foldl_cons, List.foldl_cons, List.foldl_nil,
        signatureStep_started (signatureLine_markers algo keyId),
        signatureStep_details (sigclassLine_markers version created md5len sigclass),
        startedSignature_signatureLine, Option.map_some, readDetails_sigclassLine]
      rfl
  | onepassSig keyId version sigclass digest pubkey last details =>
      obtain rfl : details = [] := h
      show [onepassSigLine keyId].foldl signatureStep (done, none) = _
      rw [List.foldl_cons, List.foldl_nil, signatureStep_started (onepassSigLine_markers keyId),
        startedSignature_onepassSigLine]
      rfl
  | compressed algo details => rfl
  | other tag heading details => cases h

/-- What is read before the last line, on which a comment may follow. -/
theorem ListedPacket.Harmless.settled_dropLast {packet : ListedPacket} (h : packet.Harmless)
    (done : List GpgInspectedSignature) :
    settled (packet.body.lines.dropLast.foldl signatureStep (done, none)) =
      done ++ packet.body.cutSignature.toList := by
  rcases List.eq_nil_or_concat' packet.body.freeLines with hempty | ⟨front, last, hlast⟩
  · rw [PacketBody.lines, hempty, List.map_nil, List.append_nil, foldl_valueLines_dropLast hempty]
    rfl
  · have hfront : ∀ line ∈ front, HarmlessLine packet.body.isSignature line.val := by
      intro line hline
      apply h
      rw [hlast]
      exact List.mem_append_left _ hline
    have hne : packet.body.freeLines ≠ [] := by
      rw [hlast]
      simp
    rw [PacketBody.lines, hlast, List.map_append, ← List.append_assoc, List.map_singleton,
      List.dropLast_concat, List.foldl_append, foldl_valueLines,
      foldl_harmless hfront id _ (.inr rfl), PacketBody.cutSignature_of_freeLines hne]
    rfl

/-- No packet's last line begins a signature. -/
theorem ListedPacket.Harmless.startsSignature_last {packet : ListedPacket} (h : packet.Harmless) :
    startsSignature (packet.body.lines.getLastD []) = false := by
  rcases List.eq_nil_or_concat' packet.body.freeLines with hempty | ⟨front, last, hlast⟩
  · rw [PacketBody.lines, hempty, List.map_nil, List.append_nil]
    rcases packet with ⟨comment, body, glued⟩
    cases body with
    | pubkeyEnc version algo keyId details =>
        simp [PacketBody.valueLines, (pubkeyEncLine_markers version algo keyId).signature]
    | signature algo keyId version created md5len sigclass digestAlgo digestStart details =>
        simp [PacketBody.valueLines, (digestLine_markers digestAlgo digestStart).signature]
    | onepassSig keyId version sigclass digest pubkey last details =>
        simp [PacketBody.valueLines,
          (onepassValuesLine_markers version sigclass digest pubkey last).signature]
    | compressed algo details =>
        simp [PacketBody.valueLines, (compressedLine_markers algo).signature]
    | other tag heading details => cases hempty
  · rw [PacketBody.lines, hlast, List.map_append, ← List.append_assoc, List.map_singleton,
      List.getLastD_concat]
    apply HarmlessLine.signature
    apply h
    rw [hlast]
    simp

/-- What is read of a packet that another one follows. -/
def ListedPacket.readSignature (packet : ListedPacket) : Option GpgInspectedSignature :=
  if packet.glued then packet.body.cutSignature else packet.body.inspectedSignature

def readSignatures : List ListedPacket → List GpgInspectedSignature
  | [] => []
  | [packet] => packet.body.inspectedSignature.toList
  | packet :: next :: packets => packet.readSignature.toList ++ readSignatures (next :: packets)

theorem settled_listingLines {packet : ListedPacket} {packets : List ListedPacket}
    (h : ∀ packet' ∈ packet :: packets, packet'.Harmless) {begun : Bytes}
    (hbegun : startsSignature begun = false) (signatures : Signatures) :
    settled ((listingLines begun (packet :: packets)).foldl signatureStep signatures) =
      settled signatures ++ readSignatures (packet :: packets) := by
  induction packets generalizing packet begun signatures with
  | nil =>
      rcases signatures with ⟨done, pending⟩
      have hpacket := h packet List.mem_cons_self
      rw [listingLines, List.foldl_cons, signatureStep_comment hbegun]
      split_ifs
      · have hsettled := hpacket.settled_lines (done ++ pending.toList)
        rw [← packet.body.dropLast_append_getLastD, List.foldl_concat] at hsettled
        rw [List.foldl_append, foldl_listingLines_nil, hsettled]
        rfl
      · rw [List.foldl_append, foldl_listingLines_nil, signatureStep_nil, hpacket.settled_lines]
        rfl
  | cons next packets ih =>
      rcases signatures with ⟨done, pending⟩
      rw [List.forall_mem_cons] at h
      rw [listingLines, List.foldl_cons, signatureStep_comment hbegun, readSignatures,
        ListedPacket.readSignature]
      split_ifs
      · rw [List.foldl_append, ih h.2 h.1.startsSignature_last, h.1.settled_dropLast,
          List.append_assoc]
        rfl
      · rw [List.foldl_append, ih h.2 (by decide), h.1.settled_lines, List.append_assoc]
        rfl

theorem signatures_listing {packets : List ListedPacket}
    (h : ∀ packet ∈ packets, packet.Harmless) :
    settled (signaturesOfLines (listingLines [] packets)) = readSignatures packets := by
  cases packets with
  | nil => rfl
  | cons packet packets =>
      rw [signaturesOfLines, settled_listingLines h (by decide)]
      rfl

/-- A signature is read as it is unless the comment of the next packet follows on a line with its
values. -/
theorem ListedPacket.readSignature_eq_iff (packet : ListedPacket) :
    packet.readSignature = packet.body.inspectedSignature ↔ packet.OwnLines := by
  rcases packet with ⟨comment, body, glued⟩
  rw [ListedPacket.readSignature, ListedPacket.OwnLines]
  cases glued with
  | false => simp
  | true =>
      cases body with
      | pubkeyEnc version algo keyId details => exact ⟨nofun, fun _ => rfl⟩
      | signature algo keyId version created md5len sigclass digestAlgo digestStart details =>
          cases details with
          | nil =>
              simp [PacketBody.cutSignature, PacketBody.inspectedSignature, PacketBody.isSignature,
                PacketBody.freeLines]
          | cons line details => simp [PacketBody.cutSignature, PacketBody.freeLines]
      | onepassSig keyId version sigclass digest pubkey last details =>
          cases details with
          | nil =>
              simp [PacketBody.cutSignature, PacketBody.inspectedSignature, PacketBody.isSignature,
                PacketBody.freeLines]
          | cons line details => simp [PacketBody.cutSignature, PacketBody.freeLines]
      | compressed algo details => exact ⟨nofun, fun _ => rfl⟩
      | other tag heading details => exact ⟨nofun, fun _ => rfl⟩

theorem ListedPacket.readSignature_isSome (packet : ListedPacket) :
    packet.readSignature.isSome = packet.body.inspectedSignature.isSome := by
  rcases packet with ⟨comment, body, glued⟩
  rw [ListedPacket.readSignature]
  split_ifs
  · cases body with
    | pubkeyEnc version algo keyId details => rfl
    | signature algo keyId version created md5len sigclass digestAlgo digestStart details =>
        cases details <;> rfl
    | onepassSig keyId version sigclass digest pubkey last details => cases details <;> rfl
    | compressed algo details => rfl
    | other tag heading details => rfl
  · rfl

theorem toList_append_inj {α : Type} {a b : Option α} {rest rest' : List α}
    (h : a.isSome = b.isSome) :
    a.toList ++ rest = b.toList ++ rest' ↔ a = b ∧ rest = rest' := by
  cases a with
  | none =>
      cases b with
      | none => simp
      | some b => cases h
  | some a =>
      cases b with
      | none => cases h
      | some b => simp

theorem readSignatures_eq_iff (packets : List ListedPacket) :
    readSignatures packets = packets.filterMap (·.body.inspectedSignature) ↔ OwnLines packets := by
  induction packets with
  | nil => simp [readSignatures, OwnLines]
  | cons packet packets ih =>
      have hcons : (packet :: packets).filterMap (·.body.inspectedSignature) =
          packet.body.inspectedSignature.toList ++
            packets.filterMap (·.body.inspectedSignature) := by
        rw [List.filterMap_cons]
        cases packet.body.inspectedSignature <;> rfl
      cases packets with
      | nil => simp [readSignatures, OwnLines, hcons]
      | cons next packets =>
          rw [hcons, readSignatures, toList_append_inj packet.readSignature_isSome,
            packet.readSignature_eq_iff, ih, OwnLines, OwnLines, List.dropLast_cons_cons,
            List.forall_mem_cons]

/-! ### The report -/

theorem PacketBody.offset_valueLines (body : PacketBody) :
    ∀ line ∈ body.valueLines, contains OFFSET_MARKER line = false := by
  cases body with
  | pubkeyEnc version algo keyId details =>
      simpa [PacketBody.valueLines] using (pubkeyEncLine_markers version algo keyId).offset
  | signature algo keyId version created md5len sigclass digestAlgo digestStart details =>
      simpa [PacketBody.valueLines] using ⟨(signatureLine_markers algo keyId).offset,
        (sigclassLine_markers version created md5len sigclass).offset,
        (digestLine_markers digestAlgo digestStart).offset⟩
  | onepassSig keyId version sigclass digest pubkey last details =>
      simpa [PacketBody.valueLines] using ⟨(onepassSigLine_markers keyId).offset,
        (onepassValuesLine_markers version sigclass digest pubkey last).offset⟩
  | compressed algo details =>
      simpa [PacketBody.valueLines] using (compressedLine_markers algo).offset
  | other tag heading details => simp [PacketBody.valueLines]

/-- A property of a packet's lines is one of those with values and of those that are open. -/
theorem PacketBody.forall_mem_lines {body : PacketBody} {p : Bytes → Prop} :
    (∀ line ∈ body.lines, p line) ↔
      (∀ line ∈ body.valueLines, p line) ∧ ∀ line ∈ body.freeLines, p line.val := by
  rw [PacketBody.lines, List.forall_mem_append, List.forall_mem_map]

theorem tags_listing {packets : List ListedPacket} (h : ∀ packet ∈ packets, packet.Harmless) :
    (listingLines [] packets).filterMap tagOfLine =
      packets.map fun packet => Int32.ofNat packet.body.tag := by
  have htags : ∀ packet ∈ packets, ∀ line ∈ packet.body.lines, tagMarkerPos line = none := by
    intro packet hpacket
    rw [PacketBody.forall_mem_lines]
    exact ⟨fun line hline => tagMarkerPos_eq_none (packet.body.offset_valueLines line hline),
      fun line hline => (h packet hpacket line hline).tag⟩
  have hlisting := @filterMap_listingLines _ tagOfLine (fun line => tagMarkerPos line = none)
    (fun tag => [Int32.ofNat tag]) rfl rfl (by
      intro begun comment tag hbegun
      rw [tagOfLine_comment hbegun, tagOfLine_eq_none hbegun]
      rfl) packets htags [] rfl
  have hlines : ∀ packet ∈ packets, [Int32.ofNat packet.body.tag] ++
      packet.body.lines.filterMap tagOfLine = [Int32.ofNat packet.body.tag] := by
    intro packet hpacket
    rw [List.filterMap_eq_nil_iff.mpr fun line hline =>
      tagOfLine_eq_none (htags packet hpacket line hline), List.append_nil]
  rw [hlisting, List.flatMap_congr hlines, List.map_eq_flatMap]
  rfl

theorem filterMap_recipientOfLine {packet : ListedPacket} (h : packet.Harmless) :
    packet.body.lines.filterMap recipientOfLine = packet.body.recipient.toList := by
  have hfree : (packet.body.freeLines.map Subtype.val).filterMap recipientOfLine = [] := by
    rw [List.filterMap_eq_nil_iff]
    intro line hline
    obtain ⟨line, hmem, rfl⟩ := List.mem_map.mp hline
    exact recipientOfLine_eq_none (h line hmem).pubkeyEnc
  rw [PacketBody.lines, List.filterMap_append, hfree, List.append_nil]
  rcases packet with ⟨comment, body, glued⟩
  cases body with
  | pubkeyEnc version algo keyId details =>
      have hline := @recipientOfLine_pubkeyEncLine [] version algo keyId List.not_mem_nil
      rw [List.append_nil] at hline
      simp [PacketBody.valueLines, PacketBody.recipient, hline]
  | signature algo keyId version created md5len sigclass digestAlgo digestStart details =>
      simp [PacketBody.valueLines, PacketBody.recipient,
        recipientOfLine_eq_none (signatureLine_markers algo keyId).pubkeyEnc,
        recipientOfLine_eq_none (sigclassLine_markers version created md5len sigclass).pubkeyEnc,
        recipientOfLine_eq_none (digestLine_markers digestAlgo digestStart).pubkeyEnc]
  | onepassSig keyId version sigclass digest pubkey last details =>
      simp [PacketBody.valueLines, PacketBody.recipient,
        recipientOfLine_eq_none (onepassSigLine_markers keyId).pubkeyEnc, recipientOfLine_eq_none
          (onepassValuesLine_markers version sigclass digest pubkey last).pubkeyEnc]
  | compressed algo details =>
      simp [PacketBody.valueLines, PacketBody.recipient,
        recipientOfLine_eq_none (compressedLine_markers algo).pubkeyEnc]
  | other tag heading details => rfl

theorem recipients_listing {packets : List ListedPacket}
    (h : ∀ packet ∈ packets, packet.Harmless) :
    (listingLines [] packets).filterMap recipientOfLine =
      packets.filterMap (·.body.recipient) := by
  have hbegun : ∀ packet ∈ packets, ∀ line ∈ packet.body.lines,
      contains PUBKEY_ENC line = false ∨ ∃ version algo keyId,
        line = pubkeyEncLine version algo keyId := by
    intro packet hpacket
    rw [PacketBody.forall_mem_lines]
    refine ⟨?_, fun line hline => .inl (h packet hpacket line hline).pubkeyEnc⟩
    rcases packet with ⟨comment, body, glued⟩
    cases body with
    | pubkeyEnc version algo keyId details =>
        rintro line hline
        exact .inr ⟨version, algo, keyId, List.mem_singleton.mp hline⟩
    | signature algo keyId version created md5len sigclass digestAlgo digestStart details =>
        simp [PacketBody.valueLines, (signatureLine_markers algo keyId).pubkeyEnc,
          (sigclassLine_markers version created md5len sigclass).pubkeyEnc,
          (digestLine_markers digestAlgo digestStart).pubkeyEnc]
    | onepassSig keyId version sigclass digest pubkey last details =>
        simp [PacketBody.valueLines, (onepassSigLine_markers keyId).pubkeyEnc,
          (onepassValuesLine_markers version sigclass digest pubkey last).pubkeyEnc]
    | compressed algo details =>
        simp [PacketBody.valueLines, (compressedLine_markers algo).pubkeyEnc]
    | other tag heading details => simp [PacketBody.valueLines]
  have hlisting := @filterMap_listingLines _ recipientOfLine (fun line =>
    contains PUBKEY_ENC line = false ∨ ∃ version algo keyId,
      line = pubkeyEncLine version algo keyId) (fun _ => []) rfl (.inl rfl) (by
      rintro begun comment tag (hnone | ⟨version, algo, keyId, rfl⟩)
      · rw [recipientOfLine_eq_none hnone, recipientOfLine_eq_none]
        · rfl
        · rwa [contains_append_comment (by decide) (by decide)]
      · have hline := @recipientOfLine_pubkeyEncLine [] version algo keyId List.not_mem_nil
        rw [List.append_nil] at hline
        rw [recipientOfLine_pubkeyEncLine version algo keyId (comment.colon_not_mem tag), hline]
        rfl) packets hbegun [] (.inl rfl)
  rw [hlisting, List.filterMap_eq_flatMap_toList]
  exact List.flatMap_congr fun packet hpacket => filterMap_recipientOfLine (h packet hpacket)

theorem filterMap_compressionOfLine {packet : ListedPacket} (h : packet.Harmless) :
    packet.body.lines.filterMap compressionOfLine = packet.body.compression.toList := by
  have hfree : (packet.body.freeLines.map Subtype.val).filterMap compressionOfLine = [] := by
    rw [List.filterMap_eq_nil_iff]
    intro line hline
    obtain ⟨line, hmem, rfl⟩ := List.mem_map.mp hline
    exact (h line hmem).compressionOfLine
  rw [PacketBody.lines, List.filterMap_append, hfree, List.append_nil]
  rcases packet with ⟨comment, body, glued⟩
  cases body with
  | pubkeyEnc version algo keyId details =>
      simp [PacketBody.valueLines, PacketBody.compression,
        compressionOfLine_eq_none (pubkeyEncLine_markers version algo keyId).compressed]
  | signature algo keyId version created md5len sigclass digestAlgo digestStart details =>
      simp [PacketBody.valueLines, PacketBody.compression,
        compressionOfLine_eq_none (signatureLine_markers algo keyId).compressed,
        compressionOfLine_eq_none (sigclassLine_markers version created md5len sigclass).compressed,
        compressionOfLine_eq_none (digestLine_markers digestAlgo digestStart).compressed]
  | onepassSig keyId version sigclass digest pubkey last details =>
      simp [PacketBody.valueLines, PacketBody.compression,
        compressionOfLine_eq_none (onepassSigLine_markers keyId).compressed,
        compressionOfLine_eq_none
          (onepassValuesLine_markers version sigclass digest pubkey last).compressed]
  | compressed algo details =>
      simp [PacketBody.valueLines, PacketBody.compression, compressionOfLine_compressedLine algo]
  | other tag heading details => rfl

theorem compression_listing {packets : List ListedPacket}
    (h : ∀ packet ∈ packets, packet.Harmless) :
    (listingLines [] packets).findSome? compressionOfLine =
      packets.findSome? (·.body.compression) := by
  have hlisting := @filterMap_listingLines _ compressionOfLine (fun _ => True) (fun _ => []) rfl
    trivial (by
      intro begun comment tag _
      rw [compressionOfLine_append_comment, List.append_nil])
    packets (fun _ _ _ _ => trivial) [] trivial
  rw [← List.head?_filterMap, ← List.head?_filterMap, hlisting, List.filterMap_eq_flatMap_toList]
  congr 1
  exact List.flatMap_congr fun packet hpacket => filterMap_compressionOfLine (h packet hpacket)

/-! ### Line ends -/

theorem PacketComment.LF_not_mem (comment : PacketComment) (tag : ℕ) :
    LF ∉ comment.text tag := by
  apply not_mem_textOf
  rcases comment with ⟨off, ctb, hlen, plen, length, newCtb⟩
  cases length <;> cases newCtb <;> rfl

theorem PacketBody.LF_not_mem (body : PacketBody) : ∀ line ∈ body.lines, LF ∉ line := by
  rw [PacketBody.forall_mem_lines]
  refine ⟨?_, fun line _ => line.property⟩
  cases body with
  | pubkeyEnc version algo keyId details =>
      rw [PacketBody.valueLines, List.forall_mem_singleton]
      exact not_mem_heading (by decide) (by decide) rfl
  | signature algo keyId version created md5len sigclass digestAlgo digestStart details =>
      rw [PacketBody.valueLines, List.forall_mem_cons, List.forall_mem_cons,
        List.forall_mem_singleton]
      exact ⟨not_mem_heading (by decide) (by decide) rfl, not_mem_textOf rfl,
        not_mem_textOf rfl⟩
  | onepassSig keyId version sigclass digest pubkey last details =>
      rw [PacketBody.valueLines, List.forall_mem_cons, List.forall_mem_singleton]
      exact ⟨not_mem_heading (by decide) (by decide) rfl, not_mem_textOf rfl⟩
  | compressed algo details =>
      rw [PacketBody.valueLines, List.forall_mem_singleton]
      exact not_mem_heading (by decide) (by decide) rfl
  | other tag heading details => simp [PacketBody.valueLines]

theorem LF_not_mem_listingLines (packets : List ListedPacket) {begun : Bytes}
    (hbegun : LF ∉ begun) : ∀ line ∈ listingLines begun packets, LF ∉ line := by
  induction packets generalizing begun with
  | nil =>
      rw [listingLines]
      split_ifs
      · simp
      · simpa using hbegun
  | cons packet packets ih =>
      have hlines := packet.body.LF_not_mem
      rw [listingLines, List.forall_mem_cons]
      refine ⟨?_, ?_⟩
      · rw [List.mem_append, not_or]
        exact ⟨hbegun, packet.comment.LF_not_mem packet.body.tag⟩
      · rw [← packet.body.dropLast_append_getLastD, List.forall_mem_append,
          List.forall_mem_singleton] at hlines
        split_ifs
        · rw [List.forall_mem_append]
          exact ⟨hlines.1, ih hlines.2⟩
        · rw [List.forall_mem_append]
          exact ⟨packet.body.LF_not_mem, ih List.not_mem_nil⟩

/-- What the wrapper reports of a listing without harmful lines. -/
theorem parseGpgPacketListing_listing {packets : List ListedPacket}
    (h : ∀ packet ∈ packets, packet.Harmless) :
    parseGpgPacketListing (listing packets) =
      { report packets with signatures := readSignatures packets } := by
  have hsignatures := signatures_listing h
  rw [settled] at hsignatures
  rw [parseGpgPacketListing_eq, listing,
    getlines_joinLines (LF_not_mem_listingLines packets List.not_mem_nil), tags_listing h,
    recipients_listing h, compression_listing h, hsignatures]
  rfl

theorem parseGpgPacketListing_report_iff {packets : List ListedPacket}
    (h : ∀ packet ∈ packets, packet.Harmless) :
    parseGpgPacketListing (listing packets) = report packets ↔ OwnLines packets := by
  rw [parseGpgPacketListing_listing h, ← readSignatures_eq_iff]
  constructor
  · intro heq
    exact congrArg GpgInspectedListing.signatures heq
  · intro heq
    rw [heq]
    rfl

end HashCryptoLib.Wrapper
