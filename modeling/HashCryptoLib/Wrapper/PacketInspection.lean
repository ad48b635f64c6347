import HashCryptoLib.Wrapper.ListingReport

/-!
The inspection of a message. With every text that is not harmless there is a listing that is
reported wrong, so that the harmless texts are exactly those that a name may have.
-/

namespace HashCryptoLib.Wrapper

open Pgp (ascii LF Failure Status fail)
open Pgp.Status

/-! ### The call -/

section Calls

variable {World : Type} (gpg : Gpg World)

def CLEARSIGNED_HEADING : Bytes := ascii "-----BEGIN PGP SIGNED MESSAGE-----"
def SIGNATURE_HEADING : Bytes := ascii "-----BEGIN PGP SIGNATURE-----"

/-- What is handed to gpg: of a clear-signed message only the signature. -/
def listInput (input : Bytes) : Option Bytes :=
  if CLEARSIGNED_HEADING <+: input then
    (Search.find SIGNATURE_HEADING input).map fun signatureBeginPos => input.drop signatureBeginPos
  else some input

def listPacketsArgs (base : List Bytes) (inputPath : Bytes) : List Bytes :=
  base ++ [ascii "--pinentry-mode", ascii "cancel", ascii "--list-packets", inputPath]

/-- The exit code does not matter: gpg fails where it cannot decrypt what it has listed. -/
def listPacketsCommon (input : Bytes) (s : Impl) (w : World) :
    Status × GpgInspectedListing × Impl × World :=
  if input = [] then (INVALID_ARGUMENT, {}, s, w)
  else if !s.gpgFound then (NOT_IMPLEMENTED, {}, s, w)
  else if !s.homeDirReady then (UNEXPECTED_ERROR, {}, s, w)
  else
    match listInput input with
    | none => (INVALID_DATA, {}, s, w)
    | some listInput =>
      let (inputPath, s) := s.makeTempPath (ascii ".inspect")
      let (good, w) := gpg.writeAllBytesToFile inputPath listInput w
      if !good then (FILE_IO_ERROR, {}, s, w)
      else
        let (result, w) := gpg.runGpgProcess (listPacketsArgs s.baseArgs inputPath) [] w
        let w := gpg.remove inputPath w
        if !result.started then (UNEXPECTED_ERROR, {}, s, w)
        else
          let outListing := parseGpgPacketListing result.output
          (if outListing.sawAnyPacket then NO_ERROR else INVALID_DATA, outListing, s, w)

theorem sawAnyPacket_report {packets : List ListedPacket} (h : packets ≠ []) :
    (report packets).sawAnyPacket = true := by
  cases packets with
  | nil => exact absurd rfl h
  | cons packet packets => rfl

/-- A message whose packets gpg lists, none of them with a harmful text, is reported as it is. -/
theorem listPacketsCommon_report {input listed : Bytes} {s : Impl} {w : World}
    {packets : List ListedPacket} (hinput : input ≠ []) (hlisted : listInput input = some listed)
    (hready : s.gpgFound = true ∧ s.homeDirReady = true)
    (hwritten : ∀ path, (gpg.writeAllBytesToFile path listed w).1 = true)
    (hprinted : ∀ path w', (gpg.runGpgProcess (listPacketsArgs s.baseArgs path) [] w').1.started =
        true ∧
      (gpg.runGpgProcess (listPacketsArgs s.baseArgs path) [] w').1.output = listing packets)
    (hne : packets ≠ []) (h : ∀ packet ∈ packets, packet.Harmless) (hown : OwnLines packets) :
    (listPacketsCommon gpg input s w).1 = NO_ERROR ∧
      (listPacketsCommon gpg input s w).2.1 = report packets := by
  have hreport := (parseGpgPacketListing_report_iff h).mpr hown
  rw [listPacketsCommon, if_neg hinput, hready.1, hready.2, hlisted]
  dsimp only
  simp only [Bool.not_true, Bool.false_eq_true, if_false, hwritten, Impl.makeTempPath_baseArgs,
    hprinted, hreport, sawAnyPacket_report hne, if_true, and_self]

end Calls

/-! ### Harmful texts -/

def zeroKeyId : KeyId where
  text := ascii "0000000000000000"
  hexadecimal := by decide +kernel

/-- A packet with the text in an open line, a signature with the given values or another one. -/
def carrier (ofSignature : Bool) (value : UInt8) (text : LineText) (glued : Bool) :
    ListedPacket where
  body :=
    if ofSignature then .signature 1 zeroKeyId 4 0 0 value value (0, 0) [text]
    else .other ⟨11, by decide⟩ text []
  glued := glued

/-- Every open line has this text, in a packet of this kind. -/
def MadeOf (ofSignature : Bool) (text : LineText) (packets : List ListedPacket) : Prop :=
  ∀ packet ∈ packets, ∀ line ∈ packet.body.freeLines,
    packet.body.isSignature = ofSignature ∧ line = text

section Harmful

variable {ofSignature : Bool} {text : LineText}

theorem carrier_freeLines (value : UInt8) (glued : Bool) :
    (carrier ofSignature value text glued).body.freeLines = [text] := by
  cases ofSignature <;> rfl

theorem carrier_isSignature (value : UInt8) (glued : Bool) :
    (carrier ofSignature value text glued).body.isSignature = ofSignature := by
  cases ofSignature <;> rfl

theorem carrier_lines (value : UInt8) (glued : Bool) :
    (carrier ofSignature value text glued).body.lines =
      (carrier ofSignature value text glued).body.valueLines ++ [text.val] := by
  rw [PacketBody.lines, carrier_freeLines, List.map_singleton]

theorem carrier_tag_ne_one (value : UInt8) (glued : Bool) :
    Int32.ofNat (carrier ofSignature value text glued).body.tag ≠ 1 := by
  cases ofSignature with
  | false => exact (by decide : Int32.ofNat 11 ≠ 1)
  | true => exact (by decide : Int32.ofNat 2 ≠ 1)

theorem carrier_ownLines (value : UInt8) (glued : Bool) :
    (carrier ofSignature value text glued).OwnLines := by
  intro _ _ hempty
  rw [carrier_freeLines] at hempty
  cases hempty

theorem madeOf_carrier (value : UInt8) (glued : Bool) {packets : List ListedPacket}
    (h : MadeOf ofSignature text packets) :
    MadeOf ofSignature text (carrier ofSignature value text glued :: packets) := by
  rw [MadeOf, List.forall_mem_cons]
  refine ⟨?_, h⟩
  intro line hline
  rw [carrier_freeLines, List.mem_singleton] at hline
  exact ⟨carrier_isSignature value glued, hline⟩

/-- The comment of the packet, its lines with values, and the text. -/
theorem listingLines_carrier (value : UInt8) :
    listingLines [] [carrier ofSignature value text false] =
      ([] ++ ({} : PacketComment).text (carrier ofSignature value text false).body.tag) ::
        ((carrier ofSignature value text false).body.valueLines ++ [text.val]) := by
  have hown : (carrier ofSignature value text false).glued ≠ true := Bool.false_ne_true
  rw [listingLines, if_neg hown, carrier_lines, listingLines, if_pos rfl, List.append_nil]
  rfl

theorem signaturesOfLines_carrier (value : UInt8) :
    signaturesOfLines (listingLines [] [carrier ofSignature value text false]) =
      signatureStep ([], (carrier ofSignature value text false).body.inspectedSignature)
        text.val := by
  rw [signaturesOfLines, listingLines_carrier, List.foldl_cons,
    signatureStep_comment (by decide), List.foldl_append, foldl_valueLines]
  rfl

theorem report_carrier (value : UInt8) (glued : Bool) :
    report [carrier ofSignature value text glued] =
      inspected [Int32.ofNat (carrier ofSignature value text glued).body.tag] [] none
        (carrier ofSignature value text glued).body.inspectedSignature.toList := by
  cases ofSignature <;> rfl

theorem text_mem_listingLines (value : UInt8) :
    text.val ∈ listingLines [] [carrier ofSignature value text false] := by
  rw [listingLines_carrier]
  simp

/-- A tag that the text names hides the one of the comment behind it. -/
theorem tagOfLine_append_comment {line : Bytes} (hfound : tagMarkerPos line ≠ none)
    (comment : PacketComment) (tag : ℕ) :
    tagOfLine (line ++ comment.text tag) = tagOfLine line := by
  have hmarker : ∃ i j, Search.find OFFSET_MARKER line = some i ∧
      Search.find (ascii "tag=") (line.drop i) = some j := by
    rw [tagMarkerPos] at hfound
    cases hoffset : Search.find OFFSET_MARKER line with
    | none => exact absurd (by rw [hoffset]) hfound
    | some i =>
        rw [hoffset] at hfound
        dsimp only [Search.findFrom] at hfound
        rw [Ne, Option.map_eq_none_iff, Option.eq_none_iff_forall_ne_some] at hfound
        push Not at hfound
        obtain ⟨j, hj⟩ := hfound
        exact ⟨i, j, rfl, hj⟩
  obtain ⟨i, j, hi, hj⟩ := hmarker
  have hle := (Search.find_eq_some_iff.mp hi).1
  have hpos : i + j + 4 ≤ line.length := by
    have hat := (Search.find_eq_some_iff.mp hj).2.1.length_le
    have hfour : (ascii "tag=").length = 4 := rfl
    have hwhole := (Search.find_eq_some_iff.mp hi).2.1.length_le
    have hsix : OFFSET_MARKER.length = 6 := rfl
    rw [List.length_drop] at hat hwhole
    rw [List.length_drop] at hat
    omega
  rw [tagOfLine, tagOfLine, tagMarkerPos, tagMarkerPos, hi, Search.find_append_right hi]
  dsimp only [Search.findFrom]
  rw [List.drop_append_of_le_length hle, hj, Search.find_append_right hj]
  exact parseDecimalAt_append_right hpos (comment.head_text tag)

/-- The next packet, a PKESK, begins on the line with the text. -/
theorem listingLines_glued :
    listingLines [] [carrier ofSignature 0 text true, { body := .pubkeyEnc 3 1 zeroKeyId [] }] =
      ([] ++ ({} : PacketComment).text (carrier ofSignature 0 text true).body.tag) ::
        ((carrier ofSignature 0 text true).body.valueLines ++
          [text.val ++ ({} : PacketComment).text 1, pubkeyEncLine 3 1 zeroKeyId]) := by
  have hglued : (carrier ofSignature 0 text true).glued = true := rfl
  rw [listingLines, if_pos hglued, carrier_lines, List.dropLast_concat, List.getLastD_concat]
  rfl

theorem one_notMem_glued (hfound : tagMarkerPos text.val ≠ none)
    (htag : tagOfLine text.val ≠ some 1) :
    1 ∉ (listingLines [] [carrier ofSignature 0 text true,
      { body := .pubkeyEnc 3 1 zeroKeyId [] }]).filterMap tagOfLine := by
  rw [List.mem_filterMap]
  rintro ⟨line, hline, hone⟩
  rw [listingLines_glued, List.mem_cons, List.mem_append, List.mem_cons, List.mem_singleton]
    at hline
  rcases hline with rfl | hvalue | rfl | rfl
  · rw [tagOfLine_comment (by decide), Option.some.injEq] at hone
    exact carrier_tag_ne_one 0 true hone
  · have hoffset := (carrier ofSignature 0 text true).body.offset_valueLines line hvalue
    rw [tagOfLine_eq_none (tagMarkerPos_eq_none hoffset)] at hone
    cases hone
  · rw [tagOfLine_append_comment hfound] at hone
    exact htag hone
  · rw [tagOfLine_eq_none (tagMarkerPos_eq_none (pubkeyEncLine_markers 3 1 zeroKeyId).offset)]
      at hone
    cases hone

variable (hfaithful : ∀ packets, MadeOf ofSignature text packets → OwnLines packets →
  parseGpgPacketListing (listing packets) = report packets)

include hfaithful

theorem inspected_carrier (value : UInt8) :
    inspected ((listingLines [] [carrier ofSignature value text false]).filterMap tagOfLine)
        ((listingLines [] [carrier ofSignature value text false]).filterMap recipientOfLine)
        ((listingLines [] [carrier ofSignature value text false]).findSome? compressionOfLine)
        (settled (signatureStep
          ([], (carrier ofSignature value text false).body.inspectedSignature) text.val)) =
      inspected [Int32.ofNat (carrier ofSignature value text false).body.tag] [] none
        (carrier ofSignature value text false).body.inspectedSignature.toList := by
  have hreport := hfaithful [carrier ofSignature value text false]
    (madeOf_carrier value false nofun) nofun
  rw [report_carrier, parseGpgPacketListing_eq, listing,
    getlines_joinLines (LF_not_mem_listingLines _ List.not_mem_nil), signaturesOfLines_carrier]
    at hreport
  exact hreport

theorem pubkeyEnc_of_faithful : contains PUBKEY_ENC text.val = false := by
  have hrecipients := congrArg GpgInspectedListing.recipientKeyIds (inspected_carrier hfaithful 0)
  have hnone := List.filterMap_eq_nil_iff.mp hrecipients text.val (text_mem_listingLines 0)
  rw [recipientOfLine] at hnone
  cases hmarker : contains PUBKEY_ENC text.val with
  | false => rfl
  | true =>
      rw [hmarker] at hnone
      cases hnone

theorem signature_of_faithful : startsSignature text.val = false := by
  cases hstarts : startsSignature text.val with
  | false => rfl
  | true =>
      have hsignatures := congrArg GpgInspectedListing.signatures (inspected_carrier hfaithful 0)
      have hmem : startedSignature text.val ∈ settled (signatureStep
          ([], (carrier ofSignature 0 text false).body.inspectedSignature) text.val) := by
        rw [signatureStep, pubkeyEnc_of_faithful hfaithful, hstarts]
        simp [settled]
      have htype : (startedSignature text.val).signatureType = -1 := by
        rw [startedSignature]
        cases parseKeyIdAfterMarker text.val <;> rfl
      have hreported : startedSignature text.val ∈
          (carrier ofSignature 0 text false).body.inspectedSignature.toList := by
        rw [show settled _ = _ from hsignatures] at hmem
        exact hmem
      cases ofSignature with
      | false => cases hreported
      | true =>
          rw [List.mem_singleton.mp hreported] at htype
          cases htype

theorem compressed_of_faithful (hcompressed : contains COMPRESSED text.val = true) :
    algorithmOfLine text.val = none := by
  have hpresent := congrArg GpgInspectedListing.hasCompressedData (inspected_carrier hfaithful 0)
  have hnone : (listingLines [] [carrier ofSignature 0 text false]).findSome? compressionOfLine =
      none := Option.isSome_eq_false_iff.mp hpresent |> Option.isNone_iff_eq_none.mp
  have htext := List.findSome?_eq_none_iff.mp hnone text.val (text_mem_listingLines 0)
  rwa [compressionOfLine, pubkeyEnc_of_faithful hfaithful, signature_of_faithful hfaithful,
    hcompressed] at htext

theorem tag_of_faithful : tagMarkerPos text.val = none := by
  by_contra hfound
  have htag : tagOfLine text.val ≠ some 1 := by
    intro hone
    have hpkesk := congrArg GpgInspectedListing.hasPkesk (inspected_carrier hfaithful 0)
    have hmem : 1 ∈ (listingLines [] [carrier ofSignature 0 text false]).filterMap tagOfLine :=
      List.mem_filterMap.mpr ⟨text.val, text_mem_listingLines 0, hone⟩
    rw [inspected, inspected, List.contains_iff_mem.mpr hmem] at hpkesk
    have hlisted := List.contains_iff_mem.mp hpkesk.symm
    exact carrier_tag_ne_one 0 false (List.mem_singleton.mp hlisted).symm
  have hpkesk := congrArg GpgInspectedListing.hasPkesk (hfaithful
    [carrier ofSignature 0 text true, { body := .pubkeyEnc 3 1 zeroKeyId [] }]
    (madeOf_carrier 0 true (by simp [MadeOf, PacketBody.freeLines]))
    (by simpa [OwnLines] using carrier_ownLines 0 true))
  rw [parseGpgPacketListing_eq, listing,
    getlines_joinLines (LF_not_mem_listingLines _ List.not_mem_nil)] at hpkesk
  apply one_notMem_glued hfound htag
  apply List.contains_iff_mem.mp
  rw [show List.contains (List.filterMap tagOfLine _) 1 = _ from hpkesk]
  simp [report, inspected, PacketBody.tag]

theorem details_of_faithful (hkind : ofSignature = true)
    (hoffset : contains OFFSET_MARKER text.val = false)
    (hcompressed : contains COMPRESSED text.val = false) :
    sigClassOfLine text.val = none ∧ digestOfLine text.val = none := by
  subst hkind
  have hmarkers : Markers false false false text.val :=
    ⟨hoffset, pubkeyEnc_of_faithful hfaithful, signature_of_faithful hfaithful, hcompressed⟩
  -- the details are the same, whatever the signature's own values are
  have hread : ∀ value : UInt8,
      GpgInspectedSignature.readDetails
          ⟨zeroKeyId.text, Int32.ofNat value.toNat, Int32.ofNat value.toNat⟩ text.val =
        ⟨zeroKeyId.text, Int32.ofNat value.toNat, Int32.ofNat value.toNat⟩ := by
    intro value
    have hsignatures :=
      congrArg GpgInspectedListing.signatures (inspected_carrier hfaithful value)
    rw [signatureStep_details hmarkers] at hsignatures
    exact List.singleton_inj.mp hsignatures
  have hzero := hread 0
  have hone := hread 1
  rw [GpgInspectedSignature.readDetails, GpgInspectedSignature.mk.injEq] at hzero hone
  constructor
  · cases hclass : sigClassOfLine text.val with
    | none => rfl
    | some sigclass =>
        rw [hclass] at hzero hone
        exact absurd (hzero.2.1.symm.trans hone.2.1) (by decide)
  · cases hdigest : digestOfLine text.val with
    | none => rfl
    | some digest =>
        rw [hdigest] at hzero hone
        exact absurd (hzero.2.2.symm.trans hone.2.2) (by decide)

theorem harmless_of_faithful : HarmlessLine ofSignature text.val where
  tag := tag_of_faithful hfaithful
  pubkeyEnc := pubkeyEnc_of_faithful hfaithful
  signature := signature_of_faithful hfaithful
  compressed := compressed_of_faithful hfaithful
  details := details_of_faithful hfaithful

end Harmful

/-- A listing of harmless texts is reported as it is if and only if no comment follows on a line
with a signature's values; and a text may stand in every listing if and only if it is harmless. -/
theorem parseGpgPacketListing_faithful (packets : List ListedPacket) (ofSignature : Bool)
    (text : LineText) :
    ((∀ packet ∈ packets, packet.Harmless) →
      (parseGpgPacketListing (listing packets) = report packets ↔ OwnLines packets)) ∧
    ((∀ made, MadeOf ofSignature text made → OwnLines made →
        parseGpgPacketListing (listing made) = report made) ↔
      HarmlessLine ofSignature text.val) := by
  refine ⟨parseGpgPacketListing_report_iff, ?_⟩
  constructor
  · exact harmless_of_faithful
  · intro htext made hmade hown
    apply (parseGpgPacketListing_report_iff _).mpr hown
    intro packet hpacket line hline
    obtain ⟨hkind, rfl⟩ := hmade packet hpacket line hline
    rw [hkind]
    exact htext

/-- A literal packet whose file name is `name`. -/
def literalPacket (name : String) (h : LF ∉ ascii name) : ListedPacket where
  body := .other ⟨11, by decide⟩ ⟨ascii ":literal data packet:", by decide⟩
    [⟨ascii "\tmode b (62), created 0, name=\"" ++ ascii name ++ ascii "\",", by
      simp only [List.mem_append, not_or]
      exact ⟨⟨by decide, h⟩, by decide⟩⟩,
      ⟨ascii "\traw data: 5 bytes", by decide⟩]

theorem parseGpgPacketListing_faithful_letter :
    parseGpgPacketListing (listing [{ body := .pubkeyEnc 3 1 zeroKeyId [] },
        literalPacket "letter.txt" (by decide)]) =
      report [{ body := .pubkeyEnc 3 1 zeroKeyId [] },
        literalPacket "letter.txt" (by decide)] := by
  apply ((parseGpgPacketListing_faithful _ false ⟨[], by decide⟩).1 _).mpr
  · simp [OwnLines, ListedPacket.OwnLines, PacketBody.isSignature, PacketBody.inspectedSignature]
  · simp only [List.forall_mem_cons, ListedPacket.Harmless, literalPacket, PacketBody.freeLines]
    refine ⟨List.forall_mem_nil _, ⟨?_, ?_, ?_, List.forall_mem_nil _⟩, List.forall_mem_nil _⟩ <;>
      constructor <;> decide

/-- A file name adds a recipient or a kind of encryption that the message does not have, and a
comment on the line with a signature's values hides them. -/
theorem fileName_forges_recipient :
    (parseGpgPacketListing (listing [literalPacket ":pubkey enc packet: keyid 0123456789ABCDEF"
        (by decide)])).recipientKeyIds = [ascii "0123456789ABCDEF"] ∧
      (report [literalPacket ":pubkey enc packet: keyid 0123456789ABCDEF"
        (by decide)]).recipientKeyIds = [] ∧
      (parseGpgPacketListing (listing [literalPacket "# off=0 tag=1"
        (by decide)])).hasPkesk = true ∧
      (report [literalPacket "# off=0 tag=1" (by decide)]).hasPkesk = false ∧
      (parseGpgPacketListing (listing [
        { body := .signature 1 zeroKeyId 4 0 0 0 8 (0, 0) [], glued := true },
        literalPacket "letter.txt" (by decide)])).signatures.map (·.hashAlgorithm) =
          [-1] ∧
      (report [{ body := .signature 1 zeroKeyId 4 0 0 0 8 (0, 0) [], glued := true },
        literalPacket "letter.txt" (by decide)]).signatures.map (·.hashAlgorithm) =
          [8] := by
  decide

end HashCryptoLib.Wrapper
