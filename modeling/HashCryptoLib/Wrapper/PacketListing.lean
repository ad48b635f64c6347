import HashCryptoLib.Wrapper.Gpg

/-!
The wrapper's reader of `gpg --list-packets`: a loop over the lines that looks for markers
anywhere in a line and keeps the signature that the last lines were about. What it reports is
taken apart into what each line adds to it.
-/

namespace HashCryptoLib.Wrapper

open Pgp (ascii LF Failure fail)
open Pgp.Status

def OFFSET_MARKER : Bytes := ascii "# off="
def PUBKEY_ENC : Bytes := ascii ":pubkey enc packet:"
def SIGNATURE : Bytes := ascii ":signature packet:"
def ONEPASS_SIG : Bytes := ascii ":onepass_sig packet:"
def COMPRESSED : Bytes := ascii ":compressed packet:"
def SIGCLASS : Bytes := ascii "sigclass 0x"
def DIGEST_ALGO : Bytes := ascii "digest algo "
def DIGEST : Bytes := ascii "digest "

/-! ### Values -/

def isXDigit (c : UInt8) : Bool :=
  isDigit c || (0x41 ≤ c && c ≤ 0x46) || (0x61 ≤ c && c ≤ 0x66)

/-- The value of a hexadecimal digit. -/
def hexValue (c : UInt8) : ℕ :=
  if isDigit c then c.toNat - 0x30
  else if 0x61 ≤ c then c.toNat - 0x61 + 10
  else c.toNat - 0x41 + 10

/-- The digits are added up in an `int`, which wraps around. -/
def decimalValue (digits : Bytes) : Int32 :=
  digits.foldl (fun value c => value * 10 + Int32.ofNat (c.toNat - 0x30)) 0

/-- None where no digit is. -/
def parseDecimalAt (line : Bytes) (pos : ℕ) : Option Int32 :=
  let digits := (line.drop pos).takeWhile isDigit
  if digits = [] then none else some (decimalValue digits)

def parseKeyIdAfterMarker (line : Bytes) : Option Bytes :=
  match Search.find (ascii "keyid ") line with
  | none => none
  | some markerPos =>
    let id := (line.drop (markerPos + 6)).take 16
    if id.length = 16 ∧ id.all isXDigit then some (id.map toupper) else none

/-! ### The loop -/

def UNKNOWN_KEY_ID : Bytes := List.replicate 16 0x3F

structure GpgInspectedSignature where
  issuerKeyId : Bytes := UNKNOWN_KEY_ID
  signatureType : Int32 := -1
  hashAlgorithm : Int32 := -1
  deriving DecidableEq, Repr

structure GpgInspectedListing where
  sawAnyPacket : Bool := false
  hasPkesk : Bool := false
  hasSkesk : Bool := false
  hasIntegrityProtectedData : Bool := false
  hasUnprotectedEncryptedData : Bool := false
  hasCompressedData : Bool := false
  compressionAlgorithm : Int32 := 0
  recipientKeyIds : List Bytes := []
  signatures : List GpgInspectedSignature := []
  deriving DecidableEq, Repr

/-- What is listed so far, and the signature that is not complete yet. -/
structure ListingState where
  out : GpgInspectedListing := {}
  pendingSignature : Option GpgInspectedSignature := none

def tagMarkerPos (line : Bytes) : Option ℕ :=
  match Search.find OFFSET_MARKER line with
  | none => none
  | some offsetMarkerPos => Search.findFrom (ascii "tag=") line offsetMarkerPos

/-- The tag that a packet's comment names. -/
def tagOfLine (line : Bytes) : Option Int32 :=
  match tagMarkerPos line with
  | none => none
  | some pos => parseDecimalAt line (pos + 4)

def GpgInspectedListing.sawTag (out : GpgInspectedListing) (tag : Int32) : GpgInspectedListing :=
  let out := { out with sawAnyPacket := true }
  if tag = 1 then { out with hasPkesk := true }
  else if tag = 3 then { out with hasSkesk := true }
  else if tag = 18 ∨ tag = 20 then { out with hasIntegrityProtectedData := true }
  else if tag = 9 then { out with hasUnprotectedEncryptedData := true }
  else out

/-- The pending signature goes to the list. -/
def ListingState.complete (st : ListingState) : ListingState where
  out := { st.out with signatures := st.out.signatures ++ st.pendingSignature.toList }
  pendingSignature := none

def ListingState.beginPacket (st : ListingState) (line : Bytes) : ListingState :=
  if contains OFFSET_MARKER line then
    let st := st.complete
    match tagOfLine line with
    | none => st
    | some tag => { st with out := st.out.sawTag tag }
  else st

def startedSignature (line : Bytes) : GpgInspectedSignature :=
  match parseKeyIdAfterMarker line with
  | none => {}
  | some keyId => { issuerKeyId := keyId }

def sigClassOfLine (line : Bytes) : Option ℕ :=
  match Search.find SIGCLASS line with
  | none => none
  | some sigClassMarkerPos =>
    match (line.drop (sigClassMarkerPos + 11)).take 2 with
    | [high, low] =>
      if isXDigit high && isXDigit low then some (16 * hexValue high + hexValue low) else none
    | _ => none

/-- The longer marker is tried first: a line that has it has the shorter one as well. -/
def digestOfLine (line : Bytes) : Option Int32 :=
  match Search.find DIGEST_ALGO line with
  | some digestAlgoMarkerPos => parseDecimalAt line (digestAlgoMarkerPos + 12)
  | none =>
    match Search.find DIGEST line with
    | some digestMarkerPos => parseDecimalAt line (digestMarkerPos + 7)
    | none => none

def GpgInspectedSignature.readDetails (pending : GpgInspectedSignature) (line : Bytes) :
    GpgInspectedSignature where
  issuerKeyId := pending.issuerKeyId
  signatureType := ((sigClassOfLine line).map Int32.ofNat).getD pending.signatureType
  hashAlgorithm := (digestOfLine line).getD pending.hashAlgorithm

def algorithmOfLine (line : Bytes) : Option Int32 :=
  match Search.find (ascii "algo=") line with
  | none => none
  | some algoMarkerPos => parseDecimalAt line (algoMarkerPos + 5)

def startsSignature (line : Bytes) : Bool := contains SIGNATURE line || contains ONEPASS_SIG line

/-- One round of the loop in `parseGpgPacketListing`. -/
def ListingState.readLine (st : ListingState) (line : Bytes) : ListingState :=
  let st := st.beginPacket line
  if contains PUBKEY_ENC line then
    let keyId := (parseKeyIdAfterMarker line).getD UNKNOWN_KEY_ID
    { st with out := { st.out with recipientKeyIds := st.out.recipientKeyIds ++ [keyId] } }
  else if startsSignature line then { st with pendingSignature := some (startedSignature line) }
  else if contains COMPRESSED line then
    match algorithmOfLine line with
    | none => st
    | some algorithm =>
      if st.out.hasCompressedData then st
      else
        { st with
          out := { st.out with hasCompressedData := true, compressionAlgorithm := algorithm } }
  else { st with pendingSignature := st.pendingSignature.map (·.readDetails line) }

def readLines (lines : List Bytes) : ListingState := lines.foldl ListingState.readLine {}

def parseGpgPacketListing (listing : Bytes) : GpgInspectedListing :=
  (readLines (getlines LF listing)).complete.out

/-! ### What a line adds -/

def recipientOfLine (line : Bytes) : Option Bytes :=
  if contains PUBKEY_ENC line then some ((parseKeyIdAfterMarker line).getD UNKNOWN_KEY_ID) else none

def compressionOfLine (line : Bytes) : Option Int32 :=
  if !contains PUBKEY_ENC line && !startsSignature line && contains COMPRESSED line then
    algorithmOfLine line
  else none

/-- The signatures that are complete, and the one that is not. -/
abbrev Signatures := List GpgInspectedSignature × Option GpgInspectedSignature

def completeSignatures (signatures : Signatures) (line : Bytes) : Signatures :=
  if contains OFFSET_MARKER line then (signatures.1 ++ signatures.2.toList, none) else signatures

def signatureStep (signatures : Signatures) (line : Bytes) : Signatures :=
  let signatures := completeSignatures signatures line
  if contains PUBKEY_ENC line then signatures
  else if startsSignature line then (signatures.1, some (startedSignature line))
  else if contains COMPRESSED line then signatures
  else (signatures.1, signatures.2.map (·.readDetails line))

def signaturesOfLines (lines : List Bytes) : Signatures := lines.foldl signatureStep ([], none)

/-- A report from the tags, the recipients, the algorithm and the signatures of a message. -/
def inspected (tags : List Int32) (recipientKeyIds : List Bytes) (compression : Option Int32)
    (signatures : List GpgInspectedSignature) : GpgInspectedListing where
  sawAnyPacket := !tags.isEmpty
  hasPkesk := tags.contains 1
  hasSkesk := tags.contains 3
  hasIntegrityProtectedData := tags.contains 18 || tags.contains 20
  hasUnprotectedEncryptedData := tags.contains 9
  hasCompressedData := compression.isSome
  compressionAlgorithm := compression.getD 0
  recipientKeyIds := recipientKeyIds
  signatures := signatures

section Lines

variable {tags : List Int32} {recipientKeyIds : List Bytes} {compression : Option Int32}
  {signatures : Signatures} {line : Bytes}

theorem sawTag_inspected (tag : Int32) {completed : List GpgInspectedSignature} :
    (inspected tags recipientKeyIds compression completed).sawTag tag =
      inspected (tags ++ [tag]) recipientKeyIds compression completed := by
  rw [GpgInspectedListing.sawTag]
  split_ifs with hone hthree hprotected hnine
  · subst hone
    simp [inspected]
  · subst hthree
    simp [inspected]
  · rcases hprotected with rfl | rfl <;> simp [inspected]
  · subst hnine
    simp [inspected]
  · rw [not_or] at hprotected
    simp [inspected, Ne.symm hone, Ne.symm hthree, Ne.symm hprotected.1, Ne.symm hprotected.2,
      Ne.symm hnine]

theorem tagMarkerPos_eq_none (h : contains OFFSET_MARKER line = false) :
    tagMarkerPos line = none := by
  rw [contains, Option.isSome_eq_false_iff, Option.isNone_iff_eq_none] at h
  rw [tagMarkerPos, h]

theorem tagOfLine_eq_none (h : tagMarkerPos line = none) : tagOfLine line = none := by
  rw [tagOfLine, h]

theorem beginPacket_inspected :
    ListingState.beginPacket
        ⟨inspected tags recipientKeyIds compression signatures.1, signatures.2⟩ line =
      ⟨inspected (tags ++ (tagOfLine line).toList) recipientKeyIds compression
          (completeSignatures signatures line).1, (completeSignatures signatures line).2⟩ := by
  rw [ListingState.beginPacket, completeSignatures]
  cases hoffset : contains OFFSET_MARKER line with
  | false => simp [tagOfLine_eq_none (tagMarkerPos_eq_none hoffset)]
  | true =>
      cases htag : tagOfLine line with
      | none => simp [ListingState.complete, inspected]
      | some tag =>
          simp only [if_true, ListingState.complete, Option.toList_some]
          rw [← sawTag_inspected]
          rfl

/-- One round of the loop adds to each part of the report what the line says of it. -/
theorem readLine_inspected :
    ListingState.readLine
        ⟨inspected tags recipientKeyIds compression signatures.1, signatures.2⟩ line =
      ⟨inspected (tags ++ (tagOfLine line).toList)
          (recipientKeyIds ++ (recipientOfLine line).toList)
          (compression.or (compressionOfLine line)) (signatureStep signatures line).1,
        (signatureStep signatures line).2⟩ := by
  rw [ListingState.readLine, beginPacket_inspected, recipientOfLine, compressionOfLine,
    signatureStep]
  cases contains PUBKEY_ENC line with
  | true => simp [inspected]
  | false =>
      cases startsSignature line with
      | true => simp [inspected]
      | false =>
          cases contains COMPRESSED line with
          | true => cases algorithmOfLine line <;> cases compression <;> simp [inspected]
          | false => simp [inspected]

theorem filterMap_singleton {β : Type} (f : Bytes → Option β) :
    [line].filterMap f = (f line).toList := by
  rw [List.filterMap_cons]
  cases f line <;> rfl

theorem readLines_eq (lines : List Bytes) :
    readLines lines =
      ⟨inspected (lines.filterMap tagOfLine) (lines.filterMap recipientOfLine)
          (lines.findSome? compressionOfLine) (signaturesOfLines lines).1,
        (signaturesOfLines lines).2⟩ := by
  induction lines using List.reverseRecOn with
  | nil => rfl
  | append_singleton lines line ih =>
      rw [readLines, List.foldl_append, ← readLines, ih, List.foldl_cons, List.foldl_nil,
        readLine_inspected, signaturesOfLines, signaturesOfLines, List.foldl_append,
        List.filterMap_append, List.filterMap_append, List.findSome?_append,
        filterMap_singleton, filterMap_singleton, List.findSome?_singleton]
      rfl

/-- What is reported, line by line. -/
theorem parseGpgPacketListing_eq (listing : Bytes) :
    parseGpgPacketListing listing =
      inspected ((getlines LF listing).filterMap tagOfLine)
        ((getlines LF listing).filterMap recipientOfLine)
        ((getlines LF listing).findSome? compressionOfLine)
        ((signaturesOfLines (getlines LF listing)).1 ++
          (signaturesOfLines (getlines LF listing)).2.toList) := by
  rw [parseGpgPacketListing, readLines_eq]
  rfl

end Lines

end HashCryptoLib.Wrapper
