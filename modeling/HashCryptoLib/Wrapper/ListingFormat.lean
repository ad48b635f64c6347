import HashCryptoLib.Wrapper.PacketListing

/-!
The listing that gpg prints for a list of packets, and what the wrapper reads in it. Literal
file names, user IDs and notation values stand in lines that are left open here; a line is
harmless if the reader finds no packet and no value in it.
-/

namespace HashCryptoLib.Wrapper

open Pgp (ascii LF Failure fail)
open Pgp.Status

def COMMA : UInt8 := 0x2C

/-! ### Parts of a line -/

/-- A key ID as gpg prints it. -/
structure KeyId where
  text : Bytes
  hexadecimal : text.length = 16 ∧ ∀ c ∈ text, c ∈ ascii "0123456789ABCDEF"
  deriving DecidableEq

def decimal (n : ℕ) : Bytes := ascii (toString n)

def hexDigit (n : ℕ) : UInt8 := UInt8.ofNat (if n < 10 then 0x30 + n else 0x61 + (n - 10))

/-- Two hexadecimal digits. -/
def hexByte (b : UInt8) : Bytes := [hexDigit (b.toNat / 16), hexDigit (b.toNat % 16)]

inductive Part
  | words (text : Bytes)
  | number (n : ℕ)
  | hex (b : UInt8)
  | keyId (id : KeyId)

def Part.text : Part → Bytes
  | .words text => text
  | .number n => decimal n
  | .hex b => hexByte b
  | .keyId id => id.text

def textOf (parts : List Part) : Bytes := parts.flatMap Part.text

/-- The letter is not in this part, whatever its value. -/
def Part.lacks (c : UInt8) : Part → Bool
  | .words text => !text.contains c
  | .number _ => !isDigit c
  | .hex _ => !isXDigit c
  | .keyId _ => !isXDigit c

/-! ### Packets -/

inductive LengthKind
  | definite
  | indeterminate
  | inChunks
  deriving DecidableEq, Repr

def LengthKind.text : LengthKind → Bytes
  | .definite => []
  | .indeterminate => ascii " indeterminate"
  | .inChunks => ascii " partial"

/-- What the comment in front of a packet says of it, beside the tag. -/
structure PacketComment where
  off : ℕ := 0
  ctb : UInt8 := 0
  hlen : ℕ := 0
  plen : ℕ := 0
  length : LengthKind := .definite
  newCtb : Bool := false

def PacketComment.text (comment : PacketComment) (tag : ℕ) : Bytes :=
  textOf [.words (ascii "# off="), .number comment.off, .words (ascii " ctb="), .hex comment.ctb,
    .words (ascii " tag="), .number tag, .words (ascii " hlen="), .number comment.hlen,
    .words (ascii " plen="), .number comment.plen, .words comment.length.text,
    .words (if comment.newCtb then ascii " new-ctb" else [])]

/-- A packet as it is listed: tags are below 64, algorithms are octets. The lines that are left
open are those with no value in them that the inspection takes. -/
inductive PacketBody
  | pubkeyEnc (version : ℕ) (algo : UInt8) (keyId : KeyId) (details : List LineText)
  | signature (algo : UInt8) (keyId : KeyId) (version created md5len : ℕ) (sigclass : UInt8)
      (digestAlgo : UInt8) (digestStart : UInt8 × UInt8) (details : List LineText)
  | onepassSig (keyId : KeyId) (version : ℕ) (sigclass digest pubkey : UInt8) (last : ℕ)
      (details : List LineText)
  | compressed (algo : UInt8) (details : List LineText)
  | other (tag : { tag : ℕ // tag < 64 ∧ tag ∉ [1, 2, 4, 8] }) (heading : LineText)
      (details : List LineText)

def PacketBody.tag : PacketBody → ℕ
  | .pubkeyEnc .. => 1
  | .signature .. => 2
  | .onepassSig .. => 4
  | .compressed .. => 8
  | .other tag _ _ => tag

/-- The `:name:` that a packet's first line begins with. -/
def heading (name : String) (parts : List Part) : Bytes :=
  COLON :: ascii name ++ COLON :: textOf parts

def pubkeyEncLine (version : ℕ) (algo : UInt8) (keyId : KeyId) : Bytes :=
  heading "pubkey enc packet" [.words (ascii " version "), .number version,
    .words (ascii ", algo "), .number algo.toNat, .words (ascii ", keyid "), .keyId keyId]

def signatureLine (algo : UInt8) (keyId : KeyId) : Bytes :=
  heading "signature packet" [.words (ascii " algo "), .number algo.toNat, .words (ascii ", keyid "),
    .keyId keyId]

def sigclassLine (version created md5len : ℕ) (sigclass : UInt8) : Bytes :=
  textOf [.words (ascii "\tversion "), .number version, .words (ascii ", created "),
    .number created, .words (ascii ", md5len "), .number md5len,
    .words (ascii ", sigclass 0x"), .hex sigclass]

def digestLine (digestAlgo : UInt8) (digestStart : UInt8 × UInt8) : Bytes :=
  textOf [.words (ascii "\tdigest algo "), .number digestAlgo.toNat,
    .words (ascii ", begin of digest "), .hex digestStart.1, .words (ascii " "),
    .hex digestStart.2]

def onepassSigLine (keyId : KeyId) : Bytes :=
  heading "onepass_sig packet" [.words (ascii " keyid "), .keyId keyId]

def onepassValuesLine (version : ℕ) (sigclass digest pubkey : UInt8) (last : ℕ) : Bytes :=
  textOf [.words (ascii "\tversion "), .number version, .words (ascii ", sigclass 0x"),
    .hex sigclass, .words (ascii ", digest "), .number digest.toNat, .words (ascii ", pubkey "),
    .number pubkey.toNat, .words (ascii ", last="), .number last]

def compressedLine (algo : UInt8) : Bytes :=
  heading "compressed packet" [.words (ascii " algo="), .number algo.toNat]

/-- The lines with the values that the inspection takes. -/
def PacketBody.valueLines : PacketBody → List Bytes
  | .pubkeyEnc version algo keyId _ => [pubkeyEncLine version algo keyId]
  | .signature algo keyId version created md5len sigclass digestAlgo digestStart _ =>
    [signatureLine algo keyId, sigclassLine version created md5len sigclass,
      digestLine digestAlgo digestStart]
  | .onepassSig keyId version sigclass digest pubkey last _ =>
    [onepassSigLine keyId, onepassValuesLine version sigclass digest pubkey last]
  | .compressed algo _ => [compressedLine algo]
  | .other _ _ _ => []

def PacketBody.freeLines : PacketBody → List LineText
  | .pubkeyEnc _ _ _ details => details
  | .signature _ _ _ _ _ _ _ _ details => details
  | .onepassSig _ _ _ _ _ _ details => details
  | .compressed _ details => details
  | .other _ heading details => heading :: details

def PacketBody.lines (body : PacketBody) : List Bytes :=
  body.valueLines ++ body.freeLines.map Subtype.val

/-- With `glued`, the comment of the next packet follows on the last line of this one. -/
structure ListedPacket where
  comment : PacketComment := {}
  body : PacketBody
  glued : Bool := false

/-- The lines of a listing, the first of which has begun already. -/
def listingLines : Bytes → List ListedPacket → List Bytes
  | begun, [] => if begun = [] then [] else [begun]
  | begun, packet :: packets =>
    (begun ++ packet.comment.text packet.body.tag) ::
      if packet.glued then
        packet.body.lines.dropLast ++ listingLines (packet.body.lines.getLastD []) packets
      else packet.body.lines ++ listingLines [] packets

def listing (packets : List ListedPacket) : Bytes := joinLines (listingLines [] packets)

/-! ### The report -/

def PacketBody.recipient : PacketBody → Option Bytes
  | .pubkeyEnc _ _ keyId _ => some keyId.text
  | _ => none

def PacketBody.compression : PacketBody → Option Int32
  | .compressed algo _ => some (Int32.ofNat algo.toNat)
  | _ => none

def PacketBody.inspectedSignature : PacketBody → Option GpgInspectedSignature
  | .signature _ keyId _ _ _ sigclass digestAlgo _ _ =>
    some { issuerKeyId := keyId.text, signatureType := Int32.ofNat sigclass.toNat,
           hashAlgorithm := Int32.ofNat digestAlgo.toNat }
  | .onepassSig keyId _ sigclass digest _ _ _ =>
    some { issuerKeyId := keyId.text, signatureType := Int32.ofNat sigclass.toNat,
           hashAlgorithm := Int32.ofNat digest.toNat }
  | _ => none

def report (packets : List ListedPacket) : GpgInspectedListing :=
  inspected (packets.map fun packet => Int32.ofNat packet.body.tag) (packets.filterMap (·.body.recipient))
    (packets.findSome? (·.body.compression)) (packets.filterMap (·.body.inspectedSignature))

def PacketBody.isSignature (body : PacketBody) : Bool := body.inspectedSignature.isSome

/-- The reader finds nothing in the line. The mark of a comment does no harm without a tag, nor
do details of a signature that are not read. -/
structure HarmlessLine (ofSignature : Bool) (line : Bytes) : Prop where
  tag : tagMarkerPos line = none
  pubkeyEnc : contains PUBKEY_ENC line = false
  signature : startsSignature line = false
  compressed : contains COMPRESSED line = true → algorithmOfLine line = none
  details : ofSignature = true → contains OFFSET_MARKER line = false →
    contains COMPRESSED line = false → sigClassOfLine line = none ∧ digestOfLine line = none

def ListedPacket.Harmless (packet : ListedPacket) : Prop :=
  ∀ line ∈ packet.body.freeLines, HarmlessLine packet.body.isSignature line.val

/-- No comment follows on a line with values of a signature. -/
def ListedPacket.OwnLines (packet : ListedPacket) : Prop :=
  packet.body.isSignature = true → packet.glued = true → packet.body.freeLines ≠ []

/-- The last packet has no comment behind it. -/
def OwnLines (packets : List ListedPacket) : Prop := ∀ packet ∈ packets.dropLast, packet.OwnLines

/-- A value that was read is not the mark of one that was not. -/
@[simp] theorem octet_ne_unread (b : UInt8) : (-1 : Int32) ≠ Int32.ofNat b.toNat := by
  intro h
  have hlt := b.toNat_lt
  have hminus : (-1 : Int32).toInt = -1 := by decide
  have hvalue := congrArg Int32.toInt h
  rw [Int32.toInt_ofNat_of_lt (by omega), hminus] at hvalue
  omega

/-! ### Letters -/

theorem hexDigit_spec : ∀ n < 16, isXDigit (hexDigit n) = true ∧ hexValue (hexDigit n) = n := by
  decide

theorem isXDigit_of_mem_hexByte {b c : UInt8} (h : c ∈ hexByte b) : isXDigit c = true := by
  have hlt := b.toNat_lt
  rw [hexByte, List.mem_cons, List.mem_singleton] at h
  rcases h with rfl | rfl
  · exact (hexDigit_spec _ (by omega)).1
  · exact (hexDigit_spec _ (by omega)).1

theorem KeyId.isXDigit (keyId : KeyId) : ∀ c ∈ keyId.text, Wrapper.isXDigit c = true := by
  intro c hc
  have hdigits : ∀ c ∈ ascii "0123456789ABCDEF", Wrapper.isXDigit c = true := by
    decide +kernel
  exact hdigits c (keyId.hexadecimal.2 c hc)

theorem not_mem_textOf {c : UInt8} {parts : List Part} (h : parts.all (Part.lacks c) = true) :
    c ∉ textOf parts := by
  intro hmem
  obtain ⟨part, hpart, hc⟩ := List.mem_flatMap.mp hmem
  have hlacks := List.all_eq_true.mp h part hpart
  cases part with
  | words text => simp_all [Part.lacks, Part.text]
  | number n =>
      have hdigit := isDigit_of_mem_toString hc
      simp_all [Part.lacks]
  | hex b =>
      have hdigit := isXDigit_of_mem_hexByte hc
      simp_all [Part.lacks]
  | keyId id =>
      have hdigit := id.isXDigit c hc
      simp_all [Part.lacks]

theorem contains_eq_false {pattern text : Bytes} (c : UInt8) (hpattern : c ∈ pattern)
    (htext : c ∉ text) : contains pattern text = false :=
  contains_eq_false_iff.mpr (Search.not_infix_of_not_mem hpattern htext)

/-! ### Headings -/

theorem takeWhile_append_colon {name rest : Bytes} (hname : COLON ∉ name) :
    (name ++ COLON :: rest).takeWhile (· ≠ COLON) = name := by
  rw [List.takeWhile_append_of_pos]
  · simp
  · intro c hc
    have hne : c ≠ COLON := fun heq => hname (heq ▸ hc)
    simpa using hne

/-- Two names between colons: the one is found in front of the other only if they are the
same. -/
theorem heading_infix_iff {name name' rest : Bytes} (hname : COLON ∉ name)
    (hname' : COLON ∉ name') (hrest : COLON ∉ rest) :
    COLON :: name' ++ [COLON] <:+: COLON :: name ++ COLON :: rest ↔ name' = name := by
  constructor
  · intro h
    rw [List.cons_append, List.cons_append, List.infix_cons_iff] at h
    rcases h with hstarts | hinfix
    · rw [List.cons_prefix_cons] at hstarts
      obtain ⟨after, hafter⟩ := hstarts.2
      have htake := congrArg (List.takeWhile (· ≠ COLON)) hafter
      rwa [List.append_assoc, List.singleton_append, takeWhile_append_colon hname',
        takeWhile_append_colon hname] at htake
    · have hcount := hinfix.sublist.count_le COLON
      simp [List.count_append, List.count_eq_zero.mpr hname, List.count_eq_zero.mpr hname',
        List.count_eq_zero.mpr hrest] at hcount
  · rintro rfl
    exact ⟨[], rest, by simp⟩

theorem contains_heading {pattern : Bytes} {name name' : String} {parts : List Part}
    (hpattern : pattern = COLON :: ascii name' ++ [COLON]) (hname : COLON ∉ ascii name)
    (hname' : COLON ∉ ascii name') (hparts : parts.all (Part.lacks COLON) = true)
    (rest : Bytes) (hrest : COLON ∉ rest) :
    contains pattern (heading name parts ++ rest) = decide (ascii name' = ascii name) := by
  have hiff := @heading_infix_iff (ascii name) (ascii name') (textOf parts ++ rest) hname hname' (by
    rw [List.mem_append, not_or]
    exact ⟨not_mem_textOf hparts, hrest⟩)
  rw [Bool.eq_iff_iff, contains_iff, decide_eq_true_iff, ← hiff, hpattern, heading,
    List.append_assoc]
  rfl

/-! ### Values behind a marker -/

/-- The marker is found behind `front`, whatever comes after it. -/
def FirstAt (marker front : Bytes) : Prop :=
  ∀ rest, Search.find marker (front ++ marker ++ rest) = some front.length

/-- A letter that is not in the marker parts it from the text before. -/
theorem firstAt_of_separator {x separator : UInt8} {marker before filler : Bytes}
    (hhead : marker.head? = some x) (hseparator : separator ∉ marker)
    (hbefore : ¬ marker <:+: before) (hfiller : x ∉ filler) :
    FirstAt marker (before ++ separator :: filler) := by
  intro rest
  cases marker with
  | nil => cases hhead
  | cons y marker =>
      obtain rfl : y = x := Option.some.inj hhead
      have hshape : before ++ separator :: filler ++ y :: marker ++ rest =
          before ++ separator :: (filler ++ (y :: marker ++ rest)) := by
        simp
      rw [hshape, Search.find_append_cons_of_not_infix hseparator hbefore,
        Search.find_append_of_head_not_mem hfiller, Search.find_append_self, List.length_append,
        List.length_cons]
      simp [Nat.add_assoc, Nat.add_comm 1]

/-- What is read back is what an `int` holds of the number. -/
theorem decimalValue_decimal (n : ℕ) : decimalValue (decimal n) = Int32.ofNat n := by
  have hdigits : ∀ value, ∀ c ∈ Nat.toDigits 10 n,
      Int32.ofNat value * 10 + Int32.ofNat ((UInt8.ofNat c.toNat).toNat - 0x30) =
        Int32.ofNat (10 * value + (c.toNat - '0'.toNat)) := by
    intro value c hc
    have hdigit : c.isDigit = true := Nat.isDigit_of_mem_toDigits (by decide) (by decide) hc
    simp only [Char.isDigit, Bool.and_eq_true, decide_eq_true_eq] at hdigit
    have hle : c.toNat ≤ 57 := hdigit.2
    rw [UInt8.toNat_ofNat_of_lt' (hle.trans_lt (by decide)), Nat.mul_comm 10, Int32.ofNat_add,
      Int32.ofNat_mul]
    rfl
  have hfold : ∀ (digits : List Char) (value : ℕ), (∀ c ∈ digits, c ∈ Nat.toDigits 10 n) →
      digits.foldl (fun value c => value * 10 + Int32.ofNat ((UInt8.ofNat c.toNat).toNat - 0x30))
          (Int32.ofNat value) =
        Int32.ofNat (digits.foldl (fun value c => 10 * value + (c.toNat - '0'.toNat)) value) := by
    intro digits
    induction digits with
    | nil => exact fun _ _ => rfl
    | cons c digits ih =>
        intro value hmem
        rw [List.foldl_cons, List.foldl_cons, hdigits value c (hmem c (.head _)),
          ih _ fun other hother => hmem other (.tail _ hother)]
  rw [decimalValue, decimal, ascii, Nat.toString_eq_repr, Nat.toList_repr, List.foldl_map]
  refine (hfold (Nat.toDigits 10 n) 0 fun c hc => hc).trans ?_
  rw [← Nat.ofDigitChars_eq_foldl, Nat.ofDigitChars_ten_toDigits]

theorem parseDecimalAt_append (front : Bytes) (n : ℕ) {rest : Bytes}
    (hrest : ∀ c ∈ rest.head?, isDigit c = false) :
    parseDecimalAt (front ++ (decimal n ++ rest)) front.length = some (Int32.ofNat n) := by
  have htake : (decimal n ++ rest).takeWhile isDigit = decimal n := by
    have hall : ∀ c ∈ decimal n, isDigit c = true := fun c hc => isDigit_of_mem_toString hc
    rw [List.takeWhile_append_of_pos hall]
    cases rest with
    | nil => simp
    | cons c rest => simp [hrest c rfl]
  rw [parseDecimalAt, List.drop_left, htake, decimalValue_decimal]
  exact if_neg (toString_ne_nil n)

example : parseDecimalAt (ascii "tag=4294967297") 4 = some 1 := by decide

/-- Text behind the number changes nothing. -/
theorem parseDecimalAt_append_right {line rest : Bytes} {pos : ℕ} (hpos : pos ≤ line.length)
    (hrest : ∀ c ∈ rest.head?, isDigit c = false) :
    parseDecimalAt (line ++ rest) pos = parseDecimalAt line pos := by
  have htake : ∀ digits : Bytes, (digits ++ rest).takeWhile isDigit = digits.takeWhile isDigit := by
    intro digits
    induction digits with
    | nil =>
        cases rest with
        | nil => rfl
        | cons c rest => simp [hrest c rfl]
    | cons c digits ih => rw [List.cons_append, List.takeWhile_cons, List.takeWhile_cons, ih]
  rw [parseDecimalAt, parseDecimalAt, List.drop_append_of_le_length hpos, htake]

theorem parseKeyIdAfterMarker_append {front : Bytes} (hfront : FirstAt (ascii "keyid ") front)
    (keyId : KeyId) (rest : Bytes) :
    parseKeyIdAfterMarker (front ++ ascii "keyid " ++ (keyId.text ++ rest)) =
      some keyId.text := by
  have hlength : front.length + 6 = (front ++ ascii "keyid ").length := by
    rw [List.length_append]
    rfl
  have hupper : keyId.text.map toupper = keyId.text := by
    have hfixed : ∀ c ∈ ascii "0123456789ABCDEF", toupper c = c := by
      decide +kernel
    calc
      keyId.text.map toupper = keyId.text.map id :=
        List.map_congr_left fun c hc => hfixed c (keyId.hexadecimal.2 c hc)
      _ = keyId.text := List.map_id _
  have hdigits : keyId.text.all isXDigit = true := List.all_eq_true.mpr keyId.isXDigit
  rw [parseKeyIdAfterMarker, hfront]
  dsimp only
  rw [hlength, List.drop_left, List.take_left' keyId.hexadecimal.1, hupper,
    if_pos ⟨keyId.hexadecimal.1, hdigits⟩]

theorem sigClassOfLine_append {front : Bytes} (hfront : FirstAt SIGCLASS front) (sigclass : UInt8)
    (rest : Bytes) :
    sigClassOfLine (front ++ SIGCLASS ++ (hexByte sigclass ++ rest)) = some sigclass.toNat := by
  have hlength : front.length + 11 = (front ++ SIGCLASS).length := by
    rw [List.length_append]
    rfl
  have hlt := sigclass.toNat_lt
  have hhigh := hexDigit_spec (sigclass.toNat / 16) (by omega)
  have hlow := hexDigit_spec (sigclass.toNat % 16) (by omega)
  rw [sigClassOfLine, hfront]
  dsimp only
  have htwo : (hexByte sigclass).length = 2 := rfl
  rw [hlength, List.drop_left, List.take_left' htwo, hexByte]
  dsimp only
  rw [hhigh.1, hhigh.2, hlow.1, hlow.2, Nat.div_add_mod]
  rfl

theorem algorithmOfLine_append {front : Bytes} (hfront : FirstAt (ascii "algo=") front) (n : ℕ)
    {rest : Bytes} (hrest : ∀ c ∈ rest.head?, isDigit c = false) :
    algorithmOfLine (front ++ ascii "algo=" ++ (decimal n ++ rest)) = some (Int32.ofNat n) := by
  have hlength : front.length + 5 = (front ++ ascii "algo=").length := by
    rw [List.length_append]
    rfl
  rw [algorithmOfLine, hfront]
  dsimp only
  rw [hlength, parseDecimalAt_append _ n hrest]

theorem digestOfLine_algo {front : Bytes} (hfront : FirstAt DIGEST_ALGO front) (n : ℕ)
    {rest : Bytes} (hrest : ∀ c ∈ rest.head?, isDigit c = false) :
    digestOfLine (front ++ DIGEST_ALGO ++ (decimal n ++ rest)) = some (Int32.ofNat n) := by
  have hlength : front.length + 12 = (front ++ DIGEST_ALGO).length := by
    rw [List.length_append]
    rfl
  rw [digestOfLine, hfront]
  dsimp only
  rw [hlength, parseDecimalAt_append _ n hrest]

theorem digestOfLine_onepass {front : Bytes} (hfront : FirstAt DIGEST front) (n : ℕ)
    {rest : Bytes} (hrest : ∀ c ∈ rest.head?, isDigit c = false)
    (halgo : contains DIGEST_ALGO (front ++ DIGEST ++ (decimal n ++ rest)) = false) :
    digestOfLine (front ++ DIGEST ++ (decimal n ++ rest)) = some (Int32.ofNat n) := by
  have hlength : front.length + 7 = (front ++ DIGEST).length := by
    rw [List.length_append]
    rfl
  rw [contains, Option.isSome_eq_false_iff, Option.isNone_iff_eq_none] at halgo
  rw [digestOfLine, halgo, hfront]
  dsimp only
  rw [hlength, parseDecimalAt_append _ n hrest]

/-! ### The lines with values -/

theorem textOf_append (parts parts' : List Part) :
    textOf (parts ++ parts') = textOf parts ++ textOf parts' :=
  List.flatMap_append

theorem heading_append (name : String) (parts parts' : List Part) :
    heading name (parts ++ parts') = heading name parts ++ textOf parts' := by
  rw [heading, heading, textOf_append, ← List.cons_append, ← List.append_assoc]

theorem not_mem_heading {c : UInt8} {name : String} {parts : List Part} (hcolon : c ≠ COLON)
    (hname : c ∉ ascii name) (hparts : parts.all (Part.lacks c) = true) :
    c ∉ heading name parts := by
  rw [heading, List.cons_append, List.mem_cons, List.mem_append, List.mem_cons, not_or, not_or,
    not_or]
  exact ⟨hcolon, hname, hcolon, not_mem_textOf hparts⟩

/-- A heading ends with a key ID. -/
theorem parseKeyIdAfterMarker_heading {name : String} {parts : List Part}
    (hname : 0x64 ∉ ascii name) (hparts : parts.all (Part.lacks 0x64) = true) (keyId : KeyId)
    (rest : Bytes) :
    parseKeyIdAfterMarker
        (heading name (parts ++ [.words (ascii ", keyid "), .keyId keyId]) ++ rest) =
      some keyId.text := by
  have hfront : FirstAt (ascii "keyid ") (heading name parts ++ COMMA :: [SPACE]) := by
    apply firstAt_of_separator (x := 0x6B)
    · rfl
    · decide
    · exact Search.not_infix_of_not_mem (c := 0x64) (by decide)
        (not_mem_heading (by decide) hname hparts)
    · decide
  have hshape : heading name (parts ++ [.words (ascii ", keyid "), .keyId keyId]) ++ rest =
      heading name parts ++ COMMA :: [SPACE] ++ ascii "keyid " ++ (keyId.text ++ rest) := by
    have hcomma : ascii ", keyid " = COMMA :: [SPACE] ++ ascii "keyid " := rfl
    rw [heading_append, hcomma]
    simp [textOf, Part.text]
  rw [hshape, parseKeyIdAfterMarker_append hfront]

theorem parseKeyIdAfterMarker_onepassSigLine (keyId : KeyId) :
    parseKeyIdAfterMarker (onepassSigLine keyId) = some keyId.text := by
  have hfront : FirstAt (ascii "keyid ")
      (COLON :: ascii "onepass_sig packet" ++ COLON :: [SPACE]) := by
    apply firstAt_of_separator (x := 0x6B)
    · rfl
    · decide
    · exact Search.not_infix_of_not_mem (c := 0x64) (by decide) (by decide)
    · decide
  have hshape : onepassSigLine keyId = COLON :: ascii "onepass_sig packet" ++ COLON :: [SPACE] ++
      ascii "keyid " ++ (keyId.text ++ []) := by
    have hwords : ascii " keyid " = SPACE :: ascii "keyid " := rfl
    rw [onepassSigLine, heading, hwords]
    simp [textOf, Part.text]
  rw [hshape, parseKeyIdAfterMarker_append hfront]

theorem algorithmOfLine_compressedLine (algo : UInt8) :
    algorithmOfLine (compressedLine algo) = some (Int32.ofNat algo.toNat) := by
  have hfront : FirstAt (ascii "algo=")
      (COLON :: ascii "compressed packet" ++ COLON :: [SPACE]) := by
    apply firstAt_of_separator (x := 0x61)
    · rfl
    · decide
    · exact Search.not_infix_of_not_mem (c := 0x3D) (by decide) (by decide)
    · decide
  have hshape : compressedLine algo = COLON :: ascii "compressed packet" ++
      COLON :: [SPACE] ++ ascii "algo=" ++ (decimal algo.toNat ++ []) := by
    have hwords : ascii " algo=" = SPACE :: ascii "algo=" := rfl
    rw [compressedLine, heading, hwords]
    simp [textOf, Part.text]
  rw [hshape, algorithmOfLine_append hfront algo.toNat (by simp)]

theorem sigClassOfLine_eq_none {line : Bytes} (h : contains SIGCLASS line = false) :
    sigClassOfLine line = none := by
  rw [contains, Option.isSome_eq_false_iff, Option.isNone_iff_eq_none] at h
  rw [sigClassOfLine, h]

theorem digestOfLine_eq_none {line : Bytes} (h : contains DIGEST line = false) :
    digestOfLine line = none := by
  have halgo : contains DIGEST_ALGO line = false := by
    rw [contains_eq_false_iff] at h ⊢
    exact fun hinfix => h ((List.prefix_append DIGEST (ascii "algo ")).isInfix.trans hinfix)
  rw [contains, Option.isSome_eq_false_iff, Option.isNone_iff_eq_none] at h halgo
  rw [digestOfLine, halgo, h]

/-- A line with no detail in it leaves the signature as it is. -/
theorem readDetails_eq_self {line : Bytes} (hsigclass : sigClassOfLine line = none)
    (hdigest : digestOfLine line = none) (pending : GpgInspectedSignature) :
    pending.readDetails line = pending := by
  rw [GpgInspectedSignature.readDetails, hsigclass, hdigest]
  rfl

/-- A marker without a separator in it is in one of the parts between the separators. -/
theorem contains_append_separator {pattern : Bytes} {separator : UInt8} (hne : pattern ≠ [])
    (hseparator : separator ∉ pattern) (left right : Bytes) :
    contains pattern (left ++ separator :: right) =
      (contains pattern left || contains pattern right) := by
  rw [Bool.eq_iff_iff, Bool.or_eq_true, contains_iff, contains_iff, contains_iff,
    Search.infix_append_cons_iff hne hseparator]

theorem contains_textOf_eq_false {pattern : Bytes} {parts : List Part} (c : UInt8)
    (hpattern : c ∈ pattern) (hparts : parts.all (Part.lacks c) = true) :
    contains pattern (textOf parts) = false :=
  contains_eq_false c hpattern (not_mem_textOf hparts)

theorem readDetails_sigclassLine (version created md5len : ℕ) (sigclass : UInt8)
    (pending : GpgInspectedSignature) :
    pending.readDetails (sigclassLine version created md5len sigclass) =
      { pending with signatureType := Int32.ofNat sigclass.toNat } := by
  have hfront : FirstAt SIGCLASS (textOf [.words (ascii "\tversion "), .number version,
      .words (ascii ", created "), .number created, .words (ascii ", md5len "), .number md5len] ++
      COMMA :: [SPACE]) := by
    apply firstAt_of_separator (x := 0x73)
    · rfl
    · decide
    · exact Search.not_infix_of_not_mem (c := 0x67) (by decide) (not_mem_textOf rfl)
    · decide
  have hshape : sigclassLine version created md5len sigclass =
      textOf [.words (ascii "\tversion "), .number version, .words (ascii ", created "),
        .number created, .words (ascii ", md5len "), .number md5len] ++ COMMA :: [SPACE] ++
        SIGCLASS ++ (hexByte sigclass ++ []) := by
    have hwords : ascii ", sigclass 0x" = COMMA :: SPACE :: SIGCLASS := rfl
    rw [sigclassLine, hwords]
    simp [textOf, Part.text]
  have hcommas : sigclassLine version created md5len sigclass =
      textOf [.words (ascii "\tversion "), .number version] ++ COMMA ::
        (textOf [.words (ascii " created "), .number created] ++ COMMA ::
          (textOf [.words (ascii " md5len "), .number md5len] ++ COMMA ::
            textOf [.words (ascii " sigclass 0x"), .hex sigclass])) := by
    have hwords : ascii ", created " = COMMA :: ascii " created " ∧
        ascii ", md5len " = COMMA :: ascii " md5len " ∧
        ascii ", sigclass 0x" = COMMA :: ascii " sigclass 0x" := ⟨rfl, rfl, rfl⟩
    rw [sigclassLine, hwords.1, hwords.2.1, hwords.2.2]
    simp [textOf, Part.text]
  have hdigest : contains DIGEST (sigclassLine version created md5len sigclass) = false := by
    have hne : DIGEST ≠ [] ∧ COMMA ∉ DIGEST := by
      decide
    rw [hcommas, contains_append_separator hne.1 hne.2, contains_append_separator hne.1 hne.2,
      contains_append_separator hne.1 hne.2,
      contains_textOf_eq_false 0x64 (by decide) rfl,
      contains_textOf_eq_false 0x67 (by decide) rfl,
      contains_textOf_eq_false 0x67 (by decide) rfl,
      contains_textOf_eq_false 0x74 (by decide) rfl]
    rfl
  rw [GpgInspectedSignature.readDetails, digestOfLine_eq_none hdigest, hshape,
    sigClassOfLine_append hfront]
  rfl

theorem readDetails_digestLine (digestAlgo : UInt8) (digestStart : UInt8 × UInt8)
    (pending : GpgInspectedSignature) :
    pending.readDetails (digestLine digestAlgo digestStart) =
      { pending with hashAlgorithm := Int32.ofNat digestAlgo.toNat } := by
  have hfront : FirstAt DIGEST_ALGO ([] ++ TAB :: []) := by
    apply firstAt_of_separator (x := 0x64)
    · rfl
    · decide
    · exact Search.not_infix_of_not_mem (c := 0x64) (by decide) (by decide)
    · decide
  have hshape : digestLine digestAlgo digestStart = [] ++ TAB :: [] ++ DIGEST_ALGO ++
      (decimal digestAlgo.toNat ++ COMMA :: textOf [.words (ascii " begin of digest "),
        .hex digestStart.1, .words (ascii " "), .hex digestStart.2]) := by
    have hwords : ascii "\tdigest algo " = TAB :: DIGEST_ALGO ∧
        ascii ", begin of digest " = COMMA :: ascii " begin of digest " := ⟨rfl, rfl⟩
    rw [digestLine, hwords.1, hwords.2]
    simp [textOf, Part.text]
  have hsigclass : contains SIGCLASS (digestLine digestAlgo digestStart) = false :=
    contains_textOf_eq_false 0x78 (by decide) rfl
  rw [GpgInspectedSignature.readDetails, sigClassOfLine_eq_none hsigclass, hshape,
    digestOfLine_algo hfront]
  · rfl
  · rintro c ⟨⟩
    rfl

theorem readDetails_onepassValuesLine (version : ℕ) (sigclass digest pubkey : UInt8) (last : ℕ)
    (pending : GpgInspectedSignature) :
    pending.readDetails (onepassValuesLine version sigclass digest pubkey last) =
      { pending with signatureType := Int32.ofNat sigclass.toNat,
                     hashAlgorithm := Int32.ofNat digest.toNat } := by
  have hclass : FirstAt SIGCLASS (textOf [.words (ascii "\tversion "), .number version] ++
      COMMA :: [SPACE]) := by
    apply firstAt_of_separator (x := 0x73)
    · rfl
    · decide
    · exact Search.not_infix_of_not_mem (c := 0x67) (by decide) (not_mem_textOf rfl)
    · decide
  have hdigest : FirstAt DIGEST (textOf [.words (ascii "\tversion "), .number version,
      .words (ascii ", sigclass 0x"), .hex sigclass] ++ COMMA :: [SPACE]) := by
    apply firstAt_of_separator (x := 0x64)
    · rfl
    · decide
    · exact Search.not_infix_of_not_mem (c := 0x74) (by decide) (not_mem_textOf rfl)
    · decide
  have hwords : ascii ", sigclass 0x" = COMMA :: SPACE :: SIGCLASS ∧
      ascii ", digest " = COMMA :: SPACE :: DIGEST ∧
      ascii ", pubkey " = COMMA :: ascii " pubkey " ∧ ascii ", last=" = COMMA :: ascii " last=" := ⟨rfl, rfl, rfl, rfl⟩
  -- the line is split at each of the two markers, and at its commas for the one it lacks
  have hclassShape : onepassValuesLine version sigclass digest pubkey last =
      textOf [.words (ascii "\tversion "), .number version] ++ COMMA :: [SPACE] ++ SIGCLASS ++
        (hexByte sigclass ++ textOf [.words (ascii ", digest "), .number digest.toNat,
          .words (ascii ", pubkey "), .number pubkey.toNat, .words (ascii ", last="), .number last]) := by
    rw [onepassValuesLine, hwords.1]
    simp [textOf, Part.text]
  have hdigestShape : onepassValuesLine version sigclass digest pubkey last =
      textOf [.words (ascii "\tversion "), .number version, .words (ascii ", sigclass 0x"),
        .hex sigclass] ++ COMMA :: [SPACE] ++ DIGEST ++
        (decimal digest.toNat ++ COMMA :: textOf [.words (ascii " pubkey "), .number pubkey.toNat,
          .words (ascii ", last="), .number last]) := by
    rw [onepassValuesLine, hwords.2.1, hwords.2.2.1]
    simp [textOf, Part.text]
  have hcommas : onepassValuesLine version sigclass digest pubkey last =
      textOf [.words (ascii "\tversion "), .number version] ++ COMMA ::
        (textOf [.words (SPACE :: SIGCLASS), .hex sigclass] ++ COMMA ::
          (textOf [.words (SPACE :: DIGEST), .number digest.toNat] ++ COMMA ::
            (textOf [.words (ascii " pubkey "), .number pubkey.toNat] ++ COMMA ::
              textOf [.words (ascii " last="), .number last]))) := by
    rw [onepassValuesLine, hwords.1, hwords.2.1, hwords.2.2.1, hwords.2.2.2]
    simp [textOf, Part.text]
  have halgo : contains DIGEST_ALGO (onepassValuesLine version sigclass digest pubkey last) =
      false := by
    have hne : DIGEST_ALGO ≠ [] ∧ COMMA ∉ DIGEST_ALGO := by
      decide
    rw [hcommas, contains_append_separator hne.1 hne.2, contains_append_separator hne.1 hne.2,
      contains_append_separator hne.1 hne.2, contains_append_separator hne.1 hne.2,
      contains_textOf_eq_false 0x67 (by decide) rfl,
      contains_textOf_eq_false 0x6F (by decide) rfl,
      contains_textOf_eq_false 0x6F (by decide) rfl,
      contains_textOf_eq_false 0x6F (by decide) rfl,
      contains_textOf_eq_false 0x6F (by decide) rfl]
    rfl
  have hclassOf : sigClassOfLine (onepassValuesLine version sigclass digest pubkey last) =
      some sigclass.toNat := by
    rw [hclassShape, sigClassOfLine_append hclass]
  have hdigestOf : digestOfLine (onepassValuesLine version sigclass digest pubkey last) =
      some (Int32.ofNat digest.toNat) := by
    rw [hdigestShape] at halgo ⊢
    apply digestOfLine_onepass hdigest digest.toNat _ halgo
    rintro c ⟨⟩
    rfl
  rw [GpgInspectedSignature.readDetails, hclassOf, hdigestOf]
  rfl

end HashCryptoLib.Wrapper
