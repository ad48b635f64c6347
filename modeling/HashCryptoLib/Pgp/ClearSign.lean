import HashCryptoLib.Pgp.SignedRoundTrip
import Mathlib.Data.List.DropRight

/-!
Clear-signed texts. The signer puts a text into lines, signs them joined, and
writes them out escaped; the reader takes the lines back from between the blank
line and the signature. The two agree on the document exactly when no line holds
a CR or the marker of the signature, and the last of several lines is not empty.
-/

namespace HashCryptoLib.Pgp

open BigEndian Search

def SPACE : UInt8 := 32
def TAB : UInt8 := 9

/-! ### Lines -/

/-- A line without its trailing spaces and tabs. -/
def stripBlanks (line : Bytes) : Bytes := line.rdropWhile fun c => c = SPACE ∨ c = TAB

/-- A finished line: one CR at its end goes first, then the blanks. -/
def canonicalLine (current : Bytes) : Bytes :=
  stripBlanks (if current.getLast? = some CR then current.dropLast else current)

/-- One character: the lines so far, and the current one. -/
def splitChar (state : List Bytes × Bytes) (c : UInt8) : List Bytes × Bytes :=
  if c = LF then (state.1 ++ [canonicalLine state.2], []) else (state.1, state.2 ++ [c])

def splitAndCanonicalizeLines (text : Bytes) : List Bytes :=
  let (lines, current) := text.foldl splitChar ([], [])
  if current ≠ [] ∨ lines ≠ [] then lines ++ [canonicalLine current] else lines

/-- The lines with CRLF between them, and none behind the last. -/
def joinLines : List Bytes → Bytes
  | [] => []
  | [line] => line
  | line :: lines => line ++ CR :: LF :: joinLines lines

/-- What is signed of a text. -/
def clearSignedDocument (text : Bytes) : Bytes := joinLines (splitAndCanonicalizeLines text)

def dashEscape (line : Bytes) : Bytes := if line.head? = some DASH then DASH :: SPACE :: line else line

def dashUnescape (line : Bytes) : Bytes :=
  match line with
  | c :: d :: rest => if c = DASH ∧ d = SPACE then rest else line
  | _ => line

/-! ### The calls -/

def signatureMarker : Bytes := ascii "-----BEGIN PGP SIGNATURE-----"

def clearSignHeader (keyAlgorithm : PgpKeyAlgorithm) : Bytes :=
  match keyAlgorithm with
  | PGP_KEY_ALGORITHM_RSA => ascii "-----BEGIN PGP SIGNED MESSAGE-----\r\nHash: SHA256\r\n\r\n"
  | PGP_KEY_ALGORITHM_ED25519_X25519 =>
    ascii "-----BEGIN PGP SIGNED MESSAGE-----\r\nHash: SHA512\r\n\r\n"

/-- The lines as they are written out. -/
def writtenLines (lines : List Bytes) : Bytes :=
  lines.flatMap fun line => dashEscape line ++ [CR, LF]

def ClearSignString (P : Primitives) (now : UInt32) (password : Bytes) (input : Buffer)
    (buffer : Option Int32) (impl : Impl) : Except Fault Outcome :=
  if rejects P impl password then .ok { status := INVALID_ARGUMENT }
  else
    let lines := splitAndCanonicalizeLines input.1
    let sigPacket := (selectActiveSigningKeyMaterial impl).sign P 0x01 (joinLines lines) [] now
    if sigPacket = [] then .ok { status := UNEXPECTED_ERROR }
    else
      deliver buffer 0 (clearSignHeader impl.keyAlgorithm ++ writtenLines lines ++
        armorEncode (ascii "PGP SIGNATURE") sigPacket)

/-- The lines between the blank line and the signature. They are split as the
lines of an armored block are; an empty one at the end is left out. -/
def rawLines (bodySection : Bytes) : List Bytes :=
  let lines := splitLines [] bodySection
  if lines.getLast? = some [] then lines.dropLast else lines

/-- The document in a body, and the signature packet where it is asked for. -/
def parseClearSignedBody (text : Bytes) (wantSignature : Bool) : Option (Bytes × Option Bytes) :=
  match findFrom (ascii "-----BEGIN PGP SIGNED MESSAGE-----") text 0 with
  | none => none
  | some beginPos =>
    match blankLineEnd text beginPos with
    | none => none
    | some bodyStart =>
      match findFrom signatureMarker text bodyStart with
      | none => none
      | some sigBeginPos =>
        let bodySection := (text.drop bodyStart).take (sigBeginPos - bodyStart)
        let document := joinLines ((rawLines bodySection).map fun line =>
          stripBlanks (dashUnescape line))
        if wantSignature then
          (armorDecode (text.drop sigBeginPos)).map fun decoded => (document, some decoded.2)
        else some (document, none)

def VerifyClearSignedString (P : Primitives) (clearSignedString : Buffer) (impl : Impl) : Outcome :=
  if impl.peerKeyImported = false ∨ clearSignedString.1 = [] then { status := INVALID_ARGUMENT }
  else
    match parseClearSignedBody clearSignedString.1 true with
    | none => { status := INVALID_DATA }
    | some (documentData, sigPacketBytes) =>
      match verifyWithPeer P impl documentData (sigPacketBytes.getD []) with
      | none => { status := INVALID_DATA }
      | some verified => { status := NO_ERROR, isValid := some verified }

def ExtractClearSignedText (clearSignedString : Buffer) (buffer : Option Int32) :
    Except Fault Outcome :=
  if clearSignedString.1 = [] then .ok { status := INVALID_ARGUMENT }
  else
    match parseClearSignedBody clearSignedString.1 false with
    | none => .ok { status := INVALID_DATA }
    | some (documentData, _) => deliver buffer 0 documentData

/-! ### What the signer writes -/

/-- A canonical line is in one line, and has no trailing blanks. -/
def IsCanonical (line : Bytes) : Prop := LF ∉ line ∧ stripBlanks line = line

theorem canonicalLine_isCanonical {current : Bytes} (h : LF ∉ current) :
    IsCanonical (canonicalLine current) := by
  refine ⟨fun hmem => ?_, List.rdropWhile_idempotent _ _⟩
  have hstart : canonicalLine current <+: current := by
    rw [canonicalLine]
    split_ifs
    · exact (List.rdropWhile_prefix _ _).trans (List.dropLast_prefix current)
    · exact List.rdropWhile_prefix _ _
  exact h (hstart.mem hmem)

/-- The loop finishes canonical lines only. -/
theorem foldl_splitChar_canonical (text : Bytes) (state : List Bytes × Bytes)
    (hlines : ∀ line ∈ state.1, IsCanonical line) (hcurrent : LF ∉ state.2) :
    (∀ line ∈ (text.foldl splitChar state).1, IsCanonical line) ∧
      LF ∉ (text.foldl splitChar state).2 := by
  induction text generalizing state with
  | nil => exact ⟨hlines, hcurrent⟩
  | cons c cs ih =>
      rw [List.foldl_cons]
      apply ih
      · intro line hmem
        rw [splitChar] at hmem
        split_ifs at hmem
        · rcases List.mem_append.mp hmem with hline | hlast
          · exact hlines line hline
          · rw [List.mem_singleton.mp hlast]
            exact canonicalLine_isCanonical hcurrent
        · exact hlines line hmem
      · rw [splitChar]
        split_ifs with hc
        · simp
        · simpa [hcurrent] using Ne.symm hc

theorem splitAndCanonicalizeLines_canonical {text line : Bytes}
    (h : line ∈ splitAndCanonicalizeLines text) : IsCanonical line := by
  obtain ⟨hlines, hcurrent⟩ := foldl_splitChar_canonical text ([], []) (by simp) (by simp)
  rw [splitAndCanonicalizeLines] at h
  dsimp only at h
  split_ifs at h
  · rcases List.mem_append.mp h with hline | hlast
    · exact hlines line hline
    · rw [List.mem_singleton.mp hlast]
      exact canonicalLine_isCanonical hcurrent
  · exact hlines line h

end HashCryptoLib.Pgp
