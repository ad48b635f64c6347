import HashCryptoLib.Wrapper.Gpg

/-!
gpg's output as lines. Status lines and diagnostic lines share one pipe, and the wrapper looks
for its markers in all of them; diagnostic lines quote user IDs and file names. A listing of
keys has a record for each fingerprint.
-/

namespace HashCryptoLib.Wrapper

open Pgp (ascii LF)

/-! ### Status lines and diagnostic lines -/

/-- How a diagnostic line begins: with the program's name, or indented. -/
inductive Lead
  | gpg
  | space
  | tab
  deriving DecidableEq, Repr

def Lead.bytes : Lead → Bytes
  | .gpg => ascii "gpg: "
  | .space => [SPACE]
  | .tab => [TAB]

def lineText (text : String) (h : LF ∉ ascii text := by decide) : LineText :=
  ⟨ascii text, h⟩

inductive OutputLine
  | status (text : LineText)
  | diagnostic (lead : Lead) (text : LineText)
  deriving DecidableEq, Repr

def OutputLine.bytes : OutputLine → Bytes
  | .status text => ascii "[GNUPG:] " ++ text.val
  | .diagnostic lead text => lead.bytes ++ text.val

def OutputLine.isStatus : OutputLine → Bool
  | .status _ => true
  | .diagnostic _ _ => false

def combined (lines : List OutputLine) : Bytes := joinLines (lines.map OutputLine.bytes)

def GOODSIG : Bytes := ascii "[GNUPG:] GOODSIG"
def BADSIG : Bytes := ascii "[GNUPG:] BADSIG"

/-- The marker stands in a line of the one kind or of the other. -/
def Shows (pattern : Bytes) (isStatus : Bool) (lines : List OutputLine) : Prop :=
  ∃ line ∈ lines, line.isStatus = isStatus ∧ contains pattern line.bytes = true

/-- No diagnostic line shows a marker that changes the verdict, and none that comes before the
status lines' key names another one. -/
structure Benign (lines : List OutputLine) : Prop where
  verdict : Shows BADSIG true lines ∨
    (¬ Shows BADSIG false lines ∧ (Shows GOODSIG true lines ∨ ¬ Shows GOODSIG false lines))
  keyId : ∀ before line after, lines = before ++ line :: after →
    (∀ earlier ∈ before, importedKeyIdOfLine earlier.bytes = none) → line.isStatus = false →
    ∀ id, importedKeyIdOfLine line.bytes = some id →
      ∃ between status rest, after.filter OutputLine.isStatus = between ++ status :: rest ∧
        (∀ earlier ∈ between, importedKeyIdOfLine earlier.bytes = none) ∧
        importedKeyIdOfLine status.bytes = some id

/-! ### Searching the lines -/

section Lines

variable {lines : List OutputLine}

theorem OutputLine.LF_not_mem (line : OutputLine) : LF ∉ line.bytes := by
  cases line with
  | status text =>
      rw [OutputLine.bytes, List.mem_append, not_or]
      exact ⟨by decide, text.property⟩
  | diagnostic lead text =>
      rw [OutputLine.bytes, List.mem_append, not_or]
      exact ⟨by cases lead <;> decide, text.property⟩

theorem getlines_combined (lines : List OutputLine) :
    getlines LF (combined lines) = lines.map OutputLine.bytes := by
  apply getlines_joinLines
  intro line hline
  obtain ⟨line, -, rfl⟩ := List.mem_map.mp hline
  exact line.LF_not_mem

theorem contains_combined {pattern : Bytes} (hne : pattern ≠ []) (hlf : LF ∉ pattern) :
    contains pattern (combined lines) = true ↔
      ∃ line ∈ lines, contains pattern line.bytes = true := by
  rw [contains, Search.find_isSome_iff, combined, infix_joinLines_iff hne hlf]
  constructor
  · rintro ⟨line, hline, hat⟩
    obtain ⟨line, hmem, rfl⟩ := List.mem_map.mp hline
    exact ⟨line, hmem, Search.find_isSome_iff.mpr hat⟩
  · rintro ⟨line, hmem, hat⟩
    exact ⟨line.bytes, List.mem_map_of_mem hmem, Search.find_isSome_iff.mp hat⟩

theorem contains_combined_iff_shows {pattern : Bytes} (hne : pattern ≠ []) (hlf : LF ∉ pattern) :
    contains pattern (combined lines) = true ↔
      Shows pattern true lines ∨ Shows pattern false lines := by
  rw [contains_combined hne hlf]
  constructor
  · rintro ⟨line, hmem, hat⟩
    cases hstatus : line.isStatus with
    | true => exact .inl ⟨line, hmem, hstatus, hat⟩
    | false => exact .inr ⟨line, hmem, hstatus, hat⟩
  · rintro (⟨line, hmem, -, hat⟩ | ⟨line, hmem, -, hat⟩)
    · exact ⟨line, hmem, hat⟩
    · exact ⟨line, hmem, hat⟩

theorem findFirstImportedKeyId_combined (lines : List OutputLine) :
    findFirstImportedKeyId (combined lines) =
      lines.findSome? fun line => importedKeyIdOfLine line.bytes := by
  rw [findFirstImportedKeyId, getlines_combined, List.findSome?_map]
  rfl

end Lines

/-! ### Listings -/

def fprRecord (fingerprint : Bytes) : Bytes := ascii "fpr:::::::::" ++ fingerprint ++ [COLON]

theorem fingerprintOfLine_eq_none {line : Bytes} (h : ¬ ascii "fpr:" <+: line) :
    fingerprintOfLine line = none := by
  rw [fingerprintOfLine, if_neg h]

theorem getlines_cons_delimiter (delimiter : UInt8) (rest : Bytes) :
    getlines delimiter (delimiter :: rest) = [] :: getlines delimiter rest := by
  rw [getlines, getlinesFrom, if_pos rfl]
  rfl

theorem fingerprintOfLine_fprRecord {fingerprint : Bytes} (hne : fingerprint ≠ [])
    (hcolon : COLON ∉ fingerprint) :
    fingerprintOfLine (fprRecord fingerprint) = some fingerprint := by
  have hstarts : ascii "fpr:" <+: fprRecord fingerprint :=
    ⟨List.replicate 8 COLON ++ fingerprint ++ [COLON], rfl⟩
  have hrecord : fprRecord fingerprint = ascii "fpr" ++ COLON ::
      (List.replicate 8 COLON ++ (fingerprint ++ COLON :: [])) := by
    rw [fprRecord]
    rfl
  have hfields : (getlines COLON (fprRecord fingerprint))[9]? = some fingerprint := by
    rw [hrecord, getlines, getlinesFrom_append [] _ (by decide)]
    simp only [List.replicate_succ, List.replicate_zero, List.cons_append, List.nil_append,
      getlines_cons_delimiter]
    rw [getlines, getlinesFrom_append [] _ hcolon]
    rfl
  rw [fingerprintOfLine, if_pos hstarts, hfields]
  exact if_neg hne

/-- The first record of a listing is the one that is read. -/
theorem findFirstFingerprint_joinLines {before rest : List Bytes} {fingerprint : Bytes}
    (hLF : ∀ line ∈ before ++ fprRecord fingerprint :: rest, LF ∉ line)
    (hbefore : ∀ line ∈ before, ¬ ascii "fpr:" <+: line) (hne : fingerprint ≠ [])
    (hcolon : COLON ∉ fingerprint) :
    findFirstFingerprintInColonOutput (joinLines (before ++ fprRecord fingerprint :: rest)) =
      some fingerprint := by
  have hnone : before.findSome? fingerprintOfLine = none :=
    List.findSome?_eq_none_iff.mpr fun line hline => fingerprintOfLine_eq_none (hbefore line hline)
  rw [findFirstFingerprintInColonOutput, getlines_joinLines hLF, List.findSome?_append, hnone,
    List.findSome?_cons, fingerprintOfLine_fprRecord hne hcolon]
  rfl

end HashCryptoLib.Wrapper
