import HashCryptoLib.Wrapper.CommandLine
import HashCryptoLib.Lib.Search
import HashCryptoLib.Pgp.State

/-!
The wrapper's state and what it knows of gpg: a process that takes arguments and a standard
input and answers with an exit code and one text, in which it looks for lines.
-/

namespace HashCryptoLib.Wrapper

open Pgp (ascii LF Status)

def COLON : UInt8 := 0x3A
def HASH : UInt8 := 0x23

/-! ### Processes and files -/

structure GpgProcessResult where
  started : Bool := false
  exitCode : UInt32 := UInt32.ofNat (2 ^ 32 - 1)
  output : Bytes := []
  deriving DecidableEq, Repr

/-- Everything outside of the wrapper: running gpg, and the files of the home directory. -/
structure Gpg (World : Type) where
  runGpgProcess : List Bytes → Bytes → World → GpgProcessResult × World
  writeAllBytesToFile : Bytes → Bytes → World → Bool × World
  readAllBytesFromFile : Bytes → World → Option Bytes
  remove : Bytes → World → World

/-- The state of the wrapper. -/
structure Impl where
  gpgFound : Bool := true
  gpgExePath : Bytes := []
  homeDirReady : Bool := true
  homeDir : Bytes := []
  rsaKeyBits : ℕ := 2048
  tempFileCounter : ℕ := 0
  ownKeyGenerated : Bool := false
  ownKeyId : Bytes := []
  ownKeyFingerprint : Bytes := []
  ownPublicKeyArmored : Bytes := []
  ownSecretKeyArmored : Bytes := []
  keyExpirationSeconds : UInt32 := 0
  peerKeyIds : List Bytes := []
  deriving DecidableEq, Repr

def Impl.makeTempPath (s : Impl) (suffix : Bytes) : Bytes × Impl :=
  let s := { s with tempFileCounter := s.tempFileCounter + 1 }
  (s.homeDir ++ ascii "\\t" ++ ascii (toString s.tempFileCounter) ++ suffix, s)

def Impl.baseArgs (s : Impl) : List Bytes :=
  [s.gpgExePath, ascii "--homedir", s.homeDir, ascii "--batch", ascii "--yes"]

@[simp] theorem Impl.makeTempPath_baseArgs (s : Impl) (suffix : Bytes) :
    (s.makeTempPath suffix).2.baseArgs = s.baseArgs := rfl

@[simp] theorem Impl.makeTempPath_peerKeyIds (s : Impl) (suffix : Bytes) :
    (s.makeTempPath suffix).2.peerKeyIds = s.peerKeyIds := rfl

/-- `text.find(pattern) != npos` -/
def contains (pattern text : Bytes) : Bool := (Search.find pattern text).isSome

/-! ### Lines -/

/-- `std::getline` called until it fails: a delimiter at the end does not begin another
line. -/
def getlinesFrom (delimiter : UInt8) : Bytes → Bytes → List Bytes
  | line, [] => if line = [] then [] else [line]
  | line, c :: cs =>
    if c = delimiter then line :: getlinesFrom delimiter [] cs
    else getlinesFrom delimiter (line ++ [c]) cs

def getlines (delimiter : UInt8) (text : Bytes) : List Bytes := getlinesFrom delimiter [] text

abbrev LineText := { text : Bytes // LF ∉ text }

/-- Lines as they are written, each with its end. -/
def joinLines (lines : List Bytes) : Bytes := lines.flatMap (· ++ [LF])

theorem getlinesFrom_append {delimiter : UInt8} {line : Bytes} (current rest : Bytes)
    (h : delimiter ∉ line) : getlinesFrom delimiter current (line ++ delimiter :: rest) =
      (current ++ line) :: getlines delimiter rest := by
  induction line generalizing current with
  | nil => rw [List.nil_append, getlinesFrom, if_pos rfl, List.append_nil, getlines]
  | cons c line ih =>
      rw [List.mem_cons, not_or] at h
      obtain ⟨hne, hline⟩ := h
      rw [List.cons_append, getlinesFrom, if_neg (Ne.symm hne), ih _ hline, List.append_assoc]
      rfl

theorem getlines_joinLines {lines : List Bytes} (h : ∀ line ∈ lines, LF ∉ line) :
    getlines LF (joinLines lines) = lines := by
  induction lines with
  | nil => rfl
  | cons line lines ih =>
      rw [joinLines, List.flatMap_cons, List.append_assoc, List.singleton_append, getlines,
        getlinesFrom_append [] _ (h line List.mem_cons_self), List.nil_append]
      congr 1
      exact ih fun line hline => h line (List.mem_cons_of_mem _ hline)

/-- What has no line feed in it stands in one of the lines. -/
theorem infix_joinLines_iff {pattern : Bytes} {lines : List Bytes} (hne : pattern ≠ [])
    (hlf : LF ∉ pattern) :
    pattern <:+: joinLines lines ↔ ∃ line ∈ lines, pattern <:+: line := by
  induction lines with
  | nil => simp [joinLines, hne]
  | cons line lines ih =>
      rw [joinLines, List.flatMap_cons, List.append_assoc, List.singleton_append,
        Search.infix_append_cons_iff hne hlf, List.exists_mem_cons_iff]
      exact or_congr_right ih

theorem contains_iff {pattern text : Bytes} : contains pattern text = true ↔ pattern <:+: text :=
  Search.find_isSome_iff

theorem contains_eq_false_iff {pattern text : Bytes} :
    contains pattern text = false ↔ ¬ pattern <:+: text := by
  rw [← contains_iff, Bool.not_eq_true]

/-! ### Digits -/

def isDigit (c : UInt8) : Bool := 0x30 ≤ c && c ≤ 0x39

theorem isDigit_of_mem_toString {n : ℕ} {c : UInt8} (h : c ∈ ascii (toString n)) :
    isDigit c = true := by
  obtain ⟨digit, hdigit, rfl⟩ := List.mem_map.mp h
  rw [Nat.toString_eq_repr, Nat.toList_repr] at hdigit
  have hisDigit : digit.isDigit = true :=
    Nat.isDigit_of_mem_toDigits (by decide) (by decide) hdigit
  have hrange : 48 ≤ digit.toNat ∧ digit.toNat < 58 := by
    simp only [Char.isDigit, Bool.and_eq_true, decide_eq_true_eq] at hisDigit
    exact ⟨hisDigit.1, Nat.lt_succ_of_le hisDigit.2⟩
  have hdigits : ∀ m < 58, 48 ≤ m → isDigit (UInt8.ofNat m) = true := by
    decide
  exact hdigits _ hrange.2 hrange.1

theorem toString_ne_nil (n : ℕ) : ascii (toString n) ≠ [] := by
  rw [ascii, Nat.toString_eq_repr, Nat.toList_repr, ne_eq, List.map_eq_nil_iff]
  exact Nat.toDigits_ne_nil

/-! ### Reading gpg's answers -/

/-- `std::toupper` of the C locale. -/
def toupper (c : UInt8) : UInt8 := if 0x61 ≤ c ∧ c ≤ 0x7A then c - 0x20 else c

def keyIdFromFingerprint (fingerprint : Bytes) : Bytes :=
  if fingerprint.length < 16 then []
  else (fingerprint.drop (fingerprint.length - 16)).map toupper

/-- The fingerprint that one line holds: field 10 of an `fpr` record. -/
def fingerprintOfLine (line : Bytes) : Option Bytes :=
  if ascii "fpr:" <+: line then
    match (getlines COLON line)[9]? with
    | some fingerprint => if fingerprint = [] then none else some fingerprint
    | none => none
  else none

def findFirstFingerprintInColonOutput (colonOutput : Bytes) : Option Bytes :=
  (getlines LF colonOutput).findSome? fingerprintOfLine

def IMPORTED_MARKER : Bytes := ascii "[GNUPG:] IMPORTED "

/-- The key ID that one line holds, wherever in it the marker stands. -/
def importedKeyIdOfLine (line : Bytes) : Option Bytes :=
  match Search.find IMPORTED_MARKER line with
  | none => none
  | some markerPos =>
    let id := ((line.drop (markerPos + IMPORTED_MARKER.length)).takeWhile (· ≠ SPACE)).map toupper
    if 16 ≤ id.length then some (id.drop (id.length - 16)) else none

def findFirstImportedKeyId (statusOutput : Bytes) : Option Bytes :=
  (getlines LF statusOutput).findSome? importedKeyIdOfLine

end HashCryptoLib.Wrapper
