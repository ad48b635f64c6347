import HashCryptoLib.Wrapper.Gpg
import Mathlib.Data.List.DropRight

/-!
What the wrapper writes to gpg's standard input: the parameter file of a key generation, and
the answers to the prompts of a revocation and of a change of passphrase. A caller's values are
spliced into them as they are, but for the line breaks of a reason text.
-/

namespace HashCryptoLib.Wrapper

open Pgp (ascii LF CR Failure Status fail)
open Pgp.Status

def LT : UInt8 := 0x3C
def GT : UInt8 := 0x3E
def PERCENT : UInt8 := 0x25

/-! ### Writing -/

def DEFAULT_NAME : Bytes := ascii "PGP User"
def DEFAULT_EMAIL : Bytes := ascii "pgpwrapper@example.invalid"

/-- The name and the e-mail address around the first angle bracket that is closed. -/
def splitUserId (userId : Bytes) : Bytes × Bytes :=
  let whole := (if userId = [] then DEFAULT_NAME else userId, DEFAULT_EMAIL)
  match Search.find [LT] userId with
  | none => whole
  | some lt =>
    match Search.findFrom [GT] userId lt with
    | none => whole
    | some gt =>
      if lt < gt then
        let name := (userId.take lt).rdropWhile isBlank
        (if name = [] then DEFAULT_NAME else name, (userId.drop (lt + 1)).take (gt - lt - 1))
      else whole

def parseUserIdNameEmail (userId : Bytes) : Bytes × Bytes :=
  let (name, email) := splitUserId userId
  (name, if email = [] then DEFAULT_EMAIL else email)

def expireSpec (expirationSeconds : UInt32) : Bytes :=
  if expirationSeconds = 0 then ascii "0"
  else ascii "seconds=" ++ ascii (toString expirationSeconds.toNat)

def keyParameters (isEcc : Bool) (rsaKeyBits : ℕ) : List (Bytes × Bytes) :=
  if isEcc then
    [(ascii "Key-Type", ascii "eddsa"), (ascii "Key-Curve", ascii "ed25519"),
      (ascii "Key-Usage", ascii "sign,cert"), (ascii "Subkey-Type", ascii "ecdh"),
      (ascii "Subkey-Curve", ascii "cv25519"), (ascii "Subkey-Usage", ascii "encrypt")]
  else
    [(ascii "Key-Type", ascii "RSA"), (ascii "Key-Length", ascii (toString rsaKeyBits)),
      (ascii "Key-Usage", ascii "sign,cert"), (ascii "Subkey-Type", ascii "RSA"),
      (ascii "Subkey-Length", ascii (toString rsaKeyBits)), (ascii "Subkey-Usage", ascii "encrypt")]

/-- The keywords and the values of the parameter file, in the order of the file. -/
def batchParameters (isEcc : Bool) (rsaKeyBits : ℕ) (userId password : Bytes)
    (expirationSeconds : UInt32) : List (Bytes × Bytes) :=
  let (name, email) := parseUserIdNameEmail userId
  keyParameters isEcc rsaKeyBits ++
    [(ascii "Name-Real", name), (ascii "Name-Email", email),
      (ascii "Expire-Date", expireSpec expirationSeconds), (ascii "Passphrase", password)]

def parameterLine (parameter : Bytes × Bytes) : Bytes :=
  parameter.1 ++ ascii ": " ++ parameter.2

def parameterFile (parameters : List (Bytes × Bytes)) : Bytes :=
  joinLines (ascii "%echo generating key" :: parameters.map parameterLine ++ [ascii "%commit"])

/-- `generateKeyPairInternal` up to its first run of gpg. -/
def generateKeyPairScript (isEcc : Bool) (userId password : Bytes) (expirationSeconds : UInt32)
    (s : Impl) : Except Failure Bytes :=
  if userId = [] ∨ password = [] then fail INVALID_ARGUMENT
  else if !isEcc && s.rsaKeyBits ∉ [1024, 2048, 3072, 4096] then fail INVALID_ARGUMENT
  else if !s.gpgFound then fail NOT_IMPLEMENTED
  else if !s.homeDirReady then fail UNEXPECTED_ERROR
  else .ok (parameterFile (batchParameters isEcc s.rsaKeyBits userId password expirationSeconds))

def mapRevocationReasonToGpgMenu (rfcReasonCode : UInt8) : ℕ :=
  if rfcReasonCode = 0 then 0
  else if rfcReasonCode = 1 then 2
  else if rfcReasonCode = 2 then 1
  else if rfcReasonCode = 3 then 3
  else 0

def sanitizeSingleLine (text : Bytes) : Bytes :=
  text.map fun c => if c = LF ∨ c = CR then SPACE else c

/-- An empty reason text is ended by the same empty line that ends any other. -/
def revocationLines (password menuChoice reasonText : Bytes) : List Bytes :=
  [ascii "y", menuChoice] ++ (if reasonText = [] then [] else [reasonText]) ++
    [[], ascii "y", password]

/-- `revokeKeyCommon` up to its run of gpg. -/
def revokeKeyScript (password : Bytes) (reasonCode : UInt8) (reasonText : Bytes) (s : Impl) :
    Except Failure Bytes :=
  if !s.ownKeyGenerated then fail INVALID_ARGUMENT
  else if password = [] then fail INVALID_ARGUMENT
  else if !s.gpgFound then fail NOT_IMPLEMENTED
  else if !s.homeDirReady then fail UNEXPECTED_ERROR
  else
    let menuChoice := ascii (toString (mapRevocationReasonToGpgMenu reasonCode))
    .ok (joinLines (revocationLines password menuChoice (sanitizeSingleLine reasonText)))

/-- `changePassphraseCommon` up to its run of gpg. -/
def changePassphraseScript (oldPassword newPassword : Bytes) (s : Impl) : Except Failure Bytes :=
  if !s.ownKeyGenerated ∨ oldPassword = [] ∨ newPassword = [] then fail INVALID_ARGUMENT
  else if !s.gpgFound then fail NOT_IMPLEMENTED
  else if !s.homeDirReady then fail UNEXPECTED_ERROR
  else .ok (joinLines [oldPassword, newPassword, newPassword])

section Calls

variable {World : Type} (gpg : Gpg World)

/-- The arguments of the calls that gpg asks for answers: without `--batch`. -/
def Impl.promptArgs (s : Impl) : List Bytes :=
  [s.gpgExePath, ascii "--homedir", s.homeDir, ascii "--yes", ascii "--pinentry-mode",
    ascii "loopback", ascii "--command-fd", ascii "0"]

def revokeKeyCommon (password : Bytes) (reasonCode : UInt8) (reasonText : Bytes) (s : Impl)
    (w : World) : Except Failure Bytes × Impl × World :=
  match revokeKeyScript password reasonCode reasonText s with
  | .error failure => (.error failure, s, w)
  | .ok script =>
    let (outPath, s) := s.makeTempPath (ascii ".rev")
    let args := s.promptArgs ++ [ascii "--output", outPath, ascii "--generate-revocation",
      s.ownKeyId]
    let (result, w) := gpg.runGpgProcess args script w
    if !result.started then (fail UNEXPECTED_ERROR, s, w)
    else
      let outBytes := (gpg.readAllBytesFromFile outPath w).getD []
      let w := gpg.remove outPath w
      if outBytes = [] then (fail UNEXPECTED_ERROR, s, w) else (.ok outBytes, s, w)

def changePassphraseCommon (oldPassword newPassword : Bytes) (s : Impl) (w : World) :
    Status × World :=
  match changePassphraseScript oldPassword newPassword s with
  | .error failure => (failure.1, w)
  | .ok script =>
    let args := s.promptArgs ++ [ascii "--change-passphrase", s.ownKeyFingerprint]
    let (result, w) := gpg.runGpgProcess args script w
    if !result.started || result.exitCode ≠ 0 then (UNEXPECTED_ERROR, w) else (NO_ERROR, w)

end Calls

/-! ### Reading

gpg holds each line as a C string. A parameter file has one statement or parameter in a line,
white space around it is ignored, as are empty lines and comments. Prompts take a line each,
but for the reason text, which goes on to the first blank line. -/

def isSpace (c : UInt8) : Bool := c = SPACE || (0x09 ≤ c && c ≤ 0x0D)

def cString (line : Bytes) : Bytes := line.takeWhile (· ≠ 0)

def trim (line : Bytes) : Bytes := (line.dropWhile isSpace).rdropWhile isSpace

inductive Directive
  | control (keyword arguments : Bytes)
  | parameter (keyword value : Bytes)
  | malformed (line : Bytes)
  deriving DecidableEq, Repr

def directiveOfTrimmed (line : Bytes) : Option Directive :=
  if line = [] ∨ line.head? = some HASH then none
  else if line.head? = some PERCENT then
    let keyword := line.takeWhile (!isSpace ·)
    some (.control keyword ((line.drop keyword.length).dropWhile isSpace))
  else
    let keyword := line.takeWhile (· ≠ COLON)
    let value := (line.drop (keyword.length + 1)).dropWhile isSpace
    if keyword = [] ∨ value = [] then some (.malformed line) else some (.parameter keyword value)

def directiveOfLine (line : Bytes) : Option Directive := directiveOfTrimmed (trim (cString line))

def readParameterFile (file : Bytes) : List Directive := (getlines LF file).filterMap directiveOfLine

/-- What gpg reads of its standard input at its prompts. -/
def readAnswers (script : Bytes) : List Bytes := (getlines LF script).map cString

def isBlankLine (line : Bytes) : Bool := line.all isSpace

structure RevocationAnswers where
  create : Bytes
  reason : Bytes
  description : List Bytes
  okay : Bytes
  passphrase : Bytes
  unread : List Bytes
  deriving DecidableEq, Repr

def revocationAnswers : List Bytes → Option RevocationAnswers
  | create :: reason :: answers =>
    match answers.dropWhile (!isBlankLine ·) with
    | _ :: okay :: passphrase :: unread =>
      some { create, reason, description := answers.takeWhile (!isBlankLine ·), okay, passphrase,
             unread }
    | _ => none
  | _ => none

/-! ### Lines and values -/

theorem not_mem_of_mem_getlinesFrom {delimiter : UInt8} {text current line : Bytes}
    (hcurrent : delimiter ∉ current) (h : line ∈ getlinesFrom delimiter current text) :
    delimiter ∉ line := by
  induction text generalizing current with
  | nil =>
      rw [getlinesFrom] at h
      split_ifs at h
      · cases h
      · rwa [List.mem_singleton.mp h]
  | cons c cs ih =>
      rw [getlinesFrom] at h
      split_ifs at h with hc
      · rcases List.mem_cons.mp h with rfl | h
        · exact hcurrent
        · exact ih List.not_mem_nil h
      · apply ih _ h
        rw [List.mem_append, List.mem_singleton, not_or]
        exact ⟨hcurrent, Ne.symm hc⟩

theorem not_mem_of_mem_getlines {delimiter : UInt8} {text line : Bytes}
    (h : line ∈ getlines delimiter text) : delimiter ∉ line :=
  not_mem_of_mem_getlinesFrom List.not_mem_nil h

theorem zero_not_mem_cString (line : Bytes) : 0 ∉ cString line := by
  intro h
  simpa using List.mem_takeWhile_imp h

theorem cString_eq_self {line : Bytes} (h : 0 ∉ line) : cString line = line := by
  rw [cString, List.takeWhile_eq_self_iff]
  intro c hc
  have hne : c ≠ 0 := fun heq => h (heq ▸ hc)
  simpa using hne

theorem mem_cString {line : Bytes} {c : UInt8} (h : c ∈ cString line) : c ∈ line :=
  (List.takeWhile_sublist _).subset h

/-- One answer to a prompt. -/
structure IsAnswer (text : Bytes) : Prop where
  noLF : LF ∉ text
  noNUL : 0 ∉ text

/-- A value that a parameter file gives as it is. -/
structure IsValue (text : Bytes) : Prop extends IsAnswer text where
  ne_nil : text ≠ []
  first : ∀ c ∈ text.head?, isSpace c = false
  last : ∀ c ∈ text.getLast?, isSpace c = false

structure IsKeyword (text : Bytes) : Prop where
  first : ∃ c ∈ text.head?, c ≠ HASH ∧ c ≠ PERCENT
  letters : ∀ c ∈ text, c ≠ COLON ∧ c ≠ 0 ∧ isSpace c = false

instance (text : Bytes) : Decidable (IsAnswer text) :=
  decidable_of_iff ((!text.contains LF && !text.contains 0) = true)
    ⟨fun h => by constructor <;> simp_all, fun h => by simp [h.noLF, h.noNUL]⟩

instance (text : Bytes) : Decidable (IsValue text) :=
  decidable_of_iff (IsAnswer text ∧ text ≠ [] ∧ text.head?.all (!isSpace ·) = true ∧
      text.getLast?.all (!isSpace ·) = true)
    ⟨fun h => ⟨h.1, h.2.1, by simpa [Option.all_eq_true] using h.2.2.1,
        by simpa [Option.all_eq_true] using h.2.2.2⟩,
      fun h => ⟨h.toIsAnswer, h.ne_nil, by simpa [Option.all_eq_true] using h.first,
        by simpa [Option.all_eq_true] using h.last⟩⟩

instance (text : Bytes) : Decidable (IsKeyword text) :=
  decidable_of_iff (text.head?.any (fun c => c != HASH && c != PERCENT) = true ∧
      text.all (fun c => c != COLON && c != 0 && !isSpace c) = true)
    ⟨fun h => ⟨by simpa [Option.any_eq_true] using h.1, by simpa [and_assoc] using h.2⟩,
      fun h => ⟨by simpa [Option.any_eq_true] using h.first,
        by simpa [and_assoc] using h.letters⟩⟩

/-- Text without any white space is a value. -/
theorem isValue_of_letters {text : Bytes} (hne : text ≠ [])
    (h : ∀ c ∈ text, c ≠ 0 ∧ isSpace c = false) : IsValue text where
  noLF := by
    intro hmem
    cases (h LF hmem).2
  noNUL hmem := (h 0 hmem).1 rfl
  ne_nil := hne
  first c hc := (h c (List.mem_of_mem_head? hc)).2
  last c hc := (h c (List.mem_of_mem_getLast? hc)).2

theorem isAnswer_of_mem_readAnswers {script answer : Bytes} (h : answer ∈ readAnswers script) :
    IsAnswer answer := by
  obtain ⟨line, hline, rfl⟩ := List.mem_map.mp h
  exact ⟨fun hmem => not_mem_of_mem_getlines hline (mem_cString hmem), zero_not_mem_cString line⟩

theorem readAnswers_joinLines {lines : List Bytes} (h : ∀ line ∈ lines, IsAnswer line) :
    readAnswers (joinLines lines) = lines := by
  rw [readAnswers, getlines_joinLines fun line hline => (h line hline).noLF]
  calc
    lines.map cString = lines.map id :=
      List.map_congr_left fun line hline => cString_eq_self (h line hline).noNUL
    _ = lines := List.map_id lines

/-! ### Parameter files -/

theorem dropWhile_isSpace_eq_self {text : Bytes} (h : ∀ c ∈ text.head?, isSpace c = false) :
    text.dropWhile isSpace = text := by
  cases text with
  | nil => rfl
  | cons c cs => rw [List.dropWhile_cons, h c rfl, if_neg Bool.false_ne_true]

theorem trim_eq_self {line : Bytes} (hfirst : ∀ c ∈ line.head?, isSpace c = false)
    (hlast : ∀ c ∈ line.getLast?, isSpace c = false) : trim line = line := by
  rw [trim, dropWhile_isSpace_eq_self hfirst, List.rdropWhile_eq_self_iff]
  intro hne
  rw [hlast _ (List.getLast?_eq_some_getLast hne)]
  exact Bool.false_ne_true

theorem getLast_trim (line : Bytes) : ∀ c ∈ (trim line).getLast?, isSpace c = false := by
  intro c hc
  have hne : trim line ≠ [] := by
    intro hnil
    rw [hnil] at hc
    cases hc
  rw [List.getLast?_eq_some_getLast hne, Option.mem_some_iff] at hc
  rw [← hc]
  exact Bool.eq_false_iff.mpr (List.rdropWhile_last_not _ _ hne)

theorem directiveOfLine_parameterLine {keyword value : Bytes} (hkeyword : IsKeyword keyword)
    (hvalue : IsValue value) :
    directiveOfLine (parameterLine (keyword, value)) = some (.parameter keyword value) := by
  obtain ⟨first, hfirst, hhash, hpercent⟩ := hkeyword.first
  have hne : keyword ≠ [] := by
    rintro rfl
    cases hfirst
  have hspace := (hkeyword.letters first (List.mem_of_mem_head? hfirst)).2.2
  have hline : parameterLine (keyword, value) = keyword ++ COLON :: SPACE :: value := by
    rw [parameterLine, List.append_assoc]
    rfl
  have hhead : (keyword ++ COLON :: SPACE :: value).head? = some first := by
    rw [List.head?_append_of_ne_nil _ hne]
    exact hfirst
  have hlast : (keyword ++ COLON :: SPACE :: value).getLast? = value.getLast? := by
    rw [List.getLast?_append_of_ne_nil _ (List.cons_ne_nil _ _), List.getLast?_cons_of_ne_nil,
      List.getLast?_cons_of_ne_nil hvalue.ne_nil]
    exact List.cons_ne_nil _ _
  have hzero : 0 ∉ keyword ++ COLON :: SPACE :: value := by
    intro hmem
    rcases List.mem_append.mp hmem with hmem | hmem
    · exact (hkeyword.letters 0 hmem).2.1 rfl
    · simp only [List.mem_cons] at hmem
      rcases hmem with hmem | hmem | hmem
      · cases hmem
      · cases hmem
      · exact hvalue.noNUL hmem
  have htrim : trim (keyword ++ COLON :: SPACE :: value) = keyword ++ COLON :: SPACE :: value := by
    apply trim_eq_self
    · rw [hhead]
      rintro c ⟨⟩
      exact hspace
    · rw [hlast]
      exact hvalue.last
  have htake : (keyword ++ COLON :: SPACE :: value).takeWhile (· ≠ COLON) = keyword := by
    rw [List.takeWhile_append_of_pos]
    · simp
    · intro c hc
      simpa using (hkeyword.letters c hc).1
  have hdrop : ((keyword ++ COLON :: SPACE :: value).drop (keyword.length + 1)).dropWhile
      isSpace = value := by
    rw [← List.drop_drop, List.drop_left, List.drop_succ_cons, List.drop_zero]
    exact dropWhile_isSpace_eq_self hvalue.first
  rw [hline, directiveOfLine, cString_eq_self hzero, htrim, directiveOfTrimmed, hhead, htake]
  have hstart : ¬ (keyword ++ COLON :: SPACE :: value = [] ∨ some first = some HASH) := by
    simp [hhash]
  rw [if_neg hstart, if_neg (by simpa using hpercent)]
  dsimp only
  rw [hdrop, if_neg (not_or.mpr ⟨hne, hvalue.ne_nil⟩)]

theorem LF_not_mem_parameterLine {parameter : Bytes × Bytes} (hkeyword : IsKeyword parameter.1)
    (hvalue : IsValue parameter.2) : LF ∉ parameterLine parameter := by
  rw [parameterLine, List.mem_append, List.mem_append, not_or, not_or]
  refine ⟨⟨fun hmem => ?_, by decide⟩, hvalue.noLF⟩
  cases (hkeyword.letters LF hmem).2.2

theorem filterMap_parameterLine {parameters : List (Bytes × Bytes)}
    (hkeywords : ∀ parameter ∈ parameters, IsKeyword parameter.1)
    (hvalues : ∀ parameter ∈ parameters, IsValue parameter.2) :
    (parameters.map parameterLine).filterMap directiveOfLine =
      parameters.map fun parameter => .parameter parameter.1 parameter.2 := by
  induction parameters with
  | nil => rfl
  | cons parameter parameters ih =>
      rw [List.forall_mem_cons] at hkeywords hvalues
      rw [List.map_cons, List.map_cons, List.filterMap_cons,
        directiveOfLine_parameterLine hkeywords.1 hvalues.1, ih hkeywords.2 hvalues.2]

theorem directiveOfTrimmed_parameter {line keyword value : Bytes}
    (h : directiveOfTrimmed line = some (.parameter keyword value)) :
    value ≠ [] ∧ value <:+ line ∧ ∀ c ∈ value.head?, isSpace c = false := by
  rw [directiveOfTrimmed] at h
  by_cases hcomment : line = [] ∨ line.head? = some HASH
  · rw [if_pos hcomment] at h
    cases h
  rw [if_neg hcomment] at h
  by_cases hcontrol : line.head? = some PERCENT
  · rw [if_pos hcontrol] at h
    cases h
  rw [if_neg hcontrol] at h
  dsimp only at h
  split at h
  · cases h
  · rename_i hmalformed
    cases h
    refine ⟨(not_or.mp hmalformed).2, (List.dropWhile_suffix _).trans (List.drop_suffix _ _), ?_⟩
    intro c hc
    have hnot := List.head?_dropWhile_not isSpace
      (line.drop ((line.takeWhile (· ≠ COLON)).length + 1))
    rw [Option.mem_def.mp hc] at hnot
    exact hnot

theorem isValue_of_directiveOfLine {line keyword value : Bytes} (hline : LF ∉ line)
    (h : directiveOfLine line = some (.parameter keyword value)) : IsValue value := by
  obtain ⟨hne, hsuffix, hfirst⟩ := directiveOfTrimmed_parameter h
  have hmem : ∀ c ∈ value, c ∈ cString line := fun c hc =>
    (List.dropWhile_suffix _).subset ((List.rdropWhile_prefix _ _).subset (hsuffix.subset hc))
  refine ⟨⟨fun hLF => hline (mem_cString (hmem _ hLF)),
    fun hNUL => zero_not_mem_cString line (hmem _ hNUL)⟩, hne, hfirst, ?_⟩
  intro c hc
  apply getLast_trim (cString line)
  rw [List.getLast?_eq_some_getLast hne, hsuffix.getLast hne] at hc
  rwa [List.getLast?_eq_some_getLast (hsuffix.ne_nil hne)]

def meantDirectives (parameters : List (Bytes × Bytes)) : List Directive :=
  .control (ascii "%echo") (ascii "generating key") ::
    parameters.map (fun parameter => .parameter parameter.1 parameter.2) ++
    [.control (ascii "%commit") []]

theorem readParameterFile_eq_iff {parameters : List (Bytes × Bytes)}
    (hkeywords : ∀ parameter ∈ parameters, IsKeyword parameter.1) :
    readParameterFile (parameterFile parameters) =
        meantDirectives parameters ↔
      ∀ parameter ∈ parameters, IsValue parameter.2 := by
  constructor
  · intro h parameter hmem
    have hread : .parameter parameter.1 parameter.2 ∈
        readParameterFile (parameterFile parameters) := by
      rw [h, meantDirectives]
      simp only [List.mem_append, List.mem_cons, List.mem_map]
      exact .inl (.inr ⟨parameter, hmem, rfl⟩)
    obtain ⟨line, hline, hparameter⟩ := List.mem_filterMap.mp hread
    exact isValue_of_directiveOfLine (not_mem_of_mem_getlines hline) hparameter
  · intro hvalues
    have hnoLF : ∀ line ∈ ascii "%echo generating key" :: parameters.map parameterLine ++
        [ascii "%commit"], LF ∉ line := by
      intro line hline
      simp only [List.mem_append, List.mem_cons, List.mem_map, List.not_mem_nil, or_false]
        at hline
      rcases hline with (rfl | ⟨parameter, hmem, rfl⟩) | rfl
      · decide
      · exact LF_not_mem_parameterLine (hkeywords _ hmem) (hvalues _ hmem)
      · decide
    have hecho : directiveOfLine (ascii "%echo generating key") =
        some (.control (ascii "%echo") (ascii "generating key")) := by
      decide
    have hcommit : directiveOfLine (ascii "%commit") = some (.control (ascii "%commit") []) := by
      decide
    rw [readParameterFile, parameterFile, getlines_joinLines hnoLF, List.filterMap_append,
      List.filterMap_cons, hecho, filterMap_parameterLine hkeywords hvalues, List.filterMap_cons,
      hcommit]
    rfl

/-! ### The values that are the wrapper's own -/

theorem letters_digits (n : ℕ) : ∀ c ∈ ascii (toString n), c ≠ 0 ∧ isSpace c = false := by
  intro c hc
  have hdigit := isDigit_of_mem_toString hc
  constructor
  · rintro rfl
    cases hdigit
  · cases hspace : isSpace c with
    | false => rfl
    | true =>
        simp only [isDigit, isSpace, Bool.and_eq_true, Bool.or_eq_true, decide_eq_true_eq,
          UInt8.le_iff_toNat_le] at hdigit hspace
        rcases hspace with rfl | hspace
        · exact absurd hdigit.1 (by decide)
        · exact absurd (hdigit.1.trans hspace.2) (by decide)

theorem isValue_digits (n : ℕ) : IsValue (ascii (toString n)) :=
  isValue_of_letters (toString_ne_nil n) (letters_digits n)

theorem isValue_expireSpec (expirationSeconds : UInt32) : IsValue (expireSpec expirationSeconds) := by
  rw [expireSpec]
  split_ifs
  · decide
  · apply isValue_of_letters
    · exact List.append_ne_nil_of_left_ne_nil (by decide) _
    · intro c hc
      rcases List.mem_append.mp hc with hc | hc
      · have hseconds : ∀ c ∈ ascii "seconds=", c ≠ 0 ∧ isSpace c = false := by
          decide +kernel
        exact hseconds c hc
      · exact letters_digits _ c hc

theorem keyParameters_ok (isEcc : Bool) (rsaKeyBits : ℕ) :
    ∀ parameter ∈ keyParameters isEcc rsaKeyBits, IsKeyword parameter.1 ∧ IsValue parameter.2 := by
  cases isEcc with
  | true =>
      rw [keyParameters, if_pos rfl]
      decide
  | false =>
      have hbits := isValue_digits rsaKeyBits
      have hlength : IsKeyword (ascii "Key-Length") ∧ IsKeyword (ascii "Subkey-Length") := by
        decide
      rw [keyParameters, if_neg Bool.false_ne_true]
      intro parameter hmem
      simp only [List.mem_cons, List.not_mem_nil, or_false] at hmem
      rcases hmem with rfl | rfl | rfl | rfl | rfl | rfl
      · exact ⟨by decide, by decide⟩
      · exact ⟨hlength.1, hbits⟩
      · exact ⟨by decide, by decide⟩
      · exact ⟨by decide, by decide⟩
      · exact ⟨hlength.2, hbits⟩
      · exact ⟨by decide, by decide⟩

/-! ### What is meant -/

/-- The call is refused before gpg is run, or gpg reads what is meant. -/
def Carries {α : Type} (script : Except Failure Bytes) (read : Bytes → α) (meant : α) : Prop :=
  ∀ text, script = .ok text → read text = meant

def meantRevocation (password : Bytes) (reasonCode : UInt8) (reasonText : Bytes) :
    RevocationAnswers where
  create := ascii "y"
  reason := ascii (toString (mapRevocationReasonToGpgMenu reasonCode))
  description := if reasonText = [] then [] else [sanitizeSingleLine reasonText]
  okay := ascii "y"
  passphrase := password
  unread := []

/-- gpg and its home directory are there. -/
def Impl.Ready (s : Impl) : Prop := s.gpgFound = true ∧ s.homeDirReady = true

def AcceptsGeneration (isEcc : Bool) (userId password : Bytes) (s : Impl) : Prop :=
  userId ≠ [] ∧ password ≠ [] ∧ (isEcc = true ∨ s.rsaKeyBits ∈ [1024, 2048, 3072, 4096]) ∧ s.Ready

theorem generateKeyPairScript_eq_ok_iff {isEcc : Bool} {userId password text : Bytes}
    {expirationSeconds : UInt32} {s : Impl} :
    generateKeyPairScript isEcc userId password expirationSeconds s = .ok text ↔
      AcceptsGeneration isEcc userId password s ∧
        parameterFile (batchParameters isEcc s.rsaKeyBits userId password expirationSeconds) =
          text := by
  rw [generateKeyPairScript, AcceptsGeneration, Impl.Ready]
  split_ifs with hempty hbits hgpg hhome
  · exact iff_of_false (fun h => by cases h) fun h => hempty.elim h.1.1 h.1.2.1
  · rw [Bool.and_eq_true, Bool.not_eq_true', decide_eq_true_eq] at hbits
    refine iff_of_false (fun h => by cases h) fun h => h.1.2.2.1.elim ?_ hbits.2
    rw [hbits.1]
    exact Bool.false_ne_true
  · exact iff_of_false (fun h => by cases h) fun h => by simp [h.1.2.2.2.1] at hgpg
  · exact iff_of_false (fun h => by cases h) fun h => by simp [h.1.2.2.2.2] at hhome
  · rw [not_or] at hempty
    rw [Except.ok.injEq]
    refine (and_iff_right ⟨hempty.1, hempty.2, ?_, by simpa using hgpg, by simpa using hhome⟩).symm
    cases isEcc with
    | true => exact .inl rfl
    | false =>
        rw [Bool.not_false, Bool.true_and, decide_eq_true_eq, not_not] at hbits
        exact .inr hbits

theorem generateKeyPairScript_carries_iff (isEcc : Bool) (userId password : Bytes)
    (expirationSeconds : UInt32) (s : Impl) :
    Carries (generateKeyPairScript isEcc userId password expirationSeconds s) readParameterFile
        (meantDirectives
          (batchParameters isEcc s.rsaKeyBits userId password expirationSeconds)) ↔
      (AcceptsGeneration isEcc userId password s →
        IsValue (parseUserIdNameEmail userId).1 ∧ IsValue (parseUserIdNameEmail userId).2 ∧
          IsValue password) := by
  have hkeywords : ∀ parameter ∈ batchParameters isEcc s.rsaKeyBits userId password
      expirationSeconds, IsKeyword parameter.1 := by
    have hnames : ∀ keyword ∈ [ascii "Name-Real", ascii "Name-Email", ascii "Expire-Date",
        ascii "Passphrase"], IsKeyword keyword := by
      decide
    intro parameter hmem
    rcases List.mem_append.mp hmem with hmem | hmem
    · exact (keyParameters_ok _ _ parameter hmem).1
    · exact hnames _ (List.mem_map_of_mem hmem)
  have hvalues : (∀ parameter ∈ batchParameters isEcc s.rsaKeyBits userId password
      expirationSeconds, IsValue parameter.2) ↔
      IsValue (parseUserIdNameEmail userId).1 ∧ IsValue (parseUserIdNameEmail userId).2 ∧
          IsValue password := by
    have hkey : ∀ parameter ∈ keyParameters isEcc s.rsaKeyBits, IsValue parameter.2 :=
      fun parameter hmem => (keyParameters_ok _ _ parameter hmem).2
    rw [batchParameters, List.forall_mem_append, and_iff_right hkey]
    simp [isValue_expireSpec]
  rw [← hvalues, ← readParameterFile_eq_iff hkeywords]
  constructor
  · intro h haccepts
    exact h _ (generateKeyPairScript_eq_ok_iff.mpr ⟨haccepts, rfl⟩)
  · intro h text htext
    obtain ⟨haccepts, rfl⟩ := generateKeyPairScript_eq_ok_iff.mp htext
    exact h haccepts

/-! ### Prompts -/

theorem sanitizeSingleLine_eq_nil_iff {text : Bytes} : sanitizeSingleLine text = [] ↔ text = [] :=
  List.map_eq_nil_iff

theorem LF_not_mem_sanitizeSingleLine (text : Bytes) : LF ∉ sanitizeSingleLine text := by
  intro hmem
  obtain ⟨c, -, hc⟩ := List.mem_map.mp hmem
  split_ifs at hc with hbreak
  · cases hc
  · exact hbreak (.inl hc)

theorem zero_mem_sanitizeSingleLine {text : Bytes} : 0 ∈ sanitizeSingleLine text ↔ 0 ∈ text := by
  constructor
  · intro hmem
    obtain ⟨c, hc, heq⟩ := List.mem_map.mp hmem
    split_ifs at heq
    · cases heq
    · rwa [← heq]
  · intro hmem
    exact List.mem_map.mpr ⟨0, hmem, by decide⟩

theorem isBlankLine_sanitizeSingleLine (text : Bytes) :
    isBlankLine (sanitizeSingleLine text) = isBlankLine text := by
  rw [isBlankLine, sanitizeSingleLine, List.all_map, isBlankLine]
  congr 1
  funext c
  rw [Function.comp_apply]
  split_ifs with hbreak
  · rcases hbreak with rfl | rfl <;> rfl
  · rfl

/-- A reason text that a line can hold. -/
structure IsReason (text : Bytes) : Prop where
  noNUL : 0 ∉ text
  notBlank : isBlankLine text = false

theorem revocationAnswers_mem {answers : List Bytes} {revocation : RevocationAnswers}
    (h : revocationAnswers answers = some revocation) :
    revocation.passphrase ∈ answers ∧
      ∀ line ∈ revocation.description, line ∈ answers ∧ isBlankLine line = false := by
  match answers with
  | create :: reason :: answers =>
    rw [revocationAnswers] at h
    split at h
    · rename_i blank okay passphrase unread hdrop
      cases h
      constructor
      · have hmem : passphrase ∈ answers.dropWhile (!isBlankLine ·) := by
          rw [hdrop]
          simp
        exact List.mem_cons_of_mem _ (List.mem_cons_of_mem _
          ((List.dropWhile_suffix _).subset hmem))
      · intro line hline
        refine ⟨List.mem_cons_of_mem _ (List.mem_cons_of_mem _
          ((List.takeWhile_sublist _).subset hline)), ?_⟩
        simpa using List.mem_takeWhile_imp hline
    · cases h

theorem isAnswer_revocationLines {password menuChoice reasonText : Bytes}
    (hmenu : IsAnswer menuChoice) (hpassword : IsAnswer password)
    (hreason : reasonText = [] ∨ IsAnswer reasonText) :
    ∀ line ∈ revocationLines password menuChoice reasonText, IsAnswer line := by
  have hyes : IsAnswer (ascii "y") ∧ IsAnswer [] := by
    decide
  rw [revocationLines]
  intro line hline
  simp only [List.mem_append, List.mem_cons, List.not_mem_nil, or_false] at hline
  rcases hline with ((rfl | rfl) | hline) | rfl | rfl | rfl
  · exact hyes.1
  · exact hmenu
  · split_ifs at hline with hempty
    · cases hline
    · rw [List.mem_singleton.mp hline]
      exact hreason.resolve_left hempty
  · exact hyes.2
  · exact hyes.1
  · exact hpassword

theorem revocationAnswers_lines {menuChoice password reasonText : Bytes}
    (hreason : reasonText = [] ∨ isBlankLine reasonText = false) :
    revocationAnswers (revocationLines password menuChoice reasonText) =
      some { create := ascii "y", reason := menuChoice,
             description := if reasonText = [] then [] else [reasonText], okay := ascii "y",
             passphrase := password, unread := [] } := by
  have hnil : isBlankLine [] = true := rfl
  by_cases hempty : reasonText = []
  · simp [hempty, revocationLines, revocationAnswers, hnil]
  · have hblank : isBlankLine reasonText = false := hreason.resolve_left hempty
    simp [hempty, revocationLines, revocationAnswers, hnil, hblank]

def AcceptsRevocation (password : Bytes) (s : Impl) : Prop :=
  s.ownKeyGenerated = true ∧ password ≠ [] ∧ s.Ready

theorem revokeKeyScript_eq_ok_iff {password reasonText text : Bytes} {reasonCode : UInt8}
    {s : Impl} :
    revokeKeyScript password reasonCode reasonText s = .ok text ↔
      AcceptsRevocation password s ∧
        joinLines (revocationLines password
          (ascii (toString (mapRevocationReasonToGpgMenu reasonCode)))
          (sanitizeSingleLine reasonText)) = text := by
  rw [revokeKeyScript, AcceptsRevocation, Impl.Ready]
  split_ifs with hown hempty hgpg hhome
  · exact iff_of_false (fun h => by cases h) fun h => by simp [h.1.1] at hown
  · exact iff_of_false (fun h => by cases h) fun h => h.1.2.1 hempty
  · exact iff_of_false (fun h => by cases h) fun h => by simp [h.1.2.2.1] at hgpg
  · exact iff_of_false (fun h => by cases h) fun h => by simp [h.1.2.2.2] at hhome
  · rw [Except.ok.injEq]
    exact (and_iff_right ⟨by simpa using hown, hempty, by simpa using hgpg,
      by simpa using hhome⟩).symm

theorem revokeKeyScript_carries_iff (password reasonText : Bytes) (reasonCode : UInt8)
    (s : Impl) :
    Carries (revokeKeyScript password reasonCode reasonText s)
        (fun text => revocationAnswers (readAnswers text))
        (some (meantRevocation password reasonCode reasonText)) ↔
      (AcceptsRevocation password s →
        IsAnswer password ∧ (reasonText = [] ∨ IsReason reasonText)) := by
  constructor
  · intro h haccepts
    have hread := h _ (revokeKeyScript_eq_ok_iff.mpr ⟨haccepts, rfl⟩)
    obtain ⟨hpassphrase, hdescription⟩ := revocationAnswers_mem hread
    refine ⟨isAnswer_of_mem_readAnswers hpassphrase, ?_⟩
    by_cases hreason : reasonText = []
    · exact .inl hreason
    · right
      have hline : sanitizeSingleLine reasonText ∈
          (meantRevocation password reasonCode reasonText).description := by
        simp [meantRevocation, hreason]
      obtain ⟨hmem, hblank⟩ := hdescription _ hline
      have hanswer := isAnswer_of_mem_readAnswers hmem
      exact ⟨fun hNUL => hanswer.noNUL (zero_mem_sanitizeSingleLine.mpr hNUL),
        (isBlankLine_sanitizeSingleLine _).symm.trans hblank⟩
  · intro h text htext
    obtain ⟨haccepts, rfl⟩ := revokeKeyScript_eq_ok_iff.mp htext
    obtain ⟨hpassword, hreason⟩ := h haccepts
    have hblank : sanitizeSingleLine reasonText = [] ∨
        isBlankLine (sanitizeSingleLine reasonText) = false := by
      rw [sanitizeSingleLine_eq_nil_iff, isBlankLine_sanitizeSingleLine]
      exact hreason.imp_right IsReason.notBlank
    have htext : sanitizeSingleLine reasonText = [] ∨ IsAnswer (sanitizeSingleLine reasonText) := by
      rw [sanitizeSingleLine_eq_nil_iff]
      exact hreason.imp_right fun hreason => ⟨LF_not_mem_sanitizeSingleLine _, fun hNUL =>
        hreason.noNUL (zero_mem_sanitizeSingleLine.mp hNUL)⟩
    have hmenu := (isValue_digits (mapRevocationReasonToGpgMenu reasonCode)).toIsAnswer
    show revocationAnswers (readAnswers _) = _
    rw [readAnswers_joinLines (isAnswer_revocationLines hmenu hpassword htext),
      revocationAnswers_lines hblank, meantRevocation]
    simp only [sanitizeSingleLine_eq_nil_iff]

def AcceptsPasswords (oldPassword newPassword : Bytes) (s : Impl) : Prop :=
  s.ownKeyGenerated = true ∧ oldPassword ≠ [] ∧ newPassword ≠ [] ∧ s.Ready

theorem changePassphraseScript_eq_ok_iff {oldPassword newPassword text : Bytes} {s : Impl} :
    changePassphraseScript oldPassword newPassword s = .ok text ↔
      AcceptsPasswords oldPassword newPassword s ∧
        joinLines [oldPassword, newPassword, newPassword] = text := by
  rw [changePassphraseScript, AcceptsPasswords, Impl.Ready]
  split_ifs with hempty hgpg hhome
  · exact iff_of_false (fun h => by cases h) fun h => by simp [h.1.1, h.1.2.1, h.1.2.2.1] at hempty
  · exact iff_of_false (fun h => by cases h) fun h => by simp [h.1.2.2.2.1] at hgpg
  · exact iff_of_false (fun h => by cases h) fun h => by simp [h.1.2.2.2.2] at hhome
  · rw [not_or, not_or] at hempty
    rw [Except.ok.injEq]
    exact (and_iff_right ⟨by simpa using hempty.1, hempty.2.1, hempty.2.2, by simpa using hgpg,
      by simpa using hhome⟩).symm

theorem changePassphraseScript_carries_iff (oldPassword newPassword : Bytes) (s : Impl) :
    Carries (changePassphraseScript oldPassword newPassword s) readAnswers
        [oldPassword, newPassword, newPassword] ↔
      (AcceptsPasswords oldPassword newPassword s →
        IsAnswer oldPassword ∧ IsAnswer newPassword) := by
  constructor
  · intro h haccepts
    have hread := h _ (changePassphraseScript_eq_ok_iff.mpr ⟨haccepts, rfl⟩)
    constructor
    · apply isAnswer_of_mem_readAnswers
      rw [hread]
      simp
    · apply isAnswer_of_mem_readAnswers
      rw [hread]
      simp
  · intro h text htext
    obtain ⟨haccepts, rfl⟩ := changePassphraseScript_eq_ok_iff.mp htext
    apply readAnswers_joinLines
    simpa using h haccepts

/-- The three scripts: gpg reads what is meant, or the call is refused, if and only if no value
that is spliced into a line has a line feed or a NUL in it, none that goes into the parameter
file begins or ends with white space, and a reason text is empty or not blank. -/
theorem scripts_carry_values (s : Impl) :
    (∀ isEcc userId password expirationSeconds,
      Carries (generateKeyPairScript isEcc userId password expirationSeconds s) readParameterFile
          (meantDirectives
            (batchParameters isEcc s.rsaKeyBits userId password expirationSeconds)) ↔
        (AcceptsGeneration isEcc userId password s →
          IsValue (parseUserIdNameEmail userId).1 ∧ IsValue (parseUserIdNameEmail userId).2 ∧
            IsValue password)) ∧
    (∀ password reasonCode reasonText,
      Carries (revokeKeyScript password reasonCode reasonText s)
          (fun text => revocationAnswers (readAnswers text))
          (some (meantRevocation password reasonCode reasonText)) ↔
        (AcceptsRevocation password s →
          IsAnswer password ∧ (reasonText = [] ∨ IsReason reasonText))) ∧
    ∀ oldPassword newPassword,
      Carries (changePassphraseScript oldPassword newPassword s) readAnswers
          [oldPassword, newPassword, newPassword] ↔
        (AcceptsPasswords oldPassword newPassword s →
          IsAnswer oldPassword ∧ IsAnswer newPassword) :=
  ⟨fun isEcc userId password expirationSeconds =>
      generateKeyPairScript_carries_iff isEcc userId password expirationSeconds s,
    fun password reasonCode reasonText =>
      revokeKeyScript_carries_iff password reasonText reasonCode s,
    fun oldPassword newPassword => changePassphraseScript_carries_iff oldPassword newPassword s⟩

/-- An ordinary user ID and password. -/
theorem scripts_carry_values_alice :
    Carries (generateKeyPairScript true (ascii "Alice <alice@example.org>") (ascii "secret") 0 {})
      readParameterFile (meantDirectives
        (batchParameters true 2048 (ascii "Alice <alice@example.org>") (ascii "secret") 0)) := by
  apply ((scripts_carry_values {}).1 true _ _ 0).mpr
  intro _
  exact ⟨by decide, by decide, by decide⟩

/-- A user ID that leaves the secret key unprotected, a blank reason text that makes gpg take
the answer `y` for the passphrase, and a new password of two lines. -/
theorem values_that_shift_scripts :
    (∃ text, generateKeyPairScript true (ascii "Alice\n%no-protection") (ascii "secret") 0 {} =
        .ok text ∧ .control (ascii "%no-protection") [] ∈ readParameterFile text ∧
          readParameterFile text ≠
            meantDirectives (batchParameters true 2048 (ascii "Alice\n%no-protection")
              (ascii "secret") 0)) ∧
      (∃ text, revokeKeyScript (ascii "secret") 0 (ascii " ") { ownKeyGenerated := true } =
        .ok text ∧ (revocationAnswers (readAnswers text)).map (·.passphrase) = some (ascii "y") ∧
          revocationAnswers (readAnswers text) ≠
            some (meantRevocation (ascii "secret") 0 (ascii " "))) ∧
      ∃ text, changePassphraseScript (ascii "old") (ascii "new\nline") { ownKeyGenerated := true } =
        .ok text ∧ readAnswers text = [ascii "old", ascii "new", ascii "line", ascii "new",
          ascii "line"] :=
  ⟨⟨_, rfl, by decide, by decide⟩, ⟨_, rfl, by decide, by decide⟩,
    ⟨_, rfl, by decide⟩⟩

end HashCryptoLib.Wrapper
