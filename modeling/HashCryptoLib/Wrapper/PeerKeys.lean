import HashCryptoLib.Wrapper.OutputLines
import Mathlib.Data.Set.Insert

/-!
The list of imported peer keys beside gpg's own keyring. An import puts the key at the end of
the list whether it is in it or not, a deletion takes one entry out; the two agree with the
keyring as long as no key is imported that the list still has, and no line of gpg's output that
quotes a user ID is taken for the line that names the key.
-/

namespace HashCryptoLib.Wrapper

open Pgp (ascii LF Status Failure fail)
open Pgp.Status

section Calls

variable {World : Type} (gpg : Gpg World)

/-! ### The calls -/

def importArgs (base : List Bytes) (path : Bytes) : List Bytes :=
  base ++ [ascii "--status-fd", ascii "1", ascii "--import", path]

def showArgs (base : List Bytes) (path : Bytes) : List Bytes :=
  base ++ [ascii "--with-colons", ascii "--show-keys", path]

def deleteKeyArgs (base : List Bytes) (id : Bytes) : List Bytes := base ++ [ascii "--delete-key", id]

/-- The key ID of a key that gpg had already. -/
def shownKeyId (showResult : GpgProcessResult) : Except Failure Bytes :=
  if !showResult.started then fail INVALID_DATA
  else
    match findFirstFingerprintInColonOutput showResult.output with
    | none => fail INVALID_DATA
    | some fingerprint =>
      let derivedKeyId := keyIdFromFingerprint fingerprint
      if derivedKeyId.length = 16 then .ok derivedKeyId else fail INVALID_DATA

/-- What follows in `importPeerPublicKeyCommon` once the key block is in a file. -/
def importFile (base : List Bytes) (path : Bytes) (w : World) : Except Failure Bytes × World :=
  let (result, w) := gpg.runGpgProcess (importArgs base path) [] w
  if !result.started then (fail UNEXPECTED_ERROR, w)
  else
    match findFirstImportedKeyId result.output with
    | some keyId => (.ok keyId, w)
    | none =>
      if result.exitCode ≠ 0 then (fail UNEXPECTED_ERROR, w)
      else (gpg.runGpgProcess (showArgs base path) [] w).map shownKeyId id

def importPeerPublicKeyCommon (keyBlock : Bytes) (s : Impl) (w : World) :
    Except Failure Bytes × Impl × World :=
  if keyBlock = [] then (fail INVALID_ARGUMENT, s, w)
  else if !s.gpgFound then (fail NOT_IMPLEMENTED, s, w)
  else if !s.homeDirReady then (fail UNEXPECTED_ERROR, s, w)
  else
    let (path, s) := s.makeTempPath (ascii ".key")
    let (good, w) := gpg.writeAllBytesToFile path keyBlock w
    if !good then (fail FILE_IO_ERROR, s, w)
    else
      let (outcome, w) := importFile gpg s.baseArgs path w
      (outcome, s, gpg.remove path w)

def ImportPeerPublicKey (keyBlock : Bytes) (s : Impl) (w : World) : Status × Impl × World :=
  match importPeerPublicKeyCommon gpg keyBlock s w with
  | (.error failure, s, w) => (failure.1, s, w)
  | (.ok newKeyId, s, w) => (NO_ERROR, { s with peerKeyIds := s.peerKeyIds ++ [newKeyId] }, w)

def DeletePeerPublicKey (keyId : Bytes) (s : Impl) (w : World) : Status × Impl × World :=
  if keyId = [] then (INVALID_ARGUMENT, s, w)
  else
    let id := keyId.map toupper
    if s.ownKeyGenerated && id = s.ownKeyId then (INVALID_ARGUMENT, s, w)
    else if !s.gpgFound then (NOT_IMPLEMENTED, s, w)
    else if !s.homeDirReady then (UNEXPECTED_ERROR, s, w)
    else
      let (result, w) := gpg.runGpgProcess (deleteKeyArgs s.baseArgs id) [] w
      if !result.started || result.exitCode ≠ 0 then (UNEXPECTED_ERROR, s, w)
      else (NO_ERROR, { s with peerKeyIds := s.peerKeyIds.erase id }, w)

/-- The recipients that `EncryptBuffer` encrypts to. -/
def EncryptBuffer_recipients (s : Impl) : Except Status (List Bytes) :=
  match s.peerKeyIds.getLast? with
  | none => .error INVALID_ARGUMENT
  | some peerKeyId => .ok [peerKeyId]

/-! ### Runs -/

inductive PeerCall
  | importPeerPublicKey (keyBlock : Bytes)
  | deletePeerPublicKey (keyId : Bytes)

def PeerCall.perform : PeerCall → Impl × World → Status × Impl × World
  | .importPeerPublicKey keyBlock, (s, w) => ImportPeerPublicKey gpg keyBlock s w
  | .deletePeerPublicKey keyId, (s, w) => DeletePeerPublicKey gpg keyId s w

/-- A version 4 fingerprint, as gpg prints it. -/
abbrev Fingerprint :=
  { digits : Bytes // digits.length = 40 ∧ ∀ c ∈ digits, c ∈ ascii "0123456789ABCDEF" }

/-- The last sixteen digits. -/
def Fingerprint.keyId (fingerprint : Fingerprint) : Bytes := fingerprint.1.drop 24

section Keys

-- the key in a block of one key
variable (keyOf : Bytes → Option Fingerprint)

/-- The keys imported and not deleted since, after one more call. -/
def PeerCall.held (call : PeerCall) (keys : Set Bytes) : Set Bytes :=
  match call with
  | .importPeerPublicKey keyBlock => { id | ∃ key ∈ keyOf keyBlock, key.keyId = id } ∪ keys
  | .deletePeerPublicKey keyId => keys \ {keyId.map toupper}

/-- The state after some calls, and the keys imported and not deleted since the start. -/
def afterCalls (calls : List PeerCall) (start : Impl × World) : (Impl × World) × Set Bytes :=
  calls.foldl (fun (state, keys) call => ((call.perform gpg state).2, call.held keyOf keys))
    (start, ∅)

/-- Sixteen hexadecimal digits, as gpg and the wrapper print a key ID. -/
def IsKeyId (id : Bytes) : Prop := id.length = 16 ∧ ∀ c ∈ id, c ∈ ascii "0123456789ABCDEF"

/-- Calls that all succeed, each import one of a key, with keys deleted by key IDs in either
letter case. -/
structure Succeeds (calls : List PeerCall) (start : Impl × World) : Prop where
  status : ∀ done call, done ++ [call] <+: calls →
    (call.perform gpg (afterCalls gpg keyOf done start).1).1 = NO_ERROR
  keyBlock : ∀ keyBlock, .importPeerPublicKey keyBlock ∈ calls → ∃ key, keyOf keyBlock = some key
  keyId : ∀ keyId, .deletePeerPublicKey keyId ∈ calls → IsKeyId (keyId.map toupper)

/-- What a status line of an import tells: it names the key, or it is of another kind. -/
def StatusOf (id : Bytes) (text : LineText) : Prop :=
  (∃ digits userId, text.1 = ascii "IMPORTED " ++ digits ++ SPACE :: userId ∧
    digits.map toupper = id) ∨
  ¬ IMPORTED_MARKER <:+: (OutputLine.status text).bytes

/-- A listing of this key. -/
def ListingOf (key : Fingerprint) (output : Bytes) : Prop :=
  ∃ before rest, output = joinLines (before ++ fprRecord key.1 :: rest) ∧
    (∀ line ∈ before ++ fprRecord key.1 :: rest, LF ∉ line) ∧
    ∀ line ∈ before, ¬ ascii "fpr:" <+: line

/-- The file holds the block: nothing has run since it was written. -/
def JustWritten (path keyBlock : Bytes) (w : World) : Prop :=
  ∃ before, gpg.writeAllBytesToFile path keyBlock before = (true, w)

/-- What is assumed of gpg and its keyring. A block of one key is imported, and nothing else
leaves the keyring; `printed` is what it prints meanwhile, of which the status lines name the
key or say something else. The listing of such a block shows its fingerprint. A key that is
deleted by its key ID is no longer there, and all others are. -/
structure KeepsKeyring (base : List Bytes) (keyring : World → Set Bytes)
    (printed : Bytes → World → List OutputLine) : Prop where
  written : ∀ path data w, keyring (gpg.writeAllBytesToFile path data w).2 = keyring w
  removed : ∀ path w, keyring (gpg.remove path w) = keyring w
  output : ∀ path w,
    (gpg.runGpgProcess (importArgs base path) [] w).1.output = combined (printed path w)
  status : ∀ path keyBlock w key, keyOf keyBlock = some key → JustWritten gpg path keyBlock w →
    ∀ text, .status text ∈ printed path w → StatusOf key.keyId text
  imported : ∀ path keyBlock w key, keyOf keyBlock = some key → JustWritten gpg path keyBlock w →
    (gpg.runGpgProcess (importArgs base path) [] w).1.started = true →
    insert key.keyId (keyring w) ⊆ keyring (gpg.runGpgProcess (importArgs base path) [] w).2
  listed : ∀ path keyBlock w key, keyOf keyBlock = some key → JustWritten gpg path keyBlock w →
    let w' := (gpg.runGpgProcess (importArgs base path) [] w).2
    (gpg.runGpgProcess (showArgs base path) [] w').1.started = true →
    ListingOf key (gpg.runGpgProcess (showArgs base path) [] w').1.output
  shown : ∀ path w, keyring (gpg.runGpgProcess (showArgs base path) [] w).2 = keyring w
  deleted : ∀ id w, IsKeyId id →
    (gpg.runGpgProcess (deleteKeyArgs base id) [] w).1.exitCode = 0 →
    keyring (gpg.runGpgProcess (deleteKeyArgs base id) [] w).2 = keyring w \ {id}

end Keys

/-- No diagnostic line makes the wrapper name another key: where one is the first line with a
key ID in it, the key ID is this one. -/
def NamesKey (id : Bytes) (lines : List OutputLine) : Prop :=
  ∀ before line after, lines = before ++ line :: after →
    (∀ earlier ∈ before, importedKeyIdOfLine earlier.bytes = none) → line.isStatus = false →
    ∀ named, importedKeyIdOfLine line.bytes = some named → named = id

/-- What gpg prints during an import. -/
def printedAtImport (printed : Bytes → World → List OutputLine) (keyBlock : Bytes)
    (state : Impl × World) : List OutputLine :=
  let path := (state.1.makeTempPath (ascii ".key")).1
  printed path (gpg.writeAllBytesToFile path keyBlock state.2).2

/-- The list has every key that was imported and not deleted since, once, and the key that a
message is encrypted to is in the keyring. -/
structure Mirrors (keyring : World → Set Bytes) (state : (Impl × World) × Set Bytes) : Prop where
  nodup : state.1.1.peerKeyIds.Nodup
  mem_iff : ∀ id, id ∈ state.1.1.peerKeyIds ↔ id ∈ state.2
  recipients : ∀ recipients, EncryptBuffer_recipients state.1.1 = .ok recipients →
    ∀ recipient ∈ recipients, recipient ∈ keyring state.1.2

/-! ### The key that is named -/

theorem importedKeyIdOfLine_unmarked {line : Bytes} (h : ¬ IMPORTED_MARKER <:+: line) :
    importedKeyIdOfLine line = none := by
  have hnone : Search.find IMPORTED_MARKER line = none :=
    Option.not_isSome_iff_eq_none.mp (mt Search.find_isSome_iff.mp h)
  rw [importedKeyIdOfLine, hnone]

theorem Fingerprint.isKeyId (key : Fingerprint) : IsKeyId key.keyId := by
  constructor
  · rw [Fingerprint.keyId, List.length_drop, key.2.1]
  · intro c hc
    exact key.2.2 c (List.mem_of_mem_drop hc)

/-- The status line of an import names the key. -/
theorem importedKeyIdOfLine_imported {id digits userId : Bytes} {text : LineText}
    (hid : IsKeyId id) (htext : text.1 = ascii "IMPORTED " ++ digits ++ SPACE :: userId)
    (hdigits : digits.map toupper = id) :
    importedKeyIdOfLine (OutputLine.status text).bytes = some id := by
  have hline : (OutputLine.status text).bytes =
      IMPORTED_MARKER ++ (digits ++ SPACE :: userId) := by
    rw [OutputLine.bytes, htext, List.append_assoc, ← List.append_assoc]
    rfl
  have hspace : ∀ c ∈ digits, decide (c ≠ SPACE) = true := by
    intro c hc
    rw [decide_eq_true_iff]
    rintro rfl
    have hmem : toupper SPACE ∈ id := hdigits ▸ List.mem_map_of_mem hc
    have hdigit := hid.2 _ hmem
    revert hdigit
    decide
  have hlength : digits.length = 16 := by
    rw [← hid.1, ← hdigits, List.length_map]
  have hfind : Search.find IMPORTED_MARKER (OutputLine.status text).bytes = some 0 := by
    rw [hline]
    exact Search.find_append_self ..
  rw [importedKeyIdOfLine, hfind]
  dsimp only
  rw [hline, Nat.zero_add, List.drop_left, List.takeWhile_append_of_pos hspace,
    List.takeWhile_cons_of_neg (by simp), List.append_nil, hdigits, hid.1, if_pos le_rfl]
  rfl

theorem importedKeyIdOfLine_status {id : Bytes} {text : LineText} (hid : IsKeyId id)
    (h : StatusOf id text) {named : Bytes}
    (hnamed : importedKeyIdOfLine (OutputLine.status text).bytes = some named) : named = id := by
  rcases h with ⟨digits, userId, htext, hdigits⟩ | hother
  · rw [importedKeyIdOfLine_imported hid htext hdigits] at hnamed
    exact (Option.some.inj hnamed).symm
  · rw [importedKeyIdOfLine_unmarked hother] at hnamed
    cases hnamed

/-- The wrapper finds no other key than this one exactly if no diagnostic line gives one. -/
theorem namesKey_iff {id : Bytes} {lines : List OutputLine} (hid : IsKeyId id)
    (hstatus : ∀ text, .status text ∈ lines → StatusOf id text) :
    NamesKey id lines ↔
      ∀ named, findFirstImportedKeyId (combined lines) = some named → named = id := by
  rw [findFirstImportedKeyId_combined]
  constructor
  · intro hnames named hnamed
    obtain ⟨before, line, after, hlines, hline, hbefore⟩ := List.findSome?_eq_some_iff.mp hnamed
    cases line with
    | status text =>
        exact importedKeyIdOfLine_status hid (hstatus text (by simp [hlines])) hline
    | diagnostic lead text => exact hnames before _ after hlines hbefore rfl named hline
  · intro hfirst before line after hlines hbefore _ named hnamed
    apply hfirst
    exact List.findSome?_eq_some_iff.mpr ⟨before, line, after, hlines, hnamed, hbefore⟩

/-- Output in which the status lines decide names the key. -/
theorem Benign.namesKey {id : Bytes} {lines : List OutputLine} (h : Benign lines)
    (hid : IsKeyId id) (hstatus : ∀ text, .status text ∈ lines → StatusOf id text) :
    NamesKey id lines := by
  rintro before line after rfl hbefore hdiagnostic named hnamed
  obtain ⟨between, status, rest, hafter, -, hat⟩ :=
    h.keyId before line after rfl hbefore hdiagnostic named hnamed
  have hmem : status ∈ after.filter OutputLine.isStatus := by simp [hafter]
  obtain ⟨hmem, hisStatus⟩ := List.mem_filter.mp hmem
  cases status with
  | status text => exact importedKeyIdOfLine_status hid (hstatus text (by simp [hmem])) hat
  | diagnostic lead text => cases hisStatus

theorem findFirstFingerprint_of_listingOf {key : Fingerprint} {output : Bytes}
    (h : ListingOf key output) : findFirstFingerprintInColonOutput output = some key.1 := by
  obtain ⟨before, rest, rfl, hLF, hbefore⟩ := h
  apply findFirstFingerprint_joinLines hLF hbefore
  · intro hnil
    have hlength := key.2.1
    rw [hnil] at hlength
    cases hlength
  · intro hcolon
    have hdigit := key.2.2 COLON hcolon
    revert hdigit
    decide

theorem keyIdFromFingerprint_fingerprint (key : Fingerprint) :
    keyIdFromFingerprint key.1 = key.keyId := by
  have hupper : ∀ c ∈ ascii "0123456789ABCDEF", toupper c = c := by decide +kernel
  rw [keyIdFromFingerprint, key.2.1, if_neg (by omega)]
  have hkept : ∀ c ∈ key.keyId, toupper c = c := fun c hc => hupper c (key.isKeyId.2 c hc)
  exact (List.map_congr_left hkept).trans (List.map_id' _)

/-! ### One call -/

variable {gpg} {keyOf : Bytes → Option Fingerprint} {keyring : World → Set Bytes}
  {printed : Bytes → World → List OutputLine} {s s' : Impl} {w w' : World} {key : Fingerprint}

theorem shownKeyId_ok {showResult : GpgProcessResult} {id : Bytes}
    (h : shownKeyId showResult = .ok id) : showResult.started = true ∧ ∃ fingerprint,
      findFirstFingerprintInColonOutput showResult.output = some fingerprint ∧
        keyIdFromFingerprint fingerprint = id := by
  rw [shownKeyId] at h
  split_ifs at h with hstarted
  refine ⟨by simpa using hstarted, ?_⟩
  cases hfound : findFirstFingerprintInColonOutput showResult.output with
  | none =>
      rw [hfound] at h
      cases h
  | some fingerprint =>
      rw [hfound] at h
      dsimp only at h
      split_ifs at h
      exact ⟨fingerprint, rfl, Except.ok.inj h⟩

/-- The key is imported, and it is the one that is named unless a diagnostic line names
another. -/
theorem importFile_ok {base : List Bytes} {path keyBlock id : Bytes}
    (hgpg : KeepsKeyring gpg keyOf base keyring printed) (hkey : keyOf keyBlock = some key)
    (hfile : JustWritten gpg path keyBlock w) (h : (importFile gpg base path w).1 = .ok id) :
    insert key.keyId (keyring w) ⊆ keyring (importFile gpg base path w).2 ∧
      (NamesKey key.keyId (printed path w) ↔ id = key.keyId) := by
  have houtput := hgpg.output path w
  have himported := hgpg.imported path keyBlock w key hkey hfile
  have hlisted := hgpg.listed path keyBlock w key hkey hfile
  rw [namesKey_iff key.isKeyId (hgpg.status path keyBlock w key hkey hfile), ← houtput]
  rcases hrun : gpg.runGpgProcess (importArgs base path) [] w with ⟨result, w₁⟩
  rw [hrun] at himported hlisted
  rw [importFile, hrun] at h ⊢
  dsimp only at himported hlisted h ⊢
  cases hstarted : result.started with
  | false => simp [hstarted] at h
  | true =>
      cases hfound : findFirstImportedKeyId result.output with
      | some named =>
          simp only [hstarted, hfound] at h ⊢
          obtain rfl := Except.ok.inj h
          exact ⟨himported hstarted, by simp⟩
      | none =>
          by_cases hexit : result.exitCode = 0
          · simp only [hstarted, hfound, hexit, Bool.not_true, Bool.false_eq_true, if_false, ne_eq,
              not_true_eq_false, Prod.map_fst, Prod.map_snd, id_eq] at h ⊢
            obtain ⟨hshowed, fingerprint, hfingerprint, hid⟩ := shownKeyId_ok h
            rw [findFirstFingerprint_of_listingOf (hlisted hshowed)] at hfingerprint
            rw [← Option.some.inj hfingerprint, keyIdFromFingerprint_fingerprint] at hid
            rw [hgpg.shown]
            exact ⟨himported hstarted, iff_of_true (by simp) hid.symm⟩
          · simp [hstarted, hfound, hexit] at h

theorem importPeerPublicKeyCommon_impl (gpg : Gpg World) (keyBlock : Bytes) (s : Impl) (w : World) :
    (importPeerPublicKeyCommon gpg keyBlock s w).2.1.peerKeyIds = s.peerKeyIds ∧
      (importPeerPublicKeyCommon gpg keyBlock s w).2.1.baseArgs = s.baseArgs := by
  rw [importPeerPublicKeyCommon]
  split_ifs
  · exact ⟨rfl, rfl⟩
  · exact ⟨rfl, rfl⟩
  · exact ⟨rfl, rfl⟩
  · rcases hpath : s.makeTempPath (ascii ".key") with ⟨path, s₁⟩
    have hpeers : s₁.peerKeyIds = s.peerKeyIds := congrArg (fun p => p.2.peerKeyIds) hpath.symm
    have hbase : s₁.baseArgs = s.baseArgs := congrArg (fun p => p.2.baseArgs) hpath.symm
    rcases hwrite : gpg.writeAllBytesToFile path keyBlock w with ⟨good, w₁⟩
    cases good <;> simp [hwrite, hpeers, hbase]

theorem importPeerPublicKeyCommon_ok {keyBlock id : Bytes}
    (hgpg : KeepsKeyring gpg keyOf s.baseArgs keyring printed) (hkey : keyOf keyBlock = some key)
    (h : importPeerPublicKeyCommon gpg keyBlock s w = (.ok id, s', w')) :
    insert key.keyId (keyring w) ⊆ keyring w' ∧
      (NamesKey key.keyId (printedAtImport gpg printed keyBlock (s, w)) ↔ id = key.keyId) := by
  rcases hpath : s.makeTempPath (ascii ".key") with ⟨path, s₁⟩
  have hbase : s₁.baseArgs = s.baseArgs := congrArg (fun p => p.2.baseArgs) hpath.symm
  rcases hwrite : gpg.writeAllBytesToFile path keyBlock w with ⟨good, w₁⟩
  have hwritten := hgpg.written path keyBlock w
  rcases hfile : importFile gpg s.baseArgs path w₁ with ⟨outcome, w₂⟩
  have hok := @importFile_ok _ gpg keyOf keyring printed w₁ key _ path keyBlock id hgpg hkey
  simp only [printedAtImport, hpath, hwrite]
  simp only [importPeerPublicKeyCommon, hpath, hwrite, hbase, hfile] at h hok
  rw [hwrite] at hwritten
  split_ifs at h with hempty hfound hready hgood
  · cases h
  · cases h
  · cases h
  · cases h
  · obtain rfl : good = true := by simpa using hgood
    obtain ⟨rfl, -, rfl⟩ : outcome = .ok id ∧ s₁ = s' ∧ gpg.remove path w₂ = w' := by
      simpa using h
    rw [hgpg.removed, ← hwritten]
    exact hok ⟨w, hwrite⟩ rfl

/-- An import that succeeds puts the key that the wrapper names at the end of the list. -/
theorem ImportPeerPublicKey_ok {keyBlock : Bytes}
    (hgpg : KeepsKeyring gpg keyOf s.baseArgs keyring printed) (hkey : keyOf keyBlock = some key)
    (h : ImportPeerPublicKey gpg keyBlock s w = (NO_ERROR, s', w')) :
    ∃ id, s'.peerKeyIds = s.peerKeyIds ++ [id] ∧ s'.baseArgs = s.baseArgs ∧
      insert key.keyId (keyring w) ⊆ keyring w' ∧
      (NamesKey key.keyId (printedAtImport gpg printed keyBlock (s, w)) ↔ id = key.keyId) := by
  have himpl := importPeerPublicKeyCommon_impl gpg keyBlock s w
  rcases hcommon : importPeerPublicKeyCommon gpg keyBlock s w with ⟨outcome, s₁, w₁⟩
  rw [hcommon] at himpl
  rw [ImportPeerPublicKey, hcommon] at h
  cases outcome with
  | error failure => exact absurd (congrArg Prod.fst h) failure.2
  | ok id =>
      obtain ⟨hpeers, hbase⟩ := himpl
      obtain ⟨rfl, rfl⟩ : { s₁ with peerKeyIds := s₁.peerKeyIds ++ [id] } = s' ∧ w₁ = w' := by
        simpa using h
      exact ⟨id, congrArg (· ++ [id]) hpeers, hbase, importPeerPublicKeyCommon_ok hgpg hkey hcommon⟩

theorem DeletePeerPublicKey_ok {keyId : Bytes}
    (hgpg : KeepsKeyring gpg keyOf s.baseArgs keyring printed)
    (hkeyId : IsKeyId (keyId.map toupper))
    (h : DeletePeerPublicKey gpg keyId s w = (NO_ERROR, s', w')) :
    s'.peerKeyIds = s.peerKeyIds.erase (keyId.map toupper) ∧ s'.baseArgs = s.baseArgs ∧
      keyring w' = keyring w \ {keyId.map toupper} := by
  have hdeleted := hgpg.deleted (keyId.map toupper) w hkeyId
  rcases hrun : gpg.runGpgProcess (deleteKeyArgs s.baseArgs (keyId.map toupper)) [] w with
    ⟨result, w₁⟩
  rw [hrun] at hdeleted
  simp only [DeletePeerPublicKey, hrun] at h
  split_ifs at h with hempty hown hfound hready hresult
  · cases h
  · cases h
  · cases h
  · cases h
  · cases h
  · obtain ⟨rfl, rfl⟩ : { s with peerKeyIds := s.peerKeyIds.erase (keyId.map toupper) } = s' ∧
        w₁ = w' := by
      simpa using h
    refine ⟨rfl, rfl, hdeleted ?_⟩
    simp only [Bool.or_eq_true, Bool.not_eq_eq_eq_not, Bool.not_true, ne_eq, decide_not,
      decide_eq_false_iff_not, not_or, Bool.not_eq_false, not_not] at hresult
    exact hresult.2

/-! ### Whole runs -/

@[simp] theorem afterCalls_nil (start : Impl × World) :
    afterCalls gpg keyOf [] start = (start, ∅) := rfl

theorem afterCalls_concat (done : List PeerCall) (call : PeerCall) (start : Impl × World) :
    afterCalls gpg keyOf (done ++ [call]) start =
      ((call.perform gpg (afterCalls gpg keyOf done start).1).2,
        call.held keyOf (afterCalls gpg keyOf done start).2) := by
  rw [afterCalls, List.foldl_append]
  rfl

theorem Succeeds.nil (start : Impl × World) : Succeeds gpg keyOf [] start where
  status done call h := by simp at h
  keyBlock _ h := by simp at h
  keyId _ h := by simp at h

theorem Succeeds.concat {done : List PeerCall} {call : PeerCall} {start : Impl × World}
    (h : Succeeds gpg keyOf done start)
    (hstatus : (call.perform gpg (afterCalls gpg keyOf done start).1).1 = NO_ERROR)
    (hkeyBlock : ∀ keyBlock, call = .importPeerPublicKey keyBlock →
      ∃ key, keyOf keyBlock = some key)
    (hkeyId : ∀ keyId, call = .deletePeerPublicKey keyId → IsKeyId (keyId.map toupper)) :
    Succeeds gpg keyOf (done ++ [call]) start where
  status earlier other hstarts := by
    rcases List.prefix_concat_iff.mp hstarts with heq | hbefore
    · obtain ⟨rfl, hcall⟩ := List.append_inj' heq rfl
      obtain rfl := List.singleton_inj.mp hcall
      exact hstatus
    · exact h.status earlier other hbefore
  keyBlock keyBlock hmem := by
    rcases List.mem_append.mp hmem with hmem | hmem
    · exact h.keyBlock keyBlock hmem
    · exact hkeyBlock keyBlock (List.mem_singleton.mp hmem).symm
  keyId keyId hmem := by
    rcases List.mem_append.mp hmem with hmem | hmem
    · exact h.keyId keyId hmem
    · exact hkeyId keyId (List.mem_singleton.mp hmem).symm

/-- What a run keeps: the list is the keys that are held, each of them once and in the
keyring. -/
structure Invariant (base : List Bytes) (keyring : World → Set Bytes)
    (state : (Impl × World) × Set Bytes) : Prop where
  baseArgs : state.1.1.baseArgs = base
  nodup : state.1.1.peerKeyIds.Nodup
  mem_iff : ∀ id, id ∈ state.1.1.peerKeyIds ↔ id ∈ state.2
  keyring : state.2 ⊆ keyring state.1.2

theorem Invariant.mirrors {base : List Bytes} {state : (Impl × World) × Set Bytes}
    (h : Invariant base keyring state) : Mirrors keyring state where
  nodup := h.nodup
  mem_iff := h.mem_iff
  recipients := by
    intro recipients hrecipients recipient hmem
    rw [EncryptBuffer_recipients] at hrecipients
    cases hlast : state.1.1.peerKeyIds.getLast? with
    | none =>
        rw [hlast] at hrecipients
        cases hrecipients
    | some peerKeyId =>
        rw [hlast] at hrecipients
        obtain rfl := Except.ok.inj hrecipients
        obtain rfl := List.mem_singleton.mp hmem
        exact h.keyring ((h.mem_iff _).mp (List.mem_of_getLast? hlast))

theorem held_import {keyBlock : Bytes} (hkey : keyOf keyBlock = some key) (keys : Set Bytes) :
    PeerCall.held keyOf (.importPeerPublicKey keyBlock) keys = insert key.keyId keys := by
  ext id
  simp [PeerCall.held, hkey, eq_comm]

/-- An import keeps the invariant if its key is not in the list yet and is the one that is
named. -/
theorem Invariant.step_import {base : List Bytes} {keys : Set Bytes} {keyBlock : Bytes}
    (hgpg : KeepsKeyring gpg keyOf base keyring printed)
    (h : Invariant base keyring ((s, w), keys)) (hkey : keyOf keyBlock = some key)
    (hcall : ImportPeerPublicKey gpg keyBlock s w = (NO_ERROR, s', w'))
    (hnew : key.keyId ∉ s.peerKeyIds)
    (hnames : NamesKey key.keyId (printedAtImport gpg printed keyBlock (s, w))) :
    Invariant base keyring
      ((s', w'), PeerCall.held keyOf (.importPeerPublicKey keyBlock) keys) := by
  obtain rfl : s.baseArgs = base := h.baseArgs
  obtain ⟨id, hpeers, hbase, hkeyring, hid⟩ := ImportPeerPublicKey_ok hgpg hkey hcall
  obtain rfl := hid.mp hnames
  rw [held_import hkey]
  refine ⟨hbase, ?_, ?_, ?_⟩
  · show s'.peerKeyIds.Nodup
    rw [hpeers, List.nodup_append_comm]
    exact List.nodup_cons.mpr ⟨by simpa using hnew, by simpa using h.nodup⟩
  · intro other
    have hmem := h.mem_iff other
    simp only [hpeers] at hmem ⊢
    simp [hmem, or_comm]
  · apply Set.Subset.trans _ hkeyring
    exact Set.insert_subset_insert h.keyring

theorem Invariant.step_delete {base : List Bytes} {keys : Set Bytes} {keyId : Bytes}
    (hgpg : KeepsKeyring gpg keyOf base keyring printed)
    (h : Invariant base keyring ((s, w), keys)) (hkeyId : IsKeyId (keyId.map toupper))
    (hcall : DeletePeerPublicKey gpg keyId s w = (NO_ERROR, s', w')) :
    Invariant base keyring
      ((s', w'), PeerCall.held keyOf (.deletePeerPublicKey keyId) keys) := by
  obtain rfl : s.baseArgs = base := h.baseArgs
  obtain ⟨hpeers, hbase, hkeyring⟩ := DeletePeerPublicKey_ok hgpg hkeyId hcall
  refine ⟨hbase, ?_, ?_, ?_⟩
  · show s'.peerKeyIds.Nodup
    rw [hpeers]
    exact h.nodup.erase _
  · intro other
    have hmem := h.mem_iff other
    simp only [PeerCall.held, hpeers] at hmem ⊢
    rw [h.nodup.mem_erase_iff, hmem]
    simp [and_comm]
  · show keys \ {keyId.map toupper} ⊆ keyring w'
    rw [hkeyring]
    exact Set.sdiff_subset_sdiff_left h.keyring

/-- A call after which the list still mirrors the keyring has named a key that was not in the
list, the one that was imported. -/
theorem fresh_of_mirrors {base : List Bytes} {keys : Set Bytes} {keyBlock : Bytes}
    (hgpg : KeepsKeyring gpg keyOf base keyring printed) (hbase : s.baseArgs = base)
    (hkey : keyOf keyBlock = some key)
    (hcall : ImportPeerPublicKey gpg keyBlock s w = (NO_ERROR, s', w'))
    (hbefore : Mirrors keyring ((s, w), keys))
    (hafter : Mirrors keyring
      ((s', w'), PeerCall.held keyOf (.importPeerPublicKey keyBlock) keys)) :
    key.keyId ∉ s.peerKeyIds ∧
      NamesKey key.keyId (printedAtImport gpg printed keyBlock (s, w)) := by
  subst hbase
  obtain ⟨id, hpeers, -, -, hid⟩ := ImportPeerPublicKey_ok hgpg hkey hcall
  have hnodup : s'.peerKeyIds.Nodup := hafter.nodup
  rw [hpeers, List.nodup_append] at hnodup
  have hnew : id ∉ s.peerKeyIds := fun hmem => hnodup.2.2 id hmem id (by simp) rfl
  -- the entry is held, and was not held before
  have hheld : id ∈ PeerCall.held keyOf (.importPeerPublicKey keyBlock) keys := by
    apply (hafter.mem_iff id).mp
    simp [hpeers]
  rw [held_import hkey] at hheld
  rcases hheld with rfl | hheld
  · exact ⟨hnew, hid.mpr rfl⟩
  · exact absurd ((hbefore.mem_iff id).mpr hheld) hnew

theorem afterCalls_baseArgs {calls : List PeerCall} {start : Impl × World}
    (hgpg : KeepsKeyring gpg keyOf start.1.baseArgs keyring printed)
    (hcalls : Succeeds gpg keyOf calls start) : ∀ done, done <+: calls →
      (afterCalls gpg keyOf done start).1.1.baseArgs = start.1.baseArgs := by
  intro done
  induction done using List.reverseRecOn with
  | nil => exact fun _ => rfl
  | append_singleton done call ih =>
      intro hstarts
      have hbase := ih ((List.prefix_append done [call]).trans hstarts)
      have hstatus := hcalls.status done call hstarts
      rw [afterCalls_concat]
      rcases hstate : (afterCalls gpg keyOf done start).1 with ⟨s, w⟩
      rw [hstate] at hstatus hbase
      rcases hcall : call.perform gpg (s, w) with ⟨status, s', w'⟩
      rw [hcall] at hstatus
      obtain rfl : status = NO_ERROR := hstatus
      rw [← hbase] at hgpg
      cases call with
      | importPeerPublicKey keyBlock =>
          obtain ⟨key, hkey⟩ := hcalls.keyBlock keyBlock (hstarts.subset (by simp))
          obtain ⟨id, -, hkept, -⟩ := ImportPeerPublicKey_ok hgpg hkey hcall
          exact hkept.trans hbase
      | deletePeerPublicKey keyId =>
          have hkeyId := hcalls.keyId keyId (hstarts.subset (by simp))
          exact (DeletePeerPublicKey_ok hgpg hkeyId hcall).2.1.trans hbase

/-- The list mirrors the keyring in every state of a run if and only if no key is imported
while the list still has it, and none with gpg naming another one in its diagnostics. -/
theorem peerKeyIds_mirrors {base : List Bytes} {start : Impl × World} {calls : List PeerCall}
    (hgpg : KeepsKeyring gpg keyOf base keyring printed) (hbase : start.1.baseArgs = base)
    (hstart : start.1.peerKeyIds = []) (hcalls : Succeeds gpg keyOf calls start) :
    (∀ done, done <+: calls → Mirrors keyring (afterCalls gpg keyOf done start)) ↔
      ∀ done keyBlock, done ++ [.importPeerPublicKey keyBlock] <+: calls →
        ∀ key ∈ keyOf keyBlock,
          key.keyId ∉ (afterCalls gpg keyOf done start).1.1.peerKeyIds ∧
            NamesKey key.keyId
              (printedAtImport gpg printed keyBlock (afterCalls gpg keyOf done start).1) := by
  subst hbase
  constructor
  · intro hmirrors done keyBlock hstarts key hkey
    have hearlier := (List.prefix_append done _).trans hstarts
    have hkept := afterCalls_baseArgs hgpg hcalls done hearlier
    have hbefore := hmirrors done hearlier
    have hafter := hmirrors _ hstarts
    have hstatus := hcalls.status _ _ hstarts
    rw [afterCalls_concat] at hafter
    rcases hstate : afterCalls gpg keyOf done start with ⟨⟨s, w⟩, keys⟩
    rw [hstate] at hstatus hbefore hafter hkept
    rcases hcall : ImportPeerPublicKey gpg keyBlock s w with ⟨status, s', w'⟩
    have hperform : PeerCall.perform gpg (.importPeerPublicKey keyBlock) (s, w) =
        (status, s', w') := hcall
    rw [hperform] at hstatus hafter
    obtain rfl : status = NO_ERROR := hstatus
    exact fresh_of_mirrors hgpg hkept hkey hcall hbefore hafter
  · intro hcondition
    have hinvariant : ∀ done, done <+: calls →
        Invariant start.1.baseArgs keyring (afterCalls gpg keyOf done start) := by
      intro done
      induction done using List.reverseRecOn with
      | nil =>
          intro _
          exact ⟨rfl, by simp [hstart], by simp [hstart], by simp⟩
      | append_singleton done call ih =>
          intro hstarts
          have hbefore := ih ((List.prefix_append done [call]).trans hstarts)
          have hstatus := hcalls.status done call hstarts
          rw [afterCalls_concat]
          have hfresh := hcondition done
          rcases hstate : afterCalls gpg keyOf done start with ⟨⟨s, w⟩, keys⟩
          rw [hstate] at hstatus hbefore hfresh
          rcases hcall : call.perform gpg (s, w) with ⟨status, s', w'⟩
          rw [hcall] at hstatus
          obtain rfl : status = NO_ERROR := hstatus
          cases call with
          | importPeerPublicKey keyBlock =>
              obtain ⟨key, hkey⟩ := hcalls.keyBlock keyBlock (hstarts.subset (by simp))
              obtain ⟨hnew, hnames⟩ := hfresh keyBlock hstarts key hkey
              exact hbefore.step_import hgpg hkey hcall hnew hnames
          | deletePeerPublicKey keyId =>
              have hkeyId := hcalls.keyId keyId (hstarts.subset (by simp))
              exact hbefore.step_delete hgpg hkeyId hcall
    exact fun done hstarts => (hinvariant done hstarts).mirrors

end Calls

/-! ### A key imported twice -/

def peerKey : Fingerprint :=
  ⟨ascii "89ABCDEF0123456789ABCDEF0123456789ABCDEF", by decide +kernel⟩

def peerKeyOf (keyBlock : Bytes) : Option Fingerprint :=
  if keyBlock = ascii "key" then some peerKey else none

/-- What gpg prints of the key, if it has it already and if it has not. -/
def peerKeyPrinted (present : Bool) : List OutputLine :=
  if present then [.diagnostic .gpg (lineText "key 1: not changed")]
  else
    [.diagnostic .gpg (lineText "key 1: public key \"Peer\" imported"),
      .status (lineText "IMPORTED 0123456789abcdef Peer <peer@example.org>"),
      .status (lineText "IMPORT_OK 1 89ABCDEF0123456789ABCDEF0123456789ABCDEF")]

/-- gpg with one key to import. The world is whether the keyring has the key. -/
def oneKeyGpg : Gpg Bool where
  runGpgProcess argv _ present :=
    match argv.drop 5 with
    | [_, _, _, _] =>
      ({ started := true, exitCode := 0, output := combined (peerKeyPrinted present) }, true)
    | [_, _, _] =>
      ({ started := true, exitCode := 0, output := joinLines [ascii "pub:-:", fprRecord peerKey.1] },
        present)
    | [_, id] =>
      if present && id = ascii "0123456789ABCDEF" then ({ started := true, exitCode := 0 }, false)
      else ({ started := true, exitCode := 2 }, present)
    | _ => ({}, present)
  writeAllBytesToFile _ _ present := (true, present)
  readAllBytesFromFile _ _ := none
  remove _ present := present

def oneKey (present : Bool) : Set Bytes := { id | present ∧ id = ascii "0123456789ABCDEF" }

theorem peerKeyOf_eq_some {keyBlock : Bytes} {key : Fingerprint}
    (h : peerKeyOf keyBlock = some key) : key = peerKey := by
  rw [peerKeyOf] at h
  split_ifs at h
  exact (Option.some.inj h).symm

theorem peerKey_keyId : peerKey.keyId = ascii "0123456789ABCDEF" := by
  decide +kernel

theorem peerKeyPrinted_status {present : Bool} {text : LineText}
    (h : OutputLine.status text ∈ peerKeyPrinted present) : StatusOf peerKey.keyId text := by
  cases present with
  | true => simp [peerKeyPrinted] at h
  | false =>
      obtain rfl | rfl : text = lineText "IMPORTED 0123456789abcdef Peer <peer@example.org>" ∨
          text = lineText "IMPORT_OK 1 89ABCDEF0123456789ABCDEF0123456789ABCDEF" := by
        simpa [peerKeyPrinted] using h
      · exact .inl ⟨ascii "0123456789abcdef", ascii "Peer <peer@example.org>", by decide +kernel,
          by decide +kernel⟩
      · right
        rw [← contains_eq_false_iff]
        decide +kernel

theorem oneKeyGpg_keepsKeyring : KeepsKeyring oneKeyGpg peerKeyOf ({} : Impl).baseArgs oneKey
    (fun _ present => peerKeyPrinted present) where
  written _ _ _ := rfl
  removed _ _ := rfl
  output _ _ := rfl
  status path keyBlock present key hkey _ text hmem := by
    obtain rfl := peerKeyOf_eq_some hkey
    exact peerKeyPrinted_status hmem
  imported path keyBlock present key hkey _ _ := by
    obtain rfl := peerKeyOf_eq_some hkey
    rw [peerKey_keyId]
    rintro other (rfl | ⟨-, hother⟩)
    · exact ⟨rfl, rfl⟩
    · exact ⟨rfl, hother⟩
  listed path keyBlock present key hkey _ := by
    obtain rfl := peerKeyOf_eq_some hkey
    exact fun _ => ⟨[ascii "pub:-:"], [], rfl, by decide +kernel, by decide +kernel⟩
  shown _ _ := rfl
  deleted := by
    intro id present _ h
    by_cases hkey : (present && id = ascii "0123456789ABCDEF") = true
    · obtain ⟨rfl, rfl⟩ : present = true ∧ id = ascii "0123456789ABCDEF" := by simpa using hkey
      ext other
      simp [oneKeyGpg, deleteKeyArgs, Impl.baseArgs, oneKey]
    · rw [Bool.and_eq_true, decide_eq_true_eq] at hkey
      simp [oneKeyGpg, deleteKeyArgs, Impl.baseArgs, hkey] at h

/-- The key imported, deleted and imported again. -/
def importedAgain : List PeerCall :=
  [.importPeerPublicKey (ascii "key"), .deletePeerPublicKey (ascii "0123456789abcdef"),
    .importPeerPublicKey (ascii "key")]

theorem isKeyId_lower : IsKeyId ((ascii "0123456789abcdef").map toupper) :=
  ⟨by decide +kernel, by decide +kernel⟩

theorem importedAgain_succeeds : Succeeds oneKeyGpg peerKeyOf importedAgain ({}, false) :=
  (((Succeeds.nil _).concat (by decide +kernel) (by simp [peerKeyOf]) (by simp)).concat
    (by decide +kernel) (by simp) (by simpa using isKeyId_lower)).concat
    (by decide +kernel) (by simp [peerKeyOf]) (by simp)

/-- A key that was deleted can be imported again, and messages go to it. -/
theorem peerKeyIds_mirrors_again :
    Mirrors oneKey (afterCalls oneKeyGpg peerKeyOf importedAgain ({}, false)) := by
  refine (peerKeyIds_mirrors oneKeyGpg_keepsKeyring rfl rfl importedAgain_succeeds).mpr ?_ _
    List.prefix_rfl
  intro done keyBlock hstarts key hkey
  obtain rfl := peerKeyOf_eq_some hkey
  have hnames : NamesKey peerKey.keyId (peerKeyPrinted false) := by
    rw [namesKey_iff peerKey.isKeyId fun text => peerKeyPrinted_status]
    decide +kernel
  rcases done with _ | ⟨first, _ | ⟨second, _ | ⟨third, rest⟩⟩⟩
  · exact ⟨by simp, hnames⟩
  · simp [importedAgain] at hstarts
  · obtain ⟨rfl, rfl, -⟩ : first = .importPeerPublicKey (ascii "key") ∧
        second = .deletePeerPublicKey (ascii "0123456789abcdef") ∧ _ := by
      simpa [importedAgain] using hstarts
    exact ⟨by decide +kernel, hnames⟩
  · simp [importedAgain] at hstarts

/-- The same key imported twice and deleted once: messages are still encrypted to it. -/
theorem EncryptBuffer_deleted_key :
    ∃ calls : List PeerCall, Succeeds oneKeyGpg peerKeyOf calls ({}, false) ∧
      EncryptBuffer_recipients (afterCalls oneKeyGpg peerKeyOf calls ({}, false)).1.1 =
        .ok [ascii "0123456789ABCDEF"] ∧
      ascii "0123456789ABCDEF" ∉ oneKey (afterCalls oneKeyGpg peerKeyOf calls ({}, false)).1.2 := by
  refine ⟨[.importPeerPublicKey (ascii "key"), .importPeerPublicKey (ascii "key"),
    .deletePeerPublicKey (ascii "0123456789abcdef")], ?_, by decide +kernel, ?_⟩
  · exact (((Succeeds.nil _).concat (by decide +kernel) (by simp [peerKeyOf]) (by simp)).concat
      (by decide +kernel) (by simp [peerKeyOf]) (by simp)).concat (by decide +kernel) (by simp)
      (by simpa using isKeyId_lower)
  · rintro ⟨hpresent, -⟩
    exact absurd hpresent (by decide +kernel)

end HashCryptoLib.Wrapper
