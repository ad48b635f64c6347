import HashCryptoLib.Wrapper.PeerKeys
import Mathlib.Data.List.Forall2

/-!
What the wrapper takes from gpg's output, in which status lines and diagnostic lines share one
pipe: the signature verdict by a search for two markers in all of it, the key ID of an imported
key by a search in each line. Diagnostic lines quote user IDs and file names.
-/

namespace HashCryptoLib.Wrapper

open Pgp (ascii LF Failure fail)
open Pgp.Status

/-- Neither marker: the message was encrypted only. -/
def signatureVerdict (output : Bytes) : Except Failure Bool :=
  let sawGoodSig := contains GOODSIG output
  let sawBadSig := contains BADSIG output
  if !sawGoodSig && !sawBadSig then fail INVALID_DATA else .ok (sawGoodSig && !sawBadSig)

section Calls

variable {World : Type} (gpg : Gpg World)

def decryptArgs (base : List Bytes) (inPath outPath : Bytes) : List Bytes :=
  base ++ [ascii "--pinentry-mode", ascii "loopback", ascii "--passphrase-fd", ascii "0",
    ascii "--status-fd", ascii "1", ascii "--output", outPath, ascii "--decrypt", inPath]

/-- What follows in `decryptAndVerifyCommon` once gpg has ended. -/
def decryptedAndVerified (result : GpgProcessResult) (inPath outPath : Bytes) (w : World) :
    Except Failure (Bytes × Bool) × World :=
  let w := gpg.remove inPath w
  if !result.started || result.exitCode ≠ 0 then (fail INVALID_DATA, gpg.remove outPath w)
  else
    match gpg.readAllBytesFromFile outPath w with
    | none => (fail FILE_IO_ERROR, gpg.remove outPath w)
    | some plain => ((signatureVerdict result.output).map (plain, ·), gpg.remove outPath w)

def decryptAndVerifyCommon (password input tempSuffix : Bytes) (s : Impl) (w : World) :
    Except Failure (Bytes × Bool) × Impl × World :=
  if s.peerKeyIds = [] ∨ password = [] ∨ input = [] then (fail INVALID_ARGUMENT, s, w)
  else if !s.gpgFound then (fail NOT_IMPLEMENTED, s, w)
  else if !s.homeDirReady then (fail UNEXPECTED_ERROR, s, w)
  else
    let (inPath, s) := s.makeTempPath tempSuffix
    let (outPath, s) := s.makeTempPath (ascii ".out")
    let (good, w) := gpg.writeAllBytesToFile inPath input w
    if !good then (fail FILE_IO_ERROR, s, w)
    else
      let (result, w) := gpg.runGpgProcess (decryptArgs s.baseArgs inPath outPath)
        (password ++ [LF]) w
      let (outcome, w) := decryptedAndVerified gpg result inPath outPath w
      (outcome, s, w)

/-- The same gpg, but for what it prints in some of its runs. -/
def answering (asked : List Bytes → Bool) (output : Bytes) : Gpg World :=
  { gpg with
    runGpgProcess argv stdin w :=
      let (result, w) := gpg.runGpgProcess argv stdin w
      (if asked argv then { result with output } else result, w) }

end Calls

/-! ### The status lines alone -/

/-- Another text in a diagnostic line. -/
inductive SameButText : OutputLine → OutputLine → Prop
  | status (text : LineText) : SameButText (.status text) (.status text)
  | diagnostic (lead : Lead) (text text' : LineText) :
      SameButText (.diagnostic lead text) (.diagnostic lead text')

section Lines

variable {lines lines' : List OutputLine}

theorem shows_filter_isStatus {pattern : Bytes} :
    Shows pattern true (lines.filter OutputLine.isStatus) ↔ Shows pattern true lines := by
  constructor
  · rintro ⟨line, hmem, hstatus, hat⟩
    exact ⟨line, (List.mem_filter.mp hmem).1, hstatus, hat⟩
  · rintro ⟨line, hmem, hstatus, hat⟩
    exact ⟨line, List.mem_filter.mpr ⟨hmem, hstatus⟩, hstatus, hat⟩

theorem not_shows_filter_isStatus {pattern : Bytes} :
    ¬ Shows pattern false (lines.filter OutputLine.isStatus) := by
  rintro ⟨line, hmem, hstatus, -⟩
  cases hstatus.symm.trans (List.mem_filter.mp hmem).2

/-- A search line by line finds the same among some of the lines if and only if no other line
decides it. -/
theorem findSome?_filter_eq_iff {α β : Type} {f : α → Option β} {p : α → Bool} {xs : List α} :
    xs.findSome? f = (xs.filter p).findSome? f ↔
      ∀ before x after, xs = before ++ x :: after → (∀ y ∈ before, f y = none) → p x = false →
        ∀ b, f x = some b → (after.filter p).findSome? f = some b := by
  constructor
  · rintro h before x after rfl hbefore hx b hb
    have hfilter : ∀ y ∈ before.filter p, f y = none := fun y hy =>
      hbefore y (List.mem_filter.mp hy).1
    rw [List.filter_append, List.filter_cons, hx, List.findSome?_append, List.findSome?_append,
      List.findSome?_eq_none_iff.mpr hbefore, List.findSome?_eq_none_iff.mpr hfilter,
      List.findSome?_cons, hb] at h
    simpa using h.symm
  · intro h
    induction xs with
    | nil => rfl
    | cons x xs ih =>
        cases hx : f x with
        | none =>
            have htail : xs.findSome? f = (xs.filter p).findSome? f := by
              apply ih
              rintro before y after rfl hbefore
              apply h (x :: before) y after rfl
              intro z hz
              rcases List.mem_cons.mp hz with rfl | hz
              · exact hx
              · exact hbefore z hz
            rw [List.findSome?_cons, hx, List.filter_cons]
            cases p x with
            | true => simpa [hx] using htail
            | false => simpa using htail
        | some b =>
            rw [List.findSome?_cons, hx, List.filter_cons]
            cases hp : p x with
            | true => simp [hx]
            | false =>
                have hrest := h [] x xs rfl (by simp) hp b hx
                simpa using hrest.symm

/-! ### The verdict and the key ID -/

theorem contains_goodsig (lines : List OutputLine) : contains GOODSIG (combined lines) = true ↔
    Shows GOODSIG true lines ∨ Shows GOODSIG false lines :=
  contains_combined_iff_shows (by decide) (by decide)

theorem contains_badsig (lines : List OutputLine) : contains BADSIG (combined lines) = true ↔
    Shows BADSIG true lines ∨ Shows BADSIG false lines :=
  contains_combined_iff_shows (by decide) (by decide)

theorem contains_filter_isStatus {pattern : Bytes} (hne : pattern ≠ []) (hlf : LF ∉ pattern) :
    contains pattern (combined (lines.filter OutputLine.isStatus)) = true ↔
      Shows pattern true lines := by
  rw [contains_combined_iff_shows hne hlf, shows_filter_isStatus]
  exact or_iff_left not_shows_filter_isStatus

theorem signatureVerdict_eq_iff {output output' : Bytes} :
    signatureVerdict output = signatureVerdict output' ↔
      (contains BADSIG output = true ↔ contains BADSIG output' = true) ∧
        (contains BADSIG output' = true ∨
          (contains GOODSIG output = true ↔ contains GOODSIG output' = true)) := by
  rw [signatureVerdict, signatureVerdict]
  cases contains GOODSIG output <;> cases contains BADSIG output <;>
    cases contains GOODSIG output' <;> cases contains BADSIG output' <;> simp [fail]

theorem signatureVerdict_ok_true {output : Bytes} :
    signatureVerdict output = .ok true ↔
      contains GOODSIG output = true ∧ ¬ contains BADSIG output = true := by
  rw [signatureVerdict]
  cases contains GOODSIG output <;> cases contains BADSIG output <;> simp [fail]


theorem signatureVerdict_filter_iff (lines : List OutputLine) :
    signatureVerdict (combined lines) =
        signatureVerdict (combined (lines.filter OutputLine.isStatus)) ↔
      Shows BADSIG true lines ∨
        (¬ Shows BADSIG false lines ∧ (Shows GOODSIG true lines ∨ ¬ Shows GOODSIG false lines)) := by
  rw [signatureVerdict_eq_iff, contains_goodsig, contains_badsig,
    contains_filter_isStatus (by decide) (by decide),
    contains_filter_isStatus (by decide) (by decide)]
  generalize Shows BADSIG true lines = bad, Shows BADSIG false lines = badText,
    Shows GOODSIG true lines = good, Shows GOODSIG false lines = goodText
  tauto

theorem findFirstImportedKeyId_filter_iff (lines : List OutputLine) :
    findFirstImportedKeyId (combined lines) =
        findFirstImportedKeyId (combined (lines.filter OutputLine.isStatus)) ↔
      ∀ before line after, lines = before ++ line :: after →
        (∀ earlier ∈ before, importedKeyIdOfLine earlier.bytes = none) → line.isStatus = false →
        ∀ id, importedKeyIdOfLine line.bytes = some id →
          ∃ between status rest, after.filter OutputLine.isStatus = between ++ status :: rest ∧
            (∀ earlier ∈ between, importedKeyIdOfLine earlier.bytes = none) ∧
            importedKeyIdOfLine status.bytes = some id := by
  rw [findFirstImportedKeyId_combined, findFirstImportedKeyId_combined, findSome?_filter_eq_iff]
  simp only [List.findSome?_eq_some_iff]
  constructor
  · intro h before line after hlines hbefore hstatus id hid
    obtain ⟨between, status, rest, hafter, hat, hnone⟩ := h _ _ _ hlines hbefore hstatus id hid
    exact ⟨between, status, rest, hafter, hnone, hat⟩
  · intro h before line after hlines hbefore hstatus id hid
    obtain ⟨between, status, rest, hafter, hnone, hat⟩ := h _ _ _ hlines hbefore hstatus id hid
    exact ⟨between, status, rest, hafter, hat, hnone⟩

theorem benign_iff (lines : List OutputLine) :
    Benign lines ↔
      signatureVerdict (combined lines) =
          signatureVerdict (combined (lines.filter OutputLine.isStatus)) ∧
        findFirstImportedKeyId (combined lines) =
          findFirstImportedKeyId (combined (lines.filter OutputLine.isStatus)) := by
  rw [signatureVerdict_filter_iff, findFirstImportedKeyId_filter_iff]
  exact ⟨fun h => ⟨h.verdict, h.keyId⟩, fun h => ⟨h.1, h.2⟩⟩

theorem filter_isStatus_of_sameButText (h : List.Forall₂ SameButText lines lines') :
    lines.filter OutputLine.isStatus = lines'.filter OutputLine.isStatus := by
  induction h with
  | nil => rfl
  | cons hline _ ih =>
      cases hline with
      | status text =>
          rw [List.filter_cons, List.filter_cons, ih]
      | diagnostic lead text text' =>
          rw [List.filter_cons, List.filter_cons, ih]
          rfl

/-- No line of the output is a record of a key. -/
theorem findFirstFingerprint_combined (lines : List OutputLine) :
    findFirstFingerprintInColonOutput (combined lines) = none := by
  rw [findFirstFingerprintInColonOutput, getlines_combined, List.findSome?_eq_none_iff]
  intro bytes hbytes
  obtain ⟨line, -, rfl⟩ := List.mem_map.mp hbytes
  have hstart : ¬ ascii "fpr:" <+: line.bytes := by
    intro h
    have hhead : line.bytes.head? = some 0x66 := by
      obtain ⟨rest, hrest⟩ := h
      rw [← hrest]
      rfl
    cases line with
    | status text => cases hhead
    | diagnostic lead text => cases lead <;> cases hhead
  rw [fingerprintOfLine, if_neg hstart]

/-! ### The calls -/

variable {World : Type} {asked : List Bytes → Bool} {output output' : Bytes}

theorem decryptAndVerifyCommon_answering (gpg : Gpg World) (password input tempSuffix : Bytes)
    (s : Impl) (w : World) (h : signatureVerdict output = signatureVerdict output') :
    decryptAndVerifyCommon (answering gpg asked output) password input tempSuffix s w =
      decryptAndVerifyCommon (answering gpg asked output') password input tempSuffix s w := by
  rw [decryptAndVerifyCommon, decryptAndVerifyCommon]
  split_ifs
  · rfl
  · rfl
  · rfl
  · rcases s.makeTempPath tempSuffix with ⟨inPath, s₁⟩
    rcases hout : s₁.makeTempPath (ascii ".out") with ⟨outPath, s₂⟩
    rcases hwrite : gpg.writeAllBytesToFile inPath input w with ⟨good, w₁⟩
    simp only [answering, hout, hwrite]
    cases good with
    | false => rfl
    | true =>
        rcases gpg.runGpgProcess (decryptArgs s₂.baseArgs inPath outPath) (password ++ [LF]) w₁
          with ⟨result, w₂⟩
        cases asked (decryptArgs s₂.baseArgs inPath outPath) with
        | false => rfl
        | true => simp [decryptedAndVerified, h]

theorem importFile_answering (gpg : Gpg World) (base : List Bytes) (path : Bytes) (w : World)
    (hid : findFirstImportedKeyId output = findFirstImportedKeyId output')
    (hfpr : findFirstFingerprintInColonOutput output =
      findFirstFingerprintInColonOutput output') :
    importFile (answering gpg asked output) base path w =
      importFile (answering gpg asked output') base path w := by
  have hshown : ∀ result : GpgProcessResult, shownKeyId { result with output } =
      shownKeyId { result with output := output' } := by
    intro result
    rw [shownKeyId, shownKeyId, hfpr]
  rcases hrun : gpg.runGpgProcess (importArgs base path) [] w with ⟨result, w₁⟩
  rcases hshow : gpg.runGpgProcess (showArgs base path) [] w₁ with ⟨showResult, w₂⟩
  rw [importFile, importFile]
  simp only [answering, hrun, hshow, Prod.map_apply, id_eq]
  cases asked (importArgs base path) <;> cases asked (showArgs base path) <;>
    simp [hid, hshown]

theorem importPeerPublicKeyCommon_answering (gpg : Gpg World) (keyBlock : Bytes) (s : Impl)
    (w : World) (hid : findFirstImportedKeyId output = findFirstImportedKeyId output')
    (hfpr : findFirstFingerprintInColonOutput output =
      findFirstFingerprintInColonOutput output') :
    importPeerPublicKeyCommon (answering gpg asked output) keyBlock s w =
      importPeerPublicKeyCommon (answering gpg asked output') keyBlock s w := by
  rw [importPeerPublicKeyCommon, importPeerPublicKeyCommon]
  split_ifs
  · rfl
  · rfl
  · rfl
  · rcases s.makeTempPath (ascii ".key") with ⟨path, s₁⟩
    rcases hwrite : gpg.writeAllBytesToFile path keyBlock w with ⟨good, w₁⟩
    have hfile := @importFile_answering _ asked _ _ gpg s₁.baseArgs path w₁ hid hfpr
    simp only [answering, hwrite] at hfile ⊢
    rw [hfile]

/-! ### A gpg that does as it is told -/

/-- Every call works, and nothing is printed. -/
def silentGpg : Gpg Unit where
  runGpgProcess _ _ w := ({ started := true, exitCode := 0 }, w)
  writeAllBytesToFile _ _ w := (true, w)
  readAllBytesFromFile _ _ := some []
  remove _ w := w

def onePeer : Impl := { peerKeyIds := [ascii "0123456789ABCDEF"] }

theorem decryptAndVerifyCommon_silent (output : Bytes) :
    (decryptAndVerifyCommon (answering silentGpg (fun _ => true) output) [SPACE] [SPACE] []
      onePeer ()).1 = (signatureVerdict output).map ([], ·) := by
  simp [decryptAndVerifyCommon, answering, silentGpg, onePeer, decryptedAndVerified]

theorem importPeerPublicKeyCommon_silent {output : Bytes}
    (h : findFirstFingerprintInColonOutput output = none) :
    (importPeerPublicKeyCommon (answering silentGpg (fun _ => true) output) [SPACE] onePeer ()).1 =
      (findFirstImportedKeyId output).elim (fail INVALID_DATA) .ok := by
  have hshown : ∀ started exitCode, shownKeyId { started, exitCode, output } =
      fail INVALID_DATA := by
    intro started exitCode
    rw [shownKeyId]
    cases started <;> simp [h]
  cases hid : findFirstImportedKeyId output with
  | none =>
      simp [importPeerPublicKeyCommon, answering, silentGpg, onePeer, importFile, hid, hshown]
  | some keyId => simp [importPeerPublicKeyCommon, answering, silentGpg, onePeer, importFile, hid]

/-! ### What text can do -/

/-- The wrapper answers as if gpg had printed the status lines alone. -/
def StatusLinesDecide (lines : List OutputLine) : Prop :=
  ∀ (World : Type) (gpg : Gpg World) (asked : List Bytes → Bool) (s : Impl) (w : World),
    (∀ password input tempSuffix,
      decryptAndVerifyCommon (answering gpg asked (combined lines)) password input tempSuffix s w =
        decryptAndVerifyCommon
          (answering gpg asked (combined (lines.filter OutputLine.isStatus)))
          password input tempSuffix s w) ∧
    ∀ keyBlock,
      importPeerPublicKeyCommon (answering gpg asked (combined lines)) keyBlock s w =
        importPeerPublicKeyCommon
          (answering gpg asked (combined (lines.filter OutputLine.isStatus))) keyBlock s w

theorem Benign.statusLinesDecide (h : Benign lines) : StatusLinesDecide lines := by
  obtain ⟨hverdict, hid⟩ := (benign_iff lines).mp h
  intro World gpg asked s w
  constructor
  · intro password input tempSuffix
    exact decryptAndVerifyCommon_answering gpg password input tempSuffix s w hverdict
  · intro keyBlock
    apply importPeerPublicKeyCommon_answering gpg keyBlock s w hid
    rw [findFirstFingerprint_combined, findFirstFingerprint_combined]

theorem StatusLinesDecide.benign (h : StatusLinesDecide lines) : Benign lines := by
  obtain ⟨hdecrypt, himport⟩ := h Unit silentGpg (fun _ => true) onePeer ()
  rw [benign_iff]
  constructor
  · have hverdict := congrArg Prod.fst (hdecrypt [SPACE] [SPACE] [])
    rw [decryptAndVerifyCommon_silent, decryptAndVerifyCommon_silent] at hverdict
    have hinjective : Function.Injective
        fun verdict : Except Failure Bool => verdict.map (([] : Bytes), ·) := by
      rintro (failure | valid) (failure' | valid') heq <;> cases heq <;> rfl
    exact hinjective hverdict
  · have hid := congrArg Prod.fst (himport [SPACE])
    rw [importPeerPublicKeyCommon_silent (findFirstFingerprint_combined _),
      importPeerPublicKeyCommon_silent (findFirstFingerprint_combined _)] at hid
    have hinjective : Function.Injective
        fun keyId : Option Bytes => keyId.elim (fail INVALID_DATA) Except.ok := by
      rintro (_ | id) (_ | id') heq <;> cases heq <;> rfl
    exact hinjective hid

theorem decryptedAndVerified_ok {gpg : Gpg World} {result : GpgProcessResult}
    {inPath outPath plain : Bytes} {valid : Bool} {w : World}
    (h : (decryptedAndVerified gpg result inPath outPath w).1 = .ok (plain, valid)) :
    signatureVerdict result.output = .ok valid := by
  rw [decryptedAndVerified] at h
  split at h
  · cases h
  · split at h
    · cases h
    · cases hverdict : signatureVerdict result.output with
      | error failure =>
          rw [hverdict] at h
          cases h
      | ok valid' =>
          rw [hverdict] at h
          cases h
          rfl

theorem decryptAndVerifyCommon_ok {gpg : Gpg World} {password input tempSuffix plain : Bytes}
    {valid : Bool} {s : Impl} {w : World}
    (h : (decryptAndVerifyCommon gpg password input tempSuffix s w).1 = .ok (plain, valid)) :
    ∃ argv stdin w', signatureVerdict (gpg.runGpgProcess argv stdin w').1.output = .ok valid := by
  rw [decryptAndVerifyCommon] at h
  split at h
  · cases h
  split at h
  · cases h
  split at h
  · cases h
  dsimp only at h
  split at h
  · cases h
  · exact ⟨_, _, _, decryptedAndVerified_ok h⟩

/-- Text in diagnostic lines changes nothing if and only if the output is benign: then the
wrapper answers as from the status lines alone, with any other benign text in the diagnostic
lines as well, and no message is reported as signed without a status line that says so. -/
theorem statusLines_decide (lines : List OutputLine) :
    (StatusLinesDecide lines ↔ Benign lines) ∧
      (Benign lines →
        (∀ lines', List.Forall₂ SameButText lines lines' → Benign lines' →
          ∀ (World : Type) (gpg : Gpg World) (asked : List Bytes → Bool) (s : Impl) (w : World),
            (∀ password input tempSuffix,
              decryptAndVerifyCommon (answering gpg asked (combined lines)) password input
                  tempSuffix s w =
                decryptAndVerifyCommon (answering gpg asked (combined lines')) password input
                  tempSuffix s w) ∧
            ∀ keyBlock,
              importPeerPublicKeyCommon (answering gpg asked (combined lines)) keyBlock s w =
                importPeerPublicKeyCommon (answering gpg asked (combined lines')) keyBlock s w) ∧
        (¬ Shows GOODSIG true lines →
          ∀ (World : Type) (gpg : Gpg World) (s : Impl) (w : World)
            (password input tempSuffix plain : Bytes),
            (decryptAndVerifyCommon (answering gpg (fun _ => true) (combined lines)) password
              input tempSuffix s w).1 ≠ .ok (plain, true))) := by
  refine ⟨⟨StatusLinesDecide.benign, Benign.statusLinesDecide⟩, fun hbenign => ⟨?_, ?_⟩⟩
  · intro lines' hsame hbenign' World gpg asked s w
    obtain ⟨hdecrypt, himport⟩ := hbenign.statusLinesDecide World gpg asked s w
    obtain ⟨hdecrypt', himport'⟩ := hbenign'.statusLinesDecide World gpg asked s w
    rw [← filter_isStatus_of_sameButText hsame] at hdecrypt' himport'
    constructor
    · intro password input tempSuffix
      rw [hdecrypt, hdecrypt']
    · intro keyBlock
      rw [himport, himport']
  · intro hgood World gpg s w password input tempSuffix plain hvalid
    obtain ⟨argv, stdin, w', hverdict⟩ := decryptAndVerifyCommon_ok hvalid
    change signatureVerdict (combined lines) = .ok true at hverdict
    rw [((benign_iff lines).mp hbenign).1, signatureVerdict_ok_true,
      contains_filter_isStatus (by decide) (by decide)] at hverdict
    exact hgood hverdict.1

end Lines

/-! ### A user ID that reads like a status line -/

theorem Benign.of_unmarked (hmarkers : ∀ line ∈ lines, line.isStatus = false →
    contains BADSIG line.bytes = false ∧ contains GOODSIG line.bytes = false ∧
      importedKeyIdOfLine line.bytes = none) : Benign lines where
  verdict := by
    right
    constructor
    · rintro ⟨line, hmem, hstatus, hat⟩
      cases hat.symm.trans (hmarkers line hmem hstatus).1
    · right
      rintro ⟨line, hmem, hstatus, hat⟩
      cases hat.symm.trans (hmarkers line hmem hstatus).2.1
  keyId := by
    rintro before line after rfl - hstatus id hid
    cases hid.symm.trans (hmarkers line (by simp) hstatus).2.2

/-- What gpg prints of a good signature, with the signer's user ID in a diagnostic line. -/
def goodSignature (userId : LineText) : List OutputLine :=
  [.status (lineText "GOODSIG 0123456789ABCDEF Alice"), .diagnostic .space userId]

/-- Another name in the diagnostic line of a good signature: the same answer. -/
theorem statusLines_decide_goodSignature :
    decryptAndVerifyCommon (answering silentGpg (fun _ => true)
        (combined (goodSignature (lineText "aka Alice")))) [SPACE] [SPACE] [] onePeer () =
      decryptAndVerifyCommon (answering silentGpg (fun _ => true)
        (combined (goodSignature (lineText "aka Bob")))) [SPACE] [SPACE] [] onePeer () := by
  have hbenign : Benign (goodSignature (lineText "aka Alice")) :=
    Benign.of_unmarked (by decide)
  have hbenign' : Benign (goodSignature (lineText "aka Bob")) :=
    Benign.of_unmarked (by decide)
  have hsame : List.Forall₂ SameButText (goodSignature (lineText "aka Alice"))
      (goodSignature (lineText "aka Bob")) :=
    .cons (.status _) (.cons (.diagnostic _ _ _) .nil)
  exact (((statusLines_decide _).2 hbenign).1 _ hsame hbenign' Unit silentGpg _ onePeer ()).1 _ _ _

/-- A message that is encrypted only, from a key with such a user ID, is reported as signed;
and a key's other user ID gives the key the ID of another one. -/
theorem userId_forges_verdict :
    (decryptAndVerifyCommon (answering silentGpg (fun _ => true) (combined
        [.diagnostic .space (lineText "\"[GNUPG:] GOODSIG 0 Alice\"")])) [SPACE] [SPACE] []
        onePeer ()).1 = .ok ([], true) ∧
      (importPeerPublicKeyCommon (answering silentGpg (fun _ => true) (combined
        [.diagnostic .gpg (lineText
            "key 1: public key \"[GNUPG:] IMPORTED FEDCBA9876543210 \" imported"),
          .status (lineText "IMPORTED 0123456789ABCDEF Alice")])) [SPACE] onePeer ()).1 =
        .ok (ascii "FEDCBA9876543210") ∧
      (importPeerPublicKeyCommon (answering silentGpg (fun _ => true) (combined
        [.diagnostic .gpg (lineText "key 1: public key \"Alice\" imported"),
          .status (lineText "IMPORTED 0123456789ABCDEF Alice")])) [SPACE] onePeer ()).1 =
        .ok (ascii "0123456789ABCDEF") := by
  decide

end HashCryptoLib.Wrapper
