import HashCryptoLib.CryptoApi.FileCalls
import HashCryptoLib.CryptoApi.StandIn

/-!
What a decryption from one file into another leaves where it fails. Until the output
file is opened nothing has changed; from then on the old content is lost, and what has
been written of the plaintext stays where the file cannot be deleted.
-/

namespace HashCryptoLib.CryptoApi

open Pgp (Status ascii WidePath FileSystem)
open Pgp.Status

namespace FileCall

/-! ### What a failed call leaves -/

section Failure

variable {call : FileCall} {api : Provider} {password inputFilePath outputFilePath : Bytes}
  {files : FileSystem} {content : Bytes} {outputPath : WidePath}

/-- The salt can be read, and there is a key for it. -/
def KeyFor (call : FileCall) (api : Provider) (password content : Bytes)
    (key : Octets api.cipher.keySize) : Prop :=
  call.createProviders = true ∧ ∃ salt : Octets PASSWORD_SALT_SIZE,
    call.readFileExact content 0 PASSWORD_SALT_SIZE = some salt.1 ∧
      api.derivePasswordKey (cString password) salt = some key

/-- The whole input opens under the password, and all of it is read, written and reported. -/
def Delivers (call : FileCall) (api : Provider) (password content : Bytes) : Prop :=
  ∃ key, KeyFor call api password content key ∧
    Completes call key content (call.fileSize content) (PASSWORD_SALT_SIZE, [])

/-- Some of the plaintext gets into the output file. -/
def Spills (call : FileCall) (api : Provider) (password content : Bytes) : Prop :=
  ∃ key, KeyFor call api password content key ∧
    WritesSome call key content (call.fileSize content) PASSWORD_SALT_SIZE

/-- A call that failed left the file at the output path as it was, and none of the
plaintext there. -/
def Harmless (call : FileCall) (outputFilePath : Bytes) (files : FileSystem)
    (outcome : FileCallOutcome) : Prop :=
  outcome.status ≠ NO_ERROR → ∀ outputPath, call.widePath outputFilePath = some outputPath →
    (∀ old, files outputPath = some old → outcome.files outputPath = some old) ∧
      (outcome.written = [] ∨ outcome.files outputPath = none)

theorem KeyFor.unique {key key' : Octets api.cipher.keySize}
    (h : KeyFor call api password content key) (h' : KeyFor call api password content key') :
    key = key' := by
  obtain ⟨-, salt, hsalt, hkey⟩ := h
  obtain ⟨-, salt', hsalt', hkey'⟩ := h'
  obtain rfl := Subtype.ext (Option.some.inj (hsalt.symm.trans hsalt'))
  exact Option.some.inj (hkey.symm.trans hkey')

theorem decryptContent_of_key {key : Octets api.cipher.keySize}
    (h : KeyFor call api password content key) :
    call.decryptContent api password content =
      call.decryptFileLoop key content (call.fileSize content) PASSWORD_SALT_SIZE [] := by
  obtain ⟨hproviders, salt, hsalt, hkey⟩ := h
  rw [decryptContent, if_neg (by rw [hproviders]; decide), hsalt]
  dsimp only
  rw [dif_pos salt.2, hkey]

theorem decryptContent_no_key (h : ∀ key, ¬ KeyFor call api password content key) :
    ∃ status, status ≠ NO_ERROR ∧ call.decryptContent api password content = (status, []) := by
  rw [decryptContent]
  by_cases hproviders : call.createProviders = false
  · rw [if_pos hproviders]
    exact ⟨_, by decide, rfl⟩
  rw [if_neg hproviders]
  cases hsalt : call.readFileExact content 0 PASSWORD_SALT_SIZE with
  | none => exact ⟨_, by decide, rfl⟩
  | some salt =>
      have hlength := (readFileExact_eq_some.mp hsalt).2.1
      dsimp only
      rw [dif_pos hlength]
      cases hkey : api.derivePasswordKey (cString password) ⟨salt, hlength⟩ with
      | none => exact ⟨_, by decide, rfl⟩
      | some key =>
          exact absurd ⟨Bool.eq_true_of_not_eq_false hproviders, ⟨salt, hlength⟩, hsalt, hkey⟩ (h key)

theorem decryptContent_noError_iff :
    (call.decryptContent api password content).1 = NO_ERROR ↔ Delivers call api password content := by
  by_cases hkey : ∃ key, KeyFor call api password content key
  · obtain ⟨key, hkey⟩ := hkey
    rw [decryptContent_of_key hkey, (decryptFileLoop_run []).1]
    constructor
    · exact fun h => ⟨key, hkey, h⟩
    · rintro ⟨key', hkey', h⟩
      rwa [hkey.unique hkey']
  · obtain ⟨status, hstatus, hcontent⟩ := decryptContent_no_key fun key h => hkey ⟨key, h⟩
    rw [hcontent]
    refine iff_of_false hstatus ?_
    rintro ⟨key, h, -⟩
    exact hkey ⟨key, h⟩

theorem decryptContent_writes_iff :
    (call.decryptContent api password content).2 ≠ [] ↔ Spills call api password content := by
  by_cases hkey : ∃ key, KeyFor call api password content key
  · obtain ⟨key, hkey⟩ := hkey
    rw [decryptContent_of_key hkey, decryptFileLoop_writes]
    constructor
    · exact fun h => ⟨key, hkey, h⟩
    · rintro ⟨key', hkey', h⟩
      rwa [hkey.unique hkey']
  · obtain ⟨status, -, hcontent⟩ := decryptContent_no_key fun key h => hkey ⟨key, h⟩
    rw [hcontent]
    refine iff_of_false (fun h => h rfl) ?_
    rintro ⟨key, h, -⟩
    exact hkey ⟨key, h⟩

/-- What becomes of the output file behind a failure. -/
theorem closeOutput_harmless_iff {result : Status × Bytes} (hfails : result.1 ≠ NO_ERROR)
    (houtput : call.widePath outputFilePath = some outputPath) :
    Harmless call outputFilePath files (call.closeOutput outputPath files result) ↔
      files outputPath = none ∧ call.deleteOutput = true ∨
        call.deleteOutput = false ∧ result.2 = [] ∧
          ∀ old, files outputPath = some old → old = [] := by
  have hafter : (call.closeOutput outputPath files result).files outputPath =
      if call.deleteOutput then none else some result.2 := by
    rw [closeOutput]
    dsimp only
    cases call.deleteOutput with
    | true => rw [if_pos ⟨hfails, rfl⟩, Function.update_self]; rfl
    | false => rw [if_neg (fun h => Bool.noConfusion h.2), Function.update_self]; rfl
  constructor
  · intro h
    obtain ⟨hold, hwritten⟩ := h hfails outputPath houtput
    rw [hafter] at hold hwritten
    cases hdelete : call.deleteOutput with
    | true =>
        refine Or.inl ⟨?_, rfl⟩
        rw [hdelete] at hold
        cases hfile : files outputPath with
        | none => rfl
        | some old => cases hold old hfile
    | false =>
        rw [hdelete] at hold hwritten
        have hnothing : result.2 = [] := hwritten.resolve_right (Option.some_ne_none result.2)
        refine Or.inr ⟨rfl, hnothing, ?_⟩
        intro old hfile
        rw [← Option.some.inj (hold old hfile)]
        exact hnothing
  · rintro (⟨hnone, hdelete⟩ | ⟨hdelete, hnothing, hold⟩) - outputPath' houtput'
    · obtain rfl := Option.some.inj (houtput.symm.trans houtput')
      rw [hafter, hdelete]
      refine ⟨?_, Or.inr rfl⟩
      intro old hfile
      rw [hnone] at hfile
      cases hfile
    · obtain rfl := Option.some.inj (houtput.symm.trans houtput')
      rw [hafter, hdelete]
      refine ⟨?_, Or.inl hnothing⟩
      intro old hfile
      obtain rfl := hold old hfile
      exact congrArg some hnothing

/-- A call is harmless where it does not come to its output file, or delivers all of the
plaintext, or the file it created can be deleted again. -/
theorem harmless_iff :
    Harmless call outputFilePath files
        (call.DecryptFile api password inputFilePath outputFilePath files) ↔
      ∀ content outputPath,
        OpensOutput call password inputFilePath outputFilePath files content outputPath →
          Delivers call api password content ∨
            files outputPath = none ∧ call.deleteOutput = true ∨
            call.deleteOutput = false ∧ ¬ Spills call api password content ∧
              ∀ old, files outputPath = some old → old = [] := by
  constructor
  · intro h content outputPath hopens
    by_cases hdelivers : Delivers call api password content
    · exact Or.inl hdelivers
    have hfails := mt decryptContent_noError_iff.mp hdelivers
    rw [DecryptFile_of_opens hopens, closeOutput_harmless_iff hfails hopens.2.2.1] at h
    rwa [← decryptContent_writes_iff, not_not, or_iff_right hdelivers]
  · intro h
    by_cases hopens : ∃ content outputPath,
        OpensOutput call password inputFilePath outputFilePath files content outputPath
    · obtain ⟨content, outputPath, hopens⟩ := hopens
      have hcases := h content outputPath hopens
      rw [DecryptFile_of_opens hopens]
      by_cases hdelivers : Delivers call api password content
      · exact fun hfails => absurd (decryptContent_noError_iff.mpr hdelivers) hfails
      · rw [closeOutput_harmless_iff (mt decryptContent_noError_iff.mp hdelivers) hopens.2.2.1]
        rwa [← decryptContent_writes_iff, not_not, or_iff_right hdelivers] at hcases
    · obtain ⟨status, houtcome⟩ := DecryptFile_untouched api
        fun content outputPath hcontent => hopens ⟨content, outputPath, hcontent⟩
      rw [houtcome]
      exact fun _ outputPath _ => ⟨fun old hold => hold, Or.inl rfl⟩

end Failure

/-! ### A call that loses a file -/

/-- Everything works. -/
def calm : FileCall where
  widePath path := some (path.map UInt8.toUInt16)
  openInput := true
  openOutput := true
  createProviders := true
  fileSize := List.length
  read _ := true
  write _ _ := none
  onProgress _ _ := true
  deleteOutput := true

/-- An input that is too short to be a message, and an output file of some use. -/
def cutFiles : FileSystem := fun path =>
  if path = [97] then some [1, 2, 3] else if path = [98] then some (ascii "old") else none

theorem cutFiles_lost : ¬ Harmless calm (ascii "b") cutFiles
    (calm.DecryptFile standInProvider (ascii "pw") (ascii "a") (ascii "b") cutFiles) := by
  intro h
  have hafter := (h (by decide) [98] (by decide)).1 (ascii "old") (by decide)
  have hgone : (calm.DecryptFile standInProvider (ascii "pw") (ascii "a") (ascii "b") cutFiles).files
      [98] = none := by decide
  rw [hgone] at hafter
  cases hafter

end FileCall
end HashCryptoLib.CryptoApi
