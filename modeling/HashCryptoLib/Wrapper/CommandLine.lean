import HashCryptoLib.Pgp.Armor
import Mathlib.Data.List.TakeWhile

/-!
Command lines for Windows: how the wrapper joins an argument vector into one string, and
how the other side takes such a string apart again. The two readers differ in what a
doubled quote inside quotes does and in how much of a program name may be quoted; in both
a backslash means itself unless a quote comes behind its run.
-/

namespace HashCryptoLib.Wrapper

open Pgp (ascii)

def SPACE : UInt8 := 0x20
def TAB : UInt8 := 0x09
def QUOTE : UInt8 := 0x22
def BACKSLASH : UInt8 := 0x5C

/-! ### Building -/

/-- The loop of `quoteWindowsArgument`: backslashes are counted until it shows what they
stand in front of. -/
def quotedBody : ℕ → Bytes → Bytes
  | backslashCount, [] => List.replicate (backslashCount * 2) BACKSLASH
  | backslashCount, c :: cs =>
    if c = BACKSLASH then quotedBody (backslashCount + 1) cs
    else if c = QUOTE then
      List.replicate (backslashCount * 2 + 1) BACKSLASH ++ QUOTE :: quotedBody 0 cs
    else List.replicate backslashCount BACKSLASH ++ c :: quotedBody 0 cs

def needsQuotes (arg : Bytes) : Bool := arg.isEmpty || arg.any (· ∈ ascii " \t\n\x0b\"")

def quoteWindowsArgument (arg : Bytes) : Bytes :=
  if needsQuotes arg then QUOTE :: quotedBody 0 arg ++ [QUOTE] else arg

def buildCommandLine (argv : List Bytes) : Bytes :=
  [SPACE].intercalate (argv.map quoteWindowsArgument)

/-! ### Splitting -/

/-- Who splits: the start-up code of a program, or the call of the shell library. -/
inductive Splitter
  | crt
  | commandLineToArgvW
  deriving DecidableEq

def isBlank (c : UInt8) : Bool := c = SPACE || c = TAB

/-- An argument from its first character on, and what is left behind the blank that ends
it. -/
def splitArgument (splitter : Splitter) (inQuotes : Bool) (backslashes : ℕ) :
    Bytes → Bytes × Bytes
  | [] => (List.replicate backslashes BACKSLASH, [])
  | c :: cs =>
    if c = BACKSLASH then splitArgument splitter inQuotes (backslashes + 1) cs
    else if c = QUOTE then
      if backslashes % 2 = 1 then
        (splitArgument splitter inQuotes 0 cs).map
          (List.replicate (backslashes / 2) BACKSLASH ++ [QUOTE] ++ ·) id
      else
        match inQuotes, cs with
        | true, 0x22 :: cs =>
          (splitArgument splitter (splitter == .crt) 0 cs).map
            (List.replicate (backslashes / 2) BACKSLASH ++ [QUOTE] ++ ·) id
        | _, cs =>
          (splitArgument splitter (!inQuotes) 0 cs).map
            (List.replicate (backslashes / 2) BACKSLASH ++ ·) id
    else if !inQuotes && isBlank c then (List.replicate backslashes BACKSLASH, cs)
    else
      (splitArgument splitter inQuotes 0 cs).map
        (List.replicate backslashes BACKSLASH ++ [c] ++ ·) id

theorem splitArgument_le (splitter : Splitter) (inQuotes : Bool) (backslashes : ℕ) (line : Bytes) :
    (splitArgument splitter inQuotes backslashes line).2.length ≤ line.length := by
  fun_induction splitArgument splitter inQuotes backslashes line <;>
    simp only [Prod.map_snd, id_eq, List.length_cons] at * <;> omega

theorem splitArgument_lt (splitter : Splitter) (c : UInt8) (cs : Bytes) :
    (splitArgument splitter false 0 (c :: cs)).2.length < (c :: cs).length := by
  have hle := splitArgument_le splitter
  unfold splitArgument
  split_ifs
  · exact Nat.lt_succ_of_le (hle _ _ cs)
  · contradiction
  · exact Nat.lt_succ_of_le (hle _ _ cs)
  · exact Nat.lt_succ_self _
  · exact Nat.lt_succ_of_le (hle _ _ cs)

/-- Blanks before an argument do not count, and at the end there is no further argument. -/
def splitArguments (splitter : Splitter) (line : Bytes) : List Bytes :=
  match _hline : line.dropWhile isBlank with
  | [] => []
  | c :: cs =>
    let split := splitArgument splitter false 0 (c :: cs)
    split.1 :: splitArguments splitter split.2
termination_by line.length
decreasing_by
  have hle := (List.dropWhile_suffix isBlank (l := line)).length_le
  rw [_hline] at hle
  exact (splitArgument_lt splitter c cs).trans_le hle

/-- A program name as start-up code reads it: quotes keep blanks together, and are dropped. -/
def splitProgramName (inQuotes : Bool) : Bytes → Bytes × Bytes
  | [] => ([], [])
  | c :: cs =>
    if c = QUOTE then splitProgramName (!inQuotes) cs
    else if !inQuotes && isBlank c then ([], cs)
    else (splitProgramName inQuotes cs).map (c :: ·) id

/-- The program name and what is left behind it. Backslashes have no meaning here. -/
def splitProgram : Splitter → Bytes → Bytes × Bytes
  | .crt, line => splitProgramName false line
  | .commandLineToArgvW, line =>
    if line.head? = some QUOTE then
      (line.tail.takeWhile (· ≠ QUOTE), (line.tail.dropWhile (· ≠ QUOTE)).tail)
    else (line.takeWhile (!isBlank ·), (line.dropWhile (!isBlank ·)).tail)

/-- The argument vector of a command line, which ends at a NUL. -/
def commandLineToArgv (splitter : Splitter) (line : Bytes) : List Bytes :=
  let split := splitProgram splitter (line.takeWhile (· ≠ 0))
  split.1 :: splitArguments splitter split.2

/-! ### One argument -/

theorem quoteWindowsArgument_ne_nil (arg : Bytes) : quoteWindowsArgument arg ≠ [] := by
  unfold quoteWindowsArgument
  split_ifs with h
  · exact List.cons_ne_nil _ _
  · rintro rfl
    exact h rfl

/-- What may stand behind an argument: nothing, or a blank and the rest. -/
inductive Delimited : Bytes → Bytes → Prop
  | last : Delimited [] []
  | blank (rest : Bytes) : Delimited (SPACE :: rest) rest

section Argument

variable {splitter : Splitter} {rest rest' : Bytes}

theorem splitArgument_backslash (inQuotes : Bool) (backslashes : ℕ) (cs : Bytes) :
    splitArgument splitter inQuotes backslashes (BACKSLASH :: cs) =
      splitArgument splitter inQuotes (backslashes + 1) cs := by
  conv_lhs => unfold splitArgument
  rw [if_pos rfl]

theorem splitArgument_replicate (inQuotes : Bool) (backslashes count : ℕ) (line : Bytes) :
    splitArgument splitter inQuotes backslashes (List.replicate count BACKSLASH ++ line) =
      splitArgument splitter inQuotes (backslashes + count) line := by
  induction count generalizing backslashes with
  | zero => rfl
  | succ count ih =>
      rw [List.replicate_succ, List.cons_append, splitArgument_backslash, ih, Nat.add_assoc,
        Nat.add_comm 1]

theorem splitArgument_letter {inQuotes : Bool} {backslashes : ℕ} {c : UInt8} {cs : Bytes}
    (hbackslash : c ≠ BACKSLASH) (hquote : c ≠ QUOTE) (hblank : inQuotes = false → isBlank c = false) :
    splitArgument splitter inQuotes backslashes (c :: cs) =
      (splitArgument splitter inQuotes 0 cs).map
        (List.replicate backslashes BACKSLASH ++ [c] ++ ·) id := by
  conv_lhs => unfold splitArgument
  rw [if_neg hbackslash, if_neg hquote, if_neg]
  cases inQuotes with
  | true => simp
  | false => simp [hblank rfl]

theorem splitArgument_escaped {inQuotes : Bool} (count : ℕ) (cs : Bytes) :
    splitArgument splitter inQuotes (count * 2 + 1) (QUOTE :: cs) =
      (splitArgument splitter inQuotes 0 cs).map
        (List.replicate count BACKSLASH ++ [QUOTE] ++ ·) id := by
  conv_lhs => unfold splitArgument
  rw [if_neg (by decide), if_pos rfl, if_pos (by omega), show (count * 2 + 1) / 2 = count by omega]

theorem splitArgument_open (cs : Bytes) :
    splitArgument splitter false 0 (QUOTE :: cs) = splitArgument splitter true 0 cs := by
  conv_lhs => unfold splitArgument
  rw [if_neg (by decide), if_pos rfl, if_neg (by decide)]
  rfl

theorem Delimited.split (h : Delimited rest rest') (backslashes : ℕ) :
    splitArgument splitter false backslashes rest =
      (List.replicate backslashes BACKSLASH, rest') := by
  cases h with
  | last => rfl
  | blank rest =>
      unfold splitArgument
      rw [if_neg (by decide), if_neg (by decide), if_pos (by decide)]

/-- A quote behind an even number of backslashes ends the quoted part. -/
theorem Delimited.close (h : Delimited rest rest') (count : ℕ) :
    splitArgument splitter true (count * 2) (QUOTE :: rest) =
      (List.replicate count BACKSLASH, rest') := by
  unfold splitArgument
  rw [if_neg (by decide), if_pos rfl, if_neg (by omega), Nat.mul_div_cancel count (by decide)]
  cases h with
  | last =>
      show (splitArgument splitter false 0 []).map _ id = _
      rw [Delimited.last.split]
      simp
  | blank =>
      show (splitArgument splitter false 0 (SPACE :: rest')).map _ id = _
      rw [(Delimited.blank rest').split]
      simp

/-- Induction on the argument; the counter of the builder is the run of backslashes in front,
which the reader has still to see. -/
theorem splitArgument_quotedBody (h : Delimited rest rest') (arg : Bytes) (backslashCount : ℕ) :
    splitArgument splitter true 0 (quotedBody backslashCount arg ++ QUOTE :: rest) =
      (List.replicate backslashCount BACKSLASH ++ arg, rest') := by
  induction arg generalizing backslashCount with
  | nil =>
      rw [quotedBody, splitArgument_replicate, Nat.zero_add, h.close, List.append_nil]
  | cons c cs ih =>
      rw [quotedBody]
      split_ifs with hbackslash hquote
      · rw [ih, hbackslash, List.replicate_succ', List.append_assoc, List.singleton_append]
      · rw [List.append_assoc, splitArgument_replicate, Nat.zero_add, List.cons_append,
          splitArgument_escaped, ih, hquote]
        simp
      · rw [List.append_assoc, splitArgument_replicate, Nat.zero_add, List.cons_append,
          splitArgument_letter hbackslash hquote (fun h => by cases h), ih]
        simp

/-- An argument without blanks and quotes is read to its end. -/
theorem splitArgument_plain (h : Delimited rest rest') {arg : Bytes}
    (hplain : ∀ c ∈ arg, c ≠ QUOTE ∧ isBlank c = false) (backslashes : ℕ) :
    splitArgument splitter false backslashes (arg ++ rest) =
      (List.replicate backslashes BACKSLASH ++ arg, rest') := by
  induction arg generalizing backslashes with
  | nil => rw [List.nil_append, h.split, List.append_nil]
  | cons c cs ih =>
      obtain ⟨⟨hquote, hblank⟩, hcs⟩ := List.forall_mem_cons.mp hplain
      by_cases hbackslash : c = BACKSLASH
      · rw [List.cons_append, hbackslash, splitArgument_backslash, ih hcs, List.replicate_succ',
          List.append_assoc, List.singleton_append]
      · rw [List.cons_append, splitArgument_letter hbackslash hquote (fun _ => hblank), ih hcs]
        simp

theorem plain_of_not_needsQuotes {arg : Bytes} (h : needsQuotes arg = false) :
    arg ≠ [] ∧ ∀ c ∈ arg, c ≠ QUOTE ∧ isBlank c = false := by
  obtain ⟨hempty, hany⟩ := Bool.or_eq_false_iff.mp h
  refine ⟨by simpa using hempty, fun c hc => ?_⟩
  have hnone := List.any_eq_false.mp hany c hc
  have hletter : ∀ c : UInt8, ¬ decide (c ∈ ascii " \t\n\x0b\"") = true →
      c ≠ QUOTE ∧ isBlank c = false := by
    decide +kernel
  exact hletter c hnone

theorem splitArgument_quoteWindowsArgument (h : Delimited rest rest') (arg : Bytes) :
    splitArgument splitter false 0 (quoteWindowsArgument arg ++ rest) = (arg, rest') := by
  unfold quoteWindowsArgument
  split_ifs with hneeds
  · rw [List.append_assoc, List.cons_append, splitArgument_open, List.singleton_append,
      splitArgument_quotedBody h]
    simp
  · have hplain := (plain_of_not_needsQuotes (Bool.eq_false_iff.mpr hneeds)).2
    rw [splitArgument_plain h hplain]
    simp

end Argument

/-! ### All arguments -/

/-- What stands behind the program name: each argument behind a blank. -/
def argumentTail (args : List Bytes) : Bytes :=
  args.flatMap fun arg => SPACE :: quoteWindowsArgument arg

theorem buildCommandLine_cons (program : Bytes) (args : List Bytes) :
    buildCommandLine (program :: args) = quoteWindowsArgument program ++ argumentTail args := by
  rw [buildCommandLine, List.map_cons]
  induction args generalizing program with
  | nil => rw [List.map_nil, List.intercalate_singleton, argumentTail, List.flatMap_nil,
      List.append_nil]
  | cons arg args ih =>
      rw [List.map_cons, List.intercalate_cons_cons, ih]
      simp [argumentTail]

/-- The tail is empty, or an argument comes behind its blank. -/
theorem argumentTail_delimited (args : List Bytes) :
    ∃ rest, Delimited (argumentTail args) rest ∧
      rest = [SPACE].intercalate (args.map quoteWindowsArgument) := by
  cases args with
  | nil => exact ⟨[], .last, rfl⟩
  | cons arg args =>
      refine ⟨_, ?_, (buildCommandLine_cons arg args).symm⟩
      rw [argumentTail, List.flatMap_cons, ← argumentTail, List.cons_append]
      exact .blank _

/-- An argument starts with a character that is not a blank. -/
theorem dropWhile_quoteWindowsArgument (arg rest : Bytes) :
    (quoteWindowsArgument arg ++ rest).dropWhile isBlank = quoteWindowsArgument arg ++ rest := by
  have hfirst : ∀ c cs, quoteWindowsArgument arg = c :: cs → isBlank c = false := by
    intro c cs hquoted
    unfold quoteWindowsArgument at hquoted
    split_ifs at hquoted with hneeds
    · obtain ⟨rfl, -⟩ := List.cons.inj hquoted
      rfl
    · have hplain := (plain_of_not_needsQuotes (Bool.eq_false_iff.mpr hneeds)).2
      exact (hplain c (hquoted ▸ List.mem_cons_self)).2
  obtain ⟨c, cs, hquoted⟩ := List.exists_cons_of_ne_nil (quoteWindowsArgument_ne_nil arg)
  rw [hquoted, List.cons_append, List.dropWhile_cons_of_neg (by simp [hfirst c cs hquoted])]

theorem splitArguments_of_dropWhile {splitter : Splitter} {line : Bytes} {c : UInt8} {cs : Bytes}
    (h : line.dropWhile isBlank = c :: cs) :
    splitArguments splitter line =
      (splitArgument splitter false 0 (c :: cs)).1 ::
        splitArguments splitter (splitArgument splitter false 0 (c :: cs)).2 := by
  rw [splitArguments]
  split
  · rename_i hnil
    rw [hnil] at h
    cases h
  · rename_i hcons
    rw [hcons] at h
    cases h
    rfl

theorem Delimited.splitArguments {splitter : Splitter} {rest rest' : Bytes}
    (h : Delimited rest rest') :
    splitArguments splitter rest = splitArguments splitter rest' := by
  cases h with
  | last => rfl
  | blank =>
      have hskip : (SPACE :: rest').dropWhile isBlank = rest'.dropWhile isBlank :=
        List.dropWhile_cons_of_pos (by decide)
      cases hrest : rest'.dropWhile isBlank with
      | nil =>
          rw [Wrapper.splitArguments, Wrapper.splitArguments, hskip, hrest]
      | cons c cs =>
          rw [splitArguments_of_dropWhile (hskip.trans hrest), splitArguments_of_dropWhile hrest]

/-- The arguments come back: induction on how many there are. -/
theorem splitArguments_intercalate (splitter : Splitter) (args : List Bytes) :
    splitArguments splitter ([SPACE].intercalate (args.map quoteWindowsArgument)) = args := by
  induction args with
  | nil =>
      rw [splitArguments]
      rfl
  | cons arg args ih =>
      obtain ⟨rest, hdelimited, rfl⟩ := argumentTail_delimited args
      have hline := dropWhile_quoteWindowsArgument arg (argumentTail args)
      obtain ⟨c, cs, hcons⟩ := List.exists_cons_of_ne_nil
        (List.append_ne_nil_of_left_ne_nil (quoteWindowsArgument_ne_nil arg) (argumentTail args))
      rw [show [SPACE].intercalate ((arg :: args).map quoteWindowsArgument) =
        quoteWindowsArgument arg ++ argumentTail args from buildCommandLine_cons arg args,
        splitArguments_of_dropWhile (hline.trans hcons), ← hcons,
        splitArgument_quoteWindowsArgument hdelimited, ih]

/-! ### The program name -/

/-- The backslashes a text ends with, behind a run of so many. -/
def trailing : ℕ → Bytes → ℕ
  | backslashes, [] => backslashes
  | backslashes, c :: cs => if c = BACKSLASH then trailing (backslashes + 1) cs else trailing 0 cs

theorem trailing_eq_zero_iff (backslashes : ℕ) (text : Bytes) :
    trailing backslashes text = 0 ↔
      text.getLast? ≠ some BACKSLASH ∧ (text = [] → backslashes = 0) := by
  induction text generalizing backslashes with
  | nil => simp [trailing]
  | cons c cs ih =>
      rw [trailing]
      split_ifs with hbackslash
      · rw [ih, hbackslash]
        cases cs with
        | nil => simp
        | cons d ds => simp
      · rw [ih]
        cases cs with
        | nil => simpa using hbackslash
        | cons d ds => simp

/-- Without quotes inside, quoting only doubles the backslashes at the end. -/
theorem quotedBody_eq {arg : Bytes} (h : QUOTE ∉ arg) (backslashCount : ℕ) :
    quotedBody backslashCount arg = List.replicate backslashCount BACKSLASH ++ arg ++
      List.replicate (trailing backslashCount arg) BACKSLASH := by
  induction arg generalizing backslashCount with
  | nil => rw [quotedBody, trailing, List.append_nil, ← List.replicate_add, Nat.mul_two]
  | cons c cs ih =>
      obtain ⟨hquote, hcs⟩ := not_or.mp (List.mem_cons.not.mp h)
      rw [quotedBody, trailing]
      split_ifs with hbackslash hsame
      · rw [ih hcs, hbackslash, List.replicate_succ']
        simp
      · exact absurd hsame.symm hquote
      · rw [ih hcs]
        simp

section Program

variable {program rest rest' : Bytes}

theorem splitProgramName_quoted {text : Bytes} (h : QUOTE ∉ text) (hdelimited : Delimited rest rest') :
    splitProgramName true (text ++ QUOTE :: rest) = (text, rest') := by
  induction text with
  | nil =>
      cases hdelimited with
      | last => rfl
      | blank => rfl
  | cons c cs ih =>
      obtain ⟨hquote, hcs⟩ := not_or.mp (List.mem_cons.not.mp h)
      rw [List.cons_append, splitProgramName, if_neg (Ne.symm hquote), if_neg (by simp), ih hcs]
      rfl

theorem splitProgramName_plain {text : Bytes} (h : ∀ c ∈ text, c ≠ QUOTE ∧ isBlank c = false)
    (hdelimited : Delimited rest rest') :
    splitProgramName false (text ++ rest) = (text, rest') := by
  induction text with
  | nil =>
      cases hdelimited with
      | last => rfl
      | blank => rfl
  | cons c cs ih =>
      obtain ⟨⟨hquote, hblank⟩, hcs⟩ := List.forall_mem_cons.mp h
      rw [List.cons_append, splitProgramName, if_neg hquote, if_neg (by simp [hblank]), ih hcs]
      rfl

/-- Both readers take what stands between the quotes, or up to a blank. -/
theorem splitProgram_quoted (splitter : Splitter) {text : Bytes} (h : QUOTE ∉ text)
    (hdelimited : Delimited rest rest') :
    ∃ behind, splitProgram splitter (QUOTE :: text ++ QUOTE :: rest) = (text, behind) ∧
      splitArguments splitter behind = splitArguments splitter rest' := by
  cases splitter with
  | crt => exact ⟨rest', splitProgramName_quoted h hdelimited, rfl⟩
  | commandLineToArgvW =>
      have hbefore : ∀ c ∈ text, decide (c ≠ QUOTE) = true := fun c hc =>
        decide_eq_true fun heq => h (heq ▸ hc)
      refine ⟨rest, ?_, hdelimited.splitArguments⟩
      rw [splitProgram, List.cons_append, if_pos List.head?_cons, List.tail_cons,
        List.takeWhile_append_of_pos hbefore, List.dropWhile_append_of_pos hbefore]
      simp

theorem splitProgram_plain (splitter : Splitter) {text : Bytes} (hne : text ≠ [])
    (h : ∀ c ∈ text, c ≠ QUOTE ∧ isBlank c = false) (hdelimited : Delimited rest rest') :
    splitProgram splitter (text ++ rest) = (text, rest') := by
  cases splitter with
  | crt => exact splitProgramName_plain h hdelimited
  | commandLineToArgvW =>
      obtain ⟨c, cs, rfl⟩ := List.exists_cons_of_ne_nil hne
      have hblank : ∀ c' ∈ c :: cs, (!isBlank c') = true := fun c' hc' => by simp [(h c' hc').2]
      have hfirst : ¬ (c :: cs ++ rest).head? = some QUOTE := fun heq =>
        (h c List.mem_cons_self).1 (Option.some.inj heq)
      rw [splitProgram, if_neg hfirst, List.takeWhile_append_of_pos hblank,
        List.dropWhile_append_of_pos hblank]
      cases hdelimited with
      | last => simp
      | blank => simp [isBlank, SPACE]

end Program

/-! ### The whole line -/

theorem mem_quotedBody {c : UInt8} {arg : Bytes} {backslashCount : ℕ}
    (h : c ∈ quotedBody backslashCount arg) : c = BACKSLASH ∨ c = QUOTE ∨ c ∈ arg := by
  induction arg generalizing backslashCount with
  | nil => exact Or.inl (List.eq_of_mem_replicate h)
  | cons d ds ih =>
      rw [quotedBody] at h
      split_ifs at h
      · rcases ih h with hb | hq | hmem
        · exact Or.inl hb
        · exact Or.inr (Or.inl hq)
        · exact Or.inr (Or.inr (List.mem_cons_of_mem d hmem))
      all_goals
        rcases List.mem_append.mp h with hb | htail
        · exact Or.inl (List.eq_of_mem_replicate hb)
        · rcases List.mem_cons.mp htail with rfl | htail
          · simp [*]
          · rcases ih htail with hb | hq | hmem
            · exact Or.inl hb
            · exact Or.inr (Or.inl hq)
            · exact Or.inr (Or.inr (List.mem_cons_of_mem d hmem))

theorem zero_not_mem_quoteWindowsArgument {arg : Bytes} (h : 0 ∉ arg) :
    0 ∉ quoteWindowsArgument arg := by
  unfold quoteWindowsArgument
  split_ifs with hneeds
  · intro hmem
    rcases List.mem_append.mp hmem with hbody | hlast
    · rcases List.mem_cons.mp hbody with hfirst | hbody
      · exact absurd hfirst (by decide)
      · rcases mem_quotedBody hbody with hb | hq | harg
        · exact absurd hb (by decide)
        · exact absurd hq (by decide)
        · exact h harg
    · exact absurd (List.mem_singleton.mp hlast) (by decide)
  · exact h

theorem takeWhile_buildCommandLine {program : Bytes} {args : List Bytes}
    (hnul : ∀ arg ∈ program :: args, 0 ∉ arg) :
    (buildCommandLine (program :: args)).takeWhile (· ≠ 0) =
      quoteWindowsArgument program ++ argumentTail args := by
  obtain ⟨hprogram, hargs⟩ := List.forall_mem_cons.mp hnul
  rw [buildCommandLine_cons, List.takeWhile_eq_self_iff]
  intro c hc
  apply decide_eq_true
  rintro rfl
  rcases List.mem_append.mp hc with hname | htail
  · exact zero_not_mem_quoteWindowsArgument hprogram hname
  · obtain ⟨arg, harg, hmem⟩ := List.mem_flatMap.mp htail
    rcases List.mem_cons.mp hmem with hspace | hmem
    · exact absurd hspace (by decide)
    · exact zero_not_mem_quoteWindowsArgument (hargs arg harg) hmem

/-- What comes back: the arguments as they were, and the program name with the backslashes at its
end once more, if it was put in quotes. -/
theorem commandLineToArgv_eq (splitter : Splitter) {program : Bytes} {args : List Bytes}
    (hnul : ∀ arg ∈ program :: args, 0 ∉ arg) (hprogram : QUOTE ∉ program) :
    commandLineToArgv splitter (buildCommandLine (program :: args)) =
      (program ++ List.replicate (if needsQuotes program then trailing 0 program else 0) BACKSLASH) ::
        args := by
  obtain ⟨rest, hdelimited, rfl⟩ := argumentTail_delimited args
  rw [commandLineToArgv, takeWhile_buildCommandLine hnul]
  unfold quoteWindowsArgument
  split_ifs with hneeds
  · have hbody : QUOTE ∉ quotedBody 0 program := by
      rw [quotedBody_eq hprogram]
      simpa [QUOTE, BACKSLASH] using hprogram
    obtain ⟨behind, hsplit, hbehind⟩ := splitProgram_quoted splitter hbody hdelimited
    rw [List.append_assoc, List.singleton_append, hsplit]
    dsimp only
    rw [hbehind, splitArguments_intercalate, quotedBody_eq hprogram]
    rfl
  · obtain ⟨hne, hplain⟩ := plain_of_not_needsQuotes (Bool.eq_false_iff.mpr hneeds)
    rw [splitProgram_plain splitter hne hplain hdelimited]
    dsimp only
    rw [splitArguments_intercalate, List.replicate_zero, List.append_nil]

/-- The argument vector comes back, unless the program name is put in quotes and ends with a
backslash. -/
theorem commandLineToArgv_buildCommandLine (splitter : Splitter) (program : Bytes)
    (args : List Bytes) (hnul : ∀ arg ∈ program :: args, 0 ∉ arg) (hprogram : QUOTE ∉ program) :
    commandLineToArgv splitter (buildCommandLine (program :: args)) = program :: args ↔
      ¬ (needsQuotes program = true ∧ program.getLast? = some BACKSLASH) := by
  rw [commandLineToArgv_eq splitter hnul hprogram, List.cons.injEq, and_iff_left rfl,
    List.append_right_eq_self, List.replicate_eq_nil_iff]
  have htrailing := trailing_eq_zero_iff 0 program
  cases hneeds : needsQuotes program with
  | false => simp
  | true => simpa using htrailing

theorem commandLineToArgv_buildCommandLine_gpg :
    commandLineToArgv .crt (buildCommandLine
      [ascii "C:\\Program Files\\GnuPG\\bin\\gpg.exe", ascii "a \\\"b\\", []]) =
        [ascii "C:\\Program Files\\GnuPG\\bin\\gpg.exe", ascii "a \\\"b\\", []] :=
  (commandLineToArgv_buildCommandLine .crt _ _ (by decide) (by decide)).mpr
    (by decide)

/-- A directory as a program name: the backslash at its end comes back twice. -/
theorem commandLineToArgv_directory :
    ¬ ∀ (splitter : Splitter) (program : Bytes) (args : List Bytes),
      (∀ arg ∈ program :: args, 0 ∉ arg) → QUOTE ∉ program →
        commandLineToArgv splitter (buildCommandLine (program :: args)) = program :: args := by
  intro h
  have hback := h .crt (ascii "C:\\my tools\\") [] (by decide) (by decide)
  have hname : (splitProgram .crt ((buildCommandLine [ascii "C:\\my tools\\"]).takeWhile
      (· ≠ 0))).1 ≠ ascii "C:\\my tools\\" := by
    decide
  exact hname (List.cons.inj hback).1

end HashCryptoLib.Wrapper
