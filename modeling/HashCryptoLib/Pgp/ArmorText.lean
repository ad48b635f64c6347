import HashCryptoLib.Pgp.Armor

/-!
Armored text as it comes back from elsewhere: with other line ends, and with
checksum lines of any form. A decoder that drops every carriage return of a data line
still looks for a blank line octet by octet, and a checksum line that does not
stand for three octets is passed over.
-/

namespace HashCryptoLib.Pgp

open BigEndian Cursor Search

/-! ### Replacing line ends -/

/-- Every LF becomes CRLF. -/
def lfToCrlf (text : Bytes) : Bytes := text.flatMap fun c => if c = LF then [CR, LF] else [c]

/-- Every CRLF becomes LF. -/
def crlfToLf : Bytes → Bytes
  | c :: d :: rest => if c = CR ∧ d = LF then LF :: crlfToLf rest else c :: crlfToLf (d :: rest)
  | text => text

section Replace

variable {text rest : Bytes}

theorem lfToCrlf_append (text rest : Bytes) :
    lfToCrlf (text ++ rest) = lfToCrlf text ++ lfToCrlf rest := List.flatMap_append

theorem lfToCrlf_cons_LF (rest : Bytes) : lfToCrlf (LF :: rest) = CR :: LF :: lfToCrlf rest := rfl

theorem lfToCrlf_cons {c : UInt8} (hc : c ≠ LF) (rest : Bytes) :
    lfToCrlf (c :: rest) = c :: lfToCrlf rest := by
  rw [lfToCrlf, List.flatMap_cons, if_neg hc, ← lfToCrlf, List.singleton_append]

theorem lfToCrlf_of_not_mem (h : LF ∉ text) : lfToCrlf text = text := by
  induction text with
  | nil => rfl
  | cons c text ih =>
      obtain ⟨hc, htext⟩ := not_or.mp (List.mem_cons.not.mp h)
      rw [lfToCrlf_cons (Ne.symm hc), ih htext]

theorem lfToCrlf_lineEnd (returns : ℕ) : lfToCrlf (lineEnd returns) = lineEnd (returns + 1) := by
  have hreturns : LF ∉ List.replicate returns CR := by
    have hne : LF ≠ CR := by decide
    simp [hne]
  rw [lineEnd, lfToCrlf_append, lfToCrlf_of_not_mem hreturns, lineEnd, List.replicate_succ',
    List.append_assoc]
  rfl

theorem lf_not_mem_base64Encode (data : Bytes) : LF ∉ base64Encode data :=
  fun h => (mem_base64Encode h).2.2 rfl

theorem lfToCrlf_textLines {b64 : Bytes} (h : LF ∉ b64) (returns : ℕ) :
    lfToCrlf (textLines returns b64) = textLines (returns + 1) b64 := by
  fun_induction textLines returns b64 with
  | case1 => rw [textLines, if_pos rfl]; rfl
  | case2 b64 hne ih =>
      have htake : LF ∉ b64.take 64 := fun hmem => h (List.mem_of_mem_take hmem)
      rw [lfToCrlf_append, lfToCrlf_append, lfToCrlf_of_not_mem htake, lfToCrlf_lineEnd,
        ih fun hmem => h (List.mem_of_mem_drop hmem), textLines.eq_def (returns + 1) b64, if_neg hne]

/-- One more return before every line feed. -/
theorem lfToCrlf_armorText {label : Bytes} (hlabel : LF ∉ label) (returns : ℕ) (data : Bytes) :
    lfToCrlf (armorText returns label data) = armorText (returns + 1) label data := by
  have hcrc : LF ∉ EQUALS :: base64Encode (crcOctets data) := by
    rw [List.mem_cons, not_or]
    exact ⟨by decide, lf_not_mem_base64Encode _⟩
  have hbegin : LF ∉ ascii "-----BEGIN " := by decide
  have hdashes : LF ∉ ascii "-----" := by decide
  have hversion : LF ∉ ascii "Version: HashCryptoLib CPgpEngine" := by decide
  have hend : LF ∉ ascii "-----END " := by decide
  simp only [armorText, headerText, armorSection, lfToCrlf_append, lfToCrlf_lineEnd,
    lfToCrlf_textLines (lf_not_mem_base64Encode data), lfToCrlf_of_not_mem hcrc,
    lfToCrlf_of_not_mem hlabel, lfToCrlf_of_not_mem hbegin, lfToCrlf_of_not_mem hdashes,
    lfToCrlf_of_not_mem hversion, lfToCrlf_of_not_mem hend]

theorem crlfToLf_lfToCrlf (h : CR ∉ text) : crlfToLf (lfToCrlf text) = text := by
  induction text with
  | nil => rfl
  | cons c text ih =>
      obtain ⟨hc, htext⟩ := not_or.mp (List.mem_cons.not.mp h)
      by_cases hlf : c = LF
      · subst hlf
        rw [lfToCrlf_cons_LF, crlfToLf, if_pos ⟨rfl, rfl⟩, ih htext]
      · rw [lfToCrlf_cons hlf]
        have hnext := ih htext
        cases hrest : lfToCrlf text with
        | nil =>
            rw [hrest] at hnext
            rw [← hnext]
            rfl
        | cons d rest =>
            rw [hrest] at hnext
            rw [crlfToLf, if_neg fun h => hc h.1.symm, hnext]

/-! ### Blank lines -/

theorem head?_lfToCrlf (text : Bytes) : (lfToCrlf text).head? ≠ some LF := by
  cases text with
  | nil => exact nofun
  | cons c text =>
      by_cases hc : c = LF
      · subst hc
        exact show some CR ≠ some LF by decide
      · rw [lfToCrlf_cons hc]
        exact fun h => hc (Option.some.inj h)

theorem not_starts_lfToCrlf (pat text : Bytes) : ¬ (LF :: pat) <+: lfToCrlf text := by
  rintro ⟨after, hafter⟩
  exact head?_lfToCrlf text (by rw [← hafter]; rfl)

theorem not_blankLf_lfToCrlf (text : Bytes) : ¬ [LF, LF] <:+: lfToCrlf text := by
  induction text with
  | nil => exact fun h => absurd (List.infix_nil.mp h) (List.cons_ne_nil _ _)
  | cons c text ih =>
      by_cases hc : c = LF
      · subst hc
        intro h
        rw [lfToCrlf_cons_LF] at h
        rcases List.infix_cons_iff.mp h with hcr | h
        · exact absurd (List.cons_prefix_cons.mp hcr).1 (by decide)
        rcases List.infix_cons_iff.mp h with hlf | hinfix
        · exact not_starts_lfToCrlf [] text (List.cons_prefix_cons.mp hlf).2
        · exact ih hinfix
      · rw [lfToCrlf_cons hc]
        intro h
        rcases List.infix_cons_iff.mp h with hlf | hinfix
        · exact hc (List.cons_prefix_cons.mp hlf).1.symm
        · exact ih hinfix

/-- A blank line under CRLF was one under LF. -/
theorem blankLf_of_blankCrlf (h : [CR, LF, CR, LF] <:+: lfToCrlf text) : [LF, LF] <:+: text := by
  induction text with
  | nil => exact absurd (List.infix_nil.mp h) (List.cons_ne_nil _ _)
  | cons c text ih =>
      by_cases hc : c = LF
      · subst hc
        rw [lfToCrlf_cons_LF] at h
        rcases List.infix_cons_iff.mp h with hcrlf | h
        · -- the next line end comes at once
          have hstarts := (List.cons_prefix_cons.mp (List.cons_prefix_cons.mp hcrlf).2).2
          cases text with
          | nil => exact absurd (List.prefix_nil.mp hstarts) (List.cons_ne_nil _ _)
          | cons d text =>
              by_cases hd : d = LF
              · subst hd
                exact (List.prefix_append [LF, LF] text).isInfix
              · rw [lfToCrlf_cons hd] at hstarts
                exact absurd (List.cons_prefix_cons.mp hstarts).2 (not_starts_lfToCrlf [] text)
        rcases List.infix_cons_iff.mp h with hcr | hinfix
        · exact absurd (List.cons_prefix_cons.mp hcr).1 (by decide)
        · exact List.infix_cons (ih hinfix)
      · rw [lfToCrlf_cons hc] at h
        rcases List.infix_cons_iff.mp h with hcr | hinfix
        · exact absurd (List.cons_prefix_cons.mp hcr).2 (not_starts_lfToCrlf _ text)
        · exact List.infix_cons (ih hinfix)

end Replace

theorem findFrom_none_of_not_infix {pat text : Bytes} (h : ¬ pat <:+: text) (pos : ℕ) :
    findFrom pat text pos = none := by
  rw [findFrom, Option.map_eq_none_iff]
  cases hfound : find pat (text.drop pos) with
  | none => rfl
  | some i =>
      have hstarts := (find_eq_some_iff.mp hfound).2.1
      rw [List.drop_drop] at hstarts
      exact absurd (hstarts.isInfix.trans (List.drop_suffix _ text).isInfix) h

/-- A text whose every LF has become CRLF twice shows no blank line. -/
theorem armorDecode_lfToCrlf_lfToCrlf (text : Bytes) :
    armorDecode (lfToCrlf (lfToCrlf text)) = none := by
  have hlf := not_blankLf_lfToCrlf (lfToCrlf text)
  have hcrlf : ¬ [CR, LF, CR, LF] <:+: lfToCrlf (lfToCrlf text) :=
    fun h => not_blankLf_lfToCrlf text (blankLf_of_blankCrlf h)
  have hblank (pos : ℕ) : blankLineEnd (lfToCrlf (lfToCrlf text)) pos = none := by
    rw [blankLineEnd, findFrom_none_of_not_infix hlf, findFrom_none_of_not_infix hcrlf]
  rw [armorDecode]
  cases findFrom (ascii "-----BEGIN ") (lfToCrlf (lfToCrlf text)) 0 with
  | none => rfl
  | some beginPos =>
      dsimp only
      cases findFrom (ascii "-----") (lfToCrlf (lfToCrlf text)) (beginPos + 11) with
      | none => rfl
      | some labelEnd =>
          dsimp only
          rw [hblank]

/-! ### The round trip -/

/-- No dash and no line break. -/
def CleanLabel (label : Bytes) : Prop := ∀ c ∈ label, c ≠ DASH ∧ c ≠ CR ∧ c ≠ LF

section RoundTrip

variable {label : Bytes} (hlabel : CleanLabel label) (data : Bytes)

include hlabel

theorem CleanLabel.lfToCrlf_armorText (returns : ℕ) :
    lfToCrlf (armorText returns label data) = armorText (returns + 1) label data :=
  Pgp.lfToCrlf_armorText (fun h => (hlabel LF h).2.2 rfl) returns data

theorem CleanLabel.cr_not_mem_armorText : CR ∉ armorText 0 label data := by
  have hcr : CR ∉ label := fun h => (hlabel CR h).2.1 rfl
  have hb64 (octets : Bytes) : CR ∉ base64Encode octets := fun h => (mem_base64Encode h).2.1 rfl
  have hlines (b64 : Bytes) (h : CR ∉ b64) : CR ∉ textLines 0 b64 := by
    fun_induction textLines 0 b64 with
    | case1 => simp
    | case2 b64 hne ih =>
        have htake : CR ∉ b64.take 64 := fun hmem => h (List.mem_of_mem_take hmem)
        have hdrop := ih fun hmem => h (List.mem_of_mem_drop hmem)
        have hend : CR ∉ lineEnd 0 := by decide
        simp [htake, hdrop, hend]
  have hbegin : CR ∉ ascii "-----BEGIN " := by decide
  have hdashes : CR ∉ ascii "-----" := by decide
  have hheader : CR ∉ headerText 0 := by decide
  have hend : CR ∉ ascii "-----END " := by decide
  have hline : CR ∉ lineEnd 0 := by decide
  have hequals : CR ≠ EQUALS := by decide
  simp [armorText, armorSection, hcr, hb64, hlines _ (hb64 data), hbegin, hdashes, hheader, hend,
    hline, hequals]

/-- A block is read back under the line ends it was written with, and under line feeds alone. A
return more before each line feed hides the blank line behind its headers. -/
theorem armorDecode_lineEnds :
    armorDecode (armorEncode label data) = some (label, data) ∧
      armorDecode (crlfToLf (armorEncode label data)) = some (label, data) ∧
        armorDecode (lfToCrlf (armorEncode label data)) = none := by
  have hdash : DASH ∉ label := fun h => (hlabel DASH h).1 rfl
  have hread (returns : ℕ) (hreturns : returns ≤ 1) :
      armorDecode (armorText returns label data) = some (label, data) := by
    have hdecode := armorDecode_armorText hreturns hdash data []
    rwa [List.append_nil] at hdecode
  have hwritten : armorEncode label data = lfToCrlf (armorText 0 label data) := by
    rw [armorEncode_eq, hlabel.lfToCrlf_armorText]
  refine ⟨?_, ?_, ?_⟩
  · rw [armorEncode_eq]
    exact hread 1 le_rfl
  · rw [hwritten, crlfToLf_lfToCrlf (hlabel.cr_not_mem_armorText data)]
    exact hread 0 (Nat.zero_le 1)
  · rw [hwritten]
    exact armorDecode_lfToCrlf_lfToCrlf _

end RoundTrip

/-- A hundred octets, which are three lines of base64. -/
def hundredOctets : Bytes := (List.range 100).map UInt8.ofNat

theorem armorDecode_lineEnds_hundredOctets :
    armorDecode (armorEncode (ascii "PGP MESSAGE") hundredOctets) =
        some (ascii "PGP MESSAGE", hundredOctets) ∧
      armorDecode (crlfToLf (armorEncode (ascii "PGP MESSAGE") hundredOctets)) =
        some (ascii "PGP MESSAGE", hundredOctets) ∧
      armorDecode (lfToCrlf (armorEncode (ascii "PGP MESSAGE") hundredOctets)) = none :=
  armorDecode_lineEnds (by unfold CleanLabel; decide +kernel) hundredOctets

theorem emptyMessage_unread : ¬ ∀ label data : Bytes, CleanLabel label →
    armorDecode (armorEncode label data) = some (label, data) ∧
      armorDecode (lfToCrlf (armorEncode label data)) = some (label, data) := by
  intro h
  have hclean : CleanLabel (ascii "PGP MESSAGE") := by unfold CleanLabel; decide +kernel
  have hread := (h _ [] hclean).2
  have hwritten := hclean.lfToCrlf_armorText [] 0
  rw [armorEncode_eq, ← hwritten, armorDecode_lfToCrlf_lfToCrlf] at hread
  cases hread

/-! ### Checksum lines -/

/-- The label, and the lines between the blank line and the END line. -/
def armorParts (text : Bytes) : Option (Bytes × List Bytes) := do
  let beginPos ← findFrom (ascii "-----BEGIN ") text 0
  let labelStart := beginPos + 11
  let labelEnd ← findFrom (ascii "-----") text labelStart
  let blockType := (text.drop labelStart).take (labelEnd - labelStart)
  let dataStart ← blankLineEnd text (labelEnd + 5)
  let endPos ← findFrom (ascii "-----END " ++ blockType ++ ascii "-----") text dataStart
  pure (blockType, splitLines [] ((text.drop dataStart).take (endPos - dataStart)))

def isChecksumLine (line : Bytes) : Bool := line.head? = some EQUALS

/-- The lines that start with `=`. -/
def checksumLines (text : Bytes) : List Bytes :=
  ((armorParts text).elim [] Prod.snd).filter isChecksumLine

/-- `=` and four characters that stand for these octets. -/
def ChecksumIs (crc line : Bytes) : Prop :=
  ∃ four : Bytes, line = EQUALS :: four ∧ four.length = 4 ∧ base64Decode four = crc

section Checksum

variable {text label data crc : Bytes} {lines : List Bytes}

theorem armorDecode_eq (text : Bytes) :
    armorDecode text = (armorParts text).bind fun (label, lines) =>
      let collected := lines.foldl collectLine ([], [])
      if checksumMatches collected.2 (base64Decode collected.1) then
        some (label, base64Decode collected.1)
      else none := by
  rw [armorDecode, armorParts]
  cases findFrom (ascii "-----BEGIN ") text 0 with
  | none => rfl
  | some beginPos =>
      dsimp only [Option.bind_eq_bind, Option.bind_some]
      cases findFrom (ascii "-----") text (beginPos + 11) with
      | none => rfl
      | some labelEnd =>
          dsimp only [Option.bind_some]
          cases blankLineEnd text (labelEnd + 5) with
          | none => rfl
          | some dataStart =>
              dsimp only [Option.bind_some]
              cases findFrom (ascii "-----END " ++
                  (text.drop (beginPos + 11)).take (labelEnd - (beginPos + 11)) ++ ascii "-----")
                text dataStart with
              | none => rfl
              | some endPos => rfl

/-- What has been collected as a checksum stays. -/
theorem collect_keeps {acc : Bytes × Bytes} (h : acc.2 ≠ []) (lines : List Bytes) :
    (lines.foldl collectLine acc).2 = acc.2 := by
  induction lines generalizing acc with
  | nil => rfl
  | cons line lines ih =>
      have hline : (collectLine acc line).2 = acc.2 := by
        cases line with
        | nil => rfl
        | cons c cs => rw [collectLine, if_neg fun hc => h hc.2]
      rw [List.foldl_cons, ih (by rwa [hline]), hline]

/-- The first checksum line with something behind its `=` is the one that is collected. -/
theorem collect_checksum (acc : Bytes × Bytes) (hacc : acc.2 = []) {line : Bytes}
    (hline : line ∈ lines) (hchecksum : isChecksumLine line)
    (hfull : ∀ line ∈ lines, isChecksumLine line → line.tail ≠ []) :
    ∃ first ∈ lines, isChecksumLine first ∧ (lines.foldl collectLine acc).2 = first.tail := by
  induction lines generalizing acc with
  | nil => cases hline
  | cons head lines ih =>
      have hrest : ∀ line ∈ lines, isChecksumLine line → line.tail ≠ [] :=
        fun line hmem => hfull line (List.mem_cons_of_mem _ hmem)
      by_cases hhead : isChecksumLine head
      · obtain ⟨cs, rfl⟩ : ∃ cs, head = EQUALS :: cs := by
          cases head with
          | nil => cases hhead
          | cons c cs => exact ⟨cs, by rw [Option.some.inj (of_decide_eq_true hhead)]⟩
        have hcollect : collectLine acc (EQUALS :: cs) = (acc.1, cs) := by
          rw [collectLine, if_pos ⟨rfl, hacc⟩]
        have hcs : cs ≠ [] := hfull _ List.mem_cons_self hhead
        exact ⟨EQUALS :: cs, List.mem_cons_self, hhead, by
          rw [List.foldl_cons, hcollect]
          exact collect_keeps hcs lines⟩
      · have hmem : line ∈ lines := by
          rcases List.mem_cons.mp hline with rfl | hmem
          · exact absurd hchecksum hhead
          · exact hmem
        have hcollect : (collectLine acc head).2 = [] := by
          cases head with
          | nil => exact hacc
          | cons c cs =>
              have hc : c ≠ EQUALS := by
                rintro rfl
                exact hhead (decide_eq_true rfl)
              rw [collectLine, if_neg fun h => hc h.1, hacc]
        obtain ⟨first, hfirst, hisChecksum, heq⟩ := ih _ hcollect hmem hrest
        exact ⟨first, List.mem_cons_of_mem _ hfirst, hisChecksum, heq⟩

/-- Three octets that match are the checksum. -/
theorem eq_crcOctets {crcB64 : Bytes} (hne : crcB64 ≠ []) (hcrc : base64Decode crcB64 = crc)
    (hlength : crc.length = 3) (h : checksumMatches crcB64 data = true) : crc = crcOctets data := by
  rw [checksumMatches, hcrc] at h
  have hvalue : (crc24 data).toNat = ofOctets crc := by simpa [hne, hlength] using h
  rw [crcOctets, hvalue, ← hlength, toOctets_ofOctets]

/-- In a text that is decoded, every checksum line holds the checksum of the data just when the
checksum lines are all written out, and all say the same. -/
theorem checksumEnforced_iff (h : armorDecode text = some (label, data)) :
    (∀ line ∈ checksumLines text, ChecksumIs (crcOctets data) line) ↔
      ∃ crc : Bytes, crc.length = 3 ∧ ∀ line ∈ checksumLines text, ChecksumIs crc line := by
  constructor
  · exact fun hlines => ⟨crcOctets data, length_toOctets 3 _, hlines⟩
  · rintro ⟨crc, hlength, hlines⟩ line hline
    rw [armorDecode_eq] at h
    obtain ⟨⟨label', lines⟩, hparts, h⟩ := Option.bind_eq_some_iff.mp h
    have hchecksums : checksumLines text = lines.filter isChecksumLine := by
      rw [checksumLines, hparts]
      rfl
    rw [hchecksums] at hlines hline
    obtain ⟨hmem, hchecksum⟩ := List.mem_filter.mp hline
    have hfull : ∀ line ∈ lines, isChecksumLine line → line.tail ≠ [] := by
      intro other hother hisChecksum
      obtain ⟨four, rfl, hfour, -⟩ := hlines other (List.mem_filter.mpr ⟨hother, hisChecksum⟩)
      exact List.length_pos_iff.mp (by rw [List.tail_cons]; omega)
    obtain ⟨first, hfirst, hisChecksum, hcollected⟩ :=
      collect_checksum ([], []) rfl hmem hchecksum hfull
    obtain ⟨four, rfl, hfour, hcrc⟩ := hlines first (List.mem_filter.mpr ⟨hfirst, hisChecksum⟩)
    dsimp only at h
    rw [hcollected] at h
    by_cases hmatches : checksumMatches four (base64Decode (lines.foldl collectLine ([], [])).1) = true
    · rw [List.tail_cons, if_pos hmatches] at h
      obtain ⟨-, hdata⟩ := Prod.mk.inj (Option.some.inj h)
      rw [hdata] at hmatches
      have hne : four ≠ [] := List.length_pos_iff.mp (by omega)
      rw [← eq_crcOctets hne hcrc hlength hmatches]
      exact hlines line hline
    · rw [List.tail_cons, if_neg hmatches] at h
      cases h

end Checksum

theorem checksumEnforced_message :
    (∀ line ∈ checksumLines (armorEncode (ascii "PGP MESSAGE") (ascii "hi")),
        ChecksumIs (crcOctets (ascii "hi")) line) ↔
      ∃ crc : Bytes, crc.length = 3 ∧
        ∀ line ∈ checksumLines (armorEncode (ascii "PGP MESSAGE") (ascii "hi")), ChecksumIs crc line :=
  have hdecode : armorDecode (armorEncode (ascii "PGP MESSAGE") (ascii "hi")) =
      some (ascii "PGP MESSAGE", ascii "hi") := by
    have hroundTrip := armorDecode_armorEncode (show DASH ∉ ascii "PGP MESSAGE" by decide)
      (ascii "hi") []
    rwa [List.append_nil] at hroundTrip
  checksumEnforced_iff hdecode

/-- A block whose checksum line is one character short. -/
def cutChecksum : Bytes :=
  ascii "-----BEGIN X-----\n\naGk=\n=AAA\n-----END X-----\n"

theorem cutChecksum_decoded : armorDecode cutChecksum = some (ascii "X", ascii "hi") := by
  decide

theorem cutChecksum_ignored : ¬ ∀ text label data : Bytes, armorDecode text = some (label, data) →
    ∀ line ∈ checksumLines text, ChecksumIs (crcOctets data) line := by
  intro h
  have hmem : ascii "=AAA" ∈ checksumLines cutChecksum := by decide
  obtain ⟨four, hline, hfour, -⟩ := h _ _ _ cutChecksum_decoded _ hmem
  obtain rfl : ascii "AAA" = four := (List.cons.inj hline).2
  exact absurd hfour (by decide)

end HashCryptoLib.Pgp
