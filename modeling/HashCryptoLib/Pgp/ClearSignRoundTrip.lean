import HashCryptoLib.Pgp.ClearSign

/-!
What is read back of a clear-signed text. A text is the lines that it has between
its LFs. Each of them loses every CR on the way, all of them are cut off at the
first marker of a signature, and the last of several is lost when it is empty;
the texts that suffer none of this verify.
-/

namespace HashCryptoLib.Pgp

open BigEndian Cursor Search

/-! ### The lines of a text -/

/-- The lines between the LFs, made canonical. -/
def canonicalLines (text : Bytes) : List Bytes := (text.splitOn LF).map canonicalLine

/-- The loop over a text finishes the lines between its LFs. -/
theorem foldl_splitChar (text : Bytes) (lines : List Bytes) {current : Bytes}
    (hcurrent : LF ∉ current) :
    (text.foldl splitChar (lines, current)).1 ++
        [canonicalLine (text.foldl splitChar (lines, current)).2] =
      lines ++ canonicalLines (current ++ text) := by
  induction text generalizing lines current with
  | nil =>
      rw [List.append_nil, canonicalLines, List.splitOn_eq_singleton hcurrent]
      rfl
  | cons c text ih =>
      rw [List.foldl_cons, splitChar]
      dsimp only
      split_ifs with hc
      · subst hc
        rw [ih _ List.not_mem_nil, canonicalLines, canonicalLines,
          List.splitOn_append_cons_self_of_not_mem hcurrent, List.map_cons, List.append_assoc]
        rfl
      · rw [ih lines (by simpa [hcurrent] using Ne.symm hc), List.append_assoc,
          List.singleton_append]

theorem foldl_splitChar_ne_nil {text : Bytes} (h : text ≠ []) :
    (text.foldl splitChar ([], [])).2 ≠ [] ∨ (text.foldl splitChar ([], [])).1 ≠ [] := by
  induction text using List.reverseRecOn with
  | nil => exact absurd rfl h
  | append_singleton text c _ =>
      rw [List.foldl_append, List.foldl_cons, List.foldl_nil, splitChar]
      split_ifs
      · right
        simp
      · left
        simp

/-- A text has the lines between its LFs, but for the empty one, which has none. -/
theorem splitAndCanonicalizeLines_eq {text : Bytes} (h : text ≠ []) :
    splitAndCanonicalizeLines text = canonicalLines text := by
  have hloop := foldl_splitChar text [] List.not_mem_nil
  rw [splitAndCanonicalizeLines]
  dsimp only
  rw [if_pos (foldl_splitChar_ne_nil h), hloop]
  rfl

/-! ### The size of a document -/

/-- The octets that lines take, each with its CRLF. -/
def linesSize (lines : List Bytes) : ℕ := (lines.map fun line => line.length + 2).sum

@[simp] theorem linesSize_nil : linesSize [] = 0 := rfl

@[simp] theorem linesSize_cons (line : Bytes) (lines : List Bytes) :
    linesSize (line :: lines) = line.length + 2 + linesSize lines := rfl

@[simp] theorem linesSize_append (lines lines' : List Bytes) :
    linesSize (lines ++ lines') = linesSize lines + linesSize lines' := by
  simp [linesSize]

/-- The last line has no CRLF. -/
theorem length_joinLines (lines : List Bytes) : (joinLines lines).length = linesSize lines - 2 := by
  induction lines with
  | nil => rfl
  | cons line lines ih =>
      cases lines with
      | nil => simp [joinLines]
      | cons next lines =>
          show (line ++ CR :: LF :: joinLines (next :: lines)).length = _
          simp only [List.length_append, List.length_cons, ih, linesSize_cons]
          omega

theorem linesSize_le_of_front {lines lines' : List Bytes} (h : lines <+: lines') :
    linesSize lines ≤ linesSize lines' := by
  obtain ⟨rest, rfl⟩ := h
  simp

/-! ### One line there and back -/

/-- What the reader makes of a written line: it drops every CR, undoes the dash and
strips the blanks. -/
def rereadLine (line : Bytes) : Bytes :=
  stripBlanks (dashUnescape ((dashEscape line).filter (· ≠ CR)))

section Line

variable {line : Bytes}

theorem length_dashUnescape_le (line : Bytes) : (dashUnescape line).length ≤ line.length := by
  unfold dashUnescape
  split
  · split_ifs
    · simp only [List.length_cons]
      omega
    · exact le_rfl
  · exact le_rfl

theorem length_stripBlanks_le (line : Bytes) : (stripBlanks line).length ≤ line.length :=
  (List.rdropWhile_prefix _ _).length_le

theorem dashUnescape_of_head (h : line.head? ≠ some DASH) : dashUnescape line = line := by
  unfold dashUnescape
  split
  · rename_i c d rest
    rw [if_neg fun hcd => h (congrArg some hcd.1)]
  · rfl

/-- An escaped line without its CRs is shorter than the line by those, and
unescaped again. -/
theorem length_unescaped_le (line : Bytes) :
    (dashUnescape ((dashEscape line).filter (· ≠ CR))).length ≤ (line.filter (· ≠ CR)).length := by
  rw [dashEscape]
  split_ifs with hdash
  · have hescape : (DASH :: SPACE :: line).filter (· ≠ CR) =
        DASH :: SPACE :: line.filter (· ≠ CR) := rfl
    rw [hescape, dashUnescape, if_pos ⟨rfl, rfl⟩]
  · exact length_dashUnescape_le _

theorem length_rereadLine_le (line : Bytes) :
    (rereadLine line).length ≤ (line.filter (· ≠ CR)).length :=
  (length_stripBlanks_le _).trans (length_unescaped_le line)

theorem linesSize_rereadLine_le (lines : List Bytes) :
    linesSize (lines.map rereadLine) ≤ linesSize lines := by
  induction lines with
  | nil => exact le_rfl
  | cons line lines ih =>
      have hline := length_rereadLine_le line
      have hkept := List.length_filter_le (· ≠ CR) line
      simp only [List.map_cons, linesSize_cons]
      omega

/-- Without a CR a canonical line comes back. -/
theorem rereadLine_eq (hcanonical : stripBlanks line = line) (hcr : CR ∉ line) :
    rereadLine line = line := by
  have hkept : line.filter (· ≠ CR) = line :=
    List.filter_eq_self.mpr fun c hc => by
      rw [decide_eq_true_eq]
      exact fun h => hcr (h ▸ hc)
  have hunescaped : dashUnescape ((dashEscape line).filter (· ≠ CR)) = line := by
    rw [dashEscape]
    split_ifs with hdash
    · have hescape : (DASH :: SPACE :: line).filter (· ≠ CR) =
          DASH :: SPACE :: line.filter (· ≠ CR) := rfl
      rw [hescape, dashUnescape, if_pos ⟨rfl, rfl⟩, hkept]
    · rw [hkept, dashUnescape_of_head hdash]
  rw [rereadLine, hunescaped, hcanonical]

theorem lf_not_mem_dashEscape (h : LF ∉ line) : LF ∉ dashEscape line := by
  have hdash : LF ≠ DASH := by decide
  have hspace : LF ≠ SPACE := by decide
  rw [dashEscape]
  split_ifs <;> simp [h, hdash, hspace]

/-- The escape does not make a marker. -/
theorem marker_of_dashEscape (h : signatureMarker <:+: dashEscape line) :
    signatureMarker <:+: line := by
  rw [dashEscape] at h
  split_ifs at h
  · rcases List.infix_cons_iff.mp h with hdash | h
    · have hsecond := (List.cons_prefix_cons.mp (List.cons_prefix_cons.mp hdash).2).1
      exact absurd hsecond (by decide)
    rcases List.infix_cons_iff.mp h with hspace | h
    · exact absurd (List.cons_prefix_cons.mp hspace).1 (by decide)
    · exact h
  · exact h

theorem marker_dashEscape (h : signatureMarker <:+: line) :
    signatureMarker <:+: dashEscape line := by
  rw [dashEscape]
  split_ifs
  · exact List.infix_cons (List.infix_cons h)
  · exact h

theorem length_dashEscape_le (line : Bytes) : (dashEscape line).length ≤ line.length + 2 := by
  rw [dashEscape]
  split_ifs <;> simp

end Line

/-! ### The lines there and back -/

section Lines

variable {lines : List Bytes}

theorem writtenLines_cons (line : Bytes) (lines : List Bytes) :
    writtenLines (line :: lines) = dashEscape line ++ CR :: LF :: writtenLines lines := by
  rw [writtenLines, List.flatMap_cons, List.append_assoc]
  rfl

theorem writtenLines_append (lines lines' : List Bytes) :
    writtenLines (lines ++ lines') = writtenLines lines ++ writtenLines lines' :=
  List.flatMap_append

/-- Up to the next LF the reader collects everything but the CRs. -/
theorem splitLines_append {text : Bytes} (h : LF ∉ text) (current rest : Bytes) :
    splitLines current (text ++ rest) = splitLines (current ++ text.filter (· ≠ CR)) rest := by
  induction text generalizing current with
  | nil => rw [List.filter_nil, List.append_nil, List.nil_append]
  | cons c text ih =>
      obtain ⟨hc, htext⟩ := not_or.mp (List.mem_cons.not.mp h)
      rw [List.cons_append, splitLines, if_neg (Ne.symm hc)]
      split_ifs with hcr
      · have hkept : (c :: text).filter (· ≠ CR) = c :: text.filter (· ≠ CR) :=
          List.filter_cons_of_pos (by simpa using hcr)
        rw [ih htext, hkept, List.append_assoc, List.singleton_append]
      · have hdropped : (c :: text).filter (· ≠ CR) = text.filter (· ≠ CR) :=
          List.filter_cons_of_neg (by simpa using hcr)
        rw [ih htext, hdropped]

theorem splitLines_writtenLines (h : ∀ line ∈ lines, LF ∉ line) (rest : Bytes) :
    splitLines [] (writtenLines lines ++ rest) =
      lines.map (fun line => (dashEscape line).filter (· ≠ CR)) ++ splitLines [] rest := by
  induction lines with
  | nil => rfl
  | cons line lines ih =>
      have hline := lf_not_mem_dashEscape (h line List.mem_cons_self)
      have hlines := ih fun line' hmem => h line' (List.mem_cons_of_mem _ hmem)
      rw [writtenLines_cons, List.append_assoc, splitLines_append hline, List.cons_append,
        List.cons_append, splitLines, if_neg (by decide), if_neg (not_not.mpr rfl), splitLines,
        if_pos rfl, hlines]
      rfl

/-- The document that the reader makes of a body. -/
def rereadDocument (bodySection : Bytes) : Bytes :=
  joinLines ((rawLines bodySection).map fun line => stripBlanks (dashUnescape line))

/-- The reader leaves out one line at most. -/
theorem rawLines_front (bodySection : Bytes) : rawLines bodySection <+: splitLines [] bodySection := by
  rw [rawLines]
  split_ifs
  · exact List.dropLast_prefix _
  · exact List.prefix_rfl

/-- The lines that a written body is split into. -/
theorem splitLines_body (h : ∀ line ∈ lines, LF ∉ line) :
    splitLines [] (writtenLines lines) =
      lines.map fun line => (dashEscape line).filter (· ≠ CR) := by
  have hsplit := splitLines_writtenLines h []
  rw [List.append_nil] at hsplit
  rw [hsplit]
  exact List.append_nil _

/-- Lines without a CR come back, if the last of several is not empty. -/
theorem rereadDocument_writtenLines (hcanonical : ∀ line ∈ lines, IsCanonical line)
    (hcr : ∀ line ∈ lines, CR ∉ line) (hlast : lines.length ≤ 1 ∨ lines.getLast? ≠ some []) :
    rereadDocument (writtenLines lines) = joinLines lines := by
  have hreread : lines.map rereadLine = lines := by
    rw [List.map_congr_left fun line hmem =>
      rereadLine_eq (hcanonical line hmem).2 (hcr line hmem)]
    exact List.map_id' lines
  have hsplit := splitLines_body fun line hmem => (hcanonical line hmem).1
  rw [rereadDocument, rawLines, hsplit]
  split_ifs with hempty
  · -- the last line is empty, so it is the only one
    rw [List.getLast?_map, Option.map_eq_some_iff] at hempty
    obtain ⟨line, hline, hescaped⟩ := hempty
    have hmem := List.mem_of_getLast? hline
    have hshort := length_rereadLine_le line
    have hnil : line = [] := by
      rw [← rereadLine_eq (hcanonical line hmem).2 (hcr line hmem), rereadLine, hescaped]
      rfl
    subst hnil
    have hone := hlast.resolve_right (not_not.mpr hline)
    obtain ⟨line, rfl⟩ : ∃ line, lines = [line] := by
      rw [← List.length_eq_one_iff]
      have := List.length_pos_of_mem hmem
      omega
    obtain rfl := Option.some.inj hline
    rfl
  · rw [List.map_map]
    exact congrArg joinLines hreread

/-- Lines that take no less room when they come back had no CR. -/
theorem cr_not_mem_of_linesSize (h : linesSize lines ≤ linesSize (lines.map rereadLine)) :
    ∀ line ∈ lines, CR ∉ line := by
  induction lines with
  | nil => exact fun line hmem => absurd hmem List.not_mem_nil
  | cons line lines ih =>
      have hline := length_rereadLine_le line
      have hkept := List.length_filter_le (· ≠ CR) line
      have hlines := linesSize_rereadLine_le lines
      rw [List.map_cons, linesSize_cons, linesSize_cons] at h
      intro line' hmem
      rcases List.mem_cons.mp hmem with rfl | hmem
      · intro hcr
        have hlost : (line'.filter (· ≠ CR)).length < line'.length :=
          List.length_filter_lt_length_iff_exists.mpr ⟨CR, hcr, by simp⟩
        omega
      · exact ih (by omega) line' hmem

/-- A document that comes back is one of lines without a CR, and of several the last
is not empty. -/
theorem clean_of_rereadDocument (hlf : ∀ line ∈ lines, LF ∉ line)
    (h : rereadDocument (writtenLines lines) = joinLines lines) :
    (∀ line ∈ lines, CR ∉ line) ∧ (lines.length ≤ 1 ∨ lines.getLast? ≠ some []) := by
  have hsize := congrArg List.length h
  rw [rereadDocument, length_joinLines, length_joinLines, rawLines, splitLines_body hlf] at hsize
  split_ifs at hsize with hempty
  · -- the last line is left out
    induction lines using List.reverseRecOn with
    | nil => exact absurd hempty (Option.some_ne_none _).symm
    | append_singleton lines last _ =>
        rw [List.map_append, List.map_singleton, List.dropLast_concat, List.map_map,
          linesSize_append] at hsize
        change linesSize (lines.map rereadLine) - 2 = _ at hsize
        have hle := linesSize_rereadLine_le lines
        cases lines with
        | nil =>
            have hlast : last = [] := by
              rw [← List.length_eq_zero_iff]
              simpa using hsize.symm
            subst hlast
            simp
        | cons line lines =>
            simp only [List.map_cons, linesSize_cons, linesSize_nil] at hsize hle
            omega
  · rw [List.map_map] at hsize
    change linesSize (lines.map rereadLine) - 2 = _ at hsize
    constructor
    · apply cr_not_mem_of_linesSize
      cases lines with
      | nil => exact le_rfl
      | cons line lines =>
          simp only [List.map_cons, linesSize_cons] at hsize ⊢
          omega
    · right
      intro hlast
      apply hempty
      rw [List.getLast?_map, hlast]
      rfl

/-- A document that is cut off is too short. -/
theorem rereadDocument_cut {before : List Bytes} {line : Bytes} {kept : ℕ}
    (hbefore : ∀ line ∈ before, LF ∉ line) (hline : LF ∉ line)
    (hkept : kept + signatureMarker.length ≤ (dashEscape line).length) (after : List Bytes) :
    (rereadDocument (writtenLines before ++ (dashEscape line).take kept)).length <
      (joinLines (before ++ line :: after)).length := by
  have htake : LF ∉ (dashEscape line).take kept := fun hmem =>
    lf_not_mem_dashEscape hline (List.mem_of_mem_take hmem)
  have hescape := length_dashEscape_le line
  have hmarker : signatureMarker.length = 29 := rfl
  have hlast : linesSize ((splitLines [] ((dashEscape line).take kept)).map fun line =>
      stripBlanks (dashUnescape line)) ≤ kept + 2 := by
    have hsplit := splitLines_append htake [] []
    rw [List.append_nil, List.nil_append, splitLines] at hsplit
    rw [hsplit]
    split_ifs
    · exact Nat.zero_le _
    · have hstrip := length_stripBlanks_le
        (dashUnescape (((dashEscape line).take kept).filter (· ≠ CR)))
      have hunescape := length_dashUnescape_le (((dashEscape line).take kept).filter (· ≠ CR))
      have hfilter := List.length_filter_le (· ≠ CR) ((dashEscape line).take kept)
      have hlength := List.length_take_le kept (dashEscape line)
      simp only [List.map_cons, List.map_nil, linesSize_cons, linesSize_nil]
      omega
  have hfirst := linesSize_rereadLine_le before
  have hraw := linesSize_le_of_front ((rawLines_front
    (writtenLines before ++ (dashEscape line).take kept)).map fun line =>
      stripBlanks (dashUnescape line))
  rw [splitLines_writtenLines hbefore, List.map_append, List.map_map, linesSize_append] at hraw
  change _ ≤ linesSize (before.map rereadLine) + _ at hraw
  rw [rereadDocument, length_joinLines, length_joinLines, linesSize_append, linesSize_cons]
  omega

/-! ### The marker of the signature -/

/-- Behind lines without a marker the search goes on. -/
theorem find_marker_writtenLines (h : ∀ line ∈ lines, ¬ signatureMarker <:+: line) (rest : Bytes) :
    find signatureMarker (writtenLines lines ++ rest) =
      (find signatureMarker rest).map ((writtenLines lines).length + ·) := by
  induction lines with
  | nil =>
      show find signatureMarker rest = _
      cases find signatureMarker rest <;> simp [writtenLines]
  | cons line lines ih =>
      have hline := mt marker_of_dashEscape (h line List.mem_cons_self)
      have hlf : ¬ signatureMarker <:+: ([] : Bytes) := by decide
      have hlines := ih fun line' hmem => h line' (List.mem_cons_of_mem _ hmem)
      rw [writtenLines_cons, List.append_assoc, List.cons_append,
        find_append_cons_of_not_infix (by decide) hline, List.cons_append]
      rw [show LF :: (writtenLines lines ++ rest) = [] ++ LF :: (writtenLines lines ++ rest) from rfl,
        find_append_cons_of_not_infix (by decide) hlf, hlines, Option.map_map, Option.map_map]
      congr 1
      funext i
      simp only [Function.comp, List.length_append, List.length_cons, List.length_nil]
      omega

/-- The first line with a marker is cut off at the marker. -/
theorem find_marker_cut {before : List Bytes} {line : Bytes}
    (hbefore : ∀ line ∈ before, ¬ signatureMarker <:+: line)
    (hline : signatureMarker <:+: line) (rest : Bytes) :
    ∃ kept : ℕ, kept + signatureMarker.length ≤ (dashEscape line).length ∧
      find signatureMarker (writtenLines before ++ (dashEscape line ++ rest)) =
        some ((writtenLines before).length + kept) := by
  obtain ⟨front, back, hescaped⟩ := marker_dashEscape hline
  have hat : signatureMarker <+: (dashEscape line ++ rest).drop front.length := by
    rw [← hescaped, List.append_assoc, List.append_assoc, List.drop_left]
    exact List.prefix_append _ _
  obtain ⟨kept, hle, hfind⟩ := exists_find_le hat
  refine ⟨kept, ?_, ?_⟩
  · have hlength := congrArg List.length hescaped
    simp only [List.length_append] at hlength
    omega
  · rw [find_marker_writtenLines hbefore, hfind, Option.map_some]

end Lines

/-! ### What is parsed -/

/-- A text as it is handed out. -/
def clearSigned (keyAlgorithm : PgpKeyAlgorithm) (lines : List Bytes) (sigPacket : Bytes) : Bytes :=
  clearSignHeader keyAlgorithm ++ (writtenLines lines ++ armorEncode (ascii "PGP SIGNATURE") sigPacket)

/-- The first blank line is that of the header. -/
theorem blankLineEnd_clearSignHeader (keyAlgorithm : PgpKeyAlgorithm) (rest : Bytes) :
    blankLineEnd (clearSignHeader keyAlgorithm ++ rest) 0 =
      some (clearSignHeader keyAlgorithm).length := by
  have hfirst : findFrom [CR, LF, CR, LF] (clearSignHeader keyAlgorithm ++ rest) 0 = some 48 := by
    cases keyAlgorithm <;> rfl
  have hlength : (clearSignHeader keyAlgorithm).length = 52 := by
    cases keyAlgorithm <;> rfl
  rw [blankLineEnd, hfirst, hlength]
  cases hother : findFrom [LF, LF] (clearSignHeader keyAlgorithm ++ rest) 0 with
  | none => rfl
  | some blankLf =>
      rw [findFrom, List.drop_zero, Option.map_eq_some_iff] at hother
      obtain ⟨i, hi, rfl⟩ := hother
      have hnone : ∀ j < 51, ¬ [LF, LF] <+: (clearSignHeader keyAlgorithm).drop j := by
        cases keyAlgorithm <;> decide
      have hle : 51 ≤ i := le_of_find_append hnone (by rw [hlength]; decide) hi
      exact if_pos (by omega)

/-- The body ends where the first marker is found, and the signature begins there. -/
theorem parseClearSignedBody_header (keyAlgorithm : PgpKeyAlgorithm) (wantSignature : Bool)
    {rest : Bytes} {bodyEnd : ℕ} (hfind : find signatureMarker rest = some bodyEnd) :
    parseClearSignedBody (clearSignHeader keyAlgorithm ++ rest) wantSignature =
      if wantSignature then
        (armorDecode (rest.drop bodyEnd)).map fun decoded =>
          (rereadDocument (rest.take bodyEnd), some decoded.2)
      else some (rereadDocument (rest.take bodyEnd), none) := by
  have hbegin : findFrom (ascii "-----BEGIN PGP SIGNED MESSAGE-----")
      (clearSignHeader keyAlgorithm ++ rest) 0 = some 0 := by
    cases keyAlgorithm <;> rfl
  have hbody : At (clearSignHeader keyAlgorithm ++ rest) (clearSignHeader keyAlgorithm).length rest :=
    at_append _ _
  have hmarker : findFrom signatureMarker (clearSignHeader keyAlgorithm ++ rest)
      (clearSignHeader keyAlgorithm).length =
        some ((clearSignHeader keyAlgorithm).length + bodyEnd) := by
    rw [findFrom_of_drop hbody.drop_eq, hfind, Option.map_some]
  rw [parseClearSignedBody]
  simp only [hbegin, blankLineEnd_clearSignHeader, hmarker, Nat.add_sub_cancel_left,
    ← List.drop_drop, hbody.drop_eq]
  rfl

/-- The signature's own marker. -/
theorem find_marker_armor (sigPacket : Bytes) :
    find signatureMarker (armorEncode (ascii "PGP SIGNATURE") sigPacket) = some 0 := by
  apply find_of_starts
  refine ⟨[CR, LF] ++ ascii "Version: HashCryptoLib CPgpEngine\r\n\r\n" ++
    armorLines (base64Encode sigPacket) ++
    EQUALS :: base64Encode (crcOctets sigPacket) ++ [CR, LF] ++
    ascii "-----END " ++ ascii "PGP SIGNATURE" ++ ascii "-----\r\n", ?_⟩
  rw [armorEncode]
  simp only [List.append_assoc]
  rfl

section Parse

variable {lines : List Bytes}

theorem parseClearSignedBody_clean (keyAlgorithm : PgpKeyAlgorithm) (sigPacket : Bytes)
    (wantSignature : Bool) (hmarker : ∀ line ∈ lines, ¬ signatureMarker <:+: line) :
    parseClearSignedBody (clearSigned keyAlgorithm lines sigPacket) wantSignature =
      some (rereadDocument (writtenLines lines), if wantSignature then some sigPacket else none) := by
  have hfind : find signatureMarker
      (writtenLines lines ++ armorEncode (ascii "PGP SIGNATURE") sigPacket) =
        some (writtenLines lines).length := by
    rw [find_marker_writtenLines hmarker, find_marker_armor]
    rfl
  have hdecode : armorDecode (armorEncode (ascii "PGP SIGNATURE") sigPacket) =
      some (ascii "PGP SIGNATURE", sigPacket) := by
    have hwhole := armorDecode_armorEncode (show DASH ∉ ascii "PGP SIGNATURE" by decide) sigPacket []
    rwa [List.append_nil] at hwhole
  rw [clearSigned, parseClearSignedBody_header keyAlgorithm wantSignature hfind, List.take_left,
    List.drop_left, hdecode]
  cases wantSignature <;> rfl

/-- The document of a text with a marker is another one. -/
theorem parseClearSignedBody_cut {keyAlgorithm : PgpKeyAlgorithm} {sigPacket document : Bytes}
    {signature : Option Bytes} (hlf : ∀ line ∈ lines, LF ∉ line)
    (hmarker : ∃ line ∈ lines, signatureMarker <:+: line)
    (h : parseClearSignedBody (clearSigned keyAlgorithm lines sigPacket) true =
      some (document, signature)) : document.length < (joinLines lines).length := by
  obtain ⟨line, hfirst⟩ : ∃ line, lines.find? (fun line => signatureMarker <:+: line) = some line := by
    rw [← Option.isSome_iff_exists, List.find?_isSome]
    simpa using hmarker
  obtain ⟨hline, before, after, rfl, hbefore⟩ := List.find?_eq_some_iff_append.mp hfirst
  have hclean : ∀ line ∈ before, ¬ signatureMarker <:+: line := by simpa using hbefore
  obtain ⟨kept, hkept, hfind⟩ := find_marker_cut hclean (of_decide_eq_true hline)
    (CR :: LF :: (writtenLines after ++ armorEncode (ascii "PGP SIGNATURE") sigPacket))
  have htext : clearSigned keyAlgorithm (before ++ line :: after) sigPacket =
      clearSignHeader keyAlgorithm ++ (writtenLines before ++ (dashEscape line ++
        CR :: LF :: (writtenLines after ++ armorEncode (ascii "PGP SIGNATURE") sigPacket))) := by
    rw [clearSigned, writtenLines_append, writtenLines_cons]
    simp only [List.append_assoc, List.cons_append]
  rw [htext, parseClearSignedBody_header keyAlgorithm true hfind, if_pos rfl,
    Option.map_eq_some_iff] at h
  obtain ⟨decoded, -, hdocument⟩ := h
  obtain ⟨rfl, -⟩ := Prod.mk.inj hdocument
  rw [List.take_length_add_append, List.take_append_of_le_length (by omega)]
  exact rereadDocument_cut (fun line hmem => hlf line (List.mem_append_left _ hmem))
    (hlf line (List.mem_append_right _ List.mem_cons_self)) hkept after

end Parse

/-! ### The round trip -/

/-- No line holds a CR or the marker of a signature, and of several lines the last is
not empty. -/
def ReadsBack (text : Bytes) : Prop :=
  (∀ line ∈ canonicalLines text, CR ∉ line ∧ ¬ signatureMarker <:+: line) ∧
    ((canonicalLines text).length ≤ 1 ∨ (canonicalLines text).getLast? ≠ some [])

instance (text : Bytes) : Decidable (ReadsBack text) :=
  inferInstanceAs (Decidable ((∀ line ∈ canonicalLines text, CR ∉ line ∧ ¬ signatureMarker <:+: line) ∧
    ((canonicalLines text).length ≤ 1 ∨ (canonicalLines text).getLast? ≠ some [])))

example : ReadsBack (ascii "one \r\n- two\n\n-----BEGIN PGP MESSAGE-----") := by decide

theorem readsBack_iff (text : Bytes) :
    ReadsBack text ↔
      (∀ line ∈ splitAndCanonicalizeLines text, CR ∉ line ∧ ¬ signatureMarker <:+: line) ∧
        ((splitAndCanonicalizeLines text).length ≤ 1 ∨
          (splitAndCanonicalizeLines text).getLast? ≠ some []) := by
  by_cases htext : text = []
  · subst htext
    exact iff_of_true (by decide) (by decide)
  · rw [splitAndCanonicalizeLines_eq htext]
    exact Iff.rfl

/-- The document is read back as it was signed exactly from such texts. -/
theorem parseClearSignedBody_iff (keyAlgorithm : PgpKeyAlgorithm) (text sigPacket : Bytes) :
    (∃ signature, parseClearSignedBody
        (clearSigned keyAlgorithm (splitAndCanonicalizeLines text) sigPacket) true =
          some (clearSignedDocument text, signature)) ↔ ReadsBack text := by
  have hcanonical : ∀ line ∈ splitAndCanonicalizeLines text, IsCanonical line :=
    fun line hmem => splitAndCanonicalizeLines_canonical hmem
  have hlf : ∀ line ∈ splitAndCanonicalizeLines text, LF ∉ line :=
    fun line hmem => (hcanonical line hmem).1
  rw [readsBack_iff, clearSignedDocument]
  generalize splitAndCanonicalizeLines text = lines at *
  constructor
  · rintro ⟨signature, hparse⟩
    by_cases hmarker : ∃ line ∈ lines, signatureMarker <:+: line
    · exact absurd (parseClearSignedBody_cut hlf hmarker hparse) (lt_irrefl _)
    · have hclean : ∀ line ∈ lines, ¬ signatureMarker <:+: line :=
        fun line hmem hline => hmarker ⟨line, hmem, hline⟩
      rw [parseClearSignedBody_clean keyAlgorithm sigPacket true hclean] at hparse
      obtain ⟨hcr, hlast⟩ := clean_of_rereadDocument hlf
        (Prod.mk.inj (Option.some.inj hparse)).1
      exact ⟨fun line hmem => ⟨hcr line hmem, hclean line hmem⟩, hlast⟩
  · rintro ⟨hlines, hlast⟩
    rw [parseClearSignedBody_clean keyAlgorithm sigPacket true fun line hmem => (hlines line hmem).2,
      rereadDocument_writtenLines hcanonical (fun line hmem => (hlines line hmem).1) hlast]
    exact ⟨_, rfl⟩

theorem parseClearSignedBody_readsBack {text : Bytes} (h : ReadsBack text)
    (keyAlgorithm : PgpKeyAlgorithm) (sigPacket : Bytes) (wantSignature : Bool) :
    parseClearSignedBody (clearSigned keyAlgorithm (splitAndCanonicalizeLines text) sigPacket)
      wantSignature =
        some (clearSignedDocument text, if wantSignature then some sigPacket else none) := by
  obtain ⟨hlines, hlast⟩ := (readsBack_iff text).mp h
  rw [parseClearSignedBody_clean keyAlgorithm sigPacket wantSignature fun line hmem =>
      (hlines line hmem).2,
    rereadDocument_writtenLines (fun line hmem => splitAndCanonicalizeLines_canonical hmem)
      (fun line hmem => (hlines line hmem).1) hlast, clearSignedDocument]

/-- A clear-signed text verifies wherever the signer's block has been imported, and
the document that is read back and handed out is the one that was signed. -/
structure ComesBack (P : Primitives) (block text clearSignedString : Buffer) : Prop where
  verifies : ∀ now verifier, VerifyClearSignedString P clearSignedString
    (ImportPeerPublicKey P now block verifier).2 = { status := NO_ERROR, isValid := some true }
  document : ∃ signature, parseClearSignedBody clearSignedString.1 true =
    some (clearSignedDocument text.1, signature)
  extracted : ∀ buffer, ExtractClearSignedText clearSignedString buffer =
    deliver buffer 0 (clearSignedDocument text.1)

section Signing

variable {P : Primitives} {impl : Impl} {block text clearSignedString : Buffer} {now : UInt32}
  {password : Bytes} {buffer : Option Int32} {outcome : Outcome}

/-- A successful call hands out a text that was signed with the active key. -/
theorem ClearSignString_noError (h : ClearSignString P now password text buffer impl = .ok outcome)
    (hstatus : outcome.status = NO_ERROR) :
    (selectActiveSigningKeyMaterial impl).sign P 0x01 (clearSignedDocument text.1) [] now ≠ [] ∧
      outcome.output = clearSigned impl.keyAlgorithm (splitAndCanonicalizeLines text.1)
        ((selectActiveSigningKeyMaterial impl).sign P 0x01 (clearSignedDocument text.1) [] now) ∧
      outcome.output.length < 2 ^ 31 := by
  unfold ClearSignString at h
  split_ifs at h with hrejected
  · obtain rfl := Except.ok.inj h
    cases hstatus
  · dsimp only at h
    split_ifs at h with hunsigned
    · obtain rfl := Except.ok.inj h
      cases hstatus
    · obtain ⟨hdelivered, hlength⟩ := deliver_eq_delivered h hstatus
      rw [hdelivered, clearSigned, ← List.append_assoc]
      exact ⟨hunsigned, rfl, hlength⟩

/-- What is handed out comes back exactly from the texts that suffer nothing on the way. -/
theorem clearSign_comesBack_iff (hlawful : P.Lawful) (hpublished : Published P impl block)
    (h : ClearSignString P now password text buffer impl = .ok outcome)
    (hstatus : outcome.status = NO_ERROR) (houtput : clearSignedString.1 = outcome.output) :
    ComesBack P block text clearSignedString ↔ ReadsBack text.1 := by
  obtain ⟨hsigned, hclear, -⟩ := ClearSignString_noError h hstatus
  rw [hclear] at houtput
  constructor
  · rintro ⟨-, hdocument, -⟩
    rw [houtput] at hdocument
    exact (parseClearSignedBody_iff _ _ _).mp hdocument
  · intro hreads
    have hparse := parseClearSignedBody_readsBack hreads impl.keyAlgorithm
      ((selectActiveSigningKeyMaterial impl).sign P 0x01 (clearSignedDocument text.1) [] now)
    have hne : clearSignedString.1 ≠ [] := by
      rw [houtput, clearSigned]
      cases impl.keyAlgorithm <;> exact List.cons_ne_nil _ _
    rw [← houtput] at hparse
    refine ⟨fun importedAt verifier => ?_, ⟨_, hparse true⟩, fun buffer => ?_⟩
    · have hvalid := verifyWithPeer_active hlawful hpublished.reachable hpublished.generated
        hpublished.distinct importedAt verifier hsigned
      rw [hpublished.import, VerifyClearSignedString, if_neg (by simp [Impl.importPeer, hne]),
        hparse true]
      simp only [if_true, Option.getD_some, hvalid]
    · rw [ExtractClearSignedText, if_neg hne, hparse false]

/-- With room for the lines and the signature the call succeeds. -/
theorem ClearSignString_room (hlawful : P.Lawful) (hpublished : Published P impl block)
    (hne : password ≠ []) (hpassword : checkPasswordHash P impl.passwordCheckHash password = true)
    (now : UInt32) (text : Buffer) {capacity : Int32}
    (hcapacity : ((writtenLines (splitAndCanonicalizeLines text.1)).length : ℤ) + 2048 ≤
      capacity.toInt) :
    ClearSignString P now password text (some capacity) impl =
      .ok (delivered (clearSigned impl.keyAlgorithm (splitAndCanonicalizeLines text.1)
        ((selectActiveSigningKeyMaterial impl).sign P 0x01 (clearSignedDocument text.1) [] now))) := by
  have hkeys := hpublished.reachable.ownKeysGenerated
  obtain ⟨verificationKey, hactive⟩ := hkeys.active hpublished.generated
  have hsigned := hactive.sign_ne_nil hlawful 0x01 (clearSignedDocument text.1) [] now
  have hlength := SigningKey.length_sign P (hkeys.activeModulus_size hpublished.generated) 0x01
    (clearSignedDocument text.1) now
  have hheader : (clearSignHeader impl.keyAlgorithm).length = 52 := by
    cases impl.keyAlgorithm <;> rfl
  have hlabel : (ascii "PGP SIGNATURE").length = 13 := by decide
  rw [ClearSignString, if_neg (by simp [rejects_eq_false hpublished.generated hne hpassword])]
  dsimp only
  rw [← clearSignedDocument, if_neg hsigned, List.append_assoc, ← clearSigned]
  apply deliver_of_le
  rw [clearSigned, List.length_append, List.length_append, length_armorEncode, hheader, hlabel,
    armorSize]
  omega

end Signing

/-! ### A text that ends with a line end -/

/-- Lines with trailing blanks, with a dash in front, and one that is empty. -/
def severalLines : Buffer := ⟨ascii "Hello \t\r\n- a point\n\n--\nBye", by decide⟩

def endedLine : Buffer := ⟨ascii "hello\n", by decide⟩

/-- What the short-lived owner signs of a text. -/
def clearSignedByOwner (text : Bytes) : Bytes :=
  clearSigned shortLivedOwner.keyAlgorithm (splitAndCanonicalizeLines text)
    ((selectActiveSigningKeyMaterial shortLivedOwner).sign standIn 0x01 (clearSignedDocument text)
      [] 1500)

theorem shortLivedOwner_clearSigns {text : Buffer}
    (h : (writtenLines (splitAndCanonicalizeLines text.1)).length ≤ 100) :
    ClearSignString standIn 1500 (ascii "pw") text (some Int32.maxValue) shortLivedOwner =
      .ok (delivered (clearSignedByOwner text.1)) := by
  have hmax : Int32.maxValue.toInt = 2147483647 := rfl
  exact ClearSignString_room standIn_lawful shortLivedOwner_published (by decide)
    shortLivedOwner_password 1500 text (by omega)

theorem length_clearSignedByOwner {text : Buffer}
    (h : (writtenLines (splitAndCanonicalizeLines text.1)).length ≤ 100) :
    (clearSignedByOwner text.1).length < 2 ^ 31 :=
  (ClearSignString_noError (shortLivedOwner_clearSigns h) rfl).2.2

theorem clearSign_comesBack_severalLines :
    ComesBack standIn shortLivedBlock severalLines
      ⟨clearSignedByOwner severalLines.1, length_clearSignedByOwner (by decide +kernel)⟩ := by
  have hsigning := @shortLivedOwner_clearSigns severalLines (by decide +kernel)
  have hreads : ReadsBack severalLines.1 := by decide +kernel
  apply (clearSign_comesBack_iff standIn_lawful shortLivedOwner_published hsigning rfl ?_).mpr hreads
  show clearSignedByOwner severalLines.1 = (delivered (clearSignedByOwner severalLines.1)).output
  rw [delivered]

theorem clearSign_ended : ¬ ∀ (P : Primitives) (impl : Impl) (block : Buffer), P.Lawful →
    Published P impl block → ∀ now password text buffer outcome (clearSignedString : Buffer),
    ClearSignString P now password text buffer impl = .ok outcome → outcome.status = NO_ERROR →
    clearSignedString.1 = outcome.output → ComesBack P block text clearSignedString := by
  intro h
  have hback := h standIn shortLivedOwner shortLivedBlock standIn_lawful shortLivedOwner_published
    1500 (ascii "pw") endedLine (some Int32.maxValue) _
    ⟨clearSignedByOwner endedLine.1, length_clearSignedByOwner (by decide)⟩
    (shortLivedOwner_clearSigns (by decide)) rfl rfl
  -- the line behind the line end is empty
  have hreads := (parseClearSignedBody_iff _ _ _).mp hback.document
  exact absurd hreads (by decide)

end HashCryptoLib.Pgp
