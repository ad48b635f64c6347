import HashCryptoLib.Pgp.Bzip2Reading

/-!
The bzip2 decoder over its arrays reads what the one over lists does, up to the octets that the
symbols of a block stand for: each stage refuses where the other has no result, and hands on the
same values and bits otherwise. What a loop keeps is that the result is still the one that the
lists give from there on.
-/

namespace HashCryptoLib.Pgp.Bzip2Arrays

open CheckedArray

/-! ### Readers -/

section Readers

variable {α β : Type} {reader : Bzip2BitReader α} {f : α → Bzip2BitReader β} {bits : List Bool}

theorem reader_fails (h : reader bits = none) : (reader >>= f) bits = none := by
  show (reader bits).bind (fun read => f read.1 read.2) = none
  rw [h]
  rfl

/-- A run that reads what a reader does leaves the result to what comes behind the reader. -/
theorem meets_reader {result : Option (β × List Bool)} {run : Checked (α × List Bool)}
    (hrun : run = ofOption (reader bits)) (h : (reader >>= f) bits = result) :
    Meets (result = none) (fun read => f read.1 read.2 = result) run := by
  subst hrun
  cases hread : reader bits with
  | none =>
      rw [reader_fails hread] at h
      exact .refuses h.symm
  | some read =>
      rw [reader_bind hread] at h
      exact .returns h

theorem meets_readBits {count : ℕ} {f : ℕ → Bzip2BitReader β} {result : Option (β × List Bool)}
    (h : (ReadBits count >>= f) bits = result) :
    Meets (result = none) (fun read => f read.1 read.2 = result) (ofOption (ReadBits count bits)) :=
  meets_reader rfl h

end Readers

/-! ### Selectors -/

theorem rounds_unaryRound (numGroups j : ℕ) (bits : List Bool) :
    rounds (unaryRound numGroups) (bits.length + 1) (j, bits) =
      ofOption (readUnary numGroups j bits) := by
  apply Meets.eq_ofOption
  generalize hresult : readUnary numGroups j bits = result
  refine meets_rounds (fun s => readUnary numGroups s.1 s.2 = result) (·.2.length) (fun s hs => ?_)
    hresult (Nat.lt_succ_self _)
  obtain ⟨j, bits⟩ := s
  subst hs
  cases bits with
  | nil => exact .refuses rfl
  | cons bit bits =>
      rw [unaryRound, readBit_cons, ofOption_some, ok_bind]
      cases bit with
      | false => exact .returns rfl
      | true =>
          dsimp only
          rw [if_neg (by decide), readUnary]
          split_ifs with hmany
          · exact .refuses rfl
          · exact .returns ⟨rfl, Nat.lt_succ_self _⟩

theorem groupPositions_eq (numGroups : ℕ) :
    upFrom (fun i mtfGroupPos => writeAt mtfGroupPos i i) 0 numGroups (List.replicate numGroups 0) =
      .ok (List.range numGroups) := by
  have hloop := upFrom_eq (fun i mtfGroupPos => writeAt mtfGroupPos i i) 0 numGroups
    (fun i => filled numGroups 0 (List.range i))
    (by
      intro i _ hi
      have hwrite := @writeAt_filled ℕ numGroups (List.range i) 0
        (by rw [List.length_range]; omega) i
      rwa [List.length_range, ← List.range_succ] at hwrite)
  rwa [Nat.zero_add, filled_full List.length_range] at hloop

/-- The selectors that are left to read, behind those that are written. -/
theorem selectorPass_agrees {numGroups numSelectors left : ℕ} {mtfGroupPos done : List ℕ}
    {bits : List Bool} {result : Option (List ℕ × List Bool)} (hgroups : 0 < numGroups)
    (hpos : mtfGroupPos.length = numGroups) (hleft : done.length + (left + 1) = numSelectors)
    (h : (Pgp.readSelectors numGroups mtfGroupPos (left + 1) bits).map
      (fun read => (done ++ read.1, read.2)) = result) :
    Meets (result = none)
      (fun s => ∃ selector, s.2.1 = filled numSelectors 0 (done ++ [selector]) ∧
        s.1.length = numGroups ∧ (Pgp.readSelectors numGroups s.1 left s.2.2).map
          (fun read => (done ++ [selector] ++ read.1, read.2)) = result)
      (selectorPass numGroups done.length (mtfGroupPos, filled numSelectors 0 done, bits)) := by
  have hrank := readUnary_meets hgroups bits
  rw [rounds_unaryRound] at hrank
  rw [selectorPass]
  dsimp only
  rw [rounds_unaryRound]
  rw [Pgp.readSelectors] at h
  cases hunary : readUnary numGroups 0 bits with
  | none =>
      rw [reader_fails hunary] at h
      exact .refuses h.symm
  | some read =>
      obtain ⟨j, rest⟩ := read
      rw [hunary] at hrank
      have hj : j < mtfGroupPos.length := hpos ▸ (hrank.of_ok rfl).1
      have hget := List.getElem?_eq_getElem hj
      have hmoved : (StateT.lift (moveToFront mtfGroupPos j) : Bzip2BitReader _) rest =
          some ((mtfGroupPos[j], mtfGroupPos[j] :: mtfGroupPos.eraseIdx j), rest) := by
        rw [moveToFront_eq hget]
        rfl
      rw [reader_bind hunary, reader_bind hmoved] at h
      rw [ofOption_some, ok_bind]
      dsimp only
      rw [shiftToFront_eq hget, ok_bind]
      dsimp only
      rw [writeAt_filled (by omega), ok_bind]
      refine .returns ⟨mtfGroupPos[j], rfl, (length_moved hget).trans hpos, ?_⟩
      rw [← h]
      dsimp only
      cases hothers : Pgp.readSelectors numGroups (mtfGroupPos[j] :: mtfGroupPos.eraseIdx j) left
          rest with
      | none =>
          rw [reader_fails hothers]
          rfl
      | some others =>
          rw [reader_bind hothers, Option.map_some, List.append_assoc]
          rfl

theorem readSelectors_eq {numGroups : ℕ} (hgroups : 0 < numGroups) (numSelectors : ℕ)
    (bits : List Bool) :
    readSelectors numGroups numSelectors bits =
      ofOption (Pgp.readSelectors numGroups (List.range numGroups) numSelectors bits) := by
  rw [readSelectors, groupPositions_eq, ok_bind]
  apply Meets.eq_ofOption
  generalize hresult : Pgp.readSelectors numGroups (List.range numGroups) numSelectors bits = result
  refine Meets.bind (meets_upFrom (fun i s => ∃ done, s.2.1 = filled numSelectors 0 done ∧
      done.length = i ∧ s.1.length = numGroups ∧
      (Pgp.readSelectors numGroups s.1 (numSelectors - i) s.2.2).map
        (fun read => (done ++ read.1, read.2)) = result)
    ⟨[], rfl, rfl, List.length_range, ?_⟩ fun i s _ hi hs => ?_) fun s hs => ?_
  · rw [Nat.sub_zero, ← hresult]
    exact Option.map_id'
  · obtain ⟨mtfGroupPos, selectors, bits⟩ := s
    obtain ⟨done, hdone, rfl, hpos, h⟩ := hs
    obtain ⟨left, hleft⟩ : ∃ left, numSelectors - done.length = left + 1 :=
      ⟨numSelectors - done.length - 1, by omega⟩
    dsimp only at hdone hpos h
    subst hdone
    rw [hleft] at h
    refine (selectorPass_agrees hgroups hpos (by omega) h).mono fun s' hs' => ?_
    obtain ⟨selector, hselectors, hpos', h'⟩ := hs'
    refine ⟨done ++ [selector], hselectors, List.length_append, hpos', ?_⟩
    rw [show numSelectors - (done.length + 1) = left by omega]
    exact h'
  · obtain ⟨mtfGroupPos, selectors, rest⟩ := s
    obtain ⟨done, hdone, hlength, -, h⟩ := hs
    rw [Nat.zero_add] at hlength h
    dsimp only at hdone h
    rw [Nat.sub_self] at h
    subst hdone
    refine .returns ?_
    rw [filled_full hlength, ← h]
    exact congrArg (fun xs => some (xs, rest)) (List.append_nil done)

/-! ### Tables -/

theorem rounds_lengthRound (curLen : ℕ) (bits : List Bool) :
    rounds lengthRound (bits.length + 1) (curLen, bits) = ofOption (readLength curLen bits) := by
  apply Meets.eq_ofOption
  generalize hresult : readLength curLen bits = result
  refine meets_rounds (fun s => readLength s.1 s.2 = result) (·.2.length) (fun s hs => ?_) hresult
    (Nat.lt_succ_self _)
  obtain ⟨curLen, bits⟩ := s
  subst hs
  cases bits with
  | nil => exact .refuses rfl
  | cons bit bits =>
      rw [lengthRound, readBit_cons, ofOption_some, ok_bind]
      cases bit with
      | false => exact .returns rfl
      | true =>
          dsimp only
          rw [if_neg (by decide)]
          cases bits with
          | nil => exact .refuses rfl
          | cons adjust bits =>
              rw [readBit_cons, ofOption_some, ok_bind]
              cases adjust with
              | false => exact .returns ⟨rfl, by dsimp only [List.length_cons]; omega⟩
              | true =>
                  dsimp only
                  rw [if_neg (by decide), readLength]
                  split_ifs with hempty
                  · exact .refuses rfl
                  · exact .returns ⟨rfl, by dsimp only [List.length_cons]; omega⟩

/-- The code lengths that are left to read, behind those that are written. -/
theorem lengthPass_agrees {alphaSize curLen left : ℕ} {done : List ℕ} {bits : List Bool}
    {result : Option (List ℕ × List Bool)} (hleft : done.length + (left + 1) = alphaSize)
    (h : (Pgp.readLengths curLen (left + 1) bits).map
      (fun read => (done ++ read.1, read.2)) = result) :
    Meets (result = none)
      (fun s => ∃ len, s.2.1 = filled alphaSize 0 (done ++ [len]) ∧
        (Pgp.readLengths s.1 left s.2.2).map
          (fun read => (done ++ [len] ++ read.1, read.2)) = result)
      (lengthPass done.length (curLen, filled alphaSize 0 done, bits)) := by
  rw [lengthPass]
  dsimp only
  rw [rounds_lengthRound]
  rw [Pgp.readLengths] at h
  cases hlen : readLength curLen bits with
  | none =>
      rw [reader_fails hlen] at h
      exact .refuses h.symm
  | some read =>
      obtain ⟨len, rest⟩ := read
      rw [reader_bind hlen] at h
      rw [ofOption_some, ok_bind]
      dsimp only at h ⊢
      by_cases hrange : len < 1 ∨ len > 20
      · rw [if_pos hrange] at h ⊢
        exact .refuses h.symm
      · rw [if_neg hrange] at h ⊢
        rw [writeAt_filled (by omega), ok_bind]
        refine .returns ⟨len, rfl, ?_⟩
        rw [← h]
        dsimp only
        cases hothers : Pgp.readLengths len left rest with
        | none =>
            rw [reader_fails hothers]
            rfl
        | some others =>
            rw [reader_bind hothers, Option.map_some, List.append_assoc]
            rfl

theorem readLengths_eq (alphaSize : ℕ) (bits : List Bool) :
    readLengths alphaSize bits =
      ofOption ((ReadBits 5 >>= fun curLen => Pgp.readLengths curLen alphaSize) bits) := by
  apply Meets.eq_ofOption
  generalize hresult : (ReadBits 5 >>= fun curLen => Pgp.readLengths curLen alphaSize) bits = result
  rw [readLengths]
  refine (meets_readBits hresult).bind fun read h => ?_
  refine Meets.bind (meets_upFrom (fun i s => ∃ done, s.2.1 = filled alphaSize 0 done ∧
      done.length = i ∧ (Pgp.readLengths s.1 (alphaSize - i) s.2.2).map
        (fun read => (done ++ read.1, read.2)) = result)
    ⟨[], rfl, rfl, ?_⟩ fun i s _ hi hs => ?_) fun s hs => ?_
  · rw [Nat.sub_zero, ← h]
    exact Option.map_id'
  · obtain ⟨curLen, lengths, bits⟩ := s
    obtain ⟨done, hdone, rfl, h⟩ := hs
    obtain ⟨left, hleft⟩ : ∃ left, alphaSize - done.length = left + 1 :=
      ⟨alphaSize - done.length - 1, by omega⟩
    dsimp only at hdone h
    subst hdone
    rw [hleft] at h
    refine (lengthPass_agrees (by omega) h).mono fun s' hs' => ?_
    obtain ⟨len, hlengths, h'⟩ := hs'
    refine ⟨done ++ [len], hlengths, List.length_append, ?_⟩
    rw [show alphaSize - (done.length + 1) = left by omega]
    exact h'
  · obtain ⟨curLen, lengths, rest⟩ := s
    obtain ⟨done, hdone, hlength, h⟩ := hs
    rw [Nat.zero_add] at hlength h
    dsimp only at hdone h
    rw [Nat.sub_self] at h
    subst hdone
    refine .returns ?_
    rw [filled_full hlength, ← h]
    exact congrArg (fun xs => some (xs, rest)) (List.append_nil done)

theorem bzip2BuildHuffmanTable_agrees {lengths : List ℕ} (hne : lengths ≠ []) :
    Meets (Pgp.bzip2BuildHuffmanTable lengths = none)
      (fun arrays => ∃ table, Pgp.bzip2BuildHuffmanTable lengths = some table ∧
        Represents arrays table) (bzip2BuildHuffmanTable lengths lengths.length) := by
  rw [bzip2BuildHuffmanTable_eq hne]
  split_ifs with hbad
  · exact .refuses (dif_pos hbad)
  · exact .returns ⟨_, dif_neg hbad, huffmanArrays_represents (dif_neg hbad)⟩

/-- The tables that are left to read, behind those that are built. -/
theorem tablePass_agrees {alphaSize numGroups left : ℕ} {done : List Bzip2HuffmanTable}
    {tables : List Pgp.Bzip2HuffmanTable} {bits : List Bool}
    {result : Option (List Pgp.Bzip2HuffmanTable × List Bool)} (halpha : 0 < alphaSize)
    (hleft : done.length + (left + 1) = numGroups) (hdone : List.Forall₂ Represents done tables)
    (h : (Pgp.readTables alphaSize (left + 1) bits).map
      (fun read => (tables ++ read.1, read.2)) = result) :
    Meets (result = none)
      (fun s => ∃ arrays table, s.1 = filled numGroups noTable (done ++ [arrays]) ∧
        List.Forall₂ Represents (done ++ [arrays]) (tables ++ [table]) ∧
        (Pgp.readTables alphaSize left s.2).map
          (fun read => (tables ++ [table] ++ read.1, read.2)) = result)
      (tablePass alphaSize done.length (filled numGroups noTable done, bits)) := by
  have hread := readLengths_meets alphaSize bits
  rw [readLengths_eq] at hread
  rw [tablePass, readLengths_eq]
  rw [Pgp.readTables, ← bind_assoc] at h
  cases hlengths : (ReadBits 5 >>= fun curLen => Pgp.readLengths curLen alphaSize) bits with
  | none =>
      rw [reader_fails hlengths] at h
      exact .refuses h.symm
  | some read =>
      obtain ⟨lengths, rest⟩ := read
      rw [hlengths] at hread
      obtain ⟨rfl, -⟩ := hread.of_ok rfl
      rw [reader_bind hlengths] at h
      rw [ofOption_some, ok_bind]
      dsimp only
      have hbuild := bzip2BuildHuffmanTable_agrees (List.ne_nil_of_length_pos halpha)
      refine (hbuild.weaken fun hnone => ?_).bind fun arrays harrays => ?_
      · have hlift : (StateT.lift (Pgp.bzip2BuildHuffmanTable lengths) : Bzip2BitReader _) rest =
            none := by
          rw [hnone]
          rfl
        rw [reader_fails hlift] at h
        exact h.symm
      · obtain ⟨table, htable, hrep⟩ := harrays
        have hlift : (StateT.lift (Pgp.bzip2BuildHuffmanTable lengths) : Bzip2BitReader _) rest =
            some (table, rest) := by
          rw [htable]
          rfl
        rw [reader_bind hlift] at h
        rw [writeAt_filled (by omega), ok_bind]
        refine .returns ⟨arrays, table, rfl, List.rel_append hdone (.cons hrep .nil), ?_⟩
        rw [← h]
        dsimp only
        cases hothers : Pgp.readTables lengths.length left rest with
        | none =>
            rw [reader_fails hothers]
            rfl
        | some others =>
            rw [reader_bind hothers, Option.map_some, List.append_assoc]
            rfl

theorem readTables_agrees {alphaSize : ℕ} (halpha : 0 < alphaSize) (numGroups : ℕ)
    (bits : List Bool) :
    Meets (Pgp.readTables alphaSize numGroups bits = none)
      (fun read => ∃ tables, Pgp.readTables alphaSize numGroups bits = some (tables, read.2) ∧
        List.Forall₂ Represents read.1 tables) (readTables alphaSize numGroups bits) := by
  generalize hresult : Pgp.readTables alphaSize numGroups bits = result
  rw [readTables]
  refine Meets.mono (meets_upFrom (fun i s => ∃ done tables, s.1 = filled numGroups noTable done ∧
      done.length = i ∧ List.Forall₂ Represents done tables ∧
      (Pgp.readTables alphaSize (numGroups - i) s.2).map
        (fun read => (tables ++ read.1, read.2)) = result)
    ⟨[], [], rfl, rfl, .nil, ?_⟩ fun i s _ hi hs => ?_) fun s hs => ?_
  · rw [Nat.sub_zero, ← hresult]
    exact Option.map_id'
  · obtain ⟨arrays, bits⟩ := s
    obtain ⟨done, tables, hdone, rfl, htables, h⟩ := hs
    obtain ⟨left, hleft⟩ : ∃ left, numGroups - done.length = left + 1 :=
      ⟨numGroups - done.length - 1, by omega⟩
    dsimp only at hdone h
    subst hdone
    rw [hleft] at h
    refine (tablePass_agrees halpha (by omega) htables h).mono fun s' hs' => ?_
    obtain ⟨built, table, harrays, htables', h'⟩ := hs'
    refine ⟨done ++ [built], tables ++ [table], harrays, List.length_append, htables', ?_⟩
    rw [show numGroups - (done.length + 1) = left by omega]
    exact h'
  · obtain ⟨arrays, rest⟩ := s
    obtain ⟨done, tables, hdone, hlength, htables, h⟩ := hs
    rw [Nat.zero_add] at hlength h
    dsimp only at hdone h ⊢
    rw [Nat.sub_self] at h
    subst hdone
    rw [filled_full hlength]
    refine ⟨tables, ?_, htables⟩
    rw [← h]
    exact congrArg (fun xs => some (xs, rest)) (List.append_nil tables)

/-! ### The symbol stream -/

/-- The two loops between symbols. -/
structure SymbolLoop.Tracks (selectors : List ℕ) (s : SymbolLoop) (t : Pgp.SymbolLoop) : Prop where
  mtf : s.mtf = t.mtf
  blockOut : s.blockOut = t.blockOut
  selectors : selectors.drop s.selectorIndex = t.selectors
  groupSymbolsLeft : s.groupSymbolsLeft = t.groupSymbolsLeft
  currentTable : 0 < s.groupSymbolsLeft → ∃ arrays table, s.currentTable = some arrays ∧
    t.currentTable = some table ∧ Represents arrays table
  runLength : s.runLength = t.runLength
  runBit : s.runBit = t.runBit

section Stream

variable {arrays : List Bzip2HuffmanTable} {tables : List Pgp.Bzip2HuffmanTable}
  {selectors : List ℕ} {nInUse maxBlockBytes : ℕ} {s : SymbolLoop} {t : Pgp.SymbolLoop}

/-- The two loops have the table for the next symbol. -/
structure SymbolLoop.TracksGroup (selectors : List ℕ) (s : SymbolLoop)
    (found : Pgp.Bzip2HuffmanTable × Pgp.SymbolLoop) : Prop where
  table : ∃ arrays, s.currentTable = some arrays ∧ Represents arrays found.1
  loop : s.Tracks selectors found.2

theorem SymbolLoop.Tracks.group (h : s.Tracks selectors t)
    (htables : List.Forall₂ Represents arrays tables)
    (hselectors : ∀ selector ∈ selectors, selector < arrays.length) :
    Meets (t.table tables = none)
      (fun s' => ∃ found, t.table tables = some found ∧ s'.TracksGroup selectors found)
      (s.group arrays selectors) := by
  rw [SymbolLoop.group, Pgp.SymbolLoop.table, ← h.groupSymbolsLeft, ← h.selectors]
  by_cases hnew : s.groupSymbolsLeft = 0
  · rw [if_pos hnew, if_pos hnew]
    by_cases hlast : s.selectorIndex ≥ selectors.length
    · rw [if_pos hlast, List.drop_eq_nil_of_le hlast]
      exact .refuses rfl
    · have hget := List.getElem?_eq_getElem (not_le.mp hlast)
      have hselector := hselectors _ (List.getElem_mem (not_le.mp hlast))
      have hlength := htables.length_eq
      have hrep := htables.get hselector (hlength ▸ hselector)
      rw [if_neg hlast, readAt_of_getElem? hget, ok_bind,
        readAt_of_getElem? (List.getElem?_eq_getElem hselector), ok_bind,
        List.drop_eq_getElem_cons (not_le.mp hlast)]
      dsimp only
      rw [List.getElem?_eq_getElem (hlength ▸ hselector)]
      refine .returns ⟨_, rfl, ⟨_, rfl, hrep⟩, ?_⟩
      exact ⟨h.mtf, h.blockOut, rfl, rfl, fun _ => ⟨_, _, rfl, rfl, hrep⟩, h.runLength, h.runBit⟩
  · rw [if_neg hnew, if_neg hnew]
    obtain ⟨current, table, hcurrent, htable, hrep⟩ := h.currentTable (Nat.pos_of_ne_zero hnew)
    rw [htable]
    refine .returns ⟨_, rfl, ⟨current, hcurrent, hrep⟩, ?_⟩
    exact ⟨h.mtf, h.blockOut, rfl, rfl, fun _ => ⟨current, table, hcurrent, rfl, hrep⟩,
      h.runLength, h.runBit⟩

theorem SymbolLoop.flush_eq (hmtf : s.mtf ≠ []) (maxBlockBytes : ℕ) :
    s.flush maxBlockBytes =
      if s.runLength > 0 ∧
        (s.blockOut ++ List.replicate s.runLength (s.mtf.headD 0)).length > maxBlockBytes then
        refuse
      else .ok { s with
        blockOut := s.blockOut ++ List.replicate s.runLength (s.mtf.headD 0), runLength := 0
        runBit := if s.runLength > 0 then 0 else s.runBit } := by
  obtain ⟨mtf, blockOut, selectorIndex, groupSymbolsLeft, currentTable, runLength, runBit⟩ := s
  obtain ⟨runByte, mtf, rfl⟩ := List.exists_cons_of_ne_nil hmtf
  rw [SymbolLoop.flush]
  by_cases hrun : runLength > 0
  · have hread : readAt (runByte :: mtf) 0 = .ok runByte := rfl
    rw [if_pos hrun, hread, ok_bind]
    simp only [hrun, true_and, if_true]
    rfl
  · obtain rfl := Nat.eq_zero_of_not_pos hrun
    rw [if_neg hrun, if_neg (fun h => hrun h.1), if_neg hrun, List.replicate_zero, List.append_nil]
    rfl

theorem SymbolLoop.Tracks.symbol (h : s.Tracks selectors t) (hfits : s.Fits nInUse maxBlockBytes)
    (hinUse : 0 < nInUse) (hmax : maxBlockBytes < 2 ^ 32) (symbol : ℕ) :
    Meets (t.symbol (nInUse + 2) maxBlockBytes symbol = none)
      (Sum.elim (fun s' => ∃ t' blockOut,
          t.symbol (nInUse + 2) maxBlockBytes symbol = some (some t', blockOut) ∧
            s'.Tracks selectors t')
        fun blockOut => t.symbol (nInUse + 2) maxBlockBytes symbol = some (none, blockOut))
      (s.symbol nInUse maxBlockBytes symbol) := by
  have hlength := hfits.mtf.length
  rw [SymbolLoop.symbol, Pgp.SymbolLoop.symbol, ← h.runLength, ← h.runBit, ← h.mtf, ← h.blockOut]
  by_cases hdigit : symbol = 0 ∨ symbol = 1
  · rw [if_pos hdigit, if_pos hdigit, hfits.digit_eq hmax (by omega)]
    dsimp only
    split_ifs with hlong
    · exact .refuses rfl
    · exact .returns ⟨_, _, rfl, rfl, rfl, h.selectors, h.groupSymbolsLeft, h.currentTable, rfl,
        rfl⟩
  · rw [if_neg hdigit, if_neg hdigit,
      SymbolLoop.flush_eq (List.ne_nil_of_length_pos (hlength.symm ▸ hinUse))]
    dsimp only
    by_cases hlong : s.runLength > 0 ∧
        (s.blockOut ++ List.replicate s.runLength (s.mtf.headD 0)).length > maxBlockBytes
    · rw [if_pos hlong, if_pos hlong]
      exact .refuses rfl
    · rw [if_neg hlong, if_neg hlong, ok_bind, show nInUse + 2 - 1 = nInUse + 1 from rfl]
      by_cases heob : symbol = nInUse + 1
      · rw [if_pos heob, if_pos heob]
        exact .returns rfl
      · rw [if_neg heob, if_neg heob]
        by_cases hout : symbol - 1 ≥ nInUse
        · rw [if_pos hout, moveToFront, List.getElem?_eq_none (hlength.trans_le hout)]
          exact .refuses rfl
        · have hget := List.getElem?_eq_getElem (hlength.symm ▸ not_le.mp hout)
          rw [if_neg hout, moveToFront_eq hget]
          dsimp only
          rw [shiftToFront_eq hget, ok_bind]
          dsimp only
          by_cases hfull : (s.blockOut ++ List.replicate s.runLength (s.mtf.headD 0) ++
              [s.mtf[symbol - 1]]).length > maxBlockBytes
          · rw [if_pos hfull, if_pos hfull]
            exact .refuses rfl
          · rw [if_neg hfull, if_neg hfull]
            exact .returns ⟨_, _, rfl, rfl, rfl, h.selectors, h.groupSymbolsLeft, h.currentTable,
              rfl, rfl⟩

/-- One symbol of the list's loop. -/
theorem symbolStream_step (alphaSize : ℕ) (t : Pgp.SymbolLoop) (bits : List Bool) :
    Pgp.symbolStream tables alphaSize maxBlockBytes t bits =
      (t.table tables).bind fun found => (Pgp.bzip2GetSymbol found.1 bits).bind fun read =>
        (found.2.symbol alphaSize maxBlockBytes read.1).bind fun next =>
          match next with
          | (none, blockOut) => some (blockOut, read.2)
          | (some t', _) => Pgp.symbolStream tables alphaSize maxBlockBytes t' read.2 := by
  rw [Pgp.symbolStream]
  cases t.table tables with
  | none => rfl
  | some found =>
      dsimp only [Option.bind_some]
      split
      · rename_i hnone
        rw [hnone]
        rfl
      · rename_i symbol rest hsome
        rw [hsome, Option.bind_some]
        rcases found.2.symbol alphaSize maxBlockBytes symbol with _ | ⟨_ | t', blockOut⟩
        · rfl
        · rfl
        · rfl

theorem symbolStream_eq {symbolMap : Bytes} {numGroups numSelectors : ℕ}
    (hinUse : 0 < symbolMap.length) (hmax : maxBlockBytes < 2 ^ 32)
    (hbuilt : Holding numGroups Built arrays) (htables : List.Forall₂ Represents arrays tables)
    (hselectors : Holding numSelectors (· < numGroups) selectors) (bits : List Bool) :
    symbolStream arrays selectors symbolMap maxBlockBytes bits =
      ofOption (Pgp.symbolStream tables (symbolMap.length + 2) maxBlockBytes
        { mtf := symbolMap, selectors } bits) := by
  have hwithin : ∀ selector ∈ selectors, selector < arrays.length :=
    fun selector hmem => hbuilt.length.symm ▸ hselectors.all selector hmem
  apply Meets.eq_ofOption
  generalize hresult : Pgp.symbolStream tables (symbolMap.length + 2) maxBlockBytes
    { mtf := symbolMap, selectors } bits = result
  refine meets_rounds (fun s => s.1.Fits symbolMap.length maxBlockBytes ∧ ∃ t,
      s.1.Tracks selectors t ∧
        Pgp.symbolStream tables (symbolMap.length + 2) maxBlockBytes t s.2 = result)
    (·.2.length) (fun s hs => ?_)
    ⟨.start symbolMap maxBlockBytes, { mtf := symbolMap, selectors },
      ⟨rfl, rfl, rfl, rfl, fun h => absurd h (lt_irrefl 0), rfl, rfl⟩, hresult⟩ (Nat.lt_succ_self _)
  obtain ⟨s, left⟩ := s
  obtain ⟨hfits, t, htracks, h⟩ := hs
  dsimp only at htracks h
  rw [symbolStream_step] at h
  rw [streamRound]
  refine Meets.bind (((htracks.group htables hwithin).weaken fun hnone => ?_).and
    (hfits.group hbuilt hselectors)) fun s' hs' => ?_
  · rw [hnone] at h
    exact h.symm
  obtain ⟨⟨found, hfound, ⟨current, hcurrent, hrep⟩, htracks'⟩, hfits', -⟩ := hs'
  -- the two loops read the next symbol with tables that stand for each other
  have hpointer : s'.table = .ok current := by
    rw [SymbolLoop.table, hcurrent]
    rfl
  rw [hfound, Option.bind_some] at h
  rw [hpointer, ok_bind, bzip2GetSymbol_eq hrep]
  cases hsymbol : Pgp.bzip2GetSymbol found.1 left with
  | none =>
      rw [hsymbol] at h
      exact .refuses h.symm
  | some read =>
      obtain ⟨symbol, rest⟩ := read
      have hlt := bzip2GetSymbol_lt hsymbol
      rw [hsymbol, Option.bind_some] at h
      rw [ofOption_some, ok_bind]
      dsimp only at h ⊢
      refine Meets.bind (((htracks'.symbol hfits' hinUse hmax symbol).weaken fun hnone => ?_).and
        (hfits'.symbol hinUse hmax symbol)) fun next hnext => ?_
      · rw [hnone] at h
        exact h.symm
      cases next with
      | inl s'' =>
          obtain ⟨⟨t', blockOut, hlist, htracks''⟩, hfits''⟩ := hnext
          rw [hlist] at h
          exact .returns ⟨⟨hfits'', t', htracks'', h⟩, hlt⟩
      | inr blockOut =>
          rw [show found.2.symbol _ _ _ = some (none, blockOut) from hnext.1] at h
          exact .returns h.symm

end Stream

end HashCryptoLib.Pgp.Bzip2Arrays
