import HashCryptoLib.Pgp.Bzip2Tables

/-!
The symbol stream. The state of the symbol loop in front of the symbol at `p` is
fixed by `p` as far as the groups of fifty go; the rest of it is a move-to-front list,
the octets so far and a run that has not been written out yet. A run ends with the
next symbol that is not one of its digits.
-/

namespace HashCryptoLib.Pgp

open Bits CanonicalCode

/-- The tables that were read are those of the code lengths, and there is one for every
selector. -/
structure Codes (alphaSize : ℕ) (lengthTables : List (List ℕ)) (tables : List Bzip2HuffmanTable)
    (selectors : List ℕ) : Prop where
  codeLengths : ∀ lengths ∈ lengthTables, CodeLengths alphaSize lengths
  tables : List.Forall₂ TableFor lengthTables tables
  selectors_lt : ∀ selector ∈ selectors, selector < lengthTables.length

/-- The state in front of the symbol at `p`. -/
structure AtSymbol (tables : List Bzip2HuffmanTable) (selectors : List ℕ) (p : ℕ) (s : SymbolLoop) :
    Prop where
  left : s.groupSymbolsLeft = (50 - p % 50) % 50
  rest : s.selectors = selectors.drop ((p + 49) / 50)
  current : p % 50 ≠ 0 → s.currentTable = tables[selectors.getD (p / 50) 0]?

section Stream

variable {alphaSize maxBlockBytes p : ℕ} {lengthTables : List (List ℕ)}
  {tables : List Bzip2HuffmanTable} {selectors : List ℕ} {s : SymbolLoop}

/-- The table of the symbol at `p`, and the code lengths it was built from. -/
theorem Codes.table (h : Codes alphaSize lengthTables tables selectors)
    (hp : p / 50 < selectors.length) :
    ∃ table, tables[selectors.getD (p / 50) 0]? = some table ∧
      TableFor (lengthTables.getD (selectors.getD (p / 50) 0) []) table ∧
        CodeLengths alphaSize (lengthTables.getD (selectors.getD (p / 50) 0) []) := by
  have hselector : selectors.getD (p / 50) 0 < lengthTables.length := by
    rw [List.getD_eq_getElem selectors 0 hp]
    exact h.selectors_lt _ (List.getElem_mem hp)
  have hlength := h.tables.length_eq
  refine ⟨_, List.getElem?_eq_getElem (hlength ▸ hselector), ?_, ?_⟩
  · rw [List.getD_eq_getElem lengthTables [] hselector]
    exact h.tables.get hselector (hlength ▸ hselector)
  · rw [List.getD_eq_getElem lengthTables [] hselector]
    exact h.codeLengths _ (List.getElem_mem hselector)

/-- The loop takes the table of the group, and only counts. -/
theorem AtSymbol.table (h : AtSymbol tables selectors p s) (hp : p / 50 < selectors.length)
    {table : Bzip2HuffmanTable} (htable : tables[selectors.getD (p / 50) 0]? = some table) :
    ∃ left rest current, s.table tables = some (table,
        { s with selectors := rest, groupSymbolsLeft := left, currentTable := current }) ∧
      AtSymbol tables selectors (p + 1)
        { s with selectors := rest, groupSymbolsLeft := left, currentTable := current } := by
  rw [SymbolLoop.table, h.left, h.rest]
  by_cases hgroup : p % 50 = 0
  · -- the first symbol of a group takes the next selector
    have hrest : (p + 49) / 50 = p / 50 := by omega
    rw [if_pos (by omega), hrest, List.drop_eq_getElem_cons hp]
    dsimp only
    rw [List.getD_eq_getElem selectors 0 hp] at htable
    rw [htable]
    refine ⟨49, _, _, rfl, by dsimp only; omega, ?_, fun _ => ?_⟩
    · dsimp only
      congr 1
      omega
    · dsimp only
      rw [show (p + 1) / 50 = p / 50 by omega, List.getD_eq_getElem selectors 0 hp, htable]
  · rw [if_neg (by omega), h.current hgroup, htable]
    refine ⟨(50 - p % 50) % 50 - 1, s.selectors, s.currentTable, ?_, by dsimp only; omega, ?_,
      fun hmod => ?_⟩
    · dsimp only [Option.map_some]
      rw [← h.rest, ← h.left, h.current hgroup, htable]
    · dsimp only
      rw [h.rest]
      congr 1
      omega
    · dsimp only
      rw [h.current hgroup, show (p + 1) / 50 = p / 50 by omega]

/-- One symbol of the stream, read in the code of its group. -/
theorem symbolStream_symbol (maxBlockBytes : ℕ) (hcodes : Codes alphaSize lengthTables tables selectors)
    (hs : AtSymbol tables selectors p s) (hp : p / 50 < selectors.length) {symbol : ℕ}
    (hsymbol : symbol < alphaSize) (rest : List Bool) :
    ∃ left selectors' current, AtSymbol tables selectors (p + 1)
        { s with selectors := selectors', groupSymbolsLeft := left, currentTable := current } ∧
      symbolStream tables alphaSize maxBlockBytes s
          (codeword (lengthTables.getD (selectors.getD (p / 50) 0) []) symbol ++ rest) =
        match SymbolLoop.symbol alphaSize maxBlockBytes symbol
            { s with selectors := selectors', groupSymbolsLeft := left, currentTable := current } with
        | none => none
        | some (none, blockOut) => some (blockOut, rest)
        | some (some s', _) => symbolStream tables alphaSize maxBlockBytes s' rest := by
  obtain ⟨table, htable, hfor, hlengths⟩ := hcodes.table hp
  obtain ⟨left, selectors', current, hnext, hs'⟩ := hs.table hp htable
  refine ⟨left, selectors', current, hs', ?_⟩
  rw [symbolStream, hnext]
  dsimp only
  split
  · rename_i hnone
    rw [bzip2GetSymbol_codeword hfor hlengths hsymbol] at hnone
    cases hnone
  · rename_i hsome
    rw [bzip2GetSymbol_codeword hfor hlengths hsymbol] at hsome
    cases hsome
    rfl

/-- The digits of a run add up to its length: induction on the digits, each of them worth twice
the one before. -/
theorem symbolStream_digits (hcodes : Codes alphaSize lengthTables tables selectors)
    (halpha : 2 ≤ alphaSize) {digits : List ℕ} (hdigits : ∀ digit ∈ digits, digit ≤ 1)
    (symbols : List ℕ) (rest : List Bool) {s : SymbolLoop} {p : ℕ}
    (hs : AtSymbol tables selectors p s) (hp : p + digits.length ≤ 50 * selectors.length)
    (hfits : s.runLength + 2 ^ s.runBit * runValue digits ≤ maxBlockBytes) :
    ∃ left selectors' current, AtSymbol tables selectors (p + digits.length)
        { s with
          selectors := selectors', groupSymbolsLeft := left, currentTable := current
          runLength := s.runLength + 2 ^ s.runBit * runValue digits
          runBit := s.runBit + digits.length } ∧
      symbolStream tables alphaSize maxBlockBytes s
          (symbolBits lengthTables selectors p (digits ++ symbols) ++ rest) =
        symbolStream tables alphaSize maxBlockBytes
          { s with
            selectors := selectors', groupSymbolsLeft := left, currentTable := current
            runLength := s.runLength + 2 ^ s.runBit * runValue digits
            runBit := s.runBit + digits.length }
          (symbolBits lengthTables selectors (p + digits.length) symbols ++ rest) := by
  induction digits generalizing s p with
  | nil => exact ⟨_, _, _, hs, rfl⟩
  | cons digit digits ih =>
      obtain ⟨hdigit, hdigits⟩ := List.forall_mem_cons.mp hdigits
      rw [List.length_cons] at hp
      have hvalue : s.runLength + 2 ^ s.runBit * runValue (digit :: digits) =
          s.runLength + (digit + 1) * 2 ^ s.runBit + 2 ^ (s.runBit + 1) * runValue digits := by
        rw [runValue, pow_succ]
        ring
      obtain ⟨left, selectors', current, hs', hstep⟩ := symbolStream_symbol maxBlockBytes hcodes hs
        (show p / 50 < selectors.length by omega) (show digit < alphaSize by omega)
        (symbolBits lengthTables selectors (p + 1) (digits ++ symbols) ++ rest)
      have hdigitStep : SymbolLoop.symbol alphaSize maxBlockBytes digit
          { s with selectors := selectors', groupSymbolsLeft := left, currentTable := current } =
        some (some
          { s with
            selectors := selectors', groupSymbolsLeft := left, currentTable := current
            runLength := s.runLength + (digit + 1) * 2 ^ s.runBit, runBit := s.runBit + 1 },
          s.blockOut) := by
        rw [SymbolLoop.symbol, if_pos (by omega)]
        dsimp only
        rw [if_neg (by omega)]
      have hs'' : AtSymbol tables selectors (p + 1)
          { s with
            selectors := selectors', groupSymbolsLeft := left, currentTable := current
            runLength := s.runLength + (digit + 1) * 2 ^ s.runBit, runBit := s.runBit + 1 } :=
        ⟨hs'.left, hs'.rest, hs'.current⟩
      obtain ⟨left', rest', current', hafter, hrest⟩ := ih hdigits hs'' (by omega)
        (by dsimp only; omega)
      refine ⟨left', rest', current', ?_, ?_⟩
      · rw [hvalue, List.length_cons, Nat.add_comm digits.length, ← Nat.add_assoc, ← Nat.add_assoc]
        exact hafter
      · rw [List.cons_append, symbolBits, List.append_assoc, hstep, hdigitStep]
        dsimp only
        rw [hrest, hvalue, List.length_cons, Nat.add_comm digits.length, ← Nat.add_assoc,
          ← Nat.add_assoc]

theorem ranks_run {front entries : Bytes} {n : ℕ} {ranks : List ℕ} (hfront : front ≠ [])
    (h : Ranks front (List.replicate n 0 ++ ranks) entries) :
    ∃ others, entries = List.replicate n (front.headD 0) ++ others ∧ Ranks front ranks others := by
  induction n generalizing entries with
  | zero => exact ⟨entries, rfl, h⟩
  | succ n ih =>
      cases h with
      | @cons _ entries _ x _ hget h =>
          obtain ⟨first, others, rfl⟩ := List.exists_cons_of_ne_nil hfront
          obtain rfl := Option.some.inj hget
          obtain ⟨behind, rfl, hbehind⟩ := ih h
          exact ⟨behind, rfl, hbehind⟩

/-- The stream of a block: induction on how its ranks are written. In front of each symbol there
may be a run that is still to be written out, and then the next rank is not zero. -/
theorem symbolStream_symbols (hcodes : Codes alphaSize lengthTables tables selectors)
    {ranks symbols : List ℕ} (hsymbols : RunSymbols ranks symbols) (rest : List Bool)
    {entries : Bytes} {s : SymbolLoop} {p : ℕ} (hs : AtSymbol tables selectors p s)
    (hp : p + symbols.length + 1 ≤ 50 * selectors.length) (hfront : s.mtf ≠ [])
    (halpha : alphaSize = s.mtf.length + 2) (hranks : Ranks s.mtf ranks entries)
    (hpending : 0 < s.runLength → ranks.head? ≠ some 0) (hbit : s.runLength = 0 → s.runBit = 0)
    (hfits : s.blockOut.length + s.runLength + entries.length ≤ maxBlockBytes) :
    symbolStream tables alphaSize maxBlockBytes s
        (symbolBits lengthTables selectors p (symbols ++ [alphaSize - 1]) ++ rest) =
      some (s.blockOut ++ List.replicate s.runLength (s.mtf.headD 0) ++ entries, rest) := by
  have hpos := List.length_pos_iff.mpr hfront
  induction hsymbols generalizing entries s p with
  | nil =>
      -- only the end of the block is left; it writes out the run that is pending
      cases hranks
      obtain ⟨left, selectors', current, hs', hstep⟩ := symbolStream_symbol maxBlockBytes hcodes hs
        (show p / 50 < selectors.length by rw [List.length_nil] at hp; omega)
        (show alphaSize - 1 < alphaSize by omega) rest
      rw [List.nil_append, symbolBits, symbolBits, List.append_nil, hstep, SymbolLoop.symbol,
        if_neg (by omega)]
      dsimp only
      rw [if_neg (by rw [List.length_append, List.length_replicate]; omega), if_pos rfl,
        List.append_nil]
  | @rank ranks symbols rank h ih =>
      cases hranks with
      | @cons _ entries _ x _ hget hranks =>
          have hlt := (List.getElem?_eq_some_iff.mp hget).1
          rw [List.length_cons] at hp hfits
          obtain ⟨left, selectors', current, hs', hstep⟩ := symbolStream_symbol maxBlockBytes hcodes
            hs (show p / 50 < selectors.length by omega) (show rank + 2 < alphaSize by omega)
            (symbolBits lengthTables selectors (p + 1) (symbols ++ [alphaSize - 1]) ++ rest)
          have hlength : (s.blockOut ++ List.replicate s.runLength (s.mtf.headD 0) ++ [x]).length =
              s.blockOut.length + s.runLength + 1 := by
            rw [List.length_append, List.length_append, List.length_replicate, List.length_singleton]
          have hbit' : (if s.runLength > 0 then 0 else s.runBit) = 0 := by
            split_ifs with hrun
            · rfl
            · exact hbit (by omega)
          rw [List.cons_append, symbolBits, List.append_assoc, hstep, SymbolLoop.symbol,
            if_neg (by omega)]
          dsimp only
          rw [if_neg (by rw [List.length_append, List.length_replicate]; omega), if_neg (by omega),
            show rank + 2 - 1 = rank + 1 from rfl, moveToFront_eq hget]
          dsimp only
          rw [hlength, if_neg (by omega), hbit']
          dsimp only
          -- a rank writes out the pending run and its octet, which comes to the front of the list
          have hnext : AtSymbol tables selectors (p + 1)
              { s with
                mtf := x :: s.mtf.eraseIdx (rank + 1)
                blockOut := s.blockOut ++ List.replicate s.runLength (s.mtf.headD 0) ++ [x]
                selectors := selectors', groupSymbolsLeft := left, currentTable := current
                runLength := 0, runBit := 0 } := ⟨hs'.left, hs'.rest, hs'.current⟩
          rw [ih hnext (by omega) (List.cons_ne_nil _ _)
            (by dsimp only; rw [length_moved hget]; exact halpha) hranks
            (fun h => absurd h (lt_irrefl 0)) (fun _ => rfl)
            (by dsimp only; rw [hlength]; omega) (Nat.succ_pos _)]
          dsimp only
          rw [List.replicate_zero, List.append_nil, List.append_assoc, List.singleton_append]
  | @run ranks symbols digits hdigits hne hnext h ih =>
      obtain ⟨digit, others, rfl⟩ := List.exists_cons_of_ne_nil hne
      have hvalue : 0 < runValue (digit :: others) := by
        rw [runValue]
        omega
      -- a run is not pending when another one starts
      have hnone : s.runLength = 0 := by
        by_contra hrun
        apply hpending (Nat.pos_of_ne_zero hrun)
        obtain ⟨n, hn⟩ := Nat.exists_eq_succ_of_ne_zero hvalue.ne'
        rw [hn, List.replicate_succ, List.cons_append, List.head?_cons]
      obtain ⟨behind, rfl, hbehind⟩ := ranks_run hfront hranks
      rw [List.length_append] at hp
      rw [List.length_append, List.length_replicate] at hfits
      have hlength : s.runLength + 2 ^ s.runBit * runValue (digit :: others) =
          runValue (digit :: others) := by
        rw [hnone, hbit hnone, pow_zero, Nat.one_mul, Nat.zero_add]
      have hrun : s.runLength + 2 ^ s.runBit * runValue (digit :: others) ≤ maxBlockBytes := by
        omega
      obtain ⟨left, selectors', current, hs', hdigits'⟩ := symbolStream_digits hcodes (by omega)
        hdigits (symbols ++ [alphaSize - 1]) rest hs (by omega) hrun
      rw [List.append_assoc, hdigits', hlength]
      rw [hlength] at hs'
      rw [ih hs' (by omega) hfront halpha hbehind (fun _ => hnext) (fun h => absurd h hvalue.ne')
        (by dsimp only; omega) hpos]
      dsimp only
      rw [hnone, List.replicate_zero, List.append_nil, List.append_assoc]

end Stream

end HashCryptoLib.Pgp
