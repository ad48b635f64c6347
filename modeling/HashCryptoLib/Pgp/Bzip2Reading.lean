import HashCryptoLib.Pgp.Bzip2Arrays

/-!
The bzip2 decoder over its arrays, from the bits of a block to the octets that the symbols stand
for. Each stage is followed by what it keeps: every index it forms is inside its array, its
loops end, and what it hands on has the size that the next stage relies on. Building the map of
the octets in use forms no index.
-/

namespace HashCryptoLib.Pgp.Bzip2Arrays

open CheckedArray

/-! ### Tables -/

/-- A table that was built, whatever the code lengths were. -/
def Built (arrays : Bzip2HuffmanTable) : Prop :=
  ∃ lengths, lengths ≠ [] ∧ bzip2BuildHuffmanTable lengths lengths.length = .ok arrays

theorem bzip2BuildHuffmanTable_meets {lengths : List ℕ} (hne : lengths ≠ []) :
    Meets True Built (bzip2BuildHuffmanTable lengths lengths.length) := by
  have hbuilt := bzip2BuildHuffmanTable_eq hne
  split_ifs at hbuilt with hbad
  · rw [hbuilt]
    exact .refuses trivial
  · have hthis : Built (huffmanArrays lengths) := ⟨lengths, hne, hbuilt⟩
    rw [hbuilt]
    exact .returns hthis

theorem Built.represents {arrays : Bzip2HuffmanTable} (h : Built arrays) :
    ∃ table, Represents arrays table := by
  obtain ⟨lengths, hne, hbuilt⟩ := h
  rw [bzip2BuildHuffmanTable_eq hne] at hbuilt
  split_ifs at hbuilt with hbad
  · cases hbuilt
  · obtain rfl := Except.ok.inj hbuilt
    have htable : ∃ table, Pgp.bzip2BuildHuffmanTable lengths = some table := by
      rw [Pgp.bzip2BuildHuffmanTable]
      dsimp only
      rw [dif_neg hbad]
      exact ⟨_, rfl⟩
    obtain ⟨table, htable⟩ := htable
    exact ⟨table, huffmanArrays_represents htable⟩

/-- A symbol takes at least one bit. -/
theorem Built.getSymbol {arrays : Bzip2HuffmanTable} (h : Built arrays) (bits : List Bool) :
    Meets True (fun read => read.2.length < bits.length) (bzip2GetSymbol arrays bits) := by
  obtain ⟨table, hrep⟩ := h.represents
  rw [bzip2GetSymbol_eq hrep]
  exact meets_ofOption fun read hread => bzip2GetSymbol_lt hread

/-! ### Bits -/

theorem of_reader_bind {α β : Type} {reader : Bzip2BitReader α} {f : α → Bzip2BitReader β}
    {bits : List Bool} {out : β × List Bool} (h : (reader >>= f) bits = some out) :
    ∃ read, reader bits = some read ∧ f read.1 read.2 = some out :=
  Option.bind_eq_some_iff.mp h

theorem length_of_readBits {count : ℕ} {bits : List Bool} {read : ℕ × List Bool}
    (h : ReadBits count bits = some read) : read.2.length + count = bits.length := by
  rw [ReadBits] at h
  split_ifs at h with hcount
  obtain rfl := Option.some.inj h
  rw [List.length_drop]
  omega

theorem readBits_meets (count : ℕ) (bits : List Bool) :
    Meets True (fun read => read.2.length + count = bits.length)
      (ofOption (ReadBits count bits)) :=
  meets_ofOption fun _ => length_of_readBits

theorem length_of_readSymbolMap {usedGroupsBits left : ℕ} {bits : List Bool}
    {read : Bytes × List Bool} (h : readSymbolMap usedGroupsBits left bits = some read) :
    read.2.length ≤ bits.length := by
  induction left generalizing bits read with
  | zero =>
      obtain rfl := Option.some.inj h
      exact le_rfl
  | succ left ih =>
      rw [readSymbolMap] at h
      split_ifs at h with hused
      · obtain ⟨usedBitsInGroup, hgroup, h⟩ := of_reader_bind h
        obtain ⟨used, hpure, h⟩ := of_reader_bind h
        obtain rfl := Option.some.inj hpure
        obtain ⟨others, hothers, h⟩ := of_reader_bind h
        obtain rfl := Option.some.inj h
        have hbits := length_of_readBits hgroup
        exact (ih hothers).trans (by dsimp only; omega)
      · obtain ⟨used, hpure, h⟩ := of_reader_bind h
        obtain rfl := Option.some.inj hpure
        obtain ⟨others, hothers, h⟩ := of_reader_bind h
        obtain rfl := Option.some.inj h
        exact ih hothers

theorem readSymbolMap_meets (usedGroupsBits left : ℕ) (bits : List Bool) :
    Meets True (fun read => read.2.length ≤ bits.length)
      (ofOption (readSymbolMap usedGroupsBits left bits)) :=
  meets_ofOption fun _ => length_of_readSymbolMap

/-! ### Selectors -/

def unaryRound (numGroups : ℕ) : ℕ × List Bool → Checked (ℕ × List Bool ⊕ ℕ × List Bool)
  | (j, bits) => do
    let (bit, bits) ← ofOption (ReadBits 1 bits)
    if bit = 0 then pure (.inr (j, bits))
    else if j + 1 ≥ numGroups then refuse
    else pure (.inl (j + 1, bits))

def selectorPass (numGroups i : ℕ) (s : List ℕ × List ℕ × List Bool) :
    Checked (List ℕ × List ℕ × List Bool) := do
  let (mtfGroupPos, selectors, bits) := s
  let (j, bits) ← rounds (unaryRound numGroups) (bits.length + 1) (0, bits)
  let (value, mtfGroupPos) ← shiftToFront mtfGroupPos j
  let selectors ← writeAt selectors i value
  pure (mtfGroupPos, selectors, bits)

def readSelectors (numGroups numSelectors : ℕ) (bits : List Bool) :
    Checked (List ℕ × List Bool) := do
  let mtfGroupPos ← upFrom (fun i mtfGroupPos => writeAt mtfGroupPos i i) 0 numGroups
    (List.replicate numGroups 0)
  let (_, selectors, bits) ← upFrom (selectorPass numGroups) 0 numSelectors
    (mtfGroupPos, List.replicate numSelectors 0, bits)
  pure (selectors, bits)

theorem unaryRound_meets {numGroups : ℕ} (s : ℕ × List Bool) (hs : s.1 < numGroups) :
    Meets True (Sum.elim (fun s' => s'.1 < numGroups ∧ s'.2.length < s.2.length)
      fun read => read.1 < numGroups ∧ read.2.length < s.2.length) (unaryRound numGroups s) := by
  obtain ⟨j, bits⟩ := s
  refine (readBits_meets 1 bits).bind fun read hread => ?_
  dsimp only
  split_ifs with hzero hmany
  · exact .returns ⟨hs, by dsimp only; omega⟩
  · exact .refuses trivial
  · exact .returns ⟨by dsimp only; omega, by dsimp only; omega⟩

theorem readUnary_meets {numGroups : ℕ} (hgroups : 0 < numGroups) (bits : List Bool) :
    Meets True (fun read => read.1 < numGroups ∧ read.2.length ≤ bits.length)
      (rounds (unaryRound numGroups) (bits.length + 1) (0, bits)) := by
  refine meets_rounds (fun s => s.1 < numGroups ∧ s.2.length ≤ bits.length) (·.2.length)
    (fun s hs => ?_) ⟨hgroups, le_rfl⟩ (Nat.lt_succ_self _)
  refine (unaryRound_meets s hs.1).mono fun result hresult => ?_
  cases result with
  | inl s' => exact ⟨⟨hresult.1, hresult.2.le.trans hs.2⟩, hresult.2⟩
  | inr read => exact ⟨hresult.1, hresult.2.le.trans hs.2⟩

theorem selectorPass_meets {numGroups numSelectors i : ℕ} {s : List ℕ × List ℕ × List Bool}
    (hi : i < numSelectors) (hgroups : 0 < numGroups) (hpos : Holding numGroups (· < numGroups) s.1)
    (hselectors : Holding numSelectors (· < numGroups) s.2.1) :
    Meets True (fun s' => Holding numGroups (· < numGroups) s'.1 ∧
        Holding numSelectors (· < numGroups) s'.2.1 ∧ s'.2.2.length ≤ s.2.2.length)
      (selectorPass numGroups i s) := by
  obtain ⟨mtfGroupPos, selectors, bits⟩ := s
  refine (readUnary_meets hgroups bits).bind fun read hread => ?_
  refine (hpos.shiftToFront hread.1).bind fun moved hmoved => ?_
  refine (hselectors.writeAt hi hmoved.1).bind fun selectors' hselectors' => ?_
  exact .returns ⟨hmoved.2, hselectors', hread.2⟩

theorem readSelectors_meets {numGroups : ℕ} (hgroups : 0 < numGroups) (numSelectors : ℕ)
    (bits : List Bool) :
    Meets True (fun read => Holding numSelectors (· < numGroups) read.1 ∧
        read.2.length ≤ bits.length) (readSelectors numGroups numSelectors bits) := by
  have hinit : Meets True (Holding numGroups (· < numGroups))
      (upFrom (fun i mtfGroupPos => writeAt mtfGroupPos i i) 0 numGroups
        (List.replicate numGroups 0)) := by
    refine meets_upFrom (fun _ => Holding numGroups (· < numGroups)) (holding_replicate hgroups)
      fun i s _ hi hs => ?_
    exact hs.writeAt (by omega) (by omega)
  refine hinit.bind fun mtfGroupPos hpos => ?_
  refine Meets.bind (meets_upFrom (fun _ s => Holding numGroups (· < numGroups) s.1 ∧
      Holding numSelectors (· < numGroups) s.2.1 ∧ s.2.2.length ≤ bits.length)
    ⟨hpos, holding_replicate (p := (· < numGroups)) hgroups, le_rfl⟩ fun i s _ hi hs => ?_)
    fun s hs => .returns hs.2
  refine (selectorPass_meets (by omega) hgroups hs.1 hs.2.1).mono fun s' hs' => ?_
  exact ⟨hs'.1, hs'.2.1, hs'.2.2.trans hs.2.2⟩

/-! ### Code lengths -/

/-- `++curLen` on an `unsigned int`. -/
def lengthRound : ℕ × List Bool → Checked (ℕ × List Bool ⊕ ℕ × List Bool)
  | (curLen, bits) => do
    let (bit, bits) ← ofOption (ReadBits 1 bits)
    if bit = 0 then pure (.inr (curLen, bits))
    else
      let (adjust, bits) ← ofOption (ReadBits 1 bits)
      if adjust = 0 then pure (.inl ((curLen + 1) % 2 ^ 32, bits))
      else if curLen = 0 then refuse
      else pure (.inl (curLen - 1, bits))

def lengthPass (sym : ℕ) (s : ℕ × List ℕ × List Bool) : Checked (ℕ × List ℕ × List Bool) := do
  let (curLen, lengths, bits) := s
  let (curLen, bits) ← rounds lengthRound (bits.length + 1) (curLen, bits)
  if curLen < 1 ∨ curLen > 20 then refuse
  else
    let lengths ← writeAt lengths sym curLen
    pure (curLen, lengths, bits)

def readLengths (alphaSize : ℕ) (bits : List Bool) : Checked (List ℕ × List Bool) := do
  let (curLen, bits) ← ofOption (ReadBits 5 bits)
  let (_, lengths, bits) ← upFrom lengthPass 0 alphaSize
    (curLen, List.replicate alphaSize 0, bits)
  pure (lengths, bits)

/-- A table before it is built. -/
def noTable : Bzip2HuffmanTable := { minLen := 0, maxLen := 0, limit := [], base := [], perm := [] }

def tablePass (alphaSize g : ℕ) (s : List Bzip2HuffmanTable × List Bool) :
    Checked (List Bzip2HuffmanTable × List Bool) := do
  let (lengths, bits) ← readLengths alphaSize s.2
  let table ← bzip2BuildHuffmanTable lengths alphaSize
  let tables ← writeAt s.1 g table
  pure (tables, bits)

def readTables (alphaSize numGroups : ℕ) (bits : List Bool) :
    Checked (List Bzip2HuffmanTable × List Bool) :=
  upFrom (tablePass alphaSize) 0 numGroups (List.replicate numGroups noTable, bits)

theorem lengthRound_meets (s : ℕ × List Bool) :
    Meets True (Sum.elim (fun s' => s'.2.length < s.2.length)
      fun read => read.2.length ≤ s.2.length) (lengthRound s) := by
  obtain ⟨curLen, bits⟩ := s
  refine (readBits_meets 1 bits).bind fun read hread => ?_
  dsimp only
  by_cases hzero : read.1 = 0
  · rw [if_pos hzero]
    exact .returns (by dsimp only [Sum.elim_inr]; omega)
  · rw [if_neg hzero]
    refine (readBits_meets 1 read.2).bind fun adjust hadjust => ?_
    split_ifs with hup hempty
    · exact .returns (by dsimp only [Sum.elim_inl]; omega)
    · exact .refuses trivial
    · exact .returns (by dsimp only [Sum.elim_inl]; omega)

theorem lengthPass_meets {alphaSize sym : ℕ} {s : ℕ × List ℕ × List Bool} (hsym : sym < alphaSize)
    (hlengths : Holding alphaSize (fun _ => True) s.2.1) :
    Meets True (fun s' => Holding alphaSize (fun _ => True) s'.2.1 ∧
      s'.2.2.length ≤ s.2.2.length) (lengthPass sym s) := by
  obtain ⟨curLen, lengths, bits⟩ := s
  have hread : Meets True (fun read : ℕ × List Bool => read.2.length ≤ bits.length)
      (rounds lengthRound (bits.length + 1) (curLen, bits)) := by
    refine meets_rounds (fun s => s.2.length ≤ bits.length) (·.2.length) (fun s hs => ?_) le_rfl
      (Nat.lt_succ_self _)
    refine (lengthRound_meets s).mono fun result hresult => ?_
    cases result with
    | inl s' => exact ⟨hresult.le.trans hs, hresult⟩
    | inr read => exact hresult.trans hs
  refine hread.bind fun read hread => ?_
  dsimp only
  split_ifs with hlen
  · exact .refuses trivial
  · refine (hlengths.writeAt hsym trivial).bind fun lengths' hlengths' => ?_
    exact .returns ⟨hlengths', hread⟩

theorem readLengths_meets (alphaSize : ℕ) (bits : List Bool) :
    Meets True (fun read => read.1.length = alphaSize ∧ read.2.length ≤ bits.length)
      (readLengths alphaSize bits) := by
  refine (readBits_meets 5 bits).bind fun read hread => ?_
  refine Meets.bind (meets_upFrom (fun _ s => Holding alphaSize (fun _ => True) s.2.1 ∧
      s.2.2.length ≤ read.2.length) ⟨holding_replicate trivial, le_rfl⟩
    fun i s _ hi hs => ?_) fun s hs => ?_
  · refine (lengthPass_meets (by omega) hs.1).mono fun s' hs' => ?_
    exact ⟨hs'.1, hs'.2.trans hs.2⟩
  · exact .returns ⟨hs.1.length, hs.2.trans (by omega)⟩

theorem tablePass_meets {alphaSize numGroups g : ℕ} {s : List Bzip2HuffmanTable × List Bool}
    (halpha : 0 < alphaSize) (hg : g < numGroups)
    (htables : FilledUpTo numGroups noTable Built g s.1) :
    Meets True (fun s' => FilledUpTo numGroups noTable Built (g + 1) s'.1 ∧
      s'.2.length ≤ s.2.length) (tablePass alphaSize g s) := by
  refine (readLengths_meets alphaSize s.2).bind fun read hread => ?_
  obtain ⟨lengths, rest⟩ := read
  obtain ⟨rfl, hrest⟩ := hread
  refine (bzip2BuildHuffmanTable_meets (List.ne_nil_of_length_pos halpha)).bind
    fun table htable => ?_
  refine (htables.writeAt hg htable).bind fun tables' htables' => ?_
  exact .returns ⟨htables', hrest⟩

theorem readTables_meets {alphaSize : ℕ} (halpha : 0 < alphaSize) (numGroups : ℕ)
    (bits : List Bool) :
    Meets True (fun read => Holding numGroups Built read.1 ∧ read.2.length ≤ bits.length)
      (readTables alphaSize numGroups bits) := by
  refine (meets_upFrom (fun g s => FilledUpTo numGroups noTable Built g s.1 ∧
      s.2.length ≤ bits.length) ⟨filledUpTo_zero, le_rfl⟩ fun g s _ hg hs => ?_).mono
    fun s hs => ?_
  · refine (tablePass_meets halpha (by omega) hs.1).mono fun s' hs' => ?_
    exact ⟨hs'.1, hs'.2.trans hs.2⟩
  · rw [Nat.zero_add] at hs
    exact ⟨hs.1.holding, hs.2⟩

/-! ### The symbol stream -/

/-- `value << count` on an `unsigned long long`; a count of the width or more has no meaning. -/
def shiftLeft64 (value count : ℕ) : Checked ℕ :=
  if count < 64 then pure (value * 2 ^ count % 2 ^ 64) else .error .outside

/-- `currentTable` is a pointer that is null until the first group. -/
structure SymbolLoop where
  mtf : Bytes
  blockOut : Bytes := []
  selectorIndex : ℕ := 0
  groupSymbolsLeft : ℕ := 0
  currentTable : Option Bzip2HuffmanTable := none
  runLength : ℕ := 0
  runBit : ℕ := 0

namespace SymbolLoop

def group (tables : List Bzip2HuffmanTable) (selectors : List ℕ) (s : SymbolLoop) :
    Checked SymbolLoop :=
  if s.groupSymbolsLeft = 0 then
    if s.selectorIndex ≥ selectors.length then refuse
    else do
      let table ← readAt tables (← readAt selectors s.selectorIndex)
      pure { s with
        currentTable := some table, selectorIndex := s.selectorIndex + 1, groupSymbolsLeft := 49 }
  else pure { s with groupSymbolsLeft := s.groupSymbolsLeft - 1 }

/-- The table that the pointer points at. -/
def table (s : SymbolLoop) : Checked Bzip2HuffmanTable :=
  match s.currentTable with
  | some table => pure table
  | none => .error .outside

def digit (maxBlockBytes symbol : ℕ) (s : SymbolLoop) : Checked SymbolLoop := do
  let weight ← shiftLeft64 (symbol + 1) s.runBit
  let runLength := (s.runLength + weight) % 2 ^ 64
  if runLength > maxBlockBytes then refuse
  else pure { s with runLength, runBit := s.runBit + 1 }

/-- The run that is still to be written. -/
def flush (maxBlockBytes : ℕ) (s : SymbolLoop) : Checked SymbolLoop :=
  if s.runLength > 0 then do
    let runByte ← readAt s.mtf 0
    let blockOut := s.blockOut ++ List.replicate s.runLength runByte
    if blockOut.length > maxBlockBytes then refuse
    else pure { s with blockOut, runLength := 0, runBit := 0 }
  else pure s

/-- One symbol: a digit of a run, the end of the block, or an octet. -/
def symbol (nInUse maxBlockBytes symbol : ℕ) (s : SymbolLoop) : Checked (SymbolLoop ⊕ Bytes) :=
  if symbol = 0 ∨ symbol = 1 then do
    let s ← s.digit maxBlockBytes symbol
    pure (.inl s)
  else do
    let s ← s.flush maxBlockBytes
    if symbol = nInUse + 1 then pure (.inr s.blockOut)
    else
      let mtfIndex := symbol - 1
      if mtfIndex ≥ nInUse then refuse
      else
        let (value, mtf) ← shiftToFront s.mtf mtfIndex
        let blockOut := s.blockOut ++ [value]
        if blockOut.length > maxBlockBytes then refuse else pure (.inl { s with mtf, blockOut })

end SymbolLoop

def streamRound (tables : List Bzip2HuffmanTable) (selectors : List ℕ)
    (nInUse maxBlockBytes : ℕ) :
    SymbolLoop × List Bool → Checked (SymbolLoop × List Bool ⊕ Bytes × List Bool)
  | (s, bits) => do
    let s ← s.group tables selectors
    let (symbol, bits) ← bzip2GetSymbol (← s.table) bits
    match ← s.symbol nInUse maxBlockBytes symbol with
    | .inl s => pure (.inl (s, bits))
    | .inr blockOut => pure (.inr (blockOut, bits))

def symbolStream (tables : List Bzip2HuffmanTable) (selectors : List ℕ) (symbolMap : Bytes)
    (maxBlockBytes : ℕ) (bits : List Bool) : Checked (Bytes × List Bool) :=
  rounds (streamRound tables selectors symbolMap.length maxBlockBytes) (bits.length + 1)
    ({ mtf := symbolMap }, bits)

section Stream

variable {tables : List Bzip2HuffmanTable} {selectors : List ℕ}
  {numGroups numSelectors nInUse maxBlockBytes : ℕ}

/-- What holds before every symbol. -/
structure SymbolLoop.Fits (nInUse maxBlockBytes : ℕ) (s : SymbolLoop) : Prop where
  mtf : Holding nInUse (fun _ => True) s.mtf
  blockOut : s.blockOut.length ≤ maxBlockBytes
  /-- Within a group the pointer is not null. -/
  currentTable : 0 < s.groupSymbolsLeft → ∃ table ∈ s.currentTable, Built table
  runLength : s.runLength ≤ maxBlockBytes
  /-- The weights of the digits so far add up to no less. -/
  runBit : 2 ^ s.runBit ≤ s.runLength + 1

theorem SymbolLoop.Fits.group {s : SymbolLoop} (h : s.Fits nInUse maxBlockBytes)
    (htables : Holding numGroups Built tables)
    (hselectors : Holding numSelectors (· < numGroups) selectors) :
    Meets True (fun s' => s'.Fits nInUse maxBlockBytes ∧ ∃ table ∈ s'.currentTable, Built table)
      (s.group tables selectors) := by
  rw [SymbolLoop.group]
  split_ifs with hnew hlast
  · exact .refuses trivial
  · rw [hselectors.length, not_le] at hlast
    refine (hselectors.readAt hlast).bind fun selector hselector => ?_
    refine (htables.readAt hselector).bind fun table htable => ?_
    exact .returns ⟨⟨h.mtf, h.blockOut, fun _ => ⟨table, rfl, htable⟩, h.runLength, h.runBit⟩,
      table, rfl, htable⟩
  · have hcurrent := h.currentTable (by omega)
    exact .returns ⟨⟨h.mtf, h.blockOut, fun _ => hcurrent, h.runLength, h.runBit⟩, hcurrent⟩

theorem SymbolLoop.Fits.start (symbolMap : Bytes) (maxBlockBytes : ℕ) :
    SymbolLoop.Fits symbolMap.length maxBlockBytes { mtf := symbolMap } :=
  ⟨⟨rfl, fun _ _ => trivial⟩, Nat.zero_le _, fun h => absurd h (lt_irrefl 0), Nat.zero_le _, le_rfl⟩

/-- A digit whose weight the run has not outgrown neither leaves the width nor wraps. -/
theorem SymbolLoop.Fits.digit_eq {s : SymbolLoop} {symbol : ℕ} (h : s.Fits nInUse maxBlockBytes)
    (hmax : maxBlockBytes < 2 ^ 32) (hsymbol : symbol ≤ 1) :
    s.digit maxBlockBytes symbol =
      if s.runLength + (symbol + 1) * 2 ^ s.runBit > maxBlockBytes then refuse
      else .ok { s with
        runLength := s.runLength + (symbol + 1) * 2 ^ s.runBit, runBit := s.runBit + 1 } := by
  have hpow : 2 ^ s.runBit ≤ 2 ^ 32 := by
    have := h.runBit
    have := h.runLength
    omega
  have hcount : s.runBit ≤ 32 := (Nat.pow_le_pow_iff_right (by decide)).mp hpow
  have htwo : (symbol + 1) * 2 ^ s.runBit ≤ 2 * 2 ^ s.runBit :=
    Nat.mul_le_mul_right _ (Nat.succ_le_succ hsymbol)
  have hlength := h.runLength
  rw [SymbolLoop.digit, shiftLeft64, if_pos (by omega), Nat.mod_eq_of_lt (by omega), pure_bind,
    Nat.mod_eq_of_lt (by omega)]
  rfl

theorem SymbolLoop.Fits.digit {s : SymbolLoop} {symbol : ℕ} (h : s.Fits nInUse maxBlockBytes)
    (hmax : maxBlockBytes < 2 ^ 32) (hsymbol : symbol ≤ 1) :
    Meets True (fun s' => s'.Fits nInUse maxBlockBytes) (s.digit maxBlockBytes symbol) := by
  have hone : 1 * 2 ^ s.runBit ≤ (symbol + 1) * 2 ^ s.runBit :=
    Nat.mul_le_mul_right _ (Nat.le_add_left 1 symbol)
  have hbit := h.runBit
  rw [h.digit_eq hmax hsymbol]
  split_ifs with hlong
  · exact .refuses trivial
  · refine .returns ⟨h.mtf, h.blockOut, h.currentTable, not_lt.mp hlong, ?_⟩
    rw [Nat.pow_succ]
    dsimp only
    omega

theorem SymbolLoop.Fits.flush {s : SymbolLoop} (h : s.Fits nInUse maxBlockBytes)
    (hinUse : 0 < nInUse) :
    Meets True (fun s' => s'.Fits nInUse maxBlockBytes) (s.flush maxBlockBytes) := by
  rw [SymbolLoop.flush]
  split_ifs with hrun
  · refine (h.mtf.readAt hinUse).bind fun runByte _ => ?_
    dsimp only
    split_ifs with hlong
    · exact .refuses trivial
    · exact .returns ⟨h.mtf, not_lt.mp hlong, h.currentTable, Nat.zero_le _, le_rfl⟩
  · exact .returns h

theorem SymbolLoop.Fits.symbol {s : SymbolLoop} (h : s.Fits nInUse maxBlockBytes)
    (hinUse : 0 < nInUse) (hmax : maxBlockBytes < 2 ^ 32) (symbol : ℕ) :
    Meets True (Sum.elim (fun s' => s'.Fits nInUse maxBlockBytes)
      fun blockOut => blockOut.length ≤ maxBlockBytes) (s.symbol nInUse maxBlockBytes symbol) := by
  rw [SymbolLoop.symbol]
  by_cases hdigit : symbol = 0 ∨ symbol = 1
  · rw [if_pos hdigit]
    refine (h.digit hmax (by omega)).bind fun s' hs' => ?_
    exact .returns hs'
  · rw [if_neg hdigit]
    refine (h.flush hinUse).bind fun s' hs' => ?_
    dsimp only
    split_ifs with heob hout
    · exact .returns hs'.blockOut
    · exact .refuses trivial
    · refine (hs'.mtf.shiftToFront (not_le.mp hout)).bind fun moved hmoved => ?_
      split_ifs with hlong
      · exact .refuses trivial
      · exact .returns
          ⟨hmoved.2, not_lt.mp hlong, hs'.currentTable, hs'.runLength, hs'.runBit⟩

theorem symbolStream_meets {symbolMap : Bytes} (hinUse : 0 < symbolMap.length)
    (hmax : maxBlockBytes < 2 ^ 32) (htables : Holding numGroups Built tables)
    (hselectors : Holding numSelectors (· < numGroups) selectors) (bits : List Bool) :
    Meets True (fun read => read.1.length ≤ maxBlockBytes ∧ read.2.length ≤ bits.length)
      (symbolStream tables selectors symbolMap maxBlockBytes bits) := by
  refine meets_rounds (fun s => s.1.Fits symbolMap.length maxBlockBytes ∧
    s.2.length ≤ bits.length) (·.2.length) (fun s hs => ?_) ⟨.start symbolMap _, le_rfl⟩
    (Nat.lt_succ_self _)
  obtain ⟨s, left⟩ := s
  refine (hs.1.group htables hselectors).bind fun s' hs' => ?_
  obtain ⟨hfits, table, htable, hbuilt⟩ := hs'
  have hpointer : s'.table = .ok table := by
    rw [SymbolLoop.table, Option.mem_def.mp htable]
    rfl
  rw [hpointer, ok_bind]
  refine (hbuilt.getSymbol left).bind fun read hread => ?_
  refine (hfits.symbol hinUse hmax read.1).bind fun result hresult => ?_
  have hleft := hs.2
  cases result with
  | inl s'' => exact .returns ⟨⟨hresult, hread.le.trans hleft⟩, hread⟩
  | inr blockOut => exact .returns ⟨hresult, hread.le.trans hleft⟩

end Stream

end HashCryptoLib.Pgp.Bzip2Arrays
