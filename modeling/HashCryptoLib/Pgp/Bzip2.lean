import HashCryptoLib.Pgp.Armor

/-!
The bzip2 decoder: bit reader, canonical Huffman tables, the move-to-front and
run-length symbol stream, the inverse Burrows-Wheeler transform and the first
run-length pass. A reader is the list of bits left; `none` is a decode error.
-/

namespace HashCryptoLib.Pgp

abbrev Bzip2BitReader := StateT (List Bool) Option

/-- The bits of an octet, high bit first. -/
def octetBits (octet : UInt8) : List Bool :=
  [7, 6, 5, 4, 3, 2, 1, 0].map octet.toNat.testBit

def bitsValue (bits : List Bool) : ℕ := bits.foldl (fun value bit => 2 * value + bit.toNat) 0

def ReadBits (count : ℕ) : Bzip2BitReader ℕ := fun bits =>
  if count ≤ bits.length then some (bitsValue (bits.take count), bits.drop count) else none

/-! ### Huffman tables -/

/-- `limit` and `base` are the source's arrays, read between `minLen` and
`maxLen` only. -/
structure Bzip2HuffmanTable where
  minLen : ℕ
  maxLen : ℕ
  limit : ℕ → ℤ
  base : ℕ → ℤ
  perm : List ℕ
  minLen_pos : 0 < minLen

/-- How many codes have this length. -/
def codesOfLength (lengths : List ℕ) (len : ℕ) : ℕ := lengths.count len

/-- `vec` after the length `minLen + k`, before it is doubled. -/
def huffmanVec (lengths : List ℕ) (minLen : ℕ) : ℕ → ℕ
  | 0 => codesOfLength lengths minLen
  | k + 1 => 2 * huffmanVec lengths minLen k + codesOfLength lengths (minLen + k + 1)

def bzip2BuildHuffmanTable (lengths : List ℕ) : Option Bzip2HuffmanTable :=
  let minLen := lengths.foldl min 32
  let maxLen := lengths.foldl max 0
  if h : minLen < 1 ∨ maxLen > 20 then none
  else
    let limit (len : ℕ) : ℤ := (huffmanVec lengths minLen (len - minLen) : ℤ) - 1
    let shorter (len : ℕ) : ℕ := lengths.countP (· < len)
    some
      { minLen, maxLen, limit
        base := fun len =>
          if len = minLen then shorter len else (limit (len - 1) + 1) * 2 - shorter len
        perm := (List.range' minLen (maxLen + 1 - minLen)).flatMap fun len =>
          (List.range lengths.length).filter fun i => lengths[i]? = some len
        minLen_pos := by omega }

/-- The code grows bit by bit until it is within the limit of its length. -/
def symbolLoop (table : Bzip2HuffmanTable) (code len : ℕ) (bits : List Bool) :
    Option (ℕ × List Bool) :=
  if len > table.maxLen then none
  else if (code : ℤ) ≤ table.limit len then
    let index := (code : ℤ) - table.base len
    if index < 0 then none else (table.perm[index.toNat]?).map fun symbol => (symbol, bits)
  else
    match bits with
    | [] => none
    | bit :: bits => symbolLoop table (2 * code + bit.toNat) (len + 1) bits

def bzip2GetSymbol (table : Bzip2HuffmanTable) : Bzip2BitReader ℕ := fun bits =>
  if table.minLen ≤ bits.length then
    symbolLoop table (bitsValue (bits.take table.minLen)) table.minLen (bits.drop table.minLen)
  else none

theorem symbolLoop_le {table : Bzip2HuffmanTable} {code len symbol : ℕ} {bits rest : List Bool}
    (h : symbolLoop table code len bits = some (symbol, rest)) : rest.length ≤ bits.length := by
  induction bits generalizing code len with
  | nil =>
      unfold symbolLoop at h
      grind
  | cons bit bits ih =>
      unfold symbolLoop at h
      grind

theorem bzip2GetSymbol_lt {table : Bzip2HuffmanTable} {symbol : ℕ} {bits rest : List Bool}
    (h : bzip2GetSymbol table bits = some (symbol, rest)) : rest.length < bits.length := by
  have hpos := table.minLen_pos
  unfold bzip2GetSymbol at h
  split_ifs at h with hlen
  have hle := symbolLoop_le h
  rw [List.length_drop] at hle
  omega

/-! ### One block -/

/-- The byte values in use: a map of the used groups of sixteen, then a map of
each used group. -/
def readSymbolMap (usedGroupsBits : ℕ) : ℕ → Bzip2BitReader Bytes
  | 0 => pure []
  | left + 1 => do
    let group := 15 - left
    let used ← if usedGroupsBits.testBit left then do
        let usedBitsInGroup ← ReadBits 16
        pure (((List.range 16).filter fun k => usedBitsInGroup.testBit (15 - k)).map fun k =>
          UInt8.ofNat (group * 16 + k))
      else pure []
    let others ← readSymbolMap usedGroupsBits left
    pure (used ++ others)

/-- The number of one bits before the first zero, below `numGroups`. -/
def readUnary (numGroups j : ℕ) : List Bool → Option (ℕ × List Bool)
  | [] => none
  | false :: bits => some (j, bits)
  | true :: bits => if j + 1 ≥ numGroups then none else readUnary numGroups (j + 1) bits

/-- The entry at `i`, and the list with that entry moved to the front. -/
def moveToFront {α : Type} (xs : List α) (i : ℕ) : Option (α × List α) :=
  (xs[i]?).map fun x => (x, x :: xs.eraseIdx i)

def readSelectors (numGroups : ℕ) (mtfGroupPos : List ℕ) : ℕ → Bzip2BitReader (List ℕ)
  | 0 => pure []
  | left + 1 => do
    let j ← readUnary numGroups 0
    let (value, mtfGroupPos) ← StateT.lift (moveToFront mtfGroupPos j)
    let selectors ← readSelectors numGroups mtfGroupPos left
    pure (value :: selectors)

/-- The delta-coded adjustment of one code length, an `unsigned int`. -/
def readLength (curLen : ℕ) : List Bool → Option (ℕ × List Bool)
  | [] => none
  | false :: bits => some (curLen, bits)
  | true :: [] => none
  | true :: false :: bits => readLength ((curLen + 1) % 2 ^ 32) bits
  | true :: true :: bits => if curLen = 0 then none else readLength (curLen - 1) bits

def readLengths (curLen : ℕ) : ℕ → Bzip2BitReader (List ℕ)
  | 0 => pure []
  | left + 1 => do
    let curLen ← readLength curLen
    if curLen < 1 ∨ curLen > 20 then StateT.lift none
    else
      let lengths ← readLengths curLen left
      pure (curLen :: lengths)

def readTables (alphaSize : ℕ) : ℕ → Bzip2BitReader (List Bzip2HuffmanTable)
  | 0 => pure []
  | left + 1 => do
    let lengths ← readLengths (← ReadBits 5) alphaSize
    let table ← StateT.lift (bzip2BuildHuffmanTable lengths)
    let tables ← readTables alphaSize left
    pure (table :: tables)

/-- The state of the symbol loop. `currentTable` is read while
`groupSymbolsLeft` is positive. -/
structure SymbolLoop where
  mtf : Bytes
  blockOut : Bytes := []
  selectors : List ℕ
  groupSymbolsLeft : ℕ := 0
  currentTable : Option Bzip2HuffmanTable := none
  runLength : ℕ := 0
  runBit : ℕ := 0

/-- The table for the next symbol, a fresh one every fifty symbols. -/
def SymbolLoop.table (tables : List Bzip2HuffmanTable) (s : SymbolLoop) :
    Option (Bzip2HuffmanTable × SymbolLoop) :=
  if s.groupSymbolsLeft = 0 then
    match s.selectors with
    | [] => none
    | selector :: selectors =>
      (tables[selector]?).map fun table =>
        (table, { s with selectors, currentTable := some table, groupSymbolsLeft := 49 })
  else
    s.currentTable.map fun table => (table, { s with groupSymbolsLeft := s.groupSymbolsLeft - 1 })

/-- One symbol: a run digit, the end of the block (`none`), or a byte. Two
`none`s tell a decode error from the end. -/
def SymbolLoop.symbol (alphaSize maxBlockBytes symbol : ℕ) (s : SymbolLoop) :
    Option (Option SymbolLoop × Bytes) :=
  if symbol = 0 ∨ symbol = 1 then
    let runLength := s.runLength + (symbol + 1) * 2 ^ s.runBit
    if runLength > maxBlockBytes then none
    else some (some { s with runLength, runBit := s.runBit + 1 }, s.blockOut)
  else
    let blockOut := s.blockOut ++ List.replicate s.runLength (s.mtf.headD 0)
    let runBit := if s.runLength > 0 then 0 else s.runBit
    if s.runLength > 0 ∧ blockOut.length > maxBlockBytes then none
    else if symbol = alphaSize - 1 then some (none, blockOut)
    else
      match moveToFront s.mtf (symbol - 1) with
      | none => none
      | some (value, mtf) =>
        let blockOut := blockOut ++ [value]
        if blockOut.length > maxBlockBytes then none
        else some (some { s with mtf, blockOut, runLength := 0, runBit }, blockOut)

def symbolStream (tables : List Bzip2HuffmanTable) (alphaSize maxBlockBytes : ℕ) (s : SymbolLoop)
    (bits : List Bool) : Option (Bytes × List Bool) :=
  match s.table tables with
  | none => none
  | some (table, s) =>
    match _hsymbol : bzip2GetSymbol table bits with
    | none => none
    | some (symbol, rest) =>
      match s.symbol alphaSize maxBlockBytes symbol with
      | none => none
      | some (none, blockOut) => some (blockOut, rest)
      | some (some s, _) => symbolStream tables alphaSize maxBlockBytes s rest
termination_by bits.length
decreasing_by exact bzip2GetSymbol_lt _hsymbol

/-- `nextIndex`: the positions sorted by their octets, stably. -/
def bwtNextIndex (blockOut : Bytes) : List ℕ :=
  (List.range 256).flatMap fun ch =>
    (List.range blockOut.length).filter fun i => blockOut[i]? = some (UInt8.ofNat ch)

def followBwt (blockOut : Bytes) (nextIndex : List ℕ) : ℕ → ℕ → Bytes
  | 0, _ => []
  | n + 1, tPos =>
    blockOut.getD tPos 0 :: followBwt blockOut nextIndex n (nextIndex.getD tPos 0)

/-- A run of four equal octets is followed by the number of further ones. -/
def undoRle1 : Bytes → Option Bytes
  | [] => some []
  | b :: rest =>
    let more := ((rest.take 3).takeWhile (· = b)).length
    match _hdrop : rest.drop more with
    | [] => if more = 3 then none else some (List.replicate (1 + more) b)
    | extra :: rest' =>
      if more = 3 then (undoRle1 rest').map (List.replicate (4 + extra.toNat) b ++ ·)
      else (undoRle1 (extra :: rest')).map (List.replicate (1 + more) b ++ ·)
termination_by octets => octets.length
decreasing_by
  all_goals
    have hlen := congrArg List.length _hdrop
    simp only [List.length_drop, List.length_cons] at hlen ⊢
    omega

def bzip2DecodeBlock (blockSize100k : ℕ) : Bzip2BitReader Bytes := do
  let _blockCrc ← ReadBits 32
  let randomized ← ReadBits 1
  if randomized ≠ 0 then StateT.lift none
  else
    let origPtr ← ReadBits 24
    let usedGroupsBits ← ReadBits 16
    let symbolMap ← readSymbolMap usedGroupsBits 16
    if symbolMap = [] then StateT.lift none
    else
      let alphaSize := symbolMap.length + 2
      let numGroups ← ReadBits 3
      if numGroups < 2 ∨ numGroups > 6 then StateT.lift none
      else
        let numSelectors ← ReadBits 15
        if numSelectors = 0 then StateT.lift none
        else
          let selectors ← readSelectors numGroups (List.range numGroups) numSelectors
          let tables ← readTables alphaSize numGroups
          let blockOut ← symbolStream tables alphaSize (blockSize100k * 100000 + 4096)
            { mtf := symbolMap, selectors }
          if origPtr ≥ blockOut.length then StateT.lift none
          else
            let nextIndex := bwtNextIndex blockOut
            StateT.lift (undoRle1
              (followBwt blockOut nextIndex blockOut.length (nextIndex.getD origPtr 0)))

/-! ### Streams -/

/-- The blocks up to the end-of-stream mark. Each round reads 48 bits, so the
octets of the input bound the number of rounds. -/
def bzip2Blocks (blockSize100k : ℕ) : ℕ → Bzip2BitReader Bytes
  | 0 => StateT.lift none
  | rounds + 1 => do
    let magic ← ReadBits 48
    if magic = 0x177245385090 then pure []
    else if magic ≠ 0x314159265359 then StateT.lift none
    else
      let blockOut ← bzip2DecodeBlock blockSize100k
      let others ← bzip2Blocks blockSize100k rounds
      pure (blockOut ++ others)

def bzip2DecompressBuffer (input : Bytes) : Option Bytes :=
  match input with
  | b :: z :: h :: level :: rest =>
    if [b, z, h] ≠ ascii "BZh" ∨ level < 49 ∨ level > 57 then none
    else
      ((bzip2Blocks (level.toNat - 48) (rest.length + 1)).run (rest.flatMap octetBits)).map
        Prod.fst
  | _ => none

end HashCryptoLib.Pgp
