import HashCryptoLib.Lib.Bits
import HashCryptoLib.Lib.Bwt
import HashCryptoLib.Pgp.Bzip2

/-!
What a bzip2 block is, whoever wrote it. Each pass is a relation between what an encoder
had and what it wrote: the first run-length pass, the Burrows-Wheeler transform,
move-to-front, the runs of rank zero, and the Huffman codes with the tables that
announce them. A block holds one way through all of them.
-/

namespace HashCryptoLib.Pgp

open Bits CanonicalCode

/-! ### The passes -/

/-- One to three equal octets stand for themselves; four are followed by the number of further
ones. Where fewer than four were written, another octet comes next. -/
inductive Rle1 : Bytes → Bytes → Prop
  | nil : Rle1 [] []
  | short {data coded : Bytes} {b : UInt8} {n : ℕ} (hpos : 1 ≤ n) (hle : n ≤ 3)
      (hnext : coded.head? ≠ some b) (h : Rle1 data coded) :
      Rle1 (List.replicate n b ++ data) (List.replicate n b ++ coded)
  | long {data coded : Bytes} (b extra : UInt8) (h : Rle1 data coded) :
      Rle1 (List.replicate (4 + extra.toNat) b ++ data) (List.replicate 4 b ++ extra :: coded)

/-- Each entry as its place in a list in which the last one used is in front. -/
inductive Ranks {α : Type} : List α → List ℕ → List α → Prop
  | nil {front : List α} : Ranks front [] []
  | cons {front entries : List α} {rank : ℕ} {x : α} {ranks : List ℕ} (hget : front[rank]? = some x)
      (h : Ranks (x :: front.eraseIdx rank) ranks entries) :
      Ranks front (rank :: ranks) (x :: entries)

/-- Digits 1 and 2 to the base 2, the lowest first; RUNA is 0 and stands for 1, RUNB is 1. -/
def runValue : List ℕ → ℕ
  | [] => 0
  | digit :: digits => (digit + 1) + 2 * runValue digits

/-- A run of rank zero is written as its length, any other rank as a symbol of its own. -/
inductive RunSymbols : List ℕ → List ℕ → Prop
  | nil : RunSymbols [] []
  | rank {ranks symbols : List ℕ} (rank : ℕ) (h : RunSymbols ranks symbols) :
      RunSymbols ((rank + 1) :: ranks) ((rank + 2) :: symbols)
  | run {ranks symbols digits : List ℕ} (hdigits : ∀ digit ∈ digits, digit ≤ 1)
      (hne : digits ≠ []) (hnext : ranks.head? ≠ some 0) (h : RunSymbols ranks symbols) :
      RunSymbols (List.replicate (runValue digits) 0 ++ ranks) (digits ++ symbols)

/-! ### The tables -/

/-- The octets in use, ascending. -/
def symbolMap (used : UInt8 → Bool) : Bytes := ((List.range 256).map UInt8.ofNat).filter used

/-- The map of one group of sixteen octets. -/
def groupBits (used : UInt8 → Bool) (group : ℕ) : List Bool :=
  (List.range 16).map fun k => used (UInt8.ofNat (group * 16 + k))

def groupUsed (used : UInt8 → Bool) (group : ℕ) : Bool := (groupBits used group).any id

def symbolMapBits (used : UInt8 → Bool) : List Bool :=
  (List.range 16).map (groupUsed used) ++
    (List.range 16).flatMap fun group => if groupUsed used group then groupBits used group else []

def selectorBits (ranks : List ℕ) : List Bool :=
  ranks.flatMap fun rank => List.replicate rank true ++ [false]

/-- The way from one code length to the next, in steps of one. -/
inductive LengthBits : ℕ → ℕ → List Bool → Prop
  | stay (len : ℕ) : LengthBits len len [false]
  | longer {len next : ℕ} {bits : List Bool} (hle : len + 1 ≤ 20) (h : LengthBits (len + 1) next bits) :
      LengthBits len next (true :: false :: bits)
  | shorter {len next : ℕ} {bits : List Bool} (hpos : 1 ≤ len) (h : LengthBits len next bits) :
      LengthBits (len + 1) next (true :: true :: bits)

/-- The code lengths of one table, from the one before. -/
inductive LengthsBits : ℕ → List ℕ → List Bool → Prop
  | nil (len : ℕ) : LengthsBits len [] []
  | cons {len next : ℕ} {lengths : List ℕ} {bits more : List Bool} (hlen : LengthBits len next bits)
      (h : LengthsBits next lengths more) : LengthsBits len (next :: lengths) (bits ++ more)

inductive TablesBits : List (List ℕ) → List Bool → Prop
  | nil : TablesBits [] []
  | cons {start : ℕ} {lengths : List ℕ} {tables : List (List ℕ)} {bits more : List Bool}
      (hpos : 1 ≤ start) (hle : start ≤ 20) (hlengths : LengthsBits start lengths bits)
      (h : TablesBits tables more) :
      TablesBits (lengths :: tables) (toBits 5 start ++ bits ++ more)

/-- Code lengths for an alphabet of this size. -/
structure CodeLengths (alphaSize : ℕ) (lengths : List ℕ) : Prop where
  length : lengths.length = alphaSize
  pos : ∀ len ∈ lengths, 1 ≤ len
  kraft : Kraft 20 lengths

/-- The symbols from position `p` on, each in the code of its group of fifty. -/
def symbolBits (tables : List (List ℕ)) (selectors : List ℕ) : ℕ → List ℕ → List Bool
  | _, [] => []
  | p, symbol :: symbols =>
    codeword (tables.getD (selectors.getD (p / 50) 0) []) symbol ++
      symbolBits tables selectors (p + 1) symbols

/-! ### Blocks -/

/-- A block of a stream that announces this block size, as an encoder may write it. -/
structure Bzip2Block (blockSize100k : ℕ) where
  data : Bytes
  coded : Bytes
  rle1 : Rle1 data coded
  coded_le : coded.length ≤ blockSize100k * 100000
  column : Bytes
  origPtr : ℕ
  transform : Bwt.IsTransform (coded.map UInt8.toNat) (column.map UInt8.toNat) origPtr
  origPtr_lt : origPtr < 2 ^ 24
  blockCrc : ℕ
  blockCrc_lt : blockCrc < 2 ^ 32
  used : UInt8 → Bool
  ranks : List ℕ
  moveToFront : Ranks (symbolMap used) ranks column
  symbols : List ℕ
  runs : RunSymbols ranks symbols
  lengthTables : List (List ℕ)
  two_le_tables : 2 ≤ lengthTables.length
  tables_le_six : lengthTables.length ≤ 6
  codeLengths : ∀ lengths ∈ lengthTables, CodeLengths ((symbolMap used).length + 2) lengths
  tableBits : List Bool
  tables_coded : TablesBits lengthTables tableBits
  selectors : List ℕ
  selectors_lt : selectors.length < 2 ^ 15
  selectors_enough : symbols.length + 1 ≤ 50 * selectors.length
  selectorRanks : List ℕ
  selectors_coded : Ranks (List.range lengthTables.length) selectorRanks selectors

namespace Bzip2Block

variable {blockSize100k : ℕ} (block : Bzip2Block blockSize100k)

/-- The symbol that ends the block is the last of the alphabet. -/
def eobSymbol : ℕ := (symbolMap block.used).length + 1

/-- What stands behind the mark of a block, up to the symbol that ends it. -/
def bits : List Bool :=
  toBits 32 block.blockCrc ++ [false] ++ toBits 24 block.origPtr ++ symbolMapBits block.used ++
    toBits 3 block.lengthTables.length ++ toBits 15 block.selectors.length ++
      selectorBits block.selectorRanks ++ block.tableBits ++
        symbolBits block.lengthTables block.selectors 0 (block.symbols ++ [block.eobSymbol])

end Bzip2Block

end HashCryptoLib.Pgp
