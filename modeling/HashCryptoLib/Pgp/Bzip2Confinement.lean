import HashCryptoLib.Pgp.Bzip2Decoding
import HashCryptoLib.Pgp.Bzip2Reading

/-!
The bzip2 decoder over its arrays, from the octets of a block to those of a stream. Whatever the
input, no index leaves its array and every loop ends; a block that is accepted is larger than
the size that the stream announces by 4096 octets at most.
-/

namespace HashCryptoLib.Pgp.Bzip2Arrays

open CheckedArray

/-! ### The inverse transform -/

def fillNextIndex (blockOut : Bytes) (cursor : List ℕ) : Checked (List ℕ) := do
  let (nextIndex, _) ← upFrom (fun i s => do
      let (nextIndex, cursor) := s
      let ch ← readAt blockOut i
      let nextIndex ← writeAt nextIndex (← readAt cursor ch.toNat) i
      let cursor ← writeAt cursor ch.toNat ((← readAt cursor ch.toNat) + 1)
      pure (nextIndex, cursor)) 0 blockOut.length (List.replicate blockOut.length 0, cursor)
  pure nextIndex

def followBwt (blockOut : Bytes) (nextIndex : List ℕ) (origPtr : ℕ) : Checked Bytes := do
  let tPos ← readAt nextIndex origPtr
  let (bwtOutput, _) ← upFrom (fun k s => do
      let (bwtOutput, tPos) := s
      let bwtOutput ← writeAt bwtOutput k (← readAt blockOut tPos)
      let tPos ← readAt nextIndex tPos
      pure (bwtOutput, tPos)) 0 blockOut.length (List.replicate blockOut.length 0, tPos)
  pure bwtOutput

def invertBwt (blockOut : Bytes) (origPtr : ℕ) : Checked Bytes := do
  let cumulative ← countUp (blockOut.map UInt8.toNat) blockOut.length (List.replicate 257 0)
  let cumulative ← sumUp 256 cumulative
  let nextIndex ← fillNextIndex blockOut (cumulative.take 256)
  followBwt blockOut nextIndex origPtr

section Transform

variable {blockOut : Bytes} {origPtr : ℕ}

/-- Where the next position of an octet goes: behind the smaller octets and the earlier ones. -/
def cursorAt (blockOut : Bytes) (i : ℕ) : List ℕ :=
  tabulate 256 fun c => (blockOut.map UInt8.toNat).countP (· < c) +
    ((blockOut.take i).map UInt8.toNat).count c

theorem cursorAt_lt {i : ℕ} (hi : i < blockOut.length) :
    (blockOut.map UInt8.toNat).countP (· < blockOut[i].toNat) +
      ((blockOut.take i).map UInt8.toNat).count blockOut[i].toNat < blockOut.length := by
  have hget : (blockOut.map UInt8.toNat)[i]? = some blockOut[i].toNat := by
    rw [List.getElem?_map, List.getElem?_eq_getElem hi]
    rfl
  have hcount := CanonicalCode.count_take_lt hget
  have hbelow := countP_lt_succ (blockOut.map UInt8.toNat) blockOut[i].toNat
  have hle : (blockOut.map UInt8.toNat).countP (· < blockOut[i].toNat + 1) ≤
      (blockOut.map UInt8.toNat).length := List.countP_le_length
  rw [List.length_map] at hle
  rw [List.map_take]
  omega

theorem readAt_cursorAt (i : ℕ) {ch : ℕ} (hch : ch < 256) :
    readAt (cursorAt blockOut i) ch = .ok ((blockOut.map UInt8.toNat).countP (· < ch) +
      ((blockOut.take i).map UInt8.toNat).count ch) :=
  readAt_tabulate hch

/-- The entry of an octet moves on by one where the octet is met. -/
theorem writeAt_cursorAt {i : ℕ} (hi : i < blockOut.length) :
    writeAt (cursorAt blockOut i) blockOut[i].toNat
        ((blockOut.map UInt8.toNat).countP (· < blockOut[i].toNat) +
          ((blockOut.take i).map UInt8.toNat).count blockOut[i].toNat + 1) =
      .ok (cursorAt blockOut (i + 1)) := by
  have hnext (c : ℕ) : ((blockOut.take (i + 1)).map UInt8.toNat).count c =
      ((blockOut.take i).map UInt8.toNat).count c + if blockOut[i].toNat = c then 1 else 0 := by
    rw [List.take_add_one, List.getElem?_eq_getElem hi, List.map_append, List.count_append,
      Option.toList_some, List.map_singleton, List.count_singleton]
    simp only [beq_iff_eq]
  apply writeAt_tabulate_eq (UInt8.toNat_lt _)
  · rw [hnext, if_pos rfl, Nat.add_assoc]
  · intro c _ hc
    rw [hnext, if_neg (Ne.symm hc), Nat.add_zero]

theorem fillNextIndex_meets (hpos : 0 < blockOut.length) :
    Meets False (Holding blockOut.length (· < blockOut.length))
      (fillNextIndex blockOut (cursorAt blockOut 0)) := by
  refine Meets.bind (meets_upFrom (fun i s =>
      Holding blockOut.length (· < blockOut.length) s.1 ∧ s.2 = cursorAt blockOut i)
    ⟨holding_replicate (p := (· < blockOut.length)) hpos, rfl⟩ fun i s _ hi hs => ?_)
    fun s hs => .returns hs.1
  rw [Nat.zero_add] at hi
  obtain ⟨nextIndex, cursor⟩ := s
  obtain ⟨hnext, rfl⟩ := hs
  dsimp only
  rw [readAt_of_getElem? (List.getElem?_eq_getElem hi), ok_bind,
    readAt_cursorAt i (UInt8.toNat_lt _), ok_bind]
  refine (hnext.writeAt (cursorAt_lt hi) hi).bind fun nextIndex' hnext' => ?_
  rw [ok_bind, writeAt_cursorAt hi, ok_bind]
  exact .returns ⟨hnext', rfl⟩

theorem followBwt_meets {nextIndex : List ℕ} {p : UInt8 → Prop}
    (hblock : Holding blockOut.length p blockOut)
    (hnext : Holding blockOut.length (· < blockOut.length) nextIndex)
    (horig : origPtr < blockOut.length) :
    Meets False (Holding blockOut.length p) (followBwt blockOut nextIndex origPtr) := by
  refine (hnext.readAt horig).bind fun tPos htPos => ?_
  refine Meets.bind (meets_upFrom (fun k s => FilledUpTo blockOut.length 0 p k s.1 ∧
      s.2 < blockOut.length) ⟨filledUpTo_zero, htPos⟩ fun k s _ hk hs => ?_) fun s hs => ?_
  · obtain ⟨bwtOutput, tPos⟩ := s
    refine (hblock.readAt hs.2).bind fun octet hoctet => ?_
    refine (hs.1.writeAt (by omega) hoctet).bind fun bwtOutput' hbwtOutput => ?_
    refine (hnext.readAt hs.2).bind fun tPos' htPos' => ?_
    exact .returns ⟨hbwtOutput, htPos'⟩
  · rw [Nat.zero_add] at hs
    exact .returns hs.1.holding

/-- The two passes of the counting sort leave where each octet goes. -/
theorem invertBwt_cursor (blockOut : Bytes) (origPtr : ℕ) :
    invertBwt blockOut origPtr = (fillNextIndex blockOut (cursorAt blockOut 0) >>= fun nextIndex =>
      followBwt blockOut nextIndex origPtr) := by
  have hkeys : ∀ key ∈ blockOut.map UInt8.toNat, key + 1 < 257 := by
    intro key hkey
    obtain ⟨octet, -, rfl⟩ := List.mem_map.mp hkey
    have := UInt8.toNat_lt octet
    omega
  have hcount : countUp (blockOut.map UInt8.toNat) blockOut.length (List.replicate 257 0) =
      .ok (tabulate 257 (countBelow (blockOut.map UInt8.toNat))) := by
    have hcounted := countUp_eq (α := ℕ) hkeys
    rwa [List.length_map] at hcounted
  have hsum : sumUp 256 (tabulate 257 (countBelow (blockOut.map UInt8.toNat))) =
      .ok (tabulate 257 fun i => (blockOut.map UInt8.toNat).countP (· < i)) :=
    sumUp_eq (α := ℕ) (n := 257) (by decide)
  have hcursor : (tabulate 257 fun i => ((blockOut.map UInt8.toNat).countP (· < i))).take 256 =
      cursorAt blockOut 0 := by
    rw [cursorAt, tabulate, tabulate, ← List.map_take, List.take_range,
      show min 256 257 = 256 from rfl]
    exact List.map_congr_left fun _ _ => (Nat.add_zero _).symm
  rw [invertBwt, hcount, ok_bind, hsum, ok_bind, hcursor]

/-- The transform keeps the size, and makes no new octets. -/
theorem invertBwt_meets {p : UInt8 → Prop} (hblock : ∀ octet ∈ blockOut, p octet)
    (horig : origPtr < blockOut.length) :
    Meets False (Holding blockOut.length p) (invertBwt blockOut origPtr) := by
  rw [invertBwt_cursor]
  refine (fillNextIndex_meets (Nat.zero_lt_of_lt horig)).bind fun nextIndex hnext => ?_
  exact followBwt_meets ⟨rfl, hblock⟩ hnext horig

end Transform

/-! ### The first run-length pass -/

def runRound (bwtOutput : Bytes) (i : ℕ) (b : UInt8) (runCount : ℕ) : Checked (ℕ ⊕ ℕ) :=
  if runCount < 4 ∧ i + runCount < bwtOutput.length then do
    if (← readAt bwtOutput (i + runCount)) = b then pure (.inl (runCount + 1))
    else pure (.inr runCount)
  else pure (.inr runCount)

def rle1Round (bwtOutput : Bytes) : ℕ × Bytes → Checked (ℕ × Bytes ⊕ Bytes)
  | (i, rle1Output) =>
    if i < bwtOutput.length then do
      let b ← readAt bwtOutput i
      let runCount ← rounds (runRound bwtOutput i b) 4 1
      let rle1Output := rle1Output ++ List.replicate runCount b
      let i := i + runCount
      if runCount = 4 then
        if i ≥ bwtOutput.length then refuse
        else
          let extra ← readAt bwtOutput i
          pure (.inl (i + 1, rle1Output ++ List.replicate extra.toNat b))
      else pure (.inl (i, rle1Output))
    else pure (.inr rle1Output)

def undoRle1 (bwtOutput : Bytes) : Checked Bytes :=
  rounds (rle1Round bwtOutput) (bwtOutput.length + 1) (0, [])

section Rle1

variable {bwtOutput : Bytes} {mayRefuse : Prop}

theorem readAt_meets {i : ℕ} (hi : i < bwtOutput.length) :
    Meets mayRefuse (fun octet => octet ∈ bwtOutput) (readAt bwtOutput i) :=
  Holding.readAt ⟨rfl, fun _ h => h⟩ hi

/-- The octets of a run are counted up to four, as long as there are any. -/
theorem runCount_meets {i : ℕ} (b : UInt8) (hi : i < bwtOutput.length) :
    Meets mayRefuse (fun runCount => 0 < runCount ∧ runCount ≤ 4 ∧ i + runCount ≤ bwtOutput.length ∧
      ((∀ octet ∈ bwtOutput, octet = b) → runCount = 4 ∨ i + runCount = bwtOutput.length))
      (rounds (runRound bwtOutput i b) 4 1) := by
  refine meets_rounds (fun runCount => 0 < runCount ∧ runCount ≤ 4 ∧
    i + runCount ≤ bwtOutput.length) (fun runCount => 4 - runCount) (fun runCount hcount => ?_)
    ⟨Nat.one_pos, by decide, hi⟩ (by decide)
  obtain ⟨hpos, hfour, hlength⟩ := hcount
  rw [runRound]
  split_ifs with hmore
  · refine (readAt_meets hmore.2).bind fun octet hoctet => ?_
    split_ifs with hequal
    · exact .returns ⟨⟨Nat.succ_pos _, hmore.1, hmore.2⟩, by omega⟩
    · exact .returns ⟨hpos, hfour, hlength, fun hall => absurd (hall octet hoctet) hequal⟩
  · exact .returns ⟨hpos, hfour, hlength, fun _ => by omega⟩

theorem rle1Round_meets (s : ℕ × Bytes) :
    Meets True (Sum.elim (fun s' => bwtOutput.length - s'.1 < bwtOutput.length - s.1)
      fun _ => True) (rle1Round bwtOutput s) := by
  obtain ⟨i, rle1Output⟩ := s
  rw [rle1Round]
  split_ifs with hi
  · refine (readAt_meets hi).bind fun b _ => ?_
    refine (runCount_meets b hi).bind fun runCount hcount => ?_
    dsimp only
    split_ifs with hfour hend
    · exact .refuses trivial
    · refine (readAt_meets (not_le.mp hend)).bind fun extra _ => ?_
      exact .returns (by dsimp only [Sum.elim_inl]; omega)
    · exact .returns (by dsimp only [Sum.elim_inl]; omega)
  · exact .returns trivial

theorem undoRle1_meets (bwtOutput : Bytes) : Meets True (fun _ => True) (undoRle1 bwtOutput) := by
  refine meets_rounds (fun _ => True) (fun s => bwtOutput.length - s.1) (fun s _ => ?_) trivial
    (by dsimp only; omega)
  refine (rle1Round_meets s).mono fun result hresult => ?_
  cases result with
  | inl s' => exact ⟨trivial, hresult⟩
  | inr output => trivial

/-- Octets that are all the same are refused only where a number is missing behind the last
four: each round takes five of them. -/
theorem undoRle1_same {b : UInt8} (hall : ∀ octet ∈ bwtOutput, octet = b)
    (hlength : bwtOutput.length % 5 ≠ 4) : Meets False (fun _ => True) (undoRle1 bwtOutput) := by
  refine meets_rounds (fun s => s.1 ≤ bwtOutput.length ∧ (bwtOutput.length - s.1) % 5 ≠ 4)
    (fun s => bwtOutput.length - s.1) (fun s hs => ?_) ⟨Nat.zero_le _, hlength⟩
    (by dsimp only; omega)
  obtain ⟨i, rle1Output⟩ := s
  dsimp only at hs
  rw [rle1Round]
  split_ifs with hi
  · refine (readAt_meets hi).bind fun c hc => ?_
    refine (runCount_meets c hi).bind fun runCount hcount => ?_
    have hend := hcount.2.2.2 fun octet hoctet => (hall octet hoctet).trans (hall c hc).symm
    dsimp only
    split_ifs with hfour hmissing
    · omega
    · refine (readAt_meets (not_le.mp hmissing)).bind fun extra _ => ?_
      exact .returns ⟨⟨by dsimp only; omega, by dsimp only; omega⟩, by dsimp only; omega⟩
    · exact .returns ⟨⟨by dsimp only; omega, by dsimp only; omega⟩, by dsimp only; omega⟩
  · exact .returns trivial

end Rle1

/-! ### Blocks and streams -/

/-- The size that a block may grow to, which is more than what the stream announces. -/
def maxBlockBytes (blockSize100k : ℕ) : ℕ := blockSize100k * 100000 + 4096

/-- A block up to the octets of `bwtOutput`, which the first pass of the encoder wrote. -/
def bzip2BlockCoded (blockSize100k : ℕ) (bits : List Bool) : Checked (Bytes × List Bool) := do
  let (_blockCrc, bits) ← ofOption (ReadBits 32 bits)
  let (randomized, bits) ← ofOption (ReadBits 1 bits)
  if randomized ≠ 0 then refuse
  else
    let (origPtr, bits) ← ofOption (ReadBits 24 bits)
    let (usedGroupsBits, bits) ← ofOption (ReadBits 16 bits)
    let (symbolMap, bits) ← ofOption (readSymbolMap usedGroupsBits 16 bits)
    if symbolMap.length < 1 then refuse
    else
      let alphaSize := symbolMap.length + 2
      let (numGroups, bits) ← ofOption (ReadBits 3 bits)
      if numGroups < 2 ∨ numGroups > 6 then refuse
      else
        let (numSelectors, bits) ← ofOption (ReadBits 15 bits)
        if numSelectors = 0 then refuse
        else
          let (selectors, bits) ← readSelectors numGroups numSelectors bits
          let (tables, bits) ← readTables alphaSize numGroups bits
          let (blockOut, bits) ← symbolStream tables selectors symbolMap
            (maxBlockBytes blockSize100k) bits
          if origPtr ≥ blockOut.length then refuse
          else
            let bwtOutput ← invertBwt blockOut origPtr
            pure (bwtOutput, bits)

def bzip2DecodeBlock (blockSize100k : ℕ) (bits : List Bool) : Checked (Bytes × List Bool) := do
  let (bwtOutput, bits) ← bzip2BlockCoded blockSize100k bits
  let rle1Output ← undoRle1 bwtOutput
  pure (rle1Output, bits)

def blockRound (blockSize100k : ℕ) : Bytes × List Bool → Checked (Bytes × List Bool ⊕ Bytes)
  | (output, bits) => do
    let (magic, bits) ← ofOption (ReadBits 48 bits)
    if magic = 0x177245385090 then pure (.inr output)
    else if magic ≠ 0x314159265359 then refuse
    else
      let (blockOut, bits) ← bzip2DecodeBlock blockSize100k bits
      pure (.inl (output ++ blockOut, bits))

/-- The bits behind the four octets of the header. -/
def streamBits (input : Bytes) : List Bool := (input.drop 4).flatMap octetBits

def bzip2DecompressBuffer (input : Bytes) : Checked Bytes := do
  if input.length < 4 then refuse
  else
    let b ← readAt input 0
    let z ← readAt input 1
    let h ← readAt input 2
    let level ← readAt input 3
    if [b, z, h] ≠ ascii "BZh" ∨ level < 49 ∨ level > 57 then refuse
    else
      let bits := streamBits input
      rounds (blockRound (level.toNat - 48)) (bits.length + 1) ([], bits)

/-- The block size that the header announces, in steps of 100000 octets. -/
def announced (input : Bytes) : Option ℕ :=
  match input with
  | b :: z :: h :: level :: _ =>
    if [b, z, h] ≠ ascii "BZh" ∨ level < 49 ∨ level > 57 then none else some (level.toNat - 48)
  | _ => none

section Stream

variable {blockSize100k : ℕ}

theorem announced_le {input : Bytes} (h : announced input = some blockSize100k) :
    blockSize100k ≤ 9 := by
  rw [announced.eq_def] at h
  split at h
  · split_ifs at h with hheader
    obtain rfl := Option.some.inj h
    have hlevel := UInt8.not_lt.mp (not_or.mp (not_or.mp hheader).2).2
    rw [UInt8.le_iff_toNat_le] at hlevel
    exact Nat.sub_le_sub_right hlevel 48
  · cases h

/-- The octets of the header are read only where there are four. -/
theorem bzip2DecompressBuffer_eq (input : Bytes) :
    bzip2DecompressBuffer input =
      match announced input with
      | none => refuse
      | some level =>
        rounds (blockRound level) ((streamBits input).length + 1) ([], streamBits input) := by
  match input with
  | [] => rfl
  | [_] => rfl
  | [_, _] => rfl
  | [_, _, _] => rfl
  | b :: z :: h :: level :: rest =>
      rw [bzip2DecompressBuffer, if_neg (by simp), announced]
      simp only [readAt, List.getElem?_cons_zero, List.getElem?_cons_succ, ok_bind]
      split_ifs <;> rfl

theorem bzip2BlockCoded_meets (hlevel : blockSize100k ≤ 9) (bits : List Bool) :
    Meets True (fun read => read.1.length ≤ maxBlockBytes blockSize100k ∧
      read.2.length ≤ bits.length) (bzip2BlockCoded blockSize100k bits) := by
  have hmax : maxBlockBytes blockSize100k < 2 ^ 32 := by
    rw [maxBlockBytes]
    omega
  refine (readBits_meets 32 bits).bind fun blockCrc hcrc => ?_
  refine (readBits_meets 1 blockCrc.2).bind fun randomized hrandomized => ?_
  dsimp only
  split_ifs with hzero
  · exact .refuses trivial
  refine (readBits_meets 24 randomized.2).bind fun origPtr horigPtr => ?_
  refine (readBits_meets 16 origPtr.2).bind fun usedGroupsBits hgroups => ?_
  refine (readSymbolMap_meets _ _ _).bind fun map hmap => ?_
  split_ifs with hnone
  · exact .refuses trivial
  refine (readBits_meets 3 map.2).bind fun numGroups hnumGroups => ?_
  split_ifs with hrange
  · exact .refuses trivial
  refine (readBits_meets 15 numGroups.2).bind fun numSelectors hnumSelectors => ?_
  split_ifs with hempty
  · exact .refuses trivial
  refine (readSelectors_meets (by omega) numSelectors.1 numSelectors.2).bind
    fun selectors hselectors => ?_
  refine (readTables_meets (Nat.succ_pos _) numGroups.1 selectors.2).bind fun tables htables => ?_
  refine (symbolStream_meets (not_lt.mp hnone) hmax htables.1 hselectors.1 tables.2).bind
    fun block hblock => ?_
  split_ifs with horigin
  · exact .refuses trivial
  refine (invertBwt_meets (fun _ _ => trivial) (not_le.mp horigin)).relax.bind
    fun bwtOutput hbwtOutput => ?_
  refine .returns ⟨hbwtOutput.length.trans_le hblock.1, ?_⟩
  dsimp only
  omega

theorem bzip2DecodeBlock_meets (hlevel : blockSize100k ≤ 9) (bits : List Bool) :
    Meets True (fun read => read.2.length ≤ bits.length) (bzip2DecodeBlock blockSize100k bits) := by
  refine (bzip2BlockCoded_meets hlevel bits).bind fun coded hcoded => ?_
  refine (undoRle1_meets coded.1).bind fun output _ => ?_
  exact .returns hcoded.2

theorem blockRound_meets (hlevel : blockSize100k ≤ 9) (s : Bytes × List Bool) :
    Meets True (Sum.elim (fun s' => s'.2.length < s.2.length) fun _ => True)
      (blockRound blockSize100k s) := by
  obtain ⟨output, bits⟩ := s
  refine (readBits_meets 48 bits).bind fun magic hmagic => ?_
  dsimp only
  split_ifs with heos hblock
  · exact .returns trivial
  · exact .refuses trivial
  · refine (bzip2DecodeBlock_meets hlevel magic.2).bind fun block hblock => ?_
    exact .returns (by dsimp only [Sum.elim_inl]; omega)

theorem bzip2DecompressBuffer_meets (input : Bytes) :
    Meets True (fun _ => True) (bzip2DecompressBuffer input) := by
  rw [bzip2DecompressBuffer_eq]
  cases hlevel : announced input with
  | none => exact .refuses trivial
  | some level =>
      refine meets_rounds (fun _ => True) (·.2.length) (fun s _ => ?_) trivial
        (Nat.lt_succ_self _)
      refine (blockRound_meets (announced_le hlevel) s).mono fun result hresult => ?_
      cases result with
      | inl s' => exact ⟨trivial, hresult⟩
      | inr output => trivial

end Stream

/-! ### What a stream may hold -/

/-- A block that the decoder accepts, at the reader or behind blocks that it accepts before: the
octets that the first pass of the encoder wrote. -/
inductive Accepts (blockSize100k : ℕ) : List Bool → Bytes → Prop
  | here {bits rest rest' : List Bool} {bwtOutput data : Bytes}
      (hmagic : ReadBits 48 bits = some (0x314159265359, rest))
      (hcoded : bzip2BlockCoded blockSize100k rest = .ok (bwtOutput, rest'))
      (hdata : undoRle1 bwtOutput = .ok data) : Accepts blockSize100k bits bwtOutput
  | later {bits rest rest' : List Bool} {bwtOutput data : Bytes}
      (hmagic : ReadBits 48 bits = some (0x314159265359, rest))
      (hblock : bzip2DecodeBlock blockSize100k rest = .ok (data, rest'))
      (h : Accepts blockSize100k rest' bwtOutput) : Accepts blockSize100k bits bwtOutput

theorem Accepts.length_le {blockSize100k : ℕ} {bits : List Bool} {bwtOutput : Bytes}
    (h : Accepts blockSize100k bits bwtOutput) (hlevel : blockSize100k ≤ 9) :
    bwtOutput.length ≤ maxBlockBytes blockSize100k := by
  induction h with
  | here hmagic hcoded hdata => exact ((bzip2BlockCoded_meets hlevel _).of_ok hcoded).1
  | later hmagic hblock h ih => exact ih

/-- Whatever the input, the decoder stays inside its tables and ends, and the blocks it accepts
keep to the size announced and a slack of 4096 octets. -/
theorem bzip2DecompressBuffer_confined (input : Bytes) :
    bzip2DecompressBuffer input ≠ .error .outside ∧
      bzip2DecompressBuffer input ≠ .error .unfinished ∧
      ∀ blockSize100k ∈ announced input, ∀ bwtOutput,
        Accepts blockSize100k (streamBits input) bwtOutput →
          bwtOutput.length ≤ blockSize100k * 100000 + 4096 := by
  refine ⟨(bzip2DecompressBuffer_meets input).inside, (bzip2DecompressBuffer_meets input).ends, ?_⟩
  intro blockSize100k hlevel bwtOutput h
  exact h.length_le (announced_le hlevel)

/-! ### A block larger than announced -/

/-- A run from the start of the block to its end, as the symbol that ends it leaves it. -/
theorem SymbolLoop.symbol_end {s : SymbolLoop} {nInUse maxBlockBytes : ℕ} {b : UInt8}
    (hinUse : 0 < nInUse) (hmtf : s.mtf[0]? = some b) (hout : s.blockOut = [])
    (hrun : 0 < s.runLength) (hle : s.runLength ≤ maxBlockBytes) :
    s.symbol nInUse maxBlockBytes (nInUse + 1) = .ok (.inr (List.replicate s.runLength b)) := by
  rw [SymbolLoop.symbol, if_neg (by omega), SymbolLoop.flush, if_pos hrun,
    readAt_of_getElem? hmtf, ok_bind, hout, List.nil_append]
  dsimp only
  rw [List.length_replicate, if_neg (by omega), pure_bind, if_pos rfl]
  rfl

/-- A stream that announces blocks of 100000 octets, with a block that is a run of 100001 zeros:
sixteen digits and the end. -/
def oversized : Bytes :=
  [0x42, 0x5A, 0x68, 0x31, 0x31, 0x41, 0x59, 0x26, 0x53, 0x59, 0x00, 0x00, 0x00, 0x00, 0x00, 0x00,
    0x00, 0x40, 0x00, 0x40, 0x00, 0x20, 0x00, 0x21, 0x01, 0x01, 0x01, 0x11, 0x40, 0x18, 0x5D, 0xC9,
    0x14, 0xE1, 0x42, 0x40, 0x00, 0x00, 0x00, 0x00]

def oversizedBits (start : ℕ) : List Bool := (streamBits oversized).drop start

def oversizedTables : List Bzip2HuffmanTable := [huffmanArrays [2, 2, 2], huffmanArrays [2, 2, 2]]

/-- The loop before the symbol that ends the block. -/
def oversizedRun : SymbolLoop where
  mtf := [0]
  selectorIndex := 1
  groupSymbolsLeft := 34
  currentTable := some (huffmanArrays [2, 2, 2])
  runLength := 100001
  runBit := 16

set_option maxRecDepth 4000 in
theorem streamRound_oversized :
    streamRound oversizedTables [0] 1 (maxBlockBytes 1) (oversizedRun, oversizedBits 204) =
      .ok (.inr (List.replicate 100001 0, oversizedBits 206)) := by
  have hgroup : oversizedRun.group oversizedTables [0] =
      .ok { oversizedRun with groupSymbolsLeft := 33 } := rfl
  have htable : SymbolLoop.table { oversizedRun with groupSymbolsLeft := 33 } =
      .ok (huffmanArrays [2, 2, 2]) := rfl
  have hsymbol : bzip2GetSymbol (huffmanArrays [2, 2, 2]) (oversizedBits 204) =
      .ok (1 + 1, oversizedBits 206) := rfl
  have hend : SymbolLoop.symbol 1 (maxBlockBytes 1) (1 + 1)
      { oversizedRun with groupSymbolsLeft := 33 } = .ok (.inr (List.replicate 100001 0)) :=
    SymbolLoop.symbol_end Nat.one_pos rfl rfl (by decide) (by decide)
  rw [streamRound, hgroup, ok_bind, htable, ok_bind, hsymbol, ok_bind]
  dsimp only
  rw [hend, ok_bind]
  rfl

set_option maxRecDepth 4000 in
theorem symbolStream_oversized :
    symbolStream oversizedTables [0] [0] (maxBlockBytes 1) (oversizedBits 172) =
      .ok (List.replicate 100001 0, oversizedBits 206) := by
  have hdigits : after (streamRound oversizedTables [0] 1 (maxBlockBytes 1)) 16
      ({ mtf := [0] }, oversizedBits 172) = some (oversizedRun, oversizedBits 204) := rfl
  have hrounds : (oversizedBits 172).length + 1 = 16 + (100 + 1) := rfl
  rw [symbolStream, hrounds]
  exact (rounds_after (100 + 1) hdigits).trans (rounds_end 100 streamRound_oversized)

set_option maxRecDepth 4000 in
theorem bzip2BlockCoded_oversized :
    bzip2BlockCoded 1 (oversizedBits 48) = .ok (List.replicate 100001 0, oversizedBits 206) := by
  have hcrc : ReadBits 32 (oversizedBits 48) = some (0, oversizedBits 80) := rfl
  have hrandomized : ReadBits 1 (oversizedBits 80) = some (0, oversizedBits 81) := rfl
  have horigPtr : ReadBits 24 (oversizedBits 81) = some (0, oversizedBits 105) := rfl
  have hgroups : ReadBits 16 (oversizedBits 105) = some (0x8000, oversizedBits 121) := rfl
  have hmap : readSymbolMap 0x8000 16 (oversizedBits 121) = some ([0], oversizedBits 137) := rfl
  have hnumGroups : ReadBits 3 (oversizedBits 137) = some (2, oversizedBits 140) := rfl
  have hnumSelectors : ReadBits 15 (oversizedBits 140) = some (1, oversizedBits 155) := rfl
  have hselectors : readSelectors 2 1 (oversizedBits 155) = .ok ([0], oversizedBits 156) := rfl
  have htables : readTables ([(0 : UInt8)].length + 2) 2 (oversizedBits 156) =
      .ok (oversizedTables, oversizedBits 172) := rfl
  have hlength : (List.replicate 100001 (0 : UInt8)).length = 100001 := List.length_replicate
  have horigin : 0 < (List.replicate 100001 (0 : UInt8)).length := by
    rw [hlength]
    decide
  have hmeets : Meets False (Holding _ (· = 0)) (invertBwt (List.replicate 100001 0) 0) :=
    invertBwt_meets (fun _ h => List.eq_of_mem_replicate h) horigin
  obtain ⟨bwtOutput, hinvert, hsame⟩ := hmeets.exists_ok
  have heq : bwtOutput = List.replicate 100001 0 :=
    List.eq_replicate_iff.mpr ⟨hsame.length.trans hlength, hsame.all⟩
  rw [bzip2BlockCoded, hcrc, ofOption_some, ok_bind]
  dsimp only
  rw [hrandomized, ofOption_some, ok_bind]
  dsimp only
  rw [if_neg (by decide), horigPtr, ofOption_some, ok_bind]
  dsimp only
  rw [hgroups, ofOption_some, ok_bind]
  dsimp only
  rw [hmap, ofOption_some, ok_bind]
  dsimp only
  rw [if_neg (by decide), hnumGroups, ofOption_some, ok_bind]
  dsimp only
  rw [if_neg (by decide), hnumSelectors, ofOption_some, ok_bind]
  dsimp only
  rw [if_neg (by decide), hselectors, ok_bind]
  dsimp only
  rw [htables, ok_bind]
  dsimp only
  rw [symbolStream_oversized, ok_bind]
  dsimp only
  rw [if_neg (not_le.mpr horigin), hinvert, ok_bind, heq]
  rfl

set_option maxRecDepth 4000 in
/-- The slack lets a block pass that is larger than what its stream announces. -/
theorem oversized_exceeds_announced :
    announced oversized = some 1 ∧
      ∃ bwtOutput, Accepts 1 (streamBits oversized) bwtOutput ∧ 1 * 100000 < bwtOutput.length := by
  have hmagic : ReadBits 48 (oversizedBits 0) = some (0x314159265359, oversizedBits 48) := rfl
  have hlength : (List.replicate 100001 (0 : UInt8)).length = 100001 := List.length_replicate
  obtain ⟨data, hdata, -⟩ := (undoRle1_same (b := 0) (fun _ h => List.eq_of_mem_replicate h)
    (show (List.replicate 100001 (0 : UInt8)).length % 5 ≠ 4 by rw [hlength]; decide)).exists_ok
  refine ⟨rfl, List.replicate 100001 0, .here hmagic bzip2BlockCoded_oversized hdata, ?_⟩
  rw [hlength]
  decide

end HashCryptoLib.Pgp.Bzip2Arrays
