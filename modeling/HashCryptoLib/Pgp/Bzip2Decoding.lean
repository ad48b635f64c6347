import HashCryptoLib.Pgp.Bzip2Symbols

/-!
A block is decoded to the octets it was made from. The last two passes are undone
here: the inverse transform reads the word off its sorted rotations, and the runs are
written out again.
-/

namespace HashCryptoLib.Pgp

open Bits CanonicalCode

/-! ### The inverse transform -/

section Transform

variable {column coded : Bytes} {word : List ℕ} {rows : List (List ℕ)} {origPtr : ℕ}

theorem bwtNextIndex_eq (column : Bytes) :
    bwtNextIndex column = Buckets.buckets (List.range 256) (column.map UInt8.toNat) := by
  rw [bwtNextIndex, Buckets.buckets]
  apply congrArg List.flatten
  apply List.map_congr_left
  intro ch hch
  rw [Buckets.bucket, List.length_map]
  apply List.filter_congr
  intro i _
  rw [decide_eq_decide, List.getElem?_map, Option.map_eq_some_iff]
  constructor
  · intro hget
    exact ⟨_, hget, UInt8.toNat_ofNat_of_lt' (List.mem_range.mp hch)⟩
  · rintro ⟨octet, hget, rfl⟩
    rw [hget, UInt8.ofNat_toNat]

theorem sortedPositions_bwtNextIndex (column : Bytes) :
    Bwt.SortedPositions (column.map UInt8.toNat) (bwtNextIndex column) := by
  have hkeys : (List.range 256).Pairwise (· < ·) := List.pairwise_lt_range
  have hall : ∀ octet ∈ column.map UInt8.toNat, octet ∈ List.range 256 := by
    intro octet hoctet
    obtain ⟨b, -, rfl⟩ := List.mem_map.mp hoctet
    exact List.mem_range.mpr b.toNat_lt
  rw [bwtNextIndex_eq]
  exact ⟨Buckets.buckets_perm List.nodup_range hall, Buckets.pairwise_buckets hkeys _⟩

/-- From the rotation by `k + 1` on, the letters behind the first `k` are read: induction on how
many are left. -/
theorem followBwt_rotation (hrows : Bwt.SortedRotations word rows)
    (hcolumn : column.map UInt8.toNat = rows.filterMap List.getLast?) (left : ℕ) {k t : ℕ}
    (hk : k + left = word.length) (ht : rows[t]? = some (word.rotate (k + 1))) :
    (followBwt column (bwtNextIndex column) left t).map UInt8.toNat = word.drop k := by
  have hpositions := sortedPositions_bwtNextIndex column
  rw [hcolumn] at hpositions
  induction left generalizing k t with
  | zero => rw [List.drop_of_length_le (by omega)]; rfl
  | succ left ih =>
      have hlt : k < word.length := by omega
      have hletter := Bwt.column_eq hrows hlt ht
      rw [← hcolumn, List.getElem?_map, List.getElem?_eq_getElem hlt] at hletter
      obtain ⟨octet, hoctet, hvalue⟩ := Option.map_eq_some_iff.mp hletter
      obtain ⟨next, hnext, hrow⟩ := Bwt.next_rotation hrows hpositions ht
      rw [followBwt, List.map_cons, List.getD_eq_getElem?_getD, hoctet, List.getD_eq_getElem?_getD,
        hnext, Option.getD_some, Option.getD_some, hvalue, ih (by omega) hrow,
        ← List.drop_eq_getElem_cons hlt]

theorem toNat_injective : Function.Injective UInt8.toNat := fun _ _ => UInt8.toNat_inj.mp

theorem length_column (hrows : Bwt.SortedRotations (coded.map UInt8.toNat) rows)
    (hcolumn : column.map UInt8.toNat = rows.filterMap List.getLast?) :
    column.length = coded.length := by
  have hlength := congrArg List.length hcolumn
  rw [Bwt.length_column fun row => hrows.row_ne_nil, hrows.length_rows, List.length_map,
    List.length_map] at hlength
  exact hlength

theorem length_transform
    (h : Bwt.IsTransform (coded.map UInt8.toNat) (column.map UInt8.toNat) origPtr) :
    column.length = coded.length ∧ origPtr < column.length := by
  obtain ⟨rows, hrows, hcolumn, horigin⟩ := h
  have hlength := length_column hrows hcolumn
  have hlt := (List.getElem?_eq_some_iff.mp horigin).1
  rw [hrows.length_rows, List.length_map] at hlt
  exact ⟨hlength, hlength ▸ hlt⟩

/-- What the transform was made of comes back. -/
theorem followBwt_transform
    (h : Bwt.IsTransform (coded.map UInt8.toNat) (column.map UInt8.toNat) origPtr) :
    followBwt column (bwtNextIndex column) column.length
      ((bwtNextIndex column).getD origPtr 0) = coded := by
  obtain ⟨rows, hrows, hcolumn, horigin⟩ := h
  have hlength := length_column hrows hcolumn
  have hpositions := sortedPositions_bwtNextIndex column
  rw [hcolumn] at hpositions
  obtain ⟨next, hnext, hrow⟩ := Bwt.next_rotation (k := 0) hrows hpositions
    (by rw [List.rotate_zero]; exact horigin)
  apply List.map_injective_iff.mpr toNat_injective
  rw [List.getD_eq_getElem?_getD, hnext, Option.getD_some,
    followBwt_rotation hrows hcolumn column.length (by rw [List.length_map]; omega) hrow,
    List.drop_zero]

end Transform

/-! ### The runs -/

theorem undoRle1_cons (b : UInt8) (rest : Bytes) (more : ℕ)
    (hmore : ((rest.take 3).takeWhile (· = b)).length = more) :
    undoRle1 (b :: rest) =
      match rest.drop more with
      | [] => if more = 3 then none else some (List.replicate (1 + more) b)
      | extra :: rest' =>
        if more = 3 then (undoRle1 rest').map (List.replicate (4 + extra.toNat) b ++ ·)
        else (undoRle1 (extra :: rest')).map (List.replicate (1 + more) b ++ ·) := by
  subst hmore
  rw [undoRle1]
  split
  · rename_i hnil
    rw [hnil]
  · rename_i hcons
    rw [hcons]

theorem undoRle1_rle1 {data coded : Bytes} (h : Rle1 data coded) : undoRle1 coded = some data := by
  induction h with
  | nil => rw [undoRle1]
  | @short data coded b n hpos hle hnext h ih =>
      obtain ⟨more, rfl⟩ : ∃ more, n = more + 1 := ⟨n - 1, by omega⟩
      have hmore : (((List.replicate more b ++ coded).take 3).takeWhile (· = b)).length = more := by
        obtain ⟨left, hleft⟩ : ∃ left, 3 = more + (left + 1) := ⟨2 - more, by omega⟩
        have hstop : (coded.take (left + 1)).takeWhile (· = b) = [] := by
          cases coded with
          | nil => rfl
          | cons c coded =>
              have hne : c ≠ b := fun heq => hnext (congrArg some heq)
              rw [List.take_succ_cons, List.takeWhile_cons_of_neg (by simpa using hne)]
        rw [hleft, List.take_append, List.length_replicate, Nat.add_sub_cancel_left,
          List.take_of_length_le (by rw [List.length_replicate]; omega),
          List.takeWhile_append_of_pos (by simp), hstop, List.append_nil, List.length_replicate]
      rw [List.replicate_succ, List.cons_append, undoRle1_cons b _ more hmore,
        List.drop_left' List.length_replicate]
      cases coded with
      | nil =>
          have hnil : data = [] := by
            rw [undoRle1] at ih
            exact (Option.some.inj ih).symm
          dsimp only
          rw [if_neg (by omega), hnil, List.append_nil, Nat.add_comm, List.replicate_succ]
      | cons c coded =>
          dsimp only
          rw [if_neg (by omega), ih, Option.map_some, Nat.add_comm, List.replicate_succ]
  | @long data coded b extra h ih =>
      have hmore : ((((List.replicate 3 b ++ extra :: coded)).take 3).takeWhile (· = b)).length = 3 := by
        rw [List.take_left' List.length_replicate, List.takeWhile_replicate, if_pos (by simp),
          List.length_replicate]
      rw [show List.replicate 4 b = b :: List.replicate 3 b from rfl, List.cons_append,
        undoRle1_cons b _ 3 hmore, List.drop_left' List.length_replicate]
      dsimp only
      rw [if_pos rfl, ih, Option.map_some]

/-! ### The block -/

theorem exists_tables {alphaSize : ℕ} {lengthTables : List (List ℕ)}
    (h : ∀ lengths ∈ lengthTables, CodeLengths alphaSize lengths) :
    ∃ tables, List.Forall₂ (fun lengths table => bzip2BuildHuffmanTable lengths = some table)
      lengthTables tables ∧ List.Forall₂ TableFor lengthTables tables := by
  induction lengthTables with
  | nil => exact ⟨[], .nil, .nil⟩
  | cons lengths lengthTables ih =>
      obtain ⟨hhere, hothers⟩ := List.forall_mem_cons.mp h
      obtain ⟨tables, hbuilt, hfor⟩ := ih hothers
      obtain ⟨table, htable, htableFor⟩ := bzip2BuildHuffmanTable_spec hhere
      exact ⟨table :: tables, .cons htable hbuilt, .cons htableFor hfor⟩

namespace Bzip2Block

variable {blockSize100k : ℕ} (block : Bzip2Block blockSize100k)

/-- A block holds octets, so octets are in use. -/
theorem symbolMap_ne_nil : symbolMap block.used ≠ [] := by
  have hlt := (length_transform block.transform).2
  intro hnil
  have hmem := block.moveToFront.mem_front _ (List.getElem_mem hlt)
  rw [hnil] at hmem
  cases hmem

/-- A block is decoded under every level that lets it pass, which are more than the ones it may
be written for. -/
theorem decode_of_fits {level : ℕ} (hfits : block.coded.length ≤ level * 100000 + 4096)
    (rest : List Bool) :
    bzip2DecodeBlock level (block.bits ++ rest) = some (block.data, rest) := by
  have hfront := block.symbolMap_ne_nil
  obtain ⟨hlength, horigin⟩ := length_transform block.transform
  obtain ⟨tables, hbuilt, hfor⟩ := exists_tables block.codeLengths
  have hcodes : Codes ((symbolMap block.used).length + 2) block.lengthTables tables block.selectors :=
    ⟨block.codeLengths, hfor, fun selector hselector =>
      List.mem_range.mp (block.selectors_coded.mem_front selector hselector)⟩
  have hlong := block.selectors_enough
  have hlt := block.selectors_lt
  have htwo := block.two_le_tables
  have hsix := block.tables_le_six
  have hsymbols : symbolStream tables ((symbolMap block.used).length + 2)
      (level * 100000 + 4096) { mtf := symbolMap block.used, selectors := block.selectors }
      (symbolBits block.lengthTables block.selectors 0 (block.symbols ++ [block.eobSymbol]) ++ rest) =
        some (block.column, rest) :=
    symbolStream_symbols hcodes block.runs rest ⟨rfl, rfl, fun h => absurd rfl h⟩ (by omega) hfront
      rfl block.moveToFront (fun h => absurd h (lt_irrefl 0)) (fun _ => rfl)
      (show 0 + 0 + block.column.length ≤ level * 100000 + 4096 by omega)
  have hselectors := readSelectors_bits block.selectors_coded
    (block.tableBits ++ (symbolBits block.lengthTables block.selectors 0
      (block.symbols ++ [block.eobSymbol]) ++ rest))
  rw [List.length_range] at hselectors
  obtain ⟨usedGroupsBits, maps, hgroups, hmaps⟩ := readSymbolMap_symbolMapBits block.used
    (toBits 3 block.lengthTables.length ++ (toBits 15 block.selectors.length ++
      (selectorBits block.selectorRanks ++ (block.tableBits ++ (symbolBits block.lengthTables block.selectors 0
        (block.symbols ++ [block.eobSymbol]) ++ rest)))))
  have hrandomized (rest : List Bool) : ReadBits 1 ([false] ++ rest) = some (0, rest) :=
    readBits_append [false] rest
  simp only [bits, List.append_assoc]
  rw [bzip2DecodeBlock, reader_bind (readBits_toBits block.blockCrc_lt _),
    reader_bind (hrandomized _), if_neg (by decide), reader_bind (readBits_toBits block.origPtr_lt _), reader_bind hgroups,
    reader_bind hmaps, if_neg hfront]
  dsimp only
  rw [reader_bind (readBits_toBits (show block.lengthTables.length < 2 ^ 3 by omega) _), if_neg (by omega),
    reader_bind (readBits_toBits block.selectors_lt _), if_neg (by omega), reader_bind hselectors,
    reader_bind (readTables_bits block.tables_coded block.codeLengths hbuilt _)]
  rw [reader_bind hsymbols, if_neg (Nat.not_le_of_lt horigin), followBwt_transform block.transform,
    undoRle1_rle1 block.rle1]
  rfl

/-- However a block was written, it is decoded to what it was made from, and the reader is left
behind the symbol that ends it. -/
theorem bzip2DecodeBlock_bits (rest : List Bool) :
    bzip2DecodeBlock blockSize100k (block.bits ++ rest) = some (block.data, rest) :=
  block.decode_of_fits (block.coded_le.trans (Nat.le_add_right _ _)) rest

end Bzip2Block

/-! ### A block of zeros -/

theorem rle1_zeros (count : ℕ) :
    Rle1 (List.replicate (4 * count + 1) 0) (List.replicate (5 * count + 1) 0) := by
  induction count with
  | zero => exact .short le_rfl (by decide) (by simp) .nil
  | succ count ih =>
      have hlong := Rle1.long 0 0 ih
      rw [← List.replicate_succ, ← List.replicate_add, ← List.replicate_add] at hlong
      rw [show 4 * (count + 1) + 1 = 4 + (0 : UInt8).toNat + (4 * count + 1) by
        rw [show (0 : UInt8).toNat = 0 from rfl]; omega,
        show 5 * (count + 1) + 1 = 4 + (5 * count + 1 + 1) by omega]
      exact hlong

theorem ranks_zeros (n : ℕ) : Ranks [(0 : UInt8)] (List.replicate n 0) (List.replicate n 0) := by
  induction n with
  | zero => exact .nil
  | succ n ih => exact .cons rfl ih

/-- `4 * count + 1` zeros, which the first pass makes one run of `5 * count + 1`. -/
def zeroBlock (blockSize100k count : ℕ) (digits : List ℕ) (hdigits : ∀ digit ∈ digits, digit ≤ 1)
    (hvalue : runValue digits = 5 * count + 1) (hlength : digits.length + 1 ≤ 50)
    (hfits : 5 * count + 1 ≤ blockSize100k * 100000) : Bzip2Block blockSize100k where
  data := List.replicate (4 * count + 1) 0
  coded := List.replicate (5 * count + 1) 0
  rle1 := rle1_zeros count
  coded_le := by rwa [List.length_replicate]
  column := List.replicate (5 * count + 1) 0
  origPtr := 0
  transform := by
    rw [List.map_replicate]
    exact Bwt.isTransform_replicate (Nat.succ_pos _) _
  origPtr_lt := by decide
  blockCrc := 0
  blockCrc_lt := by decide
  used := (· == 0)
  ranks := List.replicate (5 * count + 1) 0
  moveToFront := by
    rw [show symbolMap (· == 0) = [0] by decide]
    exact ranks_zeros _
  symbols := digits
  runs := by
    have hne : digits ≠ [] := by
      rintro rfl
      cases hvalue
    have hrun := RunSymbols.run hdigits hne (by simp) .nil
    rwa [hvalue, List.append_nil, List.append_nil] at hrun
  lengthTables := [[2, 2, 2], [2, 2, 2]]
  two_le_tables := by decide
  tables_le_six := by decide
  codeLengths := by
    rw [show symbolMap (· == 0) = [0] by decide]
    have hlengths : CodeLengths 3 [2, 2, 2] := ⟨rfl, by decide, by decide, by decide⟩
    simpa using hlengths
  tableBits := toBits 5 2 ++ [false, false, false] ++ (toBits 5 2 ++ [false, false, false] ++ [])
  tables_coded :=
    have hlengths : LengthsBits 2 [2, 2, 2] [false, false, false] :=
      .cons (.stay 2) (.cons (.stay 2) (.cons (.stay 2) (.nil 2)))
    .cons (by decide) (by decide) hlengths (.cons (by decide) (by decide) hlengths .nil)
  selectors := [0]
  selectors_lt := by decide
  selectors_enough := by simpa using hlength
  selectorRanks := [0]
  selectors_coded := .cons rfl .nil

/-- One zero is a block of the smallest size. -/
example : (zeroBlock 1 0 [0] (by decide) (by decide) (by decide) (by decide)).data = [0] := rfl

end HashCryptoLib.Pgp
