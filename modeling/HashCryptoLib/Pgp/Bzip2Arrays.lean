import HashCryptoLib.Lib.CheckedArray
import HashCryptoLib.Pgp.Bzip2Tables

/-!
The Huffman tables of the bzip2 decoder over its arrays. Every index the source forms is
checked here, so that a read or a write outside a table shows as an outcome of its own, and
the loop that reads a codeword is cut off after a number of rounds that it never uses up.
-/

namespace HashCryptoLib.Pgp.Bzip2Arrays

open CheckedArray CanonicalCode

/-! ### The source's loops -/

structure Bzip2HuffmanTable where
  minLen : ℕ
  maxLen : ℕ
  limit : List ℤ
  base : List ℤ
  perm : List ℕ
  deriving DecidableEq, Repr

section Loops

variable (lengths : List ℕ) (alphaSize : ℕ)

def scanLengths : Checked (ℕ × ℕ) :=
  upFrom (fun i s => do
    let len ← readAt lengths i
    pure (min s.1 len, max s.2 len)) 0 alphaSize (32, 0)

/-- The symbols of this length, written behind those of the shorter ones. -/
def fillLength (len : ℕ) (s : List ℕ × ℕ) : Checked (List ℕ × ℕ) :=
  upFrom (fun i s => do
    if (← readAt lengths i) = len then
      let perm ← writeAt s.1 s.2 i
      pure (perm, s.2 + 1)
    else pure s) 0 alphaSize s

def fillPerm (minLen maxLen : ℕ) : Checked (List ℕ) := do
  let (perm, _) ← upFrom (fillLength lengths alphaSize) minLen (maxLen + 1 - minLen)
    (List.replicate alphaSize 0, 0)
  pure perm

def fillLimit (base : List ℤ) (minLen maxLen : ℕ) : Checked (List ℤ) := do
  let (limit, _) ← upFrom (fun len s => do
      let vec := s.2 + ((← readAt base (len + 1)) - (← readAt base len))
      let limit ← writeAt s.1 len (vec - 1)
      pure (limit, 2 * vec)) minLen (maxLen + 1 - minLen) (List.replicate 24 0, 0)
  pure limit

def finishBase (limit base : List ℤ) (minLen maxLen : ℕ) : Checked (List ℤ) :=
  upFrom (fun len base => do
    writeAt base len (((← readAt limit (len - 1)) + 1) * 2 - (← readAt base len)))
    (minLen + 1) (maxLen - minLen) base

def bzip2BuildHuffmanTable : Checked Bzip2HuffmanTable := do
  let (minLen, maxLen) ← scanLengths lengths alphaSize
  if minLen < 1 ∨ maxLen > 20 then refuse
  else
    let perm ← fillPerm lengths alphaSize minLen maxLen
    let base ← countUp lengths alphaSize (List.replicate 24 0)
    let base ← sumUp 23 base
    let limit ← fillLimit base minLen maxLen
    let base ← finishBase limit base minLen maxLen
    pure { minLen, maxLen, limit, base, perm }

end Loops

def symbolRound (table : Bzip2HuffmanTable) :
    ℕ × ℕ × List Bool → Checked (ℕ × ℕ × List Bool ⊕ ℕ × List Bool)
  | (code, len, bits) =>
    if len > table.maxLen then refuse
    else do
      if (code : ℤ) ≤ (← readAt table.limit len) then
        let index := (code : ℤ) - (← readAt table.base len)
        if index < 0 ∨ index ≥ table.perm.length then refuse
        else
          let symbol ← readAt table.perm index.toNat
          pure (.inr (symbol, bits))
      else
        let (bit, bits) ← ofOption (ReadBits 1 bits)
        pure (.inl (2 * code + bit, len + 1, bits))

def bzip2GetSymbol (table : Bzip2HuffmanTable) (bits : List Bool) : Checked (ℕ × List Bool) := do
  let (code, bits) ← ofOption (ReadBits table.minLen bits)
  rounds (symbolRound table) (bits.length + 1) (code, table.minLen, bits)

/-! ### What the loops leave -/

section Built

variable {lengths : List ℕ} {minLen maxLen : ℕ}

theorem scanLengths_eq (lengths : List ℕ) :
    scanLengths lengths lengths.length = .ok (lengths.foldl min 32, lengths.foldl max 0) := by
  have hloop := upFrom_eq (fun i s => do
      let len ← readAt lengths i
      pure (min s.1 len, max s.2 len))
    0 lengths.length (fun i => ((lengths.take i).foldl min 32, (lengths.take i).foldl max 0))
    (by
      intro i _ hi
      rw [Nat.zero_add] at hi
      rw [readAt_of_getElem? (List.getElem?_eq_getElem hi), ok_bind, List.take_add_one,
        List.getElem?_eq_getElem hi, List.foldl_append, List.foldl_append]
      rfl)
  rwa [Nat.zero_add, List.take_length] at hloop

/-- One turn over the symbols puts those of one length behind what is there. -/
theorem fillLength_eq {done : List ℕ} {len : ℕ}
    (hroom : done.length + lengths.count len ≤ lengths.length) :
    fillLength lengths lengths.length len (filled lengths.length 0 done, done.length) =
      .ok (filled lengths.length 0 (done ++ Buckets.bucket lengths len),
        (done ++ Buckets.bucket lengths len).length) := by
  let placed (i : ℕ) := done ++ (List.range i).filter fun j => lengths[j]? = some len
  have hloop := upFrom_eq (fun i s => do
      if (← readAt lengths i) = len then
        let perm ← writeAt s.1 s.2 i
        pure (perm, s.2 + 1)
      else pure s)
    0 lengths.length (fun i => (filled lengths.length 0 (placed i), (placed i).length))
    (by
      intro i _ hi
      rw [Nat.zero_add] at hi
      have hget := List.getElem?_eq_getElem hi
      rw [readAt_of_getElem? hget, ok_bind]
      split_ifs with hlen
      · have hlast : placed (i + 1) = placed i ++ [i] := by
          simp only [placed, List.range_succ, List.filter_append, List.append_assoc]
          rw [List.filter_singleton, hget, hlen]
          simp
        have hlt : (placed i).length < lengths.length := by
          have hcount := count_take_lt (hlen ▸ hget)
          simp only [placed, List.length_append]
          rw [Buckets.length_filter_range hi.le]
          omega
        have hlength : (placed i ++ [i]).length = (placed i).length + 1 := List.length_append
        rw [hlast, hlength, writeAt_filled hlt, ok_bind]
        rfl
      · have hsame : placed (i + 1) = placed i := by
          simp only [placed, List.range_succ, List.filter_append]
          rw [List.filter_singleton, hget]
          simp [hlen]
        rw [hsame]
        rfl)
  have hstart : placed 0 = done := List.append_nil done
  rw [Nat.zero_add, hstart] at hloop
  exact hloop

/-- The symbols with lengths from `minLen` on, below `len`. -/
def permBelow (lengths : List ℕ) (minLen len : ℕ) : List ℕ :=
  Buckets.buckets (List.range' minLen (len - minLen)) lengths

theorem permBelow_succ {len : ℕ} (h : minLen ≤ len) :
    permBelow lengths minLen (len + 1) =
      permBelow lengths minLen len ++ Buckets.bucket lengths len := by
  rw [permBelow, Nat.succ_sub h, List.range'_1_concat, Buckets.buckets, List.flatMap_append,
    List.flatMap_singleton, Nat.add_sub_cancel' h]
  rfl

theorem length_permBelow_add (lengths : List ℕ) {len : ℕ} (h : minLen ≤ len) :
    (permBelow lengths minLen len).length + lengths.count len ≤ lengths.length := by
  have hnot : len ∉ List.range' minLen (len - minLen) := by
    rw [List.mem_range'_1]
    omega
  rw [permBelow, Buckets.length_buckets List.nodup_range', Nat.add_comm,
    Buckets.count_add_countP hnot]
  exact List.countP_le_length

theorem fillPerm_eq (hmin : minLen ≤ maxLen + 1)
    (hall : ∀ len ∈ lengths, minLen ≤ len ∧ len ≤ maxLen) :
    fillPerm lengths lengths.length minLen maxLen =
      .ok (permBelow lengths minLen (maxLen + 1)) := by
  have hloop := upFrom_eq (fillLength lengths lengths.length) minLen (maxLen + 1 - minLen)
    (fun len => (filled lengths.length 0 (permBelow lengths minLen len),
      (permBelow lengths minLen len).length))
    (by
      intro len hle _
      rw [fillLength_eq (length_permBelow_add lengths hle), permBelow_succ hle])
  have hnone : permBelow lengths minLen minLen = [] := by
    rw [permBelow, Nat.sub_self]
    rfl
  have hfull : (permBelow lengths minLen (maxLen + 1)).length = lengths.length := by
    rw [permBelow, Buckets.length_buckets List.nodup_range', List.countP_eq_length]
    intro len hlen
    have := hall len hlen
    rw [decide_eq_true_eq, List.mem_range'_1]
    omega
  rw [Nat.add_sub_cancel' hmin, hnone, filled_nil, filled_full hfull] at hloop
  rw [fillPerm]
  dsimp only
  rw [show ([] : List ℕ).length = 0 from rfl] at hloop
  rw [hloop]
  rfl

/-- The limits as the loop has them so far, and the first word that is left at the next length. -/
def limitBelow (lengths : List ℕ) (minLen len : ℕ) : List ℤ :=
  tabulate 24 fun i =>
    if minLen ≤ i ∧ i < len then (huffmanVec lengths minLen (i - minLen) : ℤ) - 1 else 0

def vecBefore (lengths : List ℕ) (minLen len : ℕ) : ℤ :=
  if len = minLen then 0 else 2 * huffmanVec lengths minLen (len - 1 - minLen)

theorem vecBefore_add {len : ℕ} (h : minLen ≤ len) :
    vecBefore lengths minLen len + lengths.count len = huffmanVec lengths minLen (len - minLen) := by
  obtain ⟨k, rfl⟩ := Nat.exists_eq_add_of_le h
  cases k with
  | zero => simp [vecBefore, huffmanVec, codesOfLength]
  | succ k =>
      rw [vecBefore, if_neg (by omega), show minLen + (k + 1) - 1 - minLen = k by omega,
        Nat.add_sub_cancel_left, huffmanVec, codesOfLength]
      push_cast
      rfl

theorem fillLimit_eq (hmin : minLen ≤ maxLen + 1) (hmax : maxLen ≤ 20) :
    fillLimit (tabulate 24 fun i => (lengths.countP (· < i) : ℤ)) minLen maxLen =
      .ok (limitBelow lengths minLen (maxLen + 1)) := by
  have hloop := upFrom_eq (fun len s => do
      let vec := s.2 + ((← readAt (tabulate 24 fun i => (lengths.countP (· < i) : ℤ)) (len + 1)) -
        (← readAt (tabulate 24 fun i => (lengths.countP (· < i) : ℤ)) len))
      let limit ← writeAt s.1 len (vec - 1)
      pure (limit, 2 * vec))
    minLen (maxLen + 1 - minLen)
    (fun len => (limitBelow lengths minLen len, vecBefore lengths minLen len))
    (by
      intro len hle hlt
      have hvec : vecBefore lengths minLen len +
          ((lengths.countP (· < len + 1) : ℤ) - lengths.countP (· < len)) =
            huffmanVec lengths minLen (len - minLen) := by
        rw [countP_lt_succ, ← vecBefore_add hle]
        push_cast
        ring
      rw [readAt_tabulate (by omega), ok_bind, readAt_tabulate (by omega), ok_bind]
      dsimp only
      rw [hvec, limitBelow, writeAt_tabulate_eq (by omega) (g := fun i =>
        if minLen ≤ i ∧ i < len + 1 then (huffmanVec lengths minLen (i - minLen) : ℤ) - 1 else 0),
        ok_bind]
      · have hnext : vecBefore lengths minLen (len + 1) =
            2 * huffmanVec lengths minLen (len - minLen) := by
          rw [vecBefore, if_neg (by omega), Nat.add_sub_cancel]
        rw [hnext]
        rfl
      · exact if_pos ⟨hle, Nat.lt_succ_self len⟩
      · intro k _ hk
        by_cases h : minLen ≤ k ∧ k < len
        · rw [if_pos h, if_pos ⟨h.1, by omega⟩]
        · rw [if_neg h, if_neg (by omega)])
  have hstart : limitBelow lengths minLen minLen = List.replicate 24 0 := by
    rw [replicate_eq_tabulate]
    exact tabulate_congr fun i _ => if_neg (by omega)
  have hzero : vecBefore lengths minLen minLen = 0 := if_pos rfl
  rw [hstart, hzero, Nat.add_sub_cancel' hmin] at hloop
  rw [fillLimit, hloop]
  rfl

/-- The base of a length above the least one, once it is finished. -/
def baseBelow (lengths : List ℕ) (minLen len : ℕ) : List ℤ :=
  tabulate 24 fun i =>
    if minLen < i ∧ i < len then
      ((huffmanVec lengths minLen (i - 1 - minLen) : ℤ) - 1 + 1) * 2 - lengths.countP (· < i)
    else lengths.countP (· < i)

theorem finishBase_eq (hmin : minLen ≤ maxLen) (hmax : maxLen ≤ 20) :
    finishBase (limitBelow lengths minLen (maxLen + 1))
        (tabulate 24 fun i => (lengths.countP (· < i) : ℤ)) minLen maxLen =
      .ok (baseBelow lengths minLen (maxLen + 1)) := by
  have hloop := upFrom_eq (fun len base => do
      writeAt base len (((← readAt (limitBelow lengths minLen (maxLen + 1)) (len - 1)) + 1) * 2 -
        (← readAt base len)))
    (minLen + 1) (maxLen - minLen) (fun len => baseBelow lengths minLen len)
    (by
      intro len hle hlt
      rw [limitBelow, readAt_tabulate (by omega), ok_bind, baseBelow, readAt_tabulate (by omega),
        ok_bind, if_pos (by omega), if_neg (by omega)]
      apply writeAt_tabulate_eq (by omega)
      · exact if_pos ⟨hle, Nat.lt_succ_self len⟩
      · intro k _ hk
        by_cases h : minLen < k ∧ k < len
        · rw [if_pos h, if_pos ⟨h.1, by omega⟩]
        · rw [if_neg h, if_neg (by omega)])
  have hstart : baseBelow lengths minLen (minLen + 1) =
      tabulate 24 fun i => (lengths.countP (· < i) : ℤ) :=
    tabulate_congr fun i _ => if_neg (by omega)
  rw [hstart, show minLen + 1 + (maxLen - minLen) = maxLen + 1 by omega] at hloop
  rw [finishBase]
  exact hloop

/-- The arrays as a whole. -/
def huffmanArrays (lengths : List ℕ) : Bzip2HuffmanTable :=
  let minLen := lengths.foldl min 32
  let maxLen := lengths.foldl max 0
  { minLen, maxLen
    limit := limitBelow lengths minLen (maxLen + 1)
    base := baseBelow lengths minLen (maxLen + 1)
    perm := permBelow lengths minLen (maxLen + 1) }

theorem bzip2BuildHuffmanTable_eq (hne : lengths ≠ []) :
    bzip2BuildHuffmanTable lengths lengths.length =
      if lengths.foldl min 32 < 1 ∨ lengths.foldl max 0 > 20 then refuse
      else .ok (huffmanArrays lengths) := by
  have hleast := (foldl_min_le lengths 32).2
  have hmost := (le_foldl_max lengths 0).2
  obtain ⟨len, hlen⟩ := List.exists_mem_of_ne_nil lengths hne
  have hmin : lengths.foldl min 32 ≤ lengths.foldl max 0 := (hleast len hlen).trans (hmost len hlen)
  rw [bzip2BuildHuffmanTable, scanLengths_eq, ok_bind]
  dsimp only
  split_ifs with hbad
  · rfl
  · have hcount : countUp lengths lengths.length (List.replicate 24 (0 : ℤ)) =
        .ok (tabulate 24 fun i => (countBelow lengths i : ℤ)) := by
      apply countUp_eq
      intro len hlen
      have := hmost len hlen
      omega
    have hsum : sumUp 23 (tabulate 24 fun i => (countBelow lengths i : ℤ)) =
        .ok (tabulate 24 fun i => (lengths.countP (· < i) : ℤ)) :=
      sumUp_eq (n := 24) (by decide)
    rw [fillPerm_eq (by omega) fun len hlen => ⟨hleast len hlen, hmost len hlen⟩, ok_bind, hcount,
      ok_bind, hsum, ok_bind, fillLimit_eq (by omega) (by omega), ok_bind,
      finishBase_eq hmin (by omega), ok_bind]
    rfl

end Built

/-! ### The tables as functions -/

/-- The arrays hold what the table says, wherever it is read. -/
structure Represents (arrays : Bzip2HuffmanTable) (table : Pgp.Bzip2HuffmanTable) : Prop where
  minLen : arrays.minLen = table.minLen
  maxLen : arrays.maxLen = table.maxLen
  limit : ∀ len, table.minLen ≤ len → len ≤ table.maxLen →
    arrays.limit[len]? = some (table.limit len)
  base : ∀ len, table.minLen ≤ len → len ≤ table.maxLen →
    arrays.base[len]? = some (table.base len)
  perm : arrays.perm = table.perm

section Represents

variable {lengths : List ℕ} {arrays : Bzip2HuffmanTable} {table : Pgp.Bzip2HuffmanTable}

theorem huffmanArrays_represents (h : Pgp.bzip2BuildHuffmanTable lengths = some table) :
    Represents (huffmanArrays lengths) table := by
  rw [Pgp.bzip2BuildHuffmanTable] at h
  dsimp only at h
  split_ifs at h with hbad
  obtain rfl := Option.some.inj h
  refine ⟨rfl, rfl, ?_, ?_, rfl⟩
  · intro len hle hlt
    dsimp only at hle hlt ⊢
    rw [huffmanArrays, limitBelow, getElem?_tabulate (by omega), if_pos (by omega)]
  · intro len hle hlt
    dsimp only at hle hlt ⊢
    rw [huffmanArrays, baseBelow, getElem?_tabulate (by omega)]
    split_ifs with habove heq heq
    · omega
    · rfl
    · rfl
    · omega

theorem readBit_cons (bit : Bool) (bits : List Bool) :
    ReadBits 1 (bit :: bits) = some (bit.toNat, bits) := by
  rw [ReadBits, if_pos (by rw [List.length_cons]; omega)]
  cases bit <;> rfl

/-- What the table has at the place of a code. -/
def lookUp (table : Pgp.Bzip2HuffmanTable) (code len : ℕ) (bits : List Bool) :
    Option (ℕ × List Bool) :=
  let index := (code : ℤ) - table.base len
  if index < 0 then none else (table.perm[index.toNat]?).map fun symbol => (symbol, bits)

theorem symbolRound_found (h : Represents arrays table) {code len : ℕ} (bits : List Bool)
    (hmin : table.minLen ≤ len) (hmax : len ≤ table.maxLen) (hcode : code ≤ table.limit len) :
    symbolRound arrays (code, len, bits) = ofOption ((lookUp table code len bits).map .inr) := by
  rw [symbolRound, h.maxLen, if_neg hmax.not_gt, readAt_of_getElem? (h.limit len hmin hmax),
    ok_bind, if_pos hcode, readAt_of_getElem? (h.base len hmin hmax), ok_bind, h.perm, lookUp]
  dsimp only
  by_cases hneg : (code : ℤ) - table.base len < 0
  · rw [if_pos (Or.inl hneg), if_pos hneg]
    rfl
  · rw [if_neg hneg]
    by_cases hbeyond : (code : ℤ) - table.base len ≥ table.perm.length
    · rw [if_pos (Or.inr hbeyond), List.getElem?_eq_none (by omega)]
      rfl
    · rw [if_neg (not_or.mpr ⟨hneg, hbeyond⟩),
        readAt_of_getElem? (List.getElem?_eq_getElem (by omega)), ok_bind,
        List.getElem?_eq_getElem (by omega)]
      rfl

theorem rounds_found (h : Represents arrays table) {code len : ℕ} (n : ℕ) (bits : List Bool)
    (hmin : table.minLen ≤ len) (hmax : len ≤ table.maxLen) (hcode : code ≤ table.limit len) :
    rounds (symbolRound arrays) (n + 1) (code, len, bits) =
      ofOption (lookUp table code len bits) := by
  have hround := symbolRound_found h bits hmin hmax hcode
  cases hfound : lookUp table code len bits with
  | none =>
      rw [hfound] at hround
      exact rounds_refuse n hround
  | some found =>
      rw [hfound] at hround
      exact rounds_end n hround

theorem symbolRound_longer (h : Represents arrays table) {code len : ℕ} (bits : List Bool)
    (hmin : table.minLen ≤ len) (hmax : len ≤ table.maxLen) (hcode : ¬ (code : ℤ) ≤ table.limit len) :
    symbolRound arrays (code, len, bits) = ofOption ((ReadBits 1 bits).map fun read =>
      .inl (2 * code + read.1, len + 1, read.2)) := by
  rw [symbolRound, h.maxLen, if_neg hmax.not_gt, readAt_of_getElem? (h.limit len hmin hmax),
    ok_bind, if_neg hcode]
  cases ReadBits 1 bits with
  | none => rfl
  | some read => rfl

/-- The loop over the arrays takes the same steps: induction on the bits that are left. -/
theorem rounds_symbolRound (h : Represents arrays table) (bits : List Bool) (code len : ℕ)
    (hmin : table.minLen ≤ len) :
    rounds (symbolRound arrays) (bits.length + 1) (code, len, bits) =
      ofOption (symbolLoop table code len bits) := by
  induction bits generalizing code len with
  | nil =>
      rw [symbolLoop]
      split_ifs with hover hcode
      · exact rounds_refuse 0 (by rw [symbolRound, h.maxLen, if_pos hover])
      · exact rounds_found h 0 [] hmin (not_lt.mp hover) hcode
      · exact rounds_refuse 0 (symbolRound_longer h [] hmin (not_lt.mp hover) hcode)
  | cons bit bits ih =>
      rw [symbolLoop]
      split_ifs with hover hcode
      · exact rounds_refuse _ (by rw [symbolRound, h.maxLen, if_pos hover])
      · exact rounds_found h _ (bit :: bits) hmin (not_lt.mp hover) hcode
      · have hround := symbolRound_longer h (bit :: bits) hmin (not_lt.mp hover) hcode
        rw [readBit_cons] at hround
        rw [List.length_cons, rounds_next _ hround]
        exact ih _ _ (by omega)

theorem bzip2GetSymbol_eq (h : Represents arrays table) (bits : List Bool) :
    bzip2GetSymbol arrays bits = ofOption (Pgp.bzip2GetSymbol table bits) := by
  rw [bzip2GetSymbol, h.minLen, ReadBits, Pgp.bzip2GetSymbol]
  split_ifs
  · exact rounds_symbolRound h _ _ _ le_rfl
  · rfl

end Represents

/-! ### Canonical codes -/

/-- The tables built for a code read every codeword back, whatever comes behind it, and take
nothing but its bits. -/
theorem bzip2GetSymbol_reads_codeword {lengths : List ℕ}
    (hrange : ∀ len ∈ lengths, 1 ≤ len ∧ len ≤ 20) (hkraft : Kraft 20 lengths) {symbol : ℕ}
    (hsymbol : symbol < lengths.length) (following : List Bool) :
    ∃ table, bzip2BuildHuffmanTable lengths lengths.length = .ok table ∧
      bzip2GetSymbol table (codeword lengths symbol ++ following) = .ok (symbol, following) ∧
      (codeword lengths symbol).length = lengths[symbol] := by
  have hlengths : CodeLengths lengths.length lengths :=
    ⟨rfl, fun len hlen => (hrange len hlen).1, hkraft⟩
  obtain ⟨table, hbuilt, hfor⟩ := bzip2BuildHuffmanTable_spec hlengths
  have hne : lengths ≠ [] := List.ne_nil_of_length_pos (Nat.zero_lt_of_lt hsymbol)
  have hmin : 1 ≤ lengths.foldl min 32 := le_foldl_min (by decide) hlengths.pos
  have hmax : lengths.foldl max 0 ≤ 20 := foldl_max_le (by decide) hkraft.1
  refine ⟨huffmanArrays lengths, ?_, ?_, ?_⟩
  · rw [bzip2BuildHuffmanTable_eq hne, if_neg (by omega)]
  · rw [bzip2GetSymbol_eq (huffmanArrays_represents hbuilt),
      bzip2GetSymbol_codeword hfor hlengths hsymbol following]
    rfl
  · rw [codeword, List.getElem?_eq_getElem hsymbol]
    exact Bits.length_toBits _ _

/-- An incomplete code with two lengths left out. -/
theorem bzip2GetSymbol_reads_codeword_gap :
    ∃ table, bzip2BuildHuffmanTable [4, 1, 4] 3 = .ok table ∧
      bzip2GetSymbol table (codeword [4, 1, 4] 2 ++ [true, true]) = .ok (2, [true, true]) ∧
      (codeword [4, 1, 4] 2).length = 4 :=
  bzip2GetSymbol_reads_codeword (by decide) ⟨by decide, by decide⟩ (by decide) _

end HashCryptoLib.Pgp.Bzip2Arrays
