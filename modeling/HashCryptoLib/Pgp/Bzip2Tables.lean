import HashCryptoLib.Lib.Buckets
import HashCryptoLib.Pgp.Bzip2Format

/-!
Reading what a block announces: the octets in use, the selectors and the code
lengths. Each reader takes off the bits of its part and gives back what an encoder
had.
-/

namespace HashCryptoLib.Pgp

open Bits CanonicalCode

/-! ### Bits -/

theorem reader_bind {α β : Type} {reader : Bzip2BitReader α} {f : α → Bzip2BitReader β} {a : α}
    {bits rest : List Bool} (h : reader bits = some (a, rest)) : (reader >>= f) bits = f a rest := by
  show (reader bits).bind (fun result => f result.1 result.2) = f a rest
  rw [h]
  rfl

theorem readBits_append (bits rest : List Bool) :
    ReadBits bits.length (bits ++ rest) = some (ofBits bits, rest) := by
  rw [ReadBits, if_pos (by rw [List.length_append]; exact Nat.le_add_right _ _), List.take_left,
    List.drop_left]
  rfl

theorem readBits_toBits {n value : ℕ} (h : value < 2 ^ n) (rest : List Bool) :
    ReadBits n (toBits n value ++ rest) = some (value, rest) := by
  have hread := readBits_append (toBits n value) rest
  rwa [length_toBits, ofBits_toBits h] at hread

/-! ### The octets in use -/

section SymbolMap

variable (used : UInt8 → Bool)

def groupOctets (group : ℕ) : Bytes :=
  ((List.range 16).map fun k => UInt8.ofNat (group * 16 + k)).filter used

theorem symbolMap_eq : symbolMap used = (List.range 16).flatMap (groupOctets used) := by
  have hrange : List.range 256 = (List.range 16).flatMap fun group =>
      (List.range 16).map fun k => group * 16 + k := by
    decide +kernel
  rw [symbolMap, hrange, List.map_flatMap, List.filter_flatMap]
  apply congrArg List.flatten
  apply List.map_congr_left
  intro group _
  rw [List.map_map]
  rfl

theorem groupOctets_unused {group : ℕ} (h : groupUsed used group = false) :
    groupOctets used group = [] := by
  rw [groupOctets, List.filter_eq_nil_iff]
  intro octet hoctet
  obtain ⟨k, hk, rfl⟩ := List.mem_map.mp hoctet
  rw [groupUsed, List.any_eq_false] at h
  exact h _ (List.mem_map_of_mem hk)

/-- A map that was read picks the octets of its group. -/
theorem filter_groupBits (group : ℕ) :
    (((List.range 16).filter fun k => (ofBits (groupBits used group)).testBit (15 - k)).map fun k =>
      UInt8.ofNat (group * 16 + k)) = groupOctets used group := by
  rw [groupOctets, List.filter_map]
  apply congrArg (List.map _)
  apply List.filter_congr
  intro k hk
  exact testBit_ofBits_range _ (List.mem_range.mp hk)

/-- The maps of the last groups: induction on how many are left. -/
theorem readSymbolMap_bits {left : ℕ} (hleft : left ≤ 16) (rest : List Bool) :
    readSymbolMap (ofBits ((List.range 16).map (groupUsed used))) left
        (((List.range' (16 - left) left).flatMap fun group =>
          if groupUsed used group then groupBits used group else []) ++ rest) =
      some ((List.range' (16 - left) left).flatMap (groupOctets used), rest) := by
  induction left with
  | zero => rfl
  | succ left ih =>
      have hbit : (ofBits ((List.range 16).map (groupUsed used))).testBit left =
          groupUsed used (15 - left) := by
        have hrange := testBit_ofBits_range (groupUsed used) (show 15 - left < 16 by omega)
        rwa [show 16 - 1 - (15 - left) = left by omega] at hrange
      have hrange : List.range' (16 - (left + 1)) (left + 1) =
          (15 - left) :: List.range' (16 - left) left := by
        rw [List.range'_succ, show 16 - (left + 1) = 15 - left by omega,
          show 15 - left + 1 = 16 - left by omega]
      rw [hrange, List.flatMap_cons, List.flatMap_cons, readSymbolMap, List.append_assoc]
      dsimp only
      rw [hbit]
      cases hused : groupUsed used (15 - left) with
      | false =>
          rw [groupOctets_unused used hused]
          simp only [Bool.false_eq_true, if_false, List.nil_append]
          show (readSymbolMap _ left >>= fun others => pure ([] ++ others)) _ = _
          rw [reader_bind (ih (by omega))]
          rfl
      | true =>
          have hread := readBits_append (groupBits used (15 - left))
            (((List.range' (16 - left) left).flatMap fun group =>
              if groupUsed used group then groupBits used group else []) ++ rest)
          rw [groupBits, List.length_map, List.length_range, ← groupBits] at hread
          simp only [if_true]
          rw [reader_bind hread, filter_groupBits]
          show (readSymbolMap _ left >>= fun others => pure (_ ++ others)) _ = _
          rw [reader_bind (ih (by omega))]
          rfl

theorem readSymbolMap_symbolMapBits (rest : List Bool) :
    ∃ usedGroupsBits maps, ReadBits 16 (symbolMapBits used ++ rest) = some (usedGroupsBits, maps) ∧
      readSymbolMap usedGroupsBits 16 maps = some (symbolMap used, rest) := by
  have hgroups := readBits_append ((List.range 16).map (groupUsed used))
    (((List.range 16).flatMap fun group =>
      if groupUsed used group then groupBits used group else []) ++ rest)
  rw [List.length_map, List.length_range] at hgroups
  have hmaps := readSymbolMap_bits used (le_refl 16) rest
  rw [Nat.sub_self, ← List.range_eq_range'] at hmaps
  rw [symbolMapBits, List.append_assoc, symbolMap_eq]
  exact ⟨_, _, hgroups, hmaps⟩

end SymbolMap

/-! ### Ranks and selectors -/

section Ranks

variable {α : Type} {front entries : List α} {ranks : List ℕ}

theorem moveToFront_eq {rank : ℕ} {x : α} (h : front[rank]? = some x) :
    moveToFront front rank = some (x, x :: front.eraseIdx rank) := by
  rw [moveToFront, h]
  rfl

theorem length_moved {rank : ℕ} {x : α} (h : front[rank]? = some x) :
    (x :: front.eraseIdx rank).length = front.length := by
  have hlt := (List.getElem?_eq_some_iff.mp h).1
  rw [List.length_cons, List.length_eraseIdx_of_lt hlt]
  omega

theorem Ranks.mem_front (h : Ranks front ranks entries) : ∀ x ∈ entries, x ∈ front := by
  induction h with
  | nil => exact List.forall_mem_nil _
  | cons hget h ih =>
      refine List.forall_mem_cons.mpr ⟨List.mem_of_getElem? hget, fun y hy => ?_⟩
      rcases List.mem_cons.mp (ih y hy) with rfl | hmem
      · exact List.mem_of_getElem? hget
      · exact List.mem_of_mem_eraseIdx hmem

theorem Ranks.length_eq (h : Ranks front ranks entries) : ranks.length = entries.length := by
  induction h with
  | nil => rfl
  | cons hget h ih => rw [List.length_cons, List.length_cons, ih]

end Ranks

theorem readUnary_replicate {numGroups j n : ℕ} (h : j + n < numGroups) (rest : List Bool) :
    readUnary numGroups j (List.replicate n true ++ false :: rest) = some (j + n, rest) := by
  induction n generalizing j with
  | zero => rfl
  | succ n ih =>
      rw [List.replicate_succ, List.cons_append, readUnary, if_neg (by omega), ih (by omega),
        Nat.add_right_comm, Nat.add_assoc]

theorem readSelectors_bits {front selectors ranks : List ℕ} (h : Ranks front ranks selectors)
    (rest : List Bool) :
    readSelectors front.length front selectors.length (selectorBits ranks ++ rest) =
      some (selectors, rest) := by
  induction h with
  | nil => rfl
  | @cons front selectors rank x ranks hget h ih =>
      have hlt := (List.getElem?_eq_some_iff.mp hget).1
      have hunary := readUnary_replicate (j := 0) (n := rank) (by rwa [Nat.zero_add])
        (selectorBits ranks ++ rest)
      have hmoved : (StateT.lift (moveToFront front rank) : Bzip2BitReader _)
          (selectorBits ranks ++ rest) =
            some ((x, x :: front.eraseIdx rank), selectorBits ranks ++ rest) := by
        rw [moveToFront_eq hget]
        rfl
      rw [Nat.zero_add] at hunary
      rw [length_moved hget] at ih
      rw [selectorBits, List.flatMap_cons, ← selectorBits, List.append_assoc, List.append_assoc,
        List.singleton_append, List.length_cons, readSelectors, reader_bind hunary,
        reader_bind hmoved]
      dsimp only
      rw [reader_bind ih]
      rfl

/-! ### Code lengths -/

theorem readLength_bits {len next : ℕ} {bits : List Bool} (h : LengthBits len next bits)
    (rest : List Bool) : readLength len (bits ++ rest) = some (next, rest) := by
  induction h with
  | stay len => rfl
  | @longer len next bits hle h ih =>
      show readLength ((len + 1) % 2 ^ 32) (bits ++ rest) = _
      rw [Nat.mod_eq_of_lt (by omega), ih]
  | @shorter len next bits hpos h ih =>
      show (if len + 1 = 0 then none else readLength len (bits ++ rest)) = _
      rw [if_neg (Nat.succ_ne_zero len), ih]

theorem readLengths_bits {len : ℕ} {lengths : List ℕ} {bits : List Bool}
    (h : LengthsBits len lengths bits) (hlengths : ∀ len ∈ lengths, 1 ≤ len ∧ len ≤ 20)
    (rest : List Bool) : readLengths len lengths.length (bits ++ rest) = some (lengths, rest) := by
  induction h with
  | nil len => rfl
  | @cons len next lengths bits more hlen h ih =>
      obtain ⟨⟨hpos, hle⟩, hrest⟩ := List.forall_mem_cons.mp hlengths
      rw [List.append_assoc, List.length_cons, readLengths,
        reader_bind (readLength_bits hlen (more ++ rest)), if_neg (by omega), reader_bind (ih hrest)]
      rfl

theorem readTables_bits {alphaSize : ℕ} {tables : List (List ℕ)} {bits : List Bool}
    (h : TablesBits tables bits) (hlengths : ∀ lengths ∈ tables, CodeLengths alphaSize lengths)
    {built : List Bzip2HuffmanTable}
    (hbuilt : List.Forall₂ (fun lengths table => bzip2BuildHuffmanTable lengths = some table)
      tables built) (rest : List Bool) :
    readTables alphaSize tables.length (bits ++ rest) = some (built, rest) := by
  induction h generalizing built with
  | nil =>
      cases hbuilt
      rfl
  | @cons start lengths tables bits more hpos hle hbits h ih =>
      obtain ⟨hhere, hothers⟩ := List.forall_mem_cons.mp hlengths
      cases hbuilt with
      | @cons _ table _ built htable hbuilt =>
          have hstart := readBits_toBits (n := 5) (show start < 2 ^ 5 by omega)
            (bits ++ (more ++ rest))
          have hread := readLengths_bits hbits
            (fun len hlen => ⟨hhere.pos len hlen, hhere.kraft.1 len hlen⟩) (more ++ rest)
          have htable' : (StateT.lift (bzip2BuildHuffmanTable lengths) : Bzip2BitReader _)
              (more ++ rest) = some (table, more ++ rest) := by
            rw [htable]
            rfl
          rw [hhere.length] at hread
          rw [List.append_assoc, List.append_assoc, List.length_cons, readTables, reader_bind hstart,
            reader_bind hread, reader_bind htable', reader_bind (ih hothers hbuilt)]
          rfl

/-! ### Huffman tables -/

theorem foldl_min_le (lengths : List ℕ) (start : ℕ) :
    lengths.foldl min start ≤ start ∧ ∀ len ∈ lengths, lengths.foldl min start ≤ len := by
  induction lengths generalizing start with
  | nil => exact ⟨le_refl start, List.forall_mem_nil _⟩
  | cons len lengths ih =>
      obtain ⟨hstart, hlengths⟩ := ih (min start len)
      exact ⟨hstart.trans (min_le_left _ _),
        List.forall_mem_cons.mpr ⟨hstart.trans (min_le_right _ _), hlengths⟩⟩

theorem le_foldl_min {lengths : List ℕ} {start least : ℕ} (hstart : least ≤ start)
    (h : ∀ len ∈ lengths, least ≤ len) : least ≤ lengths.foldl min start := by
  induction lengths generalizing start with
  | nil => exact hstart
  | cons len lengths ih =>
      obtain ⟨hlen, hlengths⟩ := List.forall_mem_cons.mp h
      exact ih (le_min hstart hlen) hlengths

theorem le_foldl_max (lengths : List ℕ) (start : ℕ) :
    start ≤ lengths.foldl max start ∧ ∀ len ∈ lengths, len ≤ lengths.foldl max start := by
  induction lengths generalizing start with
  | nil => exact ⟨le_refl start, List.forall_mem_nil _⟩
  | cons len lengths ih =>
      obtain ⟨hstart, hlengths⟩ := ih (max start len)
      exact ⟨(le_max_left _ _).trans hstart,
        List.forall_mem_cons.mpr ⟨(le_max_right _ _).trans hstart, hlengths⟩⟩

theorem foldl_max_le {lengths : List ℕ} {start most : ℕ} (hstart : start ≤ most)
    (h : ∀ len ∈ lengths, len ≤ most) : lengths.foldl max start ≤ most := by
  induction lengths generalizing start with
  | nil => exact hstart
  | cons len lengths ih =>
      obtain ⟨hlen, hlengths⟩ := List.forall_mem_cons.mp h
      exact ih (max_le hstart hlen) hlengths

/-- What the arrays of a table hold, as numbers of codewords. -/
structure TableFor (lengths : List ℕ) (table : Bzip2HuffmanTable) : Prop where
  minLen_le : ∀ len ∈ lengths, table.minLen ≤ len
  le_maxLen : ∀ len ∈ lengths, len ≤ table.maxLen
  limit : ∀ len, table.minLen ≤ len → table.limit len = codesUpTo lengths len - 1
  base : ∀ len, table.minLen ≤ len →
    table.base len = (firstCode lengths len : ℤ) - lengths.countP (· < len)
  perm : table.perm =
    Buckets.buckets (List.range' table.minLen (table.maxLen + 1 - table.minLen)) lengths

section Build

variable {lengths : List ℕ} {least : ℕ}

theorem countP_lt_least (h : ∀ len ∈ lengths, least ≤ len) : lengths.countP (· < least) = 0 := by
  rw [List.countP_eq_zero]
  intro len hlen
  have hle := h len hlen
  simp [hle]

theorem firstCode_least (h : ∀ len ∈ lengths, least ≤ len) : firstCode lengths least = 0 := by
  rw [firstCode, List.sum_eq_zero]
  intro words hwords
  obtain ⟨len, hlen, rfl⟩ := List.mem_map.mp hwords
  exact if_neg (h len hlen).not_gt

theorem huffmanVec_eq (h : ∀ len ∈ lengths, least ≤ len) (k : ℕ) :
    huffmanVec lengths least k = codesUpTo lengths (least + k) := by
  induction k with
  | zero => rw [huffmanVec, codesOfLength, Nat.add_zero, codesUpTo_eq, firstCode_least h, Nat.zero_add]
  | succ k ih => rw [huffmanVec, codesOfLength, ih, ← Nat.add_assoc, codesUpTo_eq lengths (_ + 1), firstCode_succ]

theorem bzip2BuildHuffmanTable_spec {alphaSize : ℕ} (h : CodeLengths alphaSize lengths) :
    ∃ table, bzip2BuildHuffmanTable lengths = some table ∧ TableFor lengths table := by
  have hleast := (foldl_min_le lengths 32).2
  have hmin : 1 ≤ lengths.foldl min 32 := le_foldl_min (by decide) h.pos
  have hmax : lengths.foldl max 0 ≤ 20 := foldl_max_le (by decide) h.kraft.1
  have hlimit (len : ℕ) (hlen : lengths.foldl min 32 ≤ len) :
      huffmanVec lengths (lengths.foldl min 32) (len - lengths.foldl min 32) =
        codesUpTo lengths len := by
    rw [huffmanVec_eq hleast, Nat.add_sub_cancel' hlen]
  rw [bzip2BuildHuffmanTable]
  dsimp only
  rw [dif_neg (by omega)]
  refine ⟨_, rfl, hleast, (le_foldl_max lengths 0).2, ?_, ?_, rfl⟩
  · intro len hlen
    dsimp only
    rw [hlimit len hlen]
  · intro len hlen
    dsimp only at hlen ⊢
    split_ifs with heq
    · rw [heq, firstCode_least hleast, countP_lt_least hleast]
      rfl
    · have hbelow : lengths.foldl min 32 ≤ len - 1 := by omega
      rw [hlimit (len - 1) hbelow]
      have hfirst := firstCode_succ lengths (len - 1)
      rw [Nat.sub_add_cancel (by omega)] at hfirst
      omega

end Build

section GetSymbol

variable {lengths : List ℕ} {table : Bzip2HuffmanTable} {symbol len : ℕ}

/-- The place of a symbol among the symbols, shorter codewords first. -/
theorem TableFor.perm_getElem? (h : TableFor lengths table) (hget : lengths[symbol]? = some len) :
    table.perm[lengths.countP (· < len) + (lengths.take symbol).count len]? = some symbol := by
  rw [h.perm]
  refine Buckets.getElem?_buckets ?_ (fun m hm => ?_) hget
  · exact List.pairwise_lt_range'
  · have hmin := h.minLen_le m hm
    have hmax := h.le_maxLen m hm
    rw [List.mem_range'_1]
    omega

/-- The loop passes by every shorter length: induction on the bits of the codeword that it has
still to read. -/
theorem symbolLoop_codeword (h : TableFor lengths table) (hget : lengths[symbol]? = some len) (k : ℕ)
    (hk : table.minLen + k ≤ len) (rest : List Bool) :
    symbolLoop table (codeValue lengths symbol len / 2 ^ k) (len - k)
      (toBits k (codeValue lengths symbol len) ++ rest) = some (symbol, rest) := by
  have hmax := h.le_maxLen len (List.mem_of_getElem? hget)
  induction k with
  | zero =>
      have hlt := codeValue_lt hget
      have hlimit := h.limit len hk
      have hbase := h.base len hk
      have hindex : (codeValue lengths symbol len : ℤ) - table.base len =
          (lengths.countP (· < len) + (lengths.take symbol).count len : ℕ) := by
        rw [hbase, codeValue]
        omega
      rw [symbolLoop.eq_def, pow_zero, Nat.div_one, Nat.sub_zero, if_neg (by omega),
        if_pos (by omega)]
      dsimp only
      rw [hindex, if_neg (by omega), Int.toNat_natCast, h.perm_getElem? hget]
      rfl
  | succ k ih =>
      have hlimit := h.limit (len - (k + 1)) (by omega)
      -- the codeword comes behind those that are shorter
      have hbehind : codesUpTo lengths (len - (k + 1)) ≤
          codeValue lengths symbol len / 2 ^ (k + 1) := by
        rw [Nat.le_div_iff_mul_le (Nat.two_pow_pos _), Nat.mul_comm]
        have hle := mul_codesUpTo_le lengths (len - (k + 1)) k
        rw [Nat.sub_add_cancel (by omega)] at hle
        exact hle.trans (Nat.le_add_right _ _)
      have hnext : 2 * (codeValue lengths symbol len / 2 ^ (k + 1)) +
          (codeValue lengths symbol len / 2 ^ k % 2 == 1).toNat =
            codeValue lengths symbol len / 2 ^ k := by
        rw [toNat_low_bit, pow_succ, ← Nat.div_div_eq_div_mul]
        exact Nat.div_add_mod _ 2
      rw [symbolLoop.eq_def, if_neg (by omega), if_neg (by omega), toBits_succ_eq_cons,
        List.cons_append]
      dsimp only
      rw [hnext, show len - (k + 1) + 1 = len - k by omega]
      exact ih (by omega)

/-- A symbol is read back from its codeword. -/
theorem bzip2GetSymbol_codeword (h : TableFor lengths table) {alphaSize : ℕ}
    (hlengths : CodeLengths alphaSize lengths) (hsymbol : symbol < alphaSize) (rest : List Bool) :
    bzip2GetSymbol table (codeword lengths symbol ++ rest) = some (symbol, rest) := by
  rw [← hlengths.length] at hsymbol
  have hget := List.getElem?_eq_getElem hsymbol
  have hmem := List.getElem_mem hsymbol
  have hmin := h.minLen_le _ hmem
  obtain ⟨k, hk⟩ : ∃ k, lengths[symbol] = table.minLen + k :=
    ⟨lengths[symbol] - table.minLen, by omega⟩
  have hbound := hlengths.kraft.1 _ hmem
  rw [hk] at hget hbound
  have hvalue : codeValue lengths symbol (table.minLen + k) / 2 ^ k < 2 ^ table.minLen := by
    rw [Nat.div_lt_iff_lt_mul (Nat.two_pow_pos k), ← pow_add]
    exact (codeValue_lt hget).trans_le (codesUpTo_le hlengths.kraft hbound)
  have hloop := symbolLoop_codeword h hget k le_rfl rest
  rw [Nat.add_sub_cancel] at hloop
  rw [codeword, hget]
  dsimp only
  rw [toBits_add, List.append_assoc, bzip2GetSymbol,
    if_pos (by rw [List.length_append, length_toBits]; exact Nat.le_add_right _ _),
    List.take_left' (length_toBits _ _), List.drop_left' (length_toBits _ _)]
  show symbolLoop table (ofBits _) _ _ = _
  rw [ofBits_toBits hvalue, hloop]

end GetSymbol

end HashCryptoLib.Pgp
