import HashCryptoLib.Pgp.Bzip2Confinement
import HashCryptoLib.Pgp.Bzip2ReadingAgreement

/-!
The bzip2 decoder over its arrays computes what the one over lists does, from the octets of a
block to those of a stream. The sort leaves the positions that the inverse transform follows, a
run is counted as the octets behind it say, and the rounds that the other decoder counts are never
used up.
-/

namespace HashCryptoLib.Pgp.Bzip2Arrays

open CheckedArray

/-! ### The inverse transform -/

section Transform

variable {blockOut : Bytes} {origPtr : ℕ}

/-- The positions below `i` are written, each where the sort puts it. -/
theorem fillNextIndex_eq (blockOut : Bytes) :
    fillNextIndex blockOut (cursorAt blockOut 0) = .ok (bwtNextIndex blockOut) := by
  have hkeys : (List.range 256).Pairwise (· < ·) := List.pairwise_lt_range
  have hall : ∀ octet ∈ blockOut.map UInt8.toNat, octet ∈ List.range 256 := by
    intro octet hoctet
    obtain ⟨b, -, rfl⟩ := List.mem_map.mp hoctet
    exact List.mem_range.mpr b.toNat_lt
  -- each position is written once, behind all smaller octets and the same ones in front of it
  have hat : ∀ i (hi : i < blockOut.length), (bwtNextIndex blockOut)[
      (blockOut.map UInt8.toNat).countP (· < blockOut[i].toNat) +
        ((blockOut.take i).map UInt8.toNat).count blockOut[i].toNat]? = some i := by
    intro i hi
    rw [bwtNextIndex_eq, List.map_take]
    apply Buckets.getElem?_buckets hkeys hall
    rw [List.getElem?_map, List.getElem?_eq_getElem hi]
    rfl
  have hperm := (sortedPositions_bwtNextIndex blockOut).1
  have hlength : (bwtNextIndex blockOut).length = blockOut.length := by
    rw [hperm.length_eq, List.length_range, List.length_map]
  have hlt : ∀ i ∈ bwtNextIndex blockOut, i < blockOut.length := by
    intro i hi
    have hmem := List.mem_range.mp (hperm.mem_iff.mp hi)
    rwa [List.length_map] at hmem
  have hnodup : (bwtNextIndex blockOut).Nodup := hperm.nodup_iff.mpr List.nodup_range
  have hstart : ((bwtNextIndex blockOut).map fun p => if p < 0 then p else 0) =
      List.replicate blockOut.length 0 := by
    refine List.eq_replicate_iff.mpr ⟨by rw [List.length_map, hlength], fun x hx => ?_⟩
    obtain ⟨p, -, rfl⟩ := List.mem_map.mp hx
    exact if_neg (Nat.not_lt_zero p)
  have hend : ((bwtNextIndex blockOut).map fun p => if p < blockOut.length then p else 0) =
      bwtNextIndex blockOut :=
    (List.map_congr_left fun p hp => if_pos (hlt p hp)).trans (List.map_id _)
  rw [fillNextIndex, ← hstart, upFrom_eq _ 0 blockOut.length
    (fun i => ((bwtNextIndex blockOut).map fun p => if p < i then p else 0, cursorAt blockOut i))
    ?pass, ok_bind, Nat.zero_add, hend]
  · rfl
  case pass =>
    intro i _ hi
    rw [Nat.zero_add] at hi
    dsimp only
    rw [readAt_of_getElem? (List.getElem?_eq_getElem hi), ok_bind,
      readAt_cursorAt i (UInt8.toNat_lt _), ok_bind,
      writeAt_map hnodup (hat i hi) (g := fun p => if p < i + 1 then p else 0), ok_bind, ok_bind,
      writeAt_cursorAt hi, ok_bind]
    · rfl
    · exact if_pos (Nat.lt_succ_self i)
    · intro p _ hp
      by_cases h : p < i
      · rw [if_pos h, if_pos (by omega)]
      · rw [if_neg h, if_neg (by omega)]

theorem length_followBwt (nextIndex : List ℕ) (n t : ℕ) :
    (Pgp.followBwt blockOut nextIndex n t).length = n := by
  induction n generalizing t with
  | zero => rfl
  | succ n ih => rw [Pgp.followBwt, List.length_cons, ih]

/-- The position after `n` steps. -/
def bwtPosition (nextIndex : List ℕ) (t n : ℕ) : ℕ := (fun t => nextIndex.getD t 0)^[n] t

theorem followBwt_succ (nextIndex : List ℕ) (n t : ℕ) :
    Pgp.followBwt blockOut nextIndex (n + 1) t =
      Pgp.followBwt blockOut nextIndex n t ++ [blockOut.getD (bwtPosition nextIndex t n) 0] := by
  induction n generalizing t with
  | zero => rfl
  | succ n ih =>
      rw [Pgp.followBwt, ih, Pgp.followBwt, List.cons_append]
      rfl

theorem followBwt_eq {nextIndex : List ℕ}
    (hnext : Holding blockOut.length (· < blockOut.length) nextIndex)
    (horig : origPtr < blockOut.length) :
    followBwt blockOut nextIndex origPtr =
      .ok (Pgp.followBwt blockOut nextIndex blockOut.length (nextIndex.getD origPtr 0)) := by
  have hread {t : ℕ} (ht : t < blockOut.length) :
      readAt nextIndex t = .ok (nextIndex.getD t 0) ∧ nextIndex.getD t 0 < blockOut.length := by
    have hget := List.getElem?_eq_getElem (hnext.length.symm ▸ ht)
    rw [List.getD_eq_getElem?_getD, hget]
    exact ⟨readAt_of_getElem? hget, hnext.all _ (List.getElem_mem _)⟩
  obtain ⟨horigin, hstart⟩ := hread horig
  generalize nextIndex.getD origPtr 0 = t at horigin hstart ⊢
  have hposition (k : ℕ) : bwtPosition nextIndex t k < blockOut.length := by
    induction k with
    | zero => exact hstart
    | succ k ih =>
        rw [bwtPosition, Function.iterate_succ_apply']
        exact (hread ih).2
  have hfirst : (List.replicate blockOut.length 0, t) =
      (filled blockOut.length 0 (Pgp.followBwt blockOut nextIndex 0 t),
        bwtPosition nextIndex t 0) := rfl
  rw [followBwt, horigin, ok_bind, hfirst, upFrom_eq _ 0 blockOut.length
    (fun k => (filled blockOut.length 0 (Pgp.followBwt blockOut nextIndex k t),
      bwtPosition nextIndex t k)) ?pass, ok_bind, Nat.zero_add, filled_full (length_followBwt _ _ _)]
  · rfl
  case pass =>
    intro k _ hk
    have hget := List.getElem?_eq_getElem (hposition k)
    have hoctet : readAt blockOut (bwtPosition nextIndex t k) =
        .ok (blockOut.getD (bwtPosition nextIndex t k) 0) := by
      rw [List.getD_eq_getElem?_getD, hget]
      exact readAt_of_getElem? hget
    have hwrite := @writeAt_filled UInt8 blockOut.length (Pgp.followBwt blockOut nextIndex k t) 0
      (by rw [length_followBwt]; omega) (blockOut.getD (bwtPosition nextIndex t k) 0)
    rw [length_followBwt, ← followBwt_succ] at hwrite
    dsimp only
    rw [hoctet, ok_bind, hwrite, ok_bind, (hread (hposition k)).1, ok_bind, bwtPosition,
      bwtPosition, Function.iterate_succ_apply']
    rfl

theorem invertBwt_eq (horig : origPtr < blockOut.length) :
    invertBwt blockOut origPtr =
      .ok (Pgp.followBwt blockOut (bwtNextIndex blockOut) blockOut.length
        ((bwtNextIndex blockOut).getD origPtr 0)) := by
  have hfill := fillNextIndex_eq blockOut
  have hnext := (fillNextIndex_meets (Nat.zero_lt_of_lt horig)).of_ok hfill
  rw [invertBwt_cursor, hfill, ok_bind, followBwt_eq hnext horig]

end Transform

/-! ### The first run-length pass -/

section Rle1

variable {bwtOutput : Bytes}

/-- A run is as long as the octets behind its first one say. -/
theorem runRound_counts {i : ℕ} {b : UInt8} {rest : Bytes} (hdrop : bwtOutput.drop i = b :: rest) :
    rounds (runRound bwtOutput i b) 4 1 =
      .ok (1 + ((rest.take 3).takeWhile (· = b)).length) := by
  have hlength := congrArg List.length hdrop
  rw [List.length_drop, List.length_cons] at hlength
  have hcounted : Meets False (fun runCount =>
      runCount = 1 + ((rest.take 3).takeWhile (· = b)).length)
      (rounds (runRound bwtOutput i b) 4 1) := by
    refine meets_rounds (fun runCount => 0 < runCount ∧ runCount ≤ 4 ∧
        runCount + (((rest.drop (runCount - 1)).take (4 - runCount)).takeWhile (· = b)).length =
          1 + ((rest.take 3).takeWhile (· = b)).length)
      (fun runCount => 4 - runCount) (fun runCount hcount => ?_)
      ⟨Nat.one_pos, by decide, rfl⟩ (by decide)
    obtain ⟨hpos, hfour, hcount⟩ := hcount
    obtain ⟨c, rfl⟩ := Nat.exists_eq_add_of_le' hpos
    rw [Nat.add_sub_cancel] at hcount
    rw [runRound]
    by_cases hmore : c + 1 < 4 ∧ i + (c + 1) < bwtOutput.length
    · have hc : c < rest.length := by omega
      have hget : bwtOutput[i + (c + 1)]? = some rest[c] := by
        rw [← List.getElem?_drop, hdrop, List.getElem?_cons_succ, List.getElem?_eq_getElem hc]
      rw [if_pos hmore, readAt_of_getElem? hget, ok_bind]
      rw [List.drop_eq_getElem_cons hc, show 4 - (c + 1) = 4 - (c + 2) + 1 by omega,
        List.take_succ_cons] at hcount
      split_ifs with hequal
      · rw [List.takeWhile_cons_of_pos (by simpa using hequal), List.length_cons] at hcount
        refine .returns ⟨⟨Nat.succ_pos _, hmore.1, ?_⟩, by omega⟩
        rw [← hcount]
        show c + 1 + 1 + _ = _
        rw [Nat.add_sub_cancel, Nat.add_assoc (c + 1), Nat.add_comm 1]
      · rw [List.takeWhile_cons_of_neg (by simpa using hequal), List.length_nil] at hcount
        exact .returns hcount
    · have hnone : (rest.drop c).take (4 - (c + 1)) = [] := by
        by_cases hlast : c + 1 < 4
        · rw [List.drop_eq_nil_of_le (by omega), List.take_nil]
        · rw [show 4 - (c + 1) = 0 by omega, List.take_zero]
      rw [if_neg hmore]
      rw [hnone] at hcount
      exact .returns hcount
  obtain ⟨runCount, hrun, rfl⟩ := hcounted.exists_ok
  exact hrun

theorem rle1Round_agrees {i : ℕ} {rle1Output : Bytes} {result : Option Bytes}
    (h : (Pgp.undoRle1 (bwtOutput.drop i)).map (rle1Output ++ ·) = result) :
    Meets (result = none) (Sum.elim
      (fun s' => (Pgp.undoRle1 (bwtOutput.drop s'.1)).map (s'.2 ++ ·) = result ∧
        bwtOutput.length - s'.1 < bwtOutput.length - i)
      (result = some ·)) (rle1Round bwtOutput (i, rle1Output)) := by
  rw [rle1Round]
  by_cases hi : i < bwtOutput.length
  · have hdrop := List.drop_eq_getElem_cons hi
    rw [if_pos hi, readAt_of_getElem? (List.getElem?_eq_getElem hi), ok_bind,
      runRound_counts hdrop, ok_bind]
    obtain ⟨more, hmore⟩ : ∃ more,
        (((bwtOutput.drop (i + 1)).take 3).takeWhile (· = bwtOutput[i])).length = more := ⟨_, rfl⟩
    rw [hdrop, undoRle1_cons _ _ more hmore, List.drop_drop] at h
    rw [hmore]
    dsimp only
    cases hrest : bwtOutput.drop (i + 1 + more) with
    | nil =>
        have hshort := List.drop_eq_nil_iff.mp hrest
        rw [hrest] at h
        dsimp only at h
        -- four equal octets at the end of the data: the count is missing
        by_cases hfour : more = 3
        · rw [if_pos hfour] at h
          rw [if_pos (by omega), if_pos (by omega)]
          exact .refuses h.symm
        · rw [if_neg hfour] at h
          rw [if_neg (by omega)]
          refine .returns ⟨?_, by dsimp only; omega⟩
          dsimp only
          rw [← Nat.add_assoc, hrest, ← h, Pgp.undoRle1]
          exact congrArg some (List.append_nil _)
    | cons extra rest =>
        have hlong : i + 1 + more < bwtOutput.length := by
          by_contra hshort
          rw [List.drop_eq_nil_of_le (not_lt.mp hshort)] at hrest
          cases hrest
        rw [hrest] at h
        dsimp only at h
        -- an octet follows: behind four equal ones it is the count
        by_cases hfour : more = 3
        · subst hfour
          have hget : bwtOutput[i + (1 + 3)]? = some extra := by
            rw [← Nat.add_assoc, ← Nat.add_zero (i + 1 + 3), ← List.getElem?_drop, hrest]
            rfl
          have htail : bwtOutput.drop (i + (1 + 3) + 1) = rest := by
            rw [← Nat.add_assoc, ← List.drop_drop, hrest]
            rfl
          rw [if_pos rfl] at h
          rw [if_pos rfl, if_neg (by omega), readAt_of_getElem? hget, ok_bind]
          refine .returns ⟨?_, by dsimp only; omega⟩
          dsimp only
          rw [htail, ← h, Option.map_map]
          congr 1
          funext octets
          dsimp only [Function.comp_apply]
          rw [List.replicate_add 4, List.append_assoc, List.append_assoc, List.append_assoc]
        · rw [if_neg hfour] at h
          rw [if_neg (by omega)]
          refine .returns ⟨?_, by dsimp only; omega⟩
          dsimp only
          rw [← Nat.add_assoc, hrest, ← h, Option.map_map]
          congr 1
          funext octets
          exact List.append_assoc _ _ _
  · rw [if_neg hi]
    rw [List.drop_eq_nil_of_le (not_lt.mp hi), Pgp.undoRle1, Option.map_some,
      List.append_nil] at h
    exact .returns h.symm

theorem undoRle1_eq (bwtOutput : Bytes) :
    undoRle1 bwtOutput = ofOption (Pgp.undoRle1 bwtOutput) := by
  apply Meets.eq_ofOption
  generalize hresult : Pgp.undoRle1 bwtOutput = result
  refine meets_rounds (fun s => (Pgp.undoRle1 (bwtOutput.drop s.1)).map (s.2 ++ ·) = result)
    (fun s => bwtOutput.length - s.1) (fun s hs => rle1Round_agrees hs) ?_ (by dsimp only; omega)
  rw [List.drop_zero, hresult]
  exact Option.map_id'

end Rle1

/-! ### Blocks and streams -/

section Blocks

variable {blockSize100k : ℕ} {bits : List Bool}

theorem bzip2BlockCoded_agrees {result : Option (Bytes × List Bool)} (hlevel : blockSize100k ≤ 9)
    (h : Pgp.bzip2DecodeBlock blockSize100k bits = result) :
    Meets (result = none) (fun coded => (Pgp.undoRle1 coded.1).map (·, coded.2) = result)
      (bzip2BlockCoded blockSize100k bits) := by
  have hmax : maxBlockBytes blockSize100k < 2 ^ 32 := by
    rw [maxBlockBytes]
    omega
  rw [Pgp.bzip2DecodeBlock] at h
  rw [bzip2BlockCoded]
  refine (meets_readBits h).bind fun blockCrc h => ?_
  refine (meets_readBits h).bind fun randomized h => ?_
  dsimp only at h ⊢
  by_cases hrandomized : randomized.1 ≠ 0
  · rw [if_pos hrandomized] at h ⊢
    exact .refuses h.symm
  rw [if_neg hrandomized] at h ⊢
  refine (meets_readBits h).bind fun origPtr h => ?_
  refine (meets_readBits h).bind fun usedGroupsBits h => ?_
  refine (meets_reader rfl h).bind fun symbolMap h => ?_
  by_cases hnone : symbolMap.1 = []
  · rw [if_pos hnone] at h
    rw [if_pos (by rw [hnone]; exact Nat.one_pos)]
    exact .refuses h.symm
  have hinUse := List.length_pos_iff.mpr hnone
  rw [if_neg hnone] at h
  rw [if_neg (by omega)]
  refine (meets_readBits h).bind fun numGroups h => ?_
  by_cases hrange : numGroups.1 < 2 ∨ numGroups.1 > 6
  · rw [if_pos hrange] at h ⊢
    exact .refuses h.symm
  rw [if_neg hrange] at h ⊢
  refine (meets_readBits h).bind fun numSelectors h => ?_
  by_cases hempty : numSelectors.1 = 0
  · rw [if_pos hempty] at h ⊢
    exact .refuses h.symm
  rw [if_neg hempty] at h ⊢
  have hgroups : 0 < numGroups.1 := by omega
  -- the selectors are the list's, and each names a table
  refine ((meets_reader (readSelectors_eq hgroups _ _) h).and
    (readSelectors_meets hgroups _ _)).bind fun selectors hselectors => ?_
  obtain ⟨h, hselectors, -⟩ := hselectors
  -- the tables are not the list's, but stand for them
  have htables := (@readTables_agrees (symbolMap.1.length + 2) (Nat.succ_pos _)
    numGroups.1 selectors.2).and (readTables_meets (Nat.succ_pos _) _ _)
  refine (htables.weaken fun hfails => ?_).bind fun arrays harrays => ?_
  · rw [reader_fails hfails] at h
    exact h.symm
  obtain ⟨⟨tables, hread, hrep⟩, hbuilt, -⟩ := harrays
  rw [reader_bind hread] at h
  refine (meets_reader (symbolStream_eq hinUse hmax hbuilt hrep hselectors _) h).bind
    fun blockOut h => ?_
  by_cases horigin : origPtr.1 ≥ blockOut.1.length
  · rw [if_pos horigin] at h ⊢
    exact .refuses h.symm
  rw [if_neg horigin] at h ⊢
  rw [invertBwt_eq (not_le.mp horigin), ok_bind]
  refine .returns ?_
  rw [← h]
  dsimp only
  cases Pgp.undoRle1 (Pgp.followBwt blockOut.1 (bwtNextIndex blockOut.1) blockOut.1.length
    ((bwtNextIndex blockOut.1).getD origPtr.1 0)) with
  | none => rfl
  | some data => rfl

theorem bzip2DecodeBlock_eq (hlevel : blockSize100k ≤ 9) (bits : List Bool) :
    bzip2DecodeBlock blockSize100k bits = ofOption (Pgp.bzip2DecodeBlock blockSize100k bits) := by
  apply Meets.eq_ofOption
  generalize hresult : Pgp.bzip2DecodeBlock blockSize100k bits = result
  rw [bzip2DecodeBlock]
  refine (bzip2BlockCoded_agrees hlevel hresult).bind fun coded h => ?_
  dsimp only
  rw [undoRle1_eq]
  cases hdata : Pgp.undoRle1 coded.1 with
  | none =>
      rw [hdata] at h
      exact .refuses h.symm
  | some data =>
      rw [hdata] at h
      exact .returns h.symm

/-- So the arrays decode every block, however it was written. -/
theorem bzip2DecodeBlock_decodes (block : Bzip2Block blockSize100k) (hlevel : blockSize100k ≤ 9)
    (rest : List Bool) :
    bzip2DecodeBlock blockSize100k (block.bits ++ rest) = .ok (block.data, rest) := by
  rw [bzip2DecodeBlock_eq hlevel,
    block.decode_of_fits (block.coded_le.trans (Nat.le_add_right _ _)) rest]
  rfl

theorem blockRound_agrees {output : Bytes} {left : ℕ} {result : Option Bytes}
    (hlevel : blockSize100k ≤ 9)
    (h : (bzip2Blocks blockSize100k (left + 1) bits).map (fun read => output ++ read.1) = result) :
    Meets (result = none) (Sum.elim
      (fun s' => s'.2.length + 48 ≤ bits.length ∧
        (bzip2Blocks blockSize100k left s'.2).map (fun read => s'.1 ++ read.1) = result)
      (result = some ·)) (blockRound blockSize100k (output, bits)) := by
  rw [bzip2Blocks] at h
  rw [blockRound]
  cases hmagic : ReadBits 48 bits with
  | none =>
      rw [reader_fails hmagic] at h
      exact .refuses h.symm
  | some read =>
      obtain ⟨magic, rest⟩ := read
      have hbits := length_of_readBits hmagic
      rw [reader_bind hmagic] at h
      rw [ofOption_some, ok_bind]
      dsimp only at h hbits ⊢
      by_cases heos : magic = 0x177245385090
      · rw [if_pos heos] at h ⊢
        refine .returns ?_
        rw [Sum.elim_inr, ← h]
        exact congrArg some (List.append_nil output)
      rw [if_neg heos] at h ⊢
      by_cases hblock : magic ≠ 0x314159265359
      · rw [if_pos hblock] at h ⊢
        exact .refuses h.symm
      rw [if_neg hblock] at h ⊢
      have hmeets := bzip2DecodeBlock_meets hlevel rest
      rw [bzip2DecodeBlock_eq hlevel] at hmeets ⊢
      cases hdecoded : Pgp.bzip2DecodeBlock blockSize100k rest with
      | none =>
          rw [reader_fails hdecoded] at h
          exact .refuses h.symm
      | some decoded =>
          obtain ⟨blockOut, behind⟩ := decoded
          rw [hdecoded] at hmeets
          have hbehind : behind.length ≤ rest.length := hmeets.of_ok rfl
          rw [reader_bind hdecoded] at h
          rw [ofOption_some, ok_bind]
          refine .returns ⟨by dsimp only; omega, ?_⟩
          dsimp only at h ⊢
          rw [← h]
          cases hothers : bzip2Blocks blockSize100k left behind with
          | none =>
              rw [reader_fails hothers]
              rfl
          | some others =>
              rw [reader_bind hothers, Option.map_some, List.append_assoc]
              rfl

theorem bzip2DecompressBuffer_announced (input : Bytes) :
    Pgp.bzip2DecompressBuffer input = (announced input).bind fun level =>
      (bzip2Blocks level (input.length - 4 + 1) (streamBits input)).map Prod.fst := by
  match input with
  | [] => rfl
  | [_] => rfl
  | [_, _] => rfl
  | [_, _, _] => rfl
  | b :: z :: h :: level :: rest =>
      rw [Pgp.bzip2DecompressBuffer, announced]
      split_ifs
      · rfl
      · rfl

theorem length_streamBits (input : Bytes) : (streamBits input).length = 8 * (input.length - 4) := by
  rw [streamBits, ← List.length_drop]
  induction input.drop 4 with
  | nil => rfl
  | cons octet octets ih =>
      rw [List.flatMap_cons, List.length_append, ih, List.length_cons]
      show 8 + _ = _
      omega

/-- The decoder over its arrays computes what the one over lists does, for every input. -/
theorem bzip2DecompressBuffer_agrees (input : Bytes) :
    bzip2DecompressBuffer input = ofOption (Pgp.bzip2DecompressBuffer input) := by
  rw [bzip2DecompressBuffer_eq, bzip2DecompressBuffer_announced]
  cases hlevel : announced input with
  | none => rfl
  | some level =>
      have hle := announced_le hlevel
      apply Meets.eq_ofOption
      rw [Option.bind_some]
      generalize hresult : (bzip2Blocks level (input.length - 4 + 1) (streamBits input)).map
        Prod.fst = result
      -- every round takes more than one of the octets that the other decoder counts
      refine meets_rounds (fun s => ∃ left, s.2.length < 8 * left ∧
          (bzip2Blocks level left s.2).map (fun read => s.1 ++ read.1) = result) (·.2.length)
        (fun s hs => ?_) ⟨input.length - 4 + 1, ?_, hresult⟩ (Nat.lt_succ_self _)
      · obtain ⟨output, bits⟩ := s
        obtain ⟨left, hleft, h⟩ := hs
        dsimp only at hleft h
        obtain ⟨left, rfl⟩ : ∃ k, left = k + 1 := ⟨left - 1, by omega⟩
        refine (blockRound_agrees hle h).mono fun next hnext => ?_
        cases next with
        | inl s' =>
            have hlength := hnext.1
            exact ⟨⟨left, by omega, hnext.2⟩, by dsimp only; omega⟩
        | inr data => exact hnext
      · rw [length_streamBits]
        omega

end Blocks

end HashCryptoLib.Pgp.Bzip2Arrays
