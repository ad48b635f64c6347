import HashCryptoLib.Lib.Search
import HashCryptoLib.Pgp.Packet

/-!
ASCII armor: the 24-bit checksum, radix-64, and the armored block with its
label, header line, data lines and checksum line. Texts are octet strings.
-/

namespace HashCryptoLib.Pgp

open BigEndian Cursor Search

/-- The octets of a string literal of the source. -/
def ascii (s : String) : Bytes := s.toList.map fun c => UInt8.ofNat c.toNat

def CR : UInt8 := 13
def LF : UInt8 := 10
def DASH : UInt8 := 45
def EQUALS : UInt8 := 61

/-! ### Checksum -/

def crc24Bit (crc : UInt32) : UInt32 :=
  let crc := crc <<< 1
  if crc &&& 0x1000000 ≠ 0 then crc ^^^ 0x1864CFB else crc

def crc24Octet (crc : UInt32) (octet : UInt8) : UInt32 :=
  Nat.repeat crc24Bit 8 (crc ^^^ (octet.toUInt32 <<< 16))

def crc24 (data : Bytes) : UInt32 := data.foldl crc24Octet 0xB704CE &&& 0xFFFFFF

/-! ### Radix-64 -/

def alphabet : Bytes := ascii "ABCDEFGHIJKLMNOPQRSTUVWXYZabcdefghijklmnopqrstuvwxyz0123456789+/"

/-- `alphabet[n & 0x3F]`. -/
def base64Digit (n : ℕ) : UInt8 := alphabet.getD (n % 64) 0

def base64Encode : Bytes → Bytes
  | a :: b :: c :: rest =>
    let n := a.toNat * 2 ^ 16 + b.toNat * 2 ^ 8 + c.toNat
    base64Digit (n / 2 ^ 18) :: base64Digit (n / 2 ^ 12) :: base64Digit (n / 2 ^ 6) ::
      base64Digit n :: base64Encode rest
  | [a, b] =>
    let n := a.toNat * 2 ^ 16 + b.toNat * 2 ^ 8
    [base64Digit (n / 2 ^ 18), base64Digit (n / 2 ^ 12), base64Digit (n / 2 ^ 6), EQUALS]
  | [a] =>
    let n := a.toNat * 2 ^ 16
    [base64Digit (n / 2 ^ 18), base64Digit (n / 2 ^ 12), EQUALS, EQUALS]
  | [] => []

/-- `lookup[c]`, with `none` for -1. -/
def base64Value (c : UInt8) : Option ℕ := alphabet.idxOf? c

/-- The octets of a digit string; one digit left over is dropped. -/
def decodeDigits : List ℕ → Bytes
  | d₀ :: d₁ :: d₂ :: d₃ :: rest =>
    let n := d₀ * 2 ^ 18 + d₁ * 2 ^ 12 + d₂ * 2 ^ 6 + d₃
    UInt8.ofNat (n / 2 ^ 16) :: UInt8.ofNat (n / 2 ^ 8) :: UInt8.ofNat n :: decodeDigits rest
  | [d₀, d₁, d₂] =>
    let n := d₀ * 2 ^ 18 + d₁ * 2 ^ 12 + d₂ * 2 ^ 6
    [UInt8.ofNat (n / 2 ^ 16), UInt8.ofNat (n / 2 ^ 8)]
  | [d₀, d₁] => [UInt8.ofNat ((d₀ * 2 ^ 18 + d₁ * 2 ^ 12) / 2 ^ 16)]
  | _ => []

/-- Decoding stops at the first `=` and skips what is not in the alphabet. -/
def base64Decode (text : Bytes) : Bytes :=
  decodeDigits ((text.takeWhile (· ≠ EQUALS)).filterMap base64Value)

/-! ### Armored blocks -/

/-- The data lines, 64 characters each. -/
def armorLines (b64 : Bytes) : Bytes :=
  if b64 = [] then []
  else b64.take 64 ++ [CR, LF] ++ armorLines (b64.drop 64)
termination_by b64.length
decreasing_by
  have := List.length_pos_iff.mpr ‹b64 ≠ []›
  simp only [List.length_drop]
  omega

def crcOctets (data : Bytes) : Bytes := toOctets 3 (crc24 data).toNat

def armorEncode (label data : Bytes) : Bytes :=
  ascii "-----BEGIN " ++ label ++ ascii "-----\r\n" ++
    ascii "Version: HashCryptoLib CPgpEngine\r\n\r\n" ++
    armorLines (base64Encode data) ++
    EQUALS :: base64Encode (crcOctets data) ++ [CR, LF] ++
    ascii "-----END " ++ label ++ ascii "-----\r\n"

/-- The lines of a section: ended by LF, without any CR, the last one only when
it is not empty. -/
def splitLines (current : Bytes) : Bytes → List Bytes
  | [] => if current = [] then [] else [current]
  | c :: cs =>
    if c = LF then current :: splitLines [] cs
    else if c ≠ CR then splitLines (current ++ [c]) cs
    else splitLines current cs

/-- `dataB64` and `crcB64` after one more line. -/
def collectLine (acc : Bytes × Bytes) (line : Bytes) : Bytes × Bytes :=
  match line with
  | [] => acc
  | c :: cs => if c = EQUALS ∧ acc.2 = [] then (acc.1, cs) else (acc.1 ++ line, acc.2)

/-- Where the blank line behind the headers ends. -/
def blankLineEnd (text : Bytes) (start : ℕ) : Option ℕ :=
  match findFrom [CR, LF, CR, LF] text start, findFrom [LF, LF] text start with
  | some blankCrLf, none => some (blankCrLf + 4)
  | some blankCrLf, some blankLf =>
    if blankCrLf ≤ blankLf then some (blankCrLf + 4) else some (blankLf + 2)
  | none, some blankLf => some (blankLf + 2)
  | none, none => none

/-- Whether a checksum line is absent, undecodable or right. -/
def checksumMatches (crcB64 data : Bytes) : Bool :=
  crcB64 = [] ||
    (let crcBytes := base64Decode crcB64
     crcBytes.length ≠ 3 || (crc24 data).toNat = ofOctets crcBytes)

/-- The label and the payload of the first armored block of a text. -/
def armorDecode (text : Bytes) : Option (Bytes × Bytes) :=
  match findFrom (ascii "-----BEGIN ") text 0 with
  | none => none
  | some beginPos =>
    let labelStart := beginPos + 11
    match findFrom (ascii "-----") text labelStart with
    | none => none
    | some labelEnd =>
      let blockType := (text.drop labelStart).take (labelEnd - labelStart)
      match blankLineEnd text (labelEnd + 5) with
      | none => none
      | some dataStart =>
        match findFrom (ascii "-----END " ++ blockType ++ ascii "-----") text dataStart with
        | none => none
        | some endPos =>
          let lines := splitLines [] ((text.drop dataStart).take (endPos - dataStart))
          let collected := lines.foldl collectLine ([], [])
          let data := base64Decode collected.1
          if checksumMatches collected.2 data then some (blockType, data) else none

/-! ### Radix-64 round trip -/

theorem base64Digit_facts : ∀ n : Fin 64, base64Value (base64Digit n) = some n.1 ∧
    base64Digit n ∉ [EQUALS, DASH, CR, LF] := by
  decide

theorem base64Value_base64Digit (n : ℕ) : base64Value (base64Digit n) = some (n % 64) := by
  have h := (base64Digit_facts ⟨n % 64, Nat.mod_lt n (by norm_num)⟩).1
  simpa [base64Digit] using h

theorem base64Digit_not_mem (n : ℕ) : base64Digit n ∉ [EQUALS, DASH, CR, LF] := by
  have h := (base64Digit_facts ⟨n % 64, Nat.mod_lt n (by norm_num)⟩).2
  simpa [base64Digit] using h

theorem crc24_lt (data : Bytes) : (crc24 data).toNat < 2 ^ 24 := by
  rw [crc24, UInt32.toNat_and]
  exact lt_of_le_of_lt Nat.and_le_right (by decide)

/-- The digits a text holds up to its first `=`. -/
def digitsOf (text : Bytes) : List ℕ := (text.takeWhile (· ≠ EQUALS)).filterMap base64Value

theorem digitsOf_cons_digit (n : ℕ) (text : Bytes) :
    digitsOf (base64Digit n :: text) = n % 64 :: digitsOf text := by
  have hne : base64Digit n ≠ EQUALS := fun h => base64Digit_not_mem n (by simp [h])
  simp [digitsOf, hne, base64Value_base64Digit]

/-- Four digits of a 24-bit number put together again. -/
theorem recombine_digits {n : ℕ} (h : n < 2 ^ 24) :
    n / 2 ^ 18 % 64 * 2 ^ 18 + n / 2 ^ 12 % 64 * 2 ^ 12 + n / 2 ^ 6 % 64 * 2 ^ 6 + n % 64 = n := by
  omega

theorem ofNat_eq_of_mod {n : ℕ} {c : UInt8} (h : n % 256 = c.toNat) : UInt8.ofNat n = c := by
  apply UInt8.toNat_inj.mp
  rw [UInt8.toNat_ofNat']
  exact h

theorem base64Decode_base64Encode (data : Bytes) : base64Decode (base64Encode data) = data := by
  change decodeDigits (digitsOf (base64Encode data)) = data
  fun_induction base64Encode data with
  | case1 a b c rest n ih =>
      have ha := a.toNat_lt
      have hb := b.toNat_lt
      have hc := c.toNat_lt
      have hn : n < 2 ^ 24 := by simp only [n]; omega
      simp only [digitsOf_cons_digit, decodeDigits, ih, recombine_digits hn]
      rw [ofNat_eq_of_mod (c := a) (by simp only [n]; omega),
        ofNat_eq_of_mod (c := b) (by simp only [n]; omega),
        ofNat_eq_of_mod (c := c) (by simp only [n]; omega)]
  | case2 a b n =>
      have ha := a.toNat_lt
      have hb := b.toNat_lt
      have hpad : digitsOf [EQUALS] = [] := rfl
      simp only [digitsOf_cons_digit, hpad, decodeDigits]
      rw [ofNat_eq_of_mod (c := a) (by simp only [n]; omega),
        ofNat_eq_of_mod (c := b) (by simp only [n]; omega)]
  | case3 a n =>
      have ha := a.toNat_lt
      have hpad : digitsOf [EQUALS, EQUALS] = [] := rfl
      simp only [digitsOf_cons_digit, hpad, decodeDigits]
      rw [ofNat_eq_of_mod (c := a) (by simp only [n]; omega)]
  | case4 => rfl

/-- Four digits for three octets. -/
theorem length_base64Encode (data : Bytes) :
    (base64Encode data).length = 4 * ((data.length + 2) / 3) := by
  fun_induction base64Encode data with
  | case1 a b c rest n ih =>
      simp only [List.length_cons, ih]
      omega
  | case2 a b => simp
  | case3 a => simp
  | case4 => rfl

/-! ### Armor round trip -/

theorem mem_base64Encode {data : Bytes} {c : UInt8} (h : c ∈ base64Encode data) :
    c ≠ DASH ∧ c ≠ CR ∧ c ≠ LF := by
  have hdigit : ∀ n, base64Digit n ≠ DASH ∧ base64Digit n ≠ CR ∧ base64Digit n ≠ LF := by
    intro n
    have hn := base64Digit_not_mem n
    simp only [List.mem_cons, not_or] at hn
    exact ⟨hn.2.1, hn.2.2.1, hn.2.2.2.1⟩
  have hpad : EQUALS ≠ DASH ∧ EQUALS ≠ CR ∧ EQUALS ≠ LF := by decide
  fun_induction base64Encode data with
  | case1 a b c' rest n ih =>
      simp only [List.mem_cons] at h
      rcases h with rfl | rfl | rfl | rfl | h
      · exact hdigit _
      · exact hdigit _
      · exact hdigit _
      · exact hdigit _
      · exact ih h
  | case2 a b n =>
      simp only [List.mem_cons, List.not_mem_nil, or_false] at h
      rcases h with rfl | rfl | rfl | rfl
      · exact hdigit _
      · exact hdigit _
      · exact hdigit _
      · exact hpad
  | case3 a n =>
      simp only [List.mem_cons, List.not_mem_nil, or_false] at h
      rcases h with rfl | rfl | rfl | rfl
      · exact hdigit _
      · exact hdigit _
      · exact hpad
      · exact hpad
  | case4 => cases h

/-- Padding never opens a group of four, so no data line starts with it. -/
theorem base64Encode_quad (data : Bytes) (k : ℕ) :
    (base64Encode data)[4 * k]? ≠ some EQUALS := by
  have hdigit : ∀ n, base64Digit n ≠ EQUALS := by
    intro n h
    exact base64Digit_not_mem n (by simp [h])
  induction data using base64Encode.induct generalizing k with
  | case1 a b c rest ih =>
      rw [base64Encode]
      cases k with
      | zero => simpa using hdigit _
      | succ k =>
          rw [Nat.mul_add, Nat.mul_one]
          simpa using ih k
  | case2 a b =>
      rw [base64Encode]
      cases k with
      | zero => simpa using hdigit _
      | succ k => simp [Nat.mul_add]
  | case3 a =>
      rw [base64Encode]
      cases k with
      | zero => simpa using hdigit _
      | succ k => simp [Nat.mul_add]
  | case4 => simp [base64Encode]

/-! ### Line ends -/

/-- A line feed behind so many carriage returns. -/
def lineEnd (returns : ℕ) : Bytes := List.replicate returns CR ++ [LF]

/-- The data lines under other line ends. -/
def textLines (returns : ℕ) (b64 : Bytes) : Bytes :=
  if b64 = [] then []
  else b64.take 64 ++ lineEnd returns ++ textLines returns (b64.drop 64)
termination_by b64.length
decreasing_by
  have := List.length_pos_iff.mpr ‹b64 ≠ []›
  simp only [List.length_drop]
  omega

/-- The headers: one line, and the blank line. -/
def headerText (returns : ℕ) : Bytes :=
  lineEnd returns ++ ascii "Version: HashCryptoLib CPgpEngine" ++ lineEnd returns ++ lineEnd returns

/-- What stands between the blank line and the END line. -/
def armorSection (returns : ℕ) (data : Bytes) : Bytes :=
  textLines returns (base64Encode data) ++
    (EQUALS :: base64Encode (crcOctets data) ++ lineEnd returns)

/-- An armored block under other line ends. -/
def armorText (returns : ℕ) (label data : Bytes) : Bytes :=
  ascii "-----BEGIN " ++ label ++ ascii "-----" ++ headerText returns ++ armorSection returns data ++
    (ascii "-----END " ++ label ++ ascii "-----") ++ lineEnd returns

theorem armorLines_eq (b64 : Bytes) : armorLines b64 = textLines 1 b64 := by
  fun_induction armorLines b64 with
  | case1 => rw [textLines, if_pos rfl]
  | case2 b64 hne ih => rw [textLines, if_neg hne, ih]; rfl

/-- The source writes CRLF. -/
theorem armorEncode_eq (label data : Bytes) : armorEncode label data = armorText 1 label data := by
  have hbreak : ascii "-----\r\n" = ascii "-----" ++ lineEnd 1 := rfl
  have hheader : lineEnd 1 ++ ascii "Version: HashCryptoLib CPgpEngine\r\n\r\n" = headerText 1 := rfl
  have hend : lineEnd 1 = [CR, LF] := rfl
  simp only [armorEncode, armorText, armorSection, armorLines_eq, hbreak, ← hheader, hend,
    List.append_assoc, List.cons_append, List.nil_append]

/-- A line without line ends is one line, however many returns come before its line feed. -/
theorem splitLines_line {line : Bytes} (hline : ∀ c ∈ line, c ≠ CR ∧ c ≠ LF) (returns : ℕ)
    (current rest : Bytes) :
    splitLines current (line ++ (lineEnd returns ++ rest)) =
      (current ++ line) :: splitLines [] rest := by
  induction line generalizing current with
  | nil =>
      rw [lineEnd, List.nil_append, List.append_nil]
      induction returns with
      | zero => rw [List.replicate_zero, List.nil_append, List.singleton_append, splitLines, if_pos rfl]
      | succ returns ih =>
          rw [List.replicate_succ, List.cons_append, List.cons_append, splitLines,
            if_neg (by decide), if_neg (not_not.mpr rfl)]
          exact ih
  | cons c cs ih =>
      obtain ⟨hcr, hlf⟩ := hline c List.mem_cons_self
      rw [List.cons_append, splitLines, if_neg hlf, if_pos hcr,
        ih (fun d hd => hline d (List.mem_cons_of_mem _ hd))]
      simp

/-- Collecting the data lines gives back the encoded data. -/
theorem collect_textLines {b64 : Bytes} (hquad : ∀ k, b64[4 * k]? ≠ some EQUALS)
    (hclean : ∀ c ∈ b64, c ≠ CR ∧ c ≠ LF) (returns : ℕ) (acc : Bytes × Bytes) (tail : Bytes) :
    (splitLines [] (textLines returns b64 ++ tail)).foldl collectLine acc =
      (splitLines [] tail).foldl collectLine (acc.1 ++ b64, acc.2) := by
  fun_induction textLines returns b64 generalizing acc with
  | case1 => simp
  | case2 b64 hne ih =>
      have hhead : b64[0]? ≠ some EQUALS := hquad 0
      have hline : ∀ c ∈ b64.take 64, c ≠ CR ∧ c ≠ LF :=
        fun c hc => hclean c (List.mem_of_mem_take hc)
      have hcollect : collectLine acc (b64.take 64) = (acc.1 ++ b64.take 64, acc.2) := by
        cases b64 with
        | nil => exact absurd rfl hne
        | cons c cs =>
            have hc : c ≠ EQUALS := by simpa using hhead
            simp [collectLine, hc]
      have hrest := ih (fun k => by
        rw [List.getElem?_drop]
        simpa [Nat.mul_add] using hquad (16 + k))
        (fun c hc => hclean c (List.mem_of_mem_drop hc)) (acc.1 ++ b64.take 64, acc.2)
      rw [List.append_assoc, List.append_assoc, splitLines_line hline, List.nil_append,
        List.foldl_cons, hcollect, hrest, List.append_assoc, List.take_append_drop]

theorem checksumMatches_self (data : Bytes) :
    checksumMatches (base64Encode (crcOctets data)) data = true := by
  have hlt : (crc24 data).toNat < 256 ^ 3 := (crc24_lt data).trans_le (by norm_num)
  simp only [checksumMatches, base64Decode_base64Encode, crcOctets, length_toOctets,
    ofOctets_toOctets_of_lt hlt]
  simp

theorem dash_not_mem_lineEnd (returns : ℕ) : DASH ∉ lineEnd returns := by
  have hends : DASH ≠ CR ∧ DASH ≠ LF := by decide
  simp [lineEnd, hends]

theorem dash_not_mem_textLines {b64 : Bytes} (h : DASH ∉ b64) (returns : ℕ) :
    DASH ∉ textLines returns b64 := by
  have hend := dash_not_mem_lineEnd returns
  fun_induction textLines returns b64 with
  | case1 => simp
  | case2 b64 hne ih =>
      have htake : DASH ∉ b64.take 64 := fun hmem => h (List.mem_of_mem_take hmem)
      have hdrop := ih fun hmem => h (List.mem_of_mem_drop hmem)
      simp [htake, hdrop, hend]

theorem dash_not_mem_armorSection (returns : ℕ) (data : Bytes) :
    DASH ∉ armorSection returns data := by
  have hb64 (octets : Bytes) : DASH ∉ base64Encode octets := fun h => (mem_base64Encode h).1 rfl
  have hdata := dash_not_mem_textLines (hb64 data) returns
  have hcrc := hb64 (crcOctets data)
  have hend := dash_not_mem_lineEnd returns
  have hequals : DASH ≠ EQUALS := by decide
  simp [armorSection, hdata, hcrc, hend, hequals]

/-- The lines of a section collect into the encoded data and its checksum. -/
theorem collect_armorSection (returns : ℕ) (data : Bytes) :
    (splitLines [] (armorSection returns data)).foldl collectLine ([], []) =
      (base64Encode data, base64Encode (crcOctets data)) := by
  have hclean : ∀ octets, ∀ c ∈ base64Encode octets, c ≠ CR ∧ c ≠ LF :=
    fun octets c hc => (mem_base64Encode hc).2
  have hcrc : ∀ c ∈ EQUALS :: base64Encode (crcOctets data), c ≠ CR ∧ c ≠ LF := by
    intro c hc
    rcases List.mem_cons.mp hc with rfl | hc
    · decide
    · exact hclean _ c hc
  have hline := splitLines_line hcrc returns [] []
  rw [List.append_nil] at hline
  rw [armorSection, collect_textLines (base64Encode_quad data) (hclean data), hline]
  simp [splitLines, collectLine]

/-- The blank line is found under line feeds alone and under CRLF. -/
theorem blankLineEnd_headerText {returns : ℕ} (hreturns : returns ≤ 1) {text rest : Bytes} {pos : ℕ}
    (h : text.drop pos = headerText returns ++ rest) :
    blankLineEnd text pos = some (pos + (headerText returns).length) := by
  rcases Nat.le_one_iff_eq_zero_or_eq_one.mp hreturns with rfl | rfl
  · have hfirst : findFrom [LF, LF] text pos = some (pos + 34) := by
      rw [findFrom_of_drop h]
      rfl
    cases hother : findFrom [CR, LF, CR, LF] text pos with
    | none => simp only [blankLineEnd, hfirst, hother]; rfl
    | some blankCrLf =>
        -- there is no carriage return in these headers
        rw [findFrom_of_drop h, find_append_of_head_not_mem (by decide), Option.map_map,
          Option.map_eq_some_iff] at hother
        obtain ⟨i, hi, rfl⟩ := hother
        have hlength : (headerText 0).length = 36 := rfl
        simp only [blankLineEnd, hfirst, findFrom_of_drop h,
          find_append_of_head_not_mem (show CR ∉ headerText 0 by decide), hi, Option.map_some]
        rw [if_neg (by omega)]
        rfl
  · have hfirst : findFrom [CR, LF, CR, LF] text pos = some (pos + 35) := by
      rw [findFrom_of_drop h]
      rfl
    cases hother : findFrom [LF, LF] text pos with
    | none => simp only [blankLineEnd, hfirst, hother]; rfl
    | some blankLf =>
        rw [findFrom_of_drop h, Option.map_eq_some_iff] at hother
        obtain ⟨i, hi, rfl⟩ := hother
        have hle : 35 ≤ i := le_of_find_append (by decide) (by decide) hi
        simp only [blankLineEnd, hfirst, findFrom_of_drop h, hi, Option.map_some]
        rw [if_pos (by omega)]
        rfl

/-- An armored block decodes to its label and its payload, whatever text
follows it. -/
theorem armorDecode_armorText {returns : ℕ} (hreturns : returns ≤ 1) {label : Bytes}
    (hlabel : DASH ∉ label) (data after : Bytes) :
    armorDecode (armorText returns label data ++ after) = some (label, data) := by
  have htext : At (armorText returns label data ++ after) 0
      (ascii "-----BEGIN " ++ (label ++ (ascii "-----" ++ (headerText returns ++
        (armorSection returns data ++ ((ascii "-----END " ++ label ++ ascii "-----") ++
          (lineEnd returns ++ after))))))) := by
    have hwhole := at_zero (armorText returns label data ++ after)
    simpa only [armorText, List.append_assoc] using hwhole
  generalize armorText returns label data ++ after = text at htext ⊢
  have hbegin : findFrom (ascii "-----BEGIN ") text 0 = some 0 := by
    rw [findFrom_of_drop htext.drop_eq, find_append_self, Option.map_some]
  have hlabelAt : At text 11 _ := htext.advance
  have hdashesAt := hlabelAt.advance
  have hlabelEnd : findFrom (ascii "-----") text 11 = some (11 + label.length) := by
    rw [findFrom_of_drop hlabelAt.drop_eq,
      show ascii "-----" = DASH :: ascii "----" from rfl, find_append_of_head_not_mem hlabel,
      find_append_self, Option.map_some, Option.map_some, Nat.add_zero]
  have hheaderAt : At text (11 + label.length + 5) _ := hdashesAt.advance
  have hblockType : (text.drop 11).take (11 + label.length - 11) = label := by
    rw [Nat.add_sub_cancel_left, hlabelAt.take_eq]
  generalize 11 + label.length = labelEnd at *
  have hsectionAt := hheaderAt.advance
  have hblank := blankLineEnd_headerText hreturns hheaderAt.drop_eq
  generalize labelEnd + 5 + (headerText returns).length = dataStart at *
  have hend : findFrom (ascii "-----END " ++ label ++ ascii "-----") text dataStart =
      some (dataStart + (armorSection returns data).length) := by
    have hmarker : ascii "-----END " ++ label ++ ascii "-----" =
      DASH :: (ascii "----END " ++ label ++ ascii "-----") := rfl
    rw [findFrom_of_drop hsectionAt.drop_eq, hmarker,
      find_append_of_head_not_mem (dash_not_mem_armorSection returns data), find_append_self,
      Option.map_some, Option.map_some, Nat.add_zero (armorSection returns data).length]
  simp only [armorDecode, hbegin, Nat.zero_add, hlabelEnd, hblockType, hblank, hend,
    Nat.add_sub_cancel_left, hsectionAt.take_eq, collect_armorSection, base64Decode_base64Encode,
    checksumMatches_self, if_true]

theorem armorDecode_armorEncode {label : Bytes} (hlabel : DASH ∉ label) (data after : Bytes) :
    armorDecode (armorEncode label data ++ after) = some (label, data) := by
  rw [armorEncode_eq, armorDecode_armorText le_rfl hlabel]

end HashCryptoLib.Pgp
