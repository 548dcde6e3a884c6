/-
# Base64 (`src/lib/utils.c`)

Serialized descriptors are passed between processes as strings: three bytes become four characters,
and `=` fills up the last four.

Conventions:

* a string is the list of its bytes before the zero that ends it, and `malloc` succeeds;
* the counters `i` and `j` are of type `int`;
* the outer `none` stands for undefined behaviour, i.e. a counter that overflows or a byte outside
  the string that is read, and the inner one for `NULL`.
-/
import Mathlib

namespace Base64

/-! ## Encoding -/

/-- `encoding_table` -/
def encodingTable : List ℕ :=
  List.range' 65 26 ++ List.range' 97 26 ++ List.range' 48 10 ++ [43, 47]

/-- The characters that a round of the loop writes. -/
def quartet (octetA octetB octetC : UInt8) : List UInt8 :=
  let triple := octetA.toNat * 2 ^ 16 + octetB.toNat * 2 ^ 8 + octetC.toNat
  [triple / 2 ^ 18, triple / 2 ^ 12, triple / 2 ^ 6, triple].map fun bits =>
    UInt8.ofNat (encodingTable.getD (bits % 64) 0)

/-- The loop of `dragon_base64_encode`, over the bytes from `i` on.  What is left of the last triple
is zero. -/
def encodeLoop (j : ℕ) : List UInt8 → Option (List UInt8)
  | [] => some []
  | [a] => if j + 4 < 2 ^ 31 then some (quartet a 0 0) else none
  | [a, b] => if j + 4 < 2 ^ 31 then some (quartet a b 0) else none
  | a :: b :: c :: data =>
    if j + 4 < 2 ^ 31 then (encodeLoop (j + 4) data).map (quartet a b c ++ ·) else none

/-- The loop that writes `=` over the last `n` characters. -/
def padLoop (encoded : List UInt8) : ℕ → List UInt8
  | 0 => encoded
  | i + 1 => (padLoop encoded i).set (encoded.length - 1 - i) 61

/-- `dragon_base64_encode` -/
def dragonBase64Encode (data : List UInt8) : Option (List UInt8) :=
  (encodeLoop 0 data).map fun encoded => padLoop encoded ([0, 2, 1].getD (data.length % 3) 0)

/-! ## Decoding -/

/-- `strip_newlines`: the new length, where the old one is given. -/
def stripNewlines (s : List UInt8) : ℕ → Option ℕ
  -- the index is `SIZE_MAX`
  | 0 => none
  | idx + 1 => if s.getD idx 0 = 10 then stripNewlines s idx else some (idx + 1)

/-- `decoding_table` -/
def decodingTable (c : UInt8) : ℕ :=
  if 65 ≤ c ∧ c ≤ 90 then c.toNat - 65 else if 97 ≤ c ∧ c ≤ 122 then c.toNat - 71
  else if 48 ≤ c ∧ c ≤ 57 then c.toNat + 4 else if c = 43 then 62 else if c = 47 then 63 else 0

def sextet (c : UInt8) : ℕ := if c = 61 then 0 else decodingTable c

/-- `if (j < *output_length) decoded_data[j++] = …` -/
def putByte (outputLength : ℕ) (decoded : List UInt8) (byte : ℕ) : List UInt8 :=
  if decoded.length < outputLength then decoded ++ [UInt8.ofNat (byte % 256)] else decoded

/-- The loop of `dragon_base64_decode`, over the characters from `i` on, whose number is a multiple
of four. -/
def decodeLoop (outputLength i : ℕ) (decoded : List UInt8) : List UInt8 → Option (List UInt8)
  | a :: b :: c :: d :: data =>
    if i + 4 < 2 ^ 31 then
      let triple := sextet a * 2 ^ 18 + sextet b * 2 ^ 12 + sextet c * 2 ^ 6 + sextet d
      let decoded := [triple / 2 ^ 16, triple / 2 ^ 8, triple].foldl (putByte outputLength) decoded
      decodeLoop outputLength (i + 4) decoded data
    else none
  | _ => some decoded

/-- How many of the last two characters before a length are `=`. -/
def padding (s : List UInt8) (inputLength : ℕ) : ℕ :=
  (if s.getD (inputLength - 1) 0 = 61 then 1 else 0)
    + if s.getD (inputLength - 2) 0 = 61 then 1 else 0

/-- `dragon_base64_decode`: the bytes and `output_length`. -/
def dragonBase64Decode (s : List UInt8) : Option (Option (List UInt8 × ℕ)) :=
  -- `strlen`
  let s := s.takeWhile (· ≠ 0)
  (stripNewlines s s.length).bind fun inputLength =>
    if inputLength % 4 ≠ 0 then some none
    else
      let outputLength := inputLength / 4 * 3 - padding s inputLength
      (decodeLoop outputLength 0 [] (s.take inputLength)).map fun decoded =>
        some (decoded, outputLength)

/-! ## The encoded string -/

/-- The string that the bytes are encoded to. -/
def encoded : List UInt8 → List UInt8
  | [] => []
  | [a] => (quartet a 0 0).take 2 ++ [61, 61]
  | [a, b] => (quartet a b 0).take 3 ++ [61]
  | a :: b :: c :: data => quartet a b c ++ encoded data

theorem length_encoded (data : List UInt8) :
    (encoded data).length = 4 * ((data.length + 2) / 3) := by
  induction data using encoded.induct with
  | case1 => rfl
  | case2 =>
    show 4 = 4 * ((0 + 1 + 2) / 3)
    rfl
  | case3 =>
    show 4 = 4 * ((0 + 1 + 1 + 2) / 3)
    rfl
  | case4 a b c data ih =>
    rw [encoded, List.length_append, ih]
    show 4 + 4 * ((data.length + 2) / 3) = 4 * ((data.length + 1 + 1 + 1 + 2) / 3)
    omega

theorem length_padLoop (s : List UInt8) (n : ℕ) : (padLoop s n).length = s.length := by
  induction n with
  | zero => rfl
  | succ n ih => exact List.length_set.trans ih

/-- What is before the padding stays. -/
theorem padLoop_append (s t : List UInt8) (n : ℕ) (hn : n ≤ t.length) :
    padLoop (s ++ t) n = s ++ padLoop t n := by
  induction n with
  | zero => rfl
  | succ n ih =>
    rw [padLoop, padLoop, ih (Nat.le_of_succ_le hn), List.length_append,
      List.set_append_right _ _ (by omega)]
    congr 2
    omega

/-- **The encoding**: it is defined iff the counter does not overflow. -/
theorem encodeLoop_eq (data : List UInt8) (j : ℕ) (hj : j < 2 ^ 31) :
    (encodeLoop j data).map (padLoop · ([0, 2, 1].getD (data.length % 3) 0))
      = if j + (encoded data).length < 2 ^ 31 then some (encoded data) else none := by
  induction data using encoded.induct generalizing j with
  | case1 => exact (if_pos hj).symm
  | case2 => exact apply_ite (Option.map _) (j + 4 < 2 ^ 31) _ _
  | case3 => exact apply_ite (Option.map _) (j + 4 < 2 ^ 31) _ _
  | case4 a b c data ih =>
    have hmod : (a :: b :: c :: data).length % 3 = data.length % 3 := Nat.add_mod_right _ 3
    have hlen : (encoded (a :: b :: c :: data)).length = 4 + (encoded data).length :=
      List.length_append
    rw [hmod, hlen, encodeLoop, encoded, ← Nat.add_assoc]
    by_cases hj' : j + 4 < 2 ^ 31
    · have hih := ih (j + 4) hj'
      rw [if_pos hj']
      cases hloop : encodeLoop (j + 4) data with
      | none =>
        rw [hloop] at hih
        rw [if_neg]
        · rfl
        · intro hlt
          rw [if_pos hlt] at hih
          cases hih
      | some s =>
        rw [hloop, Option.map_some] at hih
        by_cases hlt : j + 4 + (encoded data).length < 2 ^ 31
        · rw [if_pos hlt] at hih ⊢
          have hs := Option.some.inj hih
          -- the padding is within the rest
          have hpad : [0, 2, 1].getD (data.length % 3) 0 ≤ s.length := by
            rw [← length_padLoop s ([0, 2, 1].getD (data.length % 3) 0), hs, length_encoded]
            have htwo : ∀ r < 3, [0, 2, 1].getD r 0 ≤ 2 * r := by decide
            have := htwo _ (Nat.mod_lt data.length (by decide))
            omega
          exact congrArg some ((padLoop_append _ s _ hpad).trans (congrArg _ hs))
        · rw [if_neg hlt] at hih
          cases hih
    · rw [if_neg hj', if_neg (by omega)]
      rfl

/-! ## The round trip -/

theorem encodingTable_spec : ∀ bits < 64,
    sextet (UInt8.ofNat (encodingTable.getD bits 0)) = bits ∧
      UInt8.ofNat (encodingTable.getD bits 0) ∉ [(0 : UInt8), 10, 61] := by
  decide +kernel

/-- The characters of a string: none is a zero or a newline. -/
theorem not_mem_encoded (data : List UInt8) : ∀ c ∈ encoded data, c ∉ [(0 : UInt8), 10] := by
  have hquartet : ∀ a b c : UInt8, ∀ d ∈ quartet a b c, d ∉ [(0 : UInt8), 10, 61] := by
    intro a b c d hd
    obtain ⟨bits, -, rfl⟩ := List.mem_map.mp hd
    exact (encodingTable_spec _ (Nat.mod_lt _ (by decide))).2
  have hsub : ∀ d : UInt8, d ∉ [(0 : UInt8), 10, 61] → d ∉ [(0 : UInt8), 10] := by
    intro d hd hmem
    exact hd (List.mem_append_left [61] hmem)
  have hend : ∀ d ∈ [(61 : UInt8), 61], d ∉ [(0 : UInt8), 10] := by simp
  induction data using encoded.induct with
  | case1 => nofun
  | case2 a =>
    intro d hd
    rcases List.mem_append.mp hd with hd | hd
    · exact hsub d (hquartet a 0 0 d (List.mem_of_mem_take hd))
    · exact hend d hd
  | case3 a b =>
    intro d hd
    rcases List.mem_append.mp hd with hd | hd
    · exact hsub d (hquartet a b 0 d (List.mem_of_mem_take hd))
    · exact hend d (List.mem_cons_of_mem _ hd)
  | case4 a b c _ ih =>
    intro d hd
    rcases List.mem_append.mp hd with hd | hd
    · exact hsub d (hquartet a b c d hd)
    · exact ih d hd

theorem padding_append (s t : List UInt8) (ht : 2 ≤ t.length) :
    padding (s ++ t) (s ++ t).length = padding t t.length := by
  unfold padding
  rw [List.length_append, List.getD_append_right _ _ _ _ (by omega),
    List.getD_append_right _ _ _ _ (by omega)]
  congr 4
  · omega
  · omega

/-- The correction of the length. -/
theorem padding_encoded (data : List UInt8) (hne : data ≠ []) :
    data.length + padding (encoded data) (encoded data).length
      = (encoded data).length / 4 * 3 := by
  -- a character of the table is not `=`
  have hnot : ∀ bits, UInt8.ofNat (encodingTable.getD (bits % 64) 0) ≠ 61 := by
    intro bits heq
    exact (encodingTable_spec _ (Nat.mod_lt bits (by decide))).2 (by rw [heq]; decide)
  induction data using encoded.induct with
  | case1 => exact absurd rfl hne
  | case2 =>
    rw [encoded, padding_append _ _ le_rfl]
    show 0 + 1 + padding [61, 61] 2 = 4 / 4 * 3
    decide
  | case3 =>
    rw [encoded, quartet, List.map_cons, List.map_cons, List.map_cons, List.take_succ_cons,
      List.take_succ_cons, List.take_succ_cons]
    show 0 + 1 + 1 + (1 + if UInt8.ofNat _ = 61 then 1 else 0) = 4 / 4 * 3
    rw [if_neg (hnot _)]
  | case4 a b c data ih =>
    rw [encoded]
    by_cases hnil : data = []
    · subst hnil
      show 0 + 1 + 1 + 1 + ((if UInt8.ofNat _ = 61 then 1 else 0)
        + if UInt8.ofNat _ = 61 then 1 else 0) = 4 / 4 * 3
      rw [if_neg (hnot _), if_neg (hnot _)]
    · have hlen := length_encoded data
      have hpos := List.length_pos_of_ne_nil hnil
      have hih := ih hnil
      rw [padding_append _ _ (by omega), List.length_append]
      show data.length + 1 + 1 + 1 + _ = (4 + _) / 4 * 3
      omega

/-- A character, put back into the sextet that it was made from. -/
theorem sextet_encodingTable (bits : ℕ) :
    sextet (UInt8.ofNat (encodingTable.getD (bits % 64) 0)) = bits % 64 :=
  (encodingTable_spec _ (Nat.mod_lt bits (by decide))).1

/-- The bytes are written as long as there is room. -/
theorem foldl_putByte (outputLength : ℕ) (bytes : List ℕ) (decoded : List UInt8) :
    bytes.foldl (putByte outputLength) decoded
      = decoded ++ (bytes.map fun byte => UInt8.ofNat (byte % 256)).take
          (outputLength - decoded.length) := by
  induction bytes generalizing decoded with
  | nil => simp
  | cons byte bytes ih =>
    rw [List.foldl_cons, ih, putByte, List.map_cons]
    by_cases hlt : decoded.length < outputLength
    · rw [if_pos hlt, List.length_append, List.length_singleton, List.append_assoc,
        show outputLength - decoded.length = outputLength - (decoded.length + 1) + 1 by omega]
      rfl
    · rw [if_neg hlt, Nat.sub_eq_zero_of_le (Nat.not_lt.mp hlt)]
      rfl

theorem decodeLoop_cons {outputLength i : ℕ} {decoded : List UInt8} {w x y z : UInt8}
    (a b c : UInt8) (data : List UInt8) (hi : i + 4 < 2 ^ 31)
    (htriple : sextet w * 2 ^ 18 + sextet x * 2 ^ 12 + sextet y * 2 ^ 6 + sextet z
      = a.toNat * 2 ^ 16 + b.toNat * 2 ^ 8 + c.toNat) :
    decodeLoop outputLength i decoded (w :: x :: y :: z :: data)
      = decodeLoop outputLength (i + 4)
          (decoded ++ [a, b, c].take (outputLength - decoded.length)) data := by
  have hb := b.toNat_lt
  have hc := c.toNat_lt
  have hbytes : ∀ (byte : ℕ) (d : UInt8), byte % 256 = d.toNat → UInt8.ofNat (byte % 256) = d :=
    fun byte d h => h ▸ UInt8.ofNat_toNat
  rw [decodeLoop, if_pos hi, htriple]
  simp only [foldl_putByte, List.map_cons, List.map_nil]
  rw [hbytes _ a, hbytes _ b, hbytes _ c]
  all_goals
    have ha := a.toNat_lt
    omega

/-- **The decoding** of what the bytes are encoded to; by induction on the triples. -/
theorem decodeLoop_encoded (data decoded : List UInt8) (i outputLength : ℕ)
    (hi : i + (encoded data).length < 2 ^ 31)
    (hlen : outputLength = decoded.length + data.length) :
    decodeLoop outputLength i decoded (encoded data) = some (decoded ++ data) := by
  have heq : sextet 61 = 0 := rfl
  subst hlen
  induction data using encoded.induct generalizing i decoded with
  | case1 =>
    rw [List.append_nil]
    rfl
  | case2 a =>
    have ha := a.toNat_lt
    refine (decodeLoop_cons a 0 0 [] hi ?_).trans ?_
    · rw [sextet_encodingTable, sextet_encodingTable, heq]
      simp only [UInt8.toNat_zero]
      omega
    · rw [Nat.add_sub_cancel_left]
      rfl
  | case3 a b =>
    have ha := a.toNat_lt
    have hb := b.toNat_lt
    refine (decodeLoop_cons a b 0 [] hi ?_).trans ?_
    · rw [sextet_encodingTable, sextet_encodingTable, sextet_encodingTable, heq]
      simp only [UInt8.toNat_zero]
      omega
    · rw [Nat.add_sub_cancel_left]
      rfl
  | case4 a b c data ih =>
    have ha := a.toNat_lt
    have hb := b.toNat_lt
    have hc := c.toNat_lt
    have hlen : (encoded (a :: b :: c :: data)).length = 4 + (encoded data).length :=
      List.length_append
    rw [hlen] at hi
    refine (decodeLoop_cons a b c (encoded data) (by omega) ?_).trans ?_
    · rw [sextet_encodingTable, sextet_encodingTable, sextet_encodingTable, sextet_encodingTable]
      omega
    · rw [Nat.add_sub_cancel_left]
      have hih := ih (decoded ++ [a, b, c]) (i + 4) (by omega)
      rw [List.length_append, List.append_assoc, Nat.add_assoc, Nat.add_comm _ data.length] at hih
      have htake : [a, b, c].take (a :: b :: c :: data).length = [a, b, c] :=
        List.take_of_length_le (Nat.le_add_left 3 data.length)
      rw [htake]
      exact hih

theorem stripNewlines_encoded (data : List UInt8) (hne : data ≠ []) :
    stripNewlines (encoded data) (encoded data).length = some (encoded data).length := by
  have hlen := length_encoded data
  have hpos := List.length_pos_of_ne_nil hne
  obtain ⟨idx, hidx⟩ := Nat.exists_eq_succ_of_ne_zero (show (encoded data).length ≠ 0 by omega)
  have hmem : (encoded data).getD idx 0 ∈ encoded data := by
    rw [List.getD_eq_getElem _ _ (by omega)]
    exact List.getElem_mem _
  rw [hidx]
  refine if_neg fun hnewline => not_mem_encoded data _ hmem ?_
  rw [hnewline]
  exact List.mem_cons_of_mem _ List.mem_cons_self

/-- **The round trip.**  Bytes fewer than `2^31` are encoded and decoded to themselves, with their
number as the length and nothing undefined, iff there is a byte and the number of characters is an
`int`. -/
theorem dragonBase64_roundTrip_iff (data : List UInt8) (hlen : data.length < 2 ^ 31) :
    (dragonBase64Encode data).bind dragonBase64Decode = some (some (data, data.length)) ↔
      data ≠ [] ∧ 4 * ((data.length + 2) / 3) < 2 ^ 31 := by
  unfold dragonBase64Encode
  rw [encodeLoop_eq data 0 (by decide), Nat.zero_add, ← length_encoded]
  by_cases hlt : (encoded data).length < 2 ^ 31
  · rw [if_pos hlt, and_iff_left hlt]
    by_cases hne : data = []
    · subst hne
      exact iff_of_false nofun fun hnot => hnot rfl
    · have hstring : (encoded data).takeWhile (· ≠ 0) = encoded data := by
        rw [List.takeWhile_eq_self_iff]
        intro c hc
        have hc' := not_mem_encoded data c hc
        simp only [List.mem_cons, not_or] at hc'
        simp [hc'.1]
      have hpad := padding_encoded data hne
      have hmod : (encoded data).length % 4 = 0 := by
        rw [length_encoded]
        exact Nat.mul_mod_right 4 _
      refine iff_of_true ?_ hne
      rw [Option.bind_some]
      unfold dragonBase64Decode
      simp only [hstring, stripNewlines_encoded data hne, Option.bind_some, hmod]
      rw [if_neg (by simp), List.take_length, ← hpad, Nat.add_sub_cancel,
        decodeLoop_encoded data [] 0 data.length (by omega) (Nat.zero_add _).symm]
      rfl
  · rw [if_neg hlt]
    exact iff_of_false nofun fun hcond => hlt hcond.2

/-- A byte and a newline. -/
theorem dragonBase64_roundTrip_iff_two :
    (dragonBase64Encode [255, 10]).bind dragonBase64Decode = some (some ([255, 10], 2)) :=
  (dragonBase64_roundTrip_iff [255, 10] (by decide)).mpr ⟨nofun, by decide⟩

/-- **No bytes** are encoded to the empty string, of which the byte before the first is read. -/
theorem dragonBase64_empty :
    dragonBase64Encode [] = some [] ∧ dragonBase64Decode [] = none := by
  decide

end Base64
