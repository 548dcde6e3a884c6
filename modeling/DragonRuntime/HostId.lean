/-
# Host ids from hexadecimal identifiers (`src/lib/utils.c`)

An identifier is lowered, stripped of all that is not a hexadecimal digit, and its last 16 digits
are converted.  The conversion adds `*dec * 16` to `*dec`, so that the digits are read to base 17,
and it takes the letters for 0 to 5.

Conventions: a string is the list of its bytes, none of which is zero; the character
classes are those of the C locale; the file of the boot id has been opened and read, and its
contents are shorter than the buffer.
-/
import DragonRuntime.ReturnCodes

namespace HostId

/-! ## Sanitising -/

def isdigit (c : UInt8) : Bool := 48 ≤ c && c ≤ 57

def isxdigit (c : UInt8) : Bool := isdigit c || 97 ≤ c && c ≤ 102 || 65 ≤ c && c ≤ 70

def tolower (c : UInt8) : UInt8 := if 65 ≤ c ∧ c ≤ 90 then c + 32 else c

/-- `_lower_id` -/
def lowerId (bootId : List UInt8) : List UInt8 := bootId.map tolower

/-- The loop of `_sanitize_id` in the buffer: `pr` reads and `pw` writes. -/
def sanitizeLoop : ℕ → (ℕ → UInt8) → ℕ → ℕ → ℕ → UInt8
  | 0, buf, _, _ => buf
  | fuel + 1, buf, pr, pw =>
    if buf pr = 0 then Function.update buf pw 0
    else
      let buf := Function.update buf pw (buf pr)
      sanitizeLoop fuel buf (pr + 1) (if isxdigit (buf pw) then pw + 1 else pw)

/-- The string at a place of the buffer. -/
def cString (buf : ℕ → UInt8) : ℕ → ℕ → List UInt8
  | 0, _ => []
  | fuel + 1, ptr => if buf ptr = 0 then [] else buf ptr :: cString buf fuel (ptr + 1)

/-- `_sanitize_id` -/
def sanitizeId (bootId : List UInt8) : List UInt8 :=
  let bootId := lowerId bootId
  cString (sanitizeLoop (bootId.length + 1) (fun i => bootId.getD i 0) 0 0) (bootId.length + 1) 0

/-! ## Converting -/

/-- `_get_dec_from_hex` -/
def getDecFromHex (hex : UInt8) : ℤ :=
  if isdigit hex then (hex.toNat : ℤ) - 48 else (hex.toNat : ℤ) - 97

/-- `_hex_to_dec` -/
def hexToDec (hex : List UInt8) : Except DragonError ℤ :=
  if hex.length < 16 then .error .invalidArgument
  else .ok ((hex.drop (hex.length - 16)).foldl (fun dec c =>
    (dec + (dec * 16 + getDecFromHex c)) % 2 ^ 64) 0)

/-- `_get_hostid_from_k8s_podid` -/
def getHostidFromK8sPodid (podUid : List UInt8) : Except DragonError ℤ :=
  match hexToDec (sanitizeId podUid) with
  | .error _ => .error .failure
  | .ok hostId => .ok hostId

/-- `_get_hostid_from_bootid` -/
def getHostidFromBootid (bootId : List UInt8) : Except DragonError ℤ :=
  match hexToDec (sanitizeId bootId) with
  | .error _ => .error .failure
  | .ok hostId => .ok hostId

/-- `dragon_host_id_from_k8s_uuid` -/
def dragonHostIdFromK8sUuid (podUid : List UInt8) : Except DragonError ℤ :=
  match getHostidFromK8sPodid podUid with
  | .error _ => .error .failure
  | .ok hostId => .ok hostId

/-! ## What the identifier says -/

/-- The value of a hexadecimal digit. -/
def hexValue (c : UInt8) : ℕ :=
  if isdigit c then c.toNat - 48 else if 97 ≤ c then c.toNat - 87 else c.toNat - 55

/-- The values of the last 16 hexadecimal digits. -/
def lastDigits (id : List UInt8) : List ℕ :=
  ((id.filter isxdigit).drop ((id.filter isxdigit).length - 16)).map hexValue

/-- The number that the digits write to base 16. -/
def hexNumber (digits : List ℕ) : ℕ := Nat.ofDigits 16 digits.reverse

/-- Fifteen zeros and a decimal digit, or thirteen zeros, `5f`, and a letter. -/
def ReadRight (digits : List ℕ) : Prop :=
  (∃ d < 10, digits = List.replicate 15 0 ++ [d]) ∨
    ∃ d < 16, 10 ≤ d ∧ digits = List.replicate 13 0 ++ [5, 15, d]

instance (digits : List ℕ) : Decidable (ReadRight digits) := by
  unfold ReadRight; infer_instance

/-! ## The sanitised identifier -/

/-- `pw` is never ahead of `pr`, so that what is still to be read is not written. -/
theorem sanitizeLoop_eq (rest kept : List UInt8) (buf : ℕ → UInt8) (pr fuel : ℕ)
    (hle : kept.length ≤ pr) (hfuel : rest.length < fuel) (hnul : (0 : UInt8) ∉ rest)
    (hkept : ∀ i < kept.length, buf i = kept.getD i 0)
    (hrest : ∀ i, buf (pr + i) = rest.getD i 0) (i : ℕ)
    (hi : i ≤ (kept ++ rest.filter isxdigit).length) :
    sanitizeLoop fuel buf pr kept.length i = (kept ++ rest.filter isxdigit).getD i 0 := by
  obtain ⟨fuel, rfl⟩ := Nat.exists_eq_succ_of_ne_zero (Nat.ne_of_gt (Nat.zero_lt_of_lt hfuel))
  induction rest generalizing kept buf pr fuel with
  | nil =>
    have hend : buf pr = 0 := hrest 0
    unfold sanitizeLoop
    rw [if_pos hend]
    simp only [List.filter_nil, List.append_nil] at hi ⊢
    rcases Nat.eq_or_lt_of_le hi with rfl | hlt
    · rw [Function.update_self, List.getD_eq_default _ _ le_rfl]
    · rw [Function.update_of_ne (Nat.ne_of_lt hlt), hkept i hlt]
  | cons c rest ih =>
    obtain ⟨fuel, rfl⟩ := Nat.exists_eq_succ_of_ne_zero
      (Nat.ne_of_gt (Nat.zero_lt_of_lt (Nat.lt_of_succ_lt_succ hfuel)))
    have hc : buf pr = c := hrest 0
    have hne : ¬ buf pr = 0 := fun h0 => hnul (List.mem_cons.mpr (.inl (h0.symm.trans hc)))
    have hrest' : ∀ j, Function.update buf kept.length c (pr + 1 + j) = rest.getD j 0 := by
      intro j
      rw [Function.update_of_ne (by omega), Nat.add_assoc, Nat.add_comm 1 j]
      exact hrest (j + 1)
    have hnul' : (0 : UInt8) ∉ rest := fun h => hnul (List.mem_cons_of_mem c h)
    unfold sanitizeLoop
    rw [if_neg hne, hc]
    simp only [Function.update_self]
    cases hdigit : isxdigit c with
    | true =>
      rw [List.filter_cons_of_pos hdigit, List.append_cons] at hi ⊢
      have hlen : (kept ++ [c]).length = kept.length + 1 := List.length_append
      rw [if_pos rfl, ← hlen]
      refine ih (kept ++ [c]) _ (pr + 1) (by omega) hnul' ?_ hrest' hi fuel
        (Nat.lt_of_succ_lt_succ hfuel)
      intro j hj
      rcases Nat.eq_or_lt_of_le (Nat.le_of_lt_succ (hlen ▸ hj)) with rfl | hlt
      · rw [Function.update_self, List.getD_append_right _ _ _ _ le_rfl, Nat.sub_self]
        rfl
      · rw [Function.update_of_ne (Nat.ne_of_lt hlt), hkept j hlt, List.getD_append _ _ _ _ hlt]
    | false =>
      rw [List.filter_cons_of_neg (by simp [hdigit])] at hi ⊢
      rw [if_neg Bool.false_ne_true]
      refine ih kept _ (pr + 1) (by omega) hnul' ?_ hrest' hi fuel
        (Nat.lt_of_succ_lt_succ hfuel)
      intro j hj
      rw [Function.update_of_ne (Nat.ne_of_lt hj), hkept j hj]

theorem cString_eq (buf : ℕ → UInt8) (l : List UInt8) (fuel ptr : ℕ) (hfuel : l.length < fuel)
    (hnul : (0 : UInt8) ∉ l) (hbuf : ∀ i ≤ l.length, buf (ptr + i) = l.getD i 0) :
    cString buf fuel ptr = l := by
  induction l generalizing fuel ptr with
  | nil =>
    cases fuel with
    | zero => rfl
    | succ fuel => exact if_pos (hbuf 0 le_rfl)
  | cons c l ih =>
    obtain ⟨fuel, rfl⟩ := Nat.exists_eq_succ_of_ne_zero (Nat.ne_of_gt (Nat.zero_lt_of_lt hfuel))
    have hc : buf ptr = c := hbuf 0 (Nat.zero_le _)
    have hne : ¬ buf ptr = 0 := fun h0 => hnul (List.mem_cons.mpr (.inl (h0.symm.trans hc)))
    unfold cString
    rw [if_neg hne, hc, ih fuel (ptr + 1) (Nat.lt_of_succ_lt_succ hfuel)
      (fun h => hnul (List.mem_cons_of_mem c h))]
    intro i hi
    rw [Nat.add_assoc, Nat.add_comm 1 i]
    exact hbuf (i + 1) (Nat.succ_le_succ hi)

/-- The digit that a converted character stands for. -/
def lowDigit (v : ℕ) : ℤ := if v < 10 then v else v - 10

theorem tolower_spec (c : UInt8) : (tolower c = 0 → c = 0) ∧ isxdigit (tolower c) = isxdigit c ∧
    (isxdigit c = true → hexValue c < 16 ∧ getDecFromHex (tolower c) = lowDigit (hexValue c)) := by
  obtain ⟨c⟩ := c
  revert c
  decide +kernel

/-- `_sanitize_id` keeps the hexadecimal digits, in lower case. -/
theorem sanitizeId_eq {id : List UInt8} (hnul : (0 : UInt8) ∉ id) :
    sanitizeId id = (id.filter isxdigit).map tolower := by
  have hnul' : (0 : UInt8) ∉ lowerId id := by
    intro hmem
    obtain ⟨c, hc, hzero⟩ := List.mem_map.mp hmem
    exact hnul ((tolower_spec c).1 hzero ▸ hc)
  have hfilter : (lowerId id).filter isxdigit = (id.filter isxdigit).map tolower := by
    unfold lowerId
    rw [List.filter_map]
    congr 2
    funext c
    exact (tolower_spec c).2.1
  rw [← hfilter]
  unfold sanitizeId
  refine cString_eq _ _ _ 0 (Nat.lt_succ_of_le (List.length_filter_le _ _))
    (fun hmem => hnul' (List.mem_filter.mp hmem).1) fun i hi => ?_
  rw [Nat.zero_add]
  exact sanitizeLoop_eq (lowerId id) [] _ 0 _ le_rfl (Nat.lt_succ_self _) hnul' nofun
    (fun i => by rw [Nat.zero_add]) i hi

/-! ## The two readings of the digits -/

/-- What the digits make to base 17, less the number that they write. -/
def excess : List ℕ → ℤ
  | [] => 0
  | v :: digits => lowDigit v * 17 ^ digits.length - v * 16 ^ digits.length + excess digits

theorem hexNumber_cons (v : ℕ) (digits : List ℕ) :
    hexNumber (v :: digits) = hexNumber digits + 16 ^ digits.length * v := by
  unfold hexNumber
  rw [List.reverse_cons, Nat.ofDigits_append, List.length_reverse, Nat.ofDigits_singleton]

theorem excess_eq (digits : List ℕ) (a : ℤ) :
    digits.foldl (fun n v => n * 17 + lowDigit v) a
      = a * 17 ^ digits.length + hexNumber digits + excess digits := by
  induction digits generalizing a with
  | nil =>
    show a = a * 1 + 0 + 0
    ring
  | cons v digits ih =>
    rw [List.foldl_cons, ih, List.length_cons, excess, hexNumber_cons, pow_succ]
    push_cast
    ring

/-- The conversion works modulo `2^64`. -/
theorem foldl_mod (digits : List ℕ) (a : ℤ) :
    digits.foldl (fun dec v => (dec + (dec * 16 + lowDigit v)) % 2 ^ 64) (a % 2 ^ 64)
      = digits.foldl (fun n v => n * 17 + lowDigit v) a % 2 ^ 64 := by
  induction digits generalizing a with
  | nil => rfl
  | cons v digits ih =>
    rw [List.foldl_cons, List.foldl_cons, ← ih]
    congr 1
    omega

/-- The bounds of the excess of `k` digits. -/
def excessMin : ℕ → ℤ
  | 0 => 0
  | k + 1 => excessMin k - 10 * 16 ^ k

def excessMax : ℕ → ℤ
  | 0 => 0
  | k + 1 => excessMax k + 9 * (17 ^ k - 16 ^ k)

theorem excess_bounds (digits : List ℕ) (hdigits : ∀ v ∈ digits, v < 16) :
    excessMin digits.length ≤ excess digits ∧ excess digits ≤ excessMax digits.length := by
  induction digits with
  | nil => exact ⟨le_rfl, le_rfl⟩
  | cons v digits ih =>
    obtain ⟨hmin, hmax⟩ := ih fun u hu => hdigits u (List.mem_cons_of_mem v hu)
    have hv := hdigits v List.mem_cons_self
    have hpow : (16 : ℤ) ^ digits.length ≤ 17 ^ digits.length :=
      pow_le_pow_left₀ (by decide) (by decide) _
    have hpos : (0 : ℤ) < 16 ^ digits.length := by positivity
    rw [List.length_cons, excess, excessMin, excessMax]
    have hhead : -(10 * 16 ^ digits.length) ≤ lowDigit v * 17 ^ digits.length
        - v * 16 ^ digits.length ∧ lowDigit v * 17 ^ digits.length - v * 16 ^ digits.length
          ≤ 9 * (17 ^ digits.length - 16 ^ digits.length) := by
      unfold lowDigit
      generalize (16 : ℤ) ^ digits.length = x at *
      generalize (17 : ℤ) ^ digits.length = y at *
      interval_cases v <;> refine ⟨?_, ?_⟩ <;> norm_num <;> linarith
    constructor <;> linarith [hhead.1, hhead.2]

/-- The lists of `k` digits with the excess `t`, most significant digit first. -/
def withExcess : ℕ → ℤ → List (List ℕ)
  | 0, t => if t = 0 then [[]] else []
  | k + 1, t => (List.range 16).flatMap fun v =>
    let rest := t - (lowDigit v * 17 ^ k - v * 16 ^ k)
    if excessMin k ≤ rest ∧ rest ≤ excessMax k then (withExcess k rest).map (v :: ·) else []

theorem mem_withExcess (digits : List ℕ) (hdigits : ∀ v ∈ digits, v < 16) :
    digits ∈ withExcess digits.length (excess digits) := by
  induction digits with
  | nil => exact List.mem_singleton.mpr rfl
  | cons v digits ih =>
    have hrest := fun u hu => hdigits u (List.mem_cons_of_mem v hu)
    have heq : excess (v :: digits)
        - (lowDigit v * 17 ^ digits.length - v * 16 ^ digits.length) = excess digits := by
      rw [excess]
      ring
    refine List.mem_flatMap.mpr
      ⟨v, List.mem_range.mpr (hdigits v List.mem_cons_self), ?_⟩
    dsimp only
    rw [heq, if_pos (excess_bounds digits hrest)]
    exact List.mem_map.mpr ⟨digits, ih hrest, rfl⟩

/-- **Sixteen digits are read right** in sixteen cases. -/
theorem excess_mod_iff (digits : List ℕ) (hlen : digits.length = 16)
    (hdigits : ∀ v ∈ digits, v < 16) : excess digits % 2 ^ 64 = 0 ↔ ReadRight digits := by
  have hbounds := excess_bounds digits hdigits
  rw [hlen] at hbounds
  have hmin : -2 ^ 64 < excessMin 16 := by decide +kernel
  have hmax : excessMax 16 < 2 ^ 64 := by decide +kernel
  constructor
  · intro hmod
    have hzero : excess digits = 0 := by omega
    have hmem := mem_withExcess digits hdigits
    rw [hlen, hzero] at hmem
    have hall : ∀ l ∈ withExcess 16 0, ReadRight l := by decide +kernel
    exact hall digits hmem
  · have hread : (∀ d < 10, excess (List.replicate 15 0 ++ [d]) = 0) ∧
        ∀ d < 16, 10 ≤ d → excess (List.replicate 13 0 ++ [5, 15, d]) = 0 := by decide +kernel
    rintro (⟨d, hd, rfl⟩ | ⟨d, hd, hten, rfl⟩)
    · rw [hread.1 d hd]
      rfl
    · rw [hread.2 d hd hten]
      rfl

/-! ## Host ids -/

theorem lastDigits_spec {id : List UInt8} (hlen : 16 ≤ (id.filter isxdigit).length) :
    (lastDigits id).length = 16 ∧ ∀ v ∈ lastDigits id, v < 16 := by
  unfold lastDigits
  constructor
  · rw [List.length_map, List.length_drop]
    omega
  · intro v hv
    obtain ⟨c, hc, rfl⟩ := List.mem_map.mp hv
    exact ((tolower_spec c).2.2 (List.mem_filter.mp (List.mem_of_mem_drop hc)).2).1

theorem hexToDec_sanitizeId {id : List UInt8} (hnul : (0 : UInt8) ∉ id)
    (hlen : 16 ≤ (id.filter isxdigit).length) : ∃ hostId, hexToDec (sanitizeId id) = .ok hostId ∧
      (hostId = hexNumber (lastDigits id) ↔ ReadRight (lastDigits id)) := by
  obtain ⟨hlen', hdigits⟩ := lastDigits_spec hlen
  refine ⟨(lastDigits id).foldl (fun dec v => (dec + (dec * 16 + lowDigit v)) % 2 ^ 64) 0, ?_, ?_⟩
  · rw [sanitizeId_eq hnul]
    unfold hexToDec lastDigits
    rw [List.length_map, if_neg (by omega), ← List.map_drop, List.foldl_map, List.foldl_map]
    congr 1
    refine List.foldl_ext _ _ _ fun dec c hc => ?_
    rw [((tolower_spec c).2.2 (List.mem_filter.mp (List.mem_of_mem_drop hc)).2).2]
  · have hmod := foldl_mod (lastDigits id) 0
    have hbound : hexNumber (lastDigits id) < 16 ^ 16 := by
      have h := Nat.ofDigits_lt_base_pow_length (b := 16) (l := (lastDigits id).reverse)
        (by decide) fun v hv => hdigits v (List.mem_reverse.mp hv)
      rwa [List.length_reverse, hlen'] at h
    rw [Int.zero_emod, excess_eq] at hmod
    rw [← excess_mod_iff (lastDigits id) hlen' hdigits, hmod]
    omega

end HostId
