/-
# The bitset (`src/lib/bitset.c`)

A bitset lives in a blob of memory: three `size_t` words (`size`, `length`,
`leading_zeroes`) followed by the bytes of the set.  The handle keeps a copy of
`size` and pointers to the rest; the model keeps the four values together.

Conventions:

* handles and out-parameters are never `NULL`, so the `DRAGON_BITSET_NULL_POINTER`
  exits are left out;
* indices are natural numbers: the bytes of the set exist in memory, so no index
  the code computes (at most `size + 64`) reaches `2^64`;
* `data` is a function from byte offsets to bytes, which is word aligned at
  offset `0`: the address of byte `k` is a multiple of eight iff `k` is.
-/
import DragonRuntime.ReturnCodes

/-! ## The handle -/

/-- `dragonBitSet_t`. -/
structure DragonBitSet where
  size : ℕ
  length : ℕ
  leadingZeroes : ℕ
  data : ℕ → BitVec 8

/-- `bit_masks`. -/
def bitMasks : List (BitVec 8) := [1, 2, 4, 8, 16, 32, 64, 128]

/-- `dragon_bitset_size`: the number of bytes of the blob. -/
def dragonBitsetSize (numBits : ℕ) : ℕ :=
  let numBytes := (numBits + 7) / 8
  let numBytes := (numBytes + 7) / 8 * 8
  3 * 8 + numBytes

/-- `dragon_bitset_clear`.  Only the bytes that hold bits of the set are zeroed;
the padding up to the next word keeps what the memory held. -/
def dragonBitsetClear (set : DragonBitSet) : DragonBitSet :=
  { set with
    data := fun k => if k < (set.size + 7) / 8 then 0 else set.data k
    length := 0
    leadingZeroes := set.size }

/-- `dragon_bitset_init` on memory with the contents `mem`. -/
def dragonBitsetInit (mem : ℕ → BitVec 8) (numBits : ℕ) : DragonBitSet :=
  dragonBitsetClear
    { size := numBits, length := 0, leadingZeroes := numBits, data := mem }

/-- `dragon_bitset_copy`: overlay the blob of `destination` with that of
`source`, header included. -/
def dragonBitsetCopy (destination source : DragonBitSet) :
    Except DragonError DragonBitSet :=
  if source.size ≠ destination.size then .error .invalidArgument
  else .ok
    { size := source.size
      length := source.length
      leadingZeroes := source.leadingZeroes
      data := fun k =>
        if k < dragonBitsetSize source.size - 3 * 8 then source.data k
        else destination.data k }

/-! ## Single bits -/

/-- The mask of a bit: bit `0` of the set is the left-most bit of byte `0`. -/
def bitMask (valIndex : ℕ) : BitVec 8 :=
  bitMasks.getD (7 - valIndex % 8) 0

/-- `dragon_bitset_get`. -/
def dragonBitsetGet (set : DragonBitSet) (valIndex : ℕ) : Except DragonError Bool :=
  if set.size ≤ valIndex then .error .bitsetBoundsError
  else
    let bitIndex := 7 - valIndex % 8
    .ok ((set.data (valIndex / 8) &&& bitMask valIndex) >>> bitIndex != 0)

/-- `dragon_bitset_set`. -/
def dragonBitsetSet (set : DragonBitSet) (valIndex : ℕ) :
    Except DragonError DragonBitSet :=
  if set.size ≤ valIndex then .error .bitsetBoundsError
  else
    let byteIndex := valIndex / 8
    let previous := set.data byteIndex
    let byte := previous ||| bitMask valIndex
    .ok
      { set with
        data := Function.update set.data byteIndex byte
        length := if previous ≠ byte then set.length + 1 else set.length
        leadingZeroes :=
          if valIndex < set.leadingZeroes then valIndex else set.leadingZeroes }

/-! ## Scanning -/

/-- The word at `data[byteIndex]` is zero. -/
def wordIsZero (set : DragonBitSet) (byteIndex : ℕ) : Bool :=
  (List.range 8).all fun j => set.data (byteIndex + j) == 0

/-- The `while` loop of `dragon_bitset_zeroes_to_right`.  Every round raises
`idx`, so `set.size` rounds are enough. -/
def zeroesToRightLoop (set : DragonBitSet) : ℕ → ℕ → ℕ → ℕ
  | 0, _, lval => lval
  | fuel + 1, idx, lval =>
    if idx < set.size then
      let byteIndex := idx / 8
      if idx + 64 < set.size ∧ byteIndex % 8 = 0 ∧ wordIsZero set byteIndex then
        -- the word test does not look at `idx % 8`
        zeroesToRightLoop set fuel (idx + 64) (lval + 64)
      else if idx + 8 < set.size ∧ idx % 8 = 0 ∧ set.data byteIndex = 0 then
        zeroesToRightLoop set fuel (idx + 8) (lval + 8)
      else if dragonBitsetGet set idx = .ok true then lval
      else zeroesToRightLoop set fuel (idx + 1) (lval + 1)
    else lval

/-- `dragon_bitset_zeroes_to_right`.  The source's shortcut `set->length == 0`
compares the pointer, which an initialised handle never has null. -/
def dragonBitsetZeroesToRight (set : DragonBitSet) (valIndex : ℕ) :
    Except DragonError ℕ :=
  if set.size ≤ valIndex then .error .bitsetBoundsError
  else .ok (zeroesToRightLoop set set.size (valIndex + 1) 0)

/-- `dragon_bitset_reset`. -/
def dragonBitsetReset (set : DragonBitSet) (valIndex : ℕ) :
    Except DragonError DragonBitSet :=
  if set.size ≤ valIndex then .error .bitsetBoundsError
  else
    let byteIndex := valIndex / 8
    let previous := set.data byteIndex
    let byte := previous &&& ~~~ bitMask valIndex
    let set' : DragonBitSet :=
      { set with
        data := Function.update set.data byteIndex byte
        length := if previous ≠ byte then set.length - 1 else set.length }
    if valIndex = set.leadingZeroes then
      if set'.length = 0 then .ok { set' with leadingZeroes := set.size }
      else
        match dragonBitsetZeroesToRight set' valIndex with
        | .error e => .error e
        | .ok zeroesToRight =>
          .ok { set' with leadingZeroes := valIndex + zeroesToRight + 1 }
    else .ok set'

/-! ## Whole-set queries -/

/-- `dragon_bitset_length`. -/
def dragonBitsetLength (set : DragonBitSet) : ℕ := set.length

/-- `dragon_bitset_first`. -/
def dragonBitsetFirst (set : DragonBitSet) : Except DragonError ℕ :=
  let first := set.leadingZeroes
  if set.length = 0 then .error .bitsetIterationComplete
  else if set.size ≤ first then .error .bitsetIterationComplete
  else
    match dragonBitsetGet set first with
    | .error e => .error e
    | .ok val => if val then .ok first else .error .failure

/-- `dragon_bitset_next`. -/
def dragonBitsetNext (set : DragonBitSet) (current : ℕ) : Except DragonError ℕ :=
  if set.size ≤ current then .error .bitsetIterationComplete
  else
    match dragonBitsetZeroesToRight set current with
    | .error e => .error e
    | .ok count =>
      let next := current + count + 1
      if set.size ≤ next then .error .bitsetIterationComplete else .ok next

/-! ## The bits of a set -/

namespace DragonBitSet

/-- Bit `i` of the set. -/
def bit (set : DragonBitSet) (i : ℕ) : Bool :=
  (set.data (i / 8)).getLsbD (7 - i % 8)

end DragonBitSet

theorem bitMask_eq_twoPow (i : ℕ) : bitMask i = BitVec.twoPow 8 (7 - i % 8) := by
  have h : ∀ b < 8, bitMasks.getD b 0 = BitVec.twoPow 8 b := by decide
  exact h (7 - i % 8) (by omega)

theorem and_bitMask_shift_ne_zero (byte : BitVec 8) (i : ℕ) :
    ((byte &&& bitMask i) >>> (7 - i % 8) != 0) = byte.getLsbD (7 - i % 8) := by
  have h : ∀ (x : BitVec 8), ∀ b < 8,
      ((x &&& BitVec.twoPow 8 b) >>> b != 0) = x.getLsbD b := by decide +kernel
  rw [bitMask_eq_twoPow]
  exact h byte (7 - i % 8) (by omega)

theorem dragonBitsetGet_of_lt {set : DragonBitSet} {i : ℕ} (hi : i < set.size) :
    dragonBitsetGet set i = .ok (set.bit i) := by
  unfold dragonBitsetGet DragonBitSet.bit
  rw [if_neg (by omega), ← and_bitMask_shift_ne_zero]

theorem dragonBitsetGet_of_le {set : DragonBitSet} {i : ℕ} (hi : set.size ≤ i) :
    dragonBitsetGet set i = .error .bitsetBoundsError := by
  unfold dragonBitsetGet
  rw [if_pos hi]

theorem getLsbD_or_bitMask (byte : BitVec 8) (i j : ℕ) :
    (byte ||| bitMask i).getLsbD (7 - j % 8)
      = (decide (7 - j % 8 = 7 - i % 8) || byte.getLsbD (7 - j % 8)) := by
  rw [bitMask_eq_twoPow, BitVec.getLsbD_or, BitVec.getLsbD_twoPow, Bool.or_comm]
  congr 1
  by_cases h : 7 - j % 8 = 7 - i % 8
  · simp [h]
    omega
  · simp [h, Ne.symm h]

theorem getLsbD_and_not_bitMask (byte : BitVec 8) (i j : ℕ) :
    (byte &&& ~~~ bitMask i).getLsbD (7 - j % 8)
      = (!decide (7 - j % 8 = 7 - i % 8) && byte.getLsbD (7 - j % 8)) := by
  rw [bitMask_eq_twoPow, BitVec.getLsbD_and, BitVec.getLsbD_not, BitVec.getLsbD_twoPow,
    Bool.and_comm]
  congr 1
  by_cases h : 7 - j % 8 = 7 - i % 8
  · simp [h]
  · simp [h, Ne.symm h]
    omega

theorem data_eq_zero_iff (set : DragonBitSet) (k : ℕ) :
    set.data k = 0 ↔ ∀ j, j / 8 = k → set.bit j = false := by
  constructor
  · intro h j hj
    simp [DragonBitSet.bit, hj, h]
  · intro h
    apply BitVec.eq_of_getLsbD_eq
    intro b hb
    have := h (8 * k + (7 - b)) (by omega)
    rw [DragonBitSet.bit, show (8 * k + (7 - b)) / 8 = k by omega,
      show 7 - (8 * k + (7 - b)) % 8 = b by omega] at this
    simpa using this

theorem ne_or_bitMask_iff (set : DragonBitSet) (i : ℕ) :
    set.data (i / 8) ≠ (set.data (i / 8) ||| bitMask i) ↔ set.bit i = false := by
  have hi := getLsbD_or_bitMask (set.data (i / 8)) i i
  constructor
  · intro h
    by_contra hb
    apply h
    apply BitVec.eq_of_getLsbD_eq
    intro b hb8
    have hj := getLsbD_or_bitMask (set.data (i / 8)) i (7 - b)
    rw [show 7 - (7 - b) % 8 = b by omega] at hj
    rw [hj]
    by_cases hbi : b = 7 - i % 8
    · rw [hbi]
      simpa [DragonBitSet.bit] using hb
    · simp [hbi]
  · intro h heq
    rw [← heq] at hi
    simp [DragonBitSet.bit] at h
    simp [h] at hi

theorem ne_and_not_bitMask_iff (set : DragonBitSet) (i : ℕ) :
    set.data (i / 8) ≠ (set.data (i / 8) &&& ~~~ bitMask i) ↔ set.bit i = true := by
  have hi := getLsbD_and_not_bitMask (set.data (i / 8)) i i
  constructor
  · intro h
    by_contra hb
    apply h
    apply BitVec.eq_of_getLsbD_eq
    intro b hb8
    have hj := getLsbD_and_not_bitMask (set.data (i / 8)) i (7 - b)
    rw [show 7 - (7 - b) % 8 = b by omega] at hj
    rw [hj]
    by_cases hbi : b = 7 - i % 8
    · rw [hbi]
      simpa [DragonBitSet.bit] using hb
    · simp [hbi]
  · intro h heq
    rw [← heq] at hi
    simp [DragonBitSet.bit] at h
    simp [h] at hi

theorem bit_of_data_update {set set' : DragonBitSet} {k : ℕ} {byte : BitVec 8}
    (h : set'.data = Function.update set.data k byte) (j : ℕ) :
    set'.bit j = if j / 8 = k then byte.getLsbD (7 - j % 8) else set.bit j := by
  unfold DragonBitSet.bit
  rw [h]
  by_cases hj : j / 8 = k
  · simp [hj]
  · simp [hj]

/-! ## What the operations do to size, bits and length -/

theorem bit_dragonBitsetClear (set : DragonBitSet) {i : ℕ} (hi : i < set.size) :
    (dragonBitsetClear set).bit i = false := by
  unfold dragonBitsetClear DragonBitSet.bit
  simp only
  rw [if_pos (by omega)]
  simp

/-- **`dragon_bitset_set`** inside the bounds. -/
theorem dragonBitsetSet_of_lt {set : DragonBitSet} {i : ℕ} (hi : i < set.size) :
    ∃ set', dragonBitsetSet set i = .ok set' ∧ set'.size = set.size ∧
      (∀ j, set'.bit j = (decide (j = i) || set.bit j)) ∧
      set'.length = (if set.bit i then set.length else set.length + 1) ∧
      set'.leadingZeroes = (if i < set.leadingZeroes then i else set.leadingZeroes) := by
  unfold dragonBitsetSet
  rw [if_neg (by omega)]
  refine ⟨_, rfl, rfl, ?_, ?_, rfl⟩
  · intro j
    rw [bit_of_data_update rfl]
    by_cases hj : j / 8 = i / 8
    · rw [if_pos hj, getLsbD_or_bitMask]
      have hiff : (7 - j % 8 = 7 - i % 8) ↔ j = i := by omega
      simp [hiff, DragonBitSet.bit, hj]
    · have hne : j ≠ i := fun h => hj (by rw [h])
      rw [if_neg hj]
      simp [hne]
  · show (if set.data (i / 8) ≠ (set.data (i / 8) ||| bitMask i) then _ else _) = _
    simp only [ne_or_bitMask_iff]
    cases set.bit i <;> simp

/-- The scan reads nothing but the size and the bytes. -/
theorem zeroesToRightLoop_congr {s t : DragonBitSet} (hsize : s.size = t.size)
    (hdata : s.data = t.data) (fuel idx lval : ℕ) :
    zeroesToRightLoop s fuel idx lval = zeroesToRightLoop t fuel idx lval := by
  induction fuel generalizing idx lval with
  | zero => rfl
  | succ fuel ih =>
    simp only [zeroesToRightLoop, wordIsZero, dragonBitsetGet, hsize, hdata, ih]

/-- **`dragon_bitset_reset`** inside the bounds. -/
theorem dragonBitsetReset_of_lt {set : DragonBitSet} {i : ℕ} (hi : i < set.size) :
    ∃ set', dragonBitsetReset set i = .ok set' ∧ set'.size = set.size ∧
      (∀ j, set'.bit j = (!decide (j = i) && set.bit j)) ∧
      set'.length = (if set.bit i then set.length - 1 else set.length) ∧
      set'.leadingZeroes = (if i = set.leadingZeroes then
          if set'.length = 0 then set.size
          else i + zeroesToRightLoop set' set.size (i + 1) 0 + 1
        else set.leadingZeroes) := by
  have hbits : ∀ set' : DragonBitSet,
      set'.data = Function.update set.data (i / 8) (set.data (i / 8) &&& ~~~ bitMask i) →
      ∀ j, set'.bit j = (!decide (j = i) && set.bit j) := by
    intro set' hdata j
    rw [bit_of_data_update hdata]
    by_cases hj : j / 8 = i / 8
    · rw [if_pos hj, getLsbD_and_not_bitMask]
      have hiff : (7 - j % 8 = 7 - i % 8) ↔ j = i := by omega
      simp [hiff, DragonBitSet.bit, hj]
    · have hne : j ≠ i := fun h => hj (by rw [h])
      rw [if_neg hj]
      simp [hne]
  have hlen : (if set.data (i / 8) ≠ (set.data (i / 8) &&& ~~~ bitMask i)
      then set.length - 1 else set.length)
      = if set.bit i then set.length - 1 else set.length := by
    simp only [ne_and_not_bitMask_iff]
  unfold dragonBitsetReset
  rw [if_neg (by omega)]
  simp only [dragonBitsetZeroesToRight, hlen]
  by_cases hlead : i = set.leadingZeroes
  · rw [if_pos hlead]
    by_cases hzero : (if set.bit i then set.length - 1 else set.length) = 0
    · rw [if_pos hzero]
      refine ⟨_, rfl, rfl, hbits _ rfl, rfl, ?_⟩
      simp only [if_pos hlead, if_pos hzero]
    · rw [if_neg hzero, if_neg (by omega)]
      refine ⟨_, rfl, rfl, hbits _ rfl, rfl, ?_⟩
      simp only [if_pos hlead, if_neg hzero]
      congr 2
      apply zeroesToRightLoop_congr <;> rfl
  · rw [if_neg hlead]
    refine ⟨_, rfl, rfl, hbits _ rfl, rfl, ?_⟩
    simp [hlead]

/-- `dragon_bitset_first` only ever returns a set bit below the size, whatever
the cached index is. -/
theorem bit_of_dragonBitsetFirst {set : DragonBitSet} {i : ℕ}
    (h : dragonBitsetFirst set = .ok i) : i < set.size ∧ set.bit i = true := by
  unfold dragonBitsetFirst at h
  simp only at h
  split at h
  · cases h
  split at h
  · cases h
  rename_i hlt
  push Not at hlt
  rw [dragonBitsetGet_of_lt hlt] at h
  simp only at h
  split at h
  · rename_i hbit
    cases h
    exact ⟨hlt, hbit⟩
  · cases h

/-! ## Sets with and without a bit -/

/-- The set with bit `i`; out of bounds the set is left as it is. -/
def DragonBitSet.withBit (set : DragonBitSet) (i : ℕ) : DragonBitSet :=
  match dragonBitsetSet set i with
  | .ok set' => set'
  | .error _ => set

/-- The set without bit `i`; out of bounds the set is left as it is. -/
def DragonBitSet.withoutBit (set : DragonBitSet) (i : ℕ) : DragonBitSet :=
  match dragonBitsetReset set i with
  | .ok set' => set'
  | .error _ => set

theorem dragonBitsetSet_eq_withBit {set : DragonBitSet} {i : ℕ} (hi : i < set.size) :
    dragonBitsetSet set i = .ok (set.withBit i) := by
  obtain ⟨set', hset, -⟩ := dragonBitsetSet_of_lt hi
  rw [DragonBitSet.withBit, hset]

theorem dragonBitsetReset_eq_withoutBit {set : DragonBitSet} {i : ℕ} (hi : i < set.size) :
    dragonBitsetReset set i = .ok (set.withoutBit i) := by
  obtain ⟨set', hset, -⟩ := dragonBitsetReset_of_lt hi
  rw [DragonBitSet.withoutBit, hset]

@[simp] theorem size_withBit (set : DragonBitSet) (i : ℕ) :
    (set.withBit i).size = set.size := by
  unfold DragonBitSet.withBit dragonBitsetSet
  split
  · rename_i h
    split at h
    · cases h
    · cases h
      rfl
  · rfl

@[simp] theorem size_withoutBit (set : DragonBitSet) (i : ℕ) :
    (set.withoutBit i).size = set.size := by
  by_cases hi : i < set.size
  · obtain ⟨set', hset, hsize, -⟩ := dragonBitsetReset_of_lt hi
    rw [DragonBitSet.withoutBit, hset]
    exact hsize
  · unfold DragonBitSet.withoutBit dragonBitsetReset
    rw [if_pos (by omega)]

theorem bit_withBit {set : DragonBitSet} {i : ℕ} (hi : i < set.size) (j : ℕ) :
    (set.withBit i).bit j = (decide (j = i) || set.bit j) := by
  obtain ⟨set', hset, -, hbits, -⟩ := dragonBitsetSet_of_lt hi
  rw [DragonBitSet.withBit, hset]
  exact hbits j

theorem bit_withoutBit {set : DragonBitSet} {i : ℕ} (hi : i < set.size) (j : ℕ) :
    (set.withoutBit i).bit j = (!decide (j = i) && set.bit j) := by
  obtain ⟨set', hset, -, hbits, -⟩ := dragonBitsetReset_of_lt hi
  rw [DragonBitSet.withoutBit, hset]
  exact hbits j
