/-
# The hashtable (`src/lib/hashtable.c`)

A statically allocated table with open addressing: `num_slots = 2 * max_entries` slots,
a bitset `allocated` of the occupied slots, and a bitset `placeholder` of those occupied
slots whose entry has been removed but which hold a chain together.

Conventions:

* keys and values are vectors of 64-bit words, of any widths;
* handles, keys and values are never `NULL`, and the memory of a new table does not
  already hold one;
* the armor words are written by initialisation only: no write of the modelled calls
  reaches them, so `_check_armor` succeeds.  (`_rehash` passes a number of bytes where
  `_copy_out` takes words; what it writes too much lies behind the copied entry, in the
  rehash space or behind the blob, never in the table, and later entries overwrite it.)
* a call returns its error code or result together with the table it leaves behind;
* indices are natural numbers; the number of slots, the size and `prev_idx` are computed in 64 bits,
  as the source does.  Where the number of slots comes out as zero, a search stops the process;
* the memory of a table has room for all of its slots, also where the 64-bit size is too small for
  entries of such widths.
-/
import DragonRuntime.Bitset

/-- A vector of 64-bit words. -/
abbrev Words (len : ℕ) : Type := Fin len → UInt64

/-- `dragonHashtable_t`.  Slot `i` of the table has key and value `slots i`. -/
structure DragonHashtable (keyLen valueLen : ℕ) where
  numSlots : ℕ
  numKvs : ℕ
  numPlaceholders : ℕ
  allocated : DragonBitSet
  placeholder : DragonBitSet
  slots : ℕ → Words keyLen × Words valueLen

/-- `thirty_two_gb`. -/
def thirtyTwoGb : ℕ := 34359720776

/-- `max_entries * (100 / max_load_factor)`, a `uint64_t`. -/
def numSlotsOf (maxEntries : ℕ) : ℕ := maxEntries * (100 / 50) % 2 ^ 64

/-- The sum `num_bits + 7` in `dragon_bitset_size` wraps. -/
def bitsetWraps (numSlots : ℕ) : Prop := 2 ^ 64 ≤ numSlots + 7

instance (numSlots : ℕ) : Decidable (bitsetWraps numSlots) := Nat.decLe _ _

/-- The bytes of a table: header, bitsets, slots and rehash space. -/
def tableBytes (numSlots keyLen valueLen : ℕ) : ℕ :=
  8 * 8 + dragonBitsetSize (if bitsetWraps numSlots then 0 else numSlots) * 2 +
    (8 * keyLen + 8 * valueLen) * numSlots * 2

/-- `dragon_hashtable_size`, for keys and values of whole words. -/
def dragonHashtableSize (maxEntries keyLen valueLen : ℕ) : Except DragonError ℕ :=
  let size := tableBytes (numSlotsOf maxEntries) keyLen valueLen % 2 ^ 64
  if thirtyTwoGb < size then .error .hashtableTooBig else .ok size

namespace DragonHashtable

variable {keyLen valueLen : ℕ}

/-! ## Keys -/

/-- One round of `_hash`. -/
def hashRound (key : Words keyLen) (hash : UInt64) (k : Fin keyLen) : UInt64 :=
  (hash <<< 5) ^^^ key k

/-- `_hash`: over the words of the key forwards, backwards and forwards again. -/
def hash (key : Words keyLen) : UInt64 :=
  let ks := List.finRange keyLen
  let hash := ks.foldl (hashRound key) 1610612741
  let hash := ks.reverse.foldl (hashRound key) hash
  ks.foldl (hashRound key) hash

/-- `_keys_equal`. -/
def keysEqual (key1 key2 : Words keyLen) : Bool :=
  (List.finRange keyLen).all fun idx => key1 idx == key2 idx

/-- The slot at which the probe for a key starts. -/
def startIdx (ht : DragonHashtable keyLen valueLen) (key : Words keyLen) : ℕ :=
  (hash key).toNat % ht.numSlots

/-! ## Adding an entry -/

/-- The search loop of `dragon_hashtable_add`: the first slot that is not allocated or
is a placeholder, and whether it is one.  It ends after `num_slots` rounds. -/
def addLoop (ht : DragonHashtable keyLen valueLen) (start : ℕ) :
    ℕ → ℕ → Except DragonError (ℕ × Bool)
  | 0, _ => .error .failure
  | fuel + 1, idx =>
    match dragonBitsetGet ht.allocated idx with
    | .error e => .error e
    | .ok allocated =>
      match dragonBitsetGet ht.placeholder idx with
      | .error e => .error e
      | .ok placeholder =>
        if !allocated || placeholder then .ok (idx, placeholder)
        else
          let idx := (idx + 1) % ht.numSlots
          if idx = start then .error .failure else addLoop ht start fuel idx

/-- The part of `dragon_hashtable_add` after the rehash. -/
def addEntry (ht : DragonHashtable keyLen valueLen) (key : Words keyLen)
    (value : Words valueLen) :
    Except DragonError Unit × DragonHashtable keyLen valueLen :=
  let start := ht.startIdx key
  match addLoop ht start ht.numSlots start with
  | .error e => (.error e, ht)
  | .ok (idx, placeholder) =>
    let ht := { ht with slots := Function.update ht.slots idx (key, value) }
    match dragonBitsetSet ht.allocated idx with
    | .error e => (.error e, ht)
    | .ok allocated =>
      let ht := { ht with allocated := allocated }
      if placeholder then
        match dragonBitsetReset ht.placeholder idx with
        | .error e => (.error e, ht)
        | .ok set =>
          (.ok (), { ht with
            placeholder := set
            numPlaceholders := ht.numPlaceholders - 1
            numKvs := ht.numKvs + 1 })
      else (.ok (), { ht with numKvs := ht.numKvs + 1 })

/-! ## Rehashing -/

/-- The first loop of `_rehash`: copy out entries in the order of their slots until
`count` are found. -/
def collectEntries (ht : DragonHashtable keyLen valueLen) :
    ℕ → ℕ → ℕ → Except DragonError (List (Words keyLen × Words valueLen))
  | _, _, 0 => .ok []
  | 0, _, _ + 1 => .error .failure
  | fuel + 1, idx, count + 1 =>
    match dragonBitsetGet ht.allocated idx with
    | .error e => .error e
    | .ok allocated =>
      match dragonBitsetGet ht.placeholder idx with
      | .error e => .error e
      | .ok placeholder =>
        if allocated && !placeholder then
          match collectEntries ht fuel (idx + 1) count with
          | .error e => .error e
          | .ok entries => .ok (ht.slots idx :: entries)
        else collectEntries ht fuel (idx + 1) (count + 1)

/-- The second loop of `_rehash`.  In it `num_placeholders` is zero, so that
`dragon_hashtable_add` does not rehash again. -/
def readdEntries : List (Words keyLen × Words valueLen) → DragonHashtable keyLen valueLen →
    Except DragonError Unit × DragonHashtable keyLen valueLen
  | [], ht => (.ok (), ht)
  | (key, value) :: rest, ht =>
    if ht.numSlots / 2 ≤ ht.numKvs then (.error .hashtableFull, ht)
    else
      match addEntry ht key value with
      | (.error e, ht) => (.error e, ht)
      | (.ok (), ht) => readdEntries rest ht

/-- `_rehash`. -/
def rehash (ht : DragonHashtable keyLen valueLen) :
    Except DragonError Unit × DragonHashtable keyLen valueLen :=
  match collectEntries ht (ht.numSlots + 1) 0 ht.numKvs with
  | .error e => (.error e, ht)
  | .ok entries =>
    readdEntries entries { ht with
      allocated := dragonBitsetClear ht.allocated
      placeholder := dragonBitsetClear ht.placeholder
      numPlaceholders := 0
      numKvs := 0 }

/-- The clean-up of `dragon_hashtable_add` and `dragon_hashtable_remove`; they do not
look at the error code of `_rehash`. -/
def cleanup (ht : DragonHashtable keyLen valueLen) : DragonHashtable keyLen valueLen :=
  if ht.numSlots / 2 < ht.numPlaceholders then (rehash ht).2 else ht

/-! ## Searching and removing -/

/-- The search loop of `dragon_hashtable_get` and `dragon_hashtable_remove`: the slot of
the key.  The test for a whole turn is also made after the slot that ends the search. -/
def searchLoop (ht : DragonHashtable keyLen valueLen) (key : Words keyLen) (start : ℕ) :
    ℕ → ℕ → Except DragonError ℕ
  | 0, _ => .error .failure
  | fuel + 1, idx =>
    match dragonBitsetGet ht.allocated idx with
    | .error e => .error e
    | .ok false =>
      if (idx + 1) % ht.numSlots = start then .error .failure
      else .error .hashtableKeyNotFound
    | .ok true =>
      match dragonBitsetGet ht.placeholder idx with
      | .error e => .error e
      | .ok placeholder =>
        if !placeholder && keysEqual key (ht.slots idx).1 then .ok idx
        else
          let idx := (idx + 1) % ht.numSlots
          if idx = start then .error .failure else searchLoop ht key start fuel idx

/-- The search for a key from its first slot on: `_hash(key) % num_slots`. -/
def search (ht : DragonHashtable keyLen valueLen) (key : Words keyLen) :
    Except DragonError ℕ :=
  if ht.numSlots = 0 then .error .sigfpe
  else searchLoop ht key (ht.startIdx key) ht.numSlots (ht.startIdx key)

/-- `((int64_t)idx - 1) % num_slots`: the difference is converted to `uint64_t` before
the remainder is taken. -/
def prevIdx (idx numSlots : ℕ) : ℕ := (idx + 2 ^ 64 - 1) % 2 ^ 64 % numSlots

/-- The inner loop of `dragon_hashtable_remove`: free the placeholders to the left.
Every round that goes on resets a placeholder, so `num_slots + 1` rounds are enough. -/
def clearLeft : ℕ → DragonHashtable keyLen valueLen → ℕ →
    Except DragonError Unit × DragonHashtable keyLen valueLen
  | 0, ht, _ => (.error .failure, ht)
  | fuel + 1, ht, idx =>
    match dragonBitsetGet ht.placeholder idx with
    | .error e => (.error e, ht)
    | .ok false => (.ok (), ht)
    | .ok true =>
      match dragonBitsetReset ht.placeholder idx with
      | .error e => (.error e, ht)
      | .ok set =>
        let ht := { ht with placeholder := set, numPlaceholders := ht.numPlaceholders - 1 }
        match dragonBitsetReset ht.allocated idx with
        | .error e => (.error e, ht)
        | .ok set => clearLeft fuel { ht with allocated := set } (prevIdx idx ht.numSlots)

/-- The branch of `dragon_hashtable_remove` for the slot of the key. -/
def removeEntry (ht : DragonHashtable keyLen valueLen) (idx : ℕ) :
    Except DragonError Unit × DragonHashtable keyLen valueLen :=
  match dragonBitsetGet ht.allocated ((idx + 1) % ht.numSlots) with
  | .error e => (.error e, ht)
  | .ok true =>
    match dragonBitsetSet ht.placeholder idx with
    | .error e => (.error e, ht)
    | .ok set =>
      (.ok (), { ht with
        placeholder := set
        numPlaceholders := ht.numPlaceholders + 1
        numKvs := ht.numKvs - 1 })
  | .ok false =>
    match dragonBitsetReset ht.allocated idx with
    | .error e => (.error e, ht)
    | .ok set =>
      match clearLeft (ht.numSlots + 1) { ht with allocated := set }
          (prevIdx idx ht.numSlots) with
      | (.error e, ht) => (.error e, ht)
      | (.ok (), ht) => (.ok (), { ht with numKvs := ht.numKvs - 1 })

end DragonHashtable

open DragonHashtable

variable {keyLen valueLen : ℕ}

/-! ## The user API -/

/-- `dragon_hashtable_init` on memory with the given contents.  Without bytes for the bits, it writes
the bitsets over one another. -/
def dragonHashtableInit (slots : ℕ → Words keyLen × Words valueLen)
    (allocated placeholder : ℕ → BitVec 8) (maxEntries : ℕ) :
    Except DragonError (DragonHashtable keyLen valueLen) :=
  match dragonHashtableSize maxEntries keyLen valueLen with
  | .error e => .error e
  | .ok _ =>
    if bitsetWraps (numSlotsOf maxEntries) then .error .sigsegv
    else .ok
      { numSlots := numSlotsOf maxEntries
        numKvs := 0
        numPlaceholders := 0
        allocated := dragonBitsetInit allocated (numSlotsOf maxEntries)
        placeholder := dragonBitsetInit placeholder (numSlotsOf maxEntries)
        slots := slots }

/-- `dragon_hashtable_add`. -/
def dragonHashtableAdd (ht : DragonHashtable keyLen valueLen) (key : Words keyLen)
    (value : Words valueLen) :
    Except DragonError Unit × DragonHashtable keyLen valueLen :=
  if ht.numSlots / 2 ≤ ht.numKvs then (.error .hashtableFull, ht)
  else ht.cleanup.addEntry key value

/-- `dragon_hashtable_remove`. -/
def dragonHashtableRemove (ht : DragonHashtable keyLen valueLen) (key : Words keyLen) :
    Except DragonError Unit × DragonHashtable keyLen valueLen :=
  let ht := ht.cleanup
  match ht.search key with
  | .error e => (.error e, ht)
  | .ok idx => ht.removeEntry idx

/-- `dragon_hashtable_replace`: the error code of the removal is not looked at.  In a table without
slots the removal stops the process. -/
def dragonHashtableReplace (ht : DragonHashtable keyLen valueLen) (key : Words keyLen)
    (value : Words valueLen) :
    Except DragonError Unit × DragonHashtable keyLen valueLen :=
  if ht.numSlots = 0 then (.error .sigfpe, ht)
  else dragonHashtableAdd (dragonHashtableRemove ht key).2 key value

/-- `dragon_hashtable_get`. -/
def dragonHashtableGet (ht : DragonHashtable keyLen valueLen) (key : Words keyLen) :
    Except DragonError (Words valueLen) :=
  match ht.search key with
  | .error e => .error e
  | .ok idx => .ok (ht.slots idx).2
