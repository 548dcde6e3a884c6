/-
# Codecs on streams

A reader takes elements from the front of a stream or fails; a writer appends elements to a stream
and may fail, and what it has appended before stays.  A reader reads what a writer writes if it
takes exactly the elements that the writer appends, whatever follows them: such pairs can be put
one after the other.

The second part is about numbers of a fixed width, most significant digit first.
-/
import Mathlib

namespace StreamCodec

variable {β ε δ α γ ι : Type}

abbrev Reader (β ε α : Type) : Type := StateT (List β) (Except ε) α

abbrev Writer (β ε α : Type) : Type := ExceptT ε (StateM (List β)) α

/-- Exactly so many elements, or `incomplete` if the stream ends before. -/
def readExactly (incomplete : ε) (n : ℕ) : Reader β ε (List β) := fun stream =>
  if n ≤ stream.length then .ok (stream.take n, stream.drop n) else .error incomplete

def emit (data : List β) : Writer β ε Unit := fun stream => (.ok (), stream ++ data)

/-- The reader reads `a` from what the writer writes, and leaves what follows. -/
def RoundTrip (write : Writer β ε Unit) (read : Reader β δ α) (a : α) : Prop :=
  ∃ data : List β, (∀ stream, write stream = (.ok (), stream ++ data)) ∧
    ∀ rest, read (data ++ rest) = .ok (a, rest)

namespace RoundTrip

theorem pure (a : α) : RoundTrip (β := β) (ε := ε) (δ := δ) (pure ()) (pure a) a :=
  ⟨[], fun stream => by rw [List.append_nil]; rfl, fun _ => rfl⟩

/-- Elements whose number the reader knows. -/
theorem exactly (incomplete : δ) (data : List β) :
    RoundTrip (ε := ε) (emit data) (readExactly incomplete data.length) data := by
  refine ⟨data, fun _ => rfl, fun rest => ?_⟩
  have hle : data.length ≤ (data ++ rest).length := by
    rw [List.length_append]
    exact Nat.le_add_right _ _
  rw [readExactly, if_pos hle, List.take_left, List.drop_left]

/-- One pair after the other: what is read second may depend on what was read first. -/
theorem bind {write write' : Writer β ε Unit} {read : Reader β δ α} {read' : α → Reader β δ γ}
    {a : α} {c : γ} (h : RoundTrip write read a) (h' : RoundTrip write' (read' a) c) :
    RoundTrip (write >>= fun _ => write') (read >>= read') c := by
  obtain ⟨data, hwrite, hread⟩ := h
  obtain ⟨data', hwrite', hread'⟩ := h'
  refine ⟨data ++ data', fun stream => ?_, fun rest => ?_⟩
  · obtain rfl : write = fun stream => (.ok (), stream ++ data) := funext hwrite
    show write' (stream ++ data) = _
    rw [hwrite', List.append_assoc]
  · show Except.bind (read (data ++ data' ++ rest)) (fun item => read' item.1 item.2) = _
    rw [List.append_assoc, hread]
    exact hread' rest

theorem decode {write : Writer β ε Unit} {read : Reader β δ α} {a : α} {c : γ}
    {f : α → Except δ γ} (h : RoundTrip write read a) (hf : f a = .ok c) :
    RoundTrip write (read >>= fun item => (f item : Reader β δ γ)) c := by
  obtain ⟨data, hwrite, hread⟩ := h
  refine ⟨data, hwrite, fun rest => ?_⟩
  show Except.bind (read (data ++ rest)) (fun item => (f item.1 : Reader β δ γ) item.2) = _
  rw [hread]
  show (f a : Reader β δ γ) rest = _
  rw [hf]
  rfl

theorem map {write : Writer β ε Unit} {read : Reader β δ α} {a : α} (f : α → γ)
    (h : RoundTrip write read a) :
    RoundTrip write (read >>= fun item => Pure.pure (f item)) (f a) := by
  obtain ⟨data, hwrite, hread⟩ := h
  refine ⟨data, hwrite, fun rest => ?_⟩
  show Except.bind (read (data ++ rest)) (fun item => Except.ok (f item.1, item.2)) = _
  rw [hread]
  rfl

/-- A list of pairs is written and read in one order. -/
theorem list {items : List ι} {write : ι → Writer β ε Unit} {read : ι → Reader β δ α}
    {value : ι → α} (h : ∀ i ∈ items, RoundTrip (write i) (read i) (value i)) :
    RoundTrip (items.forM write) (items.mapM read) (items.map value) := by
  induction items with
  | nil => exact RoundTrip.pure []
  | cons i items ih =>
    rw [List.mapM_cons, List.map_cons]
    have hhead := h i List.mem_cons_self
    have htail := ih fun j hj => h j (List.mem_cons_of_mem i hj)
    exact hhead.bind (htail.map fun values => value i :: values)

/-- The same where what is read is known up to a relation only. -/
theorem exists_list {items : List ι} {write : ι → Writer β ε Unit} {read : ι → Reader β δ α}
    {R : ι → α → Prop} (h : ∀ i ∈ items, ∃ a, R i a ∧ RoundTrip (write i) (read i) a) :
    ∃ values, List.Forall₂ R items values ∧
      RoundTrip (items.forM write) (items.mapM read) values := by
  induction items with
  | nil => exact ⟨[], List.Forall₂.nil, RoundTrip.pure []⟩
  | cons i items ih =>
    obtain ⟨a, ha, hhead⟩ := h i List.mem_cons_self
    obtain ⟨values, hvalues, htail⟩ := ih fun j hj => h j (List.mem_cons_of_mem i hj)
    refine ⟨a :: values, List.Forall₂.cons ha hvalues, ?_⟩
    rw [List.mapM_cons]
    exact hhead.bind (htail.map fun values => a :: values)

end RoundTrip

/-! ## Streams that end early -/

/-- A reader does with a stream what it does with every longer one, unless the stream ends before
it is through. -/
def Causal (incomplete : ε) (read : Reader β ε α) : Prop :=
  ∀ stream rest,
    (∀ a left, read stream = .ok (a, left) → read (stream ++ rest) = .ok (a, left ++ rest)) ∧
    ∀ e, read stream = .error e → e = incomplete ∨ read (stream ++ rest) = .error e

namespace Causal

variable {incomplete : ε}

theorem except (result : Except ε α) : Causal incomplete (result : Reader β ε α) := by
  intro stream rest
  cases result with
  | error e => exact ⟨fun a left h => (by cases h), fun e' h => .inr (by cases h; rfl)⟩
  | ok a => exact ⟨fun a' left h => (by cases h; rfl), fun e h => by cases h⟩

theorem exactly (n : ℕ) : Causal (β := β) incomplete (readExactly incomplete n) := by
  intro stream rest
  unfold readExactly
  by_cases hn : n ≤ stream.length
  · have hlong : n ≤ (stream ++ rest).length := by
      rw [List.length_append]
      exact Nat.le_add_right_of_le hn
    rw [if_pos hn, if_pos hlong, List.take_append_of_le_length hn, List.drop_append_of_le_length hn]
    exact ⟨fun a left h => (by cases h; rfl), fun e h => by cases h⟩
  · rw [if_neg hn]
    exact ⟨fun a left h => (by cases h), fun e h => .inl (by cases h; rfl)⟩

theorem bind {read : Reader β ε α} {read' : α → Reader β ε γ} (h : Causal incomplete read)
    (h' : ∀ a, Causal incomplete (read' a)) : Causal incomplete (read >>= read') := by
  intro stream rest
  have hbind : ∀ s, (read >>= read') s = (read s).bind fun item => read' item.1 item.2 :=
    fun _ => rfl
  rw [hbind, hbind]
  cases hread : read stream with
  | error e =>
    refine ⟨fun c left hc => (by cases hc), fun e' he => ?_⟩
    cases he
    exact ((h stream rest).2 e hread).imp_right fun hlong => by rw [hlong]; rfl
  | ok item =>
    rw [(h stream rest).1 item.1 item.2 hread]
    exact h' item.1 item.2 rest

theorem list {items : List ι} {read : ι → Reader β ε α} (h : ∀ i, Causal incomplete (read i)) :
    Causal incomplete (items.mapM read) := by
  induction items with
  | nil => exact except (.ok [])
  | cons i items ih =>
    rw [List.mapM_cons]
    exact (h i).bind fun a => ih.bind fun values => except (.ok (a :: values))

/-- What is read to its end cannot be read without its end. -/
theorem incomplete_of_part {read : Reader β ε α} (h : Causal incomplete read) {part later : List β}
    {a : α} (hread : read (part ++ later) = .ok (a, [])) (hlater : later ≠ []) :
    read part = .error incomplete := by
  cases hpart : read part with
  | error e =>
    rcases (h part later).2 e hpart with rfl | hlong
    · rfl
    · rw [hread] at hlong
      cases hlong
  | ok item =>
    have hlong := (h part later).1 item.1 item.2 hpart
    rw [hread, Except.ok.injEq, Prod.mk.injEq] at hlong
    exact absurd (List.append_eq_nil_iff.mp hlong.2.symm).2 hlater

end Causal

/-! ## Numbers -/

/-- The last `width` digits of a number in base 256. -/
def bigEndian : ℕ → ℕ → List UInt8
  | 0, _ => []
  | width + 1, n => bigEndian width (n / 256) ++ [UInt8.ofNat n]

def fromBigEndian (digits : List UInt8) : ℕ :=
  digits.foldl (fun n digit => n * 256 + digit.toNat) 0

@[simp] theorem length_bigEndian (width n : ℕ) : (bigEndian width n).length = width := by
  induction width generalizing n with
  | zero => rfl
  | succ width ih => rw [bigEndian, List.length_append, ih, List.length_singleton]

theorem fromBigEndian_bigEndian (width n : ℕ) (hn : n < 256 ^ width) :
    fromBigEndian (bigEndian width n) = n := by
  induction width generalizing n with
  | zero =>
    rw [pow_zero, Nat.lt_one_iff] at hn
    rw [hn]
    rfl
  | succ width ih =>
    have hdiv : n / 256 < 256 ^ width := by
      rw [Nat.div_lt_iff_lt_mul (by decide), ← pow_succ]
      exact hn
    have hlast : (UInt8.ofNat n).toNat = n % 256 := UInt8.toNat_ofNat'
    rw [bigEndian, fromBigEndian, List.foldl_append]
    show fromBigEndian (bigEndian width (n / 256)) * 256 + (UInt8.ofNat n).toNat = n
    rw [ih _ hdiv, hlast]
    exact Nat.div_add_mod' n 256

end StreamCodec
