/-
  RubyBrs.Ext.Memory

  Allocation: codec instances and `malloc`ed buffers, which the extension has
  to release, and Ruby strings, which the garbage collector owns (`buffer.c`).

  Whether an allocation succeeds, and what fresh memory contains, is up to the
  environment: `fails` and `garbage` are indexed by the number of the
  allocation.  Every instance and buffer has its own handle, and the ledger
  records the live ones and every release or use of one that is not.
-/

import RubyBrs.Ext.Error
import Mathlib.Data.List.Basic

namespace RubyBrs

structure Memory where
  /-- Does the `k`-th allocation fail? -/
  fails : Nat → Bool
  /-- The content of the memory given by the `k`-th allocation. -/
  garbage : Nat → Nat → UInt8
  /-- The number of the next allocation. -/
  next : Nat
  /-- Handles of the live instances and buffers. -/
  live : List Nat
  /-- Handles that were released or used while not live. -/
  misuses : List Nat

namespace Memory

/-- No allocation that is still to come fails. -/
def Faultless (m : Memory) : Prop := ∀ k, m.next ≤ k → m.fails k = false

/-- A memory that nothing was allocated in, and in which no allocation fails. -/
def unused : Memory :=
  { fails := fun _ => false, garbage := fun _ _ => 0, next := 0, live := [], misuses := [] }

theorem unused_faultless : unused.Faultless := fun _ _ => rfl

/-- The content of `size` freshly allocated bytes. -/
def fresh (m : Memory) (size : Nat) : List UInt8 :=
  (List.range size).map (m.garbage m.next)

/-- Allocate an instance or a buffer. -/
def allocate (m : Memory) : Option Nat × Memory :=
  if m.fails m.next then
    (none, { m with next := m.next + 1 })
  else
    (some m.next, { m with next := m.next + 1, live := m.next :: m.live })

/-- `free`, or the destructor of an instance. -/
def release (m : Memory) (handle : Nat) : Memory :=
  if handle ∈ m.live then
    { m with live := m.live.erase handle }
  else
    { m with misuses := handle :: m.misuses }

/-- Hand an instance or a buffer to the library. -/
def use (m : Memory) (handle : Nat) : Memory :=
  if handle ∈ m.live then m else { m with misuses := handle :: m.misuses }

/-- A string of the Ruby heap: `none` when the allocation raised. -/
def allocateString (m : Memory) (bytes : List UInt8) : Option (List UInt8) × Memory :=
  if m.fails m.next then
    (none, { m with next := m.next + 1 })
  else
    (some bytes, { m with next := m.next + 1 })

/-- An array of the Ruby heap for the arguments of a protected function: was it
    allocated?  If not, `NoMemoryError` was raised. -/
def allocateArray (m : Memory) : Bool × Memory :=
  (!m.fails m.next, { m with next := m.next + 1 })

end Memory

/-! ## `buffer.c` -/

def defaultSourceBufferLengthForCompressor : Nat := 1 <<< 18
def defaultDestinationBufferLengthForCompressor : Nat := 1 <<< 16
def defaultSourceBufferLengthForDecompressor : Nat := 1 <<< 16
def defaultDestinationBufferLengthForDecompressor : Nat := 1 <<< 18

/-- `brs_ext_create_string_buffer` under `rb_protect`: a string of `length`
    bytes that nothing was written to. -/
def createStringBuffer (m : Memory) (length : Nat) : Option (List UInt8) × Memory :=
  m.allocateString (m.fresh length)

/-- `brs_ext_resize_string_buffer` under `rb_protect`: cut the string, or grow it
    by bytes that nothing was written to. -/
def brsExtResizeStringBuffer (m : Memory) (buffer : List UInt8) (length : Nat) :
    Option (List UInt8) × Memory :=
  m.allocateString (buffer.take length ++ m.fresh (length - buffer.length))

/-- `BRS_EXT_RESIZE_STRING_BUFFER`: the exception that leaves the function it is
    used in, or what became of the string.  The array of the arguments is
    allocated before `rb_protect` is called, so nothing catches its failure. -/
def resizeStringBuffer (m : Memory) (buffer : List UInt8) (length : Nat) :
    Except RubyError (Option (List UInt8)) × Memory :=
  match m.allocateArray with
  | (false, m) => (.error .noMemoryError, m)
  | (true, m) =>
      let (resized, m) := brsExtResizeStringBuffer m buffer length
      (.ok resized, m)

namespace Memory

@[simp] theorem fresh_length (m : Memory) (size : Nat) : (m.fresh size).length = size := by
  simp [fresh]

/-- What is still to come can only become less. -/
theorem Faultless.later {m m' : Memory} (h : m.Faultless) (hfails : m'.fails = m.fails)
    (hnext : m.next ≤ m'.next) : m'.Faultless := by
  intro k hk
  rw [hfails]
  exact h k (Nat.le_trans hnext hk)

/-- An allocation is behind. -/
theorem Faultless.step {m : Memory} (h : m.Faultless) :
    Faultless { m with next := m.next + 1 } := h.later rfl (Nat.le_succ _)

theorem Faultless.fails_next {m : Memory} (h : m.Faultless) : m.fails m.next = false :=
  h m.next (Nat.le_refl _)

/-- An allocation fails and leaves the ledger alone, or enters its handle. -/
theorem allocate_cases (m : Memory) :
    (¬ m.Faultless ∧ m.allocate = (none, { m with next := m.next + 1 })) ∨
    m.allocate = (some m.next, { m with next := m.next + 1, live := m.next :: m.live }) := by
  by_cases hfails : m.fails m.next = true
  · left
    refine ⟨fun h => ?_, by simp [allocate, hfails]⟩
    rw [h.fails_next] at hfails
    cases hfails
  · right
    simp [allocate, hfails]

/-- A Ruby string never enters the ledger. -/
theorem allocateString_cases (m : Memory) (bytes : List UInt8) :
    (¬ m.Faultless ∧ m.allocateString bytes = (none, { m with next := m.next + 1 })) ∨
    m.allocateString bytes = (some bytes, { m with next := m.next + 1 }) := by
  by_cases hfails : m.fails m.next = true
  · left
    refine ⟨fun h => ?_, by simp [allocateString, hfails]⟩
    rw [h.fails_next] at hfails
    cases hfails
  · right
    simp [allocateString, hfails]

theorem allocateArray_cases (m : Memory) :
    (¬ m.Faultless ∧ m.allocateArray = (false, { m with next := m.next + 1 })) ∨
    m.allocateArray = (true, { m with next := m.next + 1 }) := by
  by_cases hfails : m.fails m.next = true
  · left
    refine ⟨fun h => ?_, by simp [allocateArray, hfails]⟩
    rw [h.fails_next] at hfails
    cases hfails
  · right
    simp [allocateArray, hfails]

theorem Faultless.use {m : Memory} (h : m.Faultless) (handle : Nat) :
    (m.use handle).Faultless := by
  unfold Memory.use
  split <;> exact h

end Memory

/-- A string is resized, keeping its bytes as far as they fit, unless the
    allocation fails. -/
theorem brsExtResizeStringBuffer_cases (m : Memory) (buffer : List UInt8) (length : Nat) :
    (¬ m.Faultless ∧
      brsExtResizeStringBuffer m buffer length = (none, { m with next := m.next + 1 })) ∨
    (∃ buffer', brsExtResizeStringBuffer m buffer length =
        (some buffer', { m with next := m.next + 1 }) ∧ buffer'.length = length ∧
        ∀ n, n ≤ length → n ≤ buffer.length → buffer'.take n = buffer.take n) := by
  rcases m.allocateString_cases (buffer.take length ++ m.fresh (length - buffer.length)) with
    h | h
  · exact Or.inl h
  · refine Or.inr ⟨_, h, ?_, ?_⟩
    · simp only [List.length_append, List.length_take, Memory.fresh_length]
      omega
    -- What fits in both lengths lies in the part that is kept.
    · intro n hn hb
      rw [List.take_append_of_le_length (by rw [List.length_take]; omega), List.take_take,
        Nat.min_eq_left hn]

/-- The three ends of a resize: an exception for the array, no string, or the
    string with its bytes as far as they fit. -/
theorem resizeStringBuffer_cases (m : Memory) (buffer : List UInt8) (length : Nat) :
    (¬ m.Faultless ∧ resizeStringBuffer m buffer length =
      (.error .noMemoryError, { m with next := m.next + 1 })) ∨
    (¬ m.Faultless ∧ resizeStringBuffer m buffer length =
      (.ok none, { m with next := m.next + 2 })) ∨
    (∃ buffer', resizeStringBuffer m buffer length =
        (.ok (some buffer'), { m with next := m.next + 2 }) ∧ buffer'.length = length ∧
        ∀ n, n ≤ length → n ≤ buffer.length → buffer'.take n = buffer.take n) := by
  rcases m.allocateArray_cases with ⟨hfault, harray⟩ | harray
  · exact Or.inl ⟨hfault, by rw [resizeStringBuffer, harray]⟩
  · right
    rcases brsExtResizeStringBuffer_cases { m with next := m.next + 1 } buffer length with
      ⟨hfault, hresize⟩ | ⟨buffer', hresize, hkeeps⟩
    · exact Or.inl ⟨fun hm => hfault hm.step, by rw [resizeStringBuffer, harray]; simp [hresize]⟩
    · exact Or.inr ⟨buffer', by rw [resizeStringBuffer, harray]; simp [hresize], hkeeps⟩

end RubyBrs
