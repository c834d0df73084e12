/-
  RubyBrs.Ext.Allocations

  The allocations of a call: how many there were, and which of them failed.

  An allocation is identified by its number, so what happened between two states of the
  memory can be told from these states (`Memory.Passes`, `Memory.FailedAt`).  Each
  function that allocates either stops with the allocation that failed, or passes.
-/

import RubyBrs.Ext.NativeRun

namespace RubyBrs

open StreamCodec

variable {σ ω ρ : Type}

namespace Memory

/-- Between `before` and `after`, `k` allocations succeeded, the next one failed, and
    it was the last. -/
structure FailedAt (before : Memory) (k : Nat) (after : Memory) : Prop where
  next : after.next = before.next + k + 1
  fails : before.fails (before.next + k) = true
  succeeds : ∀ j, j < k → before.fails (before.next + j) = false

/-- There were `count` allocations between `before` and `after`, and all of them
    succeeded. -/
structure Passes (before : Memory) (count : Nat) (after : Memory) : Prop where
  next : after.next = before.next + count
  fails : after.fails = before.fails
  succeeds : ∀ k, before.next ≤ k → k < before.next + count → before.fails k = false

variable {a b c : Memory} {count count' : Nat}

/-- Nothing was allocated. -/
theorem Passes.idle (hnext : b.next = a.next) (hfails : b.fails = a.fails) : a.Passes 0 b where
  next := hnext
  fails := hfails
  succeeds k hk hk' := by omega

theorem Passes.refl (m : Memory) : m.Passes 0 m := .idle rfl rfl

theorem Passes.trans (h : a.Passes count b) (h' : b.Passes count' c) :
    a.Passes (count + count') c where
  next := by rw [h'.next, h.next, Nat.add_assoc]
  fails := h'.fails.trans h.fails
  succeeds k hk hk' := by
    have hnext := h.next
    by_cases hb : k < a.next + count
    · exact h.succeeds k hk hb
    · rw [← h.fails]
      exact h'.succeeds k (by omega) (by omega)

/-- What succeeded before is counted. -/
theorem Passes.failed {k : Nat} (h : a.Passes count b) (h' : b.FailedAt k c) :
    a.FailedAt (count + k) c where
  next := by rw [h'.next, h.next, Nat.add_assoc a.next]
  fails := by rw [← Nat.add_assoc, ← h.next, ← h.fails, h'.fails]
  succeeds j hj := by
    by_cases hb : j < count
    · exact h.succeeds _ (Nat.le_add_right _ _) (by omega)
    · have hrest := h'.succeeds (j - count) (by omega)
      rw [h.fails, h.next] at hrest
      rwa [show a.next + j = a.next + count + (j - count) by omega]

/-- The failure stays the last allocation as long as there is no other. -/
theorem FailedAt.idle {k : Nat} (h : a.FailedAt k b) (h' : b.Passes 0 c) : a.FailedAt k c where
  next := h'.next.trans h.next
  fails := h.fails
  succeeds := h.succeeds

theorem release_passes (m : Memory) (handle : Nat) : m.Passes 0 (m.release handle) := by
  unfold release
  split
  · exact .idle rfl rfl
  · exact .idle rfl rfl

/-- The next allocation, with its number used up. -/
theorem next_failed {m m' : Memory} (hfails : m.fails m.next = true)
    (hnext : m'.next = m.next + 1) : m.FailedAt 0 m' :=
  ⟨hnext, hfails, fun j hj => absurd hj (Nat.not_lt_zero j)⟩

theorem next_passes {m m' : Memory} (hfails : m.fails m.next = false)
    (hnext : m'.next = m.next + 1) (hsame : m'.fails = m.fails) : m.Passes 1 m' where
  next := hnext
  fails := hsame
  succeeds k hk hk' := by
    obtain rfl : k = m.next := by omega
    exact hfails

theorem allocate_explained (m : Memory) :
    (m.allocate.1 = none ∧ m.FailedAt 0 m.allocate.2) ∨
    (∃ handle, m.allocate.1 = some handle ∧ m.Passes 1 m.allocate.2) := by
  unfold allocate
  cases hfails : m.fails m.next with
  | true => exact Or.inl ⟨rfl, next_failed hfails rfl⟩
  | false => exact Or.inr ⟨m.next, rfl, next_passes hfails rfl rfl⟩

theorem allocateString_explained (m : Memory) (bytes : List UInt8) :
    ((m.allocateString bytes).1 = none ∧ m.FailedAt 0 (m.allocateString bytes).2) ∨
    ((m.allocateString bytes).1 = some bytes ∧ m.Passes 1 (m.allocateString bytes).2) := by
  unfold allocateString
  cases hfails : m.fails m.next with
  | true => exact Or.inl ⟨rfl, next_failed hfails rfl⟩
  | false => exact Or.inr ⟨rfl, next_passes hfails rfl rfl⟩

theorem allocateArray_explained (m : Memory) :
    (m.allocateArray.1 = false ∧ m.FailedAt 0 m.allocateArray.2) ∨
    (m.allocateArray.1 = true ∧ m.Passes 1 m.allocateArray.2) := by
  unfold allocateArray
  cases hfails : m.fails m.next with
  | true => exact Or.inl ⟨rfl, next_failed hfails rfl⟩
  | false => exact Or.inr ⟨rfl, next_passes hfails rfl rfl⟩

end Memory

/-- A resize allocates the array of its arguments, and then the string. -/
theorem resizeStringBuffer_explained (m : Memory) (buffer : List UInt8) (length : Nat) :
    ((resizeStringBuffer m buffer length).1 = .error .noMemoryError ∧
      m.FailedAt 0 (resizeStringBuffer m buffer length).2) ∨
    ((resizeStringBuffer m buffer length).1 = .ok none ∧
      m.FailedAt 1 (resizeStringBuffer m buffer length).2) ∨
    ∃ value, (resizeStringBuffer m buffer length).1 = .ok (some value) ∧
      m.Passes 2 (resizeStringBuffer m buffer length).2 := by
  have harray := m.allocateArray_explained
  unfold resizeStringBuffer
  generalize m.allocateArray = allocated at harray ⊢
  obtain ⟨_ | _, m₁⟩ := allocated
  · rcases harray with ⟨-, hfailed⟩ | ⟨htrue, -⟩
    · exact Or.inl ⟨rfl, hfailed⟩
    · cases htrue
  · rcases harray with ⟨hfalse, -⟩ | ⟨-, hpasses⟩
    · cases hfalse
    · right
      rcases m₁.allocateString_explained (buffer.take length ++ m₁.fresh (length - buffer.length))
        with ⟨heq, hfailed⟩ | ⟨heq, hpasses'⟩
      · exact Or.inl ⟨congrArg Except.ok heq, hpasses.failed hfailed⟩
      · exact Or.inr ⟨_, congrArg Except.ok heq, hpasses.trans hpasses'⟩

section Created

/-- With options that the codec accepts, only the allocation of the instance can fail. -/
theorem createCoder_explained {create s : σ} (setOptions : σ → ExtResult × σ)
    (hset : setOptions create = (.ok, s)) (m : Memory) :
    (∃ m', (createCoder create setOptions m : Except RubyError (Coder UInt8 σ ω ρ) × Memory) =
      (.error (brsExtRaiseError .allocateFailed), m') ∧ m.FailedAt 0 m') ∨
    ∃ handle m', (createCoder create setOptions m : Except RubyError (Coder UInt8 σ ω ρ) ×
      Memory) = (.ok ⟨handle, s, []⟩, m') ∧ m.Passes 1 m' := by
  have hallocate := m.allocate_explained
  unfold createCoder
  generalize m.allocate = allocated at hallocate ⊢
  obtain ⟨_ | handle, m'⟩ := allocated
  · rcases hallocate with ⟨-, hfailed⟩ | ⟨_, hsome, -⟩
    · exact Or.inl ⟨m', rfl, hfailed⟩
    · cases hsome
  · rcases hallocate with ⟨hnone, -⟩ | ⟨_, -, hpasses⟩
    · cases hnone
    · refine Or.inr ⟨handle, m', ?_, hpasses⟩
      dsimp only
      rw [hset]

theorem createStringBuffer_explained (m : Memory) (length : Nat) :
    (∃ m', createStringBuffer m length = (none, m') ∧ m.FailedAt 0 m') ∨
    ∃ value m', createStringBuffer m length = (some value, m') ∧ value.length = length ∧
      m.Passes 1 m' := by
  rcases m.allocateString_explained (m.fresh length) with ⟨heq, hfailed⟩ | ⟨heq, hpasses⟩
  · exact Or.inl ⟨_, Prod.ext heq rfl, hfailed⟩
  · exact Or.inr ⟨_, _, Prod.ext heq rfl, m.fresh_length length, hpasses⟩

theorem mallocBuffer_explained (m : Memory) (length : Nat) :
    (∃ m', mallocBuffer m length = (none, m') ∧ m.FailedAt 0 m') ∨
    ∃ buffer m', mallocBuffer m length = (some buffer, m') ∧ buffer.bytes.length = length ∧
      m.Passes 1 m' := by
  rcases m.allocate_explained with ⟨heq, hfailed⟩ | ⟨handle, heq, hpasses⟩
  · exact Or.inl ⟨_, by rw [mallocBuffer, heq]; rfl, hfailed⟩
  · exact Or.inr ⟨⟨handle, m.fresh length⟩, _, by rw [mallocBuffer, heq]; rfl,
      m.fresh_length length, hpasses⟩

theorem createBuffers_explained (m : Memory)
    (sourceBufferLength destinationBufferLength : Nat) :
    (∃ k m', createBuffers m sourceBufferLength destinationBufferLength = (none, m') ∧
      m.FailedAt k m') ∨
    ∃ sourceBuffer destinationBuffer m',
      createBuffers m sourceBufferLength destinationBufferLength =
        (some (sourceBuffer, destinationBuffer), m') ∧
      sourceBuffer.bytes.length = sourceBufferLength ∧
      destinationBuffer.bytes.length = destinationBufferLength ∧ m.Passes 2 m' := by
  rcases mallocBuffer_explained m sourceBufferLength with
    ⟨m₁, heq, hfailed⟩ | ⟨sourceBuffer, m₁, heq, hsource, hpasses⟩
  · exact Or.inl ⟨0, m₁, by simp only [createBuffers, heq], hfailed⟩
  · rcases mallocBuffer_explained m₁ destinationBufferLength with
      ⟨m₂, heq₂, hfailed⟩ | ⟨destinationBuffer, m₂, heq₂, hdestination, hpasses₂⟩
    · refine Or.inl ⟨1, m₂.release sourceBuffer.handle, by simp only [createBuffers, heq, heq₂],
        ?_⟩
      exact hpasses.failed (hfailed.idle (m₂.release_passes _))
    · exact Or.inr ⟨sourceBuffer, destinationBuffer, m₂, by simp only [createBuffers, heq, heq₂],
        hsource, hdestination, hpasses.trans hpasses₂⟩

end Created

end RubyBrs
