/-
  RubyBrs.Ext.StreamObject

  What the native streaming classes of `stream/compressor.c` and
  `stream/decompressor.c` share: the structure behind the Ruby object, and the
  functions that both files have in the same words but for the codec.

  Every function takes the memory and the structure, and gives back the Ruby
  value or exception it is left by, with the memory and the structure afterwards.
-/

import RubyBrs.Ext.NativeRun

namespace RubyBrs

open StreamCodec Window

variable {κ σ ω ρ θ : Type}

/-- A pointer into a `malloc`ed buffer. -/
structure Pointer where
  handle : Nat
  offset : Nat
deriving Repr, DecidableEq

/-- `brs_ext_compressor_t` and `brs_ext_decompressor_t`; `none` is `NULL`. -/
structure StreamObject (κ : Type) where
  /-- The structure itself, which the object owns. -/
  handle : Nat
  statePtr : Option κ
  destinationBuffer : Option Buffer
  destinationBufferLength : Nat
  remainingDestinationBuffer : Option Pointer
  remainingDestinationBufferLength : Nat
  gvl : Bool

/-- How a method is left, and what it leaves behind. -/
abbrev MethodResult (α κ : Type) := Except RubyError α × Memory × StreamObject κ

def MethodResult.map {α β κ : Type} (f : α → β) (r : MethodResult α κ) : MethodResult β κ :=
  (r.1.map f, r.2)

theorem MethodResult.map_map {α β γ κ : Type} (f : α → β) (g : β → γ) (r : MethodResult α κ) :
    (r.map f).map g = r.map (g ∘ f) := by
  obtain ⟨outcome, m, o⟩ := r
  cases outcome <;> rfl

/-- Write to memory through a pointer. -/
def Buffer.write (buffer : Buffer) (p : Pointer) (bytes : List UInt8) : Buffer :=
  if p.handle = buffer.handle then
    { buffer with bytes := overwrite buffer.bytes p.offset bytes }
  else
    buffer

def Pointer.advance (p : Pointer) (n : Nat) : Pointer := { p with offset := p.offset + n }

/-- How a method calls the library, and what it makes of the answer. -/
structure LibraryCall (σ ω ρ : Type) where
  codec : Codec UInt8 σ ω ρ
  operation : ω
  failure : Coder UInt8 σ ω ρ → ρ → Option ExtResult
  more : σ → ρ → Bool

namespace StreamObject

/-! ## initialization -/

/-- A structure that was not initialized. -/
def new (handle : Nat) : StreamObject κ :=
  { handle
    statePtr := none
    destinationBuffer := none
    destinationBufferLength := 0
    remainingDestinationBuffer := none
    remainingDestinationBufferLength := 0
    gvl := false }

/-- `brs_ext_allocate_compressor` and `brs_ext_allocate_decompressor`. -/
def allocate (m : Memory) : Except RubyError (StreamObject κ) × Memory :=
  match m.allocate with
  | (none, m) => (.error .noMemoryError, m)
  | (some handle, m) => (.ok (new handle), m)

/-- `free_compressor` and `free_decompressor`. -/
def free (m : Memory) (self : StreamObject (Coder UInt8 σ ω ρ)) : Memory :=
  let m := match self.statePtr with
    | some coder => m.release coder.handle
    | none => m
  let m := match self.destinationBuffer with
    | some buffer => m.release buffer.handle
    | none => m
  m.release self.handle

/-- `brs_ext_initialize_compressor` and `brs_ext_initialize_decompressor`.  What
    the structure had before is overwritten. -/
def initializeObject (getCodecOptions : Hash → Except RubyError θ) (create : σ)
    (setOptions : σ → θ → ExtResult × σ) (defaultDestinationBufferLength : Nat) (m : Memory)
    (self : StreamObject (Coder UInt8 σ ω ρ)) (options : Argument) :
    MethodResult Unit (Coder UInt8 σ ω ρ) :=
  match (do getStringOptions getCodecOptions (← checkHash options) : Except RubyError _) with
  | .error e => (.error e, m, self)
  | .ok options =>
      match createCoder create (setOptions · options.codec) m with
      | (.error e, m) => (.error e, m, self)
      -- The instance exists from here on, so a failed `malloc` has to destroy it.
      | (.ok coder, m) =>
          let destinationBufferLength :=
            orDefault options.destinationBufferLength defaultDestinationBufferLength
          match mallocBuffer m destinationBufferLength with
          | (none, m) =>
              (.error (brsExtRaiseError .allocateFailed), m.release coder.handle, self)
          | (some destinationBuffer, m) =>
              (.ok (), m,
                { self with
                  statePtr := some coder
                  destinationBuffer := some destinationBuffer
                  destinationBufferLength
                  remainingDestinationBuffer := some ⟨destinationBuffer.handle, 0⟩
                  remainingDestinationBufferLength := destinationBufferLength
                  gvl := options.gvl })

/-! ## methods -/

/-- `DO_NOT_USE_AFTER_CLOSE`, and the rest of a method. -/
def unlessClosed {α : Type} (m : Memory) (self : StreamObject κ)
    (rest : κ → Buffer → MethodResult α κ) : MethodResult α κ :=
  match self.statePtr, self.destinationBuffer with
  | some coder, some destinationBuffer => rest coder destinationBuffer
  | _, _ => (.error (brsExtRaiseError .usedAfterClose), m, self)

/-- What a wrapper of a library call works on. -/
structure WrapperArgs (κ : Type) where
  memory : Memory
  self : StreamObject κ
  coder : κ
  remainingSource : List UInt8

/-- One call of the library on the remaining source and on the remaining part of
    the destination buffer. -/
def streamWrapper (codec : Codec UInt8 σ ω ρ) (operation : ω)
    (args : WrapperArgs (Coder UInt8 σ ω ρ)) : WrapperArgs (Coder UInt8 σ ω ρ) × ρ :=
  let room := args.self.remainingDestinationBufferLength
  let answer := codec.stream args.coder.state operation args.remainingSource room
  let coder := codec.call args.coder operation args.remainingSource room
  let memory := args.memory.use args.coder.handle
  ({ memory :=
      match args.self.remainingDestinationBuffer with
      | some p => memory.use p.handle
      | none => memory
     self :=
      { args.self with
        statePtr := some coder
        -- The library writes through the cursor, into whatever it points at.
        destinationBuffer :=
          match args.self.destinationBuffer, args.self.remainingDestinationBuffer with
          | some buffer, some p => some (buffer.write p answer.output)
          | buffer, _ => buffer
        remainingDestinationBuffer :=
          args.self.remainingDestinationBuffer.map (·.advance answer.output.length)
        remainingDestinationBufferLength := room - answer.output.length }
     coder
     remainingSource := args.remainingSource.drop answer.consumed },
    answer.result)

/-- What `write`, `flush`, `finish` and `read` share after their checks: call the
    library through its wrapper, raise on failure, and return the number of bytes
    taken and whether more destination is needed. -/
def streamCall (call : LibraryCall σ ω ρ) (source : List UInt8) (m : Memory)
    (self : StreamObject (Coder UInt8 σ ω ρ)) (coder : Coder UInt8 σ ω ρ) :
    MethodResult (Nat × Bool) (Coder UInt8 σ ω ρ) :=
  let (args, result) := gvlWrap self.gvl (streamWrapper call.codec call.operation)
    { memory := m, self, coder, remainingSource := source }
  match call.failure args.coder result with
  | some extResult => (.error (brsExtRaiseError extResult), args.memory, args.self)
  | none =>
      (.ok (source.length - args.remainingSource.length, call.more args.coder.state result),
        args.memory, args.self)

/-- `brs_ext_compressor_read_result` and `brs_ext_decompressor_read_result`.  When
    `rb_str_new` raises, the structure is as it was. -/
def readResult (m : Memory) (self : StreamObject κ) : MethodResult (List UInt8) κ :=
  unlessClosed m self fun _ destinationBuffer =>
    -- The cursor is reset only after the string was made.
    let resultLength := self.destinationBufferLength - self.remainingDestinationBufferLength
    let m := m.use destinationBuffer.handle
    match m.allocateString (destinationBuffer.bytes.take resultLength) with
    | (none, m) => (.error .noMemoryError, m, self)
    | (some resultValue, m) =>
        (.ok resultValue, m,
          { self with
            remainingDestinationBuffer := some ⟨destinationBuffer.handle, 0⟩
            remainingDestinationBufferLength := self.destinationBufferLength })

/-- `brs_ext_compressor_close` and `brs_ext_decompressor_close`. -/
def close (m : Memory) (self : StreamObject (Coder UInt8 σ ω ρ)) :
    MethodResult Unit (Coder UInt8 σ ω ρ) :=
  unlessClosed m self fun coder destinationBuffer =>
    (.ok (), (m.release coder.handle).release destinationBuffer.handle,
      { self with statePtr := none, destinationBuffer := none })

/-! ## An open object -/

/-- The part of the buffer that was written. -/
def filled (o : StreamObject κ) : List UInt8 :=
  match o.destinationBuffer with
  | some buffer =>
      buffer.bytes.take (o.destinationBufferLength - o.remainingDestinationBufferLength)
  | none => []

/-- An instance and a buffer, with the cursor after what was written. -/
structure IsOpen (o : StreamObject κ) (coder : κ) (buffer : Buffer) : Prop where
  statePtr : o.statePtr = some coder
  destinationBuffer : o.destinationBuffer = some buffer
  buffer_length : buffer.bytes.length = o.destinationBufferLength
  remaining_le : o.remainingDestinationBufferLength ≤ o.destinationBufferLength
  cursor : o.remainingDestinationBuffer = some ⟨buffer.handle,
    o.destinationBufferLength - o.remainingDestinationBufferLength⟩

section IsOpen

variable {o : StreamObject κ} {coder : κ} {buffer : Buffer} (h : o.IsOpen coder buffer)

include h

theorem IsOpen.filled_eq : o.filled =
    buffer.bytes.take (o.destinationBufferLength - o.remainingDestinationBufferLength) := by
  simp only [filled, h.destinationBuffer]

/-- What is left of the buffer. -/
theorem IsOpen.remaining_eq : o.remainingDestinationBufferLength =
    o.destinationBufferLength - o.filled.length := by
  have hlength := h.buffer_length
  have hremaining := h.remaining_le
  rw [h.filled_eq, List.length_take]
  omega

/-- An open object is not closed. -/
theorem IsOpen.unlessClosed {α : Type} (m : Memory) (rest : κ → Buffer → MethodResult α κ) :
    o.unlessClosed m rest = rest coder buffer := by
  simp only [StreamObject.unlessClosed, h.statePtr, h.destinationBuffer]

/-- Reading the result gives what was written and empties the buffer, or raises
    and leaves everything as it was. -/
theorem IsOpen.readResult (m : Memory) :
    (¬ m.Faultless ∧ ∃ m', o.readResult m = (.error .noMemoryError, m', o)) ∨
    ∃ m' o', o.readResult m = (.ok o.filled, m', o') ∧ (m.Faultless → m'.Faultless) ∧
      o'.IsOpen coder buffer ∧ o'.filled = [] ∧
      o'.destinationBufferLength = o.destinationBufferLength := by
  have hcases := (m.use buffer.handle).allocateString_cases o.filled
  rcases hallocate : (m.use buffer.handle).allocateString o.filled with ⟨value, m'⟩
  rw [hallocate] at hcases
  rw [h.filled_eq] at hallocate
  unfold StreamObject.readResult
  rw [h.unlessClosed]
  -- The result is copied to a new string, and that is the only way to fail.
  rcases hcases with ⟨hfault, heq⟩ | heq
  · left
    obtain ⟨rfl, -⟩ := Prod.mk.inj heq
    exact ⟨fun hm => hfault (hm.use _), m', by simp only [hallocate]⟩
  · right
    obtain ⟨rfl, hm'⟩ := Prod.mk.inj heq
    refine ⟨m', { o with
      remainingDestinationBuffer := some ⟨buffer.handle, 0⟩
      remainingDestinationBufferLength := o.destinationBufferLength }, ?_, ?_, ?_, ?_, rfl⟩
    · simp only [hallocate]
    · exact fun hm => hm' ▸ (hm.use _).step
    · exact ⟨h.statePtr, h.destinationBuffer, h.buffer_length, le_refl _, by simp⟩
    · simp [filled, h.destinationBuffer]

end IsOpen

section Initialize

variable {getCodecOptions : Hash → Except RubyError θ} {create : σ}
  {setOptions : σ → θ → ExtResult × σ} {defaultLength : Nat} {m : Memory} {hash : Hash}
  {read : StringOptions θ} {s : σ} (hread : getStringOptions getCodecOptions hash = .ok read)
  (hset : setOptions create read.codec = (.ok, s))

include hread hset

/-- A successful initialization leaves an object with a new instance and an empty
    buffer. -/
theorem initializeObject_ok {m' : Memory} {o o' : StreamObject (Coder UInt8 σ ω ρ)}
    (h : o.initializeObject getCodecOptions create setOptions defaultLength m (.hash hash) =
      (.ok (), m', o')) :
    ∃ handle buffer, o'.IsOpen ⟨handle, s, []⟩ buffer ∧ o'.filled = [] ∧
      o'.destinationBufferLength = orDefault read.destinationBufferLength defaultLength := by
  have hprepare : (do getStringOptions getCodecOptions (← checkHash (.hash hash)) :
      Except RubyError _) = .ok read := hread
  rw [initializeObject, hprepare] at h
  rcases createCoder_cases (ω := ω) (ρ := ρ) create (setOptions · read.codec) m with
    ⟨e, m₁, hcoder⟩ | ⟨handle, s', m₁, hset', hcoder⟩
  · simp only [hcoder] at h
    cases h
  · obtain rfl : s' = s := (Prod.mk.inj (hset'.symm.trans hset)).2
    rcases mallocBuffer_cases m₁ (orDefault read.destinationBufferLength defaultLength) with
      ⟨-, m₂, hbuffer⟩ | ⟨buffer, m₂, hbuffer, hlength, -⟩
    · simp only [hcoder, hbuffer] at h
      cases h
    · simp only [hcoder, hbuffer] at h
      obtain ⟨-, rfl⟩ := Prod.mk.inj (Prod.mk.inj h).2
      refine ⟨handle, buffer, ⟨rfl, rfl, hlength, le_refl _, ?_⟩, ?_, rfl⟩
      · simp only [Nat.sub_self]
      · simp only [filled, Nat.sub_self, List.take_zero]

/-- Without allocation faults the initialization is successful. -/
theorem initializeObject_run (hm : m.Faultless) (o : StreamObject (Coder UInt8 σ ω ρ)) :
    ∃ m' o', o.initializeObject getCodecOptions create setOptions defaultLength m (.hash hash) =
      (.ok (), m', o') ∧ m'.Faultless := by
  have hprepare : (do getStringOptions getCodecOptions (← checkHash (.hash hash)) :
      Except RubyError _) = .ok read := hread
  obtain ⟨handle, m₁, hcoder, hm₁⟩ := createCoder_faultless (ω := ω) (ρ := ρ)
    (setOptions · read.codec) hm hset
  rcases mallocBuffer_cases m₁ (orDefault read.destinationBufferLength defaultLength) with
    ⟨hfault, -⟩ | ⟨buffer, m₂, hbuffer, -, hm₂⟩
  · exact absurd hm₁ hfault
  · rw [initializeObject, hprepare]
    simp only [hcoder, hbuffer]
    exact ⟨m₂, _, rfl, hm₂ hm₁⟩

end Initialize

/-- A library call appends to what was written. -/
theorem IsOpen.streamCall {o : StreamObject (Coder UInt8 σ ω ρ)} {coder : Coder UInt8 σ ω ρ}
    {buffer : Buffer} (h : o.IsOpen coder buffer) (call : LibraryCall σ ω ρ)
    (source : List UInt8) (m : Memory) {answer : Answer UInt8 σ ρ}
    (hanswer : call.codec.stream coder.state call.operation source
      (o.destinationBufferLength - o.filled.length) = answer) :
    ∃ m' o' buffer',
      o.streamCall call source m coder =
        (match call.failure (call.codec.call coder call.operation source
            (o.destinationBufferLength - o.filled.length)) answer.result with
          | some extResult => .error (brsExtRaiseError extResult)
          | none => .ok (answer.consumed, call.more answer.state answer.result), m', o') ∧
      (m.Faultless → m'.Faultless) ∧
      o'.IsOpen (call.codec.call coder call.operation source
        (o.destinationBufferLength - o.filled.length)) buffer' ∧
      o'.filled = o.filled ++ answer.output ∧
      o'.destinationBufferLength = o.destinationBufferLength := by
  have hfilled := h.filled_eq
  have hremaining := h.remaining_le
  have hlength := h.buffer_length
  rw [← h.remaining_eq] at hanswer ⊢
  have hconsumed := call.codec.consumed_le coder.state call.operation source
    o.remainingDestinationBufferLength
  have houtput := call.codec.output_le coder.state call.operation source
    o.remainingDestinationBufferLength
  rw [hanswer] at hconsumed houtput
  have hwritten : o.destinationBufferLength -
      (o.remainingDestinationBufferLength - answer.output.length) =
        o.destinationBufferLength - o.remainingDestinationBufferLength +
          answer.output.length := by omega
  have hfits : o.destinationBufferLength - o.remainingDestinationBufferLength +
      answer.output.length ≤ buffer.bytes.length := by omega
  -- The bytes lie at the cursor, right after what was written before.
  let buffer' : Buffer := { buffer with
    bytes := overwrite buffer.bytes
      (o.destinationBufferLength - o.remainingDestinationBufferLength) answer.output }
  let o' : StreamObject (Coder UInt8 σ ω ρ) := { o with
    statePtr :=
      some (call.codec.call coder call.operation source o.remainingDestinationBufferLength)
    destinationBuffer := some buffer'
    remainingDestinationBuffer := some ⟨buffer.handle,
      o.destinationBufferLength - o.remainingDestinationBufferLength + answer.output.length⟩
    remainingDestinationBufferLength :=
      o.remainingDestinationBufferLength - answer.output.length }
  refine ⟨(m.use coder.handle).use buffer.handle, o', buffer', ?_,
    fun hm => (hm.use _).use _, ?_, ?_, rfl⟩
  · have hcount : source.length - (source.drop answer.consumed).length = answer.consumed := by
      rw [List.length_drop]
      omega
    simp only [StreamObject.streamCall, gvlWrap_eq, streamWrapper, hanswer, h.cursor,
      h.destinationBuffer, Buffer.write, if_true, Option.map_some, Pointer.advance, hcount,
      Codec.call_state]
    split <;> rfl
  · refine ⟨rfl, rfl, ?_, ?_, ?_⟩
    · show (overwrite _ _ _).length = _
      rw [overwrite_length hfits, hlength]
    · show o.remainingDestinationBufferLength - answer.output.length ≤ o.destinationBufferLength
      omega
    · show some (Pointer.mk _ _) = some (Pointer.mk _ _)
      rw [hwritten]
  · rw [hfilled]
    show (overwrite _ _ _).take _ = _
    rw [hwritten]
    exact take_overwrite (by omega)

end StreamObject

end RubyBrs
