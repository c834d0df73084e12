/-
  RubyBrs.Ext.StreamLifecycle

  A native streaming object from its allocation to `free_compressor` or
  `free_decompressor`, with any calls of its methods in between.

  Between two calls the object has both an instance and a buffer or neither of
  them (`Owns`): the first after a successful initialization, the second before
  it and after `close`.  Every method keeps that (`Respects`), so it holds at any
  time of any life, and what the methods release and use is always live.
-/

import RubyBrs.Ext.Ledger
import RubyBrs.Ext.StreamCompressor
import RubyBrs.Ext.StreamDecompressor

namespace RubyBrs

open StreamCodec

variable {σ τ κ χ ω ρ θ : Type}

/-! ## Lives -/

/-- What a method is for. -/
inductive Role where
  | opens
  | uses
  | closes
deriving Repr, DecidableEq

/-- An object between two calls, and whether it is in use: whether, of its
    successful initializations and closings, the last one was an initialization. -/
structure LifeState (κ : Type) where
  memory : Memory
  self : StreamObject κ
  inUse : Bool

/-- Is the object in use after a call that was left like this? -/
def Role.inUseAfter (role : Role) (outcome : Except RubyError Unit) (inUse : Bool) : Bool :=
  match role, outcome with
  | .opens, .ok () => true
  | .closes, .ok () => false
  | _, _ => inUse

/-- What a method returns. -/
inductive Reply where
  | nil
  | count (bytes : Nat) (needsMoreDestination : Bool)
  | flag (needsMoreDestination : Bool)
  | string (value : List UInt8)
deriving Repr, DecidableEq

/-- What Ruby calls of a native class; `χ` are the calls of its methods. -/
structure NativeClass (χ κ : Type) where
  allocate : Memory → Except RubyError (StreamObject κ) × Memory
  role : χ → Role
  invoke : χ → Memory → StreamObject κ → MethodResult Reply κ
  free : Memory → StreamObject κ → Memory

namespace NativeClass

/-- A call, but for what it returns. -/
def perform (C : NativeClass χ κ) (call : χ) (m : Memory) (self : StreamObject κ) :
    MethodResult Unit κ :=
  (C.invoke call m self).map fun _ => ()

def step (C : NativeClass χ κ) (s : LifeState κ) (call : χ) : LifeState κ :=
  let (outcome, memory, self) := C.perform call s.memory s.self
  { memory, self, inUse := (C.role call).inUseAfter outcome s.inUse }

/-- Make some calls of methods, one after the other, whether they raise or not. -/
def run (C : NativeClass χ κ) (calls : List χ) (s : LifeState κ) : LifeState κ :=
  calls.foldl C.step s

end NativeClass

inductive CompressorCall where
  | initializeCompressor (options : Argument)
  | compress (sourceValue : Argument)
  | flushCompressor
  | finishCompressor
  | readResult
  | close

/-- `NativeCompressor`.  The library may answer every call differently, so each
    comes with an encoder of its own. -/
def nativeCompressor : NativeClass (Encoder σ × CompressorCall) (EncoderInstance σ) where
  allocate := brsExtAllocateCompressor
  role
    | (_, .initializeCompressor _) => .opens
    | (_, .close) => .closes
    | _ => .uses
  invoke
    | (enc, .initializeCompressor options), m, self =>
        (brsExtInitializeCompressor enc m self options).map fun _ => .nil
    | (enc, .compress sourceValue), m, self =>
        (brsExtCompress enc m self sourceValue).map fun value => .count value.1 value.2
    | (enc, .flushCompressor), m, self => (brsExtFlushCompressor enc m self).map .flag
    | (enc, .finishCompressor), m, self => (brsExtFinishCompressor enc m self).map .flag
    | (_, .readResult), m, self => (brsExtCompressorReadResult m self).map .string
    | (_, .close), m, self => (brsExtCompressorClose m self).map fun _ => .nil
  free := freeCompressor

inductive DecompressorCall where
  | initializeDecompressor (options : Argument)
  | decompress (sourceValue : Argument)
  | readResult
  | close

/-- `NativeDecompressor`. -/
def nativeDecompressor : NativeClass (Decoder σ × DecompressorCall) (DecoderInstance σ) where
  allocate := brsExtAllocateDecompressor
  role
    | (_, .initializeDecompressor _) => .opens
    | (_, .close) => .closes
    | _ => .uses
  invoke
    | (dec, .initializeDecompressor options), m, self =>
        (brsExtInitializeDecompressor dec m self options).map fun _ => .nil
    | (dec, .decompress sourceValue), m, self =>
        (brsExtDecompress dec m self sourceValue).map fun value => .count value.1 value.2
    | (_, .readResult), m, self => (brsExtDecompressorReadResult m self).map .string
    | (_, .close), m, self => (brsExtDecompressorClose m self).map fun _ => .nil
  free := freeDecompressor

/-! ## What an object owns -/

namespace Memory.Holds

variable {m m₁ m₂ : Memory} {handles handles' : List Nat}

theorem trans (h : m.Holds handles m₁) (h' : m₁.Holds handles' m₂) :
    m.Holds (handles' ++ handles) m₂ := by
  refine ⟨?_, h'.misuses.trans h.misuses⟩
  rw [h'.live, h.live, List.append_assoc]

/-- What is held can be used. -/
theorem use_eq {handle : Nat} (h : m.Holds handles m₁) (hheld : handle ∈ handles) :
    m₁.use handle = m₁ := by
  have hlive : handle ∈ m₁.live := by
    rw [h.live]
    exact List.mem_append_left _ hheld
  rw [Memory.use, if_pos hlive]

end Memory.Holds

namespace StreamObject

/-- What an object owns while it is in use, and while it is not, besides what was
    in the ledger before it was allocated: `others` are its structure and what
    former initializations left. -/
inductive Owns (m₀ m : Memory) (o : StreamObject (Coder UInt8 σ ω ρ)) : Bool → Prop
  | closed {others : List Nat} (hstate : o.statePtr = none) (hbuffer : o.destinationBuffer = none)
      (hself : o.handle ∈ others) (hm : m₀.Holds others m) : Owns m₀ m o false
  | opened {others : List Nat} {coder : Coder UInt8 σ ω ρ} {buffer : Buffer}
      (hopen : o.IsOpen coder buffer) (hself : o.handle ∈ others)
      (hm : m₀.Holds (buffer.handle :: coder.handle :: others) m) : Owns m₀ m o true

section Owns

variable {m₀ m m' : Memory} {o : StreamObject (Coder UInt8 σ ω ρ)} {inUse : Bool}

theorem allocate_owns (h : allocate m₀ = (.ok o, m)) : o.Owns m₀ m false := by
  rcases hallocate : m₀.allocate with ⟨_ | handle, m₁⟩
  · simp only [allocate, hallocate] at h
    cases h
  · simp only [allocate, hallocate] at h
    obtain ⟨ho, rfl⟩ := Prod.mk.inj h
    obtain rfl := Except.ok.inj ho
    exact .closed rfl rfl List.mem_cons_self ((Memory.Holds.refl m₀).allocate_some hallocate)

/-- Nothing was created or released. -/
theorem Owns.holds (h : o.Owns m₀ m inUse) (hm' : m.Holds [] m') : o.Owns m₀ m' inUse := by
  cases h with
  | closed hstate hbuffer hself hm => exact .closed hstate hbuffer hself (hm.trans hm')
  | opened hopen hself hm => exact .opened hopen hself (hm.trans hm')

theorem Owns.misuses (h : o.Owns m₀ m inUse) : m.misuses = m₀.misuses := by
  cases h with
  | closed _ _ _ hm => exact hm.misuses
  | opened _ _ hm => exact hm.misuses

/-- All that is freed in the end is live. -/
theorem Owns.free (h : o.Owns m₀ m inUse) : (o.free m).misuses = m₀.misuses := by
  cases h with
  | closed hstate hbuffer hself hm =>
      simp only [StreamObject.free, hstate, hbuffer]
      exact (hm.release hself).misuses
  | opened hopen hself hm =>
      simp only [StreamObject.free, hopen.statePtr, hopen.destinationBuffer]
      exact (hm.release_second.release_head.release hself).misuses

end Owns

end StreamObject

/-! ## What the methods keep -/

/-- What a method does with an object at any time of its life. -/
structure Respects (role : Role)
    (method : Memory → StreamObject (Coder UInt8 σ ω ρ) → MethodResult Unit (Coder UInt8 σ ω ρ)) :
    Prop where
  owns : ∀ {m₀ m o inUse}, o.Owns m₀ m inUse →
    (method m o).2.2.Owns m₀ (method m o).2.1 (role.inUseAfter (method m o).1 inUse)
  usedAfterClose_iff : role ≠ .opens → ∀ {m₀ m o inUse}, o.Owns m₀ m inUse →
    ((method m o).1 = .error (brsExtRaiseError .usedAfterClose) ↔ inUse = false)
  failed : role = .opens → ∀ {m o m' o' e}, method m o = (.error e, m', o') →
    o' = o ∧ m.Holds [] m'

/-- What a method returns makes no difference. -/
theorem Respects.map {role : Role} {α β : Type}
    {method : Memory → StreamObject (Coder UInt8 σ ω ρ) → MethodResult α (Coder UInt8 σ ω ρ)}
    (h : Respects role fun m o => (method m o).map fun _ => ()) (f : α → β) :
    Respects role fun m o => ((method m o).map f).map fun _ => () := by
  have heq : (fun m o => ((method m o).map f).map fun _ => ()) =
      fun m o => (method m o).map fun _ => () :=
    funext fun m => funext fun o => MethodResult.map_map _ _ _
  rw [heq]
  exact h

/-- No other error of the library is reported in the words of this one. -/
theorem brsExtRaiseError_usedAfterClose {extResult : ExtResult}
    (h : brsExtRaiseError extResult = brsExtRaiseError .usedAfterClose) :
    extResult = .usedAfterClose := by
  cases extResult <;> simp [brsExtRaiseError] at h ⊢

namespace StreamObject

section Closed

variable {m₀ m : Memory} {o : StreamObject (Coder UInt8 σ ω ρ)}

theorem unlessClosed_of_none {α : Type} (hstate : o.statePtr = none) (m : Memory)
    (rest : Coder UInt8 σ ω ρ → Buffer → MethodResult α (Coder UInt8 σ ω ρ)) :
    o.unlessClosed m rest = (.error (brsExtRaiseError .usedAfterClose), m, o) := by
  simp only [unlessClosed, hstate]

/-- A method that begins with the check, given what it does behind it. -/
theorem respects_unlessClosed {role : Role} {α : Type} (hrole : role ≠ .opens) {f : α → Unit}
    {rest : Memory → StreamObject (Coder UInt8 σ ω ρ) → Coder UInt8 σ ω ρ → Buffer →
      MethodResult α (Coder UInt8 σ ω ρ)}
    (hrest : ∀ {m₀ m o others coder buffer}, o.IsOpen coder buffer → o.handle ∈ others →
      m₀.Holds (buffer.handle :: coder.handle :: others) m →
      ∃ outcome m' o', rest m o coder buffer = (outcome, m', o') ∧
        o'.Owns m₀ m' (role.inUseAfter (outcome.map f) true) ∧
        outcome.map f ≠ .error (brsExtRaiseError .usedAfterClose)) :
    Respects role fun m o => (o.unlessClosed m (rest m o)).map f where
  owns {m₀ m o inUse} h := by
    cases h with
    | closed hstate hbuffer hself hm =>
        rw [unlessClosed_of_none hstate]
        cases role <;> exact .closed hstate hbuffer hself hm
    | opened hopen hself hm =>
        obtain ⟨outcome, m', o', heq, howns, -⟩ := hrest hopen hself hm
        rw [hopen.unlessClosed, heq]
        exact howns
  usedAfterClose_iff _ {m₀ m o inUse} h := by
    cases h with
    | closed hstate hbuffer hself hm =>
        rw [unlessClosed_of_none hstate]
        exact iff_of_true rfl rfl
    | opened hopen hself hm =>
        obtain ⟨outcome, m', o', heq, -, hne⟩ := hrest hopen hself hm
        rw [hopen.unlessClosed, heq]
        exact iff_of_false hne (by simp)
  failed h := absurd h hrole

end Closed

/-- A library call works on the instance and the buffer of the object. -/
theorem streamCall_keeps {call : LibraryCall σ ω ρ}
    (hfailure : ∀ i r extResult, call.failure i r = some extResult →
      extResult ≠ .usedAfterClose)
    {m₀ m : Memory} {o : StreamObject (Coder UInt8 σ ω ρ)} {others : List Nat}
    {coder : Coder UInt8 σ ω ρ} {buffer : Buffer} (hopen : o.IsOpen coder buffer)
    (hself : o.handle ∈ others) (hm : m₀.Holds (buffer.handle :: coder.handle :: others) m)
    (source : List UInt8) :
    ∃ outcome m' o', o.streamCall call source m coder = (outcome, m', o') ∧
      o'.Owns m₀ m' true ∧
      ∀ e, outcome = .error e → e ≠ brsExtRaiseError .usedAfterClose := by
  obtain ⟨m', o', buffer', heq, -, hopen', -, -⟩ :=
    hopen.streamCall call source m rfl
  -- The handles stay as they are, so the memory does not record any misuse.
  have hused : (o.streamCall call source m coder).2.1 = m := by
    have hcoder : m.use coder.handle = m := hm.use_eq (by simp)
    have hbuffer : m.use buffer.handle = m := hm.use_eq (by simp)
    simp only [StreamObject.streamCall, gvlWrap_eq, streamWrapper, hopen.cursor, hcoder, hbuffer]
    split <;> rfl
  have hhandles : (o.streamCall call source m coder).2.2.handle = o.handle ∧
      (o.streamCall call source m coder).2.2.remainingDestinationBuffer.map Pointer.handle =
        some buffer.handle := by
    simp only [StreamObject.streamCall, gvlWrap_eq, streamWrapper, hopen.cursor]
    split <;> exact ⟨rfl, rfl⟩
  rw [heq] at hused hhandles
  obtain ⟨hhandle, hcursor⟩ := hhandles
  rw [hopen'.cursor] at hcursor
  have hbuffer' : buffer'.handle = buffer.handle := Option.some.inj hcursor
  obtain rfl : m' = m := hused
  refine ⟨_, m', o', heq, .opened hopen' (hhandle ▸ hself) (hbuffer' ▸ hm), ?_⟩
  intro e he hclosed
  split at he
  · rename_i extResult hfails
    rw [← Except.error.inj he] at hclosed
    exact hfailure _ _ _ hfails (brsExtRaiseError_usedAfterClose hclosed)
  · cases he

/-- A library call that is given a string, or raises before it. -/
theorem respects_stringCall (call : LibraryCall σ ω ρ)
    (hfailure : ∀ i r extResult, call.failure i r = some extResult →
      extResult ≠ .usedAfterClose)
    (sourceValue : Argument) :
    Respects .uses fun m (o : StreamObject (Coder UInt8 σ ω ρ)) =>
      (o.unlessClosed m fun coder _ =>
        match checkString sourceValue with
        | .error e => (.error e, m, o)
        | .ok source => o.streamCall call source m coder).map
          fun _ => () := by
  refine respects_unlessClosed (by simp) ?_
  intro m₀ m o others coder buffer hopen hself hm
  cases hsource : checkString sourceValue with
  | error e =>
      have he : e = .typeError := by
        unfold checkString at hsource
        split at hsource
        · cases hsource
        · exact (Except.error.inj hsource).symm
      subst he
      exact ⟨_, m, o, rfl, .opened hopen hself hm, by simp [Except.map, brsExtRaiseError]⟩
  | ok source =>
      obtain ⟨outcome, m', o', heq, howns, hne⟩ :=
        streamCall_keeps hfailure hopen hself hm source
      refine ⟨outcome, m', o', heq, howns, ?_⟩
      cases outcome with
      | error e => exact fun h => hne e rfl (Except.error.inj h)
      | ok value => simp [Except.map]

/-- A library call that is given nothing. -/
theorem respects_emptyCall (call : LibraryCall σ ω ρ)
    (hfailure : ∀ i r extResult, call.failure i r = some extResult →
      extResult ≠ .usedAfterClose) :
    Respects .uses fun m (o : StreamObject (Coder UInt8 σ ω ρ)) =>
      (o.unlessClosed m fun coder _ =>
        (o.streamCall call [] m coder).map Prod.snd).map
          fun _ => () := by
  refine respects_unlessClosed (by simp) ?_
  intro m₀ m o others coder buffer hopen hself hm
  obtain ⟨outcome, m', o', heq, howns, hne⟩ :=
    streamCall_keeps hfailure hopen hself hm []
  refine ⟨outcome.map Prod.snd, m', o', by rw [heq]; rfl, howns, ?_⟩
  cases outcome with
  | error e => exact fun h => hne e rfl (Except.error.inj h)
  | ok value => simp [Except.map]

theorem respects_readResult : Respects .uses
    fun m (o : StreamObject (Coder UInt8 σ ω ρ)) => (o.readResult m).map fun _ => () := by
  refine respects_unlessClosed (by simp) ?_
  intro m₀ m o others coder buffer hopen hself hm
  have hused : m.use buffer.handle = m := hm.use_eq (by simp)
  rw [hused]
  have hm' := hm.allocateString (buffer.bytes.take
    (o.destinationBufferLength - o.remainingDestinationBufferLength))
  rcases hallocate : m.allocateString (buffer.bytes.take
    (o.destinationBufferLength - o.remainingDestinationBufferLength)) with ⟨_ | value, m'⟩
  · rw [hallocate] at hm'
    refine ⟨.error .noMemoryError, m', o, ?_, .opened hopen hself hm', ?_⟩
    · simp only [hallocate]
    · simp [Except.map, brsExtRaiseError]
  · rw [hallocate] at hm'
    refine ⟨.ok value, m', { o with
      remainingDestinationBuffer := some ⟨buffer.handle, 0⟩
      remainingDestinationBufferLength := o.destinationBufferLength }, ?_, ?_, ?_⟩
    · simp only [hallocate]
    · have hopen' : StreamObject.IsOpen
          { o with
            remainingDestinationBuffer := some ⟨buffer.handle, 0⟩
            remainingDestinationBufferLength := o.destinationBufferLength } coder buffer :=
        ⟨hopen.statePtr, hopen.destinationBuffer, hopen.buffer_length, le_refl _, by simp⟩
      exact .opened hopen' hself hm'
    · simp [Except.map]

theorem respects_close : Respects .closes
    fun m (o : StreamObject (Coder UInt8 σ ω ρ)) => (o.close m).map fun _ => () := by
  refine respects_unlessClosed (by simp) ?_
  intro m₀ m o others coder buffer hopen hself hm
  refine ⟨_, _, _, rfl, ?_, by simp [Except.map]⟩
  exact .closed rfl rfl hself hm.release_second.release_head

section Initialize

theorem mallocBuffer_length {m m' : Memory} {length : Nat} {buffer : Buffer}
    (h : mallocBuffer m length = (some buffer, m')) : buffer.bytes.length = length := by
  rcases mallocBuffer_cases m length with ⟨-, m₁, heq⟩ | ⟨buffer', m₁, heq, hlength, -⟩
  · rw [heq] at h
    cases h
  · rw [heq] at h
    rw [← Option.some.inj (Prod.mk.inj h).1, hlength]

variable {getCodecOptions : Hash → Except RubyError θ} {create : σ}
  {setOptions : σ → θ → ExtResult × σ} {defaultLength : Nat} {options : Argument}

/-- An initialization that fails has released what it created, and one that does
    not leaves the object with a new instance and a new buffer. -/
theorem initializeObject_holds (m : Memory) (o : StreamObject (Coder UInt8 σ ω ρ)) :
    (∃ e m', o.initializeObject getCodecOptions create setOptions defaultLength m options =
      (.error e, m', o) ∧ m.Holds [] m') ∨
    ∃ m' o' coder buffer, o.initializeObject getCodecOptions create setOptions defaultLength m
        options = (.ok (), m', o') ∧ o'.IsOpen coder buffer ∧ o'.handle = o.handle ∧
      m.Holds [buffer.handle, coder.handle] m' := by
  have hm := Memory.Holds.refl m
  unfold initializeObject
  split
  · exact Or.inl ⟨_, m, rfl, hm⟩
  · rename_i read hread
    split
    · rename_i hcoder
      exact Or.inl ⟨_, _, rfl, createCoder_failed_holds hm hcoder⟩
    · rename_i coder m₁ hcoder
      have hm₁ := createCoder_holds hm hcoder
      simp only
      split
      · rename_i hbuffer
        exact Or.inl ⟨_, _, rfl, (mallocBuffer_failed_holds hm₁ hbuffer).release_head⟩
      · rename_i buffer m₂ hbuffer
        have hlength := mallocBuffer_length hbuffer
        refine Or.inr ⟨m₂, _, coder, buffer, rfl, ⟨rfl, rfl, hlength, le_refl _, ?_⟩, rfl,
          mallocBuffer_holds hm₁ hbuffer⟩
        simp only [Nat.sub_self]

theorem respects_initializeObject : Respects .opens
    fun m (o : StreamObject (Coder UInt8 σ ω ρ)) =>
      (o.initializeObject getCodecOptions create setOptions defaultLength m options).map
        fun _ => () where
  owns {m₀ m o inUse} h := by
    rcases initializeObject_holds m o with
      ⟨e, m', heq, hm'⟩ | ⟨m', o', coder, buffer, heq, hopen, hhandle, hm'⟩
    · rw [heq]
      exact h.holds hm'
    · rw [heq]
      cases h with
      | closed _ _ hself hm => exact .opened hopen (hhandle ▸ hself) (hm.trans hm')
      -- What the object had before is still live, but no longer its own.
      | opened _ hself hm =>
          refine .opened hopen ?_ (hm.trans hm')
          show o'.handle ∈ _
          rw [hhandle]
          exact List.mem_cons_of_mem _ (List.mem_cons_of_mem _ hself)
  usedAfterClose_iff h := absurd rfl h
  failed _ {m o m' o' e} h := by
    rcases initializeObject_holds m o with
      ⟨e', m'', heq, hm'⟩ | ⟨m'', o'', coder, buffer, heq, -⟩
    · rw [heq] at h
      obtain ⟨-, hrest⟩ := Prod.mk.inj h
      obtain ⟨rfl, rfl⟩ := Prod.mk.inj hrest
      exact ⟨rfl, hm'⟩
    · rw [heq] at h
      cases h

end Initialize

end StreamObject

/-! ## The two classes -/

theorem encoderFailure_ne {i : EncoderInstance σ} {result : Bool} {extResult : ExtResult}
    (h : encoderFailure i result = some extResult) : extResult ≠ .usedAfterClose := by
  rw [(encoderFailure_some h).2]
  decide

theorem decoderFailure_ne {dec : Decoder σ} {i : DecoderInstance σ} {result : DecoderResult}
    {extResult : ExtResult} (h : decoderFailure dec i result = some extResult) :
    extResult ≠ .usedAfterClose := by
  rw [(decoderFailure_some h).2]
  cases dec.getErrorCode i.state <;> decide

theorem nativeCompressor_respects (call : Encoder σ × CompressorCall) :
    Respects (nativeCompressor.role call) (nativeCompressor.perform call) := by
  obtain ⟨enc, call⟩ := call
  have hfailure : ∀ (i : EncoderInstance σ) r extResult, encoderFailure i r = some extResult →
      extResult ≠ .usedAfterClose := fun _ _ _ h => encoderFailure_ne h
  cases call with
  | initializeCompressor options => exact StreamObject.respects_initializeObject.map _
  | compress sourceValue =>
      exact (StreamObject.respects_stringCall (compressCall enc) hfailure sourceValue).map _
  | flushCompressor => exact (StreamObject.respects_emptyCall (flushCall enc) hfailure).map _
  | finishCompressor => exact (StreamObject.respects_emptyCall (finishCall enc) hfailure).map _
  | readResult => exact StreamObject.respects_readResult.map _
  | close => exact StreamObject.respects_close.map _

theorem nativeDecompressor_respects (call : Decoder σ × DecompressorCall) :
    Respects (nativeDecompressor.role call) (nativeDecompressor.perform call) := by
  obtain ⟨dec, call⟩ := call
  have hfailure : ∀ (i : DecoderInstance σ) r extResult,
      decoderFailure dec i r = some extResult → extResult ≠ .usedAfterClose :=
    fun _ _ _ h => decoderFailure_ne h
  cases call with
  | initializeDecompressor options => exact StreamObject.respects_initializeObject.map _
  | decompress sourceValue =>
      exact (StreamObject.respects_stringCall (decompressCall dec) hfailure sourceValue).map _
  | readResult => exact StreamObject.respects_readResult.map _
  | close => exact StreamObject.respects_close.map _

/-! ## Whole lives -/

section Sound

variable {C : NativeClass χ (Coder UInt8 σ ω ρ)} {m₀ : Memory}
  {s : LifeState (Coder UInt8 σ ω ρ)}

/-- What holds between two calls of a life that began in the memory `m₀`. -/
structure NativeClass.Sound (C : NativeClass χ (Coder UInt8 σ ω ρ)) (m₀ : Memory)
    (s : LifeState (Coder UInt8 σ ω ρ)) : Prop where
  null_iff : s.self.statePtr = none ↔ s.self.destinationBuffer = none
  inUse_iff : s.inUse = true ↔ s.self.statePtr ≠ none
  live : ∀ coder buffer, s.self.statePtr = some coder → s.self.destinationBuffer = some buffer →
    coder.handle ∈ s.memory.live ∧ buffer.handle ∈ s.memory.live ∧
    buffer.bytes.length = s.self.destinationBufferLength ∧
    s.self.remainingDestinationBufferLength ≤ s.self.destinationBufferLength ∧
    s.self.remainingDestinationBuffer = some ⟨buffer.handle,
      s.self.destinationBufferLength - s.self.remainingDestinationBufferLength⟩
  /-- Nothing that was not live was used or released until now. -/
  misuses : s.memory.misuses = m₀.misuses
  /-- Nor will it be if the object is freed now. -/
  free_misuses : (C.free s.memory s.self).misuses = m₀.misuses
  /-- An initialization that fails now changes nothing. -/
  failed : ∀ call, C.role call = .opens → ∀ e m' self',
    C.perform call s.memory s.self = (.error e, m', self') →
      self' = s.self ∧ s.memory.Holds [] m'
  usedAfterClose_iff : ∀ call, C.role call ≠ .opens →
    ((C.perform call s.memory s.self).1 = .error (brsExtRaiseError .usedAfterClose) ↔
      s.inUse = false)

theorem StreamObject.Owns.sound (hC : ∀ call, Respects (C.role call) (C.perform call))
    (hfree : C.free = fun m self => self.free m) (h : s.self.Owns m₀ s.memory s.inUse) :
    C.Sound m₀ s where
  null_iff := by
    generalize s.inUse = inUse at h
    cases h with
    | closed hstate hbuffer _ _ => simp [hstate, hbuffer]
    | opened hopen _ _ => simp [hopen.statePtr, hopen.destinationBuffer]
  inUse_iff := by
    generalize s.inUse = inUse at h ⊢
    cases h with
    | closed hstate _ _ _ => simp [hstate]
    | opened hopen _ _ => simp [hopen.statePtr]
  live coder buffer hcoder hbuffer := by
    generalize s.inUse = inUse at h
    cases h with
    | closed hstate _ _ _ =>
        rw [hstate] at hcoder
        cases hcoder
    | opened hopen hself hm =>
        obtain rfl := Option.some.inj (hcoder.symm.trans hopen.statePtr)
        obtain rfl := Option.some.inj (hbuffer.symm.trans hopen.destinationBuffer)
        rw [hm.live]
        exact ⟨by simp, by simp, hopen.buffer_length, hopen.remaining_le, hopen.cursor⟩
  misuses := h.misuses
  free_misuses := by
    rw [hfree]
    exact h.free
  failed call hrole e m' self' := (hC call).failed hrole
  usedAfterClose_iff call hrole := (hC call).usedAfterClose_iff hrole h

theorem NativeClass.run_owns (hC : ∀ call, Respects (C.role call) (C.perform call))
    (h : s.self.Owns m₀ s.memory s.inUse) (calls : List χ) :
    (C.run calls s).self.Owns m₀ (C.run calls s).memory (C.run calls s).inUse := by
  induction calls generalizing s with
  | nil => exact h
  | cons call rest ih => exact ih ((hC call).owns h)

end Sound

/-- At any time of its life, whatever calls were made, an object of the native
    streaming classes is sound, and so is its end. -/
theorem lifecycle_sound (m₀ : Memory) :
    (∀ (self : Compressor σ) m, nativeCompressor.allocate m₀ = (.ok self, m) →
      ∀ calls, nativeCompressor.Sound m₀ (nativeCompressor.run calls ⟨m, self, false⟩)) ∧
    ∀ (self : Decompressor τ) m, nativeDecompressor.allocate m₀ = (.ok self, m) →
      ∀ calls, nativeDecompressor.Sound m₀ (nativeDecompressor.run calls ⟨m, self, false⟩) := by
  constructor
  · intro self m hallocate calls
    refine StreamObject.Owns.sound nativeCompressor_respects rfl ?_
    apply NativeClass.run_owns nativeCompressor_respects
    exact StreamObject.allocate_owns hallocate
  · intro self m hallocate calls
    refine StreamObject.Owns.sound nativeDecompressor_respects rfl ?_
    apply NativeClass.run_owns nativeDecompressor_respects
    exact StreamObject.allocate_owns hallocate

/-- A compressor that is used too early and closed twice, and a decompressor that
    is initialized twice. -/
theorem lifecycle_sound_misused :
    (∃ (self : Compressor StoredEncoderState) (m : Memory),
      nativeCompressor.allocate .unused = (.ok self, m) ∧
      nativeCompressor.Sound .unused (nativeCompressor.run
        [(storedEncoder, .compress (.value (.string [1]))),
          (storedEncoder, .initializeCompressor (.hash oneByteOptions)),
          (storedEncoder, .compress (.value (.string [1]))), (storedEncoder, .readResult),
          (storedEncoder, .close), (storedEncoder, .close)] ⟨m, self, false⟩)) ∧
    ∃ (self : Decompressor (List UInt8 × Nat)) (m : Memory),
      nativeDecompressor.allocate .unused = (.ok self, m) ∧
      nativeDecompressor.Sound .unused (nativeDecompressor.run
        [(formatDecoder storedFormat id, .initializeDecompressor (.hash oneByteOptions)),
          (formatDecoder storedFormat id, .initializeDecompressor (.hash oneByteOptions)),
          (formatDecoder storedFormat id, .decompress (.value (.string [0x3b])))]
        ⟨m, self, false⟩) := by
  obtain ⟨hcompressor, hdecompressor⟩ :=
    lifecycle_sound (σ := StoredEncoderState) (τ := List UInt8 × Nat) .unused
  exact ⟨⟨_, _, rfl, hcompressor _ _ rfl _⟩, _, _, rfl, hdecompressor _ _ rfl _⟩

end RubyBrs
