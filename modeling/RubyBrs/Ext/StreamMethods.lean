/-
  RubyBrs.Ext.StreamMethods

  The methods of the native streaming classes: what each of them returns, and what
  it does to the handles of its object and to the ledger.

  A method initializes the object, calls the library, reads the result or closes the
  object, and both classes are made of methods of these four kinds: what such a method
  returns, and what it leaves, is what the function of the extension returns and leaves
  (`NativeClass.Made`).  Between two calls an object is at rest with the handles that
  are its own (`Rests`), and a call creates a pair of them, releases a pair or leaves
  them as they are (`perform_effect`).
-/

import RubyBrs.Ext.StreamLifecycle

namespace RubyBrs

open StreamCodec

variable {σ τ κ χ ω ρ θ : Type}

/-! ## Memory -/

/-- The live handles are distinct, and all of them were given out. -/
structure Memory.WellFormed (m : Memory) : Prop where
  nodup : m.live.Nodup
  given : ∀ handle ∈ m.live, handle < m.next

namespace Memory.WellFormed

variable {m : Memory}

theorem unused : Memory.unused.WellFormed where
  nodup := List.nodup_nil
  given _ h := nomatch h

theorem allocate (h : m.WellFormed) : m.allocate.2.WellFormed := by
  rcases m.allocate_cases with ⟨-, heq⟩ | heq
  · rw [heq]
    exact ⟨h.nodup, fun handle hlive => Nat.lt_succ_of_lt (h.given handle hlive)⟩
  · rw [heq]
    refine ⟨List.nodup_cons.mpr ⟨fun hlive => ?_, h.nodup⟩, fun handle hlive => ?_⟩
    · exact absurd (h.given _ hlive) (Nat.lt_irrefl _)
    · rcases List.mem_cons.mp hlive with rfl | hlive
      · exact Nat.lt_succ_self _
      · exact Nat.lt_succ_of_lt (h.given handle hlive)

theorem allocateString (h : m.WellFormed) (bytes : List UInt8) :
    (m.allocateString bytes).2.WellFormed := by
  rcases m.allocateString_cases bytes with ⟨-, heq⟩ | heq
  · rw [heq]
    exact ⟨h.nodup, fun handle hlive => Nat.lt_succ_of_lt (h.given handle hlive)⟩
  · rw [heq]
    exact ⟨h.nodup, fun handle hlive => Nat.lt_succ_of_lt (h.given handle hlive)⟩

theorem release (h : m.WellFormed) (handle : Nat) : (m.release handle).WellFormed := by
  unfold Memory.release
  split
  · exact ⟨h.nodup.erase handle, fun other hlive => h.given other (List.mem_of_mem_erase hlive)⟩
  · exact ⟨h.nodup, h.given⟩

theorem createCoder (h : m.WellFormed) (create : σ) (setOptions : σ → ExtResult × σ) :
    (RubyBrs.createCoder create setOptions m :
      Except RubyError (Coder UInt8 σ ω ρ) × Memory).2.WellFormed := by
  have hallocated := h.allocate
  unfold RubyBrs.createCoder
  split
  · rename_i m₁ heq
    rw [heq] at hallocated
    exact hallocated
  · rename_i handle m₁ heq
    rw [heq] at hallocated
    split
    · exact hallocated
    · exact hallocated.release handle

theorem mallocBuffer (h : m.WellFormed) (length : Nat) :
    (RubyBrs.mallocBuffer m length).2.WellFormed := h.allocate

end Memory.WellFormed

/-! ## Methods -/

section Initialize

variable {getCodecOptions : Hash → Except RubyError θ} {create : σ}
  {setOptions : σ → θ → ExtResult × σ} {defaultLength : Nat} {options : Argument}

/-- A new instance and a new buffer have no history. -/
theorem StreamObject.initializeObject_fresh {m m' : Memory}
    {o o' : StreamObject (Coder UInt8 σ ω ρ)}
    (h : o.initializeObject getCodecOptions create setOptions defaultLength m options =
      (.ok (), m', o')) :
    o'.filled = [] ∧ ∀ coder, o'.statePtr = some coder → coder.calls = [] := by
  unfold StreamObject.initializeObject at h
  split at h
  · cases h
  · rename_i read hread
    rcases createCoder_cases (ω := ω) (ρ := ρ) create (setOptions · read.codec) m with
      ⟨e, m₁, hcoder⟩ | ⟨handle, s, m₁, -, hcoder⟩
    · simp only [hcoder] at h
      cases h
    · simp only [hcoder] at h
      split at h
      · cases h
      · obtain ⟨-, rfl⟩ := Prod.mk.inj (Prod.mk.inj h).2
        refine ⟨by simp [StreamObject.filled], fun coder hcoder' => ?_⟩
        obtain rfl := Option.some.inj hcoder'
        rfl

theorem StreamObject.initializeObject_wellFormed {m : Memory}
    (o : StreamObject (Coder UInt8 σ ω ρ)) (hm : m.WellFormed) :
    (o.initializeObject getCodecOptions create setOptions defaultLength m
      options).2.1.WellFormed := by
  unfold StreamObject.initializeObject
  split
  · exact hm
  · rename_i read _
    have hcreated := hm.createCoder (ω := ω) (ρ := ρ) create (setOptions · read.codec)
    split
    · rename_i heq
      rw [heq] at hcreated
      exact hcreated
    · rename_i coder m₁ heq
      rw [heq] at hcreated
      have hmalloced := hcreated.mallocBuffer
        (orDefault read.destinationBufferLength defaultLength)
      simp only
      split
      · rename_i heq'
        rw [heq'] at hmalloced
        exact hmalloced.release coder.handle
      · rename_i heq'
        rw [heq'] at hmalloced
        exact hmalloced

end Initialize

/-- An `initialize` with its arguments. -/
structure Initializer (σ ω ρ : Type) where
  run : Memory → StreamObject (Coder UInt8 σ ω ρ) → MethodResult Unit (Coder UInt8 σ ω ρ)
  /-- It leaves everything as it was, or a new instance and a new buffer. -/
  holds : ∀ m o, (∃ e m', run m o = (.error e, m', o) ∧ m.Holds [] m') ∨
    ∃ m' o' coder buffer, run m o = (.ok (), m', o') ∧ o'.IsOpen coder buffer ∧
      o'.handle = o.handle ∧ m.Holds [buffer.handle, coder.handle] m'
  /-- The instance has not been called, and nothing is in the buffer. -/
  fresh : ∀ {m o m' o'}, run m o = (.ok (), m', o') →
    o'.filled = [] ∧ ∀ coder, o'.statePtr = some coder → coder.calls = []
  wellFormed : ∀ {m} o, m.WellFormed → (run m o).2.1.WellFormed

/-- `brs_ext_initialize_compressor`. -/
def Initializer.compressor (enc : Encoder σ) (options : Argument) :
    Initializer σ Operation Bool where
  run m o := brsExtInitializeCompressor enc m o options
  holds := StreamObject.initializeObject_holds
  fresh := StreamObject.initializeObject_fresh
  wellFormed := StreamObject.initializeObject_wellFormed

/-- `brs_ext_initialize_decompressor`. -/
def Initializer.decompressor (dec : Decoder σ) (options : Argument) :
    Initializer σ Unit DecoderResult where
  run m o := brsExtInitializeDecompressor dec m o options
  holds := StreamObject.initializeObject_holds
  fresh := StreamObject.initializeObject_fresh
  wellFormed := StreamObject.initializeObject_wellFormed

/-- A method with its arguments; one that calls the library may be given bytes. -/
inductive StreamMethod (σ ω ρ : Type) where
  | initializes (initializer : Initializer σ ω ρ)
  | calls (call : LibraryCall σ ω ρ) (sourceValue : Option Argument)
  | readResult
  | close

namespace StreamMethod

/-- The bytes that a method is given, if it is given any. -/
def checkSource : Option Argument → Except RubyError (List UInt8)
  | none => .ok []
  | some sourceValue => checkString sourceValue

/-- A method that is given bytes returns how many of them were taken. -/
def reply : Option Argument → Nat × Bool → Reply
  | none, (_, more) => .flag more
  | some _, (count, more) => .count count more

def perform : StreamMethod σ ω ρ → Memory → StreamObject (Coder UInt8 σ ω ρ) →
    MethodResult Reply (Coder UInt8 σ ω ρ)
  | .initializes initializer, m, o => (initializer.run m o).map fun _ => .nil
  | .calls call sourceValue, m, o =>
      o.unlessClosed m fun coder _ =>
        match checkSource sourceValue with
        | .error e => (.error e, m, o)
        | .ok source =>
            (o.streamCall call source m coder).map
              (reply sourceValue)
  | .readResult, m, o => (o.readResult m).map .string
  | .close, m, o => (o.close m).map fun _ => .nil

/-- What the method is for. -/
def role : StreamMethod σ ω ρ → Role
  | .initializes _ => .opens
  | .close => .closes
  | _ => .uses

end StreamMethod

/-- The methods of `NativeCompressor`. -/
def nativeCompressorMethod : Encoder σ × CompressorCall → StreamMethod σ Operation Bool
  | (enc, .initializeCompressor options) => .initializes (.compressor enc options)
  | (enc, .compress sourceValue) => .calls (compressCall enc) (some sourceValue)
  | (enc, .flushCompressor) => .calls (flushCall enc) none
  | (enc, .finishCompressor) => .calls (finishCall enc) none
  | (_, .readResult) => .readResult
  | (_, .close) => .close

/-- The methods of `NativeDecompressor`. -/
def nativeDecompressorMethod : Decoder σ × DecompressorCall → StreamMethod σ Unit DecoderResult
  | (dec, .initializeDecompressor options) => .initializes (.decompressor dec options)
  | (dec, .decompress sourceValue) => .calls (decompressCall dec) (some sourceValue)
  | (_, .readResult) => .readResult
  | (_, .close) => .close

/-- The calls of the class are these methods: they return the same, and they do the
    same. -/
structure NativeClass.Made (C : NativeClass χ (Coder UInt8 σ ω ρ))
    (method : χ → StreamMethod σ ω ρ) : Prop where
  invoke : ∀ call m o, (method call).perform m o = C.invoke call m o
  role : ∀ call, (method call).role = C.role call
  free : C.free = fun m o => o.free m

/-- A class that is made of such methods. -/
structure StreamClass (χ σ ω ρ : Type) where
  native : NativeClass χ (Coder UInt8 σ ω ρ)
  method : χ → StreamMethod σ ω ρ
  made : native.Made method

theorem NativeClass.Made.perform {C : NativeClass χ (Coder UInt8 σ ω ρ)}
    {method : χ → StreamMethod σ ω ρ} (h : C.Made method) (call : χ) (m : Memory)
    (o : StreamObject (Coder UInt8 σ ω ρ)) :
    C.perform call m o = ((method call).perform m o).map fun _ => () := by
  rw [NativeClass.perform, h.invoke]

/-- What is done with the outcome of a method can be done behind its check. -/
theorem StreamObject.unlessClosed_map {α β : Type} (f : α → β) (m : Memory) (o : StreamObject κ)
    (rest : κ → Buffer → MethodResult α κ) :
    (o.unlessClosed m rest).map f =
      o.unlessClosed m fun coder buffer => (rest coder buffer).map f := by
  unfold StreamObject.unlessClosed
  split <;> rfl

/-- A method that is given a string returns how much of it was taken. -/
theorem StreamMethod.calls_string (call : LibraryCall σ ω ρ) (sourceValue : Argument)
    (m : Memory) (o : StreamObject (Coder UInt8 σ ω ρ)) :
    (StreamMethod.calls call (some sourceValue)).perform m o =
      (o.unlessClosed m fun coder _ =>
        match checkString sourceValue with
        | .error e => (.error e, m, o)
        | .ok source => o.streamCall call source m coder).map
          fun value => .count value.1 value.2 := by
  rw [StreamObject.unlessClosed_map, StreamMethod.perform, StreamMethod.checkSource]
  congr 1
  funext coder buffer
  cases checkString sourceValue <;> rfl

/-- One that is given nothing returns only whether it needs more destination. -/
theorem StreamMethod.calls_empty (call : LibraryCall σ ω ρ) (m : Memory)
    (o : StreamObject (Coder UInt8 σ ω ρ)) :
    (StreamMethod.calls call none).perform m o =
      (o.unlessClosed m fun coder _ => (o.streamCall call [] m coder).map Prod.snd).map
        .flag := by
  rw [StreamObject.unlessClosed_map, StreamMethod.perform]
  congr 1
  funext coder buffer
  exact (MethodResult.map_map Prod.snd Reply.flag _).symm

theorem nativeCompressor_made :
    NativeClass.Made (nativeCompressor (σ := σ)) nativeCompressorMethod where
  invoke call m o := by
    obtain ⟨enc, call⟩ := call
    cases call with
    | initializeCompressor options => rfl
    | compress sourceValue => exact StreamMethod.calls_string (compressCall enc) sourceValue m o
    | flushCompressor => exact StreamMethod.calls_empty (flushCall enc) m o
    | finishCompressor => exact StreamMethod.calls_empty (finishCall enc) m o
    | readResult => rfl
    | close => rfl
  role := by rintro ⟨enc, call⟩; cases call <;> rfl
  free := rfl

theorem nativeDecompressor_made :
    NativeClass.Made (nativeDecompressor (σ := σ)) nativeDecompressorMethod where
  invoke call m o := by
    obtain ⟨dec, call⟩ := call
    cases call with
    | initializeDecompressor options => rfl
    | decompress sourceValue => exact StreamMethod.calls_string (decompressCall dec) sourceValue m o
    | readResult => rfl
    | close => rfl
  role := by rintro ⟨dec, call⟩; cases call <;> rfl
  free := rfl

/-- `NativeCompressor`. -/
def compressorClass : StreamClass (Encoder σ × CompressorCall) σ Operation Bool :=
  ⟨nativeCompressor, nativeCompressorMethod, nativeCompressor_made⟩

/-- `NativeDecompressor`. -/
def decompressorClass : StreamClass (Decoder σ × DecompressorCall) σ Unit DecoderResult :=
  ⟨nativeDecompressor, nativeDecompressorMethod, nativeDecompressor_made⟩

/-! ## What a call does -/

namespace StreamObject

/-- The handles that are an object's own between two calls, when it is in use and
    when it is not. -/
inductive Rests (o : StreamObject (Coder UInt8 σ ω ρ)) : Bool → List Nat → Prop
  | closed (hstate : o.statePtr = none) (hbuffer : o.destinationBuffer = none) :
      Rests o false [o.handle]
  | opened {coder : Coder UInt8 σ ω ρ} {buffer : Buffer} (hopen : o.IsOpen coder buffer) :
      Rests o true [buffer.handle, coder.handle, o.handle]

theorem Rests.handle_mem {o : StreamObject (Coder UInt8 σ ω ρ)} {inUse : Bool} {hs : List Nat}
    (h : o.Rests inUse hs) : o.handle ∈ hs := by
  cases h <;> simp

theorem Rests.closed_eq {o : StreamObject (Coder UInt8 σ ω ρ)} {hs : List Nat}
    (h : o.Rests false hs) : hs = [o.handle] := by
  generalize hinUse : false = inUse at h
  cases h with
  | closed _ _ => rfl
  | opened _ => cases hinUse

theorem Rests.opened_eq {o : StreamObject (Coder UInt8 σ ω ρ)} {hs : List Nat}
    (h : o.Rests true hs) : ∃ coder buffer, o.IsOpen coder buffer ∧
      hs = [buffer.handle, coder.handle, o.handle] := by
  generalize hinUse : true = inUse at h
  cases h with
  | closed _ _ => cases hinUse
  | @opened coder buffer hopen => exact ⟨coder, buffer, hopen, rfl⟩

/-- The handles that an object has. -/
def handles (o : StreamObject (Coder UInt8 σ ω ρ)) : List Nat :=
  match o.destinationBuffer, o.statePtr with
  | some buffer, some coder => [buffer.handle, coder.handle, o.handle]
  | _, _ => [o.handle]

theorem Rests.handles_eq {o : StreamObject (Coder UInt8 σ ω ρ)} {inUse : Bool} {hs : List Nat}
    (h : o.Rests inUse hs) : o.handles = hs := by
  cases h with
  | closed hstate hbuffer => simp only [handles, hstate, hbuffer]
  | opened hopen => simp only [handles, hopen.statePtr, hopen.destinationBuffer]

/-- A new object is not in use. -/
theorem allocate_rests {m m' : Memory} {o : StreamObject (Coder UInt8 σ ω ρ)}
    (h : allocate m = (.ok o, m')) : o.Rests false [o.handle] ∧ m.Holds [o.handle] m' := by
  rcases hallocate : m.allocate with ⟨_ | handle, m₁⟩
  · simp only [allocate, hallocate] at h
    cases h
  · simp only [allocate, hallocate] at h
    obtain ⟨ho, rfl⟩ := Prod.mk.inj h
    obtain rfl := Except.ok.inj ho
    exact ⟨.closed rfl rfl, (Memory.Holds.refl m).allocate_some hallocate⟩

/-- What a call does to the handles of its object and to the ledger: a successful
    initialization creates a pair, a successful closing releases one, and nothing
    else does either. -/
inductive Effect (handle : Nat) (m m' : Memory) (role : Role) (ok : Bool) :
    List Nat → List Nat → Prop
  | same {hs : List Nat} (hnot : role = .opens → ok = false) (hm : m.Holds [] m') :
      Effect handle m m' role ok hs hs
  | opened {hs : List Nat} {buffer coder : Nat} (hrole : role = .opens) (hok : ok = true)
      (hm : m.Holds [buffer, coder] m') :
      Effect handle m m' role ok hs [buffer, coder, handle]
  | closed {buffer coder : Nat} (hrole : role = .closes)
      (hm : m' = (m.release coder).release buffer) :
      Effect handle m m' role ok [buffer, coder, handle] [handle]

/-- What a library call does apart from the instance and the bytes. -/
theorem IsOpen.streamCall_rest {o : StreamObject (Coder UInt8 σ ω ρ)} {coder : Coder UInt8 σ ω ρ}
    {buffer : Buffer} (hopen : o.IsOpen coder buffer) (call : LibraryCall σ ω ρ)
    (source : List UInt8) (m : Memory) {r : MethodResult (Nat × Bool) (Coder UInt8 σ ω ρ)}
    (hr : o.streamCall call source m coder = r) :
    r.2.1 = (m.use coder.handle).use buffer.handle ∧ r.2.2.handle = o.handle ∧
      r.2.2.gvl = o.gvl ∧
      r.2.2.remainingDestinationBuffer.map Pointer.handle = some buffer.handle := by
  subst hr
  simp only [StreamObject.streamCall, gvlWrap_eq, streamWrapper, hopen.cursor]
  split <;> exact ⟨rfl, rfl, rfl, rfl⟩

/-- A library call on live handles leaves the memory and all handles as they are. -/
theorem IsOpen.streamCall_frame {o : StreamObject (Coder UInt8 σ ω ρ)}
    {coder : Coder UInt8 σ ω ρ} {buffer : Buffer} (hopen : o.IsOpen coder buffer) {m : Memory}
    (hcoder : coder.handle ∈ m.live) (hbuffer : buffer.handle ∈ m.live)
    (call : LibraryCall σ ω ρ) (source : List UInt8) :
    ∃ outcome o' coder' buffer',
      o.streamCall call source m coder =
        (outcome, m, o') ∧
      o'.IsOpen coder' buffer' ∧ coder'.handle = coder.handle ∧ buffer'.handle = buffer.handle ∧
      o'.handle = o.handle := by
  obtain ⟨m', o', buffer', heq, -, hopen', -, -⟩ :=
    hopen.streamCall call source m rfl
  have hused : m.use coder.handle = m ∧ m.use buffer.handle = m :=
    ⟨if_pos hcoder, if_pos hbuffer⟩
  obtain ⟨hmemory, hhandle, -, hcursor⟩ := hopen.streamCall_rest call source m heq
  dsimp only at hmemory hhandle hcursor
  rw [hused.1, hused.2] at hmemory
  subst hmemory
  rw [hopen'.cursor] at hcursor
  exact ⟨_, o', _, buffer', heq, hopen', rfl, Option.some.inj hcursor, hhandle⟩

end StreamObject

namespace StreamMethod

variable {m : Memory} {o : StreamObject (Coder UInt8 σ ω ρ)} {inUse : Bool} {hs : List Nat}

/-- What a method has done when it is left. -/
def Effective (method : StreamMethod σ ω ρ) (m : Memory)
    (o : StreamObject (Coder UInt8 σ ω ρ)) (inUse : Bool) (hs : List Nat)
    (r : MethodResult Reply (Coder UInt8 σ ω ρ)) : Prop :=
  ∃ hs', r.2.2.Rests (method.role.inUseAfter (r.1.map fun _ => ()) inUse) hs' ∧
    r.2.2.handle = o.handle ∧ StreamObject.Effect o.handle m r.2.1 method.role r.1.isOk hs hs' ∧
    (m.WellFormed → r.2.1.WellFormed)

/-- A method that does nothing to an object. -/
theorem Effective.refl (method : StreamMethod σ ω ρ) (m : Memory) (h : o.Rests inUse hs)
    (e : RubyError) : method.Effective m o inUse hs (.error e, m, o) := by
  refine ⟨hs, ?_, rfl, .same (fun _ => rfl) (.refl m), id⟩
  cases method <;> exact h

theorem initializes_effect (initializer : Initializer σ ω ρ) (h : o.Rests inUse hs) :
    (initializes initializer).Effective m o inUse hs
      ((initializes initializer).perform m o) := by
  have hwellFormed : m.WellFormed → ((initializes initializer).perform m o).2.1.WellFormed :=
    initializer.wellFormed o
  rcases initializer.holds m o with
    ⟨e, m', heq, hm'⟩ | ⟨m', o', coder, buffer, heq, hopen, hhandle, hm'⟩
  · rw [perform, heq] at hwellFormed ⊢
    exact ⟨hs, h, rfl, .same (fun _ => rfl) hm', hwellFormed⟩
  · rw [perform, heq] at hwellFormed ⊢
    have hrests := StreamObject.Rests.opened hopen
    rw [hhandle] at hrests
    exact ⟨_, hrests, hhandle, .opened rfl rfl hm', hwellFormed⟩

theorem calls_effect (call : LibraryCall σ ω ρ) (sourceValue : Option Argument)
    (h : o.Rests inUse hs) (hlive : ∀ handle ∈ hs, handle ∈ m.live) :
    (calls call sourceValue).Effective m o inUse hs ((calls call sourceValue).perform m o) := by
  have hrefl := fun e => Effective.refl (calls call sourceValue) m h e
  rw [perform]
  cases h with
  | closed hstate hbuffer =>
      rw [StreamObject.unlessClosed_of_none hstate]
      exact hrefl _
  | @opened coder buffer hopen =>
      rw [hopen.unlessClosed]
      split
      · exact hrefl _
      · rename_i source _
        obtain ⟨outcome, o', coder', buffer', heq, hopen', hcoder, hbuffer, hhandle⟩ :=
          hopen.streamCall_frame (hlive _ (by simp)) (hlive _ (by simp)) call source
        rw [heq]
        have hrests := StreamObject.Rests.opened hopen'
        rw [hcoder, hbuffer, hhandle] at hrests
        exact ⟨_, hrests, hhandle, .same (fun hrole => nomatch hrole) (.refl m), id⟩

theorem readResult_effect (h : o.Rests inUse hs) (hlive : ∀ handle ∈ hs, handle ∈ m.live) :
    (readResult : StreamMethod σ ω ρ).Effective m o inUse hs
      ((readResult : StreamMethod σ ω ρ).perform m o) := by
  have hrefl := fun e => Effective.refl readResult m h e
  rw [perform, StreamObject.readResult]
  cases h with
  | closed hstate hbuffer =>
      rw [StreamObject.unlessClosed_of_none hstate]
      exact hrefl _
  | @opened coder buffer hopen =>
      have hused : m.use buffer.handle = m := if_pos (hlive _ (by simp))
      rw [hopen.unlessClosed]
      simp only [hused]
      have hholds := (Memory.Holds.refl m).allocateString (buffer.bytes.take
        (o.destinationBufferLength - o.remainingDestinationBufferLength))
      have hwellFormed : m.WellFormed → _ := fun hm => hm.allocateString (buffer.bytes.take
        (o.destinationBufferLength - o.remainingDestinationBufferLength))
      rcases hallocate : m.allocateString (buffer.bytes.take
        (o.destinationBufferLength - o.remainingDestinationBufferLength)) with ⟨_ | value, m'⟩
      · rw [hallocate] at hholds hwellFormed
        exact ⟨_, .opened hopen, rfl, .same (fun hrole => nomatch hrole) hholds, hwellFormed⟩
      · rw [hallocate] at hholds hwellFormed
        have hopen' : StreamObject.IsOpen
            { o with
              remainingDestinationBuffer := some ⟨buffer.handle, 0⟩
              remainingDestinationBufferLength := o.destinationBufferLength } coder buffer :=
          ⟨hopen.statePtr, hopen.destinationBuffer, hopen.buffer_length, le_refl _, by simp⟩
        exact ⟨_, .opened hopen', rfl, .same (fun hrole => nomatch hrole) hholds, hwellFormed⟩

theorem close_effect (h : o.Rests inUse hs) :
    (close : StreamMethod σ ω ρ).Effective m o inUse hs
      ((close : StreamMethod σ ω ρ).perform m o) := by
  have hrefl := fun e => Effective.refl close m h e
  rw [perform, StreamObject.close]
  cases h with
  | closed hstate hbuffer =>
      rw [StreamObject.unlessClosed_of_none hstate]
      exact hrefl _
  | @opened coder buffer hopen =>
      rw [hopen.unlessClosed]
      exact ⟨_, .closed rfl rfl, rfl, .closed rfl rfl,
        fun hm => (hm.release coder.handle).release buffer.handle⟩

/-- Every method does one of these things. -/
theorem perform_effect (method : StreamMethod σ ω ρ) (h : o.Rests inUse hs)
    (hlive : ∀ handle ∈ hs, handle ∈ m.live) :
    method.Effective m o inUse hs (method.perform m o) := by
  cases method with
  | initializes initializer => exact initializes_effect initializer h
  | calls call sourceValue => exact calls_effect call sourceValue h hlive
  | readResult => exact readResult_effect h hlive
  | close => exact close_effect h

end StreamMethod

end RubyBrs
