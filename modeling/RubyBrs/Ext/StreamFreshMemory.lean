/-
  RubyBrs.Ext.StreamFreshMemory

  What fresh memory contains is never seen through the streaming objects either, and so
  not at all (`fresh_memory_unseen`).

  A `read_result` copies the buffer as far as the cursor has come, and `initialize` may
  give the object a new buffer at any time.  Two objects are alike when they are open
  with the same written bytes, or neither is open; every method keeps them so and
  answers the same (`StreamMethod.perform_alike`).
-/

import RubyBrs.Ext.FreshMemory
import RubyBrs.Ext.StreamOutlet

namespace RubyBrs

open StreamCodec Window

variable {σ τ χ ω ρ θ : Type}

namespace StreamObject

/-! ## Objects -/

/-- Both are open, with the same instance and the same written bytes. -/
structure OpenAlike (o o' : StreamObject (Coder UInt8 σ ω ρ)) (coder : Coder UInt8 σ ω ρ)
    (buffer buffer' : Buffer) : Prop where
  isOpen : o.IsOpen coder buffer
  isOpen' : o'.IsOpen coder buffer'
  buffer_handle : buffer'.handle = buffer.handle
  filled_eq : o'.filled = o.filled
  length_eq : o'.destinationBufferLength = o.destinationBufferLength
  handle_eq : o'.handle = o.handle
  gvl_eq : o'.gvl = o.gvl

/-- Neither is open, or both are, alike. -/
def Alike (o o' : StreamObject (Coder UInt8 σ ω ρ)) : Prop :=
  (o.statePtr = none ∧ o'.statePtr = none ∧ o'.handle = o.handle) ∨
    ∃ coder buffer buffer', o.OpenAlike o' coder buffer buffer'

theorem OpenAlike.alike {o o' : StreamObject (Coder UInt8 σ ω ρ)} {coder : Coder UInt8 σ ω ρ}
    {buffer buffer' : Buffer} (h : o.OpenAlike o' coder buffer buffer') : o.Alike o' :=
  Or.inr ⟨coder, buffer, buffer', h⟩

/-- Left in the same way, with alike memory and alike objects. -/
def AlikeResult {α : Type} (r r' : MethodResult α (Coder UInt8 σ ω ρ)) : Prop :=
  r'.1 = r.1 ∧ r.2.1.Alike r'.2.1 ∧ r.2.2.Alike r'.2.2

theorem Alike.new (handle : Nat) :
    (new handle : StreamObject (Coder UInt8 σ ω ρ)).Alike (new handle) :=
  Or.inl ⟨rfl, rfl, rfl⟩

theorem Alike.handle_eq {o o' : StreamObject (Coder UInt8 σ ω ρ)} (h : o.Alike o') :
    o'.handle = o.handle := by
  rcases h with ⟨-, -, hhandle⟩ | ⟨_, _, _, hopen⟩
  · exact hhandle
  · exact hopen.handle_eq

theorem AlikeResult.map {α β : Type} {r r' : MethodResult α (Coder UInt8 σ ω ρ)}
    (h : AlikeResult r r') (f : α → β) : AlikeResult (r.map f) (r'.map f) := by
  obtain ⟨hresult, hmemory, hobject⟩ := h
  exact ⟨congrArg (Except.map f) hresult, hmemory, hobject⟩

section Methods

variable {m m' : Memory} {o o' : StreamObject (Coder UInt8 σ ω ρ)} (hm : m.Alike m')
  (h : o.Alike o')

include hm h

/-- A new buffer is open with nothing written. -/
theorem initializeObject_alike {getCodecOptions : Hash → Except RubyError θ} {create : σ}
    {setOptions : σ → θ → ExtResult × σ} {defaultLength : Nat} (options : Argument) :
    AlikeResult
      (o.initializeObject getCodecOptions create setOptions defaultLength m options)
      (o'.initializeObject getCodecOptions create setOptions defaultLength m' options) := by
  unfold StreamObject.initializeObject
  split
  · exact ⟨rfl, hm, h⟩
  · rename_i read _
    obtain ⟨coder, m₁, m₁', heq, heq', h₁⟩ :=
      createCoder_alike (ω := ω) (ρ := ρ) hm create (setOptions · read.codec)
    rw [heq, heq']
    cases coder with
    | error e => exact ⟨rfl, h₁, h⟩
    | ok coder =>
        dsimp only
        generalize orDefault read.destinationBufferLength defaultLength = d
        have hbuffer := mallocBuffer_alike h₁ d
        have hlength := mallocBuffer_cases m₁ d
        generalize mallocBuffer m₁ d = r at hbuffer hlength ⊢
        generalize mallocBuffer m₁' d = r' at hbuffer ⊢
        obtain ⟨buffer, m₂⟩ := r
        obtain ⟨buffer', m₂'⟩ := r'
        obtain ⟨hbuffer, h₂⟩ := hbuffer
        cases hbuffer with
        | none => exact ⟨rfl, h₂.release _, h⟩
        | @some buffer buffer' hbuffer =>
            obtain ⟨hhandle, hbytes⟩ := hbuffer
            rcases hlength with ⟨-, _, heq⟩ | ⟨buffer₀, _, heq, hlength, -⟩
            · cases heq
            · obtain rfl := Option.some.inj (Prod.mk.inj heq).1
              refine ⟨rfl, h₂, Or.inr ⟨coder, buffer, buffer',
                ⟨?_, ?_, hhandle, ?_, rfl, h.handle_eq, rfl⟩⟩⟩
              · exact ⟨rfl, rfl, hlength, le_refl _, by simp only [Nat.sub_self]⟩
              · exact ⟨rfl, rfl, hbytes.length_eq.trans hlength, le_refl _,
                  by simp only [Nat.sub_self]⟩
              · simp only [filled, Nat.sub_self, List.take_zero]

/-- What a method that begins with the check does is up to what is behind it. -/
theorem unlessClosed_alike {α : Type}
    {rest rest' : Coder UInt8 σ ω ρ → Buffer → MethodResult α (Coder UInt8 σ ω ρ)}
    (hrest : ∀ coder buffer buffer', o.OpenAlike o' coder buffer buffer' →
      AlikeResult (rest coder buffer) (rest' coder buffer')) :
    AlikeResult (o.unlessClosed m rest) (o'.unlessClosed m' rest') := by
  have hobjects := h
  rcases h with ⟨hstate, hstate', -⟩ | ⟨coder, buffer, buffer', hopen⟩
  · rw [unlessClosed_of_none hstate, unlessClosed_of_none hstate']
    exact ⟨rfl, hm, hobjects⟩
  · rw [hopen.isOpen.unlessClosed, hopen.isOpen'.unlessClosed]
    exact hrest coder buffer buffer' hopen

theorem readResult_alike : AlikeResult (o.readResult m) (o'.readResult m') := by
  unfold StreamObject.readResult
  refine unlessClosed_alike hm h ?_
  intro coder buffer buffer' hopen
  -- What is copied is what was written.
  have hstring := (hm.use buffer.handle).allocateString (P := Eq) hopen.filled_eq.symm
  rw [hopen.isOpen.filled_eq, hopen.isOpen'.filled_eq] at hstring
  dsimp only
  rw [hopen.buffer_handle]
  generalize (m.use buffer.handle).allocateString _ = r at hstring ⊢
  generalize (m'.use buffer.handle).allocateString _ = r' at hstring ⊢
  obtain ⟨value, m₁⟩ := r
  obtain ⟨value', m₁'⟩ := r'
  obtain ⟨hvalue, h₁⟩ := hstring
  cases hvalue with
  | none => exact ⟨rfl, h₁, hopen.alike⟩
  | some hvalue =>
      refine ⟨by rw [hvalue], h₁, Or.inr ⟨coder, buffer, buffer', ⟨?_, ?_, hopen.buffer_handle,
        ?_, hopen.length_eq, hopen.handle_eq, hopen.gvl_eq⟩⟩⟩
      · exact ⟨hopen.isOpen.statePtr, hopen.isOpen.destinationBuffer,
          hopen.isOpen.buffer_length, le_refl _, by simp only [Nat.sub_self]⟩
      · exact ⟨hopen.isOpen'.statePtr, hopen.isOpen'.destinationBuffer,
          hopen.isOpen'.buffer_length, le_refl _, by simp only [hopen.buffer_handle, Nat.sub_self]⟩
      · simp only [filled, hopen.isOpen.destinationBuffer, hopen.isOpen'.destinationBuffer,
          Nat.sub_self, List.take_zero]

theorem close_alike : AlikeResult (o.close m) (o'.close m') := by
  unfold StreamObject.close
  refine unlessClosed_alike hm h ?_
  intro coder buffer buffer' hopen
  rw [hopen.buffer_handle]
  exact ⟨rfl, (hm.release coder.handle).release buffer.handle,
    Or.inl ⟨rfl, rfl, hopen.handle_eq⟩⟩

end Methods

theorem streamCall_alike {m m' : Memory} {o o' : StreamObject (Coder UInt8 σ ω ρ)}
    {coder : Coder UInt8 σ ω ρ} {buffer buffer' : Buffer} (hm : m.Alike m')
    (hopen : o.OpenAlike o' coder buffer buffer') (call : LibraryCall σ ω ρ)
    (source : List UInt8) :
    AlikeResult
      (o.streamCall call source m coder)
      (o'.streamCall call source m' coder) := by
  have hroom : o'.destinationBufferLength - o'.filled.length =
      o.destinationBufferLength - o.filled.length := by
    rw [hopen.length_eq, hopen.filled_eq]
  obtain ⟨m₁, o₁, buffer₁, heq, -, hopen₁, hfilled, hlength⟩ :=
    hopen.isOpen.streamCall call source m rfl
  obtain ⟨m₁', o₁', buffer₁', heq', -, hopen₁', hfilled', hlength'⟩ :=
    hopen.isOpen'.streamCall call source m' rfl
  obtain ⟨hmemory, hhandle, hgvl, hcursor⟩ := hopen.isOpen.streamCall_rest call source m heq
  obtain ⟨hmemory', hhandle', hgvl', hcursor'⟩ := hopen.isOpen'.streamCall_rest call source m' heq'
  rw [hroom] at heq' hopen₁' hfilled'
  rw [heq, heq']
  dsimp only at hmemory hhandle hgvl hcursor hmemory' hhandle' hgvl' hcursor'
  rw [hopen₁.cursor] at hcursor
  rw [hopen₁'.cursor] at hcursor'
  refine ⟨rfl, ?_, OpenAlike.alike ⟨hopen₁, hopen₁', ?_, ?_, ?_, ?_, ?_⟩⟩
  · dsimp only
    rw [hmemory, hmemory', hopen.buffer_handle]
    exact (hm.use coder.handle).use buffer.handle
  · have hhandles : buffer₁'.handle = buffer'.handle := Option.some.inj hcursor'
    rw [hhandles, hopen.buffer_handle]
    exact (Option.some.inj hcursor).symm
  · rw [hfilled, hfilled', hopen.filled_eq]
  · rw [hlength, hlength', hopen.length_eq]
  · rw [hhandle, hhandle', hopen.handle_eq]
  · rw [hgvl, hgvl', hopen.gvl_eq]

end StreamObject

/-! ## Methods and lives -/

/-- An `initialize` that keeps objects alike. -/
def Initializer.KeepsAlike (initializer : Initializer σ ω ρ) : Prop :=
  ∀ m m' o o', m.Alike m' → o.Alike o' →
    StreamObject.AlikeResult (initializer.run m o) (initializer.run m' o')

namespace StreamMethod

variable {m m' : Memory} {o o' : StreamObject (Coder UInt8 σ ω ρ)}

theorem perform_alike (method : StreamMethod σ ω ρ)
    (hinitializes : ∀ initializer, method = .initializes initializer → initializer.KeepsAlike)
    (hm : m.Alike m') (h : o.Alike o') :
    StreamObject.AlikeResult (method.perform m o) (method.perform m' o') := by
  cases method with
  | initializes initializer => exact (hinitializes initializer rfl m m' o o' hm h).map _
  | calls call sourceValue =>
      refine StreamObject.unlessClosed_alike hm h ?_
      intro coder buffer buffer' hopen
      split
      · exact ⟨rfl, hm, hopen.alike⟩
      · exact (StreamObject.streamCall_alike hm hopen call _).map _
  | readResult => exact (StreamObject.readResult_alike hm h).map _
  | close => exact (StreamObject.close_alike hm h).map _

end StreamMethod

/-- The calls of a class that is made of methods which keep objects alike get the same
    replies. -/
theorem NativeClass.life_alike {C : NativeClass χ (Coder UInt8 σ ω ρ)}
    {method : χ → StreamMethod σ ω ρ} (hC : C.Made method)
    (hmethod : ∀ call initializer, method call = .initializes initializer →
      initializer.KeepsAlike)
    (calls : List χ) {m m' : Memory} {o o' : StreamObject (Coder UInt8 σ ω ρ)} (hm : m.Alike m')
    (h : o.Alike o') : (C.life calls m' o').1 = (C.life calls m o).1 := by
  induction calls generalizing m m' o o' with
  | nil => rfl
  | cons call rest ih =>
      have hcall := (method call).perform_alike (hmethod call) hm h
      rw [hC.invoke, hC.invoke] at hcall
      obtain ⟨hreply, hm₁, h₁⟩ := hcall
      simp only [NativeClass.life, hreply, ih hm₁ h₁]

theorem nativeCompressorMethod_keepsAlike (call : Encoder σ × CompressorCall)
    (initializer : Initializer σ Operation Bool)
    (h : nativeCompressorMethod call = .initializes initializer) : initializer.KeepsAlike := by
  obtain ⟨enc, call⟩ := call
  cases call with
  | initializeCompressor options =>
      obtain rfl := StreamMethod.initializes.inj h
      exact fun _ _ _ _ hm h => StreamObject.initializeObject_alike hm h options
  | _ => cases h

theorem nativeDecompressorMethod_keepsAlike (call : Decoder σ × DecompressorCall)
    (initializer : Initializer σ Unit DecoderResult)
    (h : nativeDecompressorMethod call = .initializes initializer) : initializer.KeepsAlike := by
  obtain ⟨dec, call⟩ := call
  cases call with
  | initializeDecompressor options =>
      obtain rfl := StreamMethod.initializes.inj h
      exact fun _ _ _ _ hm h => StreamObject.initializeObject_alike hm h options
  | _ => cases h

/-! ## Everything -/

/-- Nothing that a program gets to see tells the memories apart: what the functions on
    strings and files return or raise, the calls that they make of the library and the
    bytes in the files are the same, and so are all replies of a streaming object. -/
structure Memory.Indistinguishable (m m' : Memory) : Prop where
  compressString : ∀ {σ : Type} (enc : Encoder σ) (fuel : Nat) (source options : Argument),
    Option.Rel Exit.Alike (brsExtCompressString enc fuel m source options)
      (brsExtCompressString enc fuel m' source options)
  decompressString : ∀ {σ : Type} (dec : Decoder σ) (fuel : Nat) (source options : Argument),
    Option.Rel Exit.Alike (brsExtDecompressString dec fuel m source options)
      (brsExtDecompressString dec fuel m' source options)
  compressIo : ∀ {σ : Type} (enc : Encoder σ) (fuel : Nat) (source : FileArgument SourceFile)
    (destination : FileArgument DestinationFile) (options : Argument),
    Option.Rel IoExit.Alike (brsExtCompressIo enc fuel m source destination options)
      (brsExtCompressIo enc fuel m' source destination options)
  decompressIo : ∀ {σ : Type} (dec : Decoder σ) (fuel : Nat) (source : FileArgument SourceFile)
    (destination : FileArgument DestinationFile) (options : Argument),
    Option.Rel IoExit.Alike (brsExtDecompressIo dec fuel m source destination options)
      (brsExtDecompressIo dec fuel m' source destination options)
  compressor : ∀ {σ : Type} (handle : Nat) (calls : List (Encoder σ × CompressorCall)),
    (nativeCompressor.life calls m' (.new handle)).1 =
      (nativeCompressor.life calls m (.new handle)).1
  decompressor : ∀ {σ : Type} (handle : Nat) (calls : List (Decoder σ × DecompressorCall)),
    (nativeDecompressor.life calls m' (.new handle)).1 =
      (nativeDecompressor.life calls m (.new handle)).1

/-- Memories that are the same but for what fresh memory contains. -/
theorem fresh_memory_unseen {m m' : Memory} (h : m.Alike m') : m.Indistinguishable m' where
  compressString enc fuel source options := brsExtCompressString_alike h fuel enc source options
  decompressString dec fuel source options :=
    brsExtDecompressString_alike h fuel dec source options
  compressIo enc fuel source destination options :=
    brsExtCompressIo_alike h fuel enc source destination options
  decompressIo dec fuel source destination options :=
    brsExtDecompressIo_alike h fuel dec source destination options
  compressor _ calls := NativeClass.life_alike nativeCompressor_made
    nativeCompressorMethod_keepsAlike calls h (.new _)
  decompressor _ calls := NativeClass.life_alike nativeDecompressor_made
    nativeDecompressorMethod_keepsAlike calls h (.new _)

/-- Zeroes, or the number of the allocation and of the byte, and an allocation that fails. -/
theorem fresh_memory_unseen_numbered :
    Memory.Indistinguishable { Memory.unused with fails := fun k => k == 3 }
      { Memory.unused with
        fails := fun k => k == 3
        garbage := fun k i => UInt8.ofNat (k + i) } :=
  fresh_memory_unseen ⟨_, rfl⟩

end RubyBrs
