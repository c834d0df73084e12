/-
  RubyBrs.Ext.FreshMemory

  What fresh memory contains is never seen.

  `malloc`, `rb_str_new` and `rb_str_resize` give memory that nothing was written to,
  and the loops of `string.c` and `io.c` hand it to the library, move it and write it
  to files by cursors and lengths only.  Here two runs are compared that are given
  other bytes wherever memory is fresh, and are alike otherwise: the variables stay the
  same but for bytes behind the cursors (`Str.Alike`, `Io.Alike`), so the library gets
  the same calls, the files the same bytes and Ruby the same strings and exceptions.
  Nothing is assumed of the library.
-/

import RubyBrs.Ext.IoLoops
import RubyBrs.Ext.NativeRun
import RubyBrs.Ext.StringRefine

namespace RubyBrs

open StreamCodec WhileTrue Window

variable {κ σ ω ρ θ : Type}

/-! ## Memory -/

namespace Memory

/-- The same but for what fresh memory contains. -/
def Alike (m m' : Memory) : Prop := ∃ garbage, m' = { m with garbage }

variable {m m' : Memory}

theorem Alike.release (h : m.Alike m') (handle : Nat) :
    (m.release handle).Alike (m'.release handle) := by
  obtain ⟨garbage, rfl⟩ := h
  unfold Memory.release
  dsimp only
  split <;> exact ⟨garbage, rfl⟩

theorem Alike.use (h : m.Alike m') (handle : Nat) : (m.use handle).Alike (m'.use handle) := by
  obtain ⟨garbage, rfl⟩ := h
  unfold Memory.use
  dsimp only
  split <;> exact ⟨garbage, rfl⟩

/-- The same allocations succeed, and give the same handles. -/
theorem Alike.allocate (h : m.Alike m') :
    m'.allocate.1 = m.allocate.1 ∧ m.allocate.2.Alike m'.allocate.2 := by
  obtain ⟨garbage, rfl⟩ := h
  unfold Memory.allocate
  dsimp only
  split <;> exact ⟨rfl, garbage, rfl⟩

theorem Alike.allocateString (h : m.Alike m') {P : List UInt8 → List UInt8 → Prop}
    {bytes bytes' : List UInt8} (hP : P bytes bytes') :
    Option.Rel P (m.allocateString bytes).1 (m'.allocateString bytes').1 ∧
      (m.allocateString bytes).2.Alike (m'.allocateString bytes').2 := by
  obtain ⟨garbage, rfl⟩ := h
  unfold Memory.allocateString
  dsimp only
  split
  · exact ⟨.none, garbage, rfl⟩
  · exact ⟨.some hP, garbage, rfl⟩

/-- The same arrays can be allocated. -/
theorem Alike.allocateArray (h : m.Alike m') :
    m'.allocateArray.1 = m.allocateArray.1 ∧ m.allocateArray.2.Alike m'.allocateArray.2 := by
  obtain ⟨garbage, rfl⟩ := h
  exact ⟨rfl, garbage, rfl⟩

/-- Of fresh memory only the length is the same. -/
theorem fresh_sameFront (m m' : Memory) (size : Nat) :
    SameFront 0 (m.fresh size) (m'.fresh size) :=
  .zero (by rw [fresh_length, fresh_length])

end Memory

section Buffers

variable {m m' : Memory} (h : m.Alike m')

include h

theorem createStringBuffer_alike (length : Nat) :
    Option.Rel (SameFront 0) (createStringBuffer m length).1 (createStringBuffer m' length).1 ∧
      (createStringBuffer m length).2.Alike (createStringBuffer m' length).2 :=
  h.allocateString (Memory.fresh_sameFront m m' length)

omit h in
/-- What becomes of a string that is resized: the same exception, no string, or
    strings with the same front. -/
inductive ResizedAlike (n : Nat) :
    Except RubyError (Option (List UInt8)) → Except RubyError (Option (List UInt8)) → Prop
  | raised (e : RubyError) : ResizedAlike n (.error e) (.error e)
  | none : ResizedAlike n (.ok none) (.ok none)
  | some {buffer buffer' : List UInt8} (hfront : SameFront n buffer buffer') :
      ResizedAlike n (.ok (some buffer)) (.ok (some buffer'))

/-- A string that is resized keeps its front. -/
theorem brsExtResizeStringBuffer_alike {n length : Nat} {buffer buffer' : List UInt8}
    (hbuffer : SameFront n buffer buffer') (hn : n ≤ buffer.length) (hlength : n ≤ length) :
    Option.Rel (SameFront n) (brsExtResizeStringBuffer m buffer length).1
        (brsExtResizeStringBuffer m' buffer' length).1 ∧
      (brsExtResizeStringBuffer m buffer length).2.Alike
        (brsExtResizeStringBuffer m' buffer' length).2 := by
  refine h.allocateString ⟨?_, ?_⟩
  · simp only [List.length_append, List.length_take, Memory.fresh_length, hbuffer.length_eq]
  · have hn' : n ≤ buffer'.length := hbuffer.length_eq ▸ hn
    rw [List.take_append_of_le_length (by rw [List.length_take]; omega),
      List.take_append_of_le_length (by rw [List.length_take]; omega), List.take_take,
      List.take_take, Nat.min_eq_left hlength, hbuffer.take_eq]

theorem resizeStringBuffer_alike {n length : Nat} {buffer buffer' : List UInt8}
    (hbuffer : SameFront n buffer buffer') (hn : n ≤ buffer.length) (hlength : n ≤ length) :
    ResizedAlike n (resizeStringBuffer m buffer length).1
        (resizeStringBuffer m' buffer' length).1 ∧
      (resizeStringBuffer m buffer length).2.Alike (resizeStringBuffer m' buffer' length).2 := by
  obtain ⟨heq, harray⟩ := h.allocateArray
  unfold resizeStringBuffer
  generalize m.allocateArray = r at heq harray ⊢
  generalize m'.allocateArray = r' at heq harray ⊢
  obtain ⟨allocated, m₁⟩ := r
  obtain ⟨allocated', m₁'⟩ := r'
  obtain rfl : allocated' = allocated := heq
  cases allocated' with
  | false => exact ⟨.raised _, harray⟩
  | true =>
      obtain ⟨hresized, hmemory⟩ := brsExtResizeStringBuffer_alike harray hbuffer hn hlength
      refine ⟨?_, hmemory⟩
      dsimp only at hresized ⊢
      generalize (brsExtResizeStringBuffer m₁ buffer length).1 = resized at hresized ⊢
      generalize (brsExtResizeStringBuffer m₁' buffer' length).1 = resized' at hresized ⊢
      cases hresized with
      | none => exact .none
      | some hfront => exact .some hfront

/-- The same buffer but for its bytes, of which it has as many. -/
def Buffer.Alike (buffer buffer' : Buffer) : Prop :=
  buffer'.handle = buffer.handle ∧ SameFront 0 buffer.bytes buffer'.bytes

theorem mallocBuffer_alike (length : Nat) :
    Option.Rel Buffer.Alike (mallocBuffer m length).1 (mallocBuffer m' length).1 ∧
      (mallocBuffer m length).2.Alike (mallocBuffer m' length).2 := by
  obtain ⟨heq, halike⟩ := h.allocate
  refine ⟨?_, halike⟩
  simp only [mallocBuffer, heq]
  cases m.allocate.1 with
  | none => exact .none
  | some handle => exact .some ⟨rfl, Memory.fresh_sameFront m m' length⟩

theorem createBuffers_alike (sourceBufferLength destinationBufferLength : Nat) :
    Option.Rel (fun b b' => b.1.Alike b'.1 ∧ b.2.Alike b'.2)
        (createBuffers m sourceBufferLength destinationBufferLength).1
        (createBuffers m' sourceBufferLength destinationBufferLength).1 ∧
      (createBuffers m sourceBufferLength destinationBufferLength).2.Alike
        (createBuffers m' sourceBufferLength destinationBufferLength).2 := by
  have hsource := mallocBuffer_alike h sourceBufferLength
  unfold createBuffers
  generalize mallocBuffer m sourceBufferLength = r at hsource ⊢
  generalize mallocBuffer m' sourceBufferLength = r' at hsource ⊢
  obtain ⟨sourceBuffer, m₁⟩ := r
  obtain ⟨sourceBuffer', m₁'⟩ := r'
  obtain ⟨hsource, h₁⟩ := hsource
  cases hsource with
  | none => exact ⟨.none, h₁⟩
  | some hsource =>
      have hdestination := mallocBuffer_alike h₁ destinationBufferLength
      dsimp only at hdestination ⊢
      generalize mallocBuffer m₁ destinationBufferLength = r at hdestination ⊢
      generalize mallocBuffer m₁' destinationBufferLength = r' at hdestination ⊢
      obtain ⟨destinationBuffer, m₂⟩ := r
      obtain ⟨destinationBuffer', m₂'⟩ := r'
      obtain ⟨hdestination, h₂⟩ := hdestination
      cases hdestination with
      -- The source buffer is given back, by the handle that it has in both.
      | none =>
          refine ⟨.none, ?_⟩
          dsimp only
          rw [hsource.1]
          exact h₂.release _
      | some hdestination => exact ⟨.some ⟨hsource, hdestination⟩, h₂⟩

/-- The same instance, or the same error. -/
theorem createCoder_alike (create : σ) (setOptions : σ → ExtResult × σ) :
    ∃ (coder : Except RubyError (Coder UInt8 σ ω ρ)) (m₁ m₁' : Memory),
      createCoder create setOptions m = (coder, m₁) ∧
      createCoder create setOptions m' = (coder, m₁') ∧ m₁.Alike m₁' := by
  have hallocate := h.allocate
  unfold createCoder
  generalize m.allocate = r at hallocate ⊢
  generalize m'.allocate = r' at hallocate ⊢
  obtain ⟨handle, m₁⟩ := r
  obtain ⟨handle', m₁'⟩ := r'
  obtain ⟨heq, h₁⟩ := hallocate
  obtain rfl : handle' = handle := heq
  cases handle' with
  | none => exact ⟨_, m₁, m₁', rfl, rfl, h₁⟩
  | some handle =>
      rcases setOptions create with ⟨extResult, s⟩
      cases extResult with
      | ok => exact ⟨_, m₁, m₁', rfl, rfl, h₁⟩
      | _ => exact ⟨_, _, _, rfl, rfl, h₁.release handle⟩

end Buffers

/-! ## `string.c` -/

namespace Str

/-- The same variables but for the memory, and the destination behind what was
    written. -/
def Alike (v w : Str κ) : Prop :=
  ∃ memory destinationValue, w = { v with memory, destinationValue } ∧ v.memory.Alike memory ∧
    SameFront v.destinationLength v.destinationValue destinationValue

theorem Alike.frame {v w : Str κ} (h : v.Alike w) :
    v.memory.Alike w.memory ∧ w.coder = v.coder := by
  obtain ⟨memory, value, rfl, hmemory, -⟩ := h
  exact ⟨hmemory, rfl⟩

section Step

variable {d : Nat} {v w : Str (Coder UInt8 σ ω ρ)}

theorem Alike.streamed (h : v.Alike w) (codec : Codec UInt8 σ ω ρ) (operation : ω) :
    streamAnswer codec operation w = streamAnswer codec operation v ∧
      (streamed codec operation w).coder = (streamed codec operation v).coder ∧
      (streamed codec operation v).Alike (streamed codec operation w) := by
  obtain ⟨memory, value, rfl, hmemory, hvalue⟩ := h
  exact ⟨rfl, rfl, memory, _, rfl, hmemory, hvalue.overwrite _⟩

/-- What was written lies inside the destination. -/
def Fits (v : Str κ) : Prop := v.destinationLength ≤ v.destinationValue.length

theorem WellFormed.fits (hv : v.WellFormed d) : v.Fits := by
  have hfits := hv.destination_fits
  unfold Fits
  omega

theorem increaseDestinationBuffer_fits (hv : v.WellFormed d) :
    (v.increaseDestinationBuffer d).2.Fits ∧ ((v.increaseDestinationBuffer d).1 = .ok .ok →
      (v.increaseDestinationBuffer d).2.WellFormed d) := by
  have hfits := hv.fits
  rcases increaseDestinationBuffer_cases hv with
    ⟨-, heq⟩ | ⟨-, -, r, memory, hr, heq⟩ | ⟨-, memory, value, heq, hlength, -, -⟩
  · rw [heq]
    exact ⟨hfits, fun hok => by cases hok⟩
  · rw [heq]
    exact ⟨hfits, fun hok => absurd hok hr.ne_ok⟩
  · rw [heq]
    have hgrown : Str.WellFormed d { v with
        memory, destinationValue := value, remainingDestinationBufferLength := d } :=
      ⟨hv.source_fits, hlength.symm, le_refl d⟩
    exact ⟨hgrown.fits, fun _ => hgrown⟩

/-- Nothing of the fresh memory that the destination grows by comes in front. -/
theorem Alike.increaseDestinationBuffer (h : v.Alike w) (hv : v.WellFormed d) :
    (w.increaseDestinationBuffer d).1 = (v.increaseDestinationBuffer d).1 ∧
      (v.increaseDestinationBuffer d).2.Alike (w.increaseDestinationBuffer d).2 := by
  obtain ⟨memory, value, rfl, hmemory, hvalue⟩ := h
  have hfits := hv.destination_fits
  have hresize := resizeStringBuffer_alike hmemory hvalue (by omega)
    (Nat.le_add_right v.destinationLength d)
  unfold Str.increaseDestinationBuffer
  dsimp only
  by_cases hd : v.remainingDestinationBufferLength = d
  · simp only [if_pos hd]
    exact ⟨trivial, memory, value, rfl, hmemory, hvalue⟩
  · simp only [if_neg hd]
    generalize resizeStringBuffer v.memory v.destinationValue (v.destinationLength + d) = r
      at hresize ⊢
    generalize resizeStringBuffer memory value (v.destinationLength + d) = r' at hresize ⊢
    obtain ⟨grown, m⟩ := r
    obtain ⟨grown', m'⟩ := r'
    obtain ⟨hgrown, hm⟩ := hresize
    cases hgrown with
    | raised e => exact ⟨rfl, _, _, rfl, hm, hvalue⟩
    | none => exact ⟨rfl, _, _, rfl, hm, hvalue⟩
    | some hgrown => exact ⟨rfl, _, _, rfl, hm, hgrown⟩

/-- Cut to what was written, the destination is the same. -/
theorem Alike.cutDestination (h : v.Alike w) (hfits : v.Fits)
    {failed : Except RubyError ExtResult} (hfailed : failed ≠ .ok .ok) :
    (w.cutDestination failed).1 = (v.cutDestination failed).1 ∧
      (v.cutDestination failed).2.Alike (w.cutDestination failed).2 ∧
      ((v.cutDestination failed).1 = .ok .ok →
        (w.cutDestination failed).2.destinationValue =
          (v.cutDestination failed).2.destinationValue) := by
  obtain ⟨memory, value, rfl, hmemory, hvalue⟩ := h
  have hlength : ∀ m buffer, resizeStringBuffer v.memory v.destinationValue v.destinationLength =
      (.ok (some buffer), m) → buffer.length ≤ v.destinationLength := by
    intro m buffer hresize
    rcases resizeStringBuffer_cases v.memory v.destinationValue v.destinationLength with
      ⟨-, heq⟩ | ⟨-, heq⟩ | ⟨buffer', heq, hlength, -⟩
    · rw [heq] at hresize
      cases hresize
    · rw [heq] at hresize
      cases hresize
    · rw [heq] at hresize
      obtain rfl := Option.some.inj (Except.ok.inj (Prod.mk.inj hresize).1)
      exact le_of_eq hlength
  have hresize := resizeStringBuffer_alike hmemory hvalue hfits (le_refl v.destinationLength)
  unfold Str.cutDestination
  dsimp only
  generalize resizeStringBuffer v.memory v.destinationValue v.destinationLength = r
    at hresize hlength ⊢
  generalize resizeStringBuffer memory value v.destinationLength = r' at hresize ⊢
  obtain ⟨cut, m⟩ := r
  obtain ⟨cut', m'⟩ := r'
  obtain ⟨hcut, hm⟩ := hresize
  cases hcut with
  | raised e => exact ⟨rfl, ⟨_, _, rfl, hm, hvalue⟩, fun h => by cases h⟩
  | none => exact ⟨rfl, ⟨_, _, rfl, hm, hvalue⟩, fun h => absurd h hfailed⟩
  | some hcut =>
      exact ⟨rfl, ⟨_, _, rfl, hm, hcut⟩, fun _ => hcut.eq_of_length_le (hlength _ _ rfl)⟩

end Step

/-- The same result, with variables that are alike. -/
def AlikeResult {ε : Type} (x y : ε × Str κ) : Prop := y.1 = x.1 ∧ x.2.Alike y.2

section Loop

variable {d : Nat} {codec : Codec UInt8 σ ω ρ} {operation : ω}
  {failure : Coder UInt8 σ ω ρ → ρ → Option ExtResult} {again : Coder UInt8 σ ω ρ → ρ → Bool}
  {gvl : Bool} {v w : Str (Coder UInt8 σ ω ρ)}

/-- One round of the loop in both runs. -/
theorem streamBody_alike (hv : v.WellFormed d) (h : v.Alike w) :
    Option.Rel (Flow.Rel (fun v w => v.WellFormed d ∧ v.Alike w)
        fun x y => AlikeResult x y ∧ x.2.Fits)
      (streamBody (streamWrapper codec operation) failure again gvl d v)
      (streamBody (streamWrapper codec operation) failure again gvl d w) := by
  obtain ⟨hanswer, hcoder, halike⟩ := h.streamed codec operation
  have hstreamed := streamed_wellFormed codec operation hv
  rw [streamBody_eq, streamBody_eq, hanswer, hcoder]
  cases failure (streamed codec operation v).coder (streamAnswer codec operation v).result with
  | some extResult =>
      -- The cursor stays in front of what the failing call has put behind it.
      have hle : v.destinationLength ≤ (streamed codec operation v).destinationLength :=
        Nat.le_add_right _ _
      obtain ⟨memory, value, heq, hmemory, hvalue⟩ := halike
      have hsame : w.destinationLength = v.destinationLength := by
        obtain ⟨memory, value, rfl, -, -⟩ := h
        rfl
      rw [heq, hsame]
      exact .some (.exit ⟨⟨rfl, memory, value, rfl, hmemory, hvalue.mono hle⟩,
        Nat.le_trans hle hstreamed.fits⟩)
  | none =>
      obtain ⟨hresult, hgrown⟩ := halike.increaseDestinationBuffer hstreamed
      obtain ⟨hfits, hwellFormed⟩ := increaseDestinationBuffer_fits hstreamed
      dsimp only
      split
      · generalize (streamed codec operation v).increaseDestinationBuffer d = x
          at hresult hgrown hfits hwellFormed ⊢
        generalize (streamed codec operation w).increaseDestinationBuffer d = y
          at hresult hgrown ⊢
        obtain ⟨_, v'⟩ := x
        obtain ⟨r, w'⟩ := y
        obtain rfl := hresult
        by_cases hok : r = .ok .ok
        · subst hok
          exact .some (.next ⟨hwellFormed rfl, hgrown⟩)
        · rw [roundAgain_of_ne hok, roundAgain_of_ne hok]
          exact .some (.exit ⟨⟨rfl, hgrown⟩, hfits⟩)
      · exact .some (.exit ⟨⟨rfl, halike⟩, hstreamed.fits⟩)

/-- The loop, from a destination that nothing was written to. -/
theorem streamLoop_alike {fuel : Nat} {coder : Coder UInt8 σ ω ρ} {m m' : Memory}
    (hm : m.Alike m') (source : List UInt8) {value value' : List UInt8}
    (hvalue : SameFront 0 value value') (hd : value.length = d) :
    Option.Rel (fun x y => AlikeResult x y ∧ x.2.Fits)
      (whileTrue (streamBody (streamWrapper codec operation) failure again gvl d) fuel
        (enter coder m source value d))
      (whileTrue (streamBody (streamWrapper codec operation) failure again gvl d) fuel
        (enter coder m' source value' d)) := by
  refine whileTrue_rel (I := fun v w => v.WellFormed d ∧ v.Alike w) ?_ fuel ⟨?_, ?_⟩
  · rintro v w ⟨hv, h⟩
    exact streamBody_alike hv h
  · exact ⟨Nat.zero_add _, (Nat.zero_add d).trans hd.symm, le_refl d⟩
  · exact ⟨m', value', rfl, hm, hvalue⟩

end Loop

/-- The same result, with the same string when there is one. -/
def AlikeReturn (x y : Except RubyError ExtResult × Str κ) : Prop :=
  AlikeResult x y ∧ (x.1 = .ok .ok → y.2.destinationValue = x.2.destinationValue)

theorem afterLoop_alike {failed : Except RubyError ExtResult} (hfailed : failed ≠ .ok .ok)
    {x y : Except RubyError ExtResult × Str (Coder UInt8 σ ω ρ)} (h : AlikeResult x y)
    (hfits : x.2.Fits) : AlikeReturn (afterLoop failed x) (afterLoop failed y) := by
  obtain ⟨_, v⟩ := x
  obtain ⟨r, w⟩ := y
  obtain ⟨rfl, halike⟩ := h
  by_cases hok : r = .ok .ok
  · subst hok
    obtain ⟨hcut, hmemory, hsame⟩ := halike.cutDestination hfits hfailed
    exact ⟨⟨hcut, hmemory⟩, hsame⟩
  · rw [afterLoop_of_ne failed hok, afterLoop_of_ne failed hok]
    exact ⟨⟨rfl, halike⟩, fun h => absurd h hok⟩

section Whole

variable {gvl : Bool} {d fuel : Nat} {m m' : Memory} {value value' : List UInt8}

theorem compress_alike (enc : Encoder σ) (coder : EncoderInstance σ) (hm : m.Alike m')
    (source : List UInt8) (hvalue : SameFront 0 value value') (hd : value.length = d) :
    Option.Rel AlikeReturn (compress enc gvl d fuel coder m source value)
      (compress enc gvl d fuel coder m' source value') :=
  rel_map (streamLoop_alike hm source hvalue hd) fun _ _ h =>
    afterLoop_alike (by simp) h.1 h.2

theorem decompress_alike (dec : Decoder σ) (coder : DecoderInstance σ) (hm : m.Alike m')
    (source : List UInt8) (hvalue : SameFront 0 value value') (hd : value.length = d) :
    Option.Rel AlikeReturn (decompress dec gvl d fuel coder m source value)
      (decompress dec gvl d fuel coder m' source value') :=
  rel_map (streamLoop_alike hm source hvalue hd) fun _ _ h =>
    afterLoop_alike (by simp) h.1 h.2

end Whole

end Str

/-! ## `io.c` -/

namespace Io

/-- The same variables but for the bytes of the buffers behind what was read and
    behind what is to be written. -/
def Alike (v w : Io κ) : Prop :=
  ∃ sourceBuffer destinationBuffer, w = { v with sourceBuffer, destinationBuffer } ∧
    SameFront (v.source + v.sourceLength) v.sourceBuffer sourceBuffer ∧
    SameFront v.destinationLength v.destinationBuffer destinationBuffer

theorem Alike.frame {v w : Io κ} (h : v.Alike w) :
    w.coder = v.coder ∧ w.destinationFile = v.destinationFile := by
  obtain ⟨sourceBuffer, destinationBuffer, rfl, -, -⟩ := h
  exact ⟨rfl, rfl⟩

/-- The same result, with variables that are alike. -/
def AlikeResult {ε : Type} (x y : ε × Io κ) : Prop := y.1 = x.1 ∧ x.2.Alike y.2

section Step

variable {v w : Io κ}

theorem Alike.compactSource (h : v.Alike w) :
    v.compactSource.Alike w.compactSource ∧ v.compactSource.source = 0 := by
  obtain ⟨sourceBuffer, destinationBuffer, rfl, hsource, hdestination⟩ := h
  unfold Io.compactSource
  dsimp only
  by_cases hs : v.source = 0
  · rw [if_neg (not_not.mpr hs), if_neg (not_not.mpr hs)]
    exact ⟨⟨_, _, rfl, hsource, hdestination⟩, hs⟩
  · rw [if_pos hs, if_pos hs]
    refine ⟨⟨_, _, rfl, ?_, hdestination⟩, rfl⟩
    dsimp only
    rw [Nat.zero_add]
    -- What remains is moved to the top, and is the front then.
    split
    · exact hsource.memmove
    · rename_i hnone
      rw [not_not.mp hnone]
      exact .zero hsource.length_eq

theorem Alike.readMoreSource (h : v.Alike w) (m : Nat) :
    AlikeResult (v.readMoreSource m) (w.readMoreSource m) := by
  obtain ⟨hcompact, htop⟩ := h.compactSource
  unfold Io.readMoreSource
  generalize v.compactSource = v at hcompact htop ⊢
  generalize w.compactSource = w at hcompact ⊢
  obtain ⟨sourceBuffer, destinationBuffer, rfl, hsource, hdestination⟩ := hcompact
  rw [htop, Nat.zero_add] at hsource
  dsimp only
  split
  · exact ⟨rfl, _, _, rfl, by rw [htop, Nat.zero_add]; exact hsource, hdestination⟩
  · generalize readFile v.sourceFile (m - v.sourceLength) = r
    obtain ⟨extResult, bytes, sourceFile⟩ := r
    have hread := hsource.overwrite bytes
    dsimp only
    split
    · refine ⟨rfl, _, _, rfl, ?_, hdestination⟩
      dsimp only
      rw [htop, Nat.zero_add]
      exact hread.mono (Nat.le_add_right _ _)
    · refine ⟨rfl, _, _, rfl, ?_, hdestination⟩
      dsimp only
      rw [htop, Nat.zero_add]
      exact hread

/-- Only what was put into the buffer is written. -/
theorem Alike.writeFile (h : v.Alike w) :
    writeFile w.destinationFile w.destinationBuffer w.destinationLength =
      writeFile v.destinationFile v.destinationBuffer v.destinationLength := by
  obtain ⟨sourceBuffer, destinationBuffer, rfl, -, hdestination⟩ := h
  simp only [Io.writeFile, hdestination.take_eq]

theorem Alike.flushDestinationBuffer (h : v.Alike w) :
    AlikeResult v.flushDestinationBuffer w.flushDestinationBuffer := by
  have hwrite := h.writeFile
  obtain ⟨sourceBuffer, destinationBuffer, rfl, hsource, hdestination⟩ := h
  unfold Io.flushDestinationBuffer
  rw [hwrite]
  dsimp only
  split
  · exact ⟨rfl, _, _, rfl, hsource, hdestination⟩
  · split
    · exact ⟨rfl, _, _, rfl, hsource, hdestination⟩
    · exact ⟨rfl, _, _, rfl, hsource, hdestination.mono (Nat.zero_le _)⟩

theorem Alike.writeRemainingDestination (h : v.Alike w) :
    AlikeResult v.writeRemainingDestination w.writeRemainingDestination := by
  have hwrite := h.writeFile
  obtain ⟨sourceBuffer, destinationBuffer, rfl, hsource, hdestination⟩ := h
  unfold Io.writeRemainingDestination
  rw [hwrite]
  dsimp only
  split
  · exact ⟨rfl, _, _, rfl, hsource, hdestination⟩
  · exact ⟨rfl, _, _, rfl, hsource, hdestination⟩

/-- The source can be read as far as it was read. -/
theorem Alike.sourceWindow (h : v.Alike w) : w.sourceWindow = v.sourceWindow := by
  obtain ⟨sourceBuffer, destinationBuffer, rfl, hsource, -⟩ := h
  exact hsource.window_eq (le_refl _)

end Step

section BufferedLoop

variable {codec : Codec UInt8 σ ω ρ} {operation : ω} {offered : Io (Coder UInt8 σ ω ρ) → Nat}
  {wrapper : Nat → Io (Coder UInt8 σ ω ρ) → Io (Coder UInt8 σ ω ρ) × Nat × ρ}
  {failure : Coder UInt8 σ ω ρ → ρ → Option ExtResult} {again : Coder UInt8 σ ω ρ → ρ → Bool}
  {gvl : Bool} {n : Nat} {v w : Io (Coder UInt8 σ ω ρ)}

/-- The library is given the same and answers the same, and what it has put into the
    buffer comes to the front. -/
theorem Alike.streamed (h : v.Alike w) (codec : Codec UInt8 σ ω ρ) (operation : ω) (k n : Nat) :
    streamAnswer codec operation k n w = streamAnswer codec operation k n v ∧
      (streamed codec operation k n w).coder = (streamed codec operation k n v).coder ∧
      (streamed codec operation k n v).Alike (streamed codec operation k n w) := by
  have hwindow := h.sourceWindow
  obtain ⟨sourceBuffer, destinationBuffer, rfl, hsource, hdestination⟩ := h
  have hanswer : streamAnswer codec operation k n { v with sourceBuffer, destinationBuffer } =
      streamAnswer codec operation k n v := by
    simp only [streamAnswer, hwindow]
  have hcoder : (Io.streamed codec operation k n
      { v with sourceBuffer, destinationBuffer }).coder =
        (Io.streamed codec operation k n v).coder := by
    simp only [Io.streamed, hwindow]
  refine ⟨hanswer, hcoder, sourceBuffer,
    overwrite destinationBuffer v.destinationLength (streamAnswer codec operation k n v).output,
    ?_, ?_, ?_⟩
  · simp only [Io.streamed, hanswer, hwindow]
  · have hconsumed : (streamAnswer codec operation k n v).consumed ≤ v.sourceLength := by
      have hle := codec.consumed_le v.coder.state operation (v.sourceWindow.take k)
        (n - v.destinationLength)
      have htake := List.length_take_le k v.sourceWindow
      have hlength : v.sourceWindow.length ≤ v.sourceLength := List.length_take_le _ _
      exact Nat.le_trans hle (by rw [List.length_take]; omega)
    simp only [Io.streamed]
    rw [show v.source + (streamAnswer codec operation k n v).consumed +
      (v.sourceLength - (streamAnswer codec operation k n v).consumed) =
        v.source + v.sourceLength by omega]
    exact hsource
  · exact hdestination.overwrite _

/-- One round of a loop around the library in both runs. -/
theorem bufferedBody_alike
    (hwrapper : ∀ room w, wrapper room w = streamWrapper codec operation (offered w) room w)
    (hoffered : ∀ w, offered w ≤ w.sourceLength) (hsame : ∀ v w, v.Alike w → offered w = offered v)
    (h : v.Alike w) :
    Option.Rel (Flow.Rel Alike AlikeResult) (bufferedBody wrapper failure again gvl n v)
      (bufferedBody wrapper failure again gvl n w) := by
  obtain ⟨hanswer, hcoder, halike⟩ := h.streamed codec operation (offered v) n
  rw [bufferedBody_eq hwrapper v (hoffered v), bufferedBody_eq hwrapper w (hoffered w),
    hsame v w h, hanswer, hcoder]
  cases failure (streamed codec operation (offered v) n v).coder
      (streamAnswer codec operation (offered v) n v).result with
  | some extResult =>
      have hle : v.destinationLength ≤
          (streamed codec operation (offered v) n v).destinationLength := Nat.le_add_right _ _
      have hlength : w.destinationLength = v.destinationLength := by
        obtain ⟨sourceBuffer, destinationBuffer, rfl, -, -⟩ := h
        rfl
      obtain ⟨sourceBuffer, destinationBuffer, heq, hsource, hdestination⟩ := halike
      rw [heq, hlength]
      exact .some (.exit ⟨rfl, _, _, rfl, hsource, hdestination.mono hle⟩)
  | none =>
      obtain ⟨hresult, hflushed⟩ := halike.flushDestinationBuffer
      dsimp only
      split
      · rw [hresult]
        split
        · exact .some (.exit ⟨hresult, hflushed⟩)
        · exact .some (.next hflushed)
      · exact .some (.exit ⟨rfl, halike⟩)

end BufferedLoop

section BufferedReadSource

variable {function : Io κ → Option (ExtResult × Io κ)} {m : Nat} {v w : Io κ}

theorem bufferedReadSourceBody_alike
    (hfunction : ∀ v w, v.Alike w → Option.Rel AlikeResult (function v) (function w))
    (called : Bool) (h : v.Alike w) :
    Option.Rel (Flow.Rel (fun s s' => s'.1 = s.1 ∧ s.2.Alike s'.2)
        fun x y => y.1 = x.1 ∧ AlikeResult x.2 y.2)
      (bufferedReadSourceBody function m (called, v))
      (bufferedReadSourceBody function m (called, w)) := by
  have hread := h.readMoreSource m
  unfold bufferedReadSourceBody
  dsimp only
  generalize v.readMoreSource m = r at hread ⊢
  generalize w.readMoreSource m = r' at hread ⊢
  obtain ⟨extResult, v⟩ := r
  obtain ⟨extResult', w⟩ := r'
  obtain ⟨heq, h⟩ := hread
  obtain rfl : extResult' = extResult := heq
  have hlength : w.sourceLength = v.sourceLength := by
    obtain ⟨sourceBuffer, destinationBuffer, rfl, -, -⟩ := h
    rfl
  dsimp only
  rw [hlength]
  split
  · split
    · exact .some (.exit ⟨rfl, rfl, h⟩)
    · exact .some (.exit ⟨rfl, rfl, h⟩)
  · split
    · exact .some (.exit ⟨rfl, rfl, h⟩)
    · refine rel_map (hfunction v w h) ?_
      rintro ⟨extResult, v⟩ ⟨_, w⟩ ⟨rfl, h⟩
      dsimp only
      split
      · exact .exit ⟨rfl, rfl, h⟩
      · exact .next ⟨rfl, h⟩

theorem bufferedReadSource_alike
    (hfunction : ∀ v w, v.Alike w → Option.Rel AlikeResult (function v) (function w))
    (fuel : Nat) (h : v.Alike w) :
    Option.Rel AlikeResult (bufferedReadSource function m fuel v)
      (bufferedReadSource function m fuel w) := by
  have hbody : ∀ s s' : Bool × Io κ, s'.1 = s.1 ∧ s.2.Alike s'.2 →
      Option.Rel (Flow.Rel (fun s s' => s'.1 = s.1 ∧ s.2.Alike s'.2)
          fun x y => y.1 = x.1 ∧ AlikeResult x.2 y.2)
        (bufferedReadSourceBody function m s) (bufferedReadSourceBody function m s') := by
    rintro ⟨_, v⟩ ⟨called, w⟩ ⟨rfl, h⟩
    exact bufferedReadSourceBody_alike hfunction called h
  have hstart : (false, w).1 = (false, v).1 ∧ (false, v).2.Alike (false, w).2 := ⟨rfl, h⟩
  refine rel_bind (whileTrue_rel hbody fuel hstart) ?_
  rintro ⟨extResult, called, v⟩ ⟨_, _, w⟩ ⟨rfl, rfl, h⟩
  dsimp only
  split
  · exact .some ⟨rfl, h⟩
  · split
    · exact hfunction v w h
    · exact .some ⟨rfl, h⟩

end BufferedReadSource

section Whole

variable {gvl : Bool} {m n fuel : Nat} {sourceBuffer sourceBuffer' destinationBuffer
  destinationBuffer' : List UInt8}

theorem bufferedCompress_alike (enc : Encoder σ) {v w : Io (EncoderInstance σ)} (h : v.Alike w) :
    Option.Rel AlikeResult (bufferedCompress enc gvl n fuel v)
      (bufferedCompress enc gvl n fuel w) := by
  refine whileTrue_rel ?_ fuel h
  intro v w h
  refine bufferedBody_alike (compressWrapper_eq enc) (fun w => le_refl w.sourceLength) ?_ h
  rintro v w ⟨sourceBuffer, destinationBuffer, rfl, -, -⟩
  rfl

theorem bufferedCompressorFinish_alike (enc : Encoder σ) {v w : Io (EncoderInstance σ)}
    (h : v.Alike w) :
    Option.Rel AlikeResult (bufferedCompressorFinish enc gvl n fuel v)
      (bufferedCompressorFinish enc gvl n fuel w) := by
  refine whileTrue_rel ?_ fuel h
  intro v w h
  exact bufferedBody_alike (compressorFinishWrapper_eq enc) (fun w => Nat.zero_le _)
    (fun v w _ => rfl) h

theorem bufferedDecompress_alike (dec : Decoder σ) {v w : Io (DecoderInstance σ)}
    (h : v.Alike w) :
    Option.Rel AlikeResult (bufferedDecompress dec gvl n fuel v)
      (bufferedDecompress dec gvl n fuel w) := by
  refine whileTrue_rel ?_ fuel h
  intro v w h
  refine bufferedBody_alike (decompressWrapper_eq dec) (fun w => le_refl w.sourceLength) ?_ h
  rintro v w ⟨sourceBuffer, destinationBuffer, rfl, -, -⟩
  rfl

variable (hsource : SameFront 0 sourceBuffer sourceBuffer')
  (hdestination : SameFront 0 destinationBuffer destinationBuffer')

include hsource hdestination

theorem compress_alike (enc : Encoder σ) (coder : EncoderInstance σ) (sourceFile : SourceFile)
    (destinationFile : DestinationFile) :
    Option.Rel AlikeResult
      (compress enc gvl m n fuel coder sourceFile sourceBuffer destinationFile destinationBuffer)
      (compress enc gvl m n fuel coder sourceFile sourceBuffer' destinationFile
        destinationBuffer') := by
  refine rel_bind (bufferedReadSource_alike (fun v w h => bufferedCompress_alike enc h) fuel
    ⟨_, _, rfl, hsource, hdestination⟩) ?_
  rintro ⟨extResult, v⟩ ⟨_, w⟩ ⟨rfl, h⟩
  dsimp only
  split
  · exact .some ⟨rfl, h⟩
  · refine rel_map (bufferedCompressorFinish_alike enc h) ?_
    rintro ⟨extResult, v⟩ ⟨_, w⟩ ⟨rfl, h⟩
    dsimp only
    split
    · exact ⟨rfl, h⟩
    · exact h.writeRemainingDestination

theorem decompress_alike (dec : Decoder σ) (coder : DecoderInstance σ) (sourceFile : SourceFile)
    (destinationFile : DestinationFile) :
    Option.Rel AlikeResult
      (decompress dec gvl m n fuel coder sourceFile sourceBuffer destinationFile
        destinationBuffer)
      (decompress dec gvl m n fuel coder sourceFile sourceBuffer' destinationFile
        destinationBuffer') := by
  refine rel_map (bufferedReadSource_alike (fun v w h => bufferedDecompress_alike dec h) fuel
    ⟨_, _, rfl, hsource, hdestination⟩) ?_
  rintro ⟨extResult, v⟩ ⟨_, w⟩ ⟨rfl, h⟩
  dsimp only
  split
  · exact ⟨rfl, h⟩
  · exact h.writeRemainingDestination

end Whole

end Io

/-! ## The one-shot functions -/

/-- Left in the same way, with memory that is alike. -/
def Exit.Alike {α : Type} (e e' : Exit α κ) : Prop :=
  ∃ memory, e' = { e with memory } ∧ e.memory.Alike memory

/-- Left in the same way, with the same files and memory that is alike. -/
def IoExit.Alike (e e' : IoExit κ) : Prop :=
  ∃ memory, e' = { e with memory } ∧ e.memory.Alike memory

section Calls

variable {getCodecOptions : Hash → Except RubyError θ} {create : σ}
  {setOptions : σ → θ → ExtResult × σ} {m m' : Memory}

theorem stringCall_alike {defaultLength : Nat}
    {run : Bool → Nat → Coder UInt8 σ ω ρ → Memory → List UInt8 → List UInt8 →
      Option (Except RubyError ExtResult × Str (Coder UInt8 σ ω ρ))}
    (hrun : ∀ gvl d coder (m m' : Memory) source value value', m.Alike m' →
      SameFront 0 value value' → value.length = d →
      Option.Rel Str.AlikeReturn (run gvl d coder m source value)
        (run gvl d coder m' source value'))
    (h : m.Alike m') (sourceValue options : Argument) :
    Option.Rel Exit.Alike
      (stringCall getCodecOptions create setOptions defaultLength run m sourceValue options)
      (stringCall getCodecOptions create setOptions defaultLength run m' sourceValue options) := by
  unfold stringCall
  split
  · exact .some ⟨m', rfl, h⟩
  · rename_i source read _
    obtain ⟨coder, m₁, m₁', heq, heq', h₁⟩ :=
      createCoder_alike (ω := ω) (ρ := ρ) h create (setOptions · read.codec)
    rw [heq, heq']
    cases coder with
    | error e => exact .some ⟨m₁', rfl, h₁⟩
    | ok coder =>
        dsimp only
        generalize hd : orDefault read.destinationBufferLength defaultLength = d
        have hvalue := createStringBuffer_alike h₁ d
        have hlength : ∀ value m, createStringBuffer m₁ d = (some value, m) →
            value.length = d := by
          intro value m heq
          rcases createStringBuffer_cases m₁ d with
            ⟨-, m', heq'⟩ | ⟨value', m', heq', hlength, -⟩
          · rw [heq'] at heq
            cases heq
          · rw [heq'] at heq
            rw [← Option.some.inj (Prod.mk.inj heq).1, hlength]
        generalize createStringBuffer m₁ d = r at hvalue hlength ⊢
        generalize createStringBuffer m₁' d = r' at hvalue ⊢
        obtain ⟨value, m₂⟩ := r
        obtain ⟨value', m₂'⟩ := r'
        obtain ⟨hvalue, h₂⟩ := hvalue
        cases hvalue with
        | none => exact .some ⟨_, rfl, h₂.release _⟩
        | some hvalue =>
            refine rel_map (hrun read.gvl d coder _ _ source _ _ h₂ hvalue (hlength _ _ rfl)) ?_
            rintro ⟨result, v⟩ ⟨result', w⟩ ⟨⟨heq, hw⟩, hsame⟩
            obtain ⟨hmemory, hcalled⟩ := Str.Alike.frame hw
            obtain rfl : result' = result := heq
            dsimp only at hmemory hcalled hsame
            cases result' with
            | error e => exact ⟨w.memory, by simp only [hcalled], hmemory⟩
            | ok extResult =>
                refine ⟨w.memory.release coder.handle, ?_, hmemory.release _⟩
                simp only [hcalled]
                -- The string is looked at only when there was no error.
                by_cases hok : extResult = .ok
                · rw [hsame (by rw [hok])]
                · simp only [ne_eq, hok, not_false_eq_true, if_true]

theorem ioCall_alike {defaultSource defaultDestination : Nat}
    {run : Bool → Nat → Nat → Coder UInt8 σ ω ρ → SourceFile → List UInt8 → DestinationFile →
      List UInt8 → Option (ExtResult × Io (Coder UInt8 σ ω ρ))}
    (hrun : ∀ gvl m n coder sourceFile sourceBuffer sourceBuffer' destinationFile
      destinationBuffer destinationBuffer', SameFront 0 sourceBuffer sourceBuffer' →
      SameFront 0 destinationBuffer destinationBuffer' →
      Option.Rel Io.AlikeResult
        (run gvl m n coder sourceFile sourceBuffer destinationFile destinationBuffer)
        (run gvl m n coder sourceFile sourceBuffer' destinationFile destinationBuffer'))
    (h : m.Alike m') (source : FileArgument SourceFile)
    (destination : FileArgument DestinationFile) (options : Argument) :
    Option.Rel IoExit.Alike
      (ioCall getCodecOptions create setOptions defaultSource defaultDestination run m source
        destination options)
      (ioCall getCodecOptions create setOptions defaultSource defaultDestination run m' source
        destination options) := by
  unfold ioCall
  split
  · exact .some ⟨m', rfl, h⟩
  · rename_i sourceFile destinationFile read _
    obtain ⟨coder, m₁, m₁', heq, heq', h₁⟩ :=
      createCoder_alike (ω := ω) (ρ := ρ) h create (setOptions · read.codec)
    rw [heq, heq']
    cases coder with
    | error e => exact .some ⟨m₁', rfl, h₁⟩
    | ok coder =>
        dsimp only
        have hbuffers := createBuffers_alike h₁ (orDefault read.sourceBufferLength defaultSource)
          (orDefault read.destinationBufferLength defaultDestination)
        generalize createBuffers m₁ (orDefault read.sourceBufferLength defaultSource)
          (orDefault read.destinationBufferLength defaultDestination) = r at hbuffers ⊢
        generalize createBuffers m₁' (orDefault read.sourceBufferLength defaultSource)
          (orDefault read.destinationBufferLength defaultDestination) = r' at hbuffers ⊢
        obtain ⟨buffers, m₂⟩ := r
        obtain ⟨buffers', m₂'⟩ := r'
        obtain ⟨hbuffers, h₂⟩ := hbuffers
        cases hbuffers with
        | none => exact .some ⟨_, rfl, h₂.release _⟩
        | @some b b' hb =>
            obtain ⟨sourceBuffer, destinationBuffer⟩ := b
            obtain ⟨sourceBuffer', destinationBuffer'⟩ := b'
            obtain ⟨⟨hhandle, hsource⟩, hhandle', hdestination⟩ := hb
            refine rel_map (hrun _ _ _ coder sourceFile _ _ destinationFile _ _ hsource
              hdestination) ?_
            rintro ⟨extResult, v⟩ ⟨extResult', w⟩ ⟨heq, halike⟩
            obtain rfl : extResult' = extResult := heq
            obtain ⟨hcoder, hfile⟩ := Io.Alike.frame halike
            unfold IoExit.finish
            dsimp only at hhandle hhandle' hcoder hfile ⊢
            rw [hhandle, hhandle', hcoder, hfile]
            have hreleased := ((h₂.release sourceBuffer.handle).release
              destinationBuffer.handle).release coder.handle
            split
            · exact ⟨_, rfl, hreleased⟩
            · exact ⟨_, rfl, hreleased⟩

end Calls

section Native

variable {m m' : Memory} (h : m.Alike m') (fuel : Nat)

include h

theorem brsExtCompressString_alike (enc : Encoder σ) (sourceValue options : Argument) :
    Option.Rel Exit.Alike (brsExtCompressString enc fuel m sourceValue options)
      (brsExtCompressString enc fuel m' sourceValue options) := by
  refine stringCall_alike ?_ h sourceValue options
  intro gvl d coder m m' source value value' h hvalue hd
  exact Str.compress_alike enc coder h source hvalue hd

theorem brsExtDecompressString_alike (dec : Decoder σ) (sourceValue options : Argument) :
    Option.Rel Exit.Alike (brsExtDecompressString dec fuel m sourceValue options)
      (brsExtDecompressString dec fuel m' sourceValue options) := by
  refine stringCall_alike ?_ h sourceValue options
  intro gvl d coder m m' source value value' h hvalue hd
  exact Str.decompress_alike dec coder h source hvalue hd

theorem brsExtCompressIo_alike (enc : Encoder σ) (source : FileArgument SourceFile)
    (destination : FileArgument DestinationFile) (options : Argument) :
    Option.Rel IoExit.Alike (brsExtCompressIo enc fuel m source destination options)
      (brsExtCompressIo enc fuel m' source destination options) := by
  refine ioCall_alike ?_ h source destination options
  intro gvl m n coder sourceFile _ _ destinationFile _ _ hsource hdestination
  exact Io.compress_alike hsource hdestination enc coder sourceFile destinationFile

theorem brsExtDecompressIo_alike (dec : Decoder σ) (source : FileArgument SourceFile)
    (destination : FileArgument DestinationFile) (options : Argument) :
    Option.Rel IoExit.Alike (brsExtDecompressIo dec fuel m source destination options)
      (brsExtDecompressIo dec fuel m' source destination options) := by
  refine ioCall_alike ?_ h source destination options
  intro gvl m n coder sourceFile _ _ destinationFile _ _ hsource hdestination
  exact Io.decompress_alike hsource hdestination dec coder sourceFile destinationFile

end Native

end RubyBrs
