/-
  RubyBrs.Ext.LibraryCalls

  The library calls that the loops of `string.c` and `io.c` make, as relations:
  a call is known by the variables it is made with.  The relations make sense of
  runs that do not end, so nothing here asks that they do.

  `windows_inside` is what holds at each call: both windows lie inside buffers
  that the program owns, and no arithmetic on `size_t` wraps.
-/

import RubyBrs.Ext.FormatDecoder
import RubyBrs.Ext.IoLoops
import RubyBrs.Ext.Stored
import RubyBrs.Ext.StringRefine
import Mathlib.Algebra.Order.Ring.Int

namespace RubyBrs

open StreamCodec WhileTrue Window

variable {κ σ τ ω ρ : Type}

/-! ## `size_t` -/

/-- `a + b` of two `size_t`. -/
def sizetAdd (a b : Nat) : Nat := (BitVec.ofNat 64 a + BitVec.ofNat 64 b).toNat

/-- `a - b` of two `size_t`. -/
def sizetSub (a b : Nat) : Nat := (BitVec.ofNat 64 a - BitVec.ofNat 64 b).toNat

/-- The sum does not wrap. -/
def AddExact (a b : Nat) : Prop := (sizetAdd a b : Int) = a + b

/-- The difference does not wrap. -/
def SubExact (a b : Nat) : Prop := (sizetSub a b : Int) = a - b

theorem addExact {a b : Nat} (h : a + b < 2 ^ 64) : AddExact a b := by
  have hsum : sizetAdd a b = a + b := by
    unfold sizetAdd
    rw [BitVec.toNat_add, BitVec.toNat_ofNat, BitVec.toNat_ofNat]
    omega
  unfold AddExact
  rw [hsum]
  omega

theorem subExact {a b : Nat} (hle : b ≤ a) (h : a < 2 ^ 64) : SubExact a b := by
  have hdifference : sizetSub a b = a - b := by
    unfold sizetSub
    rw [BitVec.toNat_sub, BitVec.toNat_ofNat, BitVec.toNat_ofNat]
    omega
  unfold SubExact
  rw [hdifference]
  omega

/-- One less than nothing is the largest `size_t`. -/
example : sizetSub 0 1 = 18446744073709551615 := by decide

/-! ## The calls of `string.c` -/

namespace Str

/-- The calls made in a run of `compress`. -/
def CompressCall (enc : Encoder σ) (gvl : Bool) (d : Nat) (coder : EncoderInstance σ)
    (memory : Memory) (source destinationValue : List UInt8) (v : Str (EncoderInstance σ)) :
    Prop :=
  Reaches (compressBody enc gvl d) (enter coder memory source destinationValue d) v

/-- The calls made in a run of `decompress`. -/
def DecompressCall (dec : Decoder σ) (gvl : Bool) (d : Nat) (coder : DecoderInstance σ)
    (memory : Memory) (source destinationValue : List UInt8) (v : Str (DecoderInstance σ)) :
    Prop :=
  Reaches (decompressBody dec gvl d) (enter coder memory source destinationValue d) v

/-- A call with the variables `v`, and with the given outcome, was offered all of
    the source that is left and all of the destination behind what is written, both
    inside their strings, and what the loop computes with `size_t` is exact. -/
structure CallFits (d : Nat) (v : Str (Coder UInt8 σ ω ρ))
    (outcome : Str (Coder UInt8 σ ω ρ) × ρ) : Prop where
  source_inside : v.remainingSource + v.remainingSourceLength = v.source.length
  destination_inside :
    v.destinationLength + v.remainingDestinationBufferLength = v.destinationValue.length
  called : outcome.1.coder.calls.getLast?.map (fun call => (call.input, call.room)) =
    some (window v.source v.remainingSource v.remainingSourceLength,
      v.remainingDestinationBufferLength)
  emitted_exact : SubExact v.remainingDestinationBufferLength
    outcome.1.remainingDestinationBufferLength
  length_exact : AddExact v.destinationLength
    (v.remainingDestinationBufferLength - outcome.1.remainingDestinationBufferLength)
  /-- The length that `increase_destination_buffer` asks for. -/
  increased_exact : AddExact
    (v.destinationLength +
      (v.remainingDestinationBufferLength - outcome.1.remainingDestinationBufferLength)) d

/-- Ruby keeps the length of a string in a `long`. -/
def LengthFits (v : Str κ) : Prop := v.destinationValue.length ≤ 2 ^ 63 - 1

instance (v : Str κ) : Decidable v.LengthFits := inferInstanceAs (Decidable (_ ≤ _))

theorem AtHead.callFits {codec : Codec UInt8 σ ω ρ} {operation : ω} {d : Nat}
    {source : List UInt8} {memory : Memory} {v : Str (Coder UInt8 σ ω ρ)}
    (h : AtHead d source memory v) (hd : d ≤ 2 ^ 62 - 1) (hlength : v.LengthFits) :
    CallFits d v (streamWrapper codec operation v) := by
  have hinside := h.wellFormed.destination_fits
  have hlength : v.destinationValue.length ≤ 2 ^ 63 - 1 := hlength
  have hremaining : (streamWrapper codec operation v).1.remainingDestinationBufferLength ≤
      v.remainingDestinationBufferLength := Nat.sub_le _ _
  exact
    { source_inside := h.wellFormed.source_fits
      destination_inside := hinside
      called := by simp [streamWrapper, sourceWindow]
      emitted_exact := subExact hremaining (by omega)
      length_exact := addExact (by omega)
      increased_exact := addExact (by omega) }

end Str

/-! ## The calls of `io.c` -/

namespace Io

/-- The variables that `compress` and `decompress` start with. -/
def enter (coder : κ) (sourceFile : SourceFile) (sourceBuffer : List UInt8)
    (destinationFile : DestinationFile) (destinationBuffer : List UInt8) : Io κ :=
  { coder, sourceFile, sourceBuffer, source := 0, sourceLength := 0, destinationFile,
    destinationBuffer, destinationLength := 0 }

/-- The variables of the calls made by a loop with the given body, as often as
    `BUFFERED_READ_SOURCE` enters it in a run from `s`. -/
def BufferedCall (body : Io κ → Option (Flow (Io κ) (ExtResult × Io κ))) (m fuel : Nat)
    (s : Bool × Io κ) (v : Io κ) : Prop :=
  ∃ w, FunctionCall (whileTrue body fuel) m s w ∧ Reaches body w v

/-- The calls made in a run of `compress` from the variables `w₀`. -/
inductive CompressCall (enc : Encoder σ) (gvl : Bool) (m n fuel : Nat)
    (w₀ : Io (EncoderInstance σ)) : Operation → Io (EncoderInstance σ) → Prop
  | process {v : Io (EncoderInstance σ)}
      (h : BufferedCall (bufferedCompressBody enc gvl n) m fuel (false, w₀) v) :
      CompressCall enc gvl m n fuel w₀ .process v
  | finish {w v : Io (EncoderInstance σ)}
      (h : bufferedReadSource (bufferedCompress enc gvl n fuel) m fuel w₀ = some (.ok, w))
      (hcall : Reaches (bufferedCompressorFinishBody enc gvl n) w v) :
      CompressCall enc gvl m n fuel w₀ .finish v

/-- The calls made in a run of `decompress` from the variables `w₀`. -/
def DecompressCall (dec : Decoder σ) (gvl : Bool) (m n fuel : Nat)
    (w₀ v : Io (DecoderInstance σ)) : Prop :=
  BufferedCall (bufferedDecompressBody dec gvl n) m fuel (false, w₀) v

variable {m n fuel : Nat}

theorem WellFormed.enter (coder : κ) (sourceFile : SourceFile) (sourceBuffer : List UInt8)
    (destinationFile : DestinationFile) (destinationBuffer : List UInt8) :
    (enter coder sourceFile sourceBuffer destinationFile destinationBuffer).WellFormed
      sourceBuffer.length destinationBuffer.length :=
  ⟨Nat.zero_le _, rfl, Nat.zero_le _, rfl⟩

section Macro

variable {function : Io κ → Option (ExtResult × Io κ)} {called₀ called : Bool} {w₀ w : Io κ}

/-- A function that keeps the cursors inside the buffers is called, and left, so. -/
theorem WellFormed.sourceReached
    (hfunction : ∀ w w', w.WellFormed m n → function w = some (.ok, w') → w'.WellFormed m n)
    (hw : w₀.WellFormed m n)
    (h : Reaches (bufferedReadSourceBody function m) (called₀, w₀) (called, w)) :
    w.WellFormed m n := by
  refine h.invariant (I := fun s => s.2.WellFormed m n) ?_ hw
  rintro ⟨called, v⟩ ⟨called', v'⟩ hv hbody
  cases bufferedReadSourceBody_round hbody with
  | next hr hf => exact hfunction _ _ (readMoreSource_cases hv).1.wellFormed hf

theorem WellFormed.functionCall
    (hfunction : ∀ w w', w.WellFormed m n → function w = some (.ok, w') → w'.WellFormed m n)
    (hw : w₀.WellFormed m n) (h : FunctionCall function m (called₀, w₀) w) :
    w.WellFormed m n := by
  cases h with
  | read h _ => exact (readMoreSource_cases (hw.sourceReached hfunction h)).1.wellFormed
  | once h _ _ => exact (readMoreSource_cases (hw.sourceReached hfunction h)).1.wellFormed

end Macro

section Loop

variable {codec : Codec UInt8 σ ω ρ} {operation : ω} {offered : Io (Coder UInt8 σ ω ρ) → Nat}
  {wrapper : Nat → Io (Coder UInt8 σ ω ρ) → Io (Coder UInt8 σ ω ρ) × Nat × ρ}
  {failure : Coder UInt8 σ ω ρ → ρ → Option ExtResult}
  {again : Coder UInt8 σ ω ρ → ρ → Bool} {gvl : Bool}

/-- A loop around a call leaves the cursors inside the buffers, and the source file
    alone. -/
theorem bufferedLoop_frame
    (hwrapper : ∀ room w, wrapper room w = streamWrapper codec operation (offered w) room w)
    (hoffered : ∀ w, offered w ≤ w.sourceLength) {w : Io (Coder UInt8 σ ω ρ)}
    {x : ExtResult × Io (Coder UInt8 σ ω ρ)} (hw : w.WellFormed m n)
    (h : whileTrue (bufferedBody wrapper failure again gvl n) fuel w = some x) :
    x.2.WellFormed m n ∧ x.2.sourceFile = w.sourceFile := by
  obtain ⟨v, hv, hexit⟩ := whileTrue_left h
  have hfile : v.sourceFile = w.sourceFile := by
    refine (hv.invariant (I := fun v => v.WellFormed m n ∧ v.sourceFile = w.sourceFile) ?_
      ⟨hw, rfl⟩).2
    rintro v v' ⟨hwf, hfile⟩ hbody
    have hwf' := hwf.reached hwrapper hoffered (.round .start hbody)
    cases Round.of_body hwrapper hwf (hoffered v) hbody with
    | flushed => exact ⟨hwf', hfile⟩
  have hwf := hw.reached hwrapper hoffered hv
  have hs : (streamed codec operation (offered v) n v).WellFormed m n :=
    streamed_wellFormed hwf (hoffered v)
  cases Round.of_body hwrapper hwf (hoffered v) hexit with
  | finished => exact ⟨hs, hfile⟩
  | stalled => exact ⟨hs, hfile⟩
  | failed =>
      exact ⟨⟨hs.source_fits, hs.sourceBuffer_length, hwf.destination_fits,
        hs.destinationBuffer_length⟩, hfile⟩
  | writeFailed =>
      exact ⟨⟨hs.source_fits, hs.sourceBuffer_length, hs.destination_fits,
        hs.destinationBuffer_length⟩, hfile⟩

theorem WellFormed.bufferedCall
    (hwrapper : ∀ room w, wrapper room w = streamWrapper codec operation (offered w) room w)
    (hoffered : ∀ w, offered w ≤ w.sourceLength) {called₀ : Bool}
    {w₀ v : Io (Coder UInt8 σ ω ρ)} (hw : w₀.WellFormed m n)
    (h : BufferedCall (bufferedBody wrapper failure again gvl n) m fuel (called₀, w₀) v) :
    v.WellFormed m n := by
  obtain ⟨w, hfunction, hcall⟩ := h
  have hwf := hw.functionCall
    (fun _ _ hw hf => (bufferedLoop_frame hwrapper hoffered hw hf).1) hfunction
  exact hwf.reached hwrapper hoffered hcall

end Loop

theorem bufferedCompress_frame {enc : Encoder σ} {gvl : Bool} {w : Io (EncoderInstance σ)}
    {x : ExtResult × Io (EncoderInstance σ)} (hw : w.WellFormed m n)
    (h : bufferedCompress enc gvl n fuel w = some x) :
    x.2.WellFormed m n ∧ x.2.sourceFile = w.sourceFile :=
  bufferedLoop_frame (compressWrapper_eq enc) (fun _ => le_refl _) hw h

theorem bufferedDecompress_frame {dec : Decoder σ} {gvl : Bool} {w : Io (DecoderInstance σ)}
    {x : ExtResult × Io (DecoderInstance σ)} (hw : w.WellFormed m n)
    (h : bufferedDecompress dec gvl n fuel w = some x) :
    x.2.WellFormed m n ∧ x.2.sourceFile = w.sourceFile :=
  bufferedLoop_frame (decompressWrapper_eq dec) (fun _ => le_refl _) hw h

/-- At each call of `compress` the cursors lie inside the buffers. -/
theorem CompressCall.wellFormed {enc : Encoder σ} {gvl : Bool}
    {w₀ v : Io (EncoderInstance σ)} {operation : Operation} (hw : w₀.WellFormed m n)
    (h : CompressCall enc gvl m n fuel w₀ operation v) : v.WellFormed m n := by
  cases h with
  | process h => exact hw.bufferedCall (compressWrapper_eq enc) (fun _ => le_refl _) h
  | finish h hcall =>
      have hloop : ∀ w x, w.WellFormed m n → bufferedCompress enc gvl n fuel w = some x →
          x.2.WellFormed m n := fun w x hw hf => (bufferedCompress_frame hw hf).1
      have hread : ∀ w : Io (EncoderInstance σ), w.WellFormed m n →
          (w.readMoreSource m).2.WellFormed m n := fun w hw =>
        (readMoreSource_cases hw).1.wellFormed
      have hwf := bufferedReadSource_partial (m := m) (I := fun _ w => w.WellFormed m n)
        (J := fun w => w.WellFormed m n) (Q := fun x => x.2.WellFormed m n)
        (fun _ w hw _ => hread w hw) (fun w _ hw hf => hloop w _ hw hf)
        (fun w _ _ hw hf _ => hloop w _ hw hf) (fun _ w hw _ _ => hread w hw)
        (fun w hw _ _ => hread w hw) (fun w x hw _ _ hf => hloop _ x (hread w hw) hf)
        (fun _ w hw _ _ => hread w hw) hw h
      exact hwf.reached (compressorFinishWrapper_eq enc) (fun _ => Nat.zero_le _) hcall

theorem DecompressCall.wellFormed {dec : Decoder σ} {gvl : Bool}
    {w₀ v : Io (DecoderInstance σ)} (hw : w₀.WellFormed m n)
    (h : DecompressCall dec gvl m n fuel w₀ v) : v.WellFormed m n :=
  hw.bufferedCall (decompressWrapper_eq dec) (fun _ => le_refl _) h

/-- A call with the variables `v`, and with the given outcome, was offered `input`,
    from inside the source buffer, and all of the destination buffer behind what is
    filled, and what the loop computes with `size_t` is exact. -/
structure CallFits (m n : Nat) (input : List UInt8) (v : Io (Coder UInt8 σ ω ρ))
    (outcome : Io (Coder UInt8 σ ω ρ) × Nat × ρ) : Prop where
  sourceBuffer_length : v.sourceBuffer.length = m
  source_inside : v.source + v.sourceLength ≤ m
  destinationBuffer_length : v.destinationBuffer.length = n
  destination_inside : v.destinationLength ≤ n
  called : outcome.1.coder.calls.getLast?.map (fun call => (call.input, call.room)) =
    some (input, n - v.destinationLength)
  remaining_exact : SubExact n v.destinationLength
  emitted_exact : SubExact (n - v.destinationLength) outcome.2.1
  length_exact : AddExact v.destinationLength (n - v.destinationLength - outcome.2.1)

/-- What `read_more_source` computes with `size_t` is exact. -/
structure ReadFits (m : Nat) (w : Io κ) : Prop where
  source_inside : w.source + w.sourceLength ≤ m
  remaining_exact : SubExact m w.sourceLength
  length_exact : (w.readMoreSource m).1 = .ok → AddExact w.sourceLength
    (readFile w.sourceFile (m - w.sourceLength)).2.1.length

theorem WellFormed.callFits {codec : Codec UInt8 σ ω ρ} {operation : ω} {offered : Nat}
    {v : Io (Coder UInt8 σ ω ρ)} (hv : v.WellFormed m n) (hoff : offered ≤ v.sourceLength)
    (hn : n ≤ 2 ^ 62 - 1) :
    CallFits m n (v.sourceWindow.take offered) v
      (streamWrapper codec operation offered (n - v.destinationLength) v) := by
  have hinside := hv.destination_fits
  have hremaining : (streamWrapper codec operation offered (n - v.destinationLength) v).2.1 ≤
      n - v.destinationLength := Nat.sub_le _ _
  exact
    { sourceBuffer_length := hv.sourceBuffer_length
      source_inside := hv.source_fits
      destinationBuffer_length := hv.destinationBuffer_length
      destination_inside := hinside
      called := by
        rw [← window_offered hoff]
        simp [streamWrapper]
      remaining_exact := subExact hinside (by omega)
      emitted_exact := subExact hremaining (by omega)
      length_exact := addExact (by omega) }

/-- A call that offers all of the source. -/
theorem WellFormed.callFits_all {codec : Codec UInt8 σ ω ρ} {operation : ω}
    {v : Io (Coder UInt8 σ ω ρ)} (hv : v.WellFormed m n) (hn : n ≤ 2 ^ 62 - 1) :
    CallFits m n v.sourceWindow v
      (streamWrapper codec operation v.sourceLength (n - v.destinationLength) v) := by
  have hall : v.sourceWindow.take v.sourceLength = v.sourceWindow := by
    rw [← hv.sourceWindow_length, List.take_length]
  have hfits : CallFits m n (v.sourceWindow.take v.sourceLength) v
      (streamWrapper codec operation v.sourceLength (n - v.destinationLength) v) :=
    hv.callFits (le_refl _) hn
  rwa [hall] at hfits

theorem WellFormed.readFits {w : Io κ} (hw : w.WellFormed m n) (hm : m ≤ 2 ^ 62 - 1) :
    ReadFits m w := by
  have hinside := hw.source_fits
  refine ⟨hinside, subExact (by omega) (by omega), fun hok => addExact ?_⟩
  -- A read that is made at all is made of a non-zero length.
  have hpos : 0 < m - w.sourceLength := by
    rcases Nat.eq_zero_or_pos (m - w.sourceLength) with hzero | hpos
    · have hfull := readMoreSource_full (m := m) (w := w) (by omega)
      exact absurd (hok.symm.trans hfull) (by decide)
    · exact hpos
  have hread : (readFile w.sourceFile (m - w.sourceLength)).2.1.length ≤ m - w.sourceLength := by
    rcases readFile_cases w.sourceFile hpos with ⟨_, _, hle, _⟩ | ⟨_, hnil, _⟩ | ⟨_, hle, _⟩
    · exact hle
    · rw [hnil]
      exact Nat.zero_le _
    · exact hle
  omega

end Io

/-! ## Every window lies inside its buffer -/

section Windows

variable (enc : Encoder σ) (dec : Decoder τ) (gvl : Bool) (handle : Nat)
  (initEncoder : σ) (initDecoder : τ)

/-- What holds at every call of the two functions of `string.c`, entered with a
    destination of `destination_buffer_length` bytes. -/
structure Str.WindowsInside (memory : Memory) (source destinationValue : List UInt8) : Prop where
  compress : ∀ v, Str.CompressCall enc gvl destinationValue.length ⟨handle, initEncoder, []⟩
    memory source destinationValue v →
    Str.CallFits destinationValue.length v (Str.compressWrapper enc v)
  decompress : ∀ v, Str.DecompressCall dec gvl destinationValue.length ⟨handle, initDecoder, []⟩
    memory source destinationValue v →
    Str.CallFits destinationValue.length v (Str.decompressWrapper dec v)

/-- What holds at every read and every call of the two functions of `io.c`, for
    runs with any amount of fuel. -/
structure Io.WindowsInside (sourceFile : SourceFile) (destinationFile : DestinationFile)
    (sourceBuffer destinationBuffer : List UInt8) (fuel : Nat) : Prop where
  compress_read : ∀ called w, Reaches (Io.bufferedReadSourceBody
      (Io.bufferedCompress enc gvl destinationBuffer.length fuel) sourceBuffer.length)
    (false, Io.enter ⟨handle, initEncoder, []⟩ sourceFile sourceBuffer destinationFile
      destinationBuffer) (called, w) → Io.ReadFits sourceBuffer.length w
  process : ∀ v, Io.CompressCall enc gvl sourceBuffer.length destinationBuffer.length fuel
    (Io.enter ⟨handle, initEncoder, []⟩ sourceFile sourceBuffer destinationFile
      destinationBuffer) .process v →
    Io.CallFits sourceBuffer.length destinationBuffer.length v.sourceWindow v
      (Io.compressWrapper enc (destinationBuffer.length - v.destinationLength) v)
  finish : ∀ v, Io.CompressCall enc gvl sourceBuffer.length destinationBuffer.length fuel
    (Io.enter ⟨handle, initEncoder, []⟩ sourceFile sourceBuffer destinationFile
      destinationBuffer) .finish v →
    Io.CallFits sourceBuffer.length destinationBuffer.length [] v
      (Io.compressorFinishWrapper enc (destinationBuffer.length - v.destinationLength) v)
  decompress_read : ∀ called w, Reaches (Io.bufferedReadSourceBody
      (Io.bufferedDecompress dec gvl destinationBuffer.length fuel) sourceBuffer.length)
    (false, Io.enter ⟨handle, initDecoder, []⟩ sourceFile sourceBuffer destinationFile
      destinationBuffer) (called, w) → Io.ReadFits sourceBuffer.length w
  decompress : ∀ v, Io.DecompressCall dec gvl sourceBuffer.length destinationBuffer.length fuel
    (Io.enter ⟨handle, initDecoder, []⟩ sourceFile sourceBuffer destinationFile
      destinationBuffer) v →
    Io.CallFits sourceBuffer.length destinationBuffer.length v.sourceWindow v
      (Io.decompressWrapper dec (destinationBuffer.length - v.destinationLength) v)

/-- Every window handed to the library lies inside a buffer of the program, and no
    arithmetic on `size_t` wraps: for every codec and every buffer length up to the
    largest fixnum.  Of Ruby it is assumed that the length of a string fits in a
    `long`. -/
theorem windows_inside {source destinationValue sourceBuffer destinationBuffer : List UInt8}
    {memory : Memory} (sourceFile : SourceFile) (destinationFile : DestinationFile)
    (hvalue : destinationValue.length ≤ 2 ^ 62 - 1) (hsource : sourceBuffer.length ≤ 2 ^ 62 - 1)
    (hdestination : destinationBuffer.length ≤ 2 ^ 62 - 1)
    (hcompress : ∀ v, Str.CompressCall enc gvl destinationValue.length
      ⟨handle, initEncoder, []⟩ memory source destinationValue v → v.LengthFits)
    (hdecompress : ∀ v, Str.DecompressCall dec gvl destinationValue.length
      ⟨handle, initDecoder, []⟩ memory source destinationValue v → v.LengthFits) :
    Str.WindowsInside enc dec gvl handle initEncoder initDecoder memory source
      destinationValue ∧
    ∀ fuel, Io.WindowsInside enc dec gvl handle initEncoder initDecoder sourceFile
      destinationFile sourceBuffer destinationBuffer fuel := by
  refine ⟨⟨fun v hv => ?_, fun v hv => ?_⟩, fun fuel =>
    ⟨fun called w hw => ?_, fun v hv => ?_, fun v hv => ?_, fun called w hw => ?_,
      fun v hv => ?_⟩⟩
  · exact ((Str.AtHead.enter _ rfl rfl).reached hv).callFits hvalue (hcompress v hv)
  · exact ((Str.AtHead.enter _ rfl rfl).reached hv).callFits hvalue (hdecompress v hv)
  · have hwf := (Io.WellFormed.enter _ _ _ _ _).sourceReached (fun _ _ hw hf =>
      (Io.bufferedCompress_frame hw hf).1) hw
    exact hwf.readFits hsource
  · have hwf := hv.wellFormed (Io.WellFormed.enter _ _ _ _ _)
    exact hwf.callFits_all hdestination
  · have hwf := hv.wellFormed (Io.WellFormed.enter _ _ _ _ _)
    exact hwf.callFits (Nat.zero_le _) hdestination
  · have hwf := (Io.WellFormed.enter _ _ _ _ _).sourceReached (fun _ _ hw hf =>
      (Io.bufferedDecompress_frame hw hf).1) hw
    exact hwf.readFits hsource
  · have hwf := hv.wellFormed (Io.WellFormed.enter _ _ _ _ _)
    exact hwf.callFits_all hdestination

/-- An encoder that takes one byte at each call and passes it on as it is.  The
    state is what it could not emit yet, and whether the stream is finished. -/
def echoEncoder : Encoder (List UInt8 × Bool) where
  stream s operation input room :=
    { state := ((s.1 ++ input.take 1).drop room,
        operation == .finish && decide (input.length ≤ 1 ∧ (s.1 ++ input.take 1).length ≤ room))
      consumed := (input.take 1).length
      output := (s.1 ++ input.take 1).take room
      result := true }
  consumed_le _ _ _ _ := by
    rw [List.length_take]
    exact Nat.min_le_right _ _
  output_le _ _ _ _ := by
    rw [List.length_take]
    exact Nat.min_le_left _ _
  create := ([], false)
  setParameter s _ _ := (true, s)
  hasMoreOutput s := !s.1.isEmpty
  isFinished s := s.2 && s.1.isEmpty

/-- Three bytes, each in a stored meta-block. -/
def threeBlocks : List UInt8 :=
  [0x0b, 0x00, 0x80, 0x07, 0x00, 0x00, 0x08, 0x08, 0x00, 0x00, 0x08, 0x09, 0x03]

/-- Runs through buffers of two bytes.  `compress` of `string.c` grows its
    destination with room left, after each byte; `compress` of `io.c` moves what is
    left in the source buffer to the front, and calls the library with a full
    destination buffer. -/
theorem windows_inside_echo :
    Str.WindowsInside echoEncoder (formatDecoder storedFormat id) true 0 echoEncoder.create
      (formatDecoder storedFormat id).create .unused threeBlocks [0, 0] ∧
    (∀ fuel, Io.WindowsInside echoEncoder (formatDecoder storedFormat id) true 0
      echoEncoder.create (formatDecoder storedFormat id).create (.opened threeBlocks [])
      (.opened []) [0, 0] [0, 0] fuel) ∧
    (∃ v, Str.CompressCall echoEncoder true 2 ⟨0, echoEncoder.create, []⟩ .unused threeBlocks
      [0, 0] v ∧ v.destinationLength = 2 ∧ v.destinationValue.length = 4) ∧
    (∃ called w, Reaches (Io.bufferedReadSourceBody (Io.bufferedCompress echoEncoder true 2 9) 2)
      (false, Io.enter ⟨0, echoEncoder.create, []⟩ (.opened threeBlocks []) [0, 0] (.opened [])
        [0, 0]) (called, w) ∧ w.source = 1 ∧ w.sourceLength = 1) ∧
    ∃ v, Io.CompressCall echoEncoder true 2 2 9 (Io.enter ⟨0, echoEncoder.create, []⟩
      (.opened threeBlocks []) [0, 0] (.opened []) [0, 0]) .process v ∧
      v.destinationLength = 2 := by
  have htwo : ([0, 0] : List UInt8).length ≤ 2 ^ 62 - 1 := by decide
  have hcompress : ∀ v, Str.CompressCall echoEncoder true 2 ⟨0, echoEncoder.create, []⟩ .unused
      threeBlocks [0, 0] v → v.LengthFits := by
    intro v hv
    have hchecked : checkRounds Str.LengthFits (Str.compressBody echoEncoder true 2) 14
        (Str.enter ⟨0, echoEncoder.create, []⟩ .unused threeBlocks [0, 0] 2) = true := rfl
    exact checkRounds_reaches hchecked hv
  have hdecompress : ∀ v, Str.DecompressCall (formatDecoder storedFormat id) true 2
      ⟨0, (formatDecoder storedFormat id).create, []⟩ .unused threeBlocks [0, 0] v →
      v.LengthFits := by
    intro v hv
    have hchecked : checkRounds Str.LengthFits
        (Str.decompressBody (formatDecoder storedFormat id) true 2) 2
        (Str.enter ⟨0, (formatDecoder storedFormat id).create, []⟩ .unused threeBlocks [0, 0] 2) =
          true := rfl
    exact checkRounds_reaches hchecked hv
  obtain ⟨hstring, hio⟩ := windows_inside echoEncoder (formatDecoder storedFormat id) true 0
    echoEncoder.create (formatDecoder storedFormat id).create (.opened threeBlocks [])
    (.opened []) htwo htwo htwo hcompress hdecompress
  refine ⟨hstring, hio, ?_, ?_, ?_⟩
  · exact ⟨_, .round (.round .start rfl) rfl, rfl, rfl⟩
  · exact ⟨_, _, .round .start rfl, rfl, rfl⟩
  · exact ⟨_, .process ⟨_, .read (.round (.round .start rfl) rfl) rfl, .start⟩, rfl⟩

end Windows

end RubyBrs
