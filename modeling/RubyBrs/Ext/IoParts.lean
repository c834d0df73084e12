/-
  RubyBrs.Ext.IoParts

  What `brs_ext_compress_io` and `brs_ext_decompress_io` leave in the destination when
  they fail, and when they do not.

  The destination only grows (`DestinationFile.Grows`), and what was written to it at
  any time is a first part of what the codec has emitted without an error (`Within`).
  A call of the codec that fails adds nothing to it.  So whatever failed, an allocation, a
  read, a write or a call, nothing wrong is on the device: behind what was there before,
  a compression leaves bytes that decode to a first part of the source, and a
  decompression leaves a first part of what the source decodes to (`io_parts`).
-/

import RubyBrs.Ext.Completion
import RubyBrs.Ext.Delivery
import RubyBrs.Ext.FailingCalls
import RubyBrs.Ext.Returned
import RubyBrs.Ext.StreamFollowing

namespace RubyBrs

open StreamCodec StreamFormat WhileTrue

variable {κ σ τ ω ρ : Type}

/-! ## Unfinished operations -/

namespace Encoder

variable {enc : Encoder σ} {i : EncoderInstance σ} {op : Operation} {input : List UInt8}

/-- What is left of an operation in progress is what the next call has to offer. -/
theorem Allowed.unfinished_prefix (h : enc.Allowed i op input) : enc.unfinished i <+: input := by
  unfold Allowed at h
  cases hlast : i.calls.getLast? with
  | none =>
      rw [unfinished_none hlast]
      exact List.nil_prefix
  | some last =>
      rw [hlast] at h
      cases hpending : enc.pending last.operation i.state with
      | true =>
          simp only [hpending, if_true] at h
          rw [unfinished_pending hlast hpending, h.2]
      | false =>
          rw [unfinished_done hlast hpending]
          exact List.nil_prefix

/-- What is left of an operation is left of the bytes that its last call was offered. -/
theorem unfinished_call (enc : Encoder σ) (i : EncoderInstance σ) (op : Operation)
    (input : List UInt8) (room : Nat) :
    enc.unfinished (enc.call i op input room) <+:
      input.drop (enc.stream i.state op input room).consumed := by
  have hlast := enc.call_getLast i op input room
  cases hpending : enc.pending op (enc.call i op input room).state with
  | true =>
      rw [unfinished_pending hlast hpending]
      exact List.prefix_refl _
  | false =>
      rw [unfinished_done hlast hpending]
      exact List.nil_prefix

end Encoder

/-! ## Files that grow -/

namespace DestinationFile

/-- Nothing that was written, and nothing that is on the device, is taken back. -/
structure Grows (f g : DestinationFile) : Prop where
  written : f.written <+: g.written
  device : f.device <+: g.device

theorem Grows.refl (f : DestinationFile) : f.Grows f := ⟨List.prefix_refl _, List.prefix_refl _⟩

theorem Grows.trans {f g h : DestinationFile} (hfg : f.Grows g) (hgh : g.Grows h) : f.Grows h :=
  ⟨hfg.written.trans hgh.written, hfg.device.trans hgh.device⟩

theorem drain_written (f : DestinationFile) (n : Nat) : (f.drain n).written = f.written := by
  show (f.device ++ f.buffered.take n) ++ f.buffered.drop n = f.device ++ f.buffered
  rw [List.append_assoc, List.take_append_drop]

theorem drain_device (f : DestinationFile) (n : Nat) : f.device <+: (f.drain n).device :=
  List.prefix_append _ _

/-- A write adds a first part of the bytes, also when it fails. -/
theorem fwrite_part (f : DestinationFile) (bytes : List UInt8) :
    f.Grows (f.fwrite bytes).2 ∧ (f.fwrite bytes).2.written <+: f.written ++ bytes := by
  have hadded : ∀ (kept : List UInt8) (g : DestinationFile) (n : Nat), kept <+: bytes →
      g.device = f.device → g.buffered = f.buffered ++ kept →
      f.Grows (g.drain n) ∧ (g.drain n).written <+: f.written ++ bytes := by
    intro kept g n hkept hdevice hbuffered
    have hwritten : (g.drain n).written = f.written ++ kept := by
      rw [drain_written, written, written, hdevice, hbuffered, List.append_assoc]
    refine ⟨⟨?_, ?_⟩, ?_⟩
    · rw [hwritten]
      exact List.prefix_append _ _
    · rw [← hdevice]
      exact g.drain_device n
    · rw [hwritten]
      exact (List.prefix_append_right_inj _).mpr hkept
  unfold fwrite
  split
  · exact ⟨.refl f, List.prefix_append _ _⟩
  · split
    · exact hadded _ _ _ (List.take_prefix _ _) rfl rfl
    · exact hadded bytes _ _ (List.prefix_refl _) rfl rfl

/-- A flush moves bytes to the device, and adds none. -/
theorem fflush_part (f : DestinationFile) :
    f.Grows f.fflush.2 ∧ f.fflush.2.written = f.written := by
  have hmoved : ∀ (g : DestinationFile) (n : Nat), g.device = f.device →
      g.buffered = f.buffered → f.Grows (g.drain n) ∧ (g.drain n).written = f.written := by
    intro g n hdevice hbuffered
    have hwritten : (g.drain n).written = f.written := by
      rw [drain_written, written, written, hdevice, hbuffered]
    refine ⟨⟨?_, ?_⟩, hwritten⟩
    · rw [hwritten]
    · rw [← hdevice]
      exact g.drain_device n
  unfold fflush
  split
  · split
    · exact ⟨⟨List.prefix_refl _, List.prefix_refl _⟩, rfl⟩
    · exact hmoved _ _ rfl rfl
  · exact hmoved _ _ rfl rfl

end DestinationFile

/-! ## The destination grows -/

namespace Io

variable {w : Io κ} {x : ExtResult × Io κ}

theorem writeFile_part (f : DestinationFile) (buffer : List UInt8) (length : Nat) :
    f.Grows (writeFile f buffer length).2 ∧
      (writeFile f buffer length).2.written <+: f.written ++ buffer.take length := by
  have hpart := f.fwrite_part (buffer.take length)
  unfold writeFile
  dsimp only
  split <;> exact hpart

/-- What a flush makes of the file, whatever its result. -/
theorem flushDestinationBuffer_part (w : Io κ) :
    w.destinationFile.Grows w.flushDestinationBuffer.2.destinationFile ∧
      w.flushDestinationBuffer.2.destinationFile.written <+:
        w.destinationFile.written ++ w.destinationBuffer.take w.destinationLength := by
  have hpart := writeFile_part w.destinationFile w.destinationBuffer w.destinationLength
  unfold flushDestinationBuffer
  split
  · exact ⟨.refl _, List.prefix_append _ _⟩
  · dsimp only
    split <;> exact hpart

theorem writeRemainingDestination_part (w : Io κ) :
    w.destinationFile.Grows w.writeRemainingDestination.2.destinationFile ∧
      w.writeRemainingDestination.2.destinationFile.written <+:
        w.destinationFile.written ++ w.destinationBuffer.take w.destinationLength := by
  have hpart := writeFile_part w.destinationFile w.destinationBuffer w.destinationLength
  unfold writeRemainingDestination
  split
  · exact ⟨.refl _, List.prefix_append _ _⟩
  · exact hpart

section Grows

variable {before : DestinationFile} {wrapper : Nat → Io κ → Io κ × Nat × ρ}
  {failure : κ → ρ → Option ExtResult} {again : κ → ρ → Bool} {gvl : Bool} {m n fuel : Nat}

/-- The variables with which a round of a loop ends. -/
def flowEnd : Flow (Io κ) (ExtResult × Io κ) → Io κ
  | .next w => w
  | .exit x => x.2

theorem bufferedBody_grows
    (hwrapper : ∀ room w, (wrapper room w).1.destinationFile = w.destinationFile)
    (h : before.Grows w.destinationFile) {flow : Flow (Io κ) (ExtResult × Io κ)}
    (hbody : bufferedBody wrapper failure again gvl n w = some flow) :
    before.Grows (flowEnd flow).destinationFile := by
  have hcall := hwrapper (n - w.destinationLength) w
  simp only [bufferedBody, gvlWrap_eq] at hbody
  generalize wrapper (n - w.destinationLength) w = called at hcall hbody
  obtain ⟨v, remaining, result⟩ := called
  have hv : before.Grows v.destinationFile := by
    rw [show v.destinationFile = w.destinationFile from hcall]
    exact h
  cases hfailure : failure v.coder result with
  | some extResult =>
      simp only [hfailure, Option.some.injEq] at hbody
      rw [← hbody]
      exact hv
  | none =>
      simp only [hfailure] at hbody
      split at hbody
      · have hflush := hv.trans (flushDestinationBuffer_part { v with
          destinationLength := v.destinationLength + (n - w.destinationLength - remaining) }).1
        split at hbody
        · rw [← Option.some.inj hbody]
          exact hflush
        · rw [← Option.some.inj hbody]
          exact hflush
      · rw [← Option.some.inj hbody]
        exact hv

theorem bufferedLoop_grows
    (hwrapper : ∀ room w, (wrapper room w).1.destinationFile = w.destinationFile)
    (h : before.Grows w.destinationFile)
    (hx : whileTrue (bufferedBody wrapper failure again gvl n) fuel w = some x) :
    before.Grows x.2.destinationFile := by
  refine whileTrue_invariant (I := fun w => before.Grows w.destinationFile)
    (Q := fun x => before.Grows x.2.destinationFile) ?_ ?_ h hx
  · intro w w' hw hbody
    exact bufferedBody_grows hwrapper hw hbody
  · intro w x hw hbody
    exact bufferedBody_grows hwrapper hw hbody

theorem bufferedReadSource_grows {function : Io κ → Option (ExtResult × Io κ)}
    (hfunction : ∀ w x, before.Grows w.destinationFile → function w = some x →
      before.Grows x.2.destinationFile)
    (h : before.Grows w.destinationFile) (hx : bufferedReadSource function m fuel w = some x) :
    before.Grows x.2.destinationFile := by
  have hread : ∀ w : Io κ, before.Grows w.destinationFile →
      before.Grows (w.readMoreSource m).2.destinationFile := by
    intro w hw
    rw [readMoreSource_destinationFile]
    exact hw
  refine bufferedReadSource_partial (I := fun _ w => before.Grows w.destinationFile)
    (J := fun w => before.Grows w.destinationFile)
    (Q := fun x => before.Grows x.2.destinationFile) ?_ ?_ ?_ ?_ ?_ ?_ ?_ h hx
  · intro _ w hw _
    exact hread w hw
  · intro w w' hw hf
    exact hfunction w _ hw hf
  · intro w extResult w' hw hf _
    exact hfunction w _ hw hf
  · intro _ w hw _ _
    exact hread w hw
  · intro w hw _ _
    exact hread w hw
  · intro w x hw _ _ hf
    exact hfunction _ x (hread w hw) hf
  · intro _ w hw _ _
    exact hread w hw

end Grows

section Whole

variable {gvl : Bool} {m n fuel : Nat} {sourceFile : SourceFile} {sourceBuffer : List UInt8}
  {destinationFile : DestinationFile} {destinationBuffer : List UInt8}

theorem compress_grows {enc : Encoder σ} {coder : EncoderInstance σ}
    {x : ExtResult × Io (EncoderInstance σ)}
    (h : compress enc gvl m n fuel coder sourceFile sourceBuffer destinationFile
      destinationBuffer = some x) : destinationFile.Grows x.2.destinationFile := by
  obtain ⟨⟨extResult, w₁⟩, hread, hx⟩ := Option.bind_eq_some_iff.mp h
  have hw₁ : destinationFile.Grows w₁.destinationFile :=
    bufferedReadSource_grows (fun w x hw hf => bufferedLoop_grows (fun _ _ => rfl) hw hf)
      (.refl _) hread
  dsimp only at hx
  split at hx
  · obtain rfl := Option.some.inj hx
    exact hw₁
  · obtain ⟨⟨extResult', w₂⟩, hfinish, rfl⟩ := Option.map_eq_some_iff.mp hx
    have hw₂ : destinationFile.Grows w₂.destinationFile :=
      bufferedLoop_grows (fun _ _ => rfl) hw₁ hfinish
    split
    · exact hw₂
    · exact hw₂.trans w₂.writeRemainingDestination_part.1

theorem decompress_grows {dec : Decoder σ} {coder : DecoderInstance σ}
    {x : ExtResult × Io (DecoderInstance σ)}
    (h : decompress dec gvl m n fuel coder sourceFile sourceBuffer destinationFile
      destinationBuffer = some x) : destinationFile.Grows x.2.destinationFile := by
  obtain ⟨⟨extResult, w⟩, hread, rfl⟩ := Option.map_eq_some_iff.mp h
  have hw : destinationFile.Grows w.destinationFile :=
    bufferedReadSource_grows (fun w x hw hf => bufferedLoop_grows (fun _ _ => rfl) hw hf)
      (.refl _) hread
  dsimp only
  split
  · exact hw
  · exact hw.trans w.writeRemainingDestination_part.1

end Whole

/-! ## What was written -/

/-- What was written to the file since it was `before` is a first part of some bytes
    with the property. -/
def Within (P : List UInt8 → Prop) (before f : DestinationFile) : Prop :=
  ∃ bytes, P bytes ∧ f.written <+: before.written ++ bytes

section Within

variable {P : List UInt8 → Prop} {m n fuel : Nat} {sourceFile : SourceFile}
  {destinationFile : DestinationFile}

/-- After a write of what is in the buffer it is a first part of what the codec has
    emitted, whatever was written of it. -/
theorem Moved.within_part {w : Io (Coder UInt8 σ ω ρ)}
    (h : Moved m n sourceFile destinationFile w) (hP : P w.coder.emitted) {f : DestinationFile}
    (hf : f.written <+:
      w.destinationFile.written ++ w.destinationBuffer.take w.destinationLength) :
    Within P destinationFile f := by
  have hall : w.destinationFile.written ++ w.destinationBuffer.take w.destinationLength =
      destinationFile.written ++ w.coder.emitted := h.balanced.2
  rw [hall] at hf
  exact ⟨w.coder.emitted, hP, hf⟩

/-- So it is between any two steps. -/
theorem Moved.within {w : Io (Coder UInt8 σ ω ρ)} (h : Moved m n sourceFile destinationFile w)
    (hP : P w.coder.emitted) : Within P destinationFile w.destinationFile :=
  h.within_part hP (List.prefix_append _ _)

section Loop

variable {codec : Codec UInt8 σ ω ρ} {operation : ω} {offered : Io (Coder UInt8 σ ω ρ) → Nat}
  {wrapper : Nat → Io (Coder UInt8 σ ω ρ) → Io (Coder UInt8 σ ω ρ) × Nat × ρ}
  {failure : Coder UInt8 σ ω ρ → ρ → Option ExtResult}
  {again : Coder UInt8 σ ω ρ → ρ → Bool} {gvl : Bool}

/-- A way out of the loop around a call.  The bytes of a call that failed are never
    written. -/
theorem bufferedBody_within
    (hwrapper : ∀ room w, wrapper room w = streamWrapper codec operation (offered w) room w)
    {w : Io (Coder UInt8 σ ω ρ)} (hw : Moved m n sourceFile destinationFile w)
    (hoff : offered w ≤ w.sourceLength) (hP : P w.coder.emitted)
    (hcall : failure (streamed codec operation (offered w) n w).coder
        (streamAnswer codec operation (offered w) n w).result = none →
      P (streamed codec operation (offered w) n w).coder.emitted)
    {x : ExtResult × Io (Coder UInt8 σ ω ρ)}
    (hbody : bufferedBody wrapper failure again gvl n w = some (.exit x)) :
    Within P destinationFile x.2.destinationFile := by
  rw [bufferedBody_eq hwrapper w hoff] at hbody
  have hstreamed : Moved m n sourceFile destinationFile
      (streamed codec operation (offered w) n w) := hw.streamed hoff
  cases hfailure : failure (streamed codec operation (offered w) n w).coder
      (streamAnswer codec operation (offered w) n w).result with
  | some extResult =>
      simp only [hfailure, Option.some.injEq, Flow.exit.injEq] at hbody
      rw [← hbody]
      exact hw.within hP
  | none =>
      simp only [hfailure] at hbody
      split at hbody
      · split at hbody
        · simp only [Option.some.injEq, Flow.exit.injEq] at hbody
          rw [← hbody]
          exact hstreamed.within_part (hcall hfailure) (flushDestinationBuffer_part _).2
        · cases hbody
      · simp only [Option.some.injEq, Flow.exit.injEq] at hbody
        rw [← hbody]
        exact hw.within hP

/-- And so out of the loop, for an invariant that the rounds keep. -/
theorem bufferedLoop_within
    (hwrapper : ∀ room w, wrapper room w = streamWrapper codec operation (offered w) room w)
    {I : Io (Coder UInt8 σ ω ρ) → Prop}
    (hI : ∀ w, I w → Moved m n sourceFile destinationFile w ∧ offered w ≤ w.sourceLength ∧
      P w.coder.emitted)
    (hcall : ∀ w, I w → failure (streamed codec operation (offered w) n w).coder
        (streamAnswer codec operation (offered w) n w).result = none →
      P (streamed codec operation (offered w) n w).coder.emitted)
    (hround : ∀ w f, I w → failure (streamed codec operation (offered w) n w).coder
        (streamAnswer codec operation (offered w) n w).result = none →
      again (streamed codec operation (offered w) n w).coder
        (streamAnswer codec operation (offered w) n w).result = true →
      f.written = w.destinationFile.written ++
        (streamed codec operation (offered w) n w).destinationBuffer.take
          (streamed codec operation (offered w) n w).destinationLength →
      f.error = w.destinationFile.error →
      (w.destinationFile.Faultless → f.Faultless) →
      I { streamed codec operation (offered w) n w with
        destinationFile := f, destinationLength := 0 })
    {w : Io (Coder UInt8 σ ω ρ)} {x : ExtResult × Io (Coder UInt8 σ ω ρ)} (hw : I w)
    (h : whileTrue (bufferedBody wrapper failure again gvl n) fuel w = some x) :
    Within P destinationFile x.2.destinationFile := by
  refine whileTrue_invariant (I := I)
    (Q := fun x => Within P destinationFile x.2.destinationFile) ?_ ?_ hw h
  · intro w w' hw hbody
    obtain ⟨hmoved, hoff, -⟩ := hI w hw
    cases Round.of_body hwrapper hmoved.wellFormed hoff hbody with
    | flushed hnone hagain _ hwritten herror hfaultless =>
        exact hround w _ hw hnone hagain hwritten herror hfaultless
  · intro w x hw hbody
    obtain ⟨hmoved, hoff, hP⟩ := hI w hw
    exact bufferedBody_within hwrapper hmoved hoff hP (hcall w hw) hbody

end Loop

end Within

/-! ## Compression -/

section Compress

variable {enc faulty : Encoder σ} {fmt : Format UInt8} {init : σ} {m n fuel : Nat} {gvl : Bool}
  {sourceFile : SourceFile} {destinationFile : DestinationFile}
  {sourceBuffer destinationBuffer : List UInt8} {handle : Nat}
  {w : Io (EncoderInstance σ)} {x : ExtResult × Io (EncoderInstance σ)}

/-- What the bytes decode to is a first part of the source. -/
def DecodesInto (fmt : Format UInt8) (source bytes : List UInt8) : Prop :=
  fmt.decodable bytes <+: source

/-- In a session on the file it is so of all that was emitted. -/
theorem Compressing.decodesInto (henc : enc.Contract compressOperations fmt init)
    (h : Compressing enc init m n sourceFile destinationFile w)
    (hunfinished : enc.unfinished w.coder <+: w.sourceWindow) :
    DecodesInto fmt sourceFile.unread w.coder.emitted := by
  refine (henc.decodable_emitted (by decide) h.session).trans ?_
  have hoffered := h.offered_prefix w.sourceLength
  rw [← h.wellFormed.sourceWindow_length, List.take_length] at hoffered
  exact ((List.prefix_append_right_inj _).mpr hunfinished).trans hoffered

theorem Idle.decodesInto (henc : enc.Contract compressOperations fmt init)
    (h : Idle enc init m n sourceFile destinationFile w) :
    DecodesInto fmt sourceFile.unread w.coder.emitted := by
  have hallowed : enc.Allowed w.coder .process w.sourceWindow :=
    Encoder.Allowed.of_complete h.completed
  exact h.toCompressing.decodesInto henc hallowed.unfinished_prefix

/-- The loop around one operation.  A call that fails leaves it, so the calls that it goes
    on after are those of the other encoder. -/
theorem operationLoop_within (henc : enc.Contract compressOperations fmt init)
    (hfaulty : enc.Faulty faulty) {operation : Operation} {offered : Io (EncoderInstance σ) → Nat}
    {wrapper : Nat → Io (EncoderInstance σ) → Io (EncoderInstance σ) × Nat × Bool}
    {w₀ : Io (EncoderInstance σ)}
    (hwrapper : ∀ room w,
      wrapper room w = streamWrapper faulty.toCodec operation (offered w) room w)
    (hoffered : ∀ w w' : Io (EncoderInstance σ), offered w = w.sourceLength →
      w'.sourceLength ≤ w.sourceLength → offered w' = w'.sourceLength)
    (h : Asking enc init m n sourceFile destinationFile operation offered w₀ w)
    (hx : whileTrue (bufferedBody wrapper encoderFailure
      (fun i _ => faulty.pending operation i.state) gvl n) fuel w = some x) :
    Within (DecodesInto fmt sourceFile.unread) destinationFile x.2.destinationFile := by
  have hI : ∀ w, Asking enc init m n sourceFile destinationFile operation offered w₀ w →
      Moved m n sourceFile destinationFile w ∧ offered w ≤ w.sourceLength ∧
        DecodesInto fmt sourceFile.unread w.coder.emitted := fun w h =>
    ⟨h.toMoved, le_of_eq h.offers_all,
      h.toCompressing.decodesInto henc h.allowed.unfinished_prefix⟩
  have hstreamed : ∀ w : Io (EncoderInstance σ),
      encoderFailure (streamed faulty.toCodec operation (offered w) n w).coder
        (streamAnswer faulty.toCodec operation (offered w) n w).result = none →
      streamed faulty.toCodec operation (offered w) n w =
        streamed enc.toCodec operation (offered w) n w := fun w hnone =>
    streamed_faulty hfaulty.stream (by simp [encoderFailure_none.mp hnone])
  simp only [hfaulty.pending] at hx
  refine bufferedLoop_within hwrapper hI ?_ ?_ h hx
  · intro w h hnone
    rw [hstreamed w hnone]
    apply h.streamed.decodesInto henc
    have hunfinished := enc.unfinished_call w.coder operation (w.sourceWindow.take (offered w))
      (n - w.destinationLength)
    rw [streamed_sourceWindow]
    rw [h.offered_window] at hunfinished
    simp only [streamAnswer, Io.streamed, h.offered_window]
    exact hunfinished
  · intro w f h hnone hpending hwritten herror hfaultless
    rw [hstreamed w hnone] at hpending hwritten ⊢
    exact h.again hoffered hpending hwritten herror hfaultless

theorem bufferedCompress_within (henc : enc.Contract compressOperations fmt init)
    (hfaulty : enc.Faulty faulty) (h : Compressing enc init m n sourceFile destinationFile w)
    (hcompleted : Completed enc w.coder)
    (hx : bufferedCompress faulty gvl n fuel w = some x) :
    Within (DecodesInto fmt sourceFile.unread) destinationFile x.2.destinationFile := by
  rw [bufferedCompress_eq] at hx
  exact operationLoop_within henc hfaulty (compressWrapper_eq faulty) (fun _ _ _ _ => rfl)
    (.process h hcompleted) hx

/-- The loop that reads the source. -/
theorem bufferedReadSource_within (henc : enc.Contract compressOperations fmt init)
    (hfaulty : enc.Faulty faulty) (h : Idle enc init m n sourceFile destinationFile w)
    (hx : bufferedReadSource (bufferedCompress faulty gvl n fuel) m fuel w = some x) :
    Within (DecodesInto fmt sourceFile.unread) destinationFile x.2.destinationFile := by
  -- A read does not touch the destination.
  have hread : ∀ {w}, Idle enc init m n sourceFile destinationFile w →
      Within (DecodesInto fmt sourceFile.unread) destinationFile
        (w.readMoreSource m).2.destinationFile := by
    intro w h
    rw [readMoreSource_destinationFile]
    exact h.toMoved.within (h.decodesInto henc)
  refine bufferedReadSource_partial (m := m)
    (I := fun _ => Idle enc init m n sourceFile destinationFile)
    (J := fun w => Compressing enc init m n sourceFile destinationFile w ∧ Completed enc w.coder)
    (Q := fun x => Within (DecodesInto fmt sourceFile.unread) destinationFile
      x.2.destinationFile)
    ?_ ?_ ?_ ?_ ?_ ?_ ?_ h hx
  · intro _ w h hr
    exact h.readMoreSource (by rw [hr]; decide)
  · intro w w' h hf
    have hf := (bufferedCompress_faulty hfaulty _ _ hf).resolve_right (by simp)
    exact bufferedCompress_returned henc h.1 h.2 hf
  · intro w extResult w' h hf _
    exact bufferedCompress_within henc hfaulty h.1 h.2 hf
  · intro _ w h _ _
    exact hread h
  · intro w h _ _
    exact hread h
  · intro w x h hr _ hf
    obtain ⟨hw', hcompleted⟩ := h.readMoreSource (by rw [hr]; decide)
    exact bufferedCompress_within henc hfaulty hw' hcompleted hf
  · intro _ w h _ _
    exact hread h

/-- However `compress` ends, what it has written decodes to a first part of the file. -/
theorem compress_within (henc : enc.Contract compressOperations fmt init)
    (hfaulty : enc.Faulty faulty)
    (h : compress faulty gvl sourceBuffer.length destinationBuffer.length fuel
      ⟨handle, init, []⟩ sourceFile sourceBuffer destinationFile destinationBuffer = some x) :
    Within (DecodesInto fmt sourceFile.unread) destinationFile x.2.destinationFile := by
  obtain ⟨⟨extResult, w₁⟩, hloop, hx⟩ := Option.bind_eq_some_iff.mp h
  have hread : Within (DecodesInto fmt sourceFile.unread) destinationFile w₁.destinationFile :=
    bufferedReadSource_within henc hfaulty (.start handle sourceBuffer destinationBuffer) hloop
  by_cases hok : extResult = .ok
  · subst hok
    have hloop := (bufferedReadSource_faulty (bufferedCompress_faulty hfaulty)
      hloop).resolve_right (by simp)
    have hidle := bufferedReadSource_returned henc
      (.start handle sourceBuffer destinationBuffer) hloop
    obtain ⟨⟨extResult₂, w₂⟩, hfinish, hx⟩ := Option.map_eq_some_iff.mp hx
    by_cases hok₂ : extResult₂ = .ok
    · subst hok₂
      have hfinish := (bufferedCompressorFinish_faulty hfaulty _ _ hfinish).resolve_right
        (by simp)
      obtain ⟨hw₂, hdecodes⟩ := bufferedCompressorFinish_returned henc hidle hfinish
      simp only [ne_eq, not_true_eq_false, if_false] at hx
      rw [← hx]
      -- The stream is complete, and the file is not longer than it.
      have hall : DecodesInto fmt sourceFile.unread w₂.coder.emitted := by
        rw [DecodesInto, hdecodes.2]
        exact hw₂.consumed_prefix
      exact hw₂.within_part hall w₂.writeRemainingDestination_part.2
    · simp only [ne_eq, hok₂, not_false_eq_true, if_true] at hx
      rw [← hx]
      rw [bufferedCompressorFinish_eq] at hfinish
      exact operationLoop_within henc hfaulty (compressorFinishWrapper_eq faulty)
        (fun w w' h0 hle => by omega) (.finish hidle) hfinish
  · simp only [ne_eq, hok, not_false_eq_true, if_true, Option.some.injEq] at hx
    rw [← hx]
    exact hread

end Compress

/-! ## Decompression -/

section Decompress

variable {dec faulty : Decoder σ} {fmt : Format UInt8} {init : σ} {m n fuel : Nat} {gvl : Bool}
  {sourceFile : SourceFile} {destinationFile : DestinationFile}
  {sourceBuffer destinationBuffer : List UInt8} {handle : Nat}
  {w : Io (DecoderInstance σ)} {x : ExtResult × Io (DecoderInstance σ)}

/-- The bytes are a first part of what the source decodes to. -/
def DecodedFrom (fmt : Format UInt8) (source bytes : List UInt8) : Prop :=
  bytes <+: fmt.decodable source

/-- As long as the decoder has not failed it is so of all that was emitted. -/
theorem Moved.decodedFrom (hdec : dec.Follows fmt init)
    (h : Moved m n sourceFile destinationFile w) (hfeeding : dec.Feeding init w.coder) :
    DecodedFrom fmt sourceFile.unread w.coder.emitted :=
  (hdec.emitted_prefix hfeeding).trans (fmt.decodable_mono h.consumed_prefix)

theorem bufferedDecompress_within (hdec : dec.Follows fmt init) (hfaulty : dec.Faulty faulty)
    (h : Moved m n sourceFile destinationFile w) (hfeeding : dec.Feeding init w.coder)
    (hx : bufferedDecompress faulty gvl n fuel w = some x) :
    Within (DecodedFrom fmt sourceFile.unread) destinationFile x.2.destinationFile := by
  have hI : ∀ w : Io (DecoderInstance σ),
      Moved m n sourceFile destinationFile w ∧ dec.Feeding init w.coder →
      Moved m n sourceFile destinationFile w ∧ w.sourceLength ≤ w.sourceLength ∧
        DecodedFrom fmt sourceFile.unread w.coder.emitted := fun w h =>
    ⟨h.1, le_refl _, h.1.decodedFrom hdec h.2⟩
  -- A call that is no failure is one of the other decoder.
  have hfed : ∀ w : Io (DecoderInstance σ),
      decoderFailure faulty (streamed faulty.toCodec () w.sourceLength n w).coder
        (streamAnswer faulty.toCodec () w.sourceLength n w).result = none →
      dec.Feeding init w.coder →
      dec.Feeding init (streamed faulty.toCodec () w.sourceLength n w).coder := by
    intro w hnone hfeeding
    have hok := decoderFailure_none.mp hnone
    have hanswer := streamAnswer_faulty hfaulty hok
    rw [streamed_faulty hfaulty hok]
    rw [hanswer] at hok
    exact .call _ _ hfeeding hok
  refine bufferedLoop_within (decompressWrapper_eq faulty) hI ?_ ?_ ⟨h, hfeeding⟩ hx
  · intro w h hnone
    exact (h.1.streamed (le_refl _)).decodedFrom hdec (hfed w hnone h.2)
  · intro w f h hnone _ hwritten herror hfaultless
    exact ⟨(h.1.streamed (le_refl _)).flushed hwritten herror hfaultless, hfed w hnone h.2⟩

/-- A call that is left without an error leaves the decoder as it may be fed on. -/
theorem bufferedDecompress_feeding (hdec : dec.Follows fmt init) (hfaulty : dec.Faulty faulty)
    {w w' : Io (DecoderInstance σ)} (h : Moved m n sourceFile destinationFile w)
    (hfeeding : dec.Feeding init w.coder)
    (hx : bufferedDecompress faulty gvl n fuel w = some (.ok, w')) :
    Moved m n sourceFile destinationFile w' ∧ dec.Feeding init w'.coder := by
  have hx := (bufferedDecompress_faulty hfaulty _ _ hx).resolve_right (by simp)
  rcases bufferedDecompress_outcome (hdec.reading sourceFile.unread).call h hfeeding hx with
    ⟨w'', heq, hw'', -⟩ | ⟨hne, -⟩
  · obtain rfl : w' = w'' := by simpa using heq
    exact ⟨hw''.toMoved, hw''.reading⟩
  · exact absurd rfl hne

/-- Partial correctness of the loop that reads the source: it is left by a read that gave
    nothing, at the end of the file, or by a call. -/
theorem bufferedReadSource_feeding (hdec : dec.Follows fmt init) (hfaulty : dec.Faulty faulty)
    {Q : ExtResult × Io (DecoderInstance σ) → Prop}
    (hread : ∀ w extResult, Moved m n sourceFile destinationFile w → dec.Feeding init w.coder →
      extResult ≠ .ok → extResult ≠ .writeIo → Q (extResult, (w.readMoreSource m).2))
    (hended : ∀ w, Moved m n sourceFile destinationFile w → dec.Feeding init w.coder →
      Q (.ok, w))
    (hcall : ∀ w x, Moved m n sourceFile destinationFile w → dec.Feeding init w.coder →
      bufferedDecompress faulty gvl n fuel w = some x → Q x)
    (h : Moved m n sourceFile destinationFile w) (hfeeding : dec.Feeding init w.coder)
    (hx : bufferedReadSource (bufferedDecompress faulty gvl n fuel) m fuel w = some x) : Q x := by
  have hmore : ∀ {w}, Moved m n sourceFile destinationFile w ∧ dec.Feeding init w.coder →
      (w.readMoreSource m).1 ≠ .readIo →
      Moved m n sourceFile destinationFile (w.readMoreSource m).2 ∧
        dec.Feeding init (w.readMoreSource m).2.coder := by
    intro w h hr
    have hcoder := (readMoreSource_cases h.1.wellFormed).1.coder
    exact ⟨h.1.readMoreSource hr, hcoder ▸ h.2⟩
  refine bufferedReadSource_partial (m := m)
    (I := fun _ w => Moved m n sourceFile destinationFile w ∧ dec.Feeding init w.coder)
    (J := fun w => Moved m n sourceFile destinationFile w ∧ dec.Feeding init w.coder)
    ?_ ?_ ?_ ?_ ?_ ?_ ?_ ⟨h, hfeeding⟩ hx
  · intro _ w h hr
    exact hmore h (by rw [hr]; decide)
  · intro w w' h hf
    exact bufferedDecompress_feeding hdec hfaulty h.1 h.2 hf
  · intro w extResult w' h hf _
    exact hcall w _ h.1 h.2 hf
  · intro _ w h _ _
    exact hread w .readIo h.1 h.2 (by simp) (by simp)
  · intro w h hr _
    have hw' := hmore h (by rw [hr]; decide)
    exact hended _ hw'.1 hw'.2
  · intro w x h hr _ hf
    have hw' := hmore h (by rw [hr]; decide)
    exact hcall _ x hw'.1 hw'.2 hf
  · intro _ w h hne _
    exact hread w _ h.1 h.2 hne (FaultsNoticed.readMoreSource_ne_writeIo m w)

/-- The loop that reads the source; left without an error, the decoder has not failed. -/
theorem bufferedReadSource_within_decompress (hdec : dec.Follows fmt init)
    (hfaulty : dec.Faulty faulty) (h : Moved m n sourceFile destinationFile w)
    (hfeeding : dec.Feeding init w.coder)
    (hx : bufferedReadSource (bufferedDecompress faulty gvl n fuel) m fuel w = some x) :
    Within (DecodedFrom fmt sourceFile.unread) destinationFile x.2.destinationFile ∧
      (x.1 = .ok → Moved m n sourceFile destinationFile x.2 ∧ dec.Feeding init x.2.coder) := by
  refine bufferedReadSource_feeding hdec hfaulty
    (Q := fun x =>
      Within (DecodedFrom fmt sourceFile.unread) destinationFile x.2.destinationFile ∧
      (x.1 = .ok → Moved m n sourceFile destinationFile x.2 ∧ dec.Feeding init x.2.coder))
    ?_ ?_ ?_ h hfeeding hx
  · intro w extResult h hfeeding hne _
    refine ⟨?_, fun hok => absurd hok hne⟩
    rw [readMoreSource_destinationFile]
    exact h.within (h.decodedFrom hdec hfeeding)
  · intro w h hfeeding
    exact ⟨h.within (h.decodedFrom hdec hfeeding), fun _ => ⟨h, hfeeding⟩⟩
  · rintro w ⟨extResult, w'⟩ h hfeeding hf
    refine ⟨bufferedDecompress_within hdec hfaulty h hfeeding hf, fun hok => ?_⟩
    obtain rfl : extResult = .ok := hok
    exact bufferedDecompress_feeding hdec hfaulty h hfeeding hf

/-- However `decompress` ends, it has written a first part of what the file decodes to. -/
theorem decompress_within (hdec : dec.Follows fmt init) (hfaulty : dec.Faulty faulty)
    (h : decompress faulty gvl sourceBuffer.length destinationBuffer.length fuel
      ⟨handle, init, []⟩ sourceFile sourceBuffer destinationFile destinationBuffer = some x) :
    Within (DecodedFrom fmt sourceFile.unread) destinationFile x.2.destinationFile := by
  obtain ⟨⟨extResult, w⟩, hloop, rfl⟩ := Option.map_eq_some_iff.mp h
  obtain ⟨hwithin, hok⟩ := bufferedReadSource_within_decompress hdec hfaulty
    (.start handle init sourceBuffer destinationBuffer) (.start handle) hloop
  dsimp only
  split
  · exact hwithin
  · rename_i hresult
    obtain ⟨hmoved, hfeeding⟩ := hok (not_not.mp hresult)
    exact hmoved.within_part (hmoved.decodedFrom hdec hfeeding)
      w.writeRemainingDestination_part.2

end Decompress

end Io

/-! ## The native functions -/

/-- The file has grown by a part with the property, and nothing else. -/
def GrownBy (P : List UInt8 → Prop) (before after : DestinationFile) : Prop :=
  ∃ part, P part ∧ after.written = before.written ++ part ∧ before.device <+: after.device

/-- For a property that first parts inherit. -/
theorem GrownBy.of_within {P : List UInt8 → Prop} (hP : ∀ p q, p <+: q → P q → P p)
    {before after : DestinationFile} (hgrows : before.Grows after)
    (hwithin : Io.Within P before after) : GrownBy P before after := by
  obtain ⟨bytes, hbytes, hfirst⟩ := hwithin
  obtain ⟨part, hpart⟩ := hgrows.written
  rw [← hpart, List.prefix_append_right_inj] at hfirst
  exact ⟨part, hP part bytes hfirst hbytes, hpart.symm, hgrows.device⟩

/-- The end of a file function keeps it, with its closing flush. -/
theorem GrownBy.finish {P : List UInt8 → Prop} {before f : DestinationFile}
    {extResult : ExtResult} {w : Io κ} (h : GrownBy P before w.destinationFile) (m : Memory)
    (sourceBuffer destinationBuffer : Buffer) (handle : Nat)
    (hf : (IoExit.finish extResult w m sourceBuffer destinationBuffer handle).destinationFile =
      some f) : GrownBy P before f := by
  obtain ⟨part, hpart, hwritten, hdevice⟩ := h
  unfold IoExit.finish at hf
  dsimp only at hf
  split at hf
  · obtain rfl := Option.some.inj hf
    exact ⟨part, hpart, hwritten, hdevice⟩
  · obtain rfl := Option.some.inj hf
    obtain ⟨hgrows, hsame⟩ := w.destinationFile.fflush_part
    exact ⟨part, hpart, hsame.trans hwritten, hdevice.trans hgrows.device⟩

/-- A function that raised before it touched the files wrote nothing. -/
theorem GrownBy.early {P : List UInt8 → Prop} (hP : P []) {before f : DestinationFile}
    {err : RubyError} {m : Memory}
    (hf : (IoExit.early err m (.file before) : IoExit κ).destinationFile = some f) :
    GrownBy P before f := by
  obtain rfl : before = f := Option.some.inj hf
  exact ⟨[], hP, (List.append_nil _).symm, List.prefix_refl _⟩

/-- With accepted options, an encoder and a decoder that then keep to the format but for
    calls that fail, and any allocations, reads and writes, whatever fails: behind what
    was in the destination before, a compression leaves bytes that decode to a first part
    of the source, and a decompression of any bytes leaves a first part of what they
    decode to. -/
theorem io_parts {enc faultyEnc : Encoder σ} {dec faultyDec : Decoder τ} {fmt : Format UInt8}
    {encInit : σ} {decInit : τ} {encHash decHash : Hash} {encRead : IoOptions CompressorOptions}
    {decRead : IoOptions DecompressorOptions}
    (hencRead : getIoOptions getCompressorOptions encHash = .ok encRead)
    (hencSet : brsExtSetCompressorOptions faultyEnc faultyEnc.create encRead.codec =
      (.ok, encInit))
    (henc : enc.Contract Io.compressOperations fmt encInit) (hencFaulty : enc.Faulty faultyEnc)
    (hdecRead : getIoOptions getDecompressorOptions decHash = .ok decRead)
    (hdecSet : brsExtSetDecompressorOptions faultyDec faultyDec.create decRead.codec =
      (.ok, decInit))
    (hdec : dec.Follows fmt decInit) (hdecFaulty : dec.Faulty faultyDec) (fuel : Nat)
    (m : Memory) (sourceFile : SourceFile) (before after : DestinationFile) :
    (∀ e, brsExtCompressIo faultyEnc fuel m (.file sourceFile) (.file before) (.hash encHash) =
        some e → e.destinationFile = some after →
      GrownBy (fun part => fmt.decodable part <+: sourceFile.unread) before after) ∧
    ∀ e, brsExtDecompressIo faultyDec fuel m (.file sourceFile) (.file before) (.hash decHash) =
        some e → e.destinationFile = some after →
      GrownBy (fun part => part <+: fmt.decodable sourceFile.unread) before after := by
  constructor
  · intro e h hf
    rcases ioCall_cases (by decide) (by decide) h with ⟨err, m', rfl⟩ | ⟨p, x, hrun, rfl⟩
    · refine GrownBy.early ?_ hf
      rw [fmt.decodable_nil]
      exact List.nil_prefix
    · obtain ⟨hfile, hstate⟩ := p.of_args hencRead hencSet
      have hbefore : p.destinationFile = before := (FileArgument.file.inj p.destination_eq).symm
      rw [hfile, hstate, hbefore] at hrun
      refine (GrownBy.of_within ?_ (Io.compress_grows hrun)
        (Io.compress_within henc hencFaulty hrun)).finish _ _ _ _ hf
      exact fun q r hqr hr => (fmt.decodable_mono hqr).trans hr
  · intro e h hf
    rcases ioCall_cases (by decide) (by decide) h with ⟨err, m', rfl⟩ | ⟨p, x, hrun, rfl⟩
    · refine GrownBy.early ?_ hf
      exact List.nil_prefix
    · obtain ⟨hfile, hstate⟩ := p.of_args hdecRead hdecSet
      have hbefore : p.destinationFile = before := (FileArgument.file.inj p.destination_eq).symm
      rw [hfile, hstate, hbefore] at hrun
      refine (GrownBy.of_within ?_ (Io.decompress_grows hrun)
        (Io.decompress_within hdec hdecFaulty hrun)).finish _ _ _ _ hf
      exact fun q r hqr hr => hqr.trans hr

/-- An encoder that fails to end the stream of two bytes, and a decoder that fails when
    it has taken all of it: they leave one block and most of the other, and one byte. -/
theorem io_parts_failing :
    let encoder := storedEncoder.failing fun s operation => s.started && operation == .finish
    let decoder := (formatDecoder storedFormat id).failing fun s => decide (9 ≤ s.1.length)
    let bytes := SourceFile.opened [7, 8] []
    let stream := SourceFile.opened [0x0b, 0, 0x80, 7, 0, 0, 8, 8, 3] []
    let before := DestinationFile.opened []
    (∀ fuel after,
      (∀ e, brsExtCompressIo encoder fuel .unused (.file bytes) (.file before)
          (.hash oneByteOptions) = some e →
        e.destinationFile = some after →
        GrownBy (fun part => storedFormat.decodable part <+: [7, 8]) before after) ∧
      ∀ e, brsExtDecompressIo decoder fuel .unused (.file stream) (.file before)
          (.hash oneByteOptions) = some e →
        e.destinationFile = some after →
        GrownBy (fun part => part <+: storedFormat.decodable [0x0b, 0, 0x80, 7, 0, 0, 8, 8, 3])
          before after) ∧
    ((brsExtCompressIo encoder 9 .unused (.file bytes) (.file before)
        (.hash oneByteOptions)).bind (·.destinationFile)).map (·.written) =
      some [0x0b, 0, 0x80, 7, 0, 0, 8] ∧
    ((brsExtDecompressIo decoder 9 .unused (.file stream) (.file before)
        (.hash oneByteOptions)).bind (·.destinationFile)).map (·.written) = some [7] := by
  intro encoder decoder bytes stream before
  refine ⟨fun fuel after => ?_, by decide +kernel, by decide +kernel⟩
  obtain ⟨encRead, hencRead, hencSet⟩ : ∃ read,
      getIoOptions getCompressorOptions oneByteOptions = .ok read ∧
      brsExtSetCompressorOptions encoder encoder.create read.codec =
        (.ok, storedEncoder.create) := ⟨_, rfl, rfl⟩
  obtain ⟨decRead, hdecRead, hdecSet⟩ : ∃ read,
      getIoOptions getDecompressorOptions oneByteOptions = .ok read ∧
      brsExtSetDecompressorOptions decoder decoder.create read.codec = (.ok, ([], 0)) :=
    ⟨_, rfl, rfl⟩
  have henc := (storedEncoder_flushContract Io.compressOperations).toContract
  have hencFaulty : storedEncoder.Faulty encoder := storedEncoder.failing_faulty _
  have hdec := formatDecoder_follows storedFormat id
  have hdecFaulty : (formatDecoder storedFormat id).Faulty decoder :=
    (formatDecoder storedFormat id).failing_faulty _
  have hparts := fun sourceFile => io_parts hencRead hencSet henc hencFaulty hdecRead hdecSet
    hdec hdecFaulty fuel .unused sourceFile before after
  exact ⟨(hparts bytes).1, (hparts stream).2⟩

end RubyBrs
