/-
  RubyBrs.Ext.Returned

  What a function of `string.c` or `io.c` has done when it returned, whatever became
  of the allocations, the reads and the writes.

  With an encoder that keeps its contract, a `compress` that returned without an error
  has left one complete stream of all of its source (`Str.compress_returned`,
  `Io.compress_returned`): every failure on the way is told.  With a decoder that
  keeps its contract for a stream, a `decompress` of it that returned without an error
  has left its content (`Str.decompress_returned`, `Io.decompress_returned`).
-/

import RubyBrs.Ext.IoLossless
import RubyBrs.Ext.StringRun

namespace RubyBrs

open StreamCodec StreamFormat WhileTrue

variable {σ : Type}

/-! ## Fewer operations -/

namespace Encoder

variable {enc : Encoder σ} {ops ops' : List Operation} {fmt : Format UInt8} {init : σ}
  {i : EncoderInstance σ}

theorem Session.mono (hops : ops ⊆ ops') (h : enc.Session ops init i) :
    enc.Session ops' init i := by
  induction h with
  | start handle => exact .start handle
  | call room _ hop hallowed ih => exact .call room ih (hops hop) hallowed

/-- A contract for some operations is one for fewer of them. -/
theorem Contract.mono (hops : ops ⊆ ops') (h : enc.Contract ops' fmt init) :
    enc.Contract ops fmt init where
  succeeds room hi hop := h.succeeds room (hi.mono hops) (hops hop)
  completes room hi hop := h.completes room (hi.mono hops) (hops hop)
  progresses hi hop := h.progresses (hi.mono hops) (hops hop)
  finite content := by
    obtain ⟨bound, hbound⟩ := h.finite content
    exact ⟨bound, fun i hi => hbound i (hi.mono hops)⟩
  finishes hi := h.finishes (hi.mono hops)

end Encoder

/-! ## `string.c` -/

namespace Str

variable {fmt : Format UInt8} {init : σ} {handle fuel : Nat} {gvl : Bool} {memory : Memory}
  {source destinationValue : List UInt8}

/-- The stream that `compress` returned is a complete one of its source. -/
theorem compress_returned {enc : Encoder σ} {s' : Str (EncoderInstance σ)}
    (henc : enc.Contract [.finish] fmt init)
    (h : compress enc gvl destinationValue.length fuel ⟨handle, init, []⟩ memory source
      destinationValue = some (.ok .ok, s')) :
    fmt.Decodes s'.destinationValue source := by
  generalize hd : destinationValue.length = d at h
  obtain ⟨⟨r, s⟩, hloop, hx⟩ := Option.map_eq_some_iff.mp h
  obtain ⟨hr, hx⟩ := afterLoop_eq_ok hx
  have hagain : ∀ i : EncoderInstance σ, (enc.hasMoreOutput i.state || !enc.isFinished i.state) =
      enc.pending .finish i.state := fun i => by simp [Encoder.pending]
  have hfinishing : Finishing enc init (⟨handle, init, []⟩ : EncoderInstance σ)
      (enter (⟨handle, init, []⟩ : EncoderInstance σ) memory source destinationValue
        d).sourceWindow := ⟨.start handle, trivial⟩
  obtain ⟨v, hv, hK, hout⟩ := streamLoop_outcome (K := Finishing enc init)
    (fun s _ hK _ hpending => hK.again (by rw [hagain] at hpending; exact hpending))
    (.enter _ rfl hd) hfinishing hloop
  have hstreamed : Kept d source memory (streamed enc.toCodec .finish v) := hv.toKept.streamed
  have hmem : Operation.finish ∈ [Operation.finish] := List.mem_cons_self ..
  cases hout with
  -- Only a finish that is complete leads to a return without an error.
  | finished _ hdone =>
      rw [hagain] at hdone
      have hdecodes := henc.finishes (.call _ hK.1 hmem hK.2)
        (enc.call_getLast v.coder .finish v.sourceWindow v.remainingDestinationBufferLength)
        rfl hdone
      have hall : (streamAnswer enc.toCodec .finish v).consumed = v.sourceWindow.length :=
        henc.completes _ hK.1 hmem hK.2 hdone
      have hconsumed : (streamed enc.toCodec .finish v).coder.consumed = source := by
        apply hstreamed.balanced.consumed_eq
        show (streamed enc.toCodec .finish v).sourceWindow = []
        rw [streamed_sourceWindow, hall, List.drop_length]
      rcases cutDestination_cases hstreamed.wellFormed .returned with
        ⟨-, r, memory', hfailed, hcut⟩ | ⟨memory', hcut⟩
      · rw [hcut] at hx
        exact absurd (Prod.mk.inj hx).1 hfailed.ne_ok
      · rw [hcut] at hx
        rw [← (Prod.mk.inj hx).2]
        show fmt.Decodes ((streamed enc.toCodec .finish v).destinationValue.take
          (streamed enc.toCodec .finish v).destinationLength) source
        rw [hstreamed.written, ← hconsumed]
        exact hdecodes
  | failed hfail =>
      rw [(encoderFailure_some hfail).2] at hr
      cases hr
  | stalled => cases hr
  | outOfMemory hfailed => exact absurd hr hfailed.ne_ok

/-- What `decompress` returned is the content of the stream. -/
theorem decompress_returned {dec : Decoder σ} {content : List UInt8}
    {s' : Str (DecoderInstance σ)} (hdec : dec.StreamContract source content init)
    (h : decompress dec gvl destinationValue.length fuel ⟨handle, init, []⟩ memory source
      destinationValue = some (.ok .ok, s')) :
    s'.destinationValue = content := by
  have houtcome := decompress_outcome hdec.reading.call (.start handle) h
  obtain ⟨result, rest, hresult, hanswered, htaken, hvalue⟩ := houtcome.returned rfl
  rcases hresult with rfl | rfl
  · exact hvalue.trans (hdec.success_answered hanswered).2
  -- More input is asked for only before the end of the stream.
  · obtain rfl := hanswered.needsInput hdec.reading
    rw [List.append_nil] at htaken
    exact absurd htaken (hdec.needsInput_answered hanswered)

end Str

/-! ## `io.c` -/

namespace Io

variable {fmt : Format UInt8} {init : σ} {handle m n fuel : Nat} {gvl : Bool}
  {sourceFile : SourceFile} {destinationFile : DestinationFile}
  {sourceBuffer destinationBuffer : List UInt8}

section Compress

variable {enc : Encoder σ} {w w' : Io (EncoderInstance σ)} {operation : Operation}
  {offered : Io (EncoderInstance σ) → Nat} {w₀ : Io (EncoderInstance σ)}

/-- A source window may be compressed when the last operation is complete. -/
theorem Asking.process (h : Compressing enc init m n sourceFile destinationFile w)
    (hcompleted : Completed enc w.coder) :
    Asking enc init m n sourceFile destinationFile .process (fun w => w.sourceLength) w w where
  toCompressing := h
  operation_mem := List.mem_cons_self ..
  offers_all := rfl
  allowed := Encoder.Allowed.of_complete hcompleted
  file := rfl

/-- When all that was read was compressed the stream may be finished. -/
theorem Asking.finish (h : Idle enc init m n sourceFile destinationFile w) :
    Asking enc init m n sourceFile destinationFile .finish (fun _ => 0) w w where
  toCompressing := h.toCompressing
  operation_mem := by simp [compressOperations]
  offers_all := h.sourceLength.symm
  allowed := Encoder.Allowed.of_complete h.completed
  file := rfl

/-- The loop around one operation, left without an error, has completed it and taken
    all of the source. -/
theorem operationLoop_returned (henc : enc.Contract compressOperations fmt init)
    {wrapper : Nat → Io (EncoderInstance σ) → Io (EncoderInstance σ) × Nat × Bool}
    (hwrapper : ∀ room w,
      wrapper room w = streamWrapper enc.toCodec operation (offered w) room w)
    (hoffered : ∀ w w' : Io (EncoderInstance σ), offered w = w.sourceLength →
      w'.sourceLength ≤ w.sourceLength → offered w' = w'.sourceLength)
    (h : Asking enc init m n sourceFile destinationFile operation offered w₀ w)
    (hx : whileTrue (bufferedBody wrapper encoderFailure
      (fun i _ => enc.pending operation i.state) gvl n) fuel w = some (.ok, w')) :
    Compressing enc init m n sourceFile destinationFile w' ∧ w'.sourceLength = 0 ∧
      enc.pending operation w'.coder.state = false ∧
      ∃ last, w'.coder.calls.getLast? = some last ∧ last.operation = operation := by
  refine bufferedLoop_partial (m := m) hwrapper
    (I := Asking enc init m n sourceFile destinationFile operation offered w₀)
    (Q := fun x => x.1 = .ok → Compressing enc init m n sourceFile destinationFile x.2 ∧
      x.2.sourceLength = 0 ∧ enc.pending operation x.2.coder.state = false ∧
      ∃ last, x.2.coder.calls.getLast? = some last ∧ last.operation = operation)
    ?_ ?_ ?_ ?_ h hx rfl
  · intro w h
    exact ⟨h.wellFormed, le_of_eq h.offers_all⟩
  · intro w extResult h hfail hok
    rw [(encoderFailure_some hfail).2] at hok
    cases hok
  -- The operation is complete, so everything that was offered was taken.
  · intro w h _ hdone _
    have hall : (streamAnswer enc.toCodec operation (offered w) n w).consumed =
        w.sourceLength := by
      have hcompletes := henc.completes (n - w.destinationLength) h.session h.operation_mem
        (by rw [h.offered_window]; exact h.allowed) hdone
      rwa [h.offered_window, h.wellFormed.sourceWindow_length, ← h.offered_window] at hcompletes
    refine ⟨h.streamed, ?_, hdone, _, enc.call_getLast _ _ _ _, rfl⟩
    show w.sourceLength - _ = 0
    rw [hall, Nat.sub_self]
  -- A buffer that is empty, and a write that fails, are told.
  · intro w h _ hpending
    refine ⟨fun _ hok => (by cases hok), fun f _ _ hok => (by cases hok), ?_⟩
    intro f _ hwritten herror hfaultless
    exact h.again hoffered hpending hwritten herror hfaultless

/-- `buffered_compress`, left without an error, has taken all of the source window. -/
theorem bufferedCompress_returned (henc : enc.Contract compressOperations fmt init)
    (h : Compressing enc init m n sourceFile destinationFile w)
    (hcompleted : Completed enc w.coder)
    (hx : bufferedCompress enc gvl n fuel w = some (.ok, w')) :
    Idle enc init m n sourceFile destinationFile w' := by
  rw [bufferedCompress_eq] at hx
  obtain ⟨hw', hlength, hdone, last, hlast, hop⟩ :=
    operationLoop_returned henc (compressWrapper_eq enc) (fun _ _ _ _ => rfl)
      (.process h hcompleted) hx
  refine { toCompressing := hw', sourceLength := hlength, completed := ?_ }
  intro last' hlast'
  obtain rfl : last = last' := Option.some.inj (hlast.symm.trans hlast')
  rw [hop]
  exact ⟨hdone, by decide⟩

/-- `buffered_compressor_finish`, left without an error, has ended the stream. -/
theorem bufferedCompressorFinish_returned (henc : enc.Contract compressOperations fmt init)
    (h : Idle enc init m n sourceFile destinationFile w)
    (hx : bufferedCompressorFinish enc gvl n fuel w = some (.ok, w')) :
    Compressing enc init m n sourceFile destinationFile w' ∧
      fmt.Decodes w'.coder.emitted w'.coder.consumed := by
  rw [bufferedCompressorFinish_eq] at hx
  obtain ⟨hw', -, hdone, last, hlast, hop⟩ :=
    operationLoop_returned henc (compressorFinishWrapper_eq enc) (fun w w' h0 hle => by omega)
      (.finish h) hx
  exact ⟨hw', henc.finishes hw'.session hlast hop hdone⟩

/-- The loop that reads the source, left without an error, leaves nothing of what it
    read. -/
theorem bufferedReadSource_returned (henc : enc.Contract compressOperations fmt init)
    (h : Idle enc init m n sourceFile destinationFile w)
    (hx : bufferedReadSource (bufferedCompress enc gvl n fuel) m fuel w = some (.ok, w')) :
    Idle enc init m n sourceFile destinationFile w' := by
  refine bufferedReadSource_partial (m := m)
    (I := fun _ => Idle enc init m n sourceFile destinationFile)
    (J := fun w => Compressing enc init m n sourceFile destinationFile w ∧ Completed enc w.coder)
    (Q := fun x => x.1 = .ok → Idle enc init m n sourceFile destinationFile x.2)
    ?_ ?_ ?_ ?_ ?_ ?_ ?_ h hx rfl
  · intro _ w h hr
    exact h.readMoreSource (by rw [hr]; decide)
  · intro w w' h hf
    exact bufferedCompress_returned henc h.1 h.2 hf
  · intro w extResult w' _ _ hne hok
    exact absurd hok hne
  · intro _ w _ _ _ hok
    cases hok
  -- The end of the file, after some call or before the only one.
  · intro w h hr hrest _
    obtain ⟨hw', hcompleted⟩ := h.readMoreSource (by rw [hr]; decide)
    exact { toCompressing := hw', sourceLength := hrest, completed := hcompleted }
  · intro w x h hr _ hf hok
    obtain ⟨hw', hcompleted⟩ := h.readMoreSource (by rw [hr]; decide)
    obtain ⟨x₁, x₂⟩ := x
    obtain rfl : x₁ = .ok := hok
    exact bufferedCompress_returned henc hw' hcompleted hf
  · intro _ w _ hne _ hok
    exact absurd hok hne

/-- Before the first read the encoder is idle. -/
theorem Idle.start (handle : Nat) (sourceBuffer destinationBuffer : List UInt8) :
    Idle enc init sourceBuffer.length destinationBuffer.length sourceFile destinationFile
      { coder := ⟨handle, init, []⟩, sourceFile, sourceBuffer, source := 0, sourceLength := 0,
        destinationFile, destinationBuffer, destinationLength := 0 } where
  toMoved := .start handle init sourceBuffer destinationBuffer
  session := .start handle
  sourceLength := rfl
  completed _ h := nomatch h

/-- What `compress` has written when it returned without an error is a complete stream
    of the file. -/
theorem compress_returned (henc : enc.Contract compressOperations fmt init)
    (h : compress enc gvl sourceBuffer.length destinationBuffer.length fuel ⟨handle, init, []⟩
      sourceFile sourceBuffer destinationFile destinationBuffer = some (.ok, w')) :
    ∃ stream, w'.destinationFile.written = destinationFile.written ++ stream ∧
      fmt.Decodes stream sourceFile.unread := by
  obtain ⟨hconsumed, hwritten, -, -⟩ := compress_ok h
  refine ⟨w'.coder.emitted, hwritten, ?_⟩
  rw [← hconsumed]
  obtain ⟨⟨extResult, w₁⟩, hloop, hx⟩ := Option.bind_eq_some_iff.mp h
  by_cases hok : extResult = .ok
  · subst hok
    have hidle := bufferedReadSource_returned henc
      (.start handle sourceBuffer destinationBuffer) hloop
    obtain ⟨⟨extResult₂, w₂⟩, hfinish, hx⟩ := Option.map_eq_some_iff.mp hx
    by_cases hok₂ : extResult₂ = .ok
    · subst hok₂
      obtain ⟨hw₂, hdecodes⟩ := bufferedCompressorFinish_returned henc hidle hfinish
      simp only [ne_eq, not_true_eq_false, if_false] at hx
      -- What is left in the buffer is written, which the encoder has no part in.
      rcases hw₂.writeRemainingDestination with ⟨f, heq, -⟩ | ⟨f, heq, -⟩
      · rw [heq, Prod.mk.injEq] at hx
        rw [← hx.2]
        exact hdecodes
      · rw [heq] at hx
        cases hx
    · simp only [ne_eq, hok₂, not_false_eq_true, if_true, Prod.mk.injEq] at hx
      exact hx.1.elim
  · simp only [ne_eq, hok, not_false_eq_true, if_true, Option.some.injEq, Prod.mk.injEq] at hx
    exact hx.1.elim

/-- Without faults it does return without an error. -/
theorem compress_returns (henc : enc.Contract compressOperations fmt init) (gvl : Bool)
    (handle : Nat) (hread : sourceFile.Faultless) (hwrite : destinationFile.Faultless)
    (hsource : 0 < sourceBuffer.length) (hdestination : 0 < destinationBuffer.length) :
    ∃ enough, ∀ fuel, enough ≤ fuel → ∃ w',
      compress enc gvl sourceBuffer.length destinationBuffer.length fuel ⟨handle, init, []⟩
        sourceFile sourceBuffer destinationFile destinationBuffer = some (.ok, w') := by
  obtain ⟨bound, hbound⟩ := henc.finite sourceFile.unread
  refine ⟨sourceFile.unread.length + 2 * bound + 2, fun fuel hfuel => ?_⟩
  have hfile : sourceFile.unread.length < fuel := by omega
  have hloopFuel : 2 * bound + 1 < fuel := by omega
  obtain ⟨w₁, hloop, hidle, -⟩ := bufferedReadSource_compresses gvl henc hbound hread hwrite
    hsource hdestination hloopFuel hfile (.start handle sourceBuffer destinationBuffer)
  obtain ⟨w₂, hfinish, hw₂, -⟩ := bufferedCompressorFinish_returns gvl henc hbound hwrite
    hdestination hloopFuel hidle
  rcases hw₂.writeRemainingDestination with ⟨f, heq, -⟩ | ⟨f, -, -, hfault⟩
  · refine ⟨{ w₂ with destinationFile := f }, ?_⟩
    simp [compress, hloop, hfinish, heq]
  · exact absurd hwrite hfault

end Compress

/-- What `decompress` has written when it returned without an error is the content of
    the stream. -/
theorem decompress_returned {dec : Decoder σ} {content : List UInt8}
    {w' : Io (DecoderInstance σ)} (hdec : dec.StreamContract sourceFile.unread content init)
    (hsource : 0 < sourceBuffer.length)
    (h : decompress dec gvl sourceBuffer.length destinationBuffer.length fuel
      ⟨handle, init, []⟩ sourceFile sourceBuffer destinationFile destinationBuffer =
        some (.ok, w')) :
    w'.destinationFile.written = destinationFile.written ++ content := by
  have houtcome := decompress_outcome hdec.reading.call (.start handle) hsource h
  obtain ⟨result, hresult, hanswered, hconsumed, hwritten⟩ := houtcome.returned rfl
  rcases hresult with rfl | rfl
  · rw [← (hdec.success_answered hanswered).2]
    exact hwritten
  · exact absurd hconsumed (hdec.needsInput_answered hanswered)

end Io

end RubyBrs
