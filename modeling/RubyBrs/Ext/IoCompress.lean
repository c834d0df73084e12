/-
  RubyBrs.Ext.IoCompress

  `compress` of `io.c`: what a return without an error means for any encoder at
  all (`compress_ok`), and that with an encoder that keeps its contract it is
  total and correct, for every content and every pair of buffer lengths
  (`compress_total`).

  For the second, the encoder is used as its documentation asks, at every point of the function
  (`Compressing`).  Both inner loops repeat one operation until the encoder has
  completed it (`operationLoop`); what differs is the operation, and that
  finishing offers no source.
-/

import RubyBrs.Ext.IoMoved
import RubyBrs.Ext.Stored

namespace RubyBrs
namespace Io

open StreamCodec StreamFormat WhileTrue

variable {σ : Type} {enc : Encoder σ} {fmt : Format UInt8} {init : σ} {m n : Nat}
  {sourceFile : SourceFile} {destinationFile : DestinationFile}

/-! ## Any encoder -/

section AnyEncoder

variable {gvl : Bool} {fuel : Nat} {w w' : Io (EncoderInstance σ)}

/-- One of the two loops around the encoder, left without an error. -/
theorem encoderLoop_ok (operation : Operation) (offered : Io (EncoderInstance σ) → Nat)
    {again : EncoderInstance σ → Bool → Bool}
    {wrapper : Nat → Io (EncoderInstance σ) → Io (EncoderInstance σ) × Nat × Bool}
    (hwrapper : ∀ room w,
      wrapper room w = streamWrapper enc.toCodec operation (offered w) room w)
    (hoffered : ∀ w, offered w ≤ w.sourceLength)
    (hw : Moved m n sourceFile destinationFile w)
    (h : whileTrue (bufferedBody wrapper encoderFailure again gvl n) fuel w = some (.ok, w')) :
    Moved m n sourceFile destinationFile w' ∧ w'.sourceFile = w.sourceFile ∧
      w'.sourceLength ≤ w.sourceLength := by
  obtain ⟨v, hv, hout⟩ := bufferedLoop_outcome (m := m) offered hwrapper hoffered
    (K := fun _ => True) (fun _ _ _ _ _ => trivial) hw trivial h
  cases hout with
  | finished _ _ =>
      exact ⟨hv.toMoved.streamed (hoffered v), hv.file,
        (Nat.sub_le _ _).trans hv.sourceLength_le⟩
  | failed hfail => exact nomatch (encoderFailure_some hfail).2

/-- The loop that reads the source, left without an error, has taken all of it. -/
theorem bufferedReadSource_ok (hw : Moved m n sourceFile destinationFile w)
    (h : bufferedReadSource (bufferedCompress enc gvl n fuel) m fuel w = some (.ok, w')) :
    Moved m n sourceFile destinationFile w' ∧ w'.sourceLength = 0 ∧
      w'.sourceFile.unread = [] := by
  have hread : ∀ {w : Io (EncoderInstance σ)},
      Moved m n sourceFile destinationFile w → (w.readMoreSource m).1 = .fileReadFinished →
      Moved m n sourceFile destinationFile (w.readMoreSource m).2 ∧
        (w.readMoreSource m).2.sourceFile.unread = [] := by
    intro w hw hr
    obtain ⟨-, -, hunread⟩ := readMoreSource_finished hw.wellFormed hr
    exact ⟨hw.readMoreSource (by rw [hr]; decide), hunread⟩
  refine bufferedReadSource_partial (m := m)
    (I := fun _ => Moved m n sourceFile destinationFile)
    (J := Moved m n sourceFile destinationFile)
    (Q := fun x => x.1 = .ok → Moved m n sourceFile destinationFile x.2 ∧
      x.2.sourceLength = 0 ∧ x.2.sourceFile.unread = []) ?_ ?_ ?_ ?_ ?_ ?_ ?_ hw h rfl
  -- Reads and calls keep `Moved`.
  · intro _ w hw hr
    exact hw.readMoreSource (by rw [hr]; decide)
  · intro w w' hw hf
    exact (encoderLoop_ok .process (fun w => w.sourceLength) (compressWrapper_eq enc)
      (fun _ => le_refl _) hw hf).1
  -- An error of a call, and source that is left over, are not `ok`.
  · intro w extResult w' _ _ hne hok
    exact absurd hok hne
  · intro _ w _ _ _ hok
    cases hok
  -- The end of the file, after some call or before the only one.
  · intro w hw hr hrest _
    obtain ⟨hw', hunread⟩ := hread hw hr
    exact ⟨hw', hrest, hunread⟩
  · intro w x hw hr hrest hf hok
    obtain ⟨hw', hunread⟩ := hread hw hr
    obtain ⟨x₁, x₂⟩ := x
    obtain rfl : x₁ = .ok := hok
    obtain ⟨hw'', hfile, hle⟩ := encoderLoop_ok .process (fun w => w.sourceLength)
      (compressWrapper_eq enc) (fun _ => le_refl _) hw' hf
    exact ⟨hw'', Nat.le_zero.mp (hrest ▸ hle), hfile ▸ hunread⟩
  · intro _ w _ hne _ hok
    exact absurd hok hne

/-- If `compress` returns without an error, then all of the file was taken, all
    that was emitted was written, and no read or write failed. -/
theorem compress_ok {handle : Nat} {init : σ} {sourceBuffer destinationBuffer : List UInt8}
    (h : compress enc gvl sourceBuffer.length destinationBuffer.length fuel ⟨handle, init, []⟩
      sourceFile sourceBuffer destinationFile destinationBuffer = some (.ok, w')) :
    w'.coder.consumed = sourceFile.unread ∧
      w'.destinationFile.written = destinationFile.written ++ w'.coder.emitted ∧
      w'.sourceFile.error = sourceFile.error ∧
      w'.destinationFile.error = destinationFile.error := by
  generalize hm : sourceBuffer.length = m at h
  generalize hn : destinationBuffer.length = n at h
  obtain ⟨⟨extResult, w₁⟩, hloop, hx⟩ := Option.bind_eq_some_iff.mp h
  have hstart : Moved m n sourceFile destinationFile
      { coder := (⟨handle, init, []⟩ : EncoderInstance σ), sourceFile, sourceBuffer, source := 0,
        sourceLength := 0, destinationFile, destinationBuffer, destinationLength := 0 } := by
    subst hm hn
    exact .start handle init sourceBuffer destinationBuffer
  by_cases hok : extResult = .ok
  -- The finish offers no source, so what was taken before it is all there is.
  · subst hok
    obtain ⟨hw₁, hlength, hunread⟩ := bufferedReadSource_ok hstart hloop
    obtain ⟨⟨extResult₂, w₂⟩, hfinish, hx⟩ := Option.map_eq_some_iff.mp hx
    by_cases hok₂ : extResult₂ = .ok
    · subst hok₂
      obtain ⟨hw₂, hfile, hle⟩ := encoderLoop_ok .finish (fun _ => 0)
        (compressorFinishWrapper_eq enc) (fun _ => Nat.zero_le _) hw₁ hfinish
      have hconsumed := hw₂.consumed_eq (Nat.le_zero.mp (hlength ▸ hle)) (hfile ▸ hunread)
      simp only [ne_eq, not_true_eq_false, if_false] at hx
      rcases hw₂.writeRemainingDestination with ⟨f, heq, hwritten, herror⟩ | ⟨f, heq, _⟩
      · rw [heq, Prod.mk.injEq] at hx
        rw [← hx.2]
        exact ⟨hconsumed, hwritten, hw₂.source_error, herror⟩
      · rw [heq] at hx
        cases hx
    · simp only [ne_eq, hok₂, not_false_eq_true, if_true, Prod.mk.injEq] at hx
      exact hx.1.elim
  · simp only [ne_eq, hok, not_false_eq_true, if_true, Option.some.injEq, Prod.mk.injEq] at hx
    exact hx.1.elim

end AnyEncoder

/-! ## An encoder that keeps its contract -/

/-- The operations that `compress` asks for. -/
def compressOperations : List Operation := [.process, .finish]

/-- The state of `compress` between any two of its steps. -/
structure Compressing (enc : Encoder σ) (init : σ) (m n : Nat) (sourceFile : SourceFile)
    (destinationFile : DestinationFile) (w : Io (EncoderInstance σ)) : Prop extends
    Moved m n sourceFile destinationFile w where
  session : enc.Session compressOperations init w.coder

/-- The last operation, if there was any, is complete, and was not a finish. -/
def Completed (enc : Encoder σ) (i : EncoderInstance σ) : Prop :=
  ∀ last, i.calls.getLast? = some last →
    enc.pending last.operation i.state = false ∧ last.operation ≠ .finish

/-- All that was read has been compressed. -/
structure Idle (enc : Encoder σ) (init : σ) (m n : Nat) (sourceFile : SourceFile)
    (destinationFile : DestinationFile) (w : Io (EncoderInstance σ)) : Prop extends
    Compressing enc init m n sourceFile destinationFile w where
  sourceLength : w.sourceLength = 0
  completed : Completed enc w.coder

/-! ## The loop around one operation -/

section OperationLoop

variable {operation : Operation} {offered : Io (EncoderInstance σ) → Nat}

/-- At the head of the loop the operation may be asked for on all of the source. -/
structure Asking (enc : Encoder σ) (init : σ) (m n : Nat) (sourceFile : SourceFile)
    (destinationFile : DestinationFile) (operation : Operation)
    (offered : Io (EncoderInstance σ) → Nat) (w₀ w : Io (EncoderInstance σ)) : Prop extends
    Compressing enc init m n sourceFile destinationFile w where
  operation_mem : operation ∈ compressOperations
  offers_all : offered w = w.sourceLength
  allowed : enc.Allowed w.coder operation w.sourceWindow
  file : w.sourceFile = w₀.sourceFile

variable {w₀ w : Io (EncoderInstance σ)}

theorem Asking.offered_window
    (h : Asking enc init m n sourceFile destinationFile operation offered w₀ w) :
    w.sourceWindow.take (offered w) = w.sourceWindow := by
  rw [h.offers_all, ← h.wellFormed.sourceWindow_length, List.take_length]

theorem Asking.streamed
    (h : Asking enc init m n sourceFile destinationFile operation offered w₀ w) :
    Compressing enc init m n sourceFile destinationFile
      (streamed enc.toCodec operation (offered w) n w) where
  toMoved := h.toMoved.streamed (le_of_eq h.offers_all)
  session := by
    refine .call _ h.session h.operation_mem ?_
    rw [h.offered_window]
    exact h.allowed

/-- A call that is not the last one emits something or finds the buffer filled. -/
theorem Asking.streamed_destinationLength (henc : enc.Contract compressOperations fmt init)
    (hn : 0 < n) (h : Asking enc init m n sourceFile destinationFile operation offered w₀ w)
    (hpending : enc.pending operation
      (Io.streamed enc.toCodec operation (offered w) n w).coder.state = true) :
    (Io.streamed enc.toCodec operation (offered w) n w).destinationLength ≠ 0 := by
  intro hzero
  have hsum : w.destinationLength +
      (streamAnswer enc.toCodec operation (offered w) n w).output.length = 0 := hzero
  have houtput : (streamAnswer enc.toCodec operation (offered w) n w).output ≠ [] :=
    henc.progresses h.session h.operation_mem (by rw [h.offered_window]; exact h.allowed)
      (by omega) hpending
  have := List.length_pos_iff.mpr houtput
  omega

/-- After a flush the operation is asked for again, on what is left. -/
theorem Asking.again {f : DestinationFile}
    (hoffered : ∀ w w' : Io (EncoderInstance σ), offered w = w.sourceLength →
      w'.sourceLength ≤ w.sourceLength → offered w' = w'.sourceLength)
    (h : Asking enc init m n sourceFile destinationFile operation offered w₀ w)
    (hpending : enc.pending operation
      (Io.streamed enc.toCodec operation (offered w) n w).coder.state = true)
    (hwritten : f.written = w.destinationFile.written ++
      (Io.streamed enc.toCodec operation (offered w) n w).destinationBuffer.take
        (Io.streamed enc.toCodec operation (offered w) n w).destinationLength)
    (herror : f.error = w.destinationFile.error)
    (hfaultless : w.destinationFile.Faultless → f.Faultless) :
    Asking enc init m n sourceFile destinationFile operation offered w₀
      { Io.streamed enc.toCodec operation (offered w) n w with
        destinationFile := f, destinationLength := 0 } where
  toMoved := h.streamed.toMoved.flushed hwritten herror hfaultless
  session := h.streamed.session
  operation_mem := h.operation_mem
  offers_all := hoffered w _ h.offers_all (Nat.sub_le _ _)
  allowed := by
    have hrest : (Io.streamed enc.toCodec operation (offered w) n w).sourceWindow =
        (w.sourceWindow.take (offered w)).drop
          (streamAnswer enc.toCodec operation (offered w) n w).consumed := by
      rw [h.offered_window, streamed_sourceWindow]
    have hallowed := Encoder.Allowed.of_pending
      (enc.call_getLast w.coder operation (w.sourceWindow.take (offered w))
        (n - w.destinationLength)) hpending
    rw [Call.rest] at hallowed
    simp only [sourceWindow, Io.streamed, streamAnswer] at hrest hallowed ⊢
    rw [hrest]
    exact hallowed
  file := h.file

/-- The loop around one operation returns, with the operation complete and all
    of the source taken. -/
theorem operationLoop (gvl : Bool) (operation : Operation)
    (offered : Io (EncoderInstance σ) → Nat) (henc : enc.Contract compressOperations fmt init)
    {wrapper : Nat → Io (EncoderInstance σ) → Io (EncoderInstance σ) × Nat × Bool}
    (hwrapper : ∀ room w,
      wrapper room w = streamWrapper enc.toCodec operation (offered w) room w)
    (hoffered : ∀ w w' : Io (EncoderInstance σ), offered w = w.sourceLength →
      w'.sourceLength ≤ w.sourceLength → offered w' = w'.sourceLength)
    {bound : Nat} (hbound : ∀ i, enc.Session compressOperations init i →
      i.consumed <+: sourceFile.unread → i.emitted.length ≤ bound)
    (hwrite : destinationFile.Faultless) (hn : 0 < n) {fuel : Nat} (hfuel : 2 * bound + 1 < fuel)
    (h : Asking enc init m n sourceFile destinationFile operation offered w₀ w) :
    ∃ w', whileTrue (bufferedBody wrapper encoderFailure
        (fun i _ => enc.pending operation i.state) gvl n) fuel w = some (.ok, w') ∧
      Compressing enc init m n sourceFile destinationFile w' ∧ w'.sourceLength = 0 ∧
      w'.sourceFile = w₀.sourceFile ∧ enc.pending operation w'.coder.state = false ∧
      ∃ last, w'.coder.calls.getLast? = some last ∧ last.operation = operation := by
  have hsucceeds : ∀ {w}, Asking enc init m n sourceFile destinationFile operation offered w₀ w →
      encoderFailure (Io.streamed enc.toCodec operation (offered w) n w).coder
        (streamAnswer enc.toCodec operation (offered w) n w).result = none := by
    intro w h
    have hresult : (streamAnswer enc.toCodec operation (offered w) n w).result = true :=
      henc.succeeds _ h.session h.operation_mem (by rw [h.offered_window]; exact h.allowed)
    exact encoderFailure_none.mpr hresult
  have hwf : ∀ {w}, Asking enc init m n sourceFile destinationFile operation offered w₀ w →
      w.WellFormed m n ∧ offered w ≤ w.sourceLength := fun h =>
    ⟨h.wellFormed, le_of_eq h.offers_all⟩
  obtain ⟨⟨extResult, w'⟩, hreturn⟩ : ∃ x, whileTrue (bufferedBody wrapper encoderFailure
      (fun i _ => enc.pending operation i.state) gvl n) fuel w = some x := bufferedLoop_returns
    hwrapper (I := Asking enc init m n sourceFile destinationFile operation offered w₀)
    (fun w h => hwf h)
    (fun w h _ _ => hbound _ h.streamed.session h.streamed.consumed_prefix)
    (fun w f h _ hagain _ hwritten herror hfaultless =>
      h.again hoffered hagain hwritten herror hfaultless) h hfuel
  have hpost : extResult = .ok ∧ Compressing enc init m n sourceFile destinationFile w' ∧
      w'.sourceLength = 0 ∧ w'.sourceFile = w₀.sourceFile ∧
      enc.pending operation w'.coder.state = false ∧
      ∃ last, w'.coder.calls.getLast? = some last ∧ last.operation = operation := by
    refine bufferedLoop_partial (m := m) hwrapper
      (I := Asking enc init m n sourceFile destinationFile operation offered w₀)
      (Q := fun x => x.1 = .ok ∧ Compressing enc init m n sourceFile destinationFile x.2 ∧
        x.2.sourceLength = 0 ∧ x.2.sourceFile = w₀.sourceFile ∧
        enc.pending operation x.2.coder.state = false ∧
        ∃ last, x.2.coder.calls.getLast? = some last ∧ last.operation = operation)
      (fun w h => hwf h) ?_ ?_ ?_ h hreturn
    -- The encoder does not fail when it is used as its contract asks.
    · intro w extResult h hfail
      rw [hsucceeds h] at hfail
      cases hfail
    -- The operation is complete, so everything offered was taken.
    · intro w h _ hdone
      have hall : (streamAnswer enc.toCodec operation (offered w) n w).consumed =
          w.sourceLength := by
        have := henc.completes (n - w.destinationLength) h.session h.operation_mem
          (by rw [h.offered_window]; exact h.allowed) hdone
        rwa [h.offered_window, h.wellFormed.sourceWindow_length, ← h.offered_window] at this
      refine ⟨rfl, h.streamed, ?_, h.file, hdone, _, enc.call_getLast _ _ _ _, rfl⟩
      show w.sourceLength - _ = 0
      rw [hall, Nat.sub_self]
    · intro w h _ hagain
      refine ⟨fun hzero => ?_, fun f _ hfault => ?_, fun f _ hwritten herror hfaultless => ?_⟩
      -- The buffer is not empty when it is flushed, and the flush has no fault.
      · exact absurd hzero (h.streamed_destinationLength henc hn hagain)
      · exact absurd (h.destination_faultless hwrite) hfault
      · exact h.again hoffered hagain hwritten herror hfaultless
  obtain ⟨rfl, hrest⟩ := hpost
  exact ⟨w', hreturn, hrest⟩

end OperationLoop

/-! ## The three loops -/

theorem bufferedCompress_eq (gvl : Bool) (fuel : Nat) (w : Io (EncoderInstance σ)) :
    bufferedCompress enc gvl n fuel w =
      whileTrue (bufferedBody (compressWrapper enc) encoderFailure
        (fun i _ => enc.pending .process i.state) gvl n) fuel w := by
  simp only [bufferedCompress, bufferedCompressBody, Encoder.pending, reduceCtorEq,
    beq_eq_false_iff_ne.mpr, ne_eq, not_false_eq_true, Bool.false_and, Bool.or_false]

theorem bufferedCompressorFinish_eq (gvl : Bool) (fuel : Nat) (w : Io (EncoderInstance σ)) :
    bufferedCompressorFinish enc gvl n fuel w =
      whileTrue (bufferedBody (compressorFinishWrapper enc) encoderFailure
        (fun i _ => enc.pending .finish i.state) gvl n) fuel w := by
  simp only [bufferedCompressorFinish, bufferedCompressorFinishBody, Encoder.pending,
    beq_self_eq_true, Bool.true_and]

section Loops

variable (gvl : Bool) {bound fuel : Nat} {w : Io (EncoderInstance σ)}

/-- `buffered_compress` takes all of the source window. -/
theorem bufferedCompress_returns (henc : enc.Contract compressOperations fmt init)
    (hbound : ∀ i, enc.Session compressOperations init i →
      i.consumed <+: sourceFile.unread → i.emitted.length ≤ bound)
    (hwrite : destinationFile.Faultless) (hn : 0 < n) (hfuel : 2 * bound + 1 < fuel)
    (h : Compressing enc init m n sourceFile destinationFile w)
    (hcompleted : Completed enc w.coder) :
    ∃ w', bufferedCompress enc gvl n fuel w = some (.ok, w') ∧
      Idle enc init m n sourceFile destinationFile w' ∧ w'.sourceFile = w.sourceFile := by
  rw [bufferedCompress_eq]
  obtain ⟨w', hreturn, hw', hlength, hfile, hdone, last, hlast, hop⟩ :=
    operationLoop gvl .process (fun w => w.sourceLength) henc (fun _ _ => rfl)
      (fun _ _ _ _ => rfl) hbound hwrite hn hfuel
      { toCompressing := h
        operation_mem := List.mem_cons_self ..
        offers_all := rfl
        allowed := Encoder.Allowed.of_complete hcompleted
        file := rfl }
  refine ⟨w', hreturn, { toCompressing := hw', sourceLength := hlength, completed := ?_ }, hfile⟩
  intro last' hlast'
  obtain rfl : last = last' := Option.some.inj (hlast.symm.trans hlast')
  rw [hop]
  exact ⟨hdone, by decide⟩

/-- `buffered_compressor_finish` ends the stream. -/
theorem bufferedCompressorFinish_returns (henc : enc.Contract compressOperations fmt init)
    (hbound : ∀ i, enc.Session compressOperations init i →
      i.consumed <+: sourceFile.unread → i.emitted.length ≤ bound)
    (hwrite : destinationFile.Faultless) (hn : 0 < n) (hfuel : 2 * bound + 1 < fuel)
    (h : Idle enc init m n sourceFile destinationFile w) :
    ∃ w', bufferedCompressorFinish enc gvl n fuel w = some (.ok, w') ∧
      Compressing enc init m n sourceFile destinationFile w' ∧ w'.sourceLength = 0 ∧
      w'.sourceFile = w.sourceFile ∧ fmt.Decodes w'.coder.emitted w'.coder.consumed := by
  rw [bufferedCompressorFinish_eq]
  obtain ⟨w', hreturn, hw', hlength, hfile, hdone, last, hlast, hop⟩ :=
    operationLoop gvl .finish (fun _ => 0) henc (fun _ _ => rfl)
      (fun w w' h0 hle => by omega) hbound hwrite hn hfuel
      { toCompressing := h.toCompressing
        operation_mem := by simp [compressOperations]
        offers_all := h.sourceLength.symm
        allowed := Encoder.Allowed.of_complete h.completed
        file := rfl }
  exact ⟨w', hreturn, hw', hlength, hfile, henc.finishes hw'.session hlast hop hdone⟩

/-- With no source left over, a read gives more of it or finds the end of the
    file. -/
theorem Idle.readMoreSource_result (hread : sourceFile.Faultless) (hm : 0 < m)
    (h : Idle enc init m n sourceFile destinationFile w) :
    (w.readMoreSource m).1 = .ok ∨ (w.readMoreSource m).1 = .fileReadFinished := by
  cases (readMoreSource_cases h.wellFormed).2 with
  | read hok => exact Or.inl hok
  | full _ _ _ hfull =>
      have hempty := h.sourceLength
      omega
  | finished hend => exact Or.inr hend
  | failed _ _ _ _ hfault => exact absurd (h.source_faultless hread) hfault

/-- The encoder is not touched between two calls of `buffered_compress`. -/
theorem Idle.readMoreSource (h : Idle enc init m n sourceFile destinationFile w)
    (hr : (w.readMoreSource m).1 ≠ .readIo) :
    Compressing enc init m n sourceFile destinationFile (w.readMoreSource m).2 ∧
      Completed enc (w.readMoreSource m).2.coder := by
  have hcoder := (readMoreSource_cases h.wellFormed).1.coder
  exact ⟨{ toMoved := h.toMoved.readMoreSource hr, session := hcoder ▸ h.session },
    hcoder ▸ h.completed⟩

/-- `BUFFERED_READ_SOURCE(buffered_compress, ...)` compresses the whole file. -/
theorem bufferedReadSource_compresses (henc : enc.Contract compressOperations fmt init)
    (hbound : ∀ i, enc.Session compressOperations init i →
      i.consumed <+: sourceFile.unread → i.emitted.length ≤ bound)
    (hread : sourceFile.Faultless) (hwrite : destinationFile.Faultless) (hm : 0 < m)
    (hn : 0 < n) (hfuel : 2 * bound + 1 < fuel)
    (hfuel' : w.sourceFile.unread.length < fuel)
    (h : Idle enc init m n sourceFile destinationFile w) :
    ∃ w', bufferedReadSource (bufferedCompress enc gvl n fuel) m fuel w = some (.ok, w') ∧
      Idle enc init m n sourceFile destinationFile w' ∧ w'.sourceFile.unread = [] := by
  have hok_ne : ∀ {w : Io (EncoderInstance σ)}, (w.readMoreSource m).1 = .ok →
      (w.readMoreSource m).1 ≠ .readIo := fun h => by rw [h]; decide
  have hend_ne : ∀ {w : Io (EncoderInstance σ)}, (w.readMoreSource m).1 = .fileReadFinished →
      (w.readMoreSource m).1 ≠ .readIo := fun h => by rw [h]; decide
  have hcall : ∀ {w : Io (EncoderInstance σ)},
      Compressing enc init m n sourceFile destinationFile w ∧ Completed enc w.coder →
      ∃ w', bufferedCompress enc gvl n fuel w = some (.ok, w') ∧
        Idle enc init m n sourceFile destinationFile w' ∧ w'.sourceFile = w.sourceFile := fun h =>
    bufferedCompress_returns gvl henc hbound hwrite hn hfuel h.1 h.2
  obtain ⟨⟨extResult, w'⟩, hreturn⟩ : ∃ x,
      bufferedReadSource (bufferedCompress enc gvl n fuel) m fuel w = some x :=
    bufferedReadSource_returns (n := n)
    (I := fun _ => Idle enc init m n sourceFile destinationFile)
    (J := fun w => Compressing enc init m n sourceFile destinationFile w ∧ Completed enc w.coder)
    (fun _ _ h => h.wellFormed)
    (fun _ _ h hr => h.readMoreSource (hok_ne hr))
    (fun w w' h hf => by
      obtain ⟨w'', hf', hidle, hfile⟩ := hcall h
      obtain rfl : w'' = w' := by simpa using hf'.symm.trans hf
      exact ⟨hidle, hfile⟩)
    (fun w h => (hcall h).elim fun _ hf => ⟨_, hf.1⟩)
    (fun w h hr _ => (hcall (h.readMoreSource (hend_ne hr))).elim fun _ hf => ⟨_, hf.1⟩) h hfuel'
  have hpost : extResult = .ok ∧ Idle enc init m n sourceFile destinationFile w' ∧
      w'.sourceFile.unread = [] := by
    refine bufferedReadSource_partial (m := m)
      (I := fun _ => Idle enc init m n sourceFile destinationFile)
      (J := fun w => Compressing enc init m n sourceFile destinationFile w ∧ Completed enc w.coder)
      (Q := fun x => x.1 = .ok ∧ Idle enc init m n sourceFile destinationFile x.2 ∧
        x.2.sourceFile.unread = [])
      ?_ ?_ ?_ ?_ ?_ ?_ ?_ h hreturn
    -- Reads and calls keep the encoder idle, and no call fails.
    · intro _ w h hr
      exact h.readMoreSource (hok_ne hr)
    · intro w w' h hf
      obtain ⟨w'', hf', hidle, -⟩ := hcall h
      obtain rfl : w'' = w' := by simpa using hf'.symm.trans hf
      exact hidle
    · intro w extResult w' h hf hne
      obtain ⟨w'', hf', -⟩ := hcall h
      exact absurd (by simpa using (congrArg (Option.map Prod.fst) (hf'.symm.trans hf)).symm) hne
    -- At the end of the file there is no remainder; the file may have been empty.
    · intro _ w h hr hrest
      obtain ⟨-, hlength, -⟩ := readMoreSource_finished h.wellFormed hr
      exact absurd (hlength.trans h.sourceLength) hrest
    · intro w h hr hrest
      obtain ⟨hw', hcompleted⟩ := h.readMoreSource (hend_ne hr)
      obtain ⟨-, -, hunread⟩ := readMoreSource_finished h.wellFormed hr
      exact ⟨rfl, { toCompressing := hw', sourceLength := hrest, completed := hcompleted },
        hunread⟩
    · intro w x h hr hrest hf
      obtain ⟨w'', hf', hidle, hfile⟩ := hcall (h.readMoreSource (hend_ne hr))
      obtain rfl : (.ok, w'') = x := Option.some.inj (hf'.symm.trans hf)
      obtain ⟨-, -, hunread⟩ := readMoreSource_finished h.wellFormed hr
      exact ⟨rfl, hidle, by rw [hfile]; exact hunread⟩
    · intro _ w h hne hne'
      rcases h.readMoreSource_result hread hm with hok | hend
      · exact absurd hok hne
      · exact absurd hend hne'
  obtain ⟨rfl, hrest⟩ := hpost
  exact ⟨w', hreturn, hrest⟩

end Loops

/-! ## `compress` -/

/-- Without faults, `compress` succeeds for every content and every pair of
    non-empty buffers, and what it writes is one complete stream of the content. -/
theorem compress_total (henc : enc.Contract compressOperations fmt init) (gvl : Bool)
    (handle : Nat)
    {sourceFile : SourceFile} {destinationFile : DestinationFile}
    {sourceBuffer destinationBuffer : List UInt8}
    (hread : sourceFile.Faultless) (hwrite : destinationFile.Faultless)
    (hsource : 0 < sourceBuffer.length) (hdestination : 0 < destinationBuffer.length) :
    ∃ enough, ∀ fuel, enough ≤ fuel → ∃ w' stream,
      compress enc gvl sourceBuffer.length destinationBuffer.length fuel ⟨handle, init, []⟩
        sourceFile sourceBuffer destinationFile destinationBuffer = some (.ok, w') ∧
      w'.destinationFile.written = destinationFile.written ++ stream ∧
      fmt.Decodes stream sourceFile.unread := by
  obtain ⟨bound, hbound⟩ := henc.finite sourceFile.unread
  refine ⟨sourceFile.unread.length + 2 * bound + 2, fun fuel hfuel => ?_⟩
  have hstart : Idle enc init sourceBuffer.length destinationBuffer.length sourceFile
      destinationFile
      { coder := ⟨handle, init, []⟩, sourceFile, sourceBuffer, source := 0, sourceLength := 0,
        destinationFile, destinationBuffer, destinationLength := 0 } :=
    { toMoved := .start handle init sourceBuffer destinationBuffer
      session := .start handle
      sourceLength := rfl
      completed := fun _ h => nomatch h }
  have hfile : sourceFile.unread.length < fuel := by omega
  have hloopFuel : 2 * bound + 1 < fuel := by omega
  obtain ⟨w₁, hloop, hidle, hunread⟩ := bufferedReadSource_compresses gvl henc hbound
    hread hwrite hsource hdestination hloopFuel hfile hstart
  obtain ⟨w₂, hfinish, hw₂, hlength, hsame, hdecodes⟩ := bufferedCompressorFinish_returns
    gvl henc hbound hwrite hdestination hloopFuel hidle
  -- Nothing is left to offer, so the stream is one of the whole file.
  have hconsumed := hw₂.consumed_eq hlength (by rw [hsame]; exact hunread)
  rcases hw₂.writeRemainingDestination with ⟨f, heq, hwritten, -⟩ | ⟨f, -, -, hfault⟩
  · refine ⟨{ w₂ with destinationFile := f }, w₂.coder.emitted, ?_, hwritten,
      hconsumed ▸ hdecodes⟩
    simp [compress, hloop, hfinish, heq]
  · exact absurd hwrite hfault

/-- A file of three bytes, through buffers of one byte each. -/
theorem compress_total_oneByte :
    ∃ enough, ∀ fuel, enough ≤ fuel → ∃ w' stream,
      compress storedEncoder true 1 1 fuel ⟨0, storedEncoder.create, []⟩
        (.opened [1, 2, 3] []) [0] (.opened []) [0] = some (.ok, w') ∧
      w'.destinationFile.written = (DestinationFile.opened []).written ++ stream ∧
      storedFormat.Decodes stream [1, 2, 3] := by
  have htotal := compress_total (storedEncoder_flushContract compressOperations).toContract true 0
    (SourceFile.opened_faultless [1, 2, 3]) DestinationFile.opened_faultless
    (show 0 < [(0 : UInt8)].length by decide) (show 0 < [(0 : UInt8)].length by decide)
  exact htotal

end Io
end RubyBrs
