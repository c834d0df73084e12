/-
  RubyBrs.Ext.IoMoved

  What the functions of `io.c` have done to the two files at any point, whatever
  the codec does: `Moved` relates the variables to the files as they were at the
  start.  No byte was lost, repeated or reordered on either side of the codec,
  and no fault went unnoticed.

  `bufferedLoop_outcome` lists the four ways in which the loop around a library
  call can end, each with the last call it made.
-/

import RubyBrs.Ext.IoLoops

namespace RubyBrs
namespace Io

open StreamCodec WhileTrue

variable {σ ω ρ : Type} {m n : Nat} {sourceFile : SourceFile} {destinationFile : DestinationFile}

/-- The variables between any two steps, given the files at the start. -/
structure Moved (m n : Nat) (sourceFile : SourceFile) (destinationFile : DestinationFile)
    (w : Io (Coder UInt8 σ ω ρ)) : Prop where
  wellFormed : w.WellFormed m n
  balanced : w.view.Balanced sourceFile.unread destinationFile.written
  source_error : w.sourceFile.error = sourceFile.error
  source_faultless : sourceFile.Faultless → w.sourceFile.Faultless
  destination_error : w.destinationFile.error = destinationFile.error
  destination_faultless : destinationFile.Faultless → w.destinationFile.Faultless

/-- The variables of a function that has just been entered. -/
theorem Moved.start (handle : Nat) (s : σ) (sourceBuffer destinationBuffer : List UInt8) :
    Moved sourceBuffer.length destinationBuffer.length sourceFile destinationFile
      { coder := (⟨handle, s, []⟩ : Coder UInt8 σ ω ρ), sourceFile, sourceBuffer, source := 0,
        sourceLength := 0, destinationFile, destinationBuffer, destinationLength := 0 } where
  wellFormed := ⟨Nat.zero_le _, rfl, Nat.zero_le _, rfl⟩
  balanced := by simp [Pipe.Balanced, view, sourceWindow]
  source_error := rfl
  source_faultless := id
  destination_error := rfl
  destination_faultless := id

variable {w : Io (Coder UInt8 σ ω ρ)}

theorem Moved.consumed_prefix (h : Moved m n sourceFile destinationFile w) :
    w.coder.consumed <+: sourceFile.unread := h.balanced.consumed_prefix

/-- The next bytes of the file, as far as they are in the source buffer. -/
theorem Moved.offered_prefix (h : Moved m n sourceFile destinationFile w) (k : Nat) :
    w.coder.consumed ++ w.sourceWindow.take k <+: sourceFile.unread := by
  have hall : w.coder.consumed ++ (w.sourceWindow ++ w.sourceFile.unread) =
      sourceFile.unread := h.balanced.1
  have hwindow : w.sourceWindow.take k <+: w.sourceWindow ++ w.sourceFile.unread :=
    (List.take_prefix k _).trans (List.prefix_append _ _)
  rw [← hall]
  exact (List.prefix_append_right_inj _).mpr hwindow

/-- A library call moves bytes from the source to the destination. -/
theorem Moved.streamed {codec : Codec UInt8 σ ω ρ} {operation : ω} {offered : Nat}
    (h : Moved m n sourceFile destinationFile w) (hoff : offered ≤ w.sourceLength) :
    Moved m n sourceFile destinationFile (Io.streamed codec operation offered n w) where
  wellFormed := streamed_wellFormed h.wellFormed hoff
  balanced := by
    rw [view_streamed h.wellFormed hoff]
    exact Pipe.feed_balanced _ _ _ _ h.balanced
  source_error := h.source_error
  source_faultless := h.source_faultless
  destination_error := h.destination_error
  destination_faultless := h.destination_faultless

/-- A flush moves the filled part of the destination buffer to the file. -/
theorem Moved.flushed {f : DestinationFile} (h : Moved m n sourceFile destinationFile w)
    (hwritten : f.written =
      w.destinationFile.written ++ w.destinationBuffer.take w.destinationLength)
    (herror : f.error = w.destinationFile.error)
    (hfaultless : w.destinationFile.Faultless → f.Faultless) :
    Moved m n sourceFile destinationFile
      { w with destinationFile := f, destinationLength := 0 } where
  wellFormed := ⟨h.wellFormed.source_fits, h.wellFormed.sourceBuffer_length, Nat.zero_le n,
    h.wellFormed.destinationBuffer_length⟩
  balanced := by rw [view_flushed w hwritten]; exact h.balanced
  source_error := h.source_error
  source_faultless := h.source_faultless
  destination_error := herror.trans h.destination_error
  destination_faultless hd := hfaultless (h.destination_faultless hd)

/-- Reading more source, unless it fails, moves bytes of the file to the buffer. -/
theorem Moved.readMoreSource (h : Moved m n sourceFile destinationFile w)
    (hr : (w.readMoreSource m).1 ≠ .readIo) :
    Moved m n sourceFile destinationFile (w.readMoreSource m).2 := by
  obtain ⟨hframe, hcases⟩ := readMoreSource_cases h.wellFormed
  have hsource : (w.readMoreSource m).2.sourceFile.error = w.sourceFile.error ∧
      (w.sourceFile.Faultless → (w.readMoreSource m).2.sourceFile.Faultless) := by
    -- A full buffer leaves the file alone; the other two cases read from it.
    cases hcases with
    | read _ _ _ _ _ herror hfaultless => exact ⟨herror, hfaultless⟩
    | full _ _ _ _ hfile => rw [hfile]; exact ⟨rfl, id⟩
    | finished _ _ _ _ _ herror hfaultless => exact ⟨herror, hfaultless⟩
    | failed hio => exact absurd hio hr
  exact
    { wellFormed := hframe.wellFormed
      balanced := by rw [view_readMoreSource h.wellFormed hr]; exact h.balanced
      source_error := hsource.1.trans h.source_error
      source_faultless := fun hs => hsource.2 (h.source_faultless hs)
      destination_error := by rw [hframe.destinationFile]; exact h.destination_error
      destination_faultless := by rw [hframe.destinationFile]; exact h.destination_faultless }

/-- With the source buffer and the file empty, the codec has taken all of it. -/
theorem Moved.consumed_eq (h : Moved m n sourceFile destinationFile w)
    (hlength : w.sourceLength = 0) (hunread : w.sourceFile.unread = []) :
    w.coder.consumed = sourceFile.unread := by
  refine h.balanced.consumed_eq ?_
  simp only [view, hunread, List.append_nil]
  exact h.wellFormed.sourceWindow_eq_nil.mpr hlength

/-- What was written once the remaining destination has been written. -/
theorem Moved.writeRemainingDestination (h : Moved m n sourceFile destinationFile w) :
    (∃ f, w.writeRemainingDestination = (.ok, { w with destinationFile := f }) ∧
        f.written = destinationFile.written ++ w.coder.emitted ∧
        f.error = destinationFile.error) ∨
    (∃ f, w.writeRemainingDestination = (.writeIo, { w with destinationFile := f }) ∧
        f.error = true ∧ ¬ destinationFile.Faultless) := by
  rcases writeRemainingDestination_cases h.wellFormed with
    ⟨f, heq, hwritten, herror, -⟩ | ⟨f, heq, herror, hfault⟩
  · exact Or.inl ⟨f, heq, hwritten.trans h.balanced.2, herror.trans h.destination_error⟩
  · exact Or.inr ⟨f, heq, herror, fun hd => hfault (h.destination_faultless hd)⟩

/-! ## The loop around a library call -/

section BufferedLoop

variable {codec : Codec UInt8 σ ω ρ} {operation : ω} {offered : Io (Coder UInt8 σ ω ρ) → Nat}
  {wrapper : Nat → Io (Coder UInt8 σ ω ρ) → Io (Coder UInt8 σ ω ρ) × Nat × ρ}
  {failure : Coder UInt8 σ ω ρ → ρ → Option ExtResult}
  {again : Coder UInt8 σ ω ρ → ρ → Bool} {gvl : Bool}

/-- The head of the loop before its last call, for a loop entered with `w₀`. -/
structure AtHead (m n : Nat) (sourceFile : SourceFile) (destinationFile : DestinationFile)
    (K : Coder UInt8 σ ω ρ → Prop) (w₀ w : Io (Coder UInt8 σ ω ρ)) : Prop extends
    Moved m n sourceFile destinationFile w where
  coder : K w.coder
  file : w.sourceFile = w₀.sourceFile
  sourceLength_le : w.sourceLength ≤ w₀.sourceLength

/-- The four ways out of the loop, by a last call made with the variables `v`. -/
inductive LoopOutcome (codec : Codec UInt8 σ ω ρ) (operation : ω)
    (offered : Io (Coder UInt8 σ ω ρ) → Nat) (failure : Coder UInt8 σ ω ρ → ρ → Option ExtResult)
    (again : Coder UInt8 σ ω ρ → ρ → Bool) (n : Nat) (destinationFile : DestinationFile)
    (v : Io (Coder UInt8 σ ω ρ)) : ExtResult × Io (Coder UInt8 σ ω ρ) → Prop
  | finished
      (hnone : failure (streamed codec operation (offered v) n v).coder
        (streamAnswer codec operation (offered v) n v).result = none)
      (hdone : again (streamed codec operation (offered v) n v).coder
        (streamAnswer codec operation (offered v) n v).result = false) :
      LoopOutcome codec operation offered failure again n destinationFile v
        (.ok, streamed codec operation (offered v) n v)
  | failed {extResult : ExtResult}
      (hfail : failure (streamed codec operation (offered v) n v).coder
        (streamAnswer codec operation (offered v) n v).result = some extResult) :
      LoopOutcome codec operation offered failure again n destinationFile v
        (extResult, { streamed codec operation (offered v) n v with
          destinationLength := v.destinationLength })
  | stalled
      (hagain : again (streamed codec operation (offered v) n v).coder
        (streamAnswer codec operation (offered v) n v).result = true)
      (hzero : (streamed codec operation (offered v) n v).destinationLength = 0) :
      LoopOutcome codec operation offered failure again n destinationFile v
        (.notEnoughDestinationBuffer, streamed codec operation (offered v) n v)
  | writeFailed {f : DestinationFile} (herror : f.error = true)
      (hfault : ¬ destinationFile.Faultless) :
      LoopOutcome codec operation offered failure again n destinationFile v
        (.writeIo, { streamed codec operation (offered v) n v with destinationFile := f })

/-- The loop ends in one of the four ways; `K` is any property of the codec that
    the calls before the last keep. -/
theorem bufferedLoop_outcome (offered : Io (Coder UInt8 σ ω ρ) → Nat)
    (hwrapper : ∀ room w, wrapper room w = streamWrapper codec operation (offered w) room w)
    (hoffered : ∀ w, offered w ≤ w.sourceLength) {K : Coder UInt8 σ ω ρ → Prop}
    (hK : ∀ w, Moved m n sourceFile destinationFile w → K w.coder →
      failure (streamed codec operation (offered w) n w).coder
        (streamAnswer codec operation (offered w) n w).result = none →
      again (streamed codec operation (offered w) n w).coder
        (streamAnswer codec operation (offered w) n w).result = true →
      K (streamed codec operation (offered w) n w).coder)
    {fuel : Nat} {w : Io (Coder UInt8 σ ω ρ)} {x : ExtResult × Io (Coder UInt8 σ ω ρ)}
    (hw : Moved m n sourceFile destinationFile w) (hKw : K w.coder)
    (h : whileTrue (bufferedBody wrapper failure again gvl n) fuel w = some x) :
    ∃ v, AtHead m n sourceFile destinationFile K w v ∧
      LoopOutcome codec operation offered failure again n destinationFile v x := by
  refine bufferedLoop_partial (m := m) hwrapper
    (I := AtHead m n sourceFile destinationFile K w)
    (Q := fun x => ∃ v, AtHead m n sourceFile destinationFile K w v ∧
      LoopOutcome codec operation offered failure again n destinationFile v x)
    (fun v hv => ⟨hv.wellFormed, hoffered v⟩) ?_ ?_ ?_
    { toMoved := hw, coder := hKw, file := rfl, sourceLength_le := le_refl _ } h
  · intro v extResult hv hfail
    exact ⟨v, hv, .failed hfail⟩
  · intro v hv hnone hdone
    exact ⟨v, hv, .finished hnone hdone⟩
  · intro v hv hnone hagain
    refine ⟨fun hzero => ⟨v, hv, .stalled hagain hzero⟩, fun f herror hfault =>
      ⟨v, hv, .writeFailed herror fun hd => hfault (hv.destination_faultless hd)⟩, ?_⟩
    -- Round the loop again: a call and a flush, neither of which reads the file.
    intro f _ hwritten herror hfaultless
    exact
      { toMoved := (hv.toMoved.streamed (hoffered v)).flushed hwritten herror hfaultless
        coder := hK v hv.toMoved hv.coder hnone hagain
        file := hv.file
        sourceLength_le := (Nat.sub_le _ _).trans hv.sourceLength_le }

end BufferedLoop

end Io
end RubyBrs
