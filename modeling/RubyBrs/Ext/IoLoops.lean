/-
  RubyBrs.Ext.IoLoops

  Proof rules for the two kinds of loop in `io.c`: the loop around a library
  call, and `BUFFERED_READ_SOURCE`.

  Each has a partial rule, which takes an invariant and a postcondition and asks
  for one fact per way round or out of the loop, and a termination rule.  The
  loop around a call ends because every round but one that empties a full buffer
  emits something, and `BUFFERED_READ_SOURCE` because every round takes at least
  one byte from the file.
-/

import RubyBrs.Ext.IoRefine

namespace RubyBrs
namespace Io

open StreamCodec WhileTrue

variable {σ ω ρ : Type} {m n : Nat}

/-! ## The loop around a library call -/

/-- `buffered_compress` offers all of the source. -/
theorem compressWrapper_eq (enc : Encoder σ) (room : Nat) (w : Io (EncoderInstance σ)) :
    compressWrapper enc room w = streamWrapper enc.toCodec .process w.sourceLength room w := rfl

/-- `buffered_compressor_finish` offers nothing. -/
theorem compressorFinishWrapper_eq (enc : Encoder σ) (room : Nat) (w : Io (EncoderInstance σ)) :
    compressorFinishWrapper enc room w = streamWrapper enc.toCodec .finish 0 room w := rfl

/-- `buffered_decompress` offers all of the source. -/
theorem decompressWrapper_eq (dec : Decoder σ) (room : Nat) (w : Io (DecoderInstance σ)) :
    decompressWrapper dec room w = streamWrapper dec.toCodec () w.sourceLength room w := rfl

section BufferedLoop

variable {codec : Codec UInt8 σ ω ρ} {operation : ω} {offered : Io (Coder UInt8 σ ω ρ) → Nat}
  {wrapper : Nat → Io (Coder UInt8 σ ω ρ) →
    Io (Coder UInt8 σ ω ρ) × Nat × ρ}
  {failure : Coder UInt8 σ ω ρ → ρ → Option ExtResult}
  {again : Coder UInt8 σ ω ρ → ρ → Bool} {gvl : Bool}

/-- The loop body in terms of the call and the flush. -/
theorem bufferedBody_eq
    (hwrapper : ∀ room w, wrapper room w = streamWrapper codec operation (offered w) room w)
    (w : Io (Coder UInt8 σ ω ρ)) (hoff : offered w ≤ w.sourceLength) :
    bufferedBody wrapper failure again gvl n w =
      match failure (streamed codec operation (offered w) n w).coder
          (streamAnswer codec operation (offered w) n w).result with
      | some extResult => some (.exit (extResult,
          { streamed codec operation (offered w) n w with
            destinationLength := w.destinationLength }))
      | none =>
          if again (streamed codec operation (offered w) n w).coder
              (streamAnswer codec operation (offered w) n w).result then
            if (streamed codec operation (offered w) n w).flushDestinationBuffer.1 ≠ .ok then
              some (.exit (streamed codec operation (offered w) n w).flushDestinationBuffer)
            else
              some (.next (streamed codec operation (offered w) n w).flushDestinationBuffer.2)
          else
            some (.exit (.ok, streamed codec operation (offered w) n w)) := by
  have hout := streamAnswer_output_le codec operation (offered w) n w
  have hlen : n - w.destinationLength - (n - w.destinationLength -
      (streamAnswer codec operation (offered w) n w).output.length) =
      (streamAnswer codec operation (offered w) n w).output.length := by omega
  simp only [bufferedBody, gvlWrap_eq, hwrapper, streamWrapper, window_offered hoff]
  simp only [streamed, streamAnswer] at hlen ⊢
  simp only [hlen]
  rfl

/-- What one round, with a call made with the variables `v`, does: it leaves the
    loop in one of four ways, or writes what is in the buffer and goes on. -/
inductive Round (codec : Codec UInt8 σ ω ρ) (operation : ω)
    (offered : Io (Coder UInt8 σ ω ρ) → Nat) (failure : Coder UInt8 σ ω ρ → ρ → Option ExtResult)
    (again : Coder UInt8 σ ω ρ → ρ → Bool) (n : Nat) (v : Io (Coder UInt8 σ ω ρ)) :
    Flow (Io (Coder UInt8 σ ω ρ)) (ExtResult × Io (Coder UInt8 σ ω ρ)) → Prop
  | finished
      (hnone : failure (streamed codec operation (offered v) n v).coder
        (streamAnswer codec operation (offered v) n v).result = none)
      (hdone : again (streamed codec operation (offered v) n v).coder
        (streamAnswer codec operation (offered v) n v).result = false) :
      Round codec operation offered failure again n v
        (.exit (.ok, streamed codec operation (offered v) n v))
  | failed {extResult : ExtResult}
      (hfail : failure (streamed codec operation (offered v) n v).coder
        (streamAnswer codec operation (offered v) n v).result = some extResult) :
      Round codec operation offered failure again n v
        (.exit (extResult, { streamed codec operation (offered v) n v with
          destinationLength := v.destinationLength }))
  | stalled
      (hnone : failure (streamed codec operation (offered v) n v).coder
        (streamAnswer codec operation (offered v) n v).result = none)
      (hagain : again (streamed codec operation (offered v) n v).coder
        (streamAnswer codec operation (offered v) n v).result = true)
      (hzero : (streamed codec operation (offered v) n v).destinationLength = 0) :
      Round codec operation offered failure again n v
        (.exit (.notEnoughDestinationBuffer, streamed codec operation (offered v) n v))
  | writeFailed {f : DestinationFile}
      (hnone : failure (streamed codec operation (offered v) n v).coder
        (streamAnswer codec operation (offered v) n v).result = none)
      (hagain : again (streamed codec operation (offered v) n v).coder
        (streamAnswer codec operation (offered v) n v).result = true)
      (hfilled : (streamed codec operation (offered v) n v).destinationLength ≠ 0)
      (herror : f.error = true) (hfault : ¬ v.destinationFile.Faultless) :
      Round codec operation offered failure again n v
        (.exit (.writeIo, { streamed codec operation (offered v) n v with destinationFile := f }))
  | flushed {f : DestinationFile}
      (hnone : failure (streamed codec operation (offered v) n v).coder
        (streamAnswer codec operation (offered v) n v).result = none)
      (hagain : again (streamed codec operation (offered v) n v).coder
        (streamAnswer codec operation (offered v) n v).result = true)
      (hfilled : (streamed codec operation (offered v) n v).destinationLength ≠ 0)
      (hwritten : f.written = v.destinationFile.written ++
        (streamed codec operation (offered v) n v).destinationBuffer.take
          (streamed codec operation (offered v) n v).destinationLength)
      (herror : f.error = v.destinationFile.error)
      (hfaultless : v.destinationFile.Faultless → f.Faultless) :
      Round codec operation offered failure again n v
        (.next { streamed codec operation (offered v) n v with
          destinationFile := f, destinationLength := 0 })

theorem bufferedBody_round
    (hwrapper : ∀ room w, wrapper room w = streamWrapper codec operation (offered w) room w)
    {w : Io (Coder UInt8 σ ω ρ)} (hw : w.WellFormed m n) (hoff : offered w ≤ w.sourceLength) :
    ∃ flow, bufferedBody wrapper failure again gvl n w = some flow ∧
      Round codec operation offered failure again n w flow := by
  rw [bufferedBody_eq hwrapper w hoff]
  cases hfailure : failure (streamed codec operation (offered w) n w).coder
      (streamAnswer codec operation (offered w) n w).result with
  | some extResult => exact ⟨_, rfl, .failed hfailure⟩
  | none =>
      by_cases hagain : again (streamed codec operation (offered w) n w).coder
          (streamAnswer codec operation (offered w) n w).result = true
      · simp only [if_pos hagain]
        rcases flushDestinationBuffer_cases (streamed_wellFormed hw hoff) with
          ⟨hzero, heq⟩ | ⟨hd, f, heq, herror, hfault⟩ | ⟨hd, f, heq, hwritten, herror, hfaultless⟩
        · rw [heq]
          exact ⟨_, if_pos (by simp), .stalled hfailure hagain hzero⟩
        · rw [heq]
          exact ⟨_, if_pos (by simp), .writeFailed hfailure hagain hd herror hfault⟩
        · rw [heq]
          exact ⟨_, if_neg (by simp), .flushed hfailure hagain hd hwritten herror hfaultless⟩
      · simp only [if_neg hagain]
        exact ⟨_, rfl, .finished hfailure (by simpa using hagain)⟩

theorem Round.of_body
    (hwrapper : ∀ room w, wrapper room w = streamWrapper codec operation (offered w) room w)
    {w : Io (Coder UInt8 σ ω ρ)} (hw : w.WellFormed m n) (hoff : offered w ≤ w.sourceLength)
    {flow : Flow (Io (Coder UInt8 σ ω ρ)) (ExtResult × Io (Coder UInt8 σ ω ρ))}
    (h : bufferedBody wrapper failure again gvl n w = some flow) :
    Round codec operation offered failure again n w flow := by
  obtain ⟨flow', heq, hround⟩ := bufferedBody_round hwrapper hw hoff
  obtain rfl := Option.some.inj (heq.symm.trans h)
  exact hround

/-- Partial correctness of the loop around a call, one hypothesis for each way
    round or out. -/
theorem bufferedLoop_partial
    (hwrapper : ∀ room w, wrapper room w = streamWrapper codec operation (offered w) room w)
    {I : Io (Coder UInt8 σ ω ρ) → Prop} {Q : ExtResult × Io (Coder UInt8 σ ω ρ) → Prop}
    (hwf : ∀ w, I w → w.WellFormed m n ∧ offered w ≤ w.sourceLength)
    (hfail : ∀ w extResult, I w →
      failure (streamed codec operation (offered w) n w).coder
        (streamAnswer codec operation (offered w) n w).result = some extResult →
      Q (extResult, { streamed codec operation (offered w) n w with
        destinationLength := w.destinationLength }))
    (hdone : ∀ w, I w →
      failure (streamed codec operation (offered w) n w).coder
        (streamAnswer codec operation (offered w) n w).result = none →
      again (streamed codec operation (offered w) n w).coder
        (streamAnswer codec operation (offered w) n w).result = false →
      Q (.ok, streamed codec operation (offered w) n w))
    (hflush : ∀ w, I w →
      failure (streamed codec operation (offered w) n w).coder
        (streamAnswer codec operation (offered w) n w).result = none →
      again (streamed codec operation (offered w) n w).coder
        (streamAnswer codec operation (offered w) n w).result = true →
      ((streamed codec operation (offered w) n w).destinationLength = 0 →
        Q (.notEnoughDestinationBuffer, streamed codec operation (offered w) n w)) ∧
      (∀ f, f.error = true → ¬ w.destinationFile.Faultless →
        Q (.writeIo, { streamed codec operation (offered w) n w with destinationFile := f })) ∧
      (∀ f, (streamed codec operation (offered w) n w).destinationLength ≠ 0 →
        f.written = w.destinationFile.written ++
          (streamed codec operation (offered w) n w).destinationBuffer.take
            (streamed codec operation (offered w) n w).destinationLength →
        f.error = w.destinationFile.error →
        (w.destinationFile.Faultless → f.Faultless) →
        I { streamed codec operation (offered w) n w with
          destinationFile := f, destinationLength := 0 }))
    {fuel : Nat} {w : Io (Coder UInt8 σ ω ρ)} {x : ExtResult × Io (Coder UInt8 σ ω ρ)}
    (hI : I w)
    (h : whileTrue (bufferedBody wrapper failure again gvl n) fuel w = some x) : Q x := by
  refine whileTrue_invariant ?_ ?_ hI h
  -- Another round: no error, asked to go on, and the flush succeeded.
  · intro w w' hI hbody
    obtain ⟨hw, hoff⟩ := hwf w hI
    cases Round.of_body hwrapper hw hoff hbody with
    | flushed hnone hagain hd hwritten herror hfaultless =>
        exact (hflush w hI hnone hagain).2.2 _ hd hwritten herror hfaultless
  -- A way out: an error of the codec, a flush that failed, or nothing to go on for.
  · intro w x hI hbody
    obtain ⟨hw, hoff⟩ := hwf w hI
    cases Round.of_body hwrapper hw hoff hbody with
    | finished hnone hdone' => exact hdone w hI hnone hdone'
    | failed hfailure => exact hfail w _ hI hfailure
    | stalled hnone hagain hzero => exact (hflush w hI hnone hagain).1 hzero
    | writeFailed hnone hagain _ herror hfault =>
        exact (hflush w hI hnone hagain).2.1 _ herror hfault

/-- How much is left to do in the loop: the bytes still to be emitted, and
    whether the buffer holds old ones that have to go first. -/
def loopMeasure (bound : Nat) (w : Io (Coder UInt8 σ ω ρ)) : Nat :=
  2 * (bound - w.coder.emitted.length) + (if w.destinationLength = 0 then 0 else 1)

/-- The heads of the loop are well formed. -/
theorem WellFormed.reached
    (hwrapper : ∀ room w, wrapper room w = streamWrapper codec operation (offered w) room w)
    (hoffered : ∀ w, offered w ≤ w.sourceLength) {w v : Io (Coder UInt8 σ ω ρ)}
    (hw : w.WellFormed m n) (h : Reaches (bufferedBody wrapper failure again gvl n) w v) :
    v.WellFormed m n := by
  refine h.invariant (I := WellFormed m n) ?_ hw
  intro v v' hv hbody
  cases Round.of_body hwrapper hv (hoffered v) hbody with
  | flushed =>
      have hs : (streamed codec operation (offered v) n v).WellFormed m n :=
        streamed_wellFormed hv (hoffered v)
      exact ⟨hs.source_fits, hs.sourceBuffer_length, Nat.zero_le n, hs.destinationBuffer_length⟩

/-- The loop around a call ends when the codec, as far as it is called, emits at
    most `bound` bytes. -/
theorem bufferedLoop_ends
    (hwrapper : ∀ room w, wrapper room w = streamWrapper codec operation (offered w) room w)
    {bound : Nat} {w : Io (Coder UInt8 σ ω ρ)}
    (hwf : ∀ v, Reaches (bufferedBody wrapper failure again gvl n) w v →
      v.WellFormed m n ∧ offered v ≤ v.sourceLength)
    (hbound : ∀ v, Reaches (bufferedBody wrapper failure again gvl n) w v →
      failure (streamed codec operation (offered v) n v).coder
        (streamAnswer codec operation (offered v) n v).result = none →
      again (streamed codec operation (offered v) n v).coder
        (streamAnswer codec operation (offered v) n v).result = true →
      (streamed codec operation (offered v) n v).coder.emitted.length ≤ bound)
    {fuel : Nat} (hfuel : 2 * bound + 1 < fuel) :
    ∃ x, whileTrue (bufferedBody wrapper failure again gvl n) fuel w = some x := by
  have hmeasure : loopMeasure bound w < fuel := by
    unfold loopMeasure
    split <;> omega
  refine whileTrue_ends (loopMeasure bound) ?_ hmeasure
  intro v hv
  obtain ⟨hwfv, hoff⟩ := hwf v hv
  obtain ⟨flow, heq, hround⟩ := bufferedBody_round hwrapper hwfv hoff
  cases hround with
  | flushed hnone hagain hfilled =>
      refine Or.inl ⟨_, heq, ?_⟩
      -- Either something was emitted, or the buffer was not empty and is now.
      have hle := hbound v hv hnone hagain
      have hemitted : (streamed codec operation (offered v) n v).coder.emitted.length =
          v.coder.emitted.length +
            (streamAnswer codec operation (offered v) n v).output.length := by
        simp [streamed, streamAnswer]
      have hlength : (streamed codec operation (offered v) n v).destinationLength =
          v.destinationLength +
            (streamAnswer codec operation (offered v) n v).output.length := rfl
      rw [hlength] at hfilled
      simp only [loopMeasure, if_true]
      rw [hemitted] at hle ⊢
      split <;> omega
  | finished _ _ => exact Or.inr ⟨_, heq⟩
  | failed _ => exact Or.inr ⟨_, heq⟩
  | stalled _ _ _ => exact Or.inr ⟨_, heq⟩
  | writeFailed _ _ _ _ _ => exact Or.inr ⟨_, heq⟩

/-- The loop around a call returns when the codec, as long as it is called again,
    has emitted at most `bound` bytes. -/
theorem bufferedLoop_returns
    (hwrapper : ∀ room w, wrapper room w = streamWrapper codec operation (offered w) room w)
    {I : Io (Coder UInt8 σ ω ρ) → Prop} {bound : Nat}
    (hwf : ∀ w, I w → w.WellFormed m n ∧ offered w ≤ w.sourceLength)
    (hbound : ∀ w, I w →
      failure (streamed codec operation (offered w) n w).coder
        (streamAnswer codec operation (offered w) n w).result = none →
      again (streamed codec operation (offered w) n w).coder
        (streamAnswer codec operation (offered w) n w).result = true →
      (streamed codec operation (offered w) n w).coder.emitted.length ≤ bound)
    (hround : ∀ w f, I w →
      failure (streamed codec operation (offered w) n w).coder
        (streamAnswer codec operation (offered w) n w).result = none →
      again (streamed codec operation (offered w) n w).coder
        (streamAnswer codec operation (offered w) n w).result = true →
      (streamed codec operation (offered w) n w).destinationLength ≠ 0 →
      f.written = w.destinationFile.written ++
        (streamed codec operation (offered w) n w).destinationBuffer.take
          (streamed codec operation (offered w) n w).destinationLength →
      f.error = w.destinationFile.error →
      (w.destinationFile.Faultless → f.Faultless) →
      I { streamed codec operation (offered w) n w with
        destinationFile := f, destinationLength := 0 })
    {fuel : Nat} {w : Io (Coder UInt8 σ ω ρ)} (hI : I w) (hfuel : 2 * bound + 1 < fuel) :
    ∃ x, whileTrue (bufferedBody wrapper failure again gvl n) fuel w = some x := by
  have hreached : ∀ v, Reaches (bufferedBody wrapper failure again gvl n) w v → I v := by
    intro v hv
    refine hv.invariant ?_ hI
    intro v v' hIv hbody
    obtain ⟨hwfv, hoff⟩ := hwf v hIv
    cases Round.of_body hwrapper hwfv hoff hbody with
    | flushed hnone hagain hfilled hwritten herror hfaultless =>
        exact hround v _ hIv hnone hagain hfilled hwritten herror hfaultless
  exact bufferedLoop_ends hwrapper (fun v hv => hwf v (hreached v hv))
    (fun v hv => hbound v (hreached v hv)) hfuel

end BufferedLoop

/-! ## `BUFFERED_READ_SOURCE` -/

section BufferedReadSource

variable {κ : Type} {function : Io κ → Option (ExtResult × Io κ)}

/-- What one round of the `while` loop does: it leaves in one of four ways, or
    reads something, calls the function on it and goes on. -/
inductive SourceRound (function : Io κ → Option (ExtResult × Io κ)) (m : Nat)
    (called : Bool) (w : Io κ) : Flow (Bool × Io κ) (ExtResult × Bool × Io κ) → Prop
  | ended (hr : (w.readMoreSource m).1 = .fileReadFinished)
      (hrest : (w.readMoreSource m).2.sourceLength = 0) :
      SourceRound function m called w (.exit (.ok, called, (w.readMoreSource m).2))
  | remainder (hr : (w.readMoreSource m).1 = .fileReadFinished)
      (hrest : (w.readMoreSource m).2.sourceLength ≠ 0) :
      SourceRound function m called w (.exit (.readIo, called, (w.readMoreSource m).2))
  | readFailed (hok : (w.readMoreSource m).1 ≠ .ok)
      (hend : (w.readMoreSource m).1 ≠ .fileReadFinished) :
      SourceRound function m called w
        (.exit ((w.readMoreSource m).1, called, (w.readMoreSource m).2))
  | failed {extResult : ExtResult} {w' : Io κ} (hr : (w.readMoreSource m).1 = .ok)
      (hf : function (w.readMoreSource m).2 = some (extResult, w')) (hne : extResult ≠ .ok) :
      SourceRound function m called w (.exit (extResult, called, w'))
  | next {w' : Io κ} (hr : (w.readMoreSource m).1 = .ok)
      (hf : function (w.readMoreSource m).2 = some (.ok, w')) :
      SourceRound function m called w (.next (true, w'))

theorem bufferedReadSourceBody_round {called : Bool} {w : Io κ}
    {flow : Flow (Bool × Io κ) (ExtResult × Bool × Io κ)}
    (h : bufferedReadSourceBody function m (called, w) = some flow) :
    SourceRound function m called w flow := by
  simp only [bufferedReadSourceBody] at h
  split at h
  · rename_i hend
    split at h
    · rename_i hrest
      obtain rfl := Option.some.inj h
      exact .remainder hend hrest
    · rename_i hrest
      obtain rfl := Option.some.inj h
      exact .ended hend (not_not.mp hrest)
  · rename_i hend
    split at h
    · rename_i hok
      obtain rfl := Option.some.inj h
      exact .readFailed hok hend
    · rename_i hok
      obtain ⟨⟨extResult, w'⟩, hf, hflow⟩ := Option.map_eq_some_iff.mp h
      have hr : (w.readMoreSource m).1 = .ok := not_not.mp hok
      by_cases hne : extResult = .ok
      · subst hne
        obtain rfl : Flow.next (true, w') = flow := by simpa using hflow
        exact .next hr hf
      · obtain rfl : Flow.exit (extResult, called, w') = flow := by simpa [hne] using hflow
        exact .failed hr hf hne

/-- Partial correctness of `BUFFERED_READ_SOURCE`, one hypothesis for each
    outcome of a read and of the function. -/
theorem bufferedReadSource_partial {I : Bool → Io κ → Prop} {J : Io κ → Prop}
    {Q : ExtResult × Io κ → Prop}
    (hread : ∀ called w, I called w → (w.readMoreSource m).1 = .ok →
      J (w.readMoreSource m).2)
    (hcall : ∀ w w', J w → function w = some (.ok, w') → I true w')
    (hcall_error : ∀ w extResult w', J w → function w = some (extResult, w') →
      extResult ≠ .ok → Q (extResult, w'))
    (hremainder : ∀ called w, I called w → (w.readMoreSource m).1 = .fileReadFinished →
      (w.readMoreSource m).2.sourceLength ≠ 0 → Q (.readIo, (w.readMoreSource m).2))
    (hend : ∀ w, I true w → (w.readMoreSource m).1 = .fileReadFinished →
      (w.readMoreSource m).2.sourceLength = 0 → Q (.ok, (w.readMoreSource m).2))
    (hempty : ∀ w x, I false w → (w.readMoreSource m).1 = .fileReadFinished →
      (w.readMoreSource m).2.sourceLength = 0 →
      function (w.readMoreSource m).2 = some x → Q x)
    (hread_error : ∀ called w, I called w → (w.readMoreSource m).1 ≠ .ok →
      (w.readMoreSource m).1 ≠ .fileReadFinished → Q (w.readMoreSource m))
    {fuel : Nat} {w : Io κ} {x : ExtResult × Io κ} (hI : I false w)
    (h : bufferedReadSource function m fuel w = some x) : Q x := by
  obtain ⟨⟨extResult, called, w₁⟩, hloop, hx⟩ := Option.bind_eq_some_iff.mp h
  -- After the loop: an error is final, and success may leave the one call to make.
  have hpost : (extResult ≠ .ok → Q (extResult, w₁)) ∧
      (extResult = .ok → called = true → Q (.ok, w₁)) ∧
      (extResult = .ok → called = false → ∀ y, function w₁ = some y → Q y) := by
    refine whileTrue_invariant (I := fun s => I s.1 s.2)
      (Q := fun r => (r.1 ≠ .ok → Q (r.1, r.2.2)) ∧
        (r.1 = .ok → r.2.1 = true → Q (.ok, r.2.2)) ∧
        (r.1 = .ok → r.2.1 = false → ∀ y, function r.2.2 = some y → Q y))
      ?_ ?_ (s := (false, w)) hI hloop
    -- Another round: something was read, and the function succeeded on it.
    · rintro ⟨called, w⟩ ⟨called', w'⟩ hI hbody
      cases bufferedReadSourceBody_round hbody with
      | next hr hf => exact hcall _ _ (hread _ _ hI hr) hf
    -- A way out: the end of the file, a failed read, or an error of the function.
    · rintro ⟨called, w⟩ ⟨r, called', w'⟩ hI hbody
      cases bufferedReadSourceBody_round hbody with
      | ended hr hrest =>
          refine ⟨fun h => absurd rfl h, fun _ hc => ?_, fun _ hc y hy => ?_⟩
          · obtain rfl : called = true := hc
            exact hend _ hI hr hrest
          · obtain rfl : called = false := hc
            exact hempty _ _ hI hr hrest hy
      | remainder hr hrest =>
          exact ⟨fun _ => hremainder _ _ hI hr hrest, fun h => (by cases h), fun h => (by cases h)⟩
      | readFailed hok hend' =>
          exact ⟨fun _ => hread_error _ _ hI hok hend', fun h => absurd h hok,
            fun h => absurd h hok⟩
      | failed hr hf hne =>
          exact ⟨fun _ => hcall_error _ _ _ (hread _ _ hI hr) hf hne, fun h => absurd h hne,
            fun h => absurd h hne⟩
  obtain ⟨herror, hcalled, honce⟩ := hpost
  simp only at hx
  split at hx
  · rename_i hne
    cases hx
    exact herror hne
  · rename_i hok
    have hok : extResult = .ok := by simpa using hok
    split at hx
    · rename_i hc
      exact honce hok (by simpa using hc) x hx
    · rename_i hc
      cases hx
      exact hcalled hok (by simpa using hc)

/-- The variables that the function is called with, in a run of the macro from
    `s`. -/
inductive FunctionCall (function : Io κ → Option (ExtResult × Io κ)) (m : Nat)
    (s : Bool × Io κ) : Io κ → Prop
  | read {called : Bool} {w : Io κ}
      (h : Reaches (bufferedReadSourceBody function m) s (called, w))
      (hr : (w.readMoreSource m).1 = .ok) : FunctionCall function m s (w.readMoreSource m).2
  /-- The call after the loop, for an empty file. -/
  | once {w : Io κ} (h : Reaches (bufferedReadSourceBody function m) s (false, w))
      (hr : (w.readMoreSource m).1 = .fileReadFinished)
      (hempty : (w.readMoreSource m).2.sourceLength = 0) :
      FunctionCall function m s (w.readMoreSource m).2

/-- `BUFFERED_READ_SOURCE` ends when the function returns, as often as it is
    called: every round takes at least one byte from the file. -/
theorem bufferedReadSource_ends {w : Io κ}
    (hwf : ∀ called v, Reaches (bufferedReadSourceBody function m) (false, w) (called, v) →
      v.WellFormed m n)
    (hfile : ∀ called v v',
      Reaches (bufferedReadSourceBody function m) (false, w) (called, v) →
      (v.readMoreSource m).1 = .ok → function (v.readMoreSource m).2 = some (.ok, v') →
      v'.sourceFile = (v.readMoreSource m).2.sourceFile)
    (hreturns : ∀ v, FunctionCall function m (false, w) v → ∃ x, function v = some x)
    {fuel : Nat} (hfuel : w.sourceFile.unread.length < fuel) :
    ∃ x, bufferedReadSource function m fuel w = some x := by
  obtain ⟨⟨extResult, called, w₁⟩, hloop⟩ :
      ∃ r, whileTrue (bufferedReadSourceBody function m) fuel (false, w) = some r := by
    refine whileTrue_ends (fun s => s.2.sourceFile.unread.length) ?_ hfuel
    rintro ⟨called, v⟩ hv
    have hcases := (readMoreSource_cases (hwf called v hv)).2
    by_cases hr : (v.readMoreSource m).1 = .ok
    · obtain ⟨⟨extResult, v'⟩, hf⟩ := hreturns _ (.read hv hr)
      by_cases hne : extResult = .ok
      · subst hne
        have hbody : bufferedReadSourceBody function m (called, v) = some (.next (true, v')) := by
          simp [bufferedReadSourceBody, hr, hf]
        refine Or.inl ⟨_, hbody, ?_⟩
        -- The read took at least one byte, and the function does not touch the file.
        cases hcases with
        | @read bytes _ hne _ _ hunread =>
            have hpos : 0 < bytes.length := List.length_pos_iff.mpr hne
            have hlength := congrArg List.length hunread
            rw [List.length_append] at hlength
            show v'.sourceFile.unread.length < v.sourceFile.unread.length
            rw [hfile _ _ _ hv hr hf]
            omega
        | full h => cases hr.symm.trans h
        | finished h => cases hr.symm.trans h
        | failed h => cases hr.symm.trans h
      · exact Or.inr ⟨(extResult, called, v'), by simp [bufferedReadSourceBody, hr, hf, hne]⟩
    · right
      simp only [bufferedReadSourceBody]
      split
      · split
        · exact ⟨_, rfl⟩
        · exact ⟨_, rfl⟩
      · exact ⟨_, rfl⟩
  simp only [bufferedReadSource, hloop, Option.bind_some]
  split
  · exact ⟨_, rfl⟩
  · rename_i hok
    split
    · rename_i hc
      -- The loop was left at the end of the file, with the function not called.
      obtain rfl : extResult = .ok := not_not.mp hok
      obtain rfl : called = false := by simpa using hc
      obtain ⟨⟨called', v⟩, hv, hexit⟩ := whileTrue_left hloop
      generalize hflow : Flow.exit (ExtResult.ok, false, w₁) = flow at hexit
      cases bufferedReadSourceBody_round hexit with
      | ended hr hrest =>
          simp only [Flow.exit.injEq, Prod.mk.injEq, true_and] at hflow
          obtain ⟨rfl, rfl⟩ := hflow
          exact hreturns _ (.once hv hr hrest)
      | remainder => simp at hflow
      | readFailed hok' => exact absurd (by simp at hflow; exact hflow.1.symm) hok'
      | failed _ _ hne => exact absurd (by simp at hflow; exact hflow.1.symm) hne
      | next => cases hflow
    · exact ⟨_, rfl⟩

/-- `BUFFERED_READ_SOURCE` returns when the function does: every round takes at
    least one byte from the file. -/
theorem bufferedReadSource_returns {I : Bool → Io κ → Prop} {J : Io κ → Prop}
    (hwf : ∀ called w, I called w → w.WellFormed m n)
    (hread : ∀ called w, I called w → (w.readMoreSource m).1 = .ok →
      J (w.readMoreSource m).2)
    (hcall : ∀ w w', J w → function w = some (.ok, w') →
      I true w' ∧ w'.sourceFile = w.sourceFile)
    (hreturns : ∀ w, J w → ∃ x, function w = some x)
    (hempty : ∀ w, I false w → (w.readMoreSource m).1 = .fileReadFinished →
      (w.readMoreSource m).2.sourceLength = 0 →
      ∃ x, function (w.readMoreSource m).2 = some x)
    {fuel : Nat} {w : Io κ} (hI : I false w)
    (hfuel : w.sourceFile.unread.length < fuel) :
    ∃ x, bufferedReadSource function m fuel w = some x := by
  have hreached : ∀ called v,
      Reaches (bufferedReadSourceBody function m) (false, w) (called, v) → I called v := by
    intro called v hv
    refine hv.invariant (I := fun s => I s.1 s.2) ?_ hI
    rintro ⟨called, v⟩ ⟨called', v'⟩ hIv hbody
    cases bufferedReadSourceBody_round hbody with
    | next hr hf => exact (hcall _ _ (hread _ _ hIv hr) hf).1
  refine bufferedReadSource_ends (fun called v hv => hwf called v (hreached called v hv)) ?_ ?_
    hfuel
  · intro called v v' hv hr hf
    exact (hcall _ _ (hread _ _ (hreached _ _ hv) hr) hf).2
  · intro v hv
    cases hv with
    | read hv hr => exact hreturns _ (hread _ _ (hreached _ _ hv) hr)
    | once hv hr hrest => exact hempty _ (hreached _ _ hv) hr hrest

end BufferedReadSource

end Io
end RubyBrs
