/-
  RubyBrs.Ext.FailingCalls

  Library calls that fail, in the functions of `io.c`.

  The library may fail at any call, for reasons that are not in the data, such as memory
  of its own.  An encoder or a decoder that does so is one that does not (`Faulty`), but
  for the calls that fail, whatever these do.  Each loop of `io.c` is left at such a
  call, with an error; so what returns without one is a run of the other codec.
-/

import RubyBrs.Ext.IoLoops

namespace RubyBrs

open StreamCodec WhileTrue

variable {κ σ ω ρ : Type}

/-- `faulty` is the encoder, but for calls that return false. -/
structure Encoder.Faulty (enc faulty : Encoder σ) : Prop where
  stream : enc.toCodec.Faulty faulty.toCodec (fun result => result = false)
  hasMoreOutput : faulty.hasMoreOutput = enc.hasMoreOutput
  isFinished : faulty.isFinished = enc.isFinished

theorem Encoder.Faulty.pending {enc faulty : Encoder σ} (h : enc.Faulty faulty) :
    faulty.pending = enc.pending := by
  funext operation s
  rw [Encoder.pending, Encoder.pending, h.hasMoreOutput, h.isFinished]

/-- The encoder, with calls that fail. -/
def Encoder.failing (enc : Encoder σ) (fails : σ → Operation → Bool) : Encoder σ :=
  { enc with toCodec := enc.toCodec.failing fails false 0 }

theorem Encoder.failing_faulty (enc : Encoder σ) (fails : σ → Operation → Bool) :
    enc.Faulty (enc.failing fails) :=
  ⟨enc.toCodec.failing_faulty fails 0 rfl, rfl, rfl⟩

/-- `faulty` is the decoder, but for calls that return an error, of any code. -/
def Decoder.Faulty (dec faulty : Decoder σ) : Prop :=
  dec.toCodec.Faulty faulty.toCodec (fun result => result = .error)

theorem Decoder.Faulty.refl (dec : Decoder σ) : dec.Faulty dec := Codec.Faulty.refl _ _

/-- The decoder, with calls that fail. -/
def Decoder.failing (dec : Decoder σ) (fails : σ → Bool) : Decoder σ :=
  { dec with toCodec := dec.toCodec.failing (fun s _ => fails s) .error 0 }

theorem Decoder.failing_faulty (dec : Decoder σ) (fails : σ → Bool) :
    dec.Faulty (dec.failing fails) :=
  dec.toCodec.failing_faulty _ 0 rfl

namespace Io

/-! ## One call -/

section Call

variable {codec faulty : Codec UInt8 σ ω ρ} {failed : ρ → Prop} {operation : ω}
  {offered n : Nat} {w : Io (Coder UInt8 σ ω ρ)}

theorem streamWrapper_faulty {room : Nat} (hfaulty : codec.Faulty faulty failed)
    (h : ¬ failed (streamWrapper faulty operation offered room w).2.2) :
    streamWrapper faulty operation offered room w =
      streamWrapper codec operation offered room w := by
  have hstream := hfaulty w.coder.state operation (Window.window w.sourceBuffer w.source offered)
    room h
  simp only [streamWrapper, Codec.call, hstream]

theorem streamAnswer_faulty (hfaulty : codec.Faulty faulty failed)
    (h : ¬ failed (streamAnswer faulty operation offered n w).result) :
    streamAnswer faulty operation offered n w = streamAnswer codec operation offered n w :=
  hfaulty _ _ _ _ h

theorem streamed_faulty (hfaulty : codec.Faulty faulty failed)
    (h : ¬ failed (streamAnswer faulty operation offered n w).result) :
    streamed faulty operation offered n w = streamed codec operation offered n w := by
  have hstream := hfaulty w.coder.state operation (w.sourceWindow.take offered)
    (n - w.destinationLength) h
  simp only [streamed, streamAnswer, Codec.call, hstream]

end Call

/-! ## The loops -/

section Loop

variable {codec faulty : Codec UInt8 σ ω ρ} {failed : ρ → Prop} {operation : ω}
  {offered : Io (Coder UInt8 σ ω ρ) → Nat}
  {wrapper wrapper' : Nat → Io (Coder UInt8 σ ω ρ) → Io (Coder UInt8 σ ω ρ) × Nat × ρ}
  {failure failure' : Coder UInt8 σ ω ρ → ρ → Option ExtResult}
  {again : Coder UInt8 σ ω ρ → ρ → Bool} {gvl : Bool} {n fuel : Nat}
  {w : Io (Coder UInt8 σ ω ρ)} (hfaulty : codec.Faulty faulty failed)
  (hwrapper : ∀ room w, wrapper room w = streamWrapper codec operation (offered w) room w)
  (hwrapper' : ∀ room w, wrapper' room w = streamWrapper faulty operation (offered w) room w)
  (herror : ∀ i result extResult, failure' i result = some extResult → extResult ≠ .ok)
  (hnone : ∀ i result, failure' i result = none → ¬ failed result ∧ failure i result = none)

include hfaulty hwrapper hwrapper' herror hnone

theorem bufferedBody_faulty {flow : Flow (Io (Coder UInt8 σ ω ρ))
      (ExtResult × Io (Coder UInt8 σ ω ρ))}
    (h : bufferedBody wrapper' failure' again gvl n w = some flow) :
    bufferedBody wrapper failure again gvl n w = some flow ∨
      ∃ x, flow = .exit x ∧ x.1 ≠ .ok := by
  simp only [bufferedBody, gvlWrap_eq, hwrapper'] at h
  cases hfailure : failure'
      (streamWrapper faulty operation (offered w) (n - w.destinationLength) w).1.coder
      (streamWrapper faulty operation (offered w) (n - w.destinationLength) w).2.2 with
  | some extResult =>
      simp only [hfailure, Option.some.injEq] at h
      exact Or.inr ⟨_, h.symm, herror _ _ _ hfailure⟩
  | none =>
      obtain ⟨hok, hsame⟩ := hnone _ _ hfailure
      have hcall := streamWrapper_faulty hfaulty hok
      left
      simp only [hfailure] at h
      simp only [bufferedBody, gvlWrap_eq, hwrapper, ← hcall, hsame]
      exact h

theorem bufferedLoop_faulty {x : ExtResult × Io (Coder UInt8 σ ω ρ)}
    (h : whileTrue (bufferedBody wrapper' failure' again gvl n) fuel w = some x) :
    whileTrue (bufferedBody wrapper failure again gvl n) fuel w = some x ∨ x.1 ≠ .ok :=
  whileTrue_unless
    (fun _ _ h => bufferedBody_faulty hfaulty hwrapper hwrapper' herror hnone h) h

end Loop

section ReadSource

variable {function function' : Io κ → Option (ExtResult × Io κ)} {m fuel : Nat} {w : Io κ}
  {x : ExtResult × Io κ}
  (hfunction : ∀ w x, function' w = some x → function w = some x ∨ x.1 ≠ .ok)

include hfunction

theorem bufferedReadSource_faulty (h : bufferedReadSource function' m fuel w = some x) :
    bufferedReadSource function m fuel w = some x ∨ x.1 ≠ .ok := by
  have hround : ∀ s flow, bufferedReadSourceBody function' m s = some flow →
      bufferedReadSourceBody function m s = some flow ∨ ∃ r, flow = .exit r ∧ r.1 ≠ .ok := by
    rintro ⟨called, w⟩ flow hbody
    cases bufferedReadSourceBody_round hbody with
    | ended hr hrest => exact Or.inl (by simp [bufferedReadSourceBody, hr, hrest])
    | remainder hr hrest => exact Or.inl (by simp [bufferedReadSourceBody, hr, hrest])
    | readFailed hok hend => exact Or.inl (by simp [bufferedReadSourceBody, hok, hend])
    | failed _ _ hne => exact Or.inr ⟨_, rfl, hne⟩
    | next hr hf =>
        rcases hfunction _ _ hf with hf | hne
        · exact Or.inl (by simp [bufferedReadSourceBody, hr, hf])
        · exact absurd rfl hne
  obtain ⟨⟨extResult, called, w₁⟩, hloop, hx⟩ := Option.bind_eq_some_iff.mp h
  by_cases hok : extResult = .ok
  · subst hok
    have hloop := (whileTrue_unless hround hloop).resolve_right (by simp)
    cases called with
    | true => exact Or.inl (Option.bind_eq_some_iff.mpr ⟨_, hloop, hx⟩)
    -- The one call that is made after the loop.
    | false =>
        refine (hfunction _ _ hx).imp_left fun hf => ?_
        exact Option.bind_eq_some_iff.mpr ⟨_, hloop, hf⟩
  · simp only [ne_eq, hok, not_false_eq_true, if_true, Option.some.injEq] at hx
    rw [← hx]
    exact Or.inr hok

end ReadSource

/-! ## The functions -/

section Functions

variable {gvl : Bool} {n fuel : Nat}

/-- The loop around one operation of the encoder. -/
theorem operationLoop_faulty {enc faulty : Encoder σ} (hfaulty : enc.Faulty faulty)
    {operation : Operation} {offered : Io (EncoderInstance σ) → Nat}
    {wrapper wrapper' : Nat → Io (EncoderInstance σ) → Io (EncoderInstance σ) × Nat × Bool}
    {again : EncoderInstance σ → Bool → Bool} {w : Io (EncoderInstance σ)}
    {x : ExtResult × Io (EncoderInstance σ)}
    (hwrapper : ∀ room w,
      wrapper room w = streamWrapper enc.toCodec operation (offered w) room w)
    (hwrapper' : ∀ room w,
      wrapper' room w = streamWrapper faulty.toCodec operation (offered w) room w)
    (h : whileTrue (bufferedBody wrapper' encoderFailure again gvl n) fuel w = some x) :
    whileTrue (bufferedBody wrapper encoderFailure again gvl n) fuel w = some x ∨
      x.1 ≠ .ok := by
  refine bufferedLoop_faulty hfaulty.stream hwrapper hwrapper' ?_ ?_ h
  · intro i result extResult hsome
    rw [(encoderFailure_some hsome).2]
    decide
  · intro i result hnone
    exact ⟨by simpa using encoderFailure_none.mp hnone, hnone⟩

theorem bufferedCompress_faulty {enc faulty : Encoder σ} (hfaulty : enc.Faulty faulty)
    (w : Io (EncoderInstance σ)) (x : ExtResult × Io (EncoderInstance σ))
    (h : bufferedCompress faulty gvl n fuel w = some x) :
    bufferedCompress enc gvl n fuel w = some x ∨ x.1 ≠ .ok := by
  simp only [bufferedCompress, bufferedCompressBody, hfaulty.hasMoreOutput] at h
  exact operationLoop_faulty hfaulty (compressWrapper_eq enc) (compressWrapper_eq faulty) h

theorem bufferedCompressorFinish_faulty {enc faulty : Encoder σ} (hfaulty : enc.Faulty faulty)
    (w : Io (EncoderInstance σ)) (x : ExtResult × Io (EncoderInstance σ))
    (h : bufferedCompressorFinish faulty gvl n fuel w = some x) :
    bufferedCompressorFinish enc gvl n fuel w = some x ∨ x.1 ≠ .ok := by
  simp only [bufferedCompressorFinish, bufferedCompressorFinishBody, hfaulty.hasMoreOutput,
    hfaulty.isFinished] at h
  exact operationLoop_faulty hfaulty (compressorFinishWrapper_eq enc)
    (compressorFinishWrapper_eq faulty) h

theorem bufferedDecompress_faulty {dec faulty : Decoder σ} (hfaulty : dec.Faulty faulty)
    (w : Io (DecoderInstance σ)) (x : ExtResult × Io (DecoderInstance σ))
    (h : bufferedDecompress faulty gvl n fuel w = some x) :
    bufferedDecompress dec gvl n fuel w = some x ∨ x.1 ≠ .ok := by
  refine bufferedLoop_faulty hfaulty (decompressWrapper_eq dec) (decompressWrapper_eq faulty)
    ?_ ?_ h
  · intro i result extResult hsome
    rw [(decoderFailure_some hsome).2]
    exact (brsExtGetDecompressorError_ne _).1
  · intro i result hnone
    exact ⟨decoderFailure_none.mp hnone, decoderFailure_none.mpr (decoderFailure_none.mp hnone)⟩

end Functions

end Io

end RubyBrs
