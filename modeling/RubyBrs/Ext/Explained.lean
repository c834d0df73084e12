/-
  RubyBrs.Ext.Explained

  What the exception of a one-shot function tells.

  `IoLossless` says that a fault of the files does not go unnoticed.  This is the other
  direction, and the allocations: no exception is raised without its cause, and an
  allocation that fails is always told, in the way its place in the call decides.  With
  accepted options and a codec that keeps to its format, whatever fails, a write is
  blamed only with the error flag of the destination set, a read only if one was due to
  fail or bytes follow a complete stream, and the source only if it is corrupt
  (`exceptions_explained`).  The destination buffer is never too small.
-/

import RubyBrs.Ext.IoParts
import RubyBrs.Ext.StringExplained

namespace RubyBrs

open StreamCodec StreamFormat WhileTrue

variable {κ σ τ ω ρ θ : Type}

/-! ## Calls on files -/

theorem brsExtGetDecompressorError_ne_writeIo (code : DecoderErrorCode) :
    brsExtGetDecompressorError code ≠ .writeIo := by
  cases code <;> exact nofun

namespace Io

/-- What `compress` and `decompress` tell of the two files: a read that was due to fail,
    or a write that set the error flag. -/
def FileFault (sourceFile : SourceFile) (x : ExtResult × Io κ) : Prop :=
  (x.1 = .readIo ∧ ¬ sourceFile.Faultless) ∨
  (x.1 = .writeIo ∧ x.2.destinationFile.error = true)

section Compress

variable {enc : Encoder σ} {fmt : Format UInt8} {init : σ} {m n fuel : Nat} {gvl : Bool}
  {sourceFile : SourceFile} {destinationFile : DestinationFile}
  {sourceBuffer destinationBuffer : List UInt8} {handle : Nat}
  {w : Io (EncoderInstance σ)} {x : ExtResult × Io (EncoderInstance σ)}

/-- The loop around one operation fails with a write only. -/
theorem operationLoop_explained (henc : enc.Contract compressOperations fmt init) (hn : 0 < n)
    {operation : Operation} {offered : Io (EncoderInstance σ) → Nat}
    {wrapper : Nat → Io (EncoderInstance σ) → Io (EncoderInstance σ) × Nat × Bool}
    {w₀ : Io (EncoderInstance σ)}
    (hwrapper : ∀ room w,
      wrapper room w = streamWrapper enc.toCodec operation (offered w) room w)
    (hoffered : ∀ w w' : Io (EncoderInstance σ), offered w = w.sourceLength →
      w'.sourceLength ≤ w.sourceLength → offered w' = w'.sourceLength)
    (h : Asking enc init m n sourceFile destinationFile operation offered w₀ w)
    (hx : whileTrue (bufferedBody wrapper encoderFailure
      (fun i _ => enc.pending operation i.state) gvl n) fuel w = some x) (hne : x.1 ≠ .ok) :
    FileFault sourceFile x := by
  refine bufferedLoop_partial (m := m) hwrapper
    (I := Asking enc init m n sourceFile destinationFile operation offered w₀)
    (Q := fun x => x.1 ≠ .ok → FileFault sourceFile x) ?_ ?_ ?_ ?_ h hx hne
  · intro w h
    exact ⟨h.wellFormed, le_of_eq h.offers_all⟩
  · intro w extResult h hfail
    have hresult : (streamAnswer enc.toCodec operation (offered w) n w).result = true :=
      henc.succeeds _ h.session h.operation_mem (by rw [h.offered_window]; exact h.allowed)
    rw [encoderFailure_none.mpr hresult] at hfail
    cases hfail
  · intro w _ _ _ hne
    exact absurd rfl hne
  -- The buffer is never empty when it is to be flushed.
  · intro w h _ hpending
    refine ⟨fun hzero => ?_, fun f herror _ _ => Or.inr ⟨rfl, herror⟩, ?_⟩
    · exact absurd hzero (h.streamed_destinationLength henc hn hpending)
    · intro f _ hwritten herror hfaultless
      exact h.again hoffered hpending hwritten herror hfaultless

theorem bufferedCompress_explained (henc : enc.Contract compressOperations fmt init)
    (hn : 0 < n) (h : Compressing enc init m n sourceFile destinationFile w)
    (hcompleted : Completed enc w.coder)
    (hx : bufferedCompress enc gvl n fuel w = some x) (hne : x.1 ≠ .ok) :
    FileFault sourceFile x := by
  rw [bufferedCompress_eq] at hx
  exact operationLoop_explained henc hn (compressWrapper_eq enc) (fun _ _ _ _ => rfl)
    (.process h hcompleted) hx hne

/-- The loop that reads the source.  It reads only when nothing is left in the buffer, so
    there is room for more and nothing remains at the end. -/
theorem bufferedReadSource_explained (henc : enc.Contract compressOperations fmt init)
    (hm : 0 < m) (hn : 0 < n) (h : Idle enc init m n sourceFile destinationFile w)
    (hx : bufferedReadSource (bufferedCompress enc gvl n fuel) m fuel w = some x)
    (hne : x.1 ≠ .ok) : FileFault sourceFile x := by
  refine bufferedReadSource_partial (m := m)
    (I := fun _ => Idle enc init m n sourceFile destinationFile)
    (J := fun w => Compressing enc init m n sourceFile destinationFile w ∧ Completed enc w.coder)
    (Q := fun x => x.1 ≠ .ok → FileFault sourceFile x)
    ?_ ?_ ?_ ?_ ?_ ?_ ?_ h hx hne
  · intro _ w h hr
    exact h.readMoreSource (by rw [hr]; decide)
  · intro w w' h hf
    exact bufferedCompress_returned henc h.1 h.2 hf
  · intro w extResult w' h hf _
    exact bufferedCompress_explained henc hn h.1 h.2 hf
  · intro _ w h hr hrest
    obtain ⟨-, hlength, -⟩ := readMoreSource_finished h.wellFormed hr
    rw [hlength, h.sourceLength] at hrest
    exact absurd rfl hrest
  · intro w _ _ _ hne
    exact absurd rfl hne
  · intro w x h hr _ hf
    obtain ⟨hw', hcompleted⟩ := h.readMoreSource (by rw [hr]; decide)
    exact bufferedCompress_explained henc hn hw' hcompleted hf
  · intro _ w h hok hfinished _
    cases (readMoreSource_cases h.wellFormed).2 with
    | read hread => exact absurd hread hok
    | full _ _ _ hfull =>
        rw [h.sourceLength] at hfull
        omega
    | finished hend => exact absurd hend hfinished
    | failed hio _ _ _ hfault =>
        exact Or.inl ⟨hio, fun hs => hfault (h.source_faultless hs)⟩

/-- With an encoder that keeps its contract only a read or a write can fail. -/
theorem compress_explained (henc : enc.Contract compressOperations fmt init)
    (hsource : 0 < sourceBuffer.length) (hdestination : 0 < destinationBuffer.length)
    (h : compress enc gvl sourceBuffer.length destinationBuffer.length fuel ⟨handle, init, []⟩
      sourceFile sourceBuffer destinationFile destinationBuffer = some x) (hne : x.1 ≠ .ok) :
    FileFault sourceFile x := by
  obtain ⟨⟨extResult, w₁⟩, hloop, hx⟩ := Option.bind_eq_some_iff.mp h
  by_cases hok : extResult = .ok
  · subst hok
    have hidle := bufferedReadSource_returned henc
      (.start handle sourceBuffer destinationBuffer) hloop
    obtain ⟨⟨extResult₂, w₂⟩, hfinish, hx⟩ := Option.map_eq_some_iff.mp hx
    by_cases hok₂ : extResult₂ = .ok
    · subst hok₂
      obtain ⟨hw₂, -⟩ := bufferedCompressorFinish_returned henc hidle hfinish
      simp only [ne_eq, not_true_eq_false, if_false] at hx
      rw [← hx] at hne ⊢
      rcases hw₂.writeRemainingDestination with ⟨f, heq, -⟩ | ⟨f, heq, herror, -⟩
      · rw [heq] at hne
        exact absurd rfl hne
      · rw [heq]
        exact Or.inr ⟨rfl, herror⟩
    · simp only [ne_eq, hok₂, not_false_eq_true, if_true] at hx
      rw [← hx]
      rw [bufferedCompressorFinish_eq] at hfinish
      exact operationLoop_explained henc hdestination (compressorFinishWrapper_eq enc)
        (fun w w' h0 hle => by omega) (.finish hidle) hfinish hok₂
  · simp only [ne_eq, hok, not_false_eq_true, if_true, Option.some.injEq] at hx
    rw [← hx]
    exact bufferedReadSource_explained henc hsource hdestination
      (.start handle sourceBuffer destinationBuffer) hloop hok

end Compress

section Decompress

variable {dec : Decoder σ} {fmt : Format UInt8} {init : σ} {m n fuel : Nat} {gvl : Bool}
  {sourceFile : SourceFile} {destinationFile : DestinationFile}
  {sourceBuffer destinationBuffer : List UInt8} {handle : Nat}
  {w : Io (DecoderInstance σ)} {x : ExtResult × Io (DecoderInstance σ)}

theorem bufferedDecompress_writeIo (hdec : dec.Follows fmt init)
    (h : Moved m n sourceFile destinationFile w) (hfeeding : dec.Feeding init w.coder)
    (hx : bufferedDecompress dec gvl n fuel w = some x) (hwrite : x.1 = .writeIo) :
    x.2.destinationFile.error = true := by
  have hreading := hdec.reading sourceFile.unread
  obtain ⟨v, -, hout⟩ := bufferedLoop_outcome (m := m) (fun w => w.sourceLength)
    (decompressWrapper_eq dec) (fun _ => le_refl _) (K := dec.Feeding init)
    (fun w hw hK hnone _ =>
      hreading.call _ hK (hw.offered_prefix _) (decoderFailure_none.mp hnone))
    h hfeeding hx
  cases hout with
  | finished => cases hwrite
  | failed hfail =>
      obtain ⟨-, rfl⟩ := decoderFailure_some hfail
      exact absurd hwrite (brsExtGetDecompressorError_ne_writeIo _)
  | stalled => cases hwrite
  | writeFailed herror => exact herror

/-- A write is blamed only with the error flag set. -/
theorem decompress_writeIo (hdec : dec.Follows fmt init)
    (h : decompress dec gvl sourceBuffer.length destinationBuffer.length fuel
      ⟨handle, init, []⟩ sourceFile sourceBuffer destinationFile destinationBuffer = some x)
    (hwrite : x.1 = .writeIo) : x.2.destinationFile.error = true := by
  obtain ⟨⟨extResult, w⟩, hloop, hx⟩ := Option.map_eq_some_iff.mp h
  have hstart : Moved sourceBuffer.length destinationBuffer.length sourceFile destinationFile
      { coder := (⟨handle, init, []⟩ : DecoderInstance σ), sourceFile, sourceBuffer, source := 0,
        sourceLength := 0, destinationFile, destinationBuffer, destinationLength := 0 } :=
    .start handle init sourceBuffer destinationBuffer
  by_cases hok : extResult = .ok
  · subst hok
    obtain ⟨-, hreturned⟩ := bufferedReadSource_within_decompress hdec (.refl dec) hstart
      (.start handle) hloop
    obtain ⟨hmoved, -⟩ := hreturned rfl
    simp only [ne_eq, not_true_eq_false, if_false] at hx
    rw [← hx] at hwrite ⊢
    rcases hmoved.writeRemainingDestination with ⟨f, heq, -⟩ | ⟨f, heq, herror, -⟩
    · rw [heq] at hwrite
      cases hwrite
    · rw [heq]
      exact herror
  · simp only [ne_eq, hok, not_false_eq_true, if_true] at hx
    rw [← hx] at hwrite ⊢
    refine bufferedReadSource_feeding hdec (.refl dec)
      (Q := fun x => x.1 = .writeIo → x.2.destinationFile.error = true)
      ?_ ?_ ?_ hstart (.start handle) hloop hwrite
    · intro w extResult _ _ _ hne hwrite
      exact absurd hwrite hne
    · intro w _ _ hwrite
      cases hwrite
    · intro w x hw hfeeding hf
      exact bufferedDecompress_writeIo hdec hw hfeeding hf

/-- With a decoder that follows the format a read or a write can fail, or the source is
    not one whole stream. -/
theorem decompress_explained (hdec : dec.Follows fmt init) (hsource : 0 < sourceBuffer.length)
    (hdestination : 0 < destinationBuffer.length)
    (h : decompress dec gvl sourceBuffer.length destinationBuffer.length fuel
      ⟨handle, init, []⟩ sourceFile sourceBuffer destinationFile destinationBuffer = some x)
    (hne : x.1 ≠ .ok) :
    FileFault sourceFile x ∨ CorruptSource fmt sourceFile.unread (brsExtRaiseError x.1) ∨
      Trailing fmt sourceFile.unread (brsExtRaiseError x.1) := by
  have hreading := hdec.reading sourceFile.unread
  have hflag := decompress_writeIo hdec h
  have houtcome := decompress_outcome hreading.call (.start handle) hsource h
  cases houtcome with
  | finished => exact absurd rfl hne
  | remainder hext hresult hrest answered =>
      refine Or.inr (Or.inr ⟨?_, ?_⟩)
      · rcases hext with rfl | rfl
        · exact Or.inl rfl
        · exact Or.inr rfl
      -- A decoder that asks for more has left nothing.
      · rcases hresult with rfl | rfl
        · exact ⟨_, answered.consumed_prefix, fun heq => hrest (answered.rest_nil heq),
            (hdec.success_answered answered).1⟩
        · exact absurd (answered.needsInput hreading) hrest
  | failed answered => exact Or.inr (Or.inl ⟨⟨_, rfl⟩, hdec.error_answered answered⟩)
  | stalled hi hin hresult houtput =>
      exact absurd houtput (hreading.emits hdestination hi hin hresult)
  | readFailed hfault => exact Or.inl (Or.inl ⟨rfl, hfault⟩)
  | writeFailed _ => exact Or.inl (Or.inr ⟨rfl, hflag rfl⟩)

end Decompress

end Io

/-! ## The native functions -/

/-- How a call that began with the memory `before` was left with `after`: its `k`-th
    allocation failed, was the last, and `raised k` was raised, or none failed and every
    exception has another cause. -/
inductive Explained {α : Type} (raised : Nat → RubyError) (cause : RubyError → Prop)
    (before after : Memory) : Except RubyError α → Prop
  | allocation {k : Nat} (hfailed : before.FailedAt k after) :
      Explained raised cause before after (.error (raised k))
  | elsewhere {outcome : Except RubyError α} {count : Nat}
      (hpasses : before.Passes count after)
      (hcause : ∀ err, outcome = .error err → cause err) :
      Explained raised cause before after outcome

/-- What a call on a string raises for its `k`-th allocation.  The first two are the
    instance and the destination; then each resize allocates an array outside of
    `rb_protect` and a string within. -/
def stringAllocationError (k : Nat) : RubyError :=
  if 2 ≤ k ∧ k % 2 = 0 then .noMemoryError else brsExtRaiseError .allocateFailed

/-- The allocations of a call on files are made by the library and by `malloc`. -/
def ioAllocationError (_ : Nat) : RubyError := brsExtRaiseError .allocateFailed

theorem stringAllocationError_of_lt {k : Nat} (hk : k < 2) :
    stringAllocationError k = brsExtRaiseError .allocateFailed :=
  if_neg fun h => by omega

/-- After the first two allocations it depends on which of a pair failed. -/
theorem stringAllocationError_add_two (k : Nat) :
    stringAllocationError (2 + k) =
      if k % 2 = 0 then .noMemoryError else brsExtRaiseError .allocateFailed := by
  unfold stringAllocationError
  rw [Nat.add_mod_left]
  simp only [Nat.le_add_right, true_and]

section Calls

variable {create s : σ} {setOptions : σ → θ → ExtResult × σ}
  {getCodecOptions : Hash → Except RubyError θ} {hash : Hash} {m : Memory}
  {cause : RubyError → Prop}

/-- With accepted options a call on a string comes to its loop after two allocations, and
    ends as the loop does, unless one of them fails. -/
theorem stringCall_reaches {defaultLength : Nat}
    {run : Bool → Nat → Coder UInt8 σ ω ρ → Memory → List UInt8 → List UInt8 →
      Option (Except RubyError ExtResult × Str (Coder UInt8 σ ω ρ))}
    {read : StringOptions θ} (hread : getStringOptions getCodecOptions hash = .ok read)
    (hset : setOptions create read.codec = (.ok, s)) {source : List UInt8}
    {e : Exit (List UInt8) (Coder UInt8 σ ω ρ)}
    (h : stringCall getCodecOptions create setOptions defaultLength run m
      (.value (.string source)) (.hash hash) = some e) :
    (∃ k, k < 2 ∧ m.FailedAt k e.memory ∧
      e.outcome = .error (brsExtRaiseError .allocateFailed)) ∨
    ∃ handle m' value r t, m.Passes 2 m' ∧
      value.length = orDefault read.destinationBufferLength defaultLength ∧
      run read.gvl value.length ⟨handle, s, []⟩ m' source value = some (r, t) ∧
      e.coder = some t.coder ∧ t.memory.Passes 0 e.memory ∧
      (∀ err, r = .error err → e.outcome = .error err) ∧
      ∀ extResult, r = .ok extResult → e.outcome =
        if extResult ≠ .ok then .error (brsExtRaiseError extResult)
        else .ok t.destinationValue := by
  have hprepare : (do
      let source ← checkString (.value (.string source))
      let options ← getStringOptions getCodecOptions (← checkHash (.hash hash))
      return (source, options) : Except RubyError _) = .ok (source, read) := by
    show (do
      let options ← getStringOptions getCodecOptions hash
      return (source, options) : Except RubyError _) = _
    rw [hread]
    rfl
  rw [stringCall, hprepare] at h
  rcases createCoder_explained (ω := ω) (ρ := ρ) (setOptions · read.codec) hset m with
    ⟨m₁, heq, hfailed⟩ | ⟨handle, m₁, heq, hpasses⟩
  · simp only [heq] at h
    rw [← Option.some.inj h]
    exact Or.inl ⟨0, Nat.zero_lt_two, hfailed, rfl⟩
  · simp only [heq] at h
    rcases createStringBuffer_explained m₁ (orDefault read.destinationBufferLength defaultLength)
      with ⟨m₂, hcreate, hfailed⟩ | ⟨value, m₂, hcreate, hlength, hpasses₂⟩
    · simp only [hcreate] at h
      rw [← Option.some.inj h]
      exact Or.inl ⟨1, Nat.one_lt_two, hpasses.failed (hfailed.idle (m₂.release_passes _)), rfl⟩
    · simp only [hcreate] at h
      obtain ⟨⟨r, t⟩, hloop, rfl⟩ := Option.map_eq_some_iff.mp h
      rw [← hlength] at hloop
      refine Or.inr ⟨handle, m₂, value, r, t, hpasses.trans hpasses₂, hlength, hloop, ?_⟩
      cases r with
      | error err =>
          refine ⟨rfl, .refl _, fun err' herr => ?_, fun extResult hr => by cases hr⟩
          rw [← Except.error.inj herr]
      | ok extResult =>
          refine ⟨rfl, t.memory.release_passes handle, fun err hr => (by cases hr), ?_⟩
          intro extResult' hr
          rw [← Except.ok.inj hr]

/-- A call on a string is explained when its loop is. -/
theorem stringCall_explained {defaultLength : Nat} (hdefault : 0 < defaultLength)
    {run : Bool → Nat → Coder UInt8 σ ω ρ → Memory → List UInt8 → List UInt8 →
      Option (Except RubyError ExtResult × Str (Coder UInt8 σ ω ρ))}
    {read : StringOptions θ} (hread : getStringOptions getCodecOptions hash = .ok read)
    (hset : setOptions create read.codec = (.ok, s)) {source : List UInt8}
    (hrun : ∀ gvl handle m value x, 0 < value.length →
      run gvl value.length ⟨handle, s, []⟩ m source value = some x →
      Str.RunExplained cause m x)
    {e : Exit (List UInt8) (Coder UInt8 σ ω ρ)}
    (h : stringCall getCodecOptions create setOptions defaultLength run m
      (.value (.string source)) (.hash hash) = some e) :
    Explained stringAllocationError cause m e.memory e.outcome := by
  rcases stringCall_reaches hread hset h with
    ⟨k, hk, hfailed, heq⟩ |
    ⟨handle, m', value, r, t, hbefore, hlength, hloop, -, hafter, herror, hok⟩
  · rw [heq, ← stringAllocationError_of_lt hk]
    exact .allocation hfailed
  · have hpos : 0 < value.length := hlength ▸ orDefault_pos hdefault
    rcases hrun _ _ _ _ _ hpos hloop with
      ⟨k, hfailed, hr⟩ | ⟨count, extResult, hpasses, hr, -, hcause⟩
    · have hall : m.FailedAt (2 + k) e.memory := (hbefore.failed hfailed).idle hafter
      -- `compress` returns a result code for the string, `decompress` may raise itself.
      have houtcome : e.outcome = .error (stringAllocationError (2 + k)) := by
        rw [stringAllocationError_add_two]
        unfold Str.resizeError at hr
        split at hr
        · rw [herror _ (or_self_iff.mp hr), if_pos ‹_›]
        · rw [if_neg ‹_›]
          rcases hr with hr | hr
          · rw [hok _ hr, if_pos (by simp)]
          · exact herror _ hr
      rw [houtcome]
      exact .allocation hall
    · refine .elsewhere ((hbefore.trans hpasses).trans hafter) fun err herr => ?_
      rw [hok _ hr] at herr
      split at herr
      · rename_i hne
        rw [← Except.error.inj herr]
        exact hcause hne
      · cases herr

/-- With accepted options a call on files comes to its loops after three allocations, and
    ends as they do, unless one of them fails. -/
theorem ioCall_reaches {defaultSource defaultDestination : Nat}
    {run : Bool → Nat → Nat → Coder UInt8 σ ω ρ → SourceFile → List UInt8 → DestinationFile →
      List UInt8 → Option (ExtResult × Io (Coder UInt8 σ ω ρ))}
    {read : IoOptions θ} (hread : getIoOptions getCodecOptions hash = .ok read)
    (hset : setOptions create read.codec = (.ok, s)) {sourceFile : SourceFile}
    {destinationFile : DestinationFile} {e : IoExit (Coder UInt8 σ ω ρ)}
    (h : ioCall getCodecOptions create setOptions defaultSource defaultDestination run m
      (.file sourceFile) (.file destinationFile) (.hash hash) = some e) :
    (∃ k, m.FailedAt k e.memory ∧ e.outcome = .error (brsExtRaiseError .allocateFailed)) ∨
    ∃ handle sourceBuffer destinationBuffer m' x,
      sourceBuffer.bytes.length = orDefault read.sourceBufferLength defaultSource ∧
      destinationBuffer.bytes.length =
        orDefault read.destinationBufferLength defaultDestination ∧
      run read.gvl sourceBuffer.bytes.length destinationBuffer.bytes.length ⟨handle, s, []⟩
        sourceFile sourceBuffer.bytes destinationFile destinationBuffer.bytes = some x ∧
      m.Passes 3 e.memory ∧ e = .finish x.1 x.2 m' sourceBuffer destinationBuffer handle := by
  have hprepare : (do
      let sourceFile ← getFile (.file sourceFile)
      let destinationFile ← getFile (.file destinationFile)
      let options ← getIoOptions getCodecOptions (← checkHash (.hash hash))
      return (sourceFile, destinationFile, options) : Except RubyError _) =
        .ok (sourceFile, destinationFile, read) := by
    show (do
      let options ← getIoOptions getCodecOptions hash
      return (sourceFile, destinationFile, options) : Except RubyError _) = _
    rw [hread]
    rfl
  rw [ioCall, hprepare] at h
  rcases createCoder_explained (ω := ω) (ρ := ρ) (setOptions · read.codec) hset m with
    ⟨m₁, heq, hfailed⟩ | ⟨handle, m₁, heq, hpasses⟩
  · simp only [heq] at h
    rw [← Option.some.inj h]
    exact Or.inl ⟨0, hfailed, rfl⟩
  · simp only [heq] at h
    rcases createBuffers_explained m₁ (orDefault read.sourceBufferLength defaultSource)
        (orDefault read.destinationBufferLength defaultDestination) with
      ⟨k, m₂, hcreate, hfailed⟩ |
      ⟨sourceBuffer, destinationBuffer, m₂, hcreate, hsourceLength, hdestinationLength, hpasses₂⟩
    · simp only [hcreate] at h
      rw [← Option.some.inj h]
      exact Or.inl ⟨1 + k, hpasses.failed (hfailed.idle (m₂.release_passes _)), rfl⟩
    · simp only [hcreate] at h
      obtain ⟨x, hloops, rfl⟩ := Option.map_eq_some_iff.mp h
      rw [← hsourceLength, ← hdestinationLength] at hloops
      refine Or.inr ⟨handle, sourceBuffer, destinationBuffer, m₂, x, hsourceLength,
        hdestinationLength, hloops, ?_, rfl⟩
      have hreleased := ((m₂.release_passes sourceBuffer.handle).trans
        ((m₂.release _).release_passes destinationBuffer.handle)).trans
        (((m₂.release _).release _).release_passes handle)
      have hall : m.Passes 3 (((m₂.release sourceBuffer.handle).release
          destinationBuffer.handle).release handle) := (hpasses.trans hpasses₂).trans hreleased
      dsimp only [IoExit.finish]
      split <;> exact hall

/-- A call on files is explained when its loops are, which allocate nothing. -/
theorem ioCall_explained {defaultSource defaultDestination : Nat}
    (cause : Option DestinationFile → RubyError → Prop) (hsource : 0 < defaultSource)
    (hdestination : 0 < defaultDestination)
    {run : Bool → Nat → Nat → Coder UInt8 σ ω ρ → SourceFile → List UInt8 → DestinationFile →
      List UInt8 → Option (ExtResult × Io (Coder UInt8 σ ω ρ))}
    {read : IoOptions θ} (hread : getIoOptions getCodecOptions hash = .ok read)
    (hset : setOptions create read.codec = (.ok, s)) {sourceFile : SourceFile}
    {destinationFile : DestinationFile}
    (hrun : ∀ gvl handle sourceBuffer destinationBuffer x, 0 < sourceBuffer.length →
      0 < destinationBuffer.length →
      run gvl sourceBuffer.length destinationBuffer.length ⟨handle, s, []⟩ sourceFile
        sourceBuffer destinationFile destinationBuffer = some x →
      x.1 ≠ .ok → cause (some x.2.destinationFile) (brsExtRaiseError x.1))
    {e : IoExit (Coder UInt8 σ ω ρ)}
    (h : ioCall getCodecOptions create setOptions defaultSource defaultDestination run m
      (.file sourceFile) (.file destinationFile) (.hash hash) = some e) :
    Explained ioAllocationError (cause e.destinationFile) m e.memory e.outcome := by
  rcases ioCall_reaches hread hset h with
    ⟨k, hfailed, heq⟩ | ⟨handle, sourceBuffer, destinationBuffer, m', x, hsourceLength,
      hdestinationLength, hloops, hpasses, rfl⟩
  · rw [heq]
    exact .allocation hfailed
  · have hcause := hrun _ _ _ _ _ (hsourceLength ▸ orDefault_pos hsource)
      (hdestinationLength ▸ orDefault_pos hdestination) hloops
    refine .elsewhere hpasses fun err herr => ?_
    by_cases hok : x.1 = .ok
    · simp only [IoExit.finish, hok, ne_eq, not_true_eq_false, if_false] at herr
      cases herr
    · simp only [IoExit.finish, ne_eq, hok, not_false_eq_true, if_true] at herr ⊢
      rw [← Except.error.inj herr]
      exact hcause hok

end Calls

/-- A read was due to fail, or the error flag of the destination is set. -/
def FileCause (sourceFile : SourceFile) (after : Option DestinationFile) (err : RubyError) :
    Prop :=
  (err = brsExtRaiseError .readIo ∧ ¬ sourceFile.Faultless) ∨
  (err = brsExtRaiseError .writeIo ∧ ∃ f, after = some f ∧ f.error = true)

theorem Io.FileFault.cause {sourceFile : SourceFile} {x : ExtResult × Io κ}
    (h : Io.FileFault sourceFile x) :
    FileCause sourceFile (some x.2.destinationFile) (brsExtRaiseError x.1) := by
  rcases h with ⟨hresult, hfault⟩ | ⟨hresult, herror⟩
  · rw [hresult]
    exact Or.inl ⟨rfl, hfault⟩
  · rw [hresult]
    exact Or.inr ⟨rfl, _, rfl, herror⟩

/-- With accepted options, an encoder and a decoder that then keep to the format, and any
    allocations, reads and writes: either an allocation of the call failed and
    AllocateError or, for the array of a resize, NoMemoryError is raised, or none failed
    and an exception tells another cause.  There is none for the compression of a string;
    for that of a file it is a read or a write; and for a decompression the source may be
    corrupt, and a file may hold more than one complete stream. -/
theorem exceptions_explained (enc : Encoder σ) (dec : Decoder τ) (fmt : Format UInt8)
    (fuel : Nat) (m : Memory) (source : List UInt8) (sourceFile : SourceFile)
    (destinationFile : DestinationFile) :
    (∀ {hash : Hash} {read : StringOptions CompressorOptions} {init : σ},
      getStringOptions getCompressorOptions hash = .ok read →
      brsExtSetCompressorOptions enc enc.create read.codec = (.ok, init) →
      enc.Contract [.finish] fmt init →
      ∀ e, brsExtCompressString enc fuel m (.value (.string source)) (.hash hash) = some e →
        Explained stringAllocationError (fun _ => False) m e.memory e.outcome) ∧
    (∀ {hash : Hash} {read : StringOptions DecompressorOptions} {init : τ},
      getStringOptions getDecompressorOptions hash = .ok read →
      brsExtSetDecompressorOptions dec dec.create read.codec = (.ok, init) →
      dec.Follows fmt init →
      ∀ e, brsExtDecompressString dec fuel m (.value (.string source)) (.hash hash) = some e →
        Explained stringAllocationError (CorruptSource fmt source) m e.memory e.outcome) ∧
    (∀ {hash : Hash} {read : IoOptions CompressorOptions} {init : σ},
      getIoOptions getCompressorOptions hash = .ok read →
      brsExtSetCompressorOptions enc enc.create read.codec = (.ok, init) →
      enc.Contract Io.compressOperations fmt init →
      ∀ e, brsExtCompressIo enc fuel m (.file sourceFile) (.file destinationFile)
          (.hash hash) = some e →
        Explained ioAllocationError (FileCause sourceFile e.destinationFile) m e.memory
          e.outcome) ∧
    (∀ {hash : Hash} {read : IoOptions DecompressorOptions} {init : τ},
      getIoOptions getDecompressorOptions hash = .ok read →
      brsExtSetDecompressorOptions dec dec.create read.codec = (.ok, init) →
      dec.Follows fmt init →
      ∀ e, brsExtDecompressIo dec fuel m (.file sourceFile) (.file destinationFile)
          (.hash hash) = some e →
        Explained ioAllocationError (fun err => FileCause sourceFile e.destinationFile err ∨
          CorruptSource fmt sourceFile.unread err ∨ Trailing fmt sourceFile.unread err)
          m e.memory e.outcome) := by
  refine ⟨?_, ?_, ?_, ?_⟩
  · intro hash read init hread hset henc e h
    refine stringCall_explained (by decide) hread hset ?_ h
    intro gvl handle m value x hvalue hrun
    exact Str.compress_explained henc hvalue hrun
  · intro hash read init hread hset hdec e h
    refine stringCall_explained (by decide) hread hset ?_ h
    intro gvl handle m value x hvalue hrun
    exact Str.decompress_explained hdec hvalue hrun
  · intro hash read init hread hset henc e h
    refine ioCall_explained (FileCause sourceFile) (by decide) (by decide) hread hset ?_ h
    intro gvl handle sourceBuffer destinationBuffer x hs hd hrun hne
    exact (Io.compress_explained henc hs hd hrun hne).cause
  · intro hash read init hread hset hdec e h
    refine ioCall_explained (fun after err => FileCause sourceFile after err ∨
      CorruptSource fmt sourceFile.unread err ∨ Trailing fmt sourceFile.unread err)
      (by decide) (by decide) hread hset ?_ h
    intro gvl handle sourceBuffer destinationBuffer x hs hd hrun hne
    exact (Io.decompress_explained hdec hs hd hrun hne).imp_left fun hfault => hfault.cause

/-- The stream of one byte, with the fourth allocation failing, a read and a write. -/
theorem exceptions_explained_failing :
    let m : Memory := { Memory.unused with fails := fun k => k == 3 }
    let source : List UInt8 := [0x0b, 0, 0x80, 7, 3]
    let sourceFile := SourceFile.opened source [.success, .failure 0]
    let destinationFile := DestinationFile.opened [.success 0, .failure 1 1]
    ∀ fuel,
      (∀ e, brsExtCompressString storedEncoder fuel m (.value (.string source))
          (.hash oneByteStringOptions) = some e →
        Explained stringAllocationError (fun _ => False) m e.memory e.outcome) ∧
      (∀ e, brsExtDecompressString (formatDecoder storedFormat id) fuel m
          (.value (.string source)) (.hash oneByteStringOptions) = some e →
        Explained stringAllocationError (CorruptSource storedFormat source) m e.memory
          e.outcome) ∧
      (∀ e, brsExtCompressIo storedEncoder fuel m (.file sourceFile) (.file destinationFile)
          (.hash oneByteOptions) = some e →
        Explained ioAllocationError (FileCause sourceFile e.destinationFile) m e.memory
          e.outcome) ∧
      ∀ e, brsExtDecompressIo (formatDecoder storedFormat id) fuel m (.file sourceFile)
          (.file destinationFile) (.hash oneByteOptions) = some e →
        Explained ioAllocationError (fun err => FileCause sourceFile e.destinationFile err ∨
          CorruptSource storedFormat sourceFile.unread err ∨
          Trailing storedFormat sourceFile.unread err) m e.memory e.outcome := by
  intro m source sourceFile destinationFile fuel
  have hfinish := (storedEncoder_flushContract [.finish]).toContract
  have henc := (storedEncoder_flushContract Io.compressOperations).toContract
  have hdec := formatDecoder_follows storedFormat id
  obtain ⟨hcompress, hdecompress, hcompressIo, hdecompressIo⟩ := exceptions_explained
    storedEncoder (formatDecoder storedFormat id) storedFormat fuel m source sourceFile
    destinationFile
  exact ⟨hcompress rfl rfl hfinish, hdecompress rfl rfl hdec, hcompressIo rfl rfl henc,
    hdecompressIo rfl rfl hdec⟩

end RubyBrs
