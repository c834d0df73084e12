/-
  RubyBrs.Ext.IoDecompress

  `decompress` of `io.c`, for any decoder at all: the six ways in which it can
  end (`DecompressOutcome`), and that it does end (`decompress_returns`).  Each
  way out that the decoder decides comes with the last answer the decoder gave,
  so what a contract says of that answer decides between them.

  The results for decoders that keep a contract follow: a complete stream is
  decompressed exactly (`decompress_stream`), whatever the buffer lengths.
-/

import RubyBrs.Ext.IoMoved
import RubyBrs.Ext.Reading

namespace RubyBrs
namespace Io

open StreamCodec StreamFormat WhileTrue

variable {σ : Type} {dec : Decoder σ} {gvl : Bool} {m n fuel : Nat}
  {sourceFile : SourceFile} {destinationFile : DestinationFile}
  {S : DecoderInstance σ → Prop}

/-- The ways in which `decompress` can end. -/
inductive DecompressOutcome (dec : Decoder σ) (S : DecoderInstance σ → Prop) (n : Nat)
    (sourceFile : SourceFile) (destinationFile : DestinationFile) :
    ExtResult × Io (DecoderInstance σ) → Prop
  /-- All of the file was taken, and all that was emitted was written. -/
  | finished {w : Io (DecoderInstance σ)} {result : DecoderResult} (hresult : result.Settled)
      (answered : dec.Answered S sourceFile.unread result [] w.coder)
      (consumed : w.coder.consumed = sourceFile.unread)
      (written : w.destinationFile.written = destinationFile.written ++ w.coder.emitted)
      (source_error : w.sourceFile.error = sourceFile.error)
      (destination_error : w.destinationFile.error = destinationFile.error) :
      DecompressOutcome dec S n sourceFile destinationFile (.ok, w)
  /-- The decoder left some of the source, and there was no more of it or no room
      for more. -/
  | remainder {w : Io (DecoderInstance σ)} {extResult : ExtResult} {result : DecoderResult}
      {rest : List UInt8} (hext : extResult = .readIo ∨ extResult = .notEnoughSourceBuffer)
      (hresult : result.Settled) (hrest : rest ≠ [])
      (answered : dec.Answered S sourceFile.unread result rest w.coder) :
      DecompressOutcome dec S n sourceFile destinationFile (extResult, w)
  | failed {w : Io (DecoderInstance σ)} {rest : List UInt8}
      (answered : dec.Answered S sourceFile.unread .error rest w.coder) :
      DecompressOutcome dec S n sourceFile destinationFile
        (brsExtGetDecompressorError (dec.getErrorCode w.coder.state), w)
  /-- The decoder asked for room when it had used none of a whole buffer. -/
  | stalled {w : Io (DecoderInstance σ)} {i : DecoderInstance σ} {input : List UInt8}
      (hi : S i) (hin : i.consumed ++ input <+: sourceFile.unread)
      (hresult : (dec.stream i.state () input n).result = .needsMoreOutput)
      (houtput : (dec.stream i.state () input n).output = []) :
      DecompressOutcome dec S n sourceFile destinationFile (.notEnoughDestinationBuffer, w)
  | readFailed {w : Io (DecoderInstance σ)} (hfault : ¬ sourceFile.Faultless) :
      DecompressOutcome dec S n sourceFile destinationFile (.readIo, w)
  | writeFailed {w : Io (DecoderInstance σ)} (hfault : ¬ destinationFile.Faultless) :
      DecompressOutcome dec S n sourceFile destinationFile (.writeIo, w)

/-- Only one of the six ways is without an error. -/
theorem DecompressOutcome.returned {x : ExtResult × Io (DecoderInstance σ)}
    (h : DecompressOutcome dec S n sourceFile destinationFile x) (hok : x.1 = .ok) :
    ∃ result, DecoderResult.Settled result ∧
      dec.Answered S sourceFile.unread result [] x.2.coder ∧
      x.2.coder.consumed = sourceFile.unread ∧
      x.2.destinationFile.written = destinationFile.written ++ x.2.coder.emitted := by
  cases h with
  | finished hresult answered consumed written _ _ =>
      exact ⟨_, hresult, answered, consumed, written⟩
  | remainder hext =>
      rcases hext with rfl | rfl
      · cases hok
      · cases hok
  | failed _ => exact absurd hok (brsExtGetDecompressorError_ne _).1
  | stalled => cases hok
  | readFailed => cases hok
  | writeFailed => cases hok

/-! ## The loop around a call -/

/-- The variables when control is at the head of `BUFFERED_READ_SOURCE`. -/
structure AtRead (dec : Decoder σ) (S : DecoderInstance σ → Prop) (m n : Nat)
    (sourceFile : SourceFile) (destinationFile : DestinationFile) (called : Bool)
    (w : Io (DecoderInstance σ)) : Prop extends Moved m n sourceFile destinationFile w where
  reading : S w.coder
  answered : called = true → ∃ result : DecoderResult, result.Settled ∧
    dec.Answered S sourceFile.unread result w.sourceWindow w.coder
  empty : called = false → w.sourceLength = 0

/-- A call made on all of the source window. -/
theorem Moved.answered (dec : Decoder σ) {w : Io (DecoderInstance σ)}
    (hw : Moved m n sourceFile destinationFile w) (hS : S w.coder) :
    dec.Answered S sourceFile.unread (streamAnswer dec.toCodec () w.sourceLength n w).result
      (Io.streamed dec.toCodec () w.sourceLength n w).sourceWindow
      (Io.streamed dec.toCodec () w.sourceLength n w).coder := by
  have hall : w.sourceWindow.take w.sourceLength = w.sourceWindow := by
    rw [← hw.wellFormed.sourceWindow_length, List.take_length]
  refine .call _ hS (hw.offered_prefix _) rfl ?_
  rw [streamed_sourceWindow]
  simp only [streamAnswer, hall]

/-- The loop of `buffered_decompress` leaves with a settled answer, or its error
    is that of `decompress`. -/
theorem bufferedDecompress_outcome
    (hS : ∀ {i input} (room : Nat), S i → i.consumed ++ input <+: sourceFile.unread →
      (dec.stream i.state () input room).result ≠ .error → S (dec.call i () input room))
    {w : Io (DecoderInstance σ)} {x : ExtResult × Io (DecoderInstance σ)}
    (hw : Moved m n sourceFile destinationFile w) (hSw : S w.coder)
    (h : bufferedDecompress dec gvl n fuel w = some x) :
    (∃ w', x = (.ok, w') ∧ AtRead dec S m n sourceFile destinationFile true w' ∧
      w'.sourceFile = w.sourceFile ∧ w'.sourceLength ≤ w.sourceLength) ∨
    (x.1 ≠ .ok ∧ DecompressOutcome dec S n sourceFile destinationFile x) := by
  obtain ⟨v, hv, hout⟩ := bufferedLoop_outcome (m := m) (fun w => w.sourceLength)
    (decompressWrapper_eq dec) (fun _ => le_refl _) (K := S)
    (fun w hw hSw hnone _ => hS _ hSw (hw.offered_prefix _) (decoderFailure_none.mp hnone))
    hw hSw h
  have hanswered := hv.toMoved.answered dec hv.coder
  cases hout with
  -- No error and no wish for room: the answer is settled.
  | finished hnone hdone =>
      have hne : (streamAnswer dec.toCodec () v.sourceLength n v).result ≠ .error :=
        decoderFailure_none.mp hnone
      refine Or.inl ⟨_, rfl, ?_, hv.file, (Nat.sub_le _ _).trans hv.sourceLength_le⟩
      refine
        { toMoved := hv.toMoved.streamed (le_refl _)
          reading := hS _ hv.coder (hv.offered_prefix _) hne
          answered := fun _ => ⟨_, ?_, hanswered⟩
          empty := fun h => nomatch h }
      have hnot : (streamAnswer dec.toCodec () v.sourceLength n v).result ≠ .needsMoreOutput := by
        simpa using hdone
      unfold DecoderResult.Settled
      cases hr : (streamAnswer dec.toCodec () v.sourceLength n v).result <;> simp_all
  | failed hfail =>
      obtain ⟨hresult, rfl⟩ := decoderFailure_some hfail
      rw [hresult] at hanswered
      exact Or.inr ⟨(brsExtGetDecompressorError_ne _).1,
        .failed (w := { streamed dec.toCodec () v.sourceLength n v with
          destinationLength := v.destinationLength }) hanswered⟩
  -- The buffer is empty after the call, so the call had all of it as room.
  | stalled hagain hzero =>
      have hsum : v.destinationLength +
          (streamAnswer dec.toCodec () v.sourceLength n v).output.length = 0 := hzero
      have hempty : v.destinationLength = 0 := by omega
      refine Or.inr ⟨by simp, .stalled hv.coder (hv.offered_prefix v.sourceLength) ?_ ?_⟩
      · simpa [streamAnswer, hempty] using hagain
      · have : (streamAnswer dec.toCodec () v.sourceLength n v).output = [] :=
          List.length_eq_zero_iff.mp (by omega)
        simpa [streamAnswer, hempty] using this
  | writeFailed herror hfault => exact Or.inr ⟨by simp, .writeFailed hfault⟩

/-- The loop of `buffered_decompress` returns when the decoder emits at most
    `bound` bytes. -/
theorem bufferedDecompress_returns (gvl : Bool) {bound : Nat}
    (hS : ∀ {i input} (room : Nat), S i → i.consumed ++ input <+: sourceFile.unread →
      (dec.stream i.state () input room).result ≠ .error → S (dec.call i () input room))
    (hbound : ∀ i input room, S i → i.consumed ++ input <+: sourceFile.unread →
      (dec.stream i.state () input room).result ≠ .error →
      (dec.call i () input room).emitted.length ≤ bound)
    (hfuel : 2 * bound + 1 < fuel) {w : Io (DecoderInstance σ)}
    (hw : Moved m n sourceFile destinationFile w) (hSw : S w.coder) :
    ∃ x, bufferedDecompress dec gvl n fuel w = some x := by
  refine bufferedLoop_returns (m := m) (decompressWrapper_eq dec)
    (I := fun v => Moved m n sourceFile destinationFile v ∧ S v.coder)
    (fun v hv => ⟨hv.1.wellFormed, le_refl _⟩) ?_ ?_ ⟨hw, hSw⟩ hfuel
  · intro v hv hnone _
    exact hbound _ _ _ hv.2 (Moved.offered_prefix hv.1 _) (decoderFailure_none.mp hnone)
  · intro v f hv hnone _ _ hwritten herror hfaultless
    exact ⟨(hv.1.streamed (le_refl _)).flushed hwritten herror hfaultless,
      hS _ hv.2 (Moved.offered_prefix hv.1 _) (decoderFailure_none.mp hnone)⟩

/-! ## The whole function -/

/-- Reading more source, unless it fails, leaves the decoder alone. -/
theorem AtRead.readMoreSource {called : Bool} {w : Io (DecoderInstance σ)}
    (h : AtRead dec S m n sourceFile destinationFile called w)
    (hr : (w.readMoreSource m).1 ≠ .readIo) :
    Moved m n sourceFile destinationFile (w.readMoreSource m).2 ∧
      S (w.readMoreSource m).2.coder := by
  have hcoder := (readMoreSource_cases h.wellFormed).1.coder
  exact ⟨h.toMoved.readMoreSource hr, hcoder ▸ h.reading⟩

/-- What is left of the source when a read gives no more of it. -/
theorem AtRead.remainder {called : Bool} {w : Io (DecoderInstance σ)}
    (h : AtRead dec S m n sourceFile destinationFile called w)
    (hlength : w.sourceLength ≠ 0) {extResult : ExtResult}
    (hext : extResult = .readIo ∨ extResult = .notEnoughSourceBuffer) :
    DecompressOutcome dec S n sourceFile destinationFile
      (extResult, (w.readMoreSource m).2) := by
  -- Before the first call there is no source that could be left over.
  have hcalled : called = true := by
    cases called with
    | true => rfl
    | false => exact absurd (h.empty rfl) hlength
  obtain ⟨result, hresult, hanswered⟩ := h.answered hcalled
  have hne : w.sourceWindow ≠ [] := fun hnil =>
    hlength (h.wellFormed.sourceWindow_eq_nil.mp hnil)
  refine .remainder hext hresult hne ?_
  rw [(readMoreSource_cases h.wellFormed).1.coder]
  exact hanswered

/-- The loop that reads the source ends with all of the file taken, or with an outcome
    of its function or of a read. -/
theorem bufferedReadSource_decompresses
    (hS : ∀ {i input} (room : Nat), S i → i.consumed ++ input <+: sourceFile.unread →
      (dec.stream i.state () input room).result ≠ .error → S (dec.call i () input room))
    (hm : 0 < m) {w : Io (DecoderInstance σ)}
    (hw : AtRead dec S m n sourceFile destinationFile false w)
    {x : ExtResult × Io (DecoderInstance σ)}
    (h : bufferedReadSource (bufferedDecompress dec gvl n fuel) m fuel w = some x) :
    (x.1 = .ok → AtRead dec S m n sourceFile destinationFile true x.2 ∧
      x.2.sourceLength = 0 ∧ x.2.sourceFile.unread = []) ∧
    (x.1 ≠ .ok → DecompressOutcome dec S n sourceFile destinationFile x) := by
  have hcall : ∀ {w x}, Moved m n sourceFile destinationFile w ∧ S w.coder →
      bufferedDecompress dec gvl n fuel w = some x → _ := fun hw hf =>
    bufferedDecompress_outcome hS hw.1 hw.2 hf
  refine bufferedReadSource_partial (m := m)
    (I := AtRead dec S m n sourceFile destinationFile)
    (J := fun w => Moved m n sourceFile destinationFile w ∧ S w.coder)
    (Q := fun x => (x.1 = .ok → AtRead dec S m n sourceFile destinationFile true x.2 ∧
        x.2.sourceLength = 0 ∧ x.2.sourceFile.unread = []) ∧
      (x.1 ≠ .ok → DecompressOutcome dec S n sourceFile destinationFile x))
    ?_ ?_ ?_ ?_ ?_ ?_ ?_ hw h
  -- Reads and successful calls keep the invariant; an error is already an outcome.
  · intro called w hI hr
    exact hI.readMoreSource (by rw [hr]; decide)
  · intro w w' hJ hf
    rcases hcall hJ hf with ⟨w'', heq, hw'', -⟩ | ⟨hne, -⟩
    · obtain rfl : w' = w'' := by simpa using heq
      exact hw''
    · exact absurd rfl hne
  · intro w extResult w' hJ hf hne
    rcases hcall hJ hf with ⟨w'', heq, -⟩ | ⟨-, hout⟩
    · exact absurd (congrArg Prod.fst heq) hne
    · exact ⟨fun hok => absurd hok hne, fun _ => hout⟩
  · -- The file is finished and the decoder has left some of the source.
    intro called w hI hr hrest
    obtain ⟨-, hlength, -⟩ := readMoreSource_finished hI.wellFormed hr
    rw [hlength] at hrest
    exact ⟨(nomatch ·), fun _ => hI.remainder hrest (Or.inl rfl)⟩
  · -- The file is finished and everything was taken by an earlier call.
    intro w hI hr hrest
    obtain ⟨hmoved, hcoder⟩ := hI.readMoreSource (by rw [hr]; decide)
    obtain ⟨hwindow, -, hunread⟩ := readMoreSource_finished hI.wellFormed hr
    refine ⟨fun _ => ⟨⟨hmoved, hcoder, fun _ => ?_, fun h => nomatch h⟩, hrest, hunread⟩,
      fun hne => absurd rfl hne⟩
    rw [hwindow, (readMoreSource_cases hI.wellFormed).1.coder]
    exact hI.answered rfl
  · -- The file was empty from the start: the one call is made on no source.
    intro w x hI hr hrest hf
    have hJ := hI.readMoreSource (by rw [hr]; decide)
    obtain ⟨-, -, hunread⟩ := readMoreSource_finished hI.wellFormed hr
    rcases hcall hJ hf with ⟨w', rfl, hw', hfile, hle⟩ | ⟨hne, hout⟩
    · exact ⟨fun _ => ⟨hw', Nat.le_zero.mp (hrest ▸ hle), hfile ▸ hunread⟩,
        fun hne => absurd rfl hne⟩
    · exact ⟨fun hok => absurd hok hne, fun _ => hout⟩
  · -- The read gave nothing: the buffer is full of what the decoder left, or it failed.
    intro called w hI hne hne'
    refine ⟨fun hok => absurd hok hne, fun _ => ?_⟩
    cases (readMoreSource_cases hI.wellFormed).2 with
    | read hok => exact absurd hok hne
    | full hr _ _ hfull =>
        have houtcome := hI.remainder (by omega) (Or.inr rfl)
        rwa [← hr] at houtcome
    | finished hend => exact absurd hend hne'
    | failed hio _ _ _ hfault =>
        have hfailed : DecompressOutcome dec S n sourceFile destinationFile
            (.readIo, (w.readMoreSource m).2) :=
          .readFailed fun hs => hfault (hI.source_faultless hs)
        rwa [← hio] at hfailed

/-- However `decompress` ends, it is in one of the six ways. -/
theorem decompress_outcome
    (hS : ∀ {i input} (room : Nat), S i → i.consumed ++ input <+: sourceFile.unread →
      (dec.stream i.state () input room).result ≠ .error → S (dec.call i () input room))
    {handle : Nat} {init : σ} (hinit : S ⟨handle, init, []⟩)
    {sourceBuffer destinationBuffer : List UInt8} (hsource : 0 < sourceBuffer.length)
    {x : ExtResult × Io (DecoderInstance σ)}
    (h : decompress dec gvl sourceBuffer.length destinationBuffer.length fuel
      ⟨handle, init, []⟩ sourceFile sourceBuffer destinationFile destinationBuffer = some x) :
    DecompressOutcome dec S destinationBuffer.length sourceFile destinationFile x := by
  generalize hm : sourceBuffer.length = m at h hsource
  generalize hn : destinationBuffer.length = n at h
  obtain ⟨⟨extResult, w⟩, hloop, hx⟩ := Option.map_eq_some_iff.mp h
  have hmoved : Moved m n sourceFile destinationFile
      { coder := (⟨handle, init, []⟩ : DecoderInstance σ), sourceFile, sourceBuffer, source := 0,
        sourceLength := 0, destinationFile, destinationBuffer, destinationLength := 0 } := by
    subst hm hn
    exact .start handle init sourceBuffer destinationBuffer
  have hstart : AtRead dec S m n sourceFile destinationFile false
      { coder := ⟨handle, init, []⟩, sourceFile, sourceBuffer, source := 0, sourceLength := 0,
        destinationFile, destinationBuffer, destinationLength := 0 } :=
    { toMoved := hmoved
      reading := hinit
      answered := fun h => nomatch h
      empty := fun _ => rfl }
  obtain ⟨hok, herror⟩ := bufferedReadSource_decompresses hS hsource hstart hloop
  by_cases hresult : extResult = .ok
  · obtain ⟨hw, hlength, hunread⟩ := hok hresult
    obtain ⟨result, hsettled, hanswered⟩ := hw.answered rfl
    rw [hw.wellFormed.sourceWindow_eq_nil.mpr hlength] at hanswered
    simp only [hresult, ne_eq, not_true_eq_false, if_false] at hx
    rcases hw.writeRemainingDestination with ⟨f, heq, hwritten, hferror⟩ | ⟨f, heq, _, hfault⟩
    · rw [← hx, heq]
      exact .finished hsettled hanswered (hw.consumed_eq hlength hunread) hwritten
        hw.source_error hferror
    · rw [← hx, heq]
      exact .writeFailed hfault
  · simp only [ne_eq, hresult, not_false_eq_true, if_true] at hx
    rw [← hx]
    exact herror hresult

/-- `decompress` returns when the decoder emits finitely many bytes for the file. -/
theorem decompress_returns (hread : dec.Reading sourceFile.unread S) (gvl : Bool) {handle : Nat}
    {init : σ} (hinit : S ⟨handle, init, []⟩) (sourceBuffer destinationBuffer : List UInt8) :
    ∃ enough, ∀ fuel, enough ≤ fuel → ∃ x,
      decompress dec gvl sourceBuffer.length destinationBuffer.length fuel ⟨handle, init, []⟩
        sourceFile sourceBuffer destinationFile destinationBuffer = some x := by
  obtain ⟨bound, hbound⟩ := hread.finite
  refine ⟨sourceFile.unread.length + 2 * bound + 2, fun fuel hfuel => ?_⟩
  generalize hm : sourceBuffer.length = m
  generalize hn : destinationBuffer.length = n
  have hcall : ∀ {w}, Moved m n sourceFile destinationFile w ∧ S w.coder →
      ∃ x, bufferedDecompress dec gvl n fuel w = some x := fun hw =>
    bufferedDecompress_returns gvl hread.call hbound (by omega) hw.1 hw.2
  have hstart : Moved m n sourceFile destinationFile
      { coder := (⟨handle, init, []⟩ : DecoderInstance σ), sourceFile, sourceBuffer, source := 0,
        sourceLength := 0, destinationFile, destinationBuffer, destinationLength := 0 } := by
    subst hm hn
    exact .start handle init sourceBuffer destinationBuffer
  have hfile : sourceFile.unread.length < fuel := by omega
  have hloop : ∃ x, bufferedReadSource (bufferedDecompress dec gvl n fuel) m fuel
      { coder := ⟨handle, init, []⟩, sourceFile, sourceBuffer, source := 0, sourceLength := 0,
        destinationFile, destinationBuffer, destinationLength := 0 } = some x := by
    have hnext : ∀ {w : Io (DecoderInstance σ)},
        Moved m n sourceFile destinationFile w ∧ S w.coder → (w.readMoreSource m).1 ≠ .readIo →
        Moved m n sourceFile destinationFile (w.readMoreSource m).2 ∧
          S (w.readMoreSource m).2.coder := by
      intro w hw hr
      have hcoder := (readMoreSource_cases hw.1.wellFormed).1.coder
      exact ⟨hw.1.readMoreSource hr, hcoder ▸ hw.2⟩
    refine bufferedReadSource_returns (m := m) (n := n)
      (I := fun _ w => Moved m n sourceFile destinationFile w ∧ S w.coder)
      (J := fun w => Moved m n sourceFile destinationFile w ∧ S w.coder)
      (fun _ _ hw => hw.1.wellFormed) (fun _ _ hw hr => hnext hw (by rw [hr]; decide)) ?_
      (fun _ hw => hcall hw) (fun _ hw hr _ => hcall (hnext hw (by rw [hr]; decide)))
      ⟨hstart, hinit⟩ hfile
    intro w w' hw hf
    rcases bufferedDecompress_outcome hread.call hw.1 hw.2 hf with
      ⟨w'', heq, hw'', hsame, -⟩ | ⟨hne, -⟩
    · obtain rfl : w' = w'' := by simpa using heq
      exact ⟨⟨hw''.toMoved, hw''.reading⟩, hsame⟩
    · exact absurd rfl hne
  obtain ⟨x, hx⟩ := hloop
  exact ⟨_, by rw [decompress, hx, Option.map_some]⟩

/-! ## Decoders that keep a contract -/

section Contracts

variable {handle : Nat} {init : σ} {sourceBuffer destinationBuffer : List UInt8}
  {x : ExtResult × Io (DecoderInstance σ)}

/-- Without faults, a complete stream is decompressed exactly, whatever the
    buffer lengths. -/
theorem decompress_stream {content : List UInt8}
    (hdec : dec.StreamContract sourceFile.unread content init)
    (hread : sourceFile.Faultless) (hwrite : destinationFile.Faultless)
    (hsource : 0 < sourceBuffer.length) (hdestination : 0 < destinationBuffer.length)
    (h : decompress dec gvl sourceBuffer.length destinationBuffer.length fuel
      ⟨handle, init, []⟩ sourceFile sourceBuffer destinationFile destinationBuffer = some x) :
    x.1 = .ok ∧ x.2.destinationFile.written = destinationFile.written ++ content := by
  have hreading := hdec.reading
  have houtcome := decompress_outcome hreading.call (.start handle) hsource h
  cases houtcome with
  | finished hresult answered consumed written _ _ =>
      rcases hresult with rfl | rfl
      · exact ⟨rfl, (hdec.success_answered answered).2 ▸ written⟩
      · exact absurd consumed (hdec.needsInput_answered answered)
  | remainder hext hresult hrest answered =>
      rcases hresult with rfl | rfl
      · exact absurd (answered.rest_nil (hdec.success_answered answered).1) hrest
      · exact absurd (answered.needsInput hreading) hrest
  | failed answered => exact absurd answered hdec.not_error
  | stalled hi hin hresult houtput =>
      exact absurd houtput (hreading.emits hdestination hi hin hresult)
  | readFailed hfault => exact absurd hread hfault
  | writeFailed hfault => exact absurd hwrite hfault

/-- What a decoder that follows a format makes of a file without faults. -/
theorem decompress_follows {fmt : Format UInt8} (hdec : dec.Follows fmt init)
    (hread : sourceFile.Faultless) (hwrite : destinationFile.Faultless)
    (hsource : 0 < sourceBuffer.length) (hdestination : 0 < destinationBuffer.length)
    (h : decompress dec gvl sourceBuffer.length destinationBuffer.length fuel
      ⟨handle, init, []⟩ sourceFile sourceBuffer destinationFile destinationBuffer = some x) :
    (x.1 = .ok ∧ x.2.destinationFile.written =
        destinationFile.written ++ x.2.coder.emitted ∧
      ((fmt.Complete sourceFile.unread ∧ x.2.coder.emitted = fmt.decodable sourceFile.unread) ∨
        (fmt.Open sourceFile.unread ∧ dec.Answered (dec.Feeding init) sourceFile.unread
          .needsMoreInput [] x.2.coder ∧ x.2.coder.consumed = sourceFile.unread))) ∨
    (x.1 ≠ .ok ∧ ((∃ p, p <+: sourceFile.unread ∧ p ≠ sourceFile.unread ∧ fmt.Complete p) ∨
      ∃ p, p <+: sourceFile.unread ∧ fmt.Corrupt p)) := by
  have hreading := hdec.reading sourceFile.unread
  have houtcome := decompress_outcome hreading.call (.start handle) hsource h
  cases houtcome with
  | finished hresult answered consumed written _ _ =>
      refine Or.inl ⟨rfl, written, ?_⟩
      rcases hresult with rfl | rfl
      · have hdecodes := hdec.success_answered answered
        rw [consumed] at hdecodes
        exact Or.inl ⟨hdecodes.1, hdecodes.2.symm⟩
      · exact Or.inr ⟨consumed ▸ hdec.needsInput_answered answered, answered, consumed⟩
  | remainder hext hresult hrest answered =>
      refine Or.inr ⟨by rcases hext with rfl | rfl <;> simp, Or.inl ?_⟩
      rcases hresult with rfl | rfl
      · exact ⟨_, answered.consumed_prefix, fun heq => hrest (answered.rest_nil heq),
          (hdec.success_answered answered).1⟩
      · exact absurd (answered.needsInput hreading) hrest
  | failed answered =>
      exact Or.inr ⟨(brsExtGetDecompressorError_ne _).1, Or.inr (hdec.error_answered answered)⟩
  | stalled hi hin hresult houtput =>
      exact absurd houtput (hreading.emits hdestination hi hin hresult)
  | readFailed hfault => exact absurd hread hfault
  | writeFailed hfault => exact absurd hwrite hfault

end Contracts

end Io
end RubyBrs
