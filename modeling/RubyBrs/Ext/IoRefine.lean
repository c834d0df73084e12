/-
  RubyBrs.Ext.IoRefine

  What the helpers of `io.c` do to the data, once the buffers are forgotten.

  `Io.view` maps the variables to a `Pipe`: what is still to be offered is the
  source window followed by the unread part of the file, what was taken away is
  what was written followed by the filled part of the destination buffer.
  Reading more source and flushing leave the view as it is; a library call is
  `Pipe.feed`.  Each helper has one lemma with all of its outcomes, and the two
  loops have their rules, so nothing after this file unfolds them.
-/

import RubyBrs.Ext.Io

namespace RubyBrs
namespace Io

open StreamCodec WhileTrue Window

variable {κ σ ω ρ : Type} {m n : Nat}

/-- The cursors lie inside the buffers, whose lengths are `m` and `n`. -/
structure WellFormed (m n : Nat) (w : Io κ) : Prop where
  source_fits : w.source + w.sourceLength ≤ m
  sourceBuffer_length : w.sourceBuffer.length = m
  destination_fits : w.destinationLength ≤ n
  destinationBuffer_length : w.destinationBuffer.length = n

/-- The pipe that the variables implement. -/
def view (w : Io (Coder UInt8 σ ω ρ)) : Pipe UInt8 σ ω ρ :=
  { coder := w.coder
    pending := w.sourceWindow ++ w.sourceFile.unread
    delivered := w.destinationFile.written ++ w.destinationBuffer.take w.destinationLength }

theorem WellFormed.sourceWindow_length {w : Io κ} (hw : w.WellFormed m n) :
    w.sourceWindow.length = w.sourceLength :=
  window_length (by rw [hw.sourceBuffer_length]; exact hw.source_fits)

theorem WellFormed.sourceWindow_eq_nil {w : Io κ} (hw : w.WellFormed m n) :
    w.sourceWindow = [] ↔ w.sourceLength = 0 := by
  rw [← hw.sourceWindow_length]
  exact List.length_eq_zero_iff.symm

/-! ## Reading more source -/

/-- Moving the remaining source to the top keeps it, whatever the overlap. -/
theorem compactSource_spec {w : Io κ} (hw : w.WellFormed m n) :
    w.compactSource.WellFormed m n ∧ w.compactSource.source = 0 ∧
      w.compactSource.sourceWindow = w.sourceWindow ∧
      w.compactSource = { w with sourceBuffer := w.compactSource.sourceBuffer, source := 0 } := by
  have hfits : w.source + w.sourceLength ≤ w.sourceBuffer.length := by
    rw [hw.sourceBuffer_length]; exact hw.source_fits
  by_cases hs : w.source = 0
  -- The source is at the top already.
  · have heq : w.compactSource = w := by simp [compactSource, hs]
    rw [heq]
    refine ⟨hw, hs, rfl, ?_⟩
    rw [← hs]
  · by_cases hl : w.sourceLength = 0
    -- Nothing remains, so only the cursor moves.
    · have heq : w.compactSource = { w with source := 0 } := by simp [compactSource, hs, hl]
      rw [heq]
      refine ⟨⟨?_, hw.sourceBuffer_length, hw.destination_fits, hw.destinationBuffer_length⟩,
        rfl, ?_, rfl⟩
      · show 0 + w.sourceLength ≤ m
        omega
      · simp only [sourceWindow, hl, window_zero_len]
    -- The regions may overlap, which is why the code calls `memmove`.
    · have heq : w.compactSource =
          { w with
            sourceBuffer := memmove w.sourceBuffer 0 w.source w.sourceLength, source := 0 } := by
        simp [compactSource, hs, hl]
      rw [heq]
      refine ⟨⟨?_, ?_, hw.destination_fits, hw.destinationBuffer_length⟩, rfl,
        window_memmove hfits, rfl⟩
      · show 0 + w.sourceLength ≤ m
        have := hw.source_fits
        omega
      · exact (memmove_length hfits (by omega)).trans hw.sourceBuffer_length

/-- The four ways a read ends; the end of the file is told from an error, and
    success means at least one byte. -/
theorem readFile_cases (f : SourceFile) {k : Nat} (hk : 0 < k) :
    ((readFile f k).1 = .ok ∧ (readFile f k).2.1 ≠ [] ∧ (readFile f k).2.1.length ≤ k ∧
      f.unread = (readFile f k).2.1 ++ (readFile f k).2.2.unread ∧
      (readFile f k).2.2.error = f.error ∧ (f.Faultless → (readFile f k).2.2.Faultless)) ∨
    ((readFile f k).1 = .fileReadFinished ∧ (readFile f k).2.1 = [] ∧ f.unread = [] ∧
      (readFile f k).2.2.unread = [] ∧ (readFile f k).2.2.error = f.error ∧
      (f.Faultless → (readFile f k).2.2.Faultless)) ∨
    ((readFile f k).1 = .readIo ∧ (readFile f k).2.1.length ≤ k ∧
      (readFile f k).2.2.error = true ∧ ¬ f.Faultless) := by
  have hfaultless : f.Faultless → (f.fread k).2.Faultless := fun h => h.fread hk
  have hread : readFile f k =
      (if (f.fread k).1.length = 0 ∧ (f.fread k).2.eof = true then
          (.fileReadFinished, (f.fread k).1, (f.fread k).2)
        else if (f.fread k).1.length ≠ k ∧ (f.fread k).2.error = true then
          (.readIo, (f.fread k).1, (f.fread k).2)
        else (.ok, (f.fread k).1, (f.fread k).2)) := rfl
  have hle := f.fread_length_le hk
  have hcat := f.fread_unread k
  rcases f.fread_cases hk with ⟨heof, hf⟩ | ⟨_, hshort, heof', herr, hmem, _⟩ |
      ⟨_, hbytes, hrest, heof', herr, _⟩
  · -- The end was seen before.
    right; left
    rw [hread, hf]
    simp [heof, f.eof_atEnd heof]
  · -- The read failed: short, with the error flag set and the end not seen.
    right; right
    rw [hread, if_neg (by rw [heof']; simp), if_pos ⟨by omega, herr⟩]
    refine ⟨rfl, hle, herr, fun hfl => ?_⟩
    obtain ⟨after, hafter⟩ := hmem
    exact absurd (hfl.2 _ hafter) (by simp)
  -- The read succeeded; it found the end of the file, or some bytes.
  · by_cases hend : f.unread = []
    · right; left
      have hnil : (f.fread k).1 = [] := by rw [hbytes, hend, List.take_nil]
      rw [hread, if_pos ⟨by rw [hnil]; rfl, by rw [heof', hend]; simpa using hk⟩]
      exact ⟨rfl, hnil, hend, by rw [hrest, hend, List.drop_nil], herr, hfaultless⟩
    · have hpos : 0 < f.unread.length := List.length_pos_iff.mpr hend
      have hlen : (f.fread k).1.length = min k f.unread.length := by
        rw [hbytes, List.length_take]
      have hne : (f.fread k).1 ≠ [] := by
        intro hnil
        rw [hnil, List.length_nil] at hlen
        omega
      have hnotend : ¬ ((f.fread k).1.length = 0 ∧ (f.fread k).2.eof = true) := by
        rintro ⟨h0, _⟩
        exact hne (List.length_eq_zero_iff.mp h0)
      by_cases hstale : (f.fread k).1.length ≠ k ∧ (f.fread k).2.error = true
      · -- A short read at the end of a file whose error flag was set before.
        right; right
        rw [hread, if_neg hnotend, if_pos hstale]
        refine ⟨rfl, hle, hstale.2, fun hfl => ?_⟩
        rw [herr, hfl.1] at hstale
        exact Bool.noConfusion hstale.2
      · left
        rw [hread, if_neg hnotend, if_neg hstale]
        exact ⟨rfl, hne, hle, hcat.symm, herr, hfaultless⟩

/-- What `read_more_source` leaves as it was, in every case. -/
structure ReadFrame (m n : Nat) (w w' : Io κ) : Prop where
  wellFormed : w'.WellFormed m n
  coder : w'.coder = w.coder
  source : w'.source = 0
  destinationFile : w'.destinationFile = w.destinationFile
  destinationBuffer : w'.destinationBuffer = w.destinationBuffer
  destinationLength : w'.destinationLength = w.destinationLength

/-- What `read_more_source` comes to: the unread bytes stay in order at the top of the
    buffer, followed by the bytes read, if any. -/
inductive ReadStep (m : Nat) (w w' : Io κ) (extResult : ExtResult) : Prop
  | read {bytes : List UInt8} (hr : extResult = .ok) (hne : bytes ≠ [])
      (hwindow : w'.sourceWindow = w.sourceWindow ++ bytes)
      (hlength : w'.sourceLength = w.sourceLength + bytes.length)
      (hunread : w.sourceFile.unread = bytes ++ w'.sourceFile.unread)
      (herror : w'.sourceFile.error = w.sourceFile.error)
      (hfaultless : w.sourceFile.Faultless → w'.sourceFile.Faultless)
  | full (hr : extResult = .notEnoughSourceBuffer) (hwindow : w'.sourceWindow = w.sourceWindow)
      (hlength : w'.sourceLength = w.sourceLength) (hfull : w.sourceLength = m)
      (hfile : w'.sourceFile = w.sourceFile)
  | finished (hr : extResult = .fileReadFinished) (hwindow : w'.sourceWindow = w.sourceWindow)
      (hlength : w'.sourceLength = w.sourceLength) (hunread : w.sourceFile.unread = [])
      (hunread' : w'.sourceFile.unread = [])
      (herror : w'.sourceFile.error = w.sourceFile.error)
      (hfaultless : w.sourceFile.Faultless → w'.sourceFile.Faultless)
  | failed (hr : extResult = .readIo) (hwindow : w'.sourceWindow = w.sourceWindow)
      (hlength : w'.sourceLength = w.sourceLength) (herror : w'.sourceFile.error = true)
      (hfault : ¬ w.sourceFile.Faultless)

theorem readMoreSource_cases {w : Io κ} (hw : w.WellFormed m n) :
    ReadFrame m n w (w.readMoreSource m).2 ∧
      ReadStep m w (w.readMoreSource m).2 (w.readMoreSource m).1 := by
  obtain ⟨hc, hsource, hwin, heq⟩ := compactSource_spec hw
  generalize w.compactSource.sourceBuffer = buffer at heq
  have hbuffer : buffer.length = m := by
    have := hc.sourceBuffer_length
    rwa [heq] at this
  have hwin' : window buffer 0 w.sourceLength = w.sourceWindow := by
    rw [← hwin, heq]; rfl
  have hfits : w.sourceLength ≤ m := by
    have := hw.source_fits
    omega
  -- A full buffer is refused before the file is touched.
  by_cases hfull : m - w.sourceLength = 0
  · have hread : w.readMoreSource m =
        (.notEnoughSourceBuffer, { w with sourceBuffer := buffer, source := 0 }) := by
      simp only [readMoreSource, heq, hfull, if_true]
    rw [hread]
    refine ⟨⟨⟨?_, hbuffer, hw.destination_fits, hw.destinationBuffer_length⟩,
      rfl, rfl, rfl, rfl, rfl⟩, .full rfl hwin' rfl (by omega) rfl⟩
    show 0 + w.sourceLength ≤ m
    omega
  · have hpos : 0 < m - w.sourceLength := by omega
    have hread : w.readMoreSource m =
        (if (readFile w.sourceFile (m - w.sourceLength)).1 ≠ .ok then
          ((readFile w.sourceFile (m - w.sourceLength)).1,
            { w with
              source := 0
              sourceFile := (readFile w.sourceFile (m - w.sourceLength)).2.2
              sourceBuffer := overwrite buffer w.sourceLength
                (readFile w.sourceFile (m - w.sourceLength)).2.1 })
        else
          (.ok,
            { w with
              source := 0
              sourceFile := (readFile w.sourceFile (m - w.sourceLength)).2.2
              sourceBuffer := overwrite buffer w.sourceLength
                (readFile w.sourceFile (m - w.sourceLength)).2.1
              sourceLength := w.sourceLength +
                (readFile w.sourceFile (m - w.sourceLength)).2.1.length })) := by
      simp only [readMoreSource, heq, hfull, if_false]
    have hwritten : ∀ bytes : List UInt8, bytes.length ≤ m - w.sourceLength →
        (overwrite buffer w.sourceLength bytes).length = m := fun bytes hle =>
      (overwrite_length (by omega)).trans hbuffer
    have hleft : ∀ bytes : List UInt8,
        window (overwrite buffer w.sourceLength bytes) 0 w.sourceLength = w.sourceWindow :=
      fun bytes => (window_overwrite_left (by omega) (by omega)).trans hwin'
    rw [hread]
    rcases readFile_cases w.sourceFile hpos with
      ⟨hr, hne, hle, hun, herr, hfl⟩ | ⟨hr, hnil, hun, hun', herr, hfl⟩ | ⟨hr, hle, herr, hnfl⟩
    -- Some bytes were read: they follow the window.
    · rw [hr, if_neg (by simp)]
      refine ⟨⟨⟨?_, hwritten _ hle, hw.destination_fits, hw.destinationBuffer_length⟩,
        rfl, rfl, rfl, rfl, rfl⟩, .read rfl hne ?_ rfl hun herr hfl⟩
      · show 0 + (w.sourceLength + _) ≤ m
        omega
      · rw [← hwin']
        exact window_overwrite_append (by omega)
    -- The file is finished: the buffer is as it was.
    · rw [hr, if_pos (by simp)]
      refine ⟨⟨⟨?_, hwritten _ (by rw [hnil]; exact Nat.zero_le _), hw.destination_fits,
        hw.destinationBuffer_length⟩, rfl, rfl, rfl, rfl, rfl⟩,
        .finished rfl (hleft _) rfl hun hun' herr hfl⟩
      show 0 + w.sourceLength ≤ m
      omega
    -- The read failed: what it stored lies after the window and is not counted.
    · rw [hr, if_pos (by simp)]
      refine ⟨⟨⟨?_, hwritten _ hle, hw.destination_fits, hw.destinationBuffer_length⟩,
        rfl, rfl, rfl, rfl, rfl⟩, .failed rfl (hleft _) rfl herr hnfl⟩
      show 0 + w.sourceLength ≤ m
      omega

/-- A full buffer is refused. -/
theorem readMoreSource_full {w : Io κ} (hfull : w.sourceLength = m) :
    (w.readMoreSource m).1 = .notEnoughSourceBuffer := by
  have hlength : w.compactSource.sourceLength = w.sourceLength := by
    unfold compactSource
    split <;> rfl
  have hnone : m - w.compactSource.sourceLength = 0 := by omega
  simp only [readMoreSource, hnone, if_true]

/-- At the end of the file the window stays, and nothing is left to read. -/
theorem readMoreSource_finished {w : Io κ} (hw : w.WellFormed m n)
    (hr : (w.readMoreSource m).1 = .fileReadFinished) :
    (w.readMoreSource m).2.sourceWindow = w.sourceWindow ∧
      (w.readMoreSource m).2.sourceLength = w.sourceLength ∧
      (w.readMoreSource m).2.sourceFile.unread = [] := by
  cases (readMoreSource_cases hw).2 with
  | finished _ hwindow hlength _ hunread => exact ⟨hwindow, hlength, hunread⟩
  | read hok => cases hr.symm.trans hok
  | full hfull => cases hr.symm.trans hfull
  | failed hio => cases hr.symm.trans hio

/-- Reading more source leaves the view as it is, unless the read failed. -/
theorem view_readMoreSource {w : Io (Coder UInt8 σ ω ρ)} (hw : w.WellFormed m n)
    (hr : (w.readMoreSource m).1 ≠ .readIo) : (w.readMoreSource m).2.view = w.view := by
  obtain ⟨hframe, hcases⟩ := readMoreSource_cases hw
  have hpending : (w.readMoreSource m).2.sourceWindow ++ (w.readMoreSource m).2.sourceFile.unread =
      w.sourceWindow ++ w.sourceFile.unread := by
    cases hcases with
    | read _ _ hwindow _ hunread => rw [hwindow, hunread, List.append_assoc]
    | full _ hwindow _ _ hfile => rw [hwindow, hfile]
    | finished _ hwindow _ hunread hunread' => rw [hwindow, hunread, hunread']
    | failed hio => exact absurd hio hr
  simp only [view, hframe.coder, hframe.destinationFile, hframe.destinationBuffer,
    hframe.destinationLength, hpending]

/-! ## Writing -/

/-- The two ways a write of something ends. -/
theorem writeFile_cases (f : DestinationFile) {buffer : List UInt8} {k : Nat} (hk : k ≠ 0)
    (hfits : k ≤ buffer.length) :
    ((writeFile f buffer k).1 = .ok ∧
      (writeFile f buffer k).2.written = f.written ++ buffer.take k ∧
      (writeFile f buffer k).2.error = f.error ∧
      (f.Faultless → (writeFile f buffer k).2.Faultless)) ∨
    ((writeFile f buffer k).1 = .writeIo ∧ (writeFile f buffer k).2.error = true ∧
      ¬ f.Faultless) := by
  have hlen : (buffer.take k).length = k := by rw [List.length_take]; omega
  have hne : buffer.take k ≠ [] := by
    intro hnil
    rw [hnil, List.length_nil] at hlen
    omega
  have hwrite : writeFile f buffer k =
      (if (f.fwrite (buffer.take k)).1 ≠ k then (.writeIo, (f.fwrite (buffer.take k)).2)
        else (.ok, (f.fwrite (buffer.take k)).2)) := rfl
  rcases f.fwrite_cases hne with ⟨hcount, hwritten, herr, _⟩ | ⟨hshort, herr, a, d, hmem⟩
  -- Everything was taken.
  · left
    rw [hwrite, if_neg (by rw [hcount, hlen]; simp)]
    exact ⟨rfl, hwritten, herr, fun hf => (hf.fwrite hne).2.2⟩
  -- The write was short, which only a scheduled fault causes.
  · right
    rw [hwrite, if_pos (by omega)]
    refine ⟨rfl, herr, fun hf => ?_⟩
    obtain ⟨drained, hd⟩ := hf.2 _ hmem
    cases hd

/-- The three ways a flush ends: nothing to flush, a failed write, or all of the
    filled part written. -/
theorem flushDestinationBuffer_cases {w : Io κ} (hw : w.WellFormed m n) :
    (w.destinationLength = 0 ∧ w.flushDestinationBuffer = (.notEnoughDestinationBuffer, w)) ∨
    (w.destinationLength ≠ 0 ∧ ∃ f, w.flushDestinationBuffer =
        (.writeIo, { w with destinationFile := f }) ∧ f.error = true ∧
        ¬ w.destinationFile.Faultless) ∨
    (w.destinationLength ≠ 0 ∧ ∃ f, w.flushDestinationBuffer =
        (.ok, { w with destinationFile := f, destinationLength := 0 }) ∧
        f.written = w.destinationFile.written ++ w.destinationBuffer.take w.destinationLength ∧
        f.error = w.destinationFile.error ∧ (w.destinationFile.Faultless → f.Faultless)) := by
  by_cases hd : w.destinationLength = 0
  · left
    exact ⟨hd, by simp [flushDestinationBuffer, hd]⟩
  · right
    have hfits : w.destinationLength ≤ w.destinationBuffer.length := by
      rw [hw.destinationBuffer_length]; exact hw.destination_fits
    rcases writeFile_cases w.destinationFile hd hfits with ⟨hr, hwr, herr, hfl⟩ | ⟨hr, herr, hfl⟩
    · right
      refine ⟨hd, _, ?_, hwr, herr, hfl⟩
      simp only [flushDestinationBuffer, hd, if_false, hr, ne_eq, not_true_eq_false]
    · left
      refine ⟨hd, _, ?_, herr, hfl⟩
      simp only [flushDestinationBuffer, hd, if_false, hr, ne_eq, reduceCtorEq,
        not_false_eq_true, if_true]

/-- The remaining part is written like a flush, but an empty one is no error. -/
theorem writeRemainingDestination_cases {w : Io κ} (hw : w.WellFormed m n) :
    (∃ f, (w.writeRemainingDestination) = (.ok, { w with destinationFile := f }) ∧
        f.written = w.destinationFile.written ++ w.destinationBuffer.take w.destinationLength ∧
        f.error = w.destinationFile.error ∧ (w.destinationFile.Faultless → f.Faultless)) ∨
    (∃ f, w.writeRemainingDestination = (.writeIo, { w with destinationFile := f }) ∧
        f.error = true ∧ ¬ w.destinationFile.Faultless) := by
  by_cases hd : w.destinationLength = 0
  · left
    exact ⟨w.destinationFile, by rw [writeRemainingDestination, if_pos hd], by simp [hd], rfl, id⟩
  · have hfits : w.destinationLength ≤ w.destinationBuffer.length := by
      rw [hw.destinationBuffer_length]; exact hw.destination_fits
    have heq : w.writeRemainingDestination =
        ((writeFile w.destinationFile w.destinationBuffer w.destinationLength).1,
          { w with destinationFile :=
              (writeFile w.destinationFile w.destinationBuffer w.destinationLength).2 }) := by
      simp [writeRemainingDestination, hd]
    rcases writeFile_cases w.destinationFile hd hfits with ⟨hr, hwr, herr, hfl⟩ | ⟨hr, herr, hfl⟩
    · left
      exact ⟨_, by rw [heq, hr], hwr, herr, hfl⟩
    · right
      exact ⟨_, by rw [heq, hr], herr, hfl⟩

/-- Flushing leaves the view as it is. -/
theorem view_flushed (w : Io (Coder UInt8 σ ω ρ)) {f : DestinationFile}
    (hf : f.written = w.destinationFile.written ++ w.destinationBuffer.take w.destinationLength) :
    view { w with destinationFile := f, destinationLength := 0 } = w.view := by
  simp only [view, hf, List.take_zero, List.append_nil, sourceWindow]

/-! ## Library calls -/

section Streamed

variable (codec : Codec UInt8 σ ω ρ) (operation : ω) (offered n : Nat)

/-- The answer to a call on the first `offered` bytes of the source and all of
    the remaining destination buffer. -/
def streamAnswer (w : Io (Coder UInt8 σ ω ρ)) : Answer UInt8 σ ρ :=
  codec.stream w.coder.state operation (w.sourceWindow.take offered) (n - w.destinationLength)

/-- The variables after such a call, with the destination length updated. -/
def streamed (w : Io (Coder UInt8 σ ω ρ)) : Io (Coder UInt8 σ ω ρ) :=
  let answer := streamAnswer codec operation offered n w
  { w with
    coder := codec.call w.coder operation (w.sourceWindow.take offered)
      (n - w.destinationLength)
    source := w.source + answer.consumed
    sourceLength := w.sourceLength - answer.consumed
    destinationBuffer := overwrite w.destinationBuffer w.destinationLength answer.output
    destinationLength := w.destinationLength + answer.output.length }

/-- A call takes no more than it is offered. -/
theorem streamAnswer_consumed_le {m : Nat} {w : Io (Coder UInt8 σ ω ρ)}
    (hw : w.WellFormed m n) (hoff : offered ≤ w.sourceLength) :
    (streamAnswer codec operation offered n w).consumed ≤ offered := by
  have h := codec.consumed_le w.coder.state operation (w.sourceWindow.take offered)
    (n - w.destinationLength)
  rwa [List.length_take, hw.sourceWindow_length, Nat.min_eq_left hoff] at h

/-- A call gives back no more than there is room for. -/
theorem streamAnswer_output_le (w : Io (Coder UInt8 σ ω ρ)) :
    (streamAnswer codec operation offered n w).output.length ≤ n - w.destinationLength :=
  codec.output_le _ _ _ _

variable {codec operation offered n}

theorem window_offered {w : Io (Coder UInt8 σ ω ρ)} (hoff : offered ≤ w.sourceLength) :
    window w.sourceBuffer w.source offered = w.sourceWindow.take offered := by
  rw [sourceWindow, window, window, List.take_take, Nat.min_eq_left hoff]

theorem streamed_wellFormed {w : Io (Coder UInt8 σ ω ρ)} (hw : w.WellFormed m n)
    (hoff : offered ≤ w.sourceLength) :
    (streamed codec operation offered n w).WellFormed m n := by
  have hk := streamAnswer_consumed_le codec operation offered n hw hoff
  have ho := streamAnswer_output_le codec operation offered n w
  have hs := hw.source_fits
  have hd := hw.destination_fits
  refine ⟨?_, hw.sourceBuffer_length, ?_, ?_⟩
  · simp only [streamed]
    omega
  · simp only [streamed]
    omega
  · simp only [streamed]
    rw [overwrite_length (by rw [hw.destinationBuffer_length]; omega)]
    exact hw.destinationBuffer_length

/-- The new source window is what the call left of the old one. -/
theorem streamed_sourceWindow (w : Io (Coder UInt8 σ ω ρ)) :
    (streamed codec operation offered n w).sourceWindow =
      w.sourceWindow.drop (streamAnswer codec operation offered n w).consumed := by
  simp only [streamed, sourceWindow, window_drop]

/-- A library call is one feed of the pipe. -/
theorem view_streamed {w : Io (Coder UInt8 σ ω ρ)} (hw : w.WellFormed m n)
    (hoff : offered ≤ w.sourceLength) :
    (streamed codec operation offered n w).view =
      w.view.feed codec operation offered (n - w.destinationLength) := by
  have hlen := hw.sourceWindow_length
  have hk := streamAnswer_consumed_le codec operation offered n hw hoff
  -- The call sees only the window, never the part of the file behind it.
  have htake : (w.sourceWindow ++ w.sourceFile.unread).take offered =
      w.sourceWindow.take offered := List.take_append_of_le_length (by omega)
  have hpending : (streamed codec operation offered n w).sourceWindow ++ w.sourceFile.unread =
      (w.sourceWindow ++ w.sourceFile.unread).drop
        (streamAnswer codec operation offered n w).consumed := by
    rw [streamed_sourceWindow, List.drop_append_of_le_length (by omega)]
  have hfilled : (streamed codec operation offered n w).destinationBuffer.take
        (streamed codec operation offered n w).destinationLength =
      w.destinationBuffer.take w.destinationLength ++
        (streamAnswer codec operation offered n w).output :=
    take_overwrite (by rw [hw.destinationBuffer_length]; exact hw.destination_fits)
  simp only [view, Pipe.feed, htake, hfilled]
  simp only [streamAnswer] at hpending ⊢
  rw [List.append_assoc, ← hpending]
  rfl

end Streamed

end Io
end RubyBrs
