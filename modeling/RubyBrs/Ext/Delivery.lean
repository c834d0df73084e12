/-
  RubyBrs.Ext.Delivery

  What `brs_ext_compress_io` and `brs_ext_decompress_io` promise about the
  destination: if they return, all that the codec emitted is on the device, and
  if a drain fails they raise `WriteIOError`.

  Inside the loops every write is checked, so a failed drain sets the error flag
  of the file only together with the result `writeIo` (`Reported`).  What the
  closing `fflush` returns is not looked at, and that is the only way in which
  the promise is broken: it is kept exactly when the drain which that call makes
  is not due to fail (`delivered_iff`).
-/

import RubyBrs.Ext.IoCompress
import RubyBrs.Ext.IoDecompress
import RubyBrs.Ext.NativeRun
import RubyBrs.Ext.Stored

namespace RubyBrs

open StreamCodec WhileTrue

variable {κ σ ω ρ : Type}

/-! ## Inside the loops -/

namespace Io

/-- The result is `writeIo`, or no drain has failed since the error flag of the
    destination was `error`. -/
def Reported (error : Bool) (x : ExtResult × Io κ) : Prop :=
  x.1 = .writeIo ∨ x.2.destinationFile.error = error

theorem writeFile_reported (f : DestinationFile) (buffer : List UInt8) (length : Nat) :
    (writeFile f buffer length).1 = .writeIo ∨ (writeFile f buffer length).2.error = f.error := by
  by_cases hnil : buffer.take length = []
  -- Nothing to write: the file is not touched, whatever is returned.
  · right
    simp only [writeFile, DestinationFile.fwrite, hnil, if_true]
    split <;> rfl
  · rcases f.fwrite_cases hnil with ⟨_, _, herror, _⟩ | ⟨hshort, _⟩
    · right
      simp only [writeFile]
      split <;> exact herror
    · left
      rw [List.length_take] at hshort
      have hne : (f.fwrite (buffer.take length)).1 ≠ length := by omega
      simp only [writeFile, if_pos hne]

variable {error : Bool} {w : Io κ}

theorem flushDestinationBuffer_reported (h : w.destinationFile.error = error) :
    Reported error w.flushDestinationBuffer := by
  unfold flushDestinationBuffer
  split
  · exact Or.inr h
  · have hwrite := writeFile_reported w.destinationFile w.destinationBuffer w.destinationLength
    rw [h] at hwrite
    dsimp only
    split
    · exact hwrite
    · rename_i hok
      rcases hwrite with hio | herror
      · exact absurd (hio ▸ hok) (by simp)
      · exact Or.inr herror

theorem writeRemainingDestination_reported (h : w.destinationFile.error = error) :
    Reported error w.writeRemainingDestination := by
  unfold writeRemainingDestination
  split
  · exact Or.inr h
  · have hwrite := writeFile_reported w.destinationFile w.destinationBuffer w.destinationLength
    rw [h] at hwrite
    exact hwrite

theorem readMoreSource_destinationFile (m : Nat) (w : Io κ) :
    (w.readMoreSource m).2.destinationFile = w.destinationFile := by
  have hcompact : w.compactSource.destinationFile = w.destinationFile := by
    unfold compactSource
    split <;> rfl
  unfold readMoreSource
  dsimp only
  split
  · exact hcompact
  · split <;> exact hcompact

/-- A result other than `writeIo` leaves the flag as it was. -/
theorem Reported.error_eq {w : Io κ} {extResult : ExtResult} (h : Reported error (extResult, w))
    (hne : extResult ≠ .writeIo) : w.destinationFile.error = error :=
  h.resolve_left hne

section Loops

variable {wrapper : Nat → Io κ → Io κ × Nat × ρ} {failure : κ → ρ → Option ExtResult}
  {again : κ → ρ → Bool} {gvl : Bool} {m n fuel : Nat} {x : ExtResult × Io κ}

/-- The same of one round of a loop, which may come back to the head. -/
def RoundReported (error : Bool) : Flow (Io κ) (ExtResult × Io κ) → Prop
  | .next w => w.destinationFile.error = error
  | .exit x => Reported error x

/-- One round of the loop around a library call. -/
theorem bufferedBody_reported
    (hwrapper : ∀ room w, (wrapper room w).1.destinationFile = w.destinationFile)
    (h : w.destinationFile.error = error) {flow : Flow (Io κ) (ExtResult × Io κ)}
    (hbody : bufferedBody wrapper failure again gvl n w = some flow) :
    RoundReported error flow := by
  have hcall := hwrapper (n - w.destinationLength) w
  simp only [bufferedBody, gvlWrap_eq] at hbody
  -- The call itself does not write; only the flush after it does.
  generalize wrapper (n - w.destinationLength) w = called at hcall hbody
  obtain ⟨v, remaining, result⟩ := called
  have hv : v.destinationFile.error = error := by
    rw [← h]
    exact congrArg _ hcall
  cases hfailure : failure v.coder result with
  | some extResult =>
      simp only [hfailure, Option.some.injEq] at hbody
      rw [← hbody]
      exact Or.inr hv
  | none =>
      simp only [hfailure] at hbody
      split at hbody
      · have hflush := flushDestinationBuffer_reported (w := { v with
          destinationLength := v.destinationLength + (n - w.destinationLength - remaining) }) hv
        split at hbody
        · rw [← Option.some.inj hbody]
          exact hflush
        · rename_i hok
          rw [← Option.some.inj hbody]
          refine hflush.resolve_left fun hio => hok ?_
          rw [hio]
          decide
      · rw [← Option.some.inj hbody]
        exact Or.inr hv

theorem bufferedLoop_reported
    (hwrapper : ∀ room w, (wrapper room w).1.destinationFile = w.destinationFile)
    (h : w.destinationFile.error = error)
    (hx : whileTrue (bufferedBody wrapper failure again gvl n) fuel w = some x) :
    Reported error x := by
  refine whileTrue_invariant (I := fun w => w.destinationFile.error = error)
    (Q := Reported error) ?_ ?_ h hx
  · intro w w' hw hbody
    exact bufferedBody_reported hwrapper hw hbody
  · intro w x hw hbody
    exact bufferedBody_reported hwrapper hw hbody

/-- So does the loop that reads the source, when its function does. -/
theorem bufferedReadSource_reported {function : Io κ → Option (ExtResult × Io κ)}
    (hfunction : ∀ w x, w.destinationFile.error = error → function w = some x → Reported error x)
    (h : w.destinationFile.error = error) (hx : bufferedReadSource function m fuel w = some x) :
    Reported error x := by
  have hread : ∀ w : Io κ, w.destinationFile.error = error →
      (w.readMoreSource m).2.destinationFile.error = error := by
    intro w hw
    rw [readMoreSource_destinationFile]
    exact hw
  refine bufferedReadSource_partial (I := fun _ w => w.destinationFile.error = error)
    (J := fun w => w.destinationFile.error = error) (Q := Reported error)
    ?_ ?_ ?_ ?_ ?_ ?_ ?_ h hx
  · intro _ w hw _
    exact hread w hw
  · intro w w' hw hf
    exact (hfunction w _ hw hf).error_eq (by decide)
  · intro w extResult w' hw hf _
    exact hfunction w _ hw hf
  · intro _ w hw _ _
    exact Or.inr (hread w hw)
  · intro w hw _ _
    exact Or.inr (hread w hw)
  · intro w x hw _ _ hf
    exact hfunction _ x (hread w hw) hf
  · intro _ w hw _ _
    exact Or.inr (hread w hw)

end Loops

/-! ## The whole functions -/

section Whole

variable {gvl : Bool} {m n fuel : Nat} {sourceFile : SourceFile} {sourceBuffer : List UInt8}
  {destinationFile : DestinationFile} {destinationBuffer : List UInt8}

theorem compress_reported {enc : Encoder σ} {coder : EncoderInstance σ}
    {x : ExtResult × Io (EncoderInstance σ)}
    (h : compress enc gvl m n fuel coder sourceFile sourceBuffer destinationFile
      destinationBuffer = some x) : Reported destinationFile.error x := by
  obtain ⟨⟨extResult, w₁⟩, hread, hx⟩ := Option.bind_eq_some_iff.mp h
  have hw₁ : Reported destinationFile.error (extResult, w₁) :=
    bufferedReadSource_reported
      (fun w x hw hf => bufferedLoop_reported (fun _ _ => rfl) hw hf) rfl hread
  dsimp only at hx
  split at hx
  · obtain rfl := Option.some.inj hx
    exact hw₁
  · rename_i hok
    obtain ⟨⟨extResult', w₂⟩, hfinish, rfl⟩ := Option.map_eq_some_iff.mp hx
    have herror : w₁.destinationFile.error = destinationFile.error :=
      hw₁.error_eq (by rintro rfl; exact hok (by decide))
    have hw₂ : Reported destinationFile.error (extResult', w₂) :=
      bufferedLoop_reported (fun _ _ => rfl) herror hfinish
    split
    · exact hw₂
    · rename_i hok'
      refine writeRemainingDestination_reported (hw₂.error_eq ?_)
      rintro rfl
      exact hok' (nomatch ·)

theorem decompress_reported {dec : Decoder σ} {coder : DecoderInstance σ}
    {x : ExtResult × Io (DecoderInstance σ)}
    (h : decompress dec gvl m n fuel coder sourceFile sourceBuffer destinationFile
      destinationBuffer = some x) : Reported destinationFile.error x := by
  obtain ⟨⟨extResult, w⟩, hread, rfl⟩ := Option.map_eq_some_iff.mp h
  have hw : Reported destinationFile.error (extResult, w) :=
    bufferedReadSource_reported
      (fun w x hw hf => bufferedLoop_reported (fun _ _ => rfl) hw hf) rfl hread
  dsimp only
  split
  · exact hw
  · rename_i hok
    refine writeRemainingDestination_reported (hw.error_eq ?_)
    rintro rfl
    exact hok (by decide)

end Whole

end Io

/-! ## The native functions -/

/-- What the caller of a file function relies on. -/
structure Delivered (destinationFile : DestinationFile) (e : IoExit (Coder UInt8 σ ω ρ)) :
    Prop where
  /-- If it returns, everything emitted is on the device, in order. -/
  returned : e.outcome = .ok () → ∃ coder f, e.coder = some coder ∧ e.destinationFile = some f ∧
    f.device = destinationFile.written ++ coder.emitted
  /-- If a drain fails, it raises `WriteIOError`. -/
  raised : ∀ f, e.destinationFile = some f → destinationFile.error = false → f.error = true →
    e.outcome = .error (brsExtRaiseError .writeIo)

/-- A function that raised before it touched the files wrote nothing. -/
theorem delivered_early {destinationFile : DestinationFile} (err : RubyError) (m : Memory) :
    Delivered destinationFile
      (IoExit.early err m (.file destinationFile) : IoExit (Coder UInt8 σ ω ρ)) where
  returned hok := nomatch hok
  raised f hf hclean hfailed := by
    obtain rfl : destinationFile = f := Option.some.inj hf
    rw [hclean] at hfailed
    cases hfailed

/-- If it comes to the closing `fflush`, the drain that this makes is not due to
    fail. -/
def IoExit.ClosesCleanly (e : IoExit κ) : Prop :=
  ∀ f, e.closing = some f → f.drainFails = false

/-- The end of a file function delivers, unless the closing flush fails. -/
theorem delivered_finish {destinationFile : DestinationFile}
    {x : ExtResult × Io (Coder UInt8 σ ω ρ)}
    (hreported : Io.Reported destinationFile.error x)
    (hwritten : x.1 = .ok →
      x.2.destinationFile.written = destinationFile.written ++ x.2.coder.emitted)
    (m : Memory) (sourceBuffer destinationBuffer : Buffer) (handle : Nat) :
    Delivered destinationFile (.finish x.1 x.2 m sourceBuffer destinationBuffer handle) ↔
      (IoExit.finish x.1 x.2 m sourceBuffer destinationBuffer handle).ClosesCleanly := by
  obtain ⟨extResult, w⟩ := x
  by_cases hok : extResult = .ok
  · subst hok
    have hall : w.destinationFile.written = destinationFile.written ++ w.coder.emitted :=
      hwritten rfl
    have hclean : w.destinationFile.error = destinationFile.error :=
      hreported.error_eq (by decide)
    -- It returns, and what the flush does decides.
    rcases w.destinationFile.fflush_cases with
      ⟨hdrain, -, hdevice, herror⟩ | ⟨hdrain, -, hdevice, -⟩
    · refine iff_of_true ⟨fun _ => ⟨w.coder, _, rfl, rfl, hdevice.trans hall⟩, ?_⟩ ?_
      · intro f hf hfalse hfailed
        obtain rfl : w.destinationFile.fflush.2 = f := Option.some.inj hf
        rw [herror, hclean, hfalse] at hfailed
        cases hfailed
      · intro f hf
        obtain rfl : w.destinationFile = f := Option.some.inj hf
        exact hdrain
    · refine iff_of_false (fun hdelivered => ?_) (fun hcloses => ?_)
      · -- Something that was written is not on the device.
        obtain ⟨coder, f, hcoder, hf, hdelivered⟩ := hdelivered.returned rfl
        obtain rfl : w.coder = coder := Option.some.inj hcoder
        obtain rfl : w.destinationFile.fflush.2 = f := Option.some.inj hf
        exact hdevice (hdelivered.trans hall.symm)
      · have hnot := hcloses w.destinationFile rfl
        rw [hdrain] at hnot
        cases hnot
  · have hraised : IoExit.finish extResult w m sourceBuffer destinationBuffer handle =
        { outcome := .error (brsExtRaiseError extResult)
          memory := ((m.release sourceBuffer.handle).release destinationBuffer.handle).release
            handle
          coder := some w.coder
          destinationFile := some w.destinationFile
          closing := none } := by
      simp only [IoExit.finish, ne_eq, hok, not_false_eq_true, if_true]
    show Delivered destinationFile (.finish extResult w m sourceBuffer destinationBuffer handle) ↔
      (IoExit.finish extResult w m sourceBuffer destinationBuffer handle).ClosesCleanly
    rw [hraised]
    refine iff_of_true ⟨fun hreturned => (by cases hreturned), ?_⟩
      fun f hf => (by cases hf)
    intro f hf hfalse hfailed
    obtain rfl : w.destinationFile = f := Option.some.inj hf
    -- It raised; if a drain failed, then with `writeIo`.
    rcases hreported with hio | herror
    · obtain rfl : extResult = .writeIo := hio
      rfl
    · rw [herror, hfalse] at hfailed
      cases hfailed

/-- In every run, of any codec and with any faults, the two file functions deliver
    exactly when the drain of their closing flush is not due to fail. -/
theorem delivered_iff {m : Memory} {fuel : Nat} {source : FileArgument SourceFile}
    {destinationFile : DestinationFile} {options : Argument} :
    (∀ {enc : Encoder σ} {e}, brsExtCompressIo enc fuel m source (.file destinationFile) options =
      some e → (Delivered destinationFile e ↔ e.ClosesCleanly)) ∧
    (∀ {dec : Decoder σ} {e}, brsExtDecompressIo dec fuel m source (.file destinationFile)
      options = some e → (Delivered destinationFile e ↔ e.ClosesCleanly)) := by
  constructor
  · intro enc e h
    rcases ioCall_cases (by decide) (by decide) h with ⟨err, m', rfl⟩ | ⟨p, ⟨r, w⟩, hrun, rfl⟩
    · exact iff_of_true (delivered_early err m') fun f hf => (by cases hf)
    · have hfile : destinationFile = p.destinationFile := FileArgument.file.inj p.destination_eq
      have hreported := Io.compress_reported hrun
      rw [← hfile] at hreported
      refine delivered_finish hreported ?_ _ _ _ _
      rintro rfl
      rw [hfile]
      exact (Io.compress_ok hrun).2.1
  · intro dec e h
    rcases ioCall_cases (by decide) (by decide) h with ⟨err, m', rfl⟩ | ⟨p, x, hrun, rfl⟩
    · exact iff_of_true (delivered_early err m') fun f hf => (by cases hf)
    · have hfile : destinationFile = p.destinationFile := FileArgument.file.inj p.destination_eq
      have hreported := Io.decompress_reported hrun
      rw [← hfile] at hreported
      refine delivered_finish hreported (fun hok => ?_) _ _ _ _
      have houtcome := Io.decompress_outcome (S := fun _ => True) (fun _ _ _ _ => trivial)
        trivial p.sourceBuffer_pos hrun
      obtain ⟨_, _, _, _, hwritten⟩ := houtcome.returned hok
      rw [hfile]
      exact hwritten

/-- An empty file compressed to a file on which nothing fails. -/
theorem delivered_emptyFile :
    ∃ e, brsExtCompressIo storedEncoder 3 .unused (.file (.opened [] [])) (.file (.opened []))
        (.hash oneByteOptions) = some e ∧
      Delivered (.opened []) e := by
  obtain ⟨e, he, hclosing⟩ : ∃ e, brsExtCompressIo storedEncoder 3 .unused
      (.file (.opened [] [])) (.file (.opened [])) (.hash oneByteOptions) = some e ∧
        e.closing.map DestinationFile.drainFails = some false := ⟨_, rfl, rfl⟩
  refine ⟨e, he, (delivered_iff.1 he).mpr fun f hf => ?_⟩
  rw [hf] at hclosing
  exact Option.some.inj hclosing

/-- An empty file compressed to a full disk: the one byte of the stream never
    leaves the buffer of the file, and the function returns. -/
theorem not_delivered_fullDisk :
    ∃ e, brsExtCompressIo storedEncoder 3 .unused (.file (.opened [] []))
        (.file (.opened [.success 0, .failure 0 0])) (.hash oneByteOptions) = some e ∧
      e.outcome = .ok () ∧ e.coder.map Coder.emitted = some [0x3b] ∧
      e.destinationFile.map DestinationFile.device = some [] ∧
      ¬ Delivered (.opened [.success 0, .failure 0 0]) e := by
  refine ⟨_, rfl, rfl, rfl, rfl, fun hdelivered => ?_⟩
  obtain ⟨coder, f, hcoder, hf, hdevice⟩ := hdelivered.returned rfl
  obtain rfl := Option.some.inj hcoder
  obtain rfl := Option.some.inj hf
  cases hdevice

end RubyBrs
