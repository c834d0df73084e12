/-
  RubyBrs.Ext.IoLossless

  Nothing is lost between the two files and the codec, whatever the codec does
  and whatever becomes of the reads and writes.

  `MoreSource` is the law of `read_more_source`, for any window of unread bytes.
  `Lossless` says that a run that returned without an error has met no fault and has
  lost nothing, and otherwise tells the fault; `IoFaults` has what becomes of a fault in
  a run that the codec keeps going.
-/

import RubyBrs.Ext.FormatDecoder
import RubyBrs.Ext.IoCompress
import RubyBrs.Ext.IoDecompress
import RubyBrs.Ext.IoFaults

namespace RubyBrs
namespace Io

open StreamCodec WhileTrue

variable {κ σ τ : Type}

/-! ## Reading more source -/

/-- What `read_more_source`, called with the variables `w`, returns and leaves. -/
structure MoreSource (w : Io κ) (x : ExtResult × Io κ) : Prop where
  result : x.1 = .ok ∨ x.1 = .fileReadFinished ∨ x.1 = .readIo ∨ x.1 = .notEnoughSourceBuffer
  source : x.2.source = 0
  source_fits : x.2.sourceLength ≤ w.sourceBuffer.length
  sourceBuffer_length : x.2.sourceBuffer.length = w.sourceBuffer.length
  window_kept : x.2.sourceWindow.take w.sourceLength = w.sourceWindow
  length_kept : x.1 ≠ .ok → x.2.sourceLength = w.sourceLength
  appended : x.1 = .ok → ∃ bytes : List UInt8, 1 ≤ bytes.length ∧
    bytes.length ≤ w.sourceBuffer.length - w.sourceLength ∧
    x.2.sourceLength = w.sourceLength + bytes.length ∧
    x.2.sourceWindow = w.sourceWindow ++ bytes ∧
    w.sourceFile.unread = bytes ++ x.2.sourceFile.unread
  full : x.1 = .notEnoughSourceBuffer ↔ w.sourceLength = w.sourceBuffer.length
  full_untouched : x.1 = .notEnoughSourceBuffer → x.2.sourceFile = w.sourceFile

/-- The destination plays no part in it. -/
theorem readMoreSource_destination (m : Nat) (w : Io κ) (buffer : List UInt8) (length : Nat) :
    ({ w with destinationBuffer := buffer, destinationLength := length }).readMoreSource m =
      ((w.readMoreSource m).1,
        { (w.readMoreSource m).2 with
          destinationBuffer := buffer, destinationLength := length }) := by
  have hcompact :
      ({ w with destinationBuffer := buffer, destinationLength := length }).compactSource =
        { w.compactSource with destinationBuffer := buffer, destinationLength := length } := by
    unfold compactSource
    split <;> rfl
  unfold readMoreSource
  rw [hcompact]
  simp only
  split
  · rfl
  · split <;> rfl

/-- `read_more_source` never loses or reorders unread bytes, whether it succeeds
    or not: for every unread window, at any offset, and every outcome of the
    read. -/
theorem readMoreSource_keeps {w : Io κ}
    (hfits : w.source + w.sourceLength ≤ w.sourceBuffer.length) :
    MoreSource w (w.readMoreSource w.sourceBuffer.length) := by
  generalize hm : w.sourceBuffer.length = m at hfits
  have hw : ({ w with destinationBuffer := [], destinationLength := 0 } : Io κ).WellFormed m 0 :=
    ⟨hfits, hm, le_refl 0, rfl⟩
  obtain ⟨hframe, hcases⟩ := readMoreSource_cases hw
  rw [readMoreSource_destination] at hframe hcases
  obtain ⟨hwf, -, hsource, -⟩ := hframe
  have hsource : (w.readMoreSource m).2.source = 0 := hsource
  have hlength : (w.readMoreSource m).2.sourceBuffer.length = m := hwf.sourceBuffer_length
  have hfits' : (w.readMoreSource m).2.sourceLength ≤ m := by
    have : (w.readMoreSource m).2.source + (w.readMoreSource m).2.sourceLength ≤ m :=
      hwf.source_fits
    omega
  have hwindow : w.sourceWindow.length = w.sourceLength := hw.sourceWindow_length
  have hfull : (w.readMoreSource m).1 = .notEnoughSourceBuffer ↔ w.sourceLength = m := by
    refine ⟨fun h => ?_, readMoreSource_full⟩
    cases hcases with
    | full _ _ _ hfull => exact hfull
    | read hr => cases hr.symm.trans h
    | finished hr => cases hr.symm.trans h
    | failed hr => cases hr.symm.trans h
  -- When nothing was added, the window is the old one.
  have hself : w.sourceWindow.take w.sourceLength = w.sourceWindow := by
    rw [← hwindow, List.take_length]
  have hlater : ∀ result, (w.readMoreSource m).1 = result → result ≠ .ok →
      (result = .fileReadFinished ∨ result = .readIo ∨ result = .notEnoughSourceBuffer) →
      (w.readMoreSource m).2.sourceWindow = w.sourceWindow →
      (w.readMoreSource m).2.sourceLength = w.sourceLength →
      (result = .notEnoughSourceBuffer → (w.readMoreSource m).2.sourceFile = w.sourceFile) →
      MoreSource w (w.readMoreSource m) := by
    intro result hr hne hresult hwin hlen hfile
    subst hr
    exact
      { result := Or.inr hresult, source := hsource, source_fits := hm ▸ hfits'
        sourceBuffer_length := hm ▸ hlength, window_kept := by rw [hwin, hself]
        length_kept := fun _ => hlen, appended := fun h => absurd h hne
        full := hm ▸ hfull, full_untouched := hfile }
  cases hcases with
  -- Some bytes were read: they follow the window.
  | @read bytes hr hne hwin hlen hun =>
      have hwin : (w.readMoreSource m).2.sourceWindow = w.sourceWindow ++ bytes := hwin
      have hlen : (w.readMoreSource m).2.sourceLength = w.sourceLength + bytes.length := hlen
      have hpos : 0 < bytes.length := List.length_pos_iff.mpr hne
      exact
        { result := Or.inl hr, source := hsource, source_fits := hm ▸ hfits'
          sourceBuffer_length := hm ▸ hlength
          window_kept := by rw [hwin, List.take_left' hwindow]
          length_kept := fun h => absurd hr h
          appended := fun _ => ⟨bytes, hpos, by omega, hlen, hwin, hun⟩
          full := hm ▸ hfull
          full_untouched := fun h => by cases hr.symm.trans h }
  | full hr hwin hlen _ hfile =>
      exact hlater _ hr (by decide) (by decide) hwin hlen fun _ => hfile
  | finished hr hwin hlen =>
      exact hlater _ hr (by decide) (by decide) hwin hlen fun h => by cases h
  | failed hr hwin hlen =>
      exact hlater _ hr (by decide) (by decide) hwin hlen fun h => by cases h

/-- Two unread bytes at offset one of a buffer of four: the moved bytes overlap
    their own target, and two more are read behind them. -/
theorem readMoreSource_keeps_overlap :
    let w : Io Unit :=
      { coder := (), sourceFile := .opened [8, 9] [], sourceBuffer := [0, 1, 2, 3], source := 1
        sourceLength := 2, destinationFile := .opened [], destinationBuffer := []
        destinationLength := 0 }
    (w.readMoreSource 4).2.sourceBuffer = [1, 2, 8, 9] ∧ MoreSource w (w.readMoreSource 4) :=
  ⟨rfl, readMoreSource_keeps (by decide)⟩

/-! ## No silent loss -/

/-- What an exit `x` of one of the two functions says about the files it was
    given.  The outcomes that `x` has left of a schedule are its tail; those
    before it are the ones that the reads, or the writes, have met. -/
structure Lossless {ω ρ : Type} (sourceFile : SourceFile) (destinationFile : DestinationFile)
    (x : ExtResult × Io (Coder UInt8 σ ω ρ)) : Prop where
  reads : ∃ used, sourceFile.outcomes = used ++ x.2.sourceFile.outcomes ∧
    ((∃ o ∈ used, o.Fails) → x.1 = .readIo)
  writes : ∃ used, destinationFile.outcomes = used ++ x.2.destinationFile.outcomes ∧
    ((∃ o ∈ used, o.Fails) → x.1 = .writeIo)
  consumed : x.1 = .ok → x.2.coder.consumed = sourceFile.unread
  written : x.1 = .ok →
    x.2.destinationFile.written = destinationFile.written ++ x.2.coder.emitted

/-- Whatever the codec does and whatever becomes of the reads and writes, a run
    of `compress` or `decompress` that returns without an error has met no fault,
    has had all of the file consumed, in order, and has written all that was
    emitted, in order; and a fault it has met is the error it returns.  A run that comes
    to a fault goes no further, whether the codec would let it end or not. -/
theorem no_silent_loss (enc : Encoder σ) (dec : Decoder τ) (gvl : Bool) (fuel handle : Nat)
    (initEncoder : σ) (initDecoder : τ) (sourceFile : SourceFile)
    (destinationFile : DestinationFile) (sourceBuffer destinationBuffer : List UInt8)
    (hsource : 1 ≤ sourceBuffer.length) :
    (∀ x, compress enc gvl sourceBuffer.length destinationBuffer.length fuel
        ⟨handle, initEncoder, []⟩ sourceFile sourceBuffer destinationFile destinationBuffer =
          some x → Lossless sourceFile destinationFile x) ∧
    (∀ x, decompress dec gvl sourceBuffer.length destinationBuffer.length fuel
        ⟨handle, initDecoder, []⟩ sourceFile sourceBuffer destinationFile destinationBuffer =
          some x → Lossless sourceFile destinationFile x) ∧
    CompressLeftAtFaults enc gvl ⟨handle, initEncoder, []⟩ sourceFile sourceBuffer
      destinationFile destinationBuffer ∧
    DecompressLeftAtFaults dec gvl ⟨handle, initDecoder, []⟩ sourceFile sourceBuffer
      destinationFile destinationBuffer := by
  refine ⟨?_, ?_, compress_leftAtFaults, decompress_leftAtFaults⟩
  · rintro ⟨extResult, w⟩ h
    obtain ⟨hreads, hwrites⟩ := FaultsNoticed.compress h
    refine ⟨hreads, hwrites, fun hok => ?_, fun hok => ?_⟩
    · obtain rfl : extResult = .ok := hok
      exact (compress_ok h).1
    · obtain rfl : extResult = .ok := hok
      exact (compress_ok h).2.1
  · rintro ⟨extResult, w⟩ h
    obtain ⟨hreads, hwrites⟩ := FaultsNoticed.decompress h
    have hout := decompress_outcome (S := fun _ => True) (fun _ _ _ _ => trivial) trivial
      hsource h
    refine ⟨hreads, hwrites, fun hok => ?_, fun hok => ?_⟩
    · obtain ⟨_, _, _, hconsumed, _⟩ := hout.returned hok
      exact hconsumed
    · obtain ⟨_, _, _, _, hwritten⟩ := hout.returned hok
      exact hwritten

/-- The second byte of a file cannot be read, and `compress` says so. -/
theorem no_silent_loss_failedRead :
    (∃ x, compress storedEncoder true 2 2 8 ⟨0, storedEncoder.create, []⟩
        (.opened [1, 2] [.failure 1]) [0, 0] (.opened []) [0, 0] = some x ∧
      x.1 = .readIo ∧ Lossless (.opened [1, 2] [.failure 1]) (.opened []) x) ∧
    Returns (fun fuel => compress storedEncoder true 2 2 fuel ⟨0, storedEncoder.create, []⟩
      (.opened [1, 2] [.failure 1]) [0, 0] (.opened []) [0, 0]) .readIo := by
  obtain ⟨x, hx, hresult⟩ : ∃ x, compress storedEncoder true 2 2 8
      ⟨0, storedEncoder.create, []⟩ (.opened [1, 2] [.failure 1]) [0, 0] (.opened []) [0, 0] =
        some x ∧ x.1 = .readIo := ⟨_, rfl, rfl⟩
  obtain ⟨hcompress, -, hleft, -⟩ := no_silent_loss storedEncoder (formatDecoder storedFormat id)
    true 8 0 storedEncoder.create (formatDecoder storedFormat id).create
    (.opened [1, 2] [.failure 1]) (.opened []) [0, 0] [0, 0] (by decide)
  refine ⟨⟨x, hx, hresult, hcompress x hx⟩, ?_⟩
  -- The failing read is the first one.
  exact LeftAtFaults.readFailed hleft _ ⟨0, false, .start⟩
    ⟨[.failure 1], rfl, .failure 1, List.mem_singleton_self _, 1, rfl⟩

end Io
end RubyBrs
