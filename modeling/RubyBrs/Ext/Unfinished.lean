/-
  RubyBrs.Ext.Unfinished

  What it means that `brs_ext_decompress_string` and `brs_ext_decompress_io`
  return.

  Whatever the decoder does, its last answer was `success` or `needsMoreInput`:
  the loops are left on both, and nothing tells them apart afterwards.  So a
  source that is the start of a stream and no more is decompressed as if it were
  a whole stream (`decompress_truthful_iff`).
-/

import RubyBrs.Ext.IoDecompress
import RubyBrs.Ext.NativeRun
import RubyBrs.Ext.Stored
import RubyBrs.Ext.StringRun

namespace RubyBrs

open StreamCodec StreamFormat

variable {σ : Type} {dec : Decoder σ} {fmt : Format UInt8}

/-- Whenever `brs_ext_decompress_string` returns a string for this source, the
    last answer of the decoder was that the stream has ended. -/
def StringTruthful (dec : Decoder σ) (options : Argument) (source : List UInt8) : Prop :=
  ∀ {fuel m e bytes}, brsExtDecompressString dec fuel m (.value (.string source)) options = some e →
    e.outcome = .ok bytes → ∃ coder, e.coder = some coder ∧ coder.lastResult = some .success

/-- The same for `brs_ext_decompress_io` and a file of these bytes. -/
def IoTruthful (dec : Decoder σ) (options : Argument) (source : List UInt8) : Prop :=
  ∀ {fuel m sourceFile destination e}, sourceFile.unread = source →
    brsExtDecompressIo dec fuel m (.file sourceFile) destination options = some e →
    e.outcome = .ok () → ∃ coder, e.coder = some coder ∧ coder.lastResult = some .success

/-! ## Any decoder -/

section Settled

variable {fuel : Nat} {m : Memory}

/-- `brs_ext_decompress_string` returns on one of two answers only. -/
theorem brsExtDecompressString_settled {sourceValue options : Argument}
    {e : Exit (List UInt8) (DecoderInstance σ)} {bytes : List UInt8}
    (h : brsExtDecompressString dec fuel m sourceValue options = some e)
    (hok : e.outcome = .ok bytes) :
    ∃ coder result, e.coder = some coder ∧ coder.lastResult = some result ∧
      DecoderResult.Settled result := by
  obtain ⟨p, s, hrun, hcoder, -⟩ := stringCall_ok (by decide) h hok
  have houtcome := Str.decompress_outcome (S := fun _ => True) (fun _ _ _ _ => trivial) trivial hrun
  obtain ⟨result, rest, hsettled, hanswered, -⟩ := houtcome.returned rfl
  exact ⟨_, result, hcoder, hanswered.lastResult, hsettled⟩

/-- So does `brs_ext_decompress_io`. -/
theorem brsExtDecompressIo_settled {source : FileArgument SourceFile}
    {destination : FileArgument DestinationFile} {options : Argument}
    {e : IoExit (DecoderInstance σ)}
    (h : brsExtDecompressIo dec fuel m source destination options = some e)
    (hok : e.outcome = .ok ()) :
    ∃ coder result, e.coder = some coder ∧ coder.lastResult = some result ∧
      DecoderResult.Settled result := by
  obtain ⟨p, w, hrun, hcoder⟩ := ioCall_ok (by decide) (by decide) h hok
  have houtcome := Io.decompress_outcome (S := fun _ => True) (fun _ _ _ _ => trivial) trivial
    p.sourceBuffer_pos hrun
  obtain ⟨result, hsettled, hanswered, -⟩ := houtcome.returned rfl
  exact ⟨_, result, hcoder, hanswered.lastResult, hsettled⟩

end Settled

/-! ## A decoder that follows a format -/

section String

variable {hash : Hash} {read : StringOptions DecompressorOptions} {s : σ} {source : List UInt8}
  (hread : getStringOptions getDecompressorOptions hash = .ok read)
  (hset : brsExtSetDecompressorOptions dec dec.create read.codec = (.ok, s))
  (hdec : dec.Follows fmt s)

include hread hset hdec

/-- A string in which the stream ends or breaks is not taken for less. -/
theorem stringTruthful_of_not_open (hnot : ¬ fmt.Open source) :
    StringTruthful dec (.hash hash) source := by
  intro fuel m e bytes h hok
  obtain ⟨p, t, hrun, hcoder, -⟩ := stringCall_ok (by decide) h hok
  obtain ⟨hsource, hstate⟩ := p.of_args hread hset
  rw [hsource, hstate] at hrun
  have hreading := hdec.reading source
  obtain ⟨result, rest, hsettled, hanswered, htaken, -⟩ :=
    (Str.decompress_outcome hreading.call (.start p.handle) hrun).returned rfl
  refine ⟨_, hcoder, ?_⟩
  rcases hsettled with rfl | rfl
  · exact hanswered.lastResult
  · -- All of the source was taken, so the stream is still open at its end.
    obtain rfl := hanswered.needsInput hreading
    rw [List.append_nil] at htaken
    exact absurd (htaken ▸ hdec.needsInput_answered hanswered) hnot

/-- The start of a stream is decompressed as if it were all of one. -/
theorem not_stringTruthful_of_open (hopen : fmt.Open source) :
    ¬ StringTruthful dec (.hash hash) source := by
  intro htruthful
  obtain ⟨p, hsource, hstate, hmemory, hrun⟩ := stringCall_run (ω := Unit) (ρ := DecoderResult)
    (show 0 < defaultDestinationBufferLengthForDecompressor by decide) Memory.unused_faultless
    hread hset source
  have hfollows : dec.Follows fmt p.state := hstate.symm ▸ hdec
  obtain ⟨enough, hreturns⟩ := Str.decompress_returns (hfollows.reading p.source) p.read.gvl
    (.start p.handle) p.memory p.destinationValue
  obtain ⟨⟨r, t⟩, ht⟩ := hreturns enough (Nat.le_refl _)
  rw [← hsource] at hopen
  -- The loop ends, and only on `needsMoreInput` since the stream neither ends nor breaks.
  rcases Str.decompress_follows hfollows hmemory p.destinationValue_pos ht with
    ⟨hok, -, ⟨q, hq, hcomplete, -⟩ | ⟨-, hanswered, -⟩⟩ | ⟨-, q, hq, hcorrupt⟩
  · exact hcomplete.not_open hq hopen
  · obtain rfl : r = .ok .ok := hok
    obtain ⟨e, he, houtcome, hcoder⟩ := hrun
      (fun gvl length => Str.decompress dec gvl length enough) t ht
    obtain ⟨coder, hcoder', hlast⟩ := htruthful he houtcome
    obtain rfl := Option.some.inj (hcoder.symm.trans hcoder')
    rw [hanswered.lastResult] at hlast
    cases hlast
  · exact hcorrupt.not_open hq hopen

end String

section Io

variable {hash : Hash} {read : IoOptions DecompressorOptions} {s : σ} {source : List UInt8}
  (hread : getIoOptions getDecompressorOptions hash = .ok read)
  (hset : brsExtSetDecompressorOptions dec dec.create read.codec = (.ok, s))
  (hdec : dec.Follows fmt s)

include hread hset hdec

/-- Nor is a file in which it does. -/
theorem ioTruthful_of_not_open (hnot : ¬ fmt.Open source) :
    IoTruthful dec (.hash hash) source := by
  intro fuel m sourceFile destination e hunread h hok
  obtain ⟨p, w, hrun, hcoder⟩ := ioCall_ok (by decide) (by decide) h hok
  obtain ⟨hfile, hstate⟩ := p.of_args hread hset
  rw [hfile, hstate] at hrun
  have hreading := hdec.reading sourceFile.unread
  obtain ⟨result, hsettled, hanswered, hconsumed, -⟩ :=
    (Io.decompress_outcome hreading.call (.start p.handle) p.sourceBuffer_pos hrun).returned rfl
  refine ⟨_, hcoder, ?_⟩
  rcases hsettled with rfl | rfl
  · exact hanswered.lastResult
  · rw [← hunread, ← hconsumed] at hnot
    exact absurd (hdec.needsInput_answered hanswered) hnot

theorem not_ioTruthful_of_open (hopen : fmt.Open source) :
    ¬ IoTruthful dec (.hash hash) source := by
  intro htruthful
  obtain ⟨p, hsource, hdestination, hstate, hrun⟩ := ioCall_run (ω := Unit) (ρ := DecoderResult)
    (show 0 < defaultSourceBufferLengthForDecompressor by decide)
    (show 0 < defaultDestinationBufferLengthForDecompressor by decide) Memory.unused_faultless
    hread hset (.opened source []) (.opened [])
  have hfollows : dec.Follows fmt p.state := hstate.symm ▸ hdec
  obtain ⟨enough, hreturns⟩ : ∃ enough, ∀ fuel, enough ≤ fuel → ∃ x,
      Io.decompress dec p.read.gvl p.sourceBuffer.bytes.length p.destinationBuffer.bytes.length
        fuel ⟨p.handle, p.state, []⟩ p.sourceFile p.sourceBuffer.bytes p.destinationFile
        p.destinationBuffer.bytes = some x :=
    Io.decompress_returns (hfollows.reading p.sourceFile.unread) p.read.gvl
      (.start p.handle) p.sourceBuffer.bytes p.destinationBuffer.bytes
  obtain ⟨⟨r, w⟩, hw⟩ := hreturns enough (Nat.le_refl _)
  have hunread : p.sourceFile.unread = source := by rw [hsource]; rfl
  rw [← hunread] at hopen
  have hsourceFaultless : p.sourceFile.Faultless :=
    hsource.symm ▸ SourceFile.opened_faultless source
  have hdestinationFaultless : p.destinationFile.Faultless :=
    hdestination.symm ▸ DestinationFile.opened_faultless
  -- As for strings, only `needsMoreInput` is possible.
  rcases Io.decompress_follows hfollows hsourceFaultless hdestinationFaultless
      p.sourceBuffer_pos p.destinationBuffer_pos hw with
    ⟨hok, -, ⟨hcomplete, -⟩ | ⟨-, hanswered, -⟩⟩ | ⟨-, ⟨q, hq, -, hcomplete⟩ | ⟨q, hq, hcorrupt⟩⟩
  · exact hcomplete.not_open (List.prefix_refl _) hopen
  · obtain rfl : r = .ok := hok
    have he := hrun (fun gvl m n => Io.decompress dec gvl m n enough) _ hw
    obtain ⟨coder, hcoder, hlast⟩ := htruthful rfl he rfl
    obtain rfl := Option.some.inj hcoder
    rw [hanswered.lastResult] at hlast
    cases hlast
  · exact hcomplete.not_open hq hopen
  · exact hcorrupt.not_open hq hopen

end Io

/-- With accepted options and a decoder that then follows a format, the native
    functions return only when the stream has ended exactly if the source is not
    the start of a stream and no more. -/
theorem decompress_truthful_iff (dec : Decoder σ) (fmt : Format UInt8) (source : List UInt8) :
    (∀ {hash : Hash} {read : StringOptions DecompressorOptions} {s : σ},
      getStringOptions getDecompressorOptions hash = .ok read →
      brsExtSetDecompressorOptions dec dec.create read.codec = (.ok, s) → dec.Follows fmt s →
      (StringTruthful dec (.hash hash) source ↔ ¬ fmt.Open source)) ∧
    (∀ {hash : Hash} {read : IoOptions DecompressorOptions} {s : σ},
      getIoOptions getDecompressorOptions hash = .ok read →
      brsExtSetDecompressorOptions dec dec.create read.codec = (.ok, s) → dec.Follows fmt s →
      (IoTruthful dec (.hash hash) source ↔ ¬ fmt.Open source)) := by
  constructor
  · intro hash read s hread hset hdec
    refine ⟨fun h hopen => ?_, stringTruthful_of_not_open hread hset hdec⟩
    exact not_stringTruthful_of_open hread hset hdec hopen h
  · intro hash read s hread hset hdec
    refine ⟨fun h hopen => ?_, ioTruthful_of_not_open hread hset hdec⟩
    exact not_ioTruthful_of_open hread hset hdec hopen h

/-- The empty stream, as a whole, with buffers of one byte. -/
theorem decompress_truthful_emptyStream :
    StringTruthful (formatDecoder storedFormat id) (.hash oneByteStringOptions) [0x3b] ∧
      IoTruthful (formatDecoder storedFormat id) (.hash oneByteOptions) [0x3b] := by
  have hcomplete : storedFormat.Complete [0x3b] := (decodes_stored []).1
  have hnot : ¬ storedFormat.Open [0x3b] := hcomplete.not_open (List.prefix_refl _)
  have hfollows := formatDecoder_follows storedFormat id
  obtain ⟨hstring, hio⟩ :=
    decompress_truthful_iff (formatDecoder storedFormat id) storedFormat [0x3b]
  exact ⟨(hstring rfl rfl hfollows).mpr hnot, (hio rfl rfl hfollows).mpr hnot⟩

/-- The empty string is the start of every stream, and the end of none. -/
theorem not_truthful_empty :
    ¬ StringTruthful (formatDecoder storedFormat id) (.hash oneByteStringOptions) [] ∧
      ¬ IoTruthful (formatDecoder storedFormat id) (.hash oneByteOptions) [] :=
  ⟨not_stringTruthful_of_open rfl rfl (formatDecoder_follows storedFormat id) Format.open_nil,
    not_ioTruthful_of_open rfl rfl (formatDecoder_follows storedFormat id) Format.open_nil⟩

end RubyBrs
