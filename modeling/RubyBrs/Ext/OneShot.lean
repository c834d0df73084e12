/-
  RubyBrs.Ext.OneShot

  The one-shot functions of `string.c` and `io.c` side by side.

  A `Setup` is everything decompression is given besides the decoder and the
  bytes to decompress: memory, files and non-empty buffers, none of which fail.
  A complete stream comes out the same in every setup (`decompress_exact`), and
  what `string.c` compressed it gives back (`decompress_compress`).  On other
  strings the two functions need not agree, and `agree_iff` says on which.
-/

import RubyBrs.Ext.IoDecompress
import RubyBrs.Ext.Stored
import RubyBrs.Ext.StringRun

namespace RubyBrs

open StreamCodec StreamFormat

variable {κ σ τ : Type}

/-! ## Setups -/

/-- What the bytes `source` are decompressed with, as a string and as a file. -/
structure Setup (source : List UInt8) where
  gvl : Bool
  handle : Nat
  memory : Memory
  memory_faultless : memory.Faultless
  destinationValue : List UInt8
  destinationValue_pos : 0 < destinationValue.length
  sourceFile : SourceFile
  unread : sourceFile.unread = source
  sourceFile_faultless : sourceFile.Faultless
  sourceBuffer : List UInt8
  sourceBuffer_pos : 0 < sourceBuffer.length
  destinationFile : DestinationFile
  destinationFile_faultless : destinationFile.Faultless
  destinationBuffer : List UInt8
  destinationBuffer_pos : 0 < destinationBuffer.length

namespace Setup

variable {source : List UInt8} (e : Setup source) (dec : Decoder σ) (init : σ) (fuel : Nat)

/-- `decompress` of `string.c` in this setup. -/
def decompressString : Option (Except RubyError ExtResult × Str (DecoderInstance σ)) :=
  Str.decompress dec e.gvl e.destinationValue.length fuel ⟨e.handle, init, []⟩ e.memory source
    e.destinationValue

/-- `decompress` of `io.c` in this setup. -/
def decompressFile : Option (ExtResult × Io (DecoderInstance σ)) :=
  Io.decompress dec e.gvl e.sourceBuffer.length e.destinationBuffer.length fuel
    ⟨e.handle, init, []⟩ e.sourceFile e.sourceBuffer e.destinationFile e.destinationBuffer

/-- A setup with new files and an unused memory, whose buffers have these lengths
    and one byte more. -/
def plain (source : List UInt8) (stringLength sourceLength destinationLength : Nat) :
    Setup source where
  gvl := false
  handle := 0
  memory := .unused
  memory_faultless := Memory.unused_faultless
  destinationValue := List.replicate (stringLength + 1) 0
  destinationValue_pos := by simp
  sourceFile := .opened source []
  unread := rfl
  sourceFile_faultless := SourceFile.opened_faultless source
  sourceBuffer := List.replicate (sourceLength + 1) 0
  sourceBuffer_pos := by simp
  destinationFile := .opened []
  destinationFile_faultless := DestinationFile.opened_faultless
  destinationBuffer := List.replicate (destinationLength + 1) 0
  destinationBuffer_pos := by simp

variable {dec init} {S : DecoderInstance σ → Prop}

/-- Both functions return. -/
theorem returns (hread : dec.Reading source S) (hinit : S ⟨e.handle, init, []⟩) :
    ∃ enough, ∀ fuel, enough ≤ fuel →
      (∃ x, e.decompressString dec init fuel = some x) ∧
      ∃ y, e.decompressFile dec init fuel = some y := by
  obtain ⟨enoughString, hstring⟩ :=
    Str.decompress_returns hread e.gvl hinit e.memory e.destinationValue
  rw [← e.unread] at hread
  obtain ⟨enoughFile, hfile⟩ : ∃ enough, ∀ fuel, enough ≤ fuel →
      ∃ y, e.decompressFile dec init fuel = some y :=
    Io.decompress_returns hread e.gvl hinit e.sourceBuffer e.destinationBuffer
  exact ⟨max enoughString enoughFile, fun fuel hfuel =>
    ⟨hstring fuel (by omega), hfile fuel (by omega)⟩⟩

end Setup

/-! ## Complete streams -/

section Exact

variable {dec : Decoder σ} {init : σ} {source content : List UInt8}

/-- A complete stream is decompressed exactly, as a string and as a file, whatever
    the lengths of the buffers. -/
theorem decompress_exact (hdec : dec.StreamContract source content init) (e : Setup source) :
    ∃ enough, ∀ fuel, enough ≤ fuel → ∃ s w,
      e.decompressString dec init fuel = some (.ok .ok, s) ∧
      s.destinationValue = content ∧
      e.decompressFile dec init fuel = some (.ok, w) ∧
      w.destinationFile.written = e.destinationFile.written ++ content := by
  obtain ⟨enough, hreturns⟩ := e.returns hdec.reading (.start e.handle)
  refine ⟨enough, fun fuel hfuel => ?_⟩
  obtain ⟨⟨⟨rs, s⟩, hs⟩, ⟨⟨rw, w⟩, hw⟩⟩ := hreturns fuel hfuel
  obtain ⟨rfl, hvalue⟩ : rs = .ok .ok ∧ s.destinationValue = content :=
    Str.decompress_stream hdec e.memory_faultless e.destinationValue_pos hs
  rw [← e.unread] at hdec
  obtain ⟨rfl, hwritten⟩ : rw = .ok ∧
      w.destinationFile.written = e.destinationFile.written ++ content :=
    Io.decompress_stream hdec e.sourceFile_faultless e.destinationFile_faultless
      e.sourceBuffer_pos e.destinationBuffer_pos hw
  exact ⟨s, w, hs, hvalue, hw, hwritten⟩

/-- A stream of one meta-block, with buffers of one byte. -/
theorem decompress_exact_oneByte :
    ∃ enough, ∀ fuel, enough ≤ fuel → ∃ s w,
      (Setup.plain [0x0b, 0, 0x80, 7, 3] 0 0 0).decompressString (formatDecoder storedFormat id)
        ([], 0) fuel = some (.ok .ok, s) ∧
      s.destinationValue = [7] ∧
      (Setup.plain [0x0b, 0, 0x80, 7, 3] 0 0 0).decompressFile (formatDecoder storedFormat id)
        ([], 0) fuel = some (.ok, w) ∧
      w.destinationFile.written = (DestinationFile.opened []).written ++ [7] :=
  decompress_exact ((formatDecoder_follows storedFormat id).streamContract (decodes_stored [7]))
    (.plain _ 0 0 0)

end Exact

/-! ## Round trip -/

section RoundTrip

variable {enc : Encoder σ} {dec : Decoder τ} {fmt : Format UInt8} {encInit : σ} {decInit : τ}

/-- What `compress` of `string.c` leaves in the destination is what the encoder
    emitted for all of the source, and `decompress` gives the source back. -/
theorem decompress_compress (henc : enc.Contract [.finish] fmt encInit) (source : List UInt8)
    (hdec : ∀ stream, fmt.Decodes stream source → dec.StreamContract stream source decInit)
    (encGvl decGvl : Bool) (encHandle decHandle : Nat) {encMemory decMemory : Memory}
    (hencMemory : encMemory.Faultless) (hdecMemory : decMemory.Faultless)
    {encValue decValue : List UInt8} (hencValue : 0 < encValue.length)
    (hdecValue : 0 < decValue.length) :
    ∃ enough, ∀ fuel, enough ≤ fuel → ∃ s s',
      Str.compress enc encGvl encValue.length fuel ⟨encHandle, encInit, []⟩ encMemory source
        encValue = some (.ok .ok, s) ∧
      s.destinationValue = s.coder.emitted ∧ s.coder.consumed = source ∧
      Str.decompress dec decGvl decValue.length fuel ⟨decHandle, decInit, []⟩ decMemory
        s.destinationValue decValue = some (.ok .ok, s') ∧
      s'.destinationValue = source := by
  obtain ⟨bound, hbound⟩ := henc.finite source
  refine ⟨max bound source.length + 1, fun fuel hfuel => ?_⟩
  obtain ⟨s, hcompress, hvalue, hconsumed, hdecodes⟩ := Str.compress_stream henc encGvl
    hencValue hencMemory hbound (show bound < fuel by omega)
  rw [← hvalue] at hdecodes
  have hstream := hdec _ hdecodes
  -- All that the decoder emits is a part of the source.
  obtain ⟨⟨r, s'⟩, hdecompress⟩ := Str.decompress_returns_within hstream.reading.call
    (fun i input room hi hin _ => by
      rw [Codec.call_emitted]
      exact (hstream.emits room hi hin).length_le)
    (show source.length < fuel by omega) decGvl (.start decHandle) decMemory decValue
  -- What `compress` left is one complete stream, and that is all `decompress` needs.
  obtain ⟨rfl, hsource⟩ : r = .ok .ok ∧ s'.destinationValue = source :=
    Str.decompress_stream hstream hdecMemory hdecValue hdecompress
  exact ⟨s, s', hcompress, hvalue, hconsumed, hdecompress, hsource⟩

/-- Three bytes, compressed one byte at a time and decompressed two at a time. -/
theorem decompress_compress_threeBytes :
    ∃ enough, ∀ fuel, enough ≤ fuel → ∃ s s',
      Str.compress storedEncoder true 1 fuel ⟨0, storedEncoder.create, []⟩ Memory.unused
        [1, 2, 3] [0] = some (.ok .ok, s) ∧
      s.destinationValue = s.coder.emitted ∧ s.coder.consumed = [1, 2, 3] ∧
      Str.decompress (formatDecoder storedFormat id) false 2 fuel ⟨1, ([], 0), []⟩ Memory.unused
        s.destinationValue [0, 0] = some (.ok .ok, s') ∧
      s'.destinationValue = [1, 2, 3] := by
  have htrip := decompress_compress (storedEncoder_flushContract [.finish]).toContract [1, 2, 3]
    (fun _ hdecodes => (formatDecoder_follows storedFormat id).streamContract hdecodes)
    true false 0 1 Memory.unused_faultless Memory.unused_faultless
    (show 0 < [(0 : UInt8)].length by decide) (show 0 < [(0 : UInt8), 0].length by decide)
  exact htrip

end RoundTrip

/-! ## Any source -/

/-- What a decompression of a string produced: nothing, when it failed. -/
def Str.produced : Except RubyError ExtResult × Str κ → Option (List UInt8)
  | (.ok .ok, s) => some s.destinationValue
  | _ => none

/-- What a decompression to a file produced: nothing, when it failed. -/
def Io.produced (destinationFile : DestinationFile) : ExtResult × Io κ → Option (List UInt8)
  | (.ok, w) => some (w.destinationFile.written.drop destinationFile.written.length)
  | _ => none

/-- In every setup both functions fail, or both produce the same bytes. -/
def Agree (dec : Decoder σ) (init : σ) (source : List UInt8) : Prop :=
  ∀ e : Setup source, ∃ enough, ∀ fuel, enough ≤ fuel → ∃ x y,
    e.decompressString dec init fuel = some x ∧ e.decompressFile dec init fuel = some y ∧
    Str.produced x = Io.produced e.destinationFile y

theorem Str.produced_ok {x : Except RubyError ExtResult × Str κ} (h : x.1 = .ok .ok) :
    Str.produced x = some x.2.destinationValue := by
  obtain ⟨r, s⟩ := x
  cases h
  rfl

theorem Str.produced_failed {x : Except RubyError ExtResult × Str κ} (h : x.1 ≠ .ok .ok) :
    Str.produced x = none := by
  unfold Str.produced
  split
  · exact absurd rfl h
  · rfl

theorem Io.produced_ok {destinationFile : DestinationFile} {x : ExtResult × Io κ}
    {bytes : List UInt8} (h : x.1 = .ok)
    (hwritten : x.2.destinationFile.written = destinationFile.written ++ bytes) :
    Io.produced destinationFile x = some bytes := by
  obtain ⟨r, w⟩ := x
  cases h
  show some (w.destinationFile.written.drop destinationFile.written.length) = some bytes
  rw [show w.destinationFile.written = destinationFile.written ++ bytes from hwritten,
    List.drop_left]

theorem Io.produced_failed {destinationFile : DestinationFile} {x : ExtResult × Io κ}
    (h : x.1 ≠ .ok) : Io.produced destinationFile x = none := by
  unfold Io.produced
  split
  · exact absurd rfl h
  · rfl

section Follows

variable {dec : Decoder σ} {fmt : Format UInt8} {init : σ} {source : List UInt8}
  {e : Setup source} {fuel : Nat} {x : Except RubyError ExtResult × Str (DecoderInstance σ)}
  {y : ExtResult × Io (DecoderInstance σ)}

/-- What `string.c` produces: the content of the stream that the source starts
    with, or what there is of it, or nothing when the stream breaks. -/
theorem Setup.produced_string (hdec : dec.Follows fmt init)
    (hx : e.decompressString dec init fuel = some x) :
    (∃ p, p <+: source ∧ fmt.Complete p ∧ Str.produced x = some (fmt.decodable p)) ∨
    (fmt.Open source ∧ ∃ bytes, bytes <+: fmt.decodable source ∧ Str.produced x = some bytes) ∨
    ((∃ p, p <+: source ∧ fmt.Corrupt p) ∧ Str.produced x = none) := by
  rcases Str.decompress_follows hdec e.memory_faultless e.destinationValue_pos hx with
    ⟨hok, hvalue, ⟨p, hp, hcomplete, hemitted⟩ | ⟨hopen, hanswered, hconsumed⟩⟩ | ⟨hne, hcorrupt⟩
  · exact Or.inl ⟨p, hp, hcomplete, by rw [Str.produced_ok hok, hvalue, hemitted]⟩
  · refine Or.inr (Or.inl ⟨hopen, _, ?_, by rw [Str.produced_ok hok, hvalue]⟩)
    have hprefix := hdec.emits_answered (by decide) hanswered
    rwa [hconsumed] at hprefix
  · exact Or.inr (Or.inr ⟨hcorrupt, Str.produced_failed hne⟩)

/-- What `io.c` produces: the same, except that a stream has to end where the
    file ends. -/
theorem Setup.produced_file (hdec : dec.Follows fmt init)
    (hy : e.decompressFile dec init fuel = some y) :
    (fmt.Complete source ∧ Io.produced e.destinationFile y = some (fmt.decodable source)) ∨
    (fmt.Open source ∧ ∃ bytes, bytes <+: fmt.decodable source ∧
      Io.produced e.destinationFile y = some bytes) ∨
    (((∃ p, p <+: source ∧ p ≠ source ∧ fmt.Complete p) ∨
        ∃ p, p <+: source ∧ fmt.Corrupt p) ∧
      Io.produced e.destinationFile y = none) := by
  have hfollows := Io.decompress_follows hdec e.sourceFile_faultless
    e.destinationFile_faultless e.sourceBuffer_pos e.destinationBuffer_pos hy
  rw [e.unread] at hfollows
  rcases hfollows with
    ⟨hok, hwritten, ⟨hcomplete, hemitted⟩ | ⟨hopen, hanswered, hconsumed⟩⟩ | ⟨hne, hends⟩
  · exact Or.inl ⟨hcomplete, Io.produced_ok hok (hemitted ▸ hwritten)⟩
  · refine Or.inr (Or.inl ⟨hopen, _, ?_, Io.produced_ok hok hwritten⟩)
    have hprefix := hdec.emits_answered (by decide) hanswered
    rwa [hconsumed] at hprefix
  · exact Or.inr (Or.inr ⟨hends, Io.produced_failed hne⟩)

/-- When the stream ends or breaks inside the source, the two functions produce
    the same exactly when nothing follows its end. -/
theorem Setup.produced_eq_iff (hdec : dec.Follows fmt init) (hnot : ¬ fmt.Open source)
    (hx : e.decompressString dec init fuel = some x)
    (hy : e.decompressFile dec init fuel = some y) :
    Str.produced x = Io.produced e.destinationFile y ↔
      ∀ p, p <+: source → fmt.Complete p → p = source := by
  have hunique : ∀ {p q}, fmt.Complete p → fmt.Complete q → p <+: source → q <+: source →
      p = q := fun hp hq hps hqs =>
    Format.Reaches.unique hp hq (by decide) (by decide) hps hqs
  -- A stream ends or breaks at one point only, so each side has one possible outcome.
  rcases Setup.produced_string hdec hx with ⟨p, hp, hcomplete, hstring⟩ | ⟨hopen, _⟩ |
      ⟨⟨q, hq, hcorrupt⟩, hstring⟩
  · rcases Setup.produced_file hdec hy with ⟨hall, hfile⟩ | ⟨hopen, _⟩ | ⟨hends, hfile⟩
    · have heq := hunique hcomplete hall hp (List.prefix_refl _)
      rw [hstring, hfile, heq]
      exact ⟨fun _ r hr hrc => hunique hrc hall hr (List.prefix_refl _), fun _ => rfl⟩
    · exact absurd hopen hnot
    -- The string function returns the content, the file function fails.
    · rw [hstring, hfile]
      refine ⟨(nomatch ·), fun hnothing => ?_⟩
      rcases hends with ⟨r, hr, hne, hrc⟩ | ⟨r, hr, hrc⟩
      · exact absurd (hnothing r hr hrc) hne
      · exact absurd hrc (hcomplete.not_corrupt hp hr)
  · exact absurd hopen hnot
  · rcases Setup.produced_file hdec hy with ⟨hall, _⟩ | ⟨hopen, _⟩ | ⟨_, hfile⟩
    · exact absurd hcorrupt (hall.not_corrupt (List.prefix_refl _) hq)
    · exact absurd hopen hnot
    · rw [hstring, hfile]
      exact ⟨fun _ r hr hrc => absurd hcorrupt (hrc.not_corrupt hr hq), fun _ => rfl⟩

/-- While nothing can be told from an unfinished stream, both functions produce
    the empty string. -/
theorem Setup.produced_eq_of_open (hdec : dec.Follows fmt init) (hopen : fmt.Open source)
    (hnil : fmt.decodable source = []) (hx : e.decompressString dec init fuel = some x)
    (hy : e.decompressFile dec init fuel = some y) :
    Str.produced x = Io.produced e.destinationFile y := by
  have hstring : Str.produced x = some [] := by
    rcases Setup.produced_string hdec hx with ⟨p, hp, hcomplete, _⟩ | ⟨_, bytes, hbytes, heq⟩ |
        ⟨⟨q, hq, hcorrupt⟩, _⟩
    · exact absurd hopen (hcomplete.not_open hp)
    · rw [hnil] at hbytes
      rw [heq, List.prefix_nil.mp hbytes]
    · exact absurd hopen (hcorrupt.not_open hq)
  have hfile : Io.produced e.destinationFile y = some [] := by
    rcases Setup.produced_file hdec hy with ⟨hall, _⟩ | ⟨_, bytes, hbytes, heq⟩ |
        ⟨⟨r, hr, _, hrc⟩ | ⟨r, hr, hrc⟩, _⟩
    · exact absurd hopen (hall.not_open (List.prefix_refl _))
    · rw [hnil] at hbytes
      rw [heq, List.prefix_nil.mp hbytes]
    · exact absurd hopen (hrc.not_open hr)
    · exact absurd hopen (hrc.not_open hr)
  rw [hstring, hfile]

/-- Whether they agree on such a source does not depend on the decoder. -/
theorem Agree.iff_of_not_open (hdec : dec.Follows fmt init) (hnot : ¬ fmt.Open source) :
    Agree dec init source ↔ ∀ p, p <+: source → fmt.Complete p → p = source := by
  constructor
  · intro hagree
    -- One setup is enough, since what both produce does not depend on it.
    let e : Setup source := .plain source 0 0 0
    obtain ⟨enough, hfuel⟩ := hagree e
    obtain ⟨x, y, hx, hy, heq⟩ := hfuel enough (Nat.le_refl _)
    exact (Setup.produced_eq_iff hdec hnot hx hy).mp heq
  · intro hnothing e
    obtain ⟨enough, hreturns⟩ := e.returns (hdec.reading source) (.start e.handle)
    refine ⟨enough, fun fuel hfuel => ?_⟩
    obtain ⟨⟨x, hx⟩, ⟨y, hy⟩⟩ := hreturns fuel hfuel
    exact ⟨x, y, hx, hy, (Setup.produced_eq_iff hdec hnot hx hy).mpr hnothing⟩

end Follows

/-- What `string.c` produces of an unfinished stream depends on how much the
    decoder makes of its only call. -/
theorem Setup.produced_string_open {fmt : Format UInt8} {source : List UInt8}
    (e : Setup source) (hopen : fmt.Open source) (push : Nat → Nat) (fuel : Nat) :
    ∃ x, e.decompressString (formatDecoder fmt push) ([], 0) (fuel + 1) = some x ∧
      Str.produced x = some ((fmt.decodable source).take
        (min (push e.destinationValue.length) e.destinationValue.length)) := by
  obtain ⟨hresult, houtput⟩ := formatDecoderStream_open hopen push e.destinationValue.length
  obtain ⟨s, hs, hvalue⟩ : ∃ s, e.decompressString (formatDecoder fmt push) ([], 0) (fuel + 1) =
        some (.ok .ok, s) ∧ s.destinationValue =
          (formatDecoderStream fmt push ([], 0) () source e.destinationValue.length).output :=
    Str.decompress_once e.gvl e.memory_faultless hresult fuel
  exact ⟨_, hs, by rw [Str.produced, hvalue, houtput]⟩

/-- Where the two functions agree the length of the string buffer does not matter. -/
theorem Agree.take_eq {fmt : Format UInt8} {source : List UInt8} {push : Nat → Nat}
    (hagree : Agree (formatDecoder fmt push) ([], 0) source) (hopen : fmt.Open source) :
    (fmt.decodable source).take (min (push 1) 1) =
      (fmt.decodable source).take (min (push 2) 2) := by
  let short : Setup source := .plain source 0 0 0
  let long : Setup source := .plain source 1 0 0
  obtain ⟨enough, hshort⟩ := hagree short
  obtain ⟨enough', hlong⟩ := hagree long
  obtain ⟨x, y, hx, hy, heq⟩ := hshort (enough + enough' + 1) (by omega)
  obtain ⟨x', y', hx', hy', heq'⟩ := hlong (enough + enough' + 1) (by omega)
  -- The file is the same in both setups, and so is what becomes of it.
  have hfile : y = y' := Option.some.inj (hy.symm.trans hy')
  obtain ⟨z, hz, hone⟩ := short.produced_string_open hopen push (enough + enough')
  obtain ⟨z', hz', htwo⟩ := long.produced_string_open hopen push (enough + enough')
  obtain rfl : x = z := Option.some.inj (hx.symm.trans hz)
  obtain rfl : x' = z' := Option.some.inj (hx'.symm.trans hz')
  have hsame : Str.produced x = Str.produced x' := by
    rw [heq, heq', hfile]
    rfl
  rw [hone, htwo] at hsame
  simpa only [short, long, Setup.plain, List.length_replicate] using Option.some.inj hsame

/-- With a decoder that never uses the last byte of its room it does as soon as something
    can be told. -/
theorem Agree.decodable_nil {fmt : Format UInt8} {source : List UInt8}
    (hagree : Agree (formatDecoder fmt (· - 1)) ([], 0) source) (hopen : fmt.Open source) :
    fmt.decodable source = [] := by
  have hlength := congrArg List.length (hagree.take_eq hopen)
  simp only [List.length_take] at hlength
  exact List.length_eq_zero_iff.mp (by omega)

/-- The two functions agree on a source, for every decoder that follows the
    format and in every setup, exactly when nothing follows the end of the stream
    and nothing can be told from the source if the stream does not end.  Where it
    does end, every single decoder decides. -/
theorem agree_iff (fmt : Format UInt8) (source : List UInt8) :
    ((∀ (σ : Type) (dec : Decoder σ) (init : σ), dec.Follows fmt init → Agree dec init source) ↔
      (∀ p, p <+: source → fmt.Complete p → p = source) ∧
        (fmt.Open source → fmt.decodable source = [])) ∧
    (¬ fmt.Open source → ∀ (σ : Type) (dec : Decoder σ) (init : σ), dec.Follows fmt init →
      (Agree dec init source ↔ ∀ p, p <+: source → fmt.Complete p → p = source)) := by
  refine ⟨⟨fun hall => ⟨?_, ?_⟩, ?_⟩, fun hnot σ dec init hdec =>
    Agree.iff_of_not_open hdec hnot⟩
  · by_cases hopen : fmt.Open source
    · exact fun p hp hcomplete => absurd hopen (hcomplete.not_open hp)
    · have hfollows := formatDecoder_follows fmt id
      exact (Agree.iff_of_not_open hfollows hopen).mp (hall _ _ _ hfollows)
  · intro hopen
    exact Agree.decodable_nil (hall _ _ _ (formatDecoder_follows fmt (· - 1))) hopen
  · rintro ⟨hnothing, hnil⟩ σ dec init hdec
    by_cases hopen : fmt.Open source
    · intro e
      obtain ⟨enough, hreturns⟩ := e.returns (hdec.reading source) (.start e.handle)
      refine ⟨enough, fun fuel hfuel => ?_⟩
      obtain ⟨⟨x, hx⟩, ⟨y, hy⟩⟩ := hreturns fuel hfuel
      exact ⟨x, y, hx, hy, Setup.produced_eq_of_open hdec hopen (hnil hopen) hx hy⟩
    · exact (Agree.iff_of_not_open hdec hopen).mpr hnothing

/-- An empty stream with a byte after it. -/
theorem not_agree_trailing :
    ¬ Agree (formatDecoder storedFormat id) ([], 0) [0x3b, 0x00] := by
  have hcomplete : storedFormat.Complete [0x3b] := (decodes_stored []).1
  have hprefix : [0x3b] <+: [(0x3b : UInt8), 0x00] := ⟨[0x00], rfl⟩
  intro hagree
  have hnothing := (Agree.iff_of_not_open (formatDecoder_follows storedFormat id)
    (hcomplete.not_open hprefix)).mp hagree
  exact absurd (hnothing _ hprefix hcomplete) (by decide)

end RubyBrs
