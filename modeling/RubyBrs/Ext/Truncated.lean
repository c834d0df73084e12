/-
  RubyBrs.Ext.Truncated

  What the two functions make of a truncated stream with a decoder that pushes what it
  has.

  Such a decoder is left with nothing emitted only by a call without room, or when there
  is nothing to emit (`Told`), and neither function makes a call without room before it
  has been given something.  So both give something of the stream if there is something
  to give.  Of one byte that is all, whatever the lengths of the buffers; from two bytes
  on the buffers decide, and the two functions need not agree (`agree_truncated_iff`).
-/

import RubyBrs.Ext.OneShot

namespace RubyBrs

open StreamCodec StreamFormat

variable {σ : Type} {dec : Decoder σ} {fmt : Format UInt8} {init : σ}

/-! ## One call -/

/-- Something was emitted, if there is anything to emit. -/
def Told (fmt : Format UInt8) (i : DecoderInstance σ) : Prop :=
  i.emitted = [] → fmt.decodable i.consumed = []

/-- Of a single byte that is all. -/
theorem Told.emitted_eq {i : DecoderInstance σ} (h : Told fmt i)
    (hemitted : i.emitted <+: fmt.decodable i.consumed)
    (hshort : (fmt.decodable i.consumed).length ≤ 1) :
    i.emitted = fmt.decodable i.consumed := by
  by_cases hnil : i.emitted = []
  · rw [hnil, h hnil]
  · have hpos := List.length_pos_iff.mpr hnil
    exact hemitted.eq_of_length_le (by omega)

theorem Decoder.Pushes.told (hdec : dec.Pushes fmt init) {i : DecoderInstance σ}
    (hi : dec.Feeding init i) {input : List UInt8} {room : Nat}
    (hok : (dec.stream i.state () input room).result ≠ .error)
    (hroom : room = 0 → i.emitted ≠ []) : Told fmt (dec.call i () input room) := by
  intro hnil
  rw [Codec.call_emitted, List.append_eq_nil_iff] at hnil
  obtain ⟨hbefore, houtput⟩ := hnil
  have hnot_full : (dec.stream i.state () input room).output.length ≠ room := by
    rw [houtput]
    exact fun h => hroom h.symm hbefore
  rw [Codec.call_consumed]
  cases hresult : (dec.stream i.state () input room).result with
  | error => exact absurd hresult hok
  | needsMoreOutput => exact absurd (hdec.needsOutput hi hresult).1 hnot_full
  | success =>
      obtain ⟨-, hall⟩ := hdec.success hi hresult
      rw [hall, hbefore, houtput]
      rfl
  | needsMoreInput =>
      have hall := (hdec.pushes hi hresult).resolve_left hnot_full
      rw [(hdec.needsInput hi hresult).1, List.take_length, ← hall, hbefore, houtput]
      rfl

/-! ## `string.c` -/

/-- The first call has room, so of one byte it gives all, and it is the only one. -/
theorem Setup.produced_string_short {source : List UInt8} (e : Setup source)
    (hdec : dec.Pushes fmt init) (hopen : fmt.Open source)
    (hshort : (fmt.decodable source).length ≤ 1) (fuel : Nat) :
    ∃ x, e.decompressString dec init (fuel + 1) = some x ∧
      Str.produced x = some (fmt.decodable source) := by
  let i : DecoderInstance σ := ⟨e.handle, init, []⟩
  let answer := dec.stream init () source e.destinationValue.length
  have hi : dec.Feeding init i := .start e.handle
  have hok : answer.result ≠ .error := by
    intro herror
    obtain ⟨n, -, hcorrupt⟩ := hdec.error hi herror
    exact hcorrupt.not_open (List.take_prefix n source) hopen
  have htold : Told fmt (dec.call i () source e.destinationValue.length) :=
    hdec.told hi hok fun h => absurd e.destinationValue_pos (by omega)
  have hprefix : answer.output <+: fmt.decodable (source.take answer.consumed) :=
    hdec.emits source e.destinationValue.length hi hok
  have hall : answer.output = fmt.decodable (source.take answer.consumed) := by
    have hmono := (fmt.decodable_mono (List.take_prefix answer.consumed source)).length_le
    have heq := htold.emitted_eq (by rw [Codec.call_emitted, Codec.call_consumed]; exact hprefix)
      (by rw [Codec.call_consumed]; exact hmono.trans hshort)
    rwa [Codec.call_emitted, Codec.call_consumed] at heq
  have hresult : answer.result = .needsMoreInput := by
    cases hresult : answer.result with
    | needsMoreInput => rfl
    | error => exact absurd hresult hok
    | success =>
        exact absurd hopen ((hdec.success hi hresult).1.not_open (List.take_prefix _ _))
    | needsMoreOutput => exact absurd hall (hdec.needsOutput hi hresult).2.1
  obtain ⟨s, hs, hvalue⟩ := Str.decompress_once e.gvl e.memory_faultless hresult fuel
  refine ⟨_, hs, ?_⟩
  rw [Str.produced, hvalue]
  change some answer.output = _
  rw [hall, (hdec.needsInput hi hresult).1, List.take_length]

/-! ## `io.c` -/

namespace Io

variable {gvl : Bool} {m n fuel : Nat} {sourceFile : SourceFile}
  {destinationFile : DestinationFile} {called : Bool} {w w' : Io (DecoderInstance σ)}

/-- The variables between two steps; after a call something was told. -/
structure Telling (dec : Decoder σ) (fmt : Format UInt8) (init : σ) (m n : Nat)
    (sourceFile : SourceFile) (destinationFile : DestinationFile) (called : Bool)
    (w : Io (DecoderInstance σ)) : Prop extends Moved m n sourceFile destinationFile w where
  feeding : dec.Feeding init w.coder
  filled : w.destinationLength ≤ w.coder.emitted.length
  told : called = true → Told fmt w.coder

/-- A call fills the buffer with what it emits.  Without room the buffer is full, of bytes
    that were emitted. -/
theorem Telling.streamed (hdec : dec.Pushes fmt init) (hn : 0 < n)
    (h : Telling dec fmt init m n sourceFile destinationFile called w)
    (hok : (streamAnswer dec.toCodec () w.sourceLength n w).result ≠ .error) :
    Telling dec fmt init m n sourceFile destinationFile true
      (Io.streamed dec.toCodec () w.sourceLength n w) where
  toMoved := h.toMoved.streamed (le_refl _)
  feeding := .call _ _ h.feeding hok
  filled := by
    have hfilled := h.filled
    simp only [Io.streamed, streamAnswer, Codec.call_emitted, List.length_append]
    omega
  told _ := by
    refine hdec.told h.feeding hok fun hroom hnil => ?_
    have hfilled := h.filled
    rw [hnil, List.length_nil] at hfilled
    omega

theorem bufferedDecompress_telling (hdec : dec.Pushes fmt init) (hn : 0 < n)
    (h : Telling dec fmt init m n sourceFile destinationFile called w)
    (hx : bufferedDecompress dec gvl n fuel w = some (.ok, w')) :
    Telling dec fmt init m n sourceFile destinationFile true w' := by
  have hstart : ∃ called, Telling dec fmt init m n sourceFile destinationFile called w := ⟨_, h⟩
  refine bufferedLoop_partial (m := m) (decompressWrapper_eq dec)
    (I := fun w => ∃ called, Telling dec fmt init m n sourceFile destinationFile called w)
    (Q := fun x => x.1 = .ok → Telling dec fmt init m n sourceFile destinationFile true x.2)
    ?_ ?_ ?_ ?_ hstart hx rfl
  · rintro w ⟨_, h⟩
    exact ⟨h.wellFormed, le_refl _⟩
  · rintro w extResult - hfail hok
    obtain ⟨-, rfl⟩ := decoderFailure_some hfail
    exact absurd hok (brsExtGetDecompressorError_ne _).1
  · rintro w ⟨_, h⟩ hnone - -
    exact h.streamed hdec hn (decoderFailure_none.mp hnone)
  · rintro w ⟨_, h⟩ hnone -
    refine ⟨fun _ hok => (by cases hok), fun f _ _ hok => (by cases hok), ?_⟩
    intro f _ hwritten herror hfaultless
    have hs := h.streamed hdec hn (decoderFailure_none.mp hnone)
    exact ⟨true, { toMoved := hs.toMoved.flushed hwritten herror hfaultless
                   feeding := hs.feeding
                   filled := Nat.zero_le _
                   told := hs.told }⟩

/-- A read leaves the decoder and the destination alone. -/
theorem Telling.readMoreSource
    (h : Telling dec fmt init m n sourceFile destinationFile called w)
    (hr : (w.readMoreSource m).1 ≠ .readIo) :
    Telling dec fmt init m n sourceFile destinationFile called (w.readMoreSource m).2 := by
  have hframe := (readMoreSource_cases h.wellFormed).1
  exact
    { toMoved := h.toMoved.readMoreSource hr
      feeding := hframe.coder ▸ h.feeding
      filled := by rw [hframe.destinationLength, hframe.coder]; exact h.filled
      told := by rw [hframe.coder]; exact h.told }

/-- The loop that reads the source has made a call when it is left. -/
theorem bufferedReadSource_telling (hdec : dec.Pushes fmt init) (hn : 0 < n)
    (h : Telling dec fmt init m n sourceFile destinationFile false w)
    (hx : bufferedReadSource (bufferedDecompress dec gvl n fuel) m fuel w = some (.ok, w')) :
    Telling dec fmt init m n sourceFile destinationFile true w' := by
  refine bufferedReadSource_partial (m := m)
    (I := Telling dec fmt init m n sourceFile destinationFile)
    (J := fun w => ∃ called, Telling dec fmt init m n sourceFile destinationFile called w)
    (Q := fun x => x.1 = .ok → Telling dec fmt init m n sourceFile destinationFile true x.2)
    ?_ ?_ ?_ ?_ ?_ ?_ ?_ h hx rfl
  · intro called w h hr
    exact ⟨called, h.readMoreSource (by rw [hr]; decide)⟩
  · rintro w w' ⟨_, h⟩ hf
    exact bufferedDecompress_telling hdec hn h hf
  · intro w extResult w' _ _ hne hok
    exact absurd hok hne
  · intro _ w _ _ _ hok
    cases hok
  · intro w h hr _ _
    exact h.readMoreSource (by rw [hr]; decide)
  · rintro w ⟨extResult, w'⟩ h hr - hf hok
    obtain rfl : extResult = .ok := hok
    exact bufferedDecompress_telling hdec hn (h.readMoreSource (by rw [hr]; decide)) hf
  · intro _ w _ hne _ hok
    exact absurd hok hne

theorem decompress_told {handle : Nat} {sourceBuffer destinationBuffer : List UInt8}
    (hdec : dec.Pushes fmt init) (hdestination : 0 < destinationBuffer.length)
    {x : ExtResult × Io (DecoderInstance σ)}
    (h : decompress dec gvl sourceBuffer.length destinationBuffer.length fuel
      ⟨handle, init, []⟩ sourceFile sourceBuffer destinationFile destinationBuffer = some x)
    (hok : x.1 = .ok) : Told fmt x.2.coder := by
  obtain ⟨⟨extResult, w⟩, hloop, hx⟩ := Option.map_eq_some_iff.mp h
  by_cases hresult : extResult = .ok
  · subst hresult
    have hw := bufferedReadSource_telling hdec hdestination
      { toMoved := .start handle init sourceBuffer destinationBuffer
        feeding := .start handle
        filled := Nat.zero_le _
        told := nofun } hloop
    simp only [ne_eq, not_true_eq_false, if_false] at hx
    rw [← hx]
    rcases hw.writeRemainingDestination with ⟨f, heq, -⟩ | ⟨f, heq, -⟩
    · rw [heq]
      exact hw.told rfl
    · rw [heq]
      exact hw.told rfl
  · simp only [ne_eq, hresult, not_false_eq_true, if_true] at hx
    rw [← hx] at hok
    exact absurd hok hresult

end Io

theorem Setup.produced_file_short {source : List UInt8} (e : Setup source) {fuel : Nat}
    {y : ExtResult × Io (DecoderInstance σ)} (hdec : dec.Pushes fmt init)
    (hopen : fmt.Open source) (hshort : (fmt.decodable source).length ≤ 1)
    (hy : e.decompressFile dec init fuel = some y) :
    Io.produced e.destinationFile y = some (fmt.decodable source) := by
  have hfollows := Io.decompress_follows hdec.toFollows e.sourceFile_faultless
    e.destinationFile_faultless e.sourceBuffer_pos e.destinationBuffer_pos hy
  rw [e.unread] at hfollows
  rcases hfollows with ⟨hok, hwritten, ⟨hcomplete, -⟩ | ⟨-, hanswered, hconsumed⟩⟩ | ⟨-, hends⟩
  · exact absurd hopen (hcomplete.not_open (List.prefix_refl _))
  · have hprefix := hdec.emits_answered (by decide) hanswered
    have hall := (Io.decompress_told hdec e.destinationBuffer_pos hy hok).emitted_eq hprefix
      (hconsumed.symm ▸ hshort)
    rw [hconsumed] at hall
    exact Io.produced_ok hok (hall ▸ hwritten)
  · rcases hends with ⟨p, hp, -, hcomplete⟩ | ⟨p, hp, hcorrupt⟩
    · exact absurd hopen (hcomplete.not_open hp)
    · exact absurd hopen (hcorrupt.not_open hp)

/-! ## Both functions -/

/-- On a truncated stream the two functions agree, for every decoder that pushes what it
    has and in every setup, exactly when no more than one byte can be told from it. -/
theorem agree_truncated_iff {source : List UInt8} (hopen : fmt.Open source) :
    (∀ (σ : Type) (dec : Decoder σ) (init : σ), dec.Pushes fmt init → Agree dec init source) ↔
      (fmt.decodable source).length ≤ 1 := by
  constructor
  · intro hall
    have htake := (hall _ _ _ (formatDecoder_pushes fmt)).take_eq hopen
    have hlength := congrArg List.length htake
    simp only [id, Nat.min_self, List.length_take] at hlength
    omega
  · intro hshort σ dec init hdec e
    obtain ⟨enough, hreturns⟩ := e.returns (hdec.reading source) (.start e.handle)
    refine ⟨enough + 1, fun fuel hfuel => ?_⟩
    obtain ⟨k, rfl⟩ : ∃ k, fuel = k + 1 := ⟨fuel - 1, by omega⟩
    obtain ⟨x, hx, hstring⟩ := e.produced_string_short hdec hopen hshort k
    obtain ⟨-, y, hy⟩ := hreturns (k + 1) (by omega)
    exact ⟨x, y, hx, hy, by rw [hstring, e.produced_file_short hdec hopen hshort hy]⟩

end RubyBrs
