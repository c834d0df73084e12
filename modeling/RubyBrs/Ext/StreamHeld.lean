/-
  RubyBrs.Ext.StreamHeld

  What a `NativeDecompressor` can hold back.

  When the input runs out, the decoder pushes what it has room for and asks for
  more input even if it holds more output back.  `brs_ext_decompress` looks at the
  answer only, and reports that it does not need more destination.  So a `read`
  leaves nothing behind exactly when the room in the buffer was enough for all that
  can be decoded (`nothingHeld_iff`), and a program that never reads with too little
  room gets everything that was flushed to it (`Roomy.fed`).
-/

import RubyBrs.Ext.Reading
import RubyBrs.Ext.StreamDecompressor
import RubyBrs.Ext.Stored

namespace RubyBrs

open StreamCodec StreamFormat

variable {σ : Type} {dec : Decoder σ} {fmt : Format UInt8} {init : σ}

/-! ## The decoder -/

/-- The stream has ended or broken with this input, or all that can be decoded of
    it and was not emitted yet has room. -/
def Decoder.Fits (fmt : Format UInt8) (i : DecoderInstance σ) (input : List UInt8)
    (room : Nat) : Prop :=
  ¬ fmt.Open (i.consumed ++ input) ∨
    (fmt.decodable (i.consumed ++ input)).length ≤ i.emitted.length + room

/-- A decoder that asks for no more room has emitted all that it can exactly when
    that had room. -/
theorem Decoder.Pushes.emitted_eq_iff (hdec : dec.Pushes fmt init) {i : DecoderInstance σ}
    (hi : dec.Feeding init i) {input : List UInt8} {room : Nat}
    (hok : (dec.stream i.state () input room).result ≠ .error)
    (hdone : (dec.stream i.state () input room).result ≠ .needsMoreOutput) :
    (dec.call i () input room).emitted = fmt.decodable (dec.call i () input room).consumed ↔
      Decoder.Fits fmt i input room := by
  rw [Codec.call_emitted, Codec.call_consumed]
  cases hresult : (dec.stream i.state () input room).result with
  | error => exact absurd hresult hok
  | needsMoreOutput => exact absurd hresult hdone
  | success =>
      obtain ⟨hcomplete, hall⟩ := hdec.success hi hresult
      -- The stream ended inside the input, and all of its content was emitted.
      have hprefix : i.consumed ++ input.take (dec.stream i.state () input room).consumed <+:
          i.consumed ++ input := (List.prefix_append_right_inj _).mpr (List.take_prefix _ _)
      exact ⟨fun _ => Or.inl (hcomplete.not_open hprefix), fun _ => hall.symm⟩
  | needsMoreInput =>
      obtain ⟨hall, hopen⟩ := hdec.needsInput hi hresult
      have hprefix := hdec.emits input room hi hok
      have houtput := dec.output_le i.state () input room
      rw [hall, List.take_length] at hprefix ⊢
      constructor
      · intro heq
        right
        rw [← heq, List.length_append]
        omega
      · rintro (hnot | hroom)
        · exact absurd hopen hnot
        · rcases hdec.pushes hi hresult with hfull | heq
          · -- The room was used up, and it was enough.
            apply hprefix.eq_of_length_le
            rw [List.length_append, hfull]
            exact hroom
          · exact heq

/-! ## The decompressor -/

namespace Decompressor

/-- A `read` that returned. -/
theorem read_ok {o o' : Decompressor σ} {coder : DecoderInstance σ} {buffer : Buffer}
    (hopen : o.IsOpen coder buffer) {m m' : Memory} {source : List UInt8} {n : Nat} {more : Bool}
    (h : brsExtDecompress dec m o (.value (.string source)) = (.ok (n, more), m', o')) :
    (dec.stream coder.state () source o.remainingDestinationBufferLength).result ≠ .error ∧
      n = (dec.stream coder.state () source o.remainingDestinationBufferLength).consumed ∧
      (more = false ↔ (dec.stream coder.state () source
        o.remainingDestinationBufferLength).result ≠ .needsMoreOutput) ∧
      (∃ buffer', o'.IsOpen (dec.call coder () source o.remainingDestinationBufferLength)
        buffer') ∧
      o'.filled = o.filled ++
        (dec.stream coder.state () source o.remainingDestinationBufferLength).output := by
  obtain ⟨m₁, o₁, buffer', hcall, -, hopen', hfilled', -⟩ :=
    hopen.streamCall (decompressCall dec) source m rfl
  rw [← hopen.remaining_eq] at hcall hopen' hfilled'
  simp only [brsExtDecompress, hopen.unlessClosed, checkString, hcall] at h
  obtain ⟨hvalue, hstate⟩ := Prod.mk.inj h
  obtain ⟨rfl, rfl⟩ := Prod.mk.inj hstate
  split at hvalue
  · cases hvalue
  · rename_i hfailure
    obtain ⟨rfl, rfl⟩ := Prod.mk.inj (Except.ok.inj hvalue)
    exact ⟨decoderFailure_none.mp hfailure, rfl, beq_eq_false_iff_ne, ⟨buffer', hopen'⟩, hfilled'⟩

/-- What can come of a new decompressor by reading, and by taking results, in any
    order, with the bytes that were handed out. -/
inductive Reached (dec : Decoder σ) (new : Decompressor σ) : Decompressor σ → List UInt8 → Prop
  | new : Reached dec new new []
  | read {o o' : Decompressor σ} {handed source : List UInt8} {m m' : Memory} {value : Nat × Bool}
      (h : Reached dec new o handed)
      (hread : brsExtDecompress dec m o (.value (.string source)) = (.ok value, m', o')) :
      Reached dec new o' handed
  | readResult {o o' : Decompressor σ} {handed value : List UInt8} {m m' : Memory}
      (h : Reached dec new o handed)
      (hread : brsExtDecompressorReadResult m o = (.ok value, m', o')) :
      Reached dec new o' (handed ++ value)

theorem Reached.feeding {new o : Decompressor σ} {handed : List UInt8} {handle : Nat}
    {buffer : Buffer} (hnew : new.IsOpen ⟨handle, init, []⟩ buffer) (hfilled : new.filled = [])
    (h : Reached dec new o handed) :
    ∃ coder buffer, o.IsOpen coder buffer ∧ dec.Feeding init coder ∧
      handed ++ o.filled = coder.emitted := by
  induction h with
  | new => exact ⟨_, buffer, hnew, .start handle, hfilled⟩
  | @read o o' handed source m m' value _ hread ih =>
      obtain ⟨coder, buffer, hopen, hfeeding, hdelivered⟩ := ih
      obtain ⟨hok, -, -, ⟨buffer', hopen'⟩, hfilled'⟩ := read_ok hopen hread
      refine ⟨_, buffer', hopen', .call source _ hfeeding hok, ?_⟩
      rw [hfilled', ← List.append_assoc, hdelivered, Codec.call_emitted]
  | @readResult o o' handed value m m' _ hread ih =>
      obtain ⟨coder, buffer, hopen, hfeeding, hdelivered⟩ := ih
      rcases hopen.readResult m with ⟨-, m₁, herror⟩ | ⟨m₁, o₁, hok, -, hopen', hfilled', -⟩
      · rw [brsExtDecompressorReadResult, herror] at hread
        cases hread
      · rw [brsExtDecompressorReadResult, hok] at hread
        obtain ⟨hvalue, hstate⟩ := Prod.mk.inj hread
        obtain ⟨-, rfl⟩ := Prod.mk.inj hstate
        obtain rfl := Except.ok.inj hvalue
        refine ⟨coder, buffer, hopen', hfeeding, ?_⟩
        rw [hfilled', List.append_nil, hdelivered]

/-- All that the decoder could emit was handed out or is in the buffer. -/
def NothingHeld (dec : Decoder σ) (fmt : Format UInt8) (o : Decompressor σ)
    (handed : List UInt8) : Prop :=
  ∃ coder, o.statePtr = some coder ∧ dec.hasMoreOutput coder.state = false ∧
    handed ++ o.filled = fmt.decodable coder.consumed

/-- The buffer has room for what a `read` of these bytes can give. -/
def Fits (fmt : Format UInt8) (o : Decompressor σ) (source : List UInt8) : Prop :=
  ∀ coder, o.statePtr = some coder →
    Decoder.Fits fmt coder source o.remainingDestinationBufferLength

/-- Nothing is held back exactly when everything was emitted. -/
theorem nothingHeld_iff_emitted (hdec : dec.Pushes fmt init) {o : Decompressor σ}
    {coder : DecoderInstance σ} (hcoder : o.statePtr = some coder)
    (hfeeding : dec.Feeding init coder) {handed : List UInt8}
    (hdelivered : handed ++ o.filled = coder.emitted) :
    NothingHeld dec fmt o handed ↔ coder.emitted = fmt.decodable coder.consumed := by
  constructor
  · rintro ⟨coder', hcoder', -, hall⟩
    obtain rfl := Option.some.inj (hcoder.symm.trans hcoder')
    exact hdelivered.symm.trans hall
  · intro hall
    refine ⟨coder, hcoder, ?_, hdelivered.trans hall⟩
    -- The decoder says so itself, in a function that `read` does not ask.
    cases hmore : dec.hasMoreOutput coder.state with
    | false => rfl
    | true => exact absurd hall ((hdec.holds hfeeding).mp hmore)

/-- After a `read` that reports no need of more destination, nothing is held back
    exactly when it had room. -/
theorem nothingHeld_iff (hdec : dec.Pushes fmt init) {new : Decompressor σ} {handle : Nat}
    {buffer : Buffer} (hnew : new.IsOpen ⟨handle, init, []⟩ buffer) (hfilled : new.filled = [])
    {o o' : Decompressor σ} {handed source : List UInt8} (h : Reached dec new o handed)
    {m m' : Memory} {n : Nat}
    (hread : brsExtDecompress dec m o (.value (.string source)) = (.ok (n, false), m', o')) :
    NothingHeld dec fmt o' handed ↔ Fits fmt o source := by
  obtain ⟨coder, buffer', hopen, hfeeding, hdelivered⟩ := h.feeding hnew hfilled
  obtain ⟨hok, -, hdone, ⟨buffer'', hopen'⟩, hfilled'⟩ := read_ok hopen hread
  have hdelivered' : handed ++ o'.filled =
      (dec.call coder () source o.remainingDestinationBufferLength).emitted := by
    rw [hfilled', ← List.append_assoc, hdelivered, Codec.call_emitted]
  rw [nothingHeld_iff_emitted hdec hopen'.statePtr (.call source _ hfeeding hok) hdelivered',
    hdec.emitted_eq_iff hfeeding hok (hdone.mp rfl)]
  constructor
  · intro hfits coder' hcoder'
    obtain rfl := Option.some.inj (hopen.statePtr.symm.trans hcoder')
    exact hfits
  · exact fun hfits => hfits coder hopen.statePtr

/-- Taking the result takes nothing from it. -/
theorem NothingHeld.readResult {o o' : Decompressor σ} {handed value : List UInt8}
    (h : NothingHeld dec fmt o handed) (hstate : o'.statePtr = o.statePtr)
    (hvalue : value ++ o'.filled = o.filled) : NothingHeld dec fmt o' (handed ++ value) := by
  obtain ⟨coder, hcoder, hmore, hall⟩ := h
  refine ⟨coder, hstate.trans hcoder, hmore, ?_⟩
  rw [List.append_assoc, hvalue, hall]

end Decompressor

/-! ## The program -/

/-- Where a program that reads can come to, as long as it has room for every `read`
    that reports no need of more destination. -/
inductive Roomy (dec : Decoder σ) (fmt : Format UInt8)
    (start : StreamCaller (DecoderInstance σ) Unit) : StreamCaller (DecoderInstance σ) Unit → Prop
  | start : Roomy dec fmt start start
  | request {c c' : StreamCaller (DecoderInstance σ) Unit} (h : Roomy dec fmt start c)
      (hrequest : c.request (decompressorMethod dec) = some c')
      (hfits : c'.phase = .ready → ∀ source rest, c.todo = ((), source) :: rest →
        Decompressor.Fits fmt c.object source) :
      Roomy dec fmt start c'
  | readResult {c : StreamCaller (DecoderInstance σ) Unit} (h : Roomy dec fmt start c) :
      Roomy dec fmt start c.readResult

/-- What holds of it there. -/
structure Fed (dec : Decoder σ) (fmt : Format UInt8) (new : Decompressor σ)
    (chunks : List (List UInt8)) (c : StreamCaller (DecoderInstance σ) Unit) : Prop where
  reached : Decompressor.Reached dec new c.object c.results.flatten
  busy : c.phase ≠ .ready → c.todo ≠ []
  held : c.phase = .ready → Decompressor.NothingHeld dec fmt c.object c.results.flatten
  offered : fmt.Open chunks.flatten → ∀ coder, c.object.statePtr = some coder →
    coder.consumed ++ inputs c.todo = chunks.flatten

section Fed

variable {new : Decompressor σ} {handle : Nat} {buffer : Buffer}
  (hnew : new.IsOpen ⟨handle, init, []⟩ buffer) (hfilled : new.filled = [])
  (hdec : dec.Pushes fmt init) {chunks : List (List UInt8)}
  {c c' : StreamCaller (DecoderInstance σ) Unit}

include hnew hfilled

theorem Fed.readResult (h : Fed dec fmt new chunks c) : Fed dec fmt new chunks c.readResult := by
  obtain ⟨coder, buffer', hopen, -, -⟩ := h.reached.feeding hnew hfilled
  rcases hopen.readResult c.memory with
    ⟨-, m', hread⟩ | ⟨m', o', hread, -, hopen', hfilled', -⟩
  · simp only [StreamCaller.readResult, hread]
    exact ⟨h.reached, h.busy, h.held, h.offered⟩
  · have hstate : o'.statePtr = c.object.statePtr :=
      hopen'.statePtr.trans hopen.statePtr.symm
    have hready : (if c.phase = .ready then Phase.ready else .again) = .ready ↔
        c.phase = .ready := by
      split <;> simp_all
    simp only [StreamCaller.readResult, hread]
    refine ⟨?_, fun hbusy => ?_, fun hphase => ?_, fun hflat => ?_⟩
    · rw [List.flatten_append, List.flatten_singleton]
      exact .readResult h.reached hread
    · exact h.busy fun hphase => hbusy (hready.mpr hphase)
    · rw [List.flatten_append, List.flatten_singleton]
      exact (h.held (hready.mp hphase)).readResult hstate (by rw [hfilled', List.append_nil])
    · rw [hstate]
      exact h.offered hflat

include hdec

theorem Fed.start (m : Memory) : Fed dec fmt new chunks (.start m new (readerRequests chunks)) where
  reached := .new
  busy h := absurd rfl h
  held _ := by
    refine (Decompressor.nothingHeld_iff_emitted hdec hnew.statePtr (.start handle) hfilled).mpr ?_
    exact fmt.decodable_nil.symm
  offered _ coder hcoder := by
    obtain rfl := Option.some.inj (hnew.statePtr.symm.trans hcoder)
    exact inputs_readerRequests chunks

theorem Fed.request (h : Fed dec fmt new chunks c)
    (hrequest : c.request (decompressorMethod dec) = some c')
    (hfits : c'.phase = .ready → ∀ source rest, c.todo = ((), source) :: rest →
      Decompressor.Fits fmt c.object source) : Fed dec fmt new chunks c' := by
  obtain ⟨⟨⟩, source, rest, count, more, htodo, hread, hresults, hcases⟩ :=
    StreamCaller.request_cases hrequest
  obtain ⟨coder, buffer', hopen, hfeeding, -⟩ := h.reached.feeding hnew hfilled
  obtain ⟨hok, rfl, hdone, ⟨buffer'', hopen'⟩, -⟩ := Decompressor.read_ok hopen hread
  have hreached : Decompressor.Reached dec new c'.object c'.results.flatten :=
    hresults.symm ▸ .read h.reached hread
  have hinputs : fmt.Open chunks.flatten →
      coder.consumed ++ (source ++ inputs rest) = chunks.flatten := by
    intro hflat
    have hoffered := h.offered hflat coder hopen.statePtr
    rwa [htodo] at hoffered
  -- More destination is needed, or the chunk is done and had room.
  rcases hcases with ⟨-, htodo', hphase'⟩ | ⟨rfl, htodo', hphase'⟩
  · refine ⟨hreached, fun _ => ?_, fun hready => ?_, fun hflat coder' hcoder' => ?_⟩
    · rw [htodo']
      exact List.cons_ne_nil _ _
    · rw [hphase'] at hready
      cases hready
    · obtain rfl := Option.some.inj (hopen'.statePtr.symm.trans hcoder')
      rw [htodo', Codec.call_consumed, inputs_cons, List.append_assoc,
        ← List.append_assoc (List.take _ _), List.take_append_drop, hinputs hflat]
  · refine ⟨hreached, fun hbusy => absurd hphase' hbusy, fun _ => ?_,
      fun hflat coder' hcoder' => ?_⟩
    · rw [hresults]
      exact (Decompressor.nothingHeld_iff hdec hnew hfilled h.reached hread).mpr
        (hfits hphase' source rest htodo)
    · obtain rfl := Option.some.inj (hopen'.statePtr.symm.trans hcoder')
      have hprefix : coder.consumed ++ source <+: chunks.flatten :=
        ⟨inputs rest, by rw [List.append_assoc]; exact hinputs hflat⟩
      -- The stream has not ended, so all of the chunk was taken.
      have hall : (dec.stream coder.state () source
          c.object.remainingDestinationBufferLength).consumed = source.length := by
        cases hresult : (dec.stream coder.state () source
            c.object.remainingDestinationBufferLength).result with
        | error => exact absurd hresult hok
        | needsMoreOutput => exact absurd hresult (hdone.mp rfl)
        | needsMoreInput => exact (hdec.needsInput hfeeding hresult).1
        | success =>
            have hcomplete := (hdec.success hfeeding hresult).1
            refine absurd hflat (hcomplete.not_open (List.IsPrefix.trans ?_ hprefix))
            exact (List.prefix_append_right_inj _).mpr (List.take_prefix _ _)
      rw [htodo', Codec.call_consumed, hall, List.take_length, List.append_assoc, hinputs hflat]

theorem Roomy.fed {m : Memory} (h : Roomy dec fmt (.start m new (readerRequests chunks)) c) :
    Fed dec fmt new chunks c := by
  induction h with
  | start => exact .start hnew hfilled hdec m
  | request _ hrequest hfits ih => exact ih.request hnew hfilled hdec hrequest hfits
  | readResult _ ih => exact ih.readResult hnew hfilled

end Fed

/-- A new `NativeDecompressor`, with options that leave the decoder in a state from
    which it pushes its output.  In every state that reading and taking results can
    lead to, a `read` that reports no need of more destination leaves nothing held
    back exactly when it had room.  A program that has room for each of them has all
    that can be decoded from what it has read; so of the bytes up to a flush it has,
    at the end, all that was written before the flush. -/
theorem nothingHeld_iff_fits {hash : Hash} {read : StringOptions DecompressorOptions} {s : σ}
    (hread : getStringOptions getDecompressorOptions hash = .ok read)
    (hset : brsExtSetDecompressorOptions dec dec.create read.codec = (.ok, s))
    (hdec : dec.Pushes fmt s) {m m' : Memory} {o new : Decompressor σ}
    (hinit : brsExtInitializeDecompressor dec m o (.hash hash) = (.ok (), m', new)) :
    (∀ {o o' handed source m m' n}, Decompressor.Reached dec new o handed →
      brsExtDecompress dec m o (.value (.string source)) = (.ok (n, false), m', o') →
      (Decompressor.NothingHeld dec fmt o' handed ↔ Decompressor.Fits fmt o source)) ∧
    ∀ {chunks c}, Roomy dec fmt (.start m' new (readerRequests chunks)) c →
      (c.phase = .ready → Decompressor.NothingHeld dec fmt c.object c.results.flatten) ∧
      (fmt.Open chunks.flatten → c.todo = [] → c.object.filled = [] →
        c.results.flatten = fmt.decodable chunks.flatten) := by
  obtain ⟨handle, buffer, hnew, hfilled, -⟩ := StreamObject.initializeObject_ok hread hset hinit
  refine ⟨fun h hread => Decompressor.nothingHeld_iff hdec hnew hfilled h hread,
    fun {chunks c} hroomy => ?_⟩
  have h := hroomy.fed hnew hfilled hdec
  refine ⟨h.held, fun hflat htodo hempty => ?_⟩
  have hphase : c.phase = .ready := by
    by_contra hbusy
    exact h.busy hbusy htodo
  obtain ⟨coder, hcoder, -, hall⟩ := h.held hphase
  have hoffered := h.offered hflat coder hcoder
  rw [htodo, inputs_nil, List.append_nil] at hoffered
  rwa [hempty, List.append_nil, hoffered] at hall

/-- With a buffer of one byte. -/
theorem nothingHeld_iff_fits_oneByte :
    ∃ m new, brsExtInitializeDecompressor (formatDecoder storedFormat id) Memory.unused (.new 0)
        (.hash oneByteOptions) = (.ok (), m, new) ∧
      (∀ {o o' handed source m m' n},
        Decompressor.Reached (formatDecoder storedFormat id) new o handed →
        brsExtDecompress (formatDecoder storedFormat id) m o (.value (.string source)) =
          (.ok (n, false), m', o') →
        (Decompressor.NothingHeld (formatDecoder storedFormat id) storedFormat o' handed ↔
          Decompressor.Fits storedFormat o source)) ∧
      ∀ {chunks c},
        Roomy (formatDecoder storedFormat id) storedFormat
          (.start m new (readerRequests chunks)) c →
        (c.phase = .ready → Decompressor.NothingHeld (formatDecoder storedFormat id) storedFormat
          c.object c.results.flatten) ∧
        (storedFormat.Open chunks.flatten → c.todo = [] → c.object.filled = [] →
          c.results.flatten = storedFormat.decodable chunks.flatten) := by
  have hpushes := formatDecoder_pushes storedFormat
  obtain ⟨m, new, hinit, -⟩ : ∃ m new, brsExtInitializeDecompressor
      (formatDecoder storedFormat id) Memory.unused (.new 0) (.hash oneByteOptions) =
        (.ok (), m, new) ∧ m.Faultless :=
    brsExtInitializeDecompressor_run rfl rfl Memory.unused_faultless _
  exact ⟨m, new, hinit, nothingHeld_iff_fits rfl rfl hpushes hinit⟩

/-- Whenever a `read` of a new decompressor with these options reports no need of
    more destination, nothing is held back. -/
def NeverHeld (dec : Decoder σ) (fmt : Format UInt8) (hash : Hash) : Prop :=
  ∀ {m m' o new}, brsExtInitializeDecompressor dec m o (.hash hash) = (.ok (), m', new) →
    ∀ {o o' handed source m m' n}, Decompressor.Reached dec new o handed →
      brsExtDecompress dec m o (.value (.string source)) = (.ok (n, false), m', o') →
      Decompressor.NothingHeld dec fmt o' handed

/-- Two bytes that were flushed, read with a buffer of one byte: the second is held
    back, and all the input was taken. -/
theorem not_neverHeld_twoBytes :
    (formatDecoder storedFormat id).Pushes storedFormat (formatDecoder storedFormat id).create ∧
      ¬ NeverHeld (formatDecoder storedFormat id) storedFormat oneByteOptions := by
  refine ⟨formatDecoder_pushes storedFormat, fun hnever => ?_⟩
  have hheld := hnever
    (show brsExtInitializeDecompressor (formatDecoder storedFormat id) Memory.unused (.new 0)
      (.hash oneByteOptions) = (.ok (), _, _) from rfl) .new
    (show brsExtDecompress (formatDecoder storedFormat id) Memory.unused _
      (.value (.string [0x0b, 0, 0x80, 7, 0, 0, 8, 9])) = (.ok (8, false), _, _) from rfl)
  obtain ⟨coder, hcoder, hmore, -⟩ := hheld
  obtain rfl := Option.some.inj hcoder
  exact absurd hmore (by decide)

end RubyBrs
