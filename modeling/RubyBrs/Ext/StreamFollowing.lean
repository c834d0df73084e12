/-
  RubyBrs.Ext.StreamFollowing

  A program that reads any bytes through a `NativeDecompressor`, in chunks: a stream
  that is complete, that something follows, that is cut short or that is broken.

  As long as the stream has not ended, the decoder is offered the bytes once and in
  order; after its end it takes and emits nothing, so what is offered then does not
  matter (`Receiving`).  Hence the program reads a first part of the bytes, and nothing
  behind the end of the stream; at the end of its chunks it has the content of the
  stream, or the stream was cut short; and if an exception stops it the stream was
  broken (`decompressor_follows`).  Where the stream ends or breaks, that is what
  `decompress` of `string.c` makes of the same bytes (`decompressor_agrees`).
-/

import RubyBrs.Ext.OneShot
import RubyBrs.Ext.StreamReading

namespace RubyBrs

open StreamCodec StreamFormat

variable {σ : Type} {dec : Decoder σ} {fmt : Format UInt8} {init : σ}

/-! ## The decoder -/

namespace Decoder

/-- What was emitted at any time can be told from what was taken. -/
theorem Follows.emitted_prefix (hdec : dec.Follows fmt init) {i : DecoderInstance σ}
    (hi : dec.Feeding init i) : i.emitted <+: fmt.decodable i.consumed := by
  cases hi with
  | start handle => exact List.nil_prefix
  | call input room hi hok =>
      rw [Codec.call_emitted, Codec.call_consumed]
      exact hdec.emits input room hi hok

/-- What was taken at any time is the start of a stream, or all of it. -/
theorem Follows.within (hdec : dec.Follows fmt init) {i : DecoderInstance σ}
    (hi : dec.Feeding init i) : fmt.Open i.consumed ∨ fmt.Complete i.consumed := by
  cases hi with
  | start handle => exact Or.inl Format.open_nil
  | call input room hi hok =>
      rename_i i
      rw [Codec.call_consumed]
      cases hresult : (dec.stream i.state () input room).result with
      | error => exact absurd hresult hok
      | success => exact Or.inr (hdec.success hi hresult).1
      | needsMoreOutput => exact (hdec.needsOutput hi hresult).2.2
      | needsMoreInput =>
          obtain ⟨hall, hopen⟩ := hdec.needsInput hi hresult
          rw [hall, List.take_length]
          exact Or.inl hopen

/-- Of bytes that begin with a whole stream, no more than that is taken. -/
theorem Follows.consumed_le (hdec : dec.Follows fmt init) {i : DecoderInstance σ}
    (hi : dec.Feeding init i) {p s : List UInt8} (hconsumed : i.consumed <+: s) (hp : p <+: s)
    (hcomplete : fmt.Complete p) : i.consumed.length ≤ p.length := by
  rcases List.prefix_or_prefix_of_prefix hconsumed hp with hle | hle
  · exact hle.length_le
  · rcases hdec.within hi with hopen | hcomplete'
    · exact absurd hopen (hcomplete.not_open hle)
    · have heq : i.consumed = p :=
        Format.Reaches.unique hcomplete' hcomplete (by decide) (by decide) hconsumed hp
      rw [heq]

/-- After the end of the stream the decoder takes nothing, emits nothing and goes on
    to answer that it succeeded. -/
theorem Follows.after_end (hdec : dec.Follows fmt init) {i : DecoderInstance σ}
    (hi : dec.Feeding init i) (hend : fmt.Decodes i.consumed i.emitted) (input : List UInt8)
    (room : Nat) :
    (dec.stream i.state () input room).result = .success ∧
      (dec.call i () input room).consumed = i.consumed ∧
      (dec.call i () input room).emitted = i.emitted := by
  obtain ⟨hcomplete, hall⟩ := hend
  have hfirst : i.consumed <+:
      i.consumed ++ input.take (dec.stream i.state () input room).consumed :=
    List.prefix_append _ _
  -- No later point is an end of the stream as well.
  have hsame : fmt.Complete (i.consumed ++
      input.take (dec.stream i.state () input room).consumed) →
      i.consumed ++ input.take (dec.stream i.state () input room).consumed = i.consumed :=
    fun h => (Format.Reaches.unique hcomplete h (by decide) (by decide) hfirst
      (List.prefix_refl _)).symm
  have hfull : ∀ {output : List UInt8}, i.emitted ++ output <+: i.emitted → output = [] := by
    intro output h
    apply List.length_eq_zero_iff.mp
    have hle := h.length_le
    rw [List.length_append] at hle
    omega
  rw [Codec.call_consumed, Codec.call_emitted]
  cases hresult : (dec.stream i.state () input room).result with
  | error =>
      obtain ⟨n, -, hcorrupt⟩ := hdec.error hi hresult
      exact absurd hcorrupt (hcomplete.not_corrupt (List.prefix_append _ _) (List.prefix_refl _))
  | needsMoreInput =>
      obtain ⟨-, hopen⟩ := hdec.needsInput hi hresult
      exact absurd hopen (hcomplete.not_open (List.prefix_append _ _))
  | needsMoreOutput =>
      obtain ⟨-, hmore, hopen | hcomplete'⟩ := hdec.needsOutput hi hresult
      · exact absurd hopen (hcomplete.not_open hfirst)
      · -- There is content left to emit, but all of it was emitted.
        have hemits := hdec.emits input room hi (by rw [hresult]; decide)
        rw [hsame hcomplete'] at hmore hemits
        rw [hall] at hmore hemits
        rw [hfull hemits, List.append_nil] at hmore
        exact absurd rfl hmore
  | success =>
      obtain ⟨hcomplete', hall'⟩ := hdec.success hi hresult
      rw [hsame hcomplete'] at hall' ⊢
      exact ⟨rfl, rfl, hall'.symm.trans hall⟩

end Decoder

/-! ## The exchange -/

/-- The stream has ended within `s`, and all of its content was emitted. -/
def Ended (fmt : Format UInt8) (s : List UInt8) (i : DecoderInstance σ) : Prop :=
  i.consumed <+: s ∧ fmt.Decodes i.consumed i.emitted

/-- What holds in every state of a run with these requests. -/
structure Receiving (dec : Decoder σ) (fmt : Format UInt8) (init : σ) (capacity : Nat)
    (hcapacity : 0 < capacity) (requests : List (Unit × List UInt8))
    (x : Exchange UInt8 σ Unit DecoderResult) : Prop where
  feeding : dec.Feeding init x.coder
  sound : Exchange.Sound (bufferedDecoder dec capacity hcapacity) requests x
  /-- The stream has ended, or all of the bytes are offered in order. -/
  reads : Ended fmt (inputs requests) x.coder ∨
    Exchange.Conserves requests x ∧ (x.phase = .ready → fmt.Open x.coder.consumed)
  paced : Exchange.Paced requests.length x

namespace Receiving

variable {capacity : Nat} {hcapacity : 0 < capacity} {requests : List (Unit × List UInt8)}
  {x x' : Exchange UInt8 σ Unit DecoderResult}

theorem start (handle : Nat) : Receiving dec fmt init capacity hcapacity requests
    (.start handle init requests) where
  feeding := .start handle
  sound := .start handle init
  reads := Or.inr ⟨rfl, fun _ => Format.open_nil⟩
  paced := .start handle init

theorem consumed_prefix (h : Receiving dec fmt init capacity hcapacity requests x) :
    x.coder.consumed <+: inputs requests := by
  rcases h.reads with hend | ⟨hconserves, -⟩
  · exact hend.1
  · exact ⟨inputs x.todo, hconserves⟩

/-- What was emitted can be told from the bytes there are. -/
theorem emitted_prefix (h : Receiving dec fmt init capacity hcapacity requests x)
    (hdec : dec.Follows fmt init) : x.coder.emitted <+: fmt.decodable (inputs requests) :=
  (hdec.emitted_prefix h.feeding).trans (fmt.decodable_mono h.consumed_prefix)

/-- As long as the bytes are offered in order, what is offered next are the next. -/
theorem offered (hconserves : Exchange.Conserves requests x) {op : Unit} {input : List UInt8}
    {rest : List (Unit × List UInt8)} (htodo : x.todo = (op, input) :: rest) :
    x.coder.consumed ++ input <+: inputs requests := by
  rw [Exchange.Conserves, htodo, inputs_cons, ← List.append_assoc] at hconserves
  exact ⟨inputs rest, hconserves⟩

/-- The decoder fails on a broken stream only. -/
theorem corrupt_of_error (h : Receiving dec fmt init capacity hcapacity requests x)
    (hdec : dec.Follows fmt init) {op : Unit} {input : List UInt8}
    {rest : List (Unit × List UInt8)} (htodo : x.todo = (op, input) :: rest) {room : Nat}
    (herror : (dec.stream x.coder.state () input room).result = .error) :
    ∃ p, p <+: inputs requests ∧ fmt.Corrupt p := by
  rcases h.reads with hend | ⟨hconserves, -⟩
  · have hsuccess := (hdec.after_end h.feeding hend.2 input room).1
    rw [herror] at hsuccess
    cases hsuccess
  · obtain ⟨n, -, hcorrupt⟩ := hdec.error h.feeding herror
    exact ⟨_, ((List.prefix_append_right_inj _).mpr (List.take_prefix n input)).trans
      (offered hconserves htodo), hcorrupt⟩

theorem call (h : Receiving dec fmt init capacity hcapacity requests x)
    (hdec : dec.Follows fmt init)
    (hcall : x.call (bufferedDecoder dec capacity hcapacity) = some x') :
    Receiving dec fmt init capacity hcapacity requests x' := by
  have hcalled := hcall
  obtain ⟨⟨⟩, input, rest, htodo, -, hfailed, hcases⟩ := Exchange.call_cases hcall
  have hok : (dec.stream x.coder.state () input (capacity - x.filled.length)).result ≠ .error :=
    beq_eq_false_iff_ne.mp hfailed
  -- The state of the decoder does not depend on whether the request is done.
  have hcoder : x'.coder = dec.call x.coder () input (capacity - x.filled.length) := by
    rcases hcases with ⟨-, rfl⟩ | ⟨-, rfl⟩ <;> rfl
  refine ⟨hcoder ▸ .call input _ h.feeding hok, h.sound.call hcalled, ?_, ?_⟩
  · rcases h.reads with ⟨hfirst, hend⟩ | ⟨hconserves, -⟩
    · obtain ⟨-, hconsumed, hemitted⟩ :=
        hdec.after_end h.feeding hend input (capacity - x.filled.length)
      left
      rw [Ended, hcoder, hconsumed, hemitted]
      exact ⟨hfirst, hend⟩
    · have hnext := offered hconserves htodo
      cases hresult : (dec.stream x.coder.state () input (capacity - x.filled.length)).result with
      | error => exact absurd hresult hok
      | success =>
          left
          rw [Ended, hcoder, Codec.call_consumed, Codec.call_emitted]
          exact ⟨((List.prefix_append_right_inj _).mpr (List.take_prefix _ _)).trans hnext,
            hdec.success h.feeding hresult⟩
      | needsMoreInput =>
          obtain ⟨hall, hopen⟩ := hdec.needsInput h.feeding hresult
          refine Or.inr ⟨hconserves.call hcalled ?_, fun _ => ?_⟩
          · intro op input' rest' htodo' _
            obtain ⟨heq, -⟩ := List.cons.inj (htodo.symm.trans htodo')
            obtain ⟨-, rfl⟩ := Prod.mk.inj heq
            exact hall
          · rw [hcoder, Codec.call_consumed, hall, List.take_length]
            exact hopen
      | needsMoreOutput =>
          -- The request stays in progress.
          have hmore : (bufferedDecoder dec capacity hcapacity).more ()
              (x.answer (bufferedDecoder dec capacity hcapacity) () input).state
              (x.answer (bufferedDecoder dec capacity hcapacity) () input).result = true :=
            beq_iff_eq.mpr hresult
          refine Or.inr ⟨hconserves.call hcalled ?_, fun hready => ?_⟩
          · intro op input' rest' htodo' hdone
            obtain ⟨heq, -⟩ := List.cons.inj (htodo.symm.trans htodo')
            obtain ⟨-, rfl⟩ := Prod.mk.inj heq
            rw [hmore] at hdone
            cases hdone
          · rcases hcases with ⟨-, rfl⟩ | ⟨hdone, -⟩
            · cases hready
            · rw [hmore] at hdone
              cases hdone
  · apply h.paced.call h.sound hcalled
    intro op input' rest' htodo' hfilled hmore
    -- More room was asked for with all of the buffer in use.
    have hfull := (hdec.needsOutput h.feeding (beq_iff_eq.mp hmore)).1
    apply List.length_pos_iff.mp
    rw [hfilled, List.length_nil, Nat.sub_zero] at hfull
    rw [Exchange.answer, hfilled, List.length_nil, Nat.sub_zero]
    exact hfull.symm ▸ hcapacity

theorem take (h : Receiving dec fmt init capacity hcapacity requests x) :
    Receiving dec fmt init capacity hcapacity requests x.take where
  feeding := h.feeding
  sound := h.sound.take
  reads := by
    rcases h.reads with hend | ⟨hconserves, hopen⟩
    · exact Or.inl hend
    · refine Or.inr ⟨hconserves, fun hready => hopen ?_⟩
      by_contra hphase
      simp [Exchange.take, hphase] at hready
  paced := h.paced.take

/-- What was offered is followed by one more chunk. -/
theorem offer (h : Receiving dec fmt init capacity hcapacity requests x)
    (request : Unit × List UInt8) :
    Receiving dec fmt init capacity hcapacity (requests ++ [request]) (x.offer request) where
  feeding := h.feeding
  sound := h.sound.offer request
  reads := by
    rcases h.reads with ⟨hfirst, hend⟩ | ⟨hconserves, hopen⟩
    · refine Or.inl ⟨hfirst.trans ?_, hend⟩
      rw [inputs_append]
      exact List.prefix_append _ _
    · exact Or.inr ⟨hconserves.offer request, hopen⟩
  paced := by
    rw [List.length_append, List.length_singleton]
    exact h.paced.offer request

/-- When all chunks are done, the stream has ended or was cut short. -/
theorem finished (h : Receiving dec fmt init capacity hcapacity requests x)
    (htodo : x.todo = []) :
    Ended fmt (inputs requests) x.coder ∨
      x.coder.consumed = inputs requests ∧ fmt.Open (inputs requests) := by
  rcases h.reads with hend | ⟨hconserves, hopen⟩
  · exact Or.inl hend
  · rw [Exchange.Conserves, htodo, inputs_nil, List.append_nil] at hconserves
    exact Or.inr ⟨hconserves, hconserves ▸ hopen (h.sound.ready_of_done htodo)⟩

theorem calls_le (h : Receiving dec fmt init capacity hcapacity requests x)
    (hdec : dec.Follows fmt init) :
    x.coder.calls.length ≤
      2 * requests.length + (fmt.decodable (inputs requests)).length + 1 :=
  h.paced.calls_le (h.emitted_prefix hdec).length_le

/-- A decoder that pushes, and holds something back, gives some of it when it is
    offered nothing but room. -/
theorem pushes (h : Receiving dec fmt init capacity hcapacity requests x)
    (hdec : dec.Pushes fmt init) (hfilled : x.filled = []) {rest : List (Unit × List UInt8)}
    (htodo : x.todo = ((), []) :: rest) (hopen : fmt.Open x.coder.consumed)
    (hheld : x.coder.emitted ≠ fmt.decodable x.coder.consumed)
    (hcall : x.call (bufferedDecoder dec capacity hcapacity) = some x') :
    x.coder.emitted.length < x'.coder.emitted.length := by
  obtain ⟨⟨⟩, input, rest', htodo', -, hfailed, hcases⟩ := Exchange.call_cases hcall
  obtain ⟨heq, -⟩ := List.cons.inj (htodo.symm.trans htodo')
  obtain rfl : [] = input := (Prod.mk.inj heq).2
  have hcoder : x'.coder = dec.call x.coder () [] capacity := by
    rcases hcases with ⟨-, rfl⟩ | ⟨-, rfl⟩ <;>
      simp only [Exchange.called, hfilled, List.length_nil, Nat.sub_zero, bufferedDecoder]
  have hok : (dec.stream x.coder.state () [] capacity).result ≠ .error := by
    have := beq_eq_false_iff_ne.mp hfailed
    rwa [Exchange.answer, hfilled, List.length_nil, Nat.sub_zero] at this
  have hpos : 0 < (dec.stream x.coder.state () [] capacity).output.length := by
    cases hresult : (dec.stream x.coder.state () [] capacity).result with
    | error => exact absurd hresult hok
    | success =>
        obtain ⟨hcomplete, -⟩ := hdec.success h.feeding hresult
        rw [List.take_nil, List.append_nil] at hcomplete
        exact absurd hopen (hcomplete.not_open (List.prefix_refl _))
    | needsMoreOutput =>
        rw [(hdec.needsOutput h.feeding hresult).1]
        exact hcapacity
    | needsMoreInput =>
        rcases hdec.pushes h.feeding hresult with hfull | hall
        · rw [hfull]
          exact hcapacity
        · rw [List.append_nil] at hall
          apply List.length_pos_iff.mpr
          intro hnil
          rw [hnil, List.append_nil] at hall
          exact hheld hall
  rw [hcoder, Codec.call_emitted, List.length_append]
  omega

/-- Whatever the bytes are, the number of calls is bounded. -/
theorem confined (hdec : dec.Follows fmt init) :
    Exchange.Confined (bufferedDecoder dec capacity hcapacity)
      (2 * requests.length + (fmt.decodable (inputs requests)).length + 1)
      (Receiving dec fmt init capacity hcapacity requests) where
  call h hcall := h.call hdec hcall
  take h := h.take
  bounded h := h.calls_le hdec

end Receiving

/-! ## The program -/

/-- An exception of `read` comes from the decoder. -/
theorem Decompressor.read_error {o : Decompressor σ} {coder : DecoderInstance σ}
    {buffer : Buffer} (hopen : o.IsOpen coder buffer) {m : Memory} {source : List UInt8}
    {e : RubyError} (h : (brsExtDecompress dec m o (.value (.string source))).1 = .error e) :
    (dec.stream coder.state () source o.remainingDestinationBufferLength).result = .error ∧
      ∃ code, e = brsExtRaiseError (brsExtGetDecompressorError code) := by
  obtain ⟨m', o', buffer', hcall, -⟩ := hopen.streamCall (decompressCall dec) source m rfl
  rw [← hopen.remaining_eq] at hcall
  simp only [brsExtDecompress, hopen.unlessClosed, checkString, hcall] at h
  split at h
  · rename_i extResult hfails
    obtain ⟨hresult, hext⟩ := decoderFailure_some hfails
    exact ⟨hresult, _, by rw [← Except.error.inj h, hext]⟩
  · cases h

/-- The program is stopped by the decoder only, and on a broken stream only. -/
theorem Receiving.corrupt_of_raises {capacity : Nat} {hcapacity : 0 < capacity}
    {requests : List (Unit × List UInt8)} {x : Exchange UInt8 σ Unit DecoderResult}
    (h : Receiving dec fmt init capacity hcapacity requests x) (hdec : dec.Follows fmt init)
    {c : StreamCaller (DecoderInstance σ) Unit}
    (hsim : Simulates (bufferedDecoder dec capacity hcapacity) decompressorRequest c x)
    {e : RubyError} (hraises : c.Raises (decompressorMethod dec) e) :
    (∃ p, p <+: inputs requests ∧ fmt.Corrupt p) ∧
      ∃ code, e = brsExtRaiseError (brsExtGetDecompressorError code) := by
  obtain ⟨⟨⟩, source, rest, htodo, -, herror⟩ := hraises
  obtain ⟨buffer, hopen⟩ := hsim.isOpen
  obtain ⟨hresult, hcode⟩ := Decompressor.read_error hopen herror
  exact ⟨h.corrupt_of_error hdec (hsim.todo ▸ htodo) hresult, hcode⟩

/-- What holds of a program that reads some bytes in chunks, wherever it is. -/
structure Followed (dec : Decoder σ) (fmt : Format UInt8) (chunks : List (List UInt8))
    (moves : List CallerMove) (c : StreamCaller (DecoderInstance σ) Unit) : Prop where
  /-- What the library has taken is a first part of the bytes, as long as the counts that
      the program was told make it. -/
  read : ∃ coder, c.object.statePtr = some coder ∧ coder.consumed <+: chunks.flatten ∧
    coder.consumed.length = c.counts.sum
  /-- Nothing is read behind the end of the stream. -/
  within : ∀ p, p <+: chunks.flatten → fmt.Complete p → c.counts.sum ≤ p.length
  /-- It has a first part of what can be told from the bytes it has read. -/
  delivered : c.results.flatten ++ c.object.filled <+:
    fmt.decodable (chunks.flatten.take c.counts.sum)
  /-- When all chunks are done, it has read the stream and has all of the content, or has
      read all of the bytes and the stream was cut short. -/
  finished : c.todo = [] →
    (∃ p, p <+: chunks.flatten ∧ p.length = c.counts.sum ∧
      fmt.Decodes p (c.results.flatten ++ c.object.filled)) ∨
    fmt.Open chunks.flatten ∧ c.counts.sum = chunks.flatten.length
  /-- It is stopped by an error of the decoder, and on a broken stream only. -/
  raises : ∀ e, c.Raises (decompressorMethod dec) e →
    (∃ p, p <+: chunks.flatten ∧ fmt.Corrupt p) ∧
    ∃ code, e = brsExtRaiseError (brsExtGetDecompressorError code)
  /-- It does not come to the end of a broken stream. -/
  broken : (∃ p, p <+: chunks.flatten ∧ fmt.Corrupt p) → c.todo ≠ []
  bounded : moves.count .request ≤
    2 * chunks.length + (fmt.decodable chunks.flatten).length + 1
  /-- It can come to the end of its chunks or to an exception. -/
  stops : c.memory.Faultless → ∃ rest c', StreamCaller.run (decompressorMethod dec) rest c =
      some c' ∧ c'.memory.Faultless ∧
    (c'.todo = [] ∧ c'.object.filled = [] ∨ ∃ e, c'.Raises (decompressorMethod dec) e)

section Program

variable {hash : Hash} {read : StringOptions DecompressorOptions}
  (hdec : dec.Follows fmt init)
  (hread : getStringOptions getDecompressorOptions hash = .ok read)
  (hset : brsExtSetDecompressorOptions dec dec.create read.codec = (.ok, init))
  {m m' : Memory} {o o' : Decompressor σ}
  (hinit : brsExtInitializeDecompressor dec m o (.hash hash) = (.ok (), m', o'))
  {chunks : List (List UInt8)} {moves : List CallerMove}
  {c : StreamCaller (DecoderInstance σ) Unit}
  (hrun : StreamCaller.run (decompressorMethod dec) moves
    (.start m' o' (readerRequests chunks)) = some c)

include hdec hread hset hinit hrun

theorem followed_of_run : Followed dec fmt chunks moves c := by
  obtain ⟨handle, buffer, hopen, hfilled, hlength⟩ :=
    StreamObject.initializeObject_ok hread hset hinit
  have hcapacity : 0 < o'.destinationBufferLength := hlength ▸ orDefault_pos (by decide)
  have hperforms := performs_decompressor dec hcapacity
  have hconfined : Exchange.Confined (bufferedDecoder dec _ hcapacity) _
      (Receiving dec fmt init _ hcapacity (readerRequests chunks)) := Receiving.confined hdec
  have hsim := Simulates.start (bufferedDecoder dec _ hcapacity) hopen hfilled rfl
    (readerRequests_valid chunks) m'
  obtain ⟨moves', x, hx, hsim', hcount⟩ := hsim.run hperforms hrun
  have hreceiving := hconfined.run (.start handle) hx
  have hdelivered : c.results.flatten ++ c.object.filled = x.coder.emitted := by
    rw [hsim'.results, hsim'.filled, hreceiving.sound.delivered]
  have hread : x.coder.consumed <+: chunks.flatten := by
    rw [← inputs_readerRequests]
    exact hreceiving.consumed_prefix
  have hfinished : c.todo = [] →
      (∃ p, p <+: chunks.flatten ∧ p.length = c.counts.sum ∧
        fmt.Decodes p (c.results.flatten ++ c.object.filled)) ∨
      fmt.Open chunks.flatten ∧ c.counts.sum = chunks.flatten.length := by
    intro htodo
    rw [hdelivered, hsim'.counts]
    rcases hreceiving.finished (hsim'.todo ▸ htodo) with ⟨-, hend⟩ | ⟨hall, hopen⟩
    · exact Or.inl ⟨_, hread, rfl, hend⟩
    · rw [inputs_readerRequests] at hall hopen
      exact Or.inr ⟨hopen, by rw [hall]⟩
  refine ⟨⟨x.coder, hsim'.statePtr, hread, hsim'.counts.symm⟩, ?_, ?_, hfinished, ?_, ?_, ?_,
    hsim'.stops hconfined hperforms hreceiving⟩
  · intro p hp hcomplete
    rw [hsim'.counts]
    exact hdec.consumed_le hreceiving.feeding hread hp hcomplete
  · rw [hdelivered, hsim'.counts, ← List.prefix_iff_eq_take.mp hread]
    exact hdec.emitted_prefix hreceiving.feeding
  · rw [← inputs_readerRequests]
    exact fun e => hreceiving.corrupt_of_raises hdec hsim'
  · rintro ⟨p, hp, hcorrupt⟩ htodo
    rcases hfinished htodo with ⟨q, hq, -, hcomplete, -⟩ | ⟨hopen, -⟩
    · exact hcomplete.not_corrupt hq hp hcorrupt
    · exact hcorrupt.not_open hp hopen
  · have hbounded := hconfined.bounded hreceiving
    have hcalls := Exchange.run_calls hx
    rw [inputs_readerRequests, readerRequests, List.length_map] at hbounded
    omega

end Program

/-- A new `NativeDecompressor`, with options that leave the decoder in a state from
    which it follows its format, and chunks of any bytes. -/
theorem decompressor_follows (hdec : dec.Follows fmt init) {hash : Hash}
    {read : StringOptions DecompressorOptions}
    (hread : getStringOptions getDecompressorOptions hash = .ok read)
    (hset : brsExtSetDecompressorOptions dec dec.create read.codec = (.ok, init))
    {m m' : Memory} {o o' : Decompressor σ}
    (hinit : brsExtInitializeDecompressor dec m o (.hash hash) = (.ok (), m', o'))
    (chunks : List (List UInt8)) :
    ∀ moves c, StreamCaller.run (decompressorMethod dec) moves
        (.start m' o' (readerRequests chunks)) = some c →
      Followed dec fmt chunks moves c :=
  fun _ _ hrun => followed_of_run hdec hread hset hinit hrun

/-- A stream of one byte with three bytes after it, the last of its own bytes in the
    chunk of the first of these. -/
theorem decompressor_follows_trailing :
    ∃ m o, brsExtInitializeDecompressor (formatDecoder storedFormat id) Memory.unused (.new 0)
        (.hash oneByteOptions) = (.ok (), m, o) ∧
      ∀ moves c, StreamCaller.run (decompressorMethod (formatDecoder storedFormat id)) moves
          (.start m o (readerRequests [[0x0b, 0, 0x80, 7], [3, 1], [2, 3]])) = some c →
        Followed (formatDecoder storedFormat id) storedFormat
          [[0x0b, 0, 0x80, 7], [3, 1], [2, 3]] moves c := by
  obtain ⟨m, o, hinit, -⟩ : ∃ m o, brsExtInitializeDecompressor (formatDecoder storedFormat id)
      Memory.unused (.new 0) (.hash oneByteOptions) = (.ok (), m, o) ∧ m.Faultless :=
    brsExtInitializeDecompressor_run rfl rfl Memory.unused_faultless _
  exact ⟨m, o, hinit, decompressor_follows (formatDecoder_follows storedFormat id) rfl rfl
    hinit _⟩

/-- Where the stream ends or breaks, `decompress` of `string.c` returns, and a program
    that comes to the end of its chunks has what it produces of the same bytes; it fails
    if the program is stopped by an exception. -/
theorem decompressor_agrees (hdec : dec.Follows fmt init) {hash : Hash}
    {read : StringOptions DecompressorOptions}
    (hread : getStringOptions getDecompressorOptions hash = .ok read)
    (hset : brsExtSetDecompressorOptions dec dec.create read.codec = (.ok, init))
    {m m' : Memory} {o o' : Decompressor σ}
    (hinit : brsExtInitializeDecompressor dec m o (.hash hash) = (.ok (), m', o'))
    {chunks : List (List UInt8)} (hnot : ¬ fmt.Open chunks.flatten)
    (e : Setup chunks.flatten) :
    (∃ enough, ∀ fuel, enough ≤ fuel → ∃ x, e.decompressString dec init fuel = some x) ∧
    ∀ fuel x, e.decompressString dec init fuel = some x →
      ∀ moves c, StreamCaller.run (decompressorMethod dec) moves
          (.start m' o' (readerRequests chunks)) = some c →
        (c.todo = [] → Str.produced x = some (c.results.flatten ++ c.object.filled)) ∧
        ∀ err, c.Raises (decompressorMethod dec) err → Str.produced x = none := by
  obtain ⟨enough, hreturns⟩ := e.returns (hdec.reading chunks.flatten) (.start e.handle)
  refine ⟨⟨enough, fun fuel hfuel => (hreturns fuel hfuel).1⟩, fun fuel x hx moves c hrun => ?_⟩
  have hfollowed := followed_of_run hdec hread hset hinit hrun
  rcases Setup.produced_string hdec hx with
    ⟨p, hp, hcomplete, hstring⟩ | ⟨hopen, -⟩ | ⟨hbroken, hstring⟩
  · refine ⟨fun htodo => ?_, fun err hraises => ?_⟩
    · rcases hfollowed.finished htodo with ⟨q, hq, -, hcomplete', hall⟩ | ⟨hopen, -⟩
      · -- The stream has one end only.
        have heq : p = q :=
          Format.Reaches.unique hcomplete hcomplete' (by decide) (by decide) hp hq
        rw [hstring, heq, hall]
      · exact absurd hopen hnot
    · obtain ⟨⟨q, hq, hcorrupt⟩, -⟩ := hfollowed.raises err hraises
      exact absurd hcorrupt (hcomplete.not_corrupt hp hq)
  · exact absurd hopen hnot
  · exact ⟨fun htodo => absurd htodo (hfollowed.broken hbroken), fun _ _ => hstring⟩

/-- The same bytes as a string, with a buffer of three bytes. -/
theorem decompressor_agrees_trailing :
    ∃ m o, brsExtInitializeDecompressor (formatDecoder storedFormat id) Memory.unused (.new 0)
        (.hash oneByteOptions) = (.ok (), m, o) ∧
      ∃ x, (Setup.plain [[0x0b, 0, 0x80, 7], [3, 1], [2, 3]].flatten 2 0 0).decompressString
          (formatDecoder storedFormat id) ([], 0) 2 = some x ∧
        ∀ moves c, StreamCaller.run (decompressorMethod (formatDecoder storedFormat id)) moves
            (.start m o (readerRequests [[0x0b, 0, 0x80, 7], [3, 1], [2, 3]])) = some c →
          (c.todo = [] → Str.produced x = some (c.results.flatten ++ c.object.filled)) ∧
          ∀ err, c.Raises (decompressorMethod (formatDecoder storedFormat id)) err →
            Str.produced x = none := by
  have hcomplete : storedFormat.Complete [0x0b, 0, 0x80, 7, 3] := (decodes_stored [7]).1
  have hfirst : [0x0b, 0, 0x80, 7, 3] <+:
      [[(0x0b : UInt8), 0, 0x80, 7], [3, 1], [2, 3]].flatten := ⟨[1, 2, 3], rfl⟩
  obtain ⟨m, o, hinit, -⟩ : ∃ m o, brsExtInitializeDecompressor (formatDecoder storedFormat id)
      Memory.unused (.new 0) (.hash oneByteOptions) = (.ok (), m, o) ∧ m.Faultless :=
    brsExtInitializeDecompressor_run rfl rfl Memory.unused_faultless _
  obtain ⟨-, hagrees⟩ := decompressor_agrees (formatDecoder_follows storedFormat id) rfl rfl
    hinit (hcomplete.not_open hfirst) (.plain _ 2 0 0)
  exact ⟨m, o, hinit, _, rfl, hagrees 2 _ rfl⟩

end RubyBrs
