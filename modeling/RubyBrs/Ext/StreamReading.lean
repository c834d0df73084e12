/-
  RubyBrs.Ext.StreamReading

  A program that reads a complete stream through a `NativeDecompressor`, in
  chunks.

  Whatever the chunks and the length of the buffer, and whenever the program takes
  its results, the decoder is offered the stream once and in order
  (`Offering.offered`), so what comes out is the content of the stream
  (`decompressor_reads`).
-/

import RubyBrs.Ext.Reading
import RubyBrs.Ext.StreamDecompressor
import RubyBrs.Ext.Stored

namespace RubyBrs

open StreamCodec StreamFormat

variable {σ : Type} {dec : Decoder σ} {s content : List UInt8} {init : σ} {capacity : Nat}
  {hcapacity : 0 < capacity} {requests : List (Unit × List UInt8)}
  {x : Exchange UInt8 σ Unit DecoderResult}

/-- The last call of a session was answered. -/
theorem Decoder.Session.answered {i : DecoderInstance σ} (h : dec.Session s init i)
    {last : Call UInt8 Unit DecoderResult} (hlast : i.calls.getLast? = some last) :
    dec.Answered (dec.Session s init) s last.result last.rest i := by
  cases h with
  | start handle => cases hlast
  | call room h hin =>
      rw [Codec.call_getLast] at hlast
      obtain rfl := Option.some.inj hlast
      exact .call room h hin rfl rfl

/-- What was emitted is the first part of the content. -/
theorem Decoder.Session.emitted_prefix {i : DecoderInstance σ} (h : dec.Session s init i)
    (hdec : dec.StreamContract s content init) : i.emitted <+: content := by
  cases h with
  | start handle => exact List.nil_prefix
  | call room hi hin =>
      rw [Codec.call_emitted]
      exact hdec.emits room hi hin

/-! ## The decoder's side -/

/-- What holds in every state of a run with these requests. -/
structure Offering (dec : Decoder σ) (s : List UInt8) (init : σ) (capacity : Nat)
    (hcapacity : 0 < capacity) (requests : List (Unit × List UInt8))
    (x : Exchange UInt8 σ Unit DecoderResult) : Prop where
  session : dec.Session s init x.coder
  sound : Exchange.Sound (bufferedDecoder dec capacity hcapacity) requests x
  conserves : Exchange.Conserves requests x
  paced : Exchange.Paced requests.length x

namespace Offering

theorem start (handle : Nat) : Offering dec s init capacity hcapacity requests
    (.start handle init requests) where
  session := .start handle
  sound := .start handle init
  conserves := rfl
  paced := .start handle init

/-- What is offered next is the next part of the stream. -/
theorem offered (h : Offering dec s init capacity hcapacity requests x)
    (hs : inputs requests = s) {op : Unit} {input : List UInt8}
    {rest : List (Unit × List UInt8)} (htodo : x.todo = (op, input) :: rest) :
    x.coder.consumed ++ input <+: s := by
  have hconserves := h.conserves
  rw [Exchange.Conserves, htodo, inputs_cons, hs, ← List.append_assoc] at hconserves
  exact ⟨inputs rest, hconserves⟩

/-- A chunk that needs no more destination was taken whole. -/
theorem completes (h : Offering dec s init capacity hcapacity requests x)
    (hdec : dec.StreamContract s content init) {input : List UInt8} {room : Nat}
    (hin : x.coder.consumed ++ input <+: s)
    (hdone : ((dec.stream x.coder.state () input room).result == .needsMoreOutput) = false) :
    (dec.stream x.coder.state () input room).consumed = input.length := by
  cases hresult : (dec.stream x.coder.state () input room).result with
  | error => exact absurd hresult (hdec.no_error room h.session hin)
  | needsMoreInput => exact (hdec.needsInput h.session hin hresult).1
  | needsMoreOutput =>
      rw [hresult] at hdone
      cases hdone
  -- The stream has ended, so the chunk has nothing that was not taken.
  | success =>
      have hall := ((hdec.success h.session hin).mp hresult).1
      have hle := dec.consumed_le x.coder.state () input room
      have hlength := hin.length_le
      rw [← hall, List.length_append, List.length_append, List.length_take] at hlength
      omega

/-- When all requests are done, the stream was read and all of its content was
    emitted. -/
theorem finished (h : Offering dec s init capacity hcapacity requests x)
    (hdec : dec.StreamContract s content init) (hs : inputs requests = s) (hne : s ≠ [])
    (htodo : x.todo = []) : x.coder.consumed = s ∧ x.coder.emitted = content := by
  have hconsumed : x.coder.consumed = s := by
    have hconserves := h.conserves
    rwa [Exchange.Conserves, htodo, inputs_nil, List.append_nil, hs] at hconserves
  obtain ⟨done, -, -, hdone⟩ := h.sound.ready (h.sound.ready_of_done htodo)
  refine ⟨hconsumed, ?_⟩
  cases hlast : x.coder.calls.getLast? with
  -- Without any call nothing was taken, but a stream is not empty.
  | none =>
      rw [Coder.consumed, List.getLast?_eq_none_iff.mp hlast] at hconsumed
      exact absurd hconsumed.symm hne
  | some last =>
      -- The last answer was neither an error nor a request for room.
      have hanswered := h.session.answered hlast
      have hmore : (last.result == .needsMoreOutput) = false := hdone last hlast
      cases hresult : last.result with
      | error =>
          rw [hresult] at hanswered
          exact absurd hanswered hdec.not_error
      | success =>
          rw [hresult] at hanswered
          exact (hdec.success_answered hanswered).2
      | needsMoreInput =>
          rw [hresult] at hanswered
          exact absurd hconsumed (hdec.needsInput_answered hanswered)
      | needsMoreOutput =>
          rw [hresult] at hmore
          cases hmore

end Offering

/-- Every chunk can be read, and the number of calls is bounded. -/
theorem offering_steady (hcapacity : 0 < capacity) (hdec : dec.StreamContract s content init)
    (hs : inputs requests = s) :
    Exchange.Steady (bufferedDecoder dec capacity hcapacity)
      (2 * requests.length + content.length + 1)
      (Offering dec s init capacity hcapacity requests) where
  call {x x'} h hcall := by
    refine ⟨?_, h.sound.call hcall, ?_, ?_⟩
    · obtain ⟨op, input, rest, htodo, -, -, ⟨-, rfl⟩ | ⟨-, rfl⟩⟩ := Exchange.call_cases hcall <;>
        exact .call _ h.session (h.offered hs htodo)
    · apply h.conserves.call hcall
      intro op input rest htodo hdone
      exact h.completes hdec (h.offered hs htodo) hdone
    · apply h.paced.call h.sound hcall
      intro op input rest htodo hfilled hmore
      -- More room was asked for with all of the buffer in use.
      have hfull := (hdec.needsOutput h.session (h.offered hs htodo) (beq_iff_eq.mp hmore)).1
      apply List.length_pos_iff.mp
      rw [hfilled, List.length_nil, Nat.sub_zero] at hfull
      rw [Exchange.answer, hfilled, List.length_nil, Nat.sub_zero]
      exact hfull.symm ▸ hcapacity
  take h := ⟨h.session, h.sound.take, h.conserves, h.paced.take⟩
  can {x} h htodo hphase := by
    cases hrequest : x.todo with
    | nil => exact absurd hrequest htodo
    | cons request rest =>
        obtain ⟨op, input⟩ := request
        apply Exchange.call_isSome hrequest hphase
        exact beq_eq_false_iff_ne.mpr (hdec.no_error _ h.session (h.offered hs hrequest))
  bounded h := h.paced.calls_le (h.session.emitted_prefix hdec).length_le

/-! ## The program -/

/-- A new `NativeDecompressor`, with options that leave the decoder in a state from
    which it keeps its contract, and any chunks of a complete stream: wherever the
    program is, it has a first part of the content, its next request does not raise,
    and it can come to the end; the number of its requests is bounded; and at the end
    it has all of the content and has read all of the stream. -/
theorem decompressor_reads {fmt : Format UInt8} (hs : fmt.Decodes s content) {hash : Hash}
    {read : StringOptions DecompressorOptions} {init : σ}
    (hread : getStringOptions getDecompressorOptions hash = .ok read)
    (hset : brsExtSetDecompressorOptions dec dec.create read.codec = (.ok, init))
    (hdec : dec.StreamContract s content init) {m m' : Memory} {o o' : Decompressor σ}
    (hinit : brsExtInitializeDecompressor dec m o (.hash hash) = (.ok (), m', o'))
    {chunks : List (List UInt8)} (hchunks : chunks.flatten = s) :
    ∀ moves c, StreamCaller.run (decompressorMethod dec) moves
        (.start m' o' (readerRequests chunks)) = some c →
      c.results.flatten ++ c.object.filled <+: content ∧
      (c.todo = [] → c.object.filled = [] →
        c.results.flatten = content ∧ c.counts.sum = s.length) ∧
      moves.count .request ≤ 2 * chunks.length + content.length + 1 ∧
      (c.todo ≠ [] → c.phase ≠ .full → ∃ c', c.request (decompressorMethod dec) = some c') ∧
      (c.memory.Faultless → ∃ rest c', StreamCaller.run (decompressorMethod dec) rest c = some c' ∧
        c'.todo = [] ∧ c'.object.filled = []) := by
  intro moves c hrun
  obtain ⟨handle, buffer, hopen, hfilled, hlength⟩ :=
    StreamObject.initializeObject_ok hread hset hinit
  have hcapacity : 0 < o'.destinationBufferLength := hlength ▸ orDefault_pos (by decide)
  have hinputs : inputs (readerRequests chunks) = s := by rw [inputs_readerRequests, hchunks]
  have hsteady := offering_steady hcapacity hdec hinputs
  have hsim := Simulates.start (bufferedDecoder dec _ hcapacity) hopen hfilled rfl
    (readerRequests_valid chunks) m'
  obtain ⟨⟨x, hsim', hx⟩, hcount, hrest⟩ :=
    hsim.reached hsteady (performs_decompressor dec hcapacity) (.start handle) hrun
  have hdelivered : c.results.flatten ++ c.object.filled = x.coder.emitted := by
    rw [hsim'.results, hsim'.filled, hx.sound.delivered]
  refine ⟨hdelivered ▸ hx.session.emitted_prefix hdec, fun htodo hempty => ?_, ?_, hrest⟩
  · obtain ⟨hconsumed, hemitted⟩ :=
      hx.finished hdec hinputs hs.1.ne_nil (hsim'.todo.symm.trans htodo)
    rw [hempty, List.append_nil] at hdelivered
    rw [hsim'.counts, hconsumed]
    exact ⟨hdelivered.trans hemitted, rfl⟩
  · rwa [readerRequests, List.length_map] at hcount

/-- A stream of two bytes, with an empty chunk inside and a buffer of one byte. -/
theorem decompressor_reads_oneByte :
    ∃ m o, brsExtInitializeDecompressor (formatDecoder storedFormat id) Memory.unused (.new 0)
        (.hash oneByteOptions) = (.ok (), m, o) ∧
      ∀ moves c, StreamCaller.run (decompressorMethod (formatDecoder storedFormat id)) moves
          (.start m o (readerRequests [[0x0b, 0, 0x80, 7, 0, 0], [], [8, 9, 3]])) = some c →
        c.results.flatten ++ c.object.filled <+: [7, 9] ∧
        (c.todo = [] → c.object.filled = [] →
          c.results.flatten = [7, 9] ∧ c.counts.sum = 9) ∧
        moves.count .request ≤ 9 ∧
        (c.todo ≠ [] → c.phase ≠ .full →
          ∃ c', c.request (decompressorMethod (formatDecoder storedFormat id)) = some c') ∧
        (c.memory.Faultless → ∃ rest c',
          StreamCaller.run (decompressorMethod (formatDecoder storedFormat id)) rest c = some c' ∧
          c'.todo = [] ∧ c'.object.filled = []) := by
  have hstream := decodes_stored [7, 9]
  have hdec := (formatDecoder_follows storedFormat id).streamContract hstream
  obtain ⟨m, o, hinit, -⟩ : ∃ m o, brsExtInitializeDecompressor (formatDecoder storedFormat id)
      Memory.unused (.new 0) (.hash oneByteOptions) = (.ok (), m, o) ∧ m.Faultless :=
    brsExtInitializeDecompressor_run rfl rfl Memory.unused_faultless _
  exact ⟨m, o, hinit, decompressor_reads hstream rfl rfl hdec hinit rfl⟩

end RubyBrs
