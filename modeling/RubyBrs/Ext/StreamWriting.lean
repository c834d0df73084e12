/-
  RubyBrs.Ext.StreamWriting

  A program that writes to a `NativeCompressor`: any number of writes and
  flushes, and then a finish.

  The encoder is always called in the order its documentation asks for
  (`Writing.allowed`), so every request can be made and is done after finitely
  many calls (`writing_steady`).  `compressor_conserves` puts this together with
  the bookkeeping of `Exchange`: every byte written is taken once and in order,
  every byte emitted is handed out once and in order, and what was handed out can
  be decoded after each flush and is a complete stream after the finish.
-/

import RubyBrs.Ext.StreamCompressor
import RubyBrs.Ext.Stored

namespace RubyBrs

open StreamCodec StreamFormat

variable {σ : Type}

/-! ## Requests -/

inductive WriterCall where
  | write (source : List UInt8)
  | flush
deriving Repr, DecidableEq

def WriterCall.request : WriterCall → Operation × List UInt8
  | .write source => (.process, source)
  | .flush => (.flush, [])

/-- Some writes and flushes, and a finish. -/
def writerRequests (calls : List WriterCall) : List (Operation × List UInt8) :=
  calls.map WriterCall.request ++ [(.finish, [])]

theorem writerRequests_valid (calls : List WriterCall) :
    ∀ r ∈ writerRequests calls, compressorRequest r.1 r.2 := by
  intro r hr
  rcases List.mem_append.mp hr with hr | hr
  · obtain ⟨call, -, rfl⟩ := List.mem_map.mp hr
    cases call with
    | write source => exact fun hne => absurd rfl hne
    | flush => exact fun _ => rfl
  · obtain rfl := List.mem_singleton.mp hr
    exact fun _ => rfl

/-- Nothing is asked for after a finish. -/
def FinishesLast (requests : List (Operation × List UInt8)) : Prop :=
  ∀ done request rest, requests = done ++ request :: rest → ∀ r ∈ done, r.1 ≠ .finish

theorem writerRequests_finishesLast (calls : List WriterCall) :
    FinishesLast (writerRequests calls) := by
  intro done request rest heq r hr
  have hcalls : done <+: calls.map WriterCall.request := by
    have hdone : done <+: writerRequests calls := ⟨request :: rest, heq.symm⟩
    -- A request follows those that are done, so they are not all of them.
    rcases List.prefix_concat_iff.mp hdone with hall | hcalls
    · rw [hall] at heq
      have hlength := congrArg List.length heq
      simp [writerRequests] at hlength
    · exact hcalls
  obtain ⟨call, -, rfl⟩ := List.mem_map.mp (hcalls.subset hr)
  cases call with
  | write source => exact (nomatch ·)
  | flush => exact (nomatch ·)

/-! ## The encoder's side -/

/-- The operations of `NativeCompressor`. -/
def compressorOperations : List Operation := [.process, .flush, .finish]

theorem mem_compressorOperations (op : Operation) : op ∈ compressorOperations := by
  cases op <;> decide

variable {enc : Encoder σ} {fmt : Format UInt8} {init : σ} {capacity : Nat}
  {hcapacity : 0 < capacity} {requests : List (Operation × List UInt8)}
  {x : Exchange UInt8 σ Operation Bool}

/-- What holds in every state of a run with these requests. -/
structure Writing (enc : Encoder σ) (init : σ) (capacity : Nat) (hcapacity : 0 < capacity)
    (requests : List (Operation × List UInt8)) (x : Exchange UInt8 σ Operation Bool) : Prop where
  session : enc.Session compressorOperations init x.coder
  sound : Exchange.Sound (bufferedEncoder enc capacity hcapacity) requests x
  conserves : Exchange.Conserves requests x
  paced : Exchange.Paced requests.length x

namespace Writing

theorem start (handle : Nat) : Writing enc init capacity hcapacity requests
    (.start handle init requests) where
  session := .start handle
  sound := .start handle init
  conserves := rfl
  paced := .start handle init

/-- The next call is one that the documentation allows. -/
theorem allowed (h : Writing enc init capacity hcapacity requests x)
    (hlast : FinishesLast requests) {op : Operation} {input : List UInt8}
    {rest : List (Operation × List UInt8)} (htodo : x.todo = (op, input) :: rest) :
    enc.Allowed x.coder op input := by
  by_cases hphase : x.phase = .ready
  -- The request before this one was done, and was no finish.
  · obtain ⟨done, hrequests, hoperation, hdone⟩ := h.sound.ready hphase
    rw [htodo] at hrequests
    refine Encoder.Allowed.of_complete fun last hcall => ⟨hdone last hcall, ?_⟩
    rw [hcall, Option.map_some] at hoperation
    obtain ⟨r, hr, heq⟩ := Option.map_eq_some_iff.mp hoperation.symm
    rw [← heq]
    exact hlast done _ _ hrequests r (List.mem_of_getLast? hr)
  -- The same operation again, on what the last call has left.
  · obtain ⟨done, request, rest', last, -, hcall, -, htodo', hmore⟩ := h.sound.busy hphase
    obtain ⟨heq, -⟩ := List.cons.inj (htodo.symm.trans htodo')
    obtain ⟨rfl, rfl⟩ := Prod.mk.inj heq
    exact Encoder.Allowed.of_pending hcall hmore

theorem consumed_prefix (h : Writing enc init capacity hcapacity requests x) :
    x.coder.consumed <+: inputs requests := ⟨inputs x.todo, h.conserves⟩

/-- Between two requests, the bytes of those that were made were taken. -/
theorem consumed_eq (h : Writing enc init capacity hcapacity requests x)
    {done : List (Operation × List UInt8)} (hdone : requests = done ++ x.todo) :
    x.coder.consumed = inputs done := by
  have hconserves := h.conserves
  rw [Exchange.Conserves, hdone, inputs_append] at hconserves
  exact List.append_cancel_right hconserves

/-- After a flush what was handed out can be decoded to what was written. -/
theorem flushed (h : Writing enc init capacity hcapacity requests x)
    (henc : enc.FlushContract compressorOperations fmt init) (hphase : x.phase = .ready) :
    ∃ done, requests = done ++ x.todo ∧ x.coder.consumed = inputs done ∧
      (done.getLast?.map Prod.fst = some .flush → x.filled = [] →
        fmt.decodable x.handed = inputs done) := by
  obtain ⟨done, hrequests, hoperation, hdone⟩ := h.sound.ready hphase
  refine ⟨done, hrequests, h.consumed_eq hrequests, fun hflush hfilled => ?_⟩
  obtain ⟨last, hcall, hop⟩ := Option.map_eq_some_iff.mp (hoperation.trans hflush)
  have hpending := hdone last hcall
  have hdelivered := h.sound.delivered
  rw [hfilled, List.append_nil] at hdelivered
  rw [hop] at hpending
  rw [hdelivered, henc.flushes h.session hcall hop hpending, h.consumed_eq hrequests]

/-- After the finish it is a complete stream of all that was written. -/
theorem finished (h : Writing enc init capacity hcapacity requests x)
    (henc : enc.FlushContract compressorOperations fmt init)
    (hrequests : requests.getLast?.map Prod.fst = some .finish) (htodo : x.todo = [])
    (hfilled : x.filled = []) : fmt.Decodes x.handed (inputs requests) := by
  obtain ⟨done, heq, hoperation, hdone⟩ := h.sound.ready (h.sound.ready_of_done htodo)
  obtain rfl : requests = done := by rw [heq, htodo, List.append_nil]
  obtain ⟨last, hcall, hop⟩ := Option.map_eq_some_iff.mp (hoperation.trans hrequests)
  have hpending := hdone last hcall
  have hdelivered := h.sound.delivered
  rw [hfilled, List.append_nil] at hdelivered
  rw [hop] at hpending
  rw [hdelivered, ← h.consumed_eq heq]
  exact henc.finishes h.session hcall hop hpending

end Writing

/-- Every request can be made, and the number of calls is bounded. -/
theorem writing_steady (hcapacity : 0 < capacity)
    (henc : enc.Contract compressorOperations fmt init) (hlast : FinishesLast requests) :
    ∃ bound, Exchange.Steady (bufferedEncoder enc capacity hcapacity) bound
      (Writing enc init capacity hcapacity requests) := by
  obtain ⟨bound, hbound⟩ := henc.finite (inputs requests)
  refine ⟨2 * requests.length + bound + 1, ?_, ?_, ?_, ?_⟩
  -- A call: the encoder's contract gives each of the four parts.
  · intro x x' h hcall
    refine ⟨?_, h.sound.call hcall, ?_, ?_⟩
    · obtain ⟨op, input, rest, htodo, -, -, ⟨-, rfl⟩ | ⟨-, rfl⟩⟩ := Exchange.call_cases hcall <;>
        exact .call _ h.session (mem_compressorOperations op) (h.allowed hlast htodo)
    · apply h.conserves.call hcall
      intro op input rest htodo hdone
      exact henc.completes _ h.session (mem_compressorOperations op) (h.allowed hlast htodo) hdone
    · apply h.paced.call h.sound hcall
      intro op input rest htodo hfilled hmore
      -- The operation has the whole buffer, so it emits something.
      refine henc.progresses h.session (mem_compressorOperations op) (h.allowed hlast htodo) ?_
        hmore
      rw [hfilled, List.length_nil, Nat.sub_zero]
      exact hcapacity
  · intro x h
    exact ⟨h.session, h.sound.take, h.conserves, h.paced.take⟩
  · intro x h htodo hphase
    cases hrequest : x.todo with
    | nil => exact absurd hrequest htodo
    | cons request rest =>
        obtain ⟨op, input⟩ := request
        apply Exchange.call_isSome hrequest hphase
        -- The encoder does not fail on a call that is allowed.
        have hok := henc.succeeds (capacity - x.filled.length) h.session
          (mem_compressorOperations op) (h.allowed hlast hrequest)
        exact congrArg (!·) hok
  · intro x h
    exact h.paced.calls_le (hbound _ h.session h.consumed_prefix)

/-! ## The program -/

/-- What holds of a program that writes to a compressor, wherever it is. -/
structure Conserved (fmt : Format UInt8) (requests : List (Operation × List UInt8))
    (c : StreamCaller (EncoderInstance σ) Operation) (coder : EncoderInstance σ) : Prop where
  statePtr : c.object.statePtr = some coder
  /-- What was handed out and what is in the buffer is what the encoder emitted. -/
  delivered : c.results.flatten ++ c.object.filled = coder.emitted
  /-- The bytes that reached the encoder and those that are left are all there are. -/
  in_order : coder.consumed ++ inputs c.todo = inputs requests
  counted : c.counts.sum = coder.consumed.length
  /-- A request that is done has taken all of its bytes, and after a flush the
      bytes handed out can be decoded to all that was written. -/
  done : c.phase = .ready → ∃ done, requests = done ++ c.todo ∧ coder.consumed = inputs done ∧
    (done.getLast?.map Prod.fst = some .flush → c.object.filled = [] →
      fmt.decodable c.results.flatten = inputs done)
  /-- In the end they are a complete stream. -/
  finished : c.todo = [] → c.object.filled = [] → fmt.Decodes c.results.flatten (inputs requests)

theorem Writing.conserved {c : StreamCaller (EncoderInstance σ) Operation}
    (h : Writing enc init capacity hcapacity requests x)
    (henc : enc.FlushContract compressorOperations fmt init)
    (hrequests : requests.getLast?.map Prod.fst = some .finish)
    (hsim : Simulates (bufferedEncoder enc capacity hcapacity) compressorRequest c x) :
    Conserved fmt requests c x.coder where
  statePtr := hsim.statePtr
  delivered := by rw [hsim.results, hsim.filled, h.sound.delivered]
  in_order := by
    rw [hsim.todo]
    exact h.conserves
  counted := hsim.counts
  done hphase := by
    rw [hsim.results, hsim.todo, hsim.filled]
    exact h.flushed henc (hsim.phase.symm.trans hphase)
  finished htodo hfilled := by
    rw [hsim.results]
    exact h.finished henc hrequests (hsim.todo.symm.trans htodo) (hsim.filled.symm.trans hfilled)

/-- A new `NativeCompressor`, with options that leave the encoder in a state from
    which it keeps its contract, and any writes and flushes that end with a finish:
    wherever the program is, nothing was lost, its next request does not raise, and
    it can come to the end; and the number of its requests is bounded. -/
theorem compressor_conserves {hash : Hash} {read : StringOptions CompressorOptions} {s : σ}
    (hread : getStringOptions getCompressorOptions hash = .ok read)
    (hset : brsExtSetCompressorOptions enc enc.create read.codec = (.ok, s))
    (henc : enc.FlushContract compressorOperations fmt s) {m m' : Memory} {o o' : Compressor σ}
    (hinit : brsExtInitializeCompressor enc m o (.hash hash) = (.ok (), m', o'))
    (calls : List WriterCall) :
    ∃ bound, ∀ moves c, StreamCaller.run (compressorMethod enc) moves
        (.start m' o' (writerRequests calls)) = some c →
      (∃ coder, Conserved fmt (writerRequests calls) c coder) ∧ moves.count .request ≤ bound ∧
      (c.todo ≠ [] → c.phase ≠ .full → ∃ c', c.request (compressorMethod enc) = some c') ∧
      (c.memory.Faultless → ∃ rest c', StreamCaller.run (compressorMethod enc) rest c = some c' ∧
        c'.todo = [] ∧ c'.object.filled = []) := by
  obtain ⟨handle, buffer, hopen, hfilled, hlength⟩ :=
    StreamObject.initializeObject_ok hread hset hinit
  have hcapacity : 0 < o'.destinationBufferLength := hlength ▸ orDefault_pos (by decide)
  obtain ⟨bound, hsteady⟩ := writing_steady hcapacity henc.toContract
    (writerRequests_finishesLast calls)
  have hsim := Simulates.start (bufferedEncoder enc _ hcapacity) hopen hfilled rfl
    (writerRequests_valid calls) m'
  refine ⟨bound, fun moves c hrun => ?_⟩
  obtain ⟨⟨x, hsim', hx⟩, hrest⟩ :=
    hsim.reached hsteady (performs_compressor enc hcapacity) (.start handle) hrun
  exact ⟨⟨x.coder, hx.conserved henc (by simp [writerRequests]) hsim'⟩, hrest⟩

/-- Three bytes and a flush, and one more, with a buffer of one byte. -/
theorem compressor_conserves_oneByte :
    ∃ m o, brsExtInitializeCompressor storedEncoder Memory.unused (.new 0)
        (.hash oneByteOptions) = (.ok (), m, o) ∧
      ∃ bound, ∀ moves c, StreamCaller.run (compressorMethod storedEncoder) moves
          (.start m o (writerRequests [.write [1, 2, 3], .flush, .write [4]])) = some c →
        (∃ coder, Conserved storedFormat
          (writerRequests [.write [1, 2, 3], .flush, .write [4]]) c coder) ∧
        moves.count .request ≤ bound ∧
        (c.todo ≠ [] → c.phase ≠ .full →
          ∃ c', c.request (compressorMethod storedEncoder) = some c') ∧
        (c.memory.Faultless → ∃ rest c',
          StreamCaller.run (compressorMethod storedEncoder) rest c = some c' ∧
          c'.todo = [] ∧ c'.object.filled = []) := by
  have hflush := storedEncoder_flushContract compressorOperations
  obtain ⟨m, o, hinit, -⟩ : ∃ m o, brsExtInitializeCompressor storedEncoder Memory.unused (.new 0)
      (.hash oneByteOptions) = (.ok (), m, o) ∧ m.Faultless :=
    brsExtInitializeCompressor_run rfl rfl Memory.unused_faultless _
  exact ⟨m, o, hinit, compressor_conserves rfl rfl hflush hinit _⟩

end RubyBrs
