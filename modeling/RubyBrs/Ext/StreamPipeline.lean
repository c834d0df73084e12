/-
  RubyBrs.Ext.StreamPipeline

  A program that writes to a `NativeCompressor`, and another one that reads what it
  hands out through a `NativeDecompressor`, in chunks of any lengths.

  The two take turns in any order, and bytes are passed on at any time.  The one is
  where its `Writing` is and the other where its `Receiving` is, and what was passed
  on is a first part of what was handed out (`Joined`).  What the encoder has emitted
  can always be completed to a stream of the data that was written so far, so the
  reader never meets an error and never has anything but a first part of that data
  (`pipeline_safe`).  After a flush it can get all that was written before
  (`pipeline_flushed`), and after the finish all there is (`pipeline_finished`).
-/

import RubyBrs.Ext.Completion
import RubyBrs.Ext.StreamFollowing
import RubyBrs.Ext.StreamWriting

namespace RubyBrs

open StreamCodec StreamFormat

variable {σ τ : Type}

/-! ## The two programs -/

structure Pipeline (σ τ : Type) where
  writer : StreamCaller (EncoderInstance σ) Operation
  /-- The number of bytes that were passed on. -/
  passed : Nat
  reader : StreamCaller (DecoderInstance τ) Unit

inductive PipelineMove where
  | write (move : CallerMove)
  /-- So many bytes, if there are so many, are passed on as one chunk. -/
  | pass (count : Nat)
  | read (move : CallerMove)
deriving Repr, DecidableEq

namespace Pipeline

/-- What the writer has handed out and was not passed on. -/
def waiting (p : Pipeline σ τ) : List UInt8 := p.writer.results.flatten.drop p.passed

def step (enc : Encoder σ) (dec : Decoder τ) (p : Pipeline σ τ) :
    PipelineMove → Option (Pipeline σ τ)
  | .write move =>
      (p.writer.step (compressorMethod enc) move).map fun writer => { p with writer }
  | .pass count =>
      let chunk := p.waiting.take count
      some { p with passed := p.passed + chunk.length, reader := p.reader.offer ((), chunk) }
  | .read move =>
      (p.reader.step (decompressorMethod dec) move).map fun reader => { p with reader }

def run (enc : Encoder σ) (dec : Decoder τ) :
    List PipelineMove → Pipeline σ τ → Option (Pipeline σ τ)
  | [], p => some p
  | move :: rest, p => (p.step enc dec move).bind (run enc dec rest)

variable {enc : Encoder σ} {dec : Decoder τ}

theorem run_append (moves rest : List PipelineMove) (p : Pipeline σ τ) :
    run enc dec (moves ++ rest) p = (run enc dec moves p).bind (run enc dec rest) := by
  induction moves generalizing p with
  | nil => rfl
  | cons move moves ih =>
      rw [List.cons_append, run, run, Option.bind_assoc]
      exact congrArg _ (funext ih)

/-- The writer runs by itself. -/
theorem run_write {moves : List CallerMove} {p : Pipeline σ τ}
    {c : StreamCaller (EncoderInstance σ) Operation}
    (h : StreamCaller.run (compressorMethod enc) moves p.writer = some c) :
    run enc dec (moves.map .write) p = some { p with writer := c } := by
  induction moves generalizing p with
  | nil =>
      obtain rfl := Option.some.inj h
      rfl
  | cons move moves ih =>
      obtain ⟨c₁, hstep, hrest⟩ := Option.bind_eq_some_iff.mp h
      rw [List.map_cons, run, step, hstep]
      exact ih (p := { p with writer := c₁ }) hrest

/-- The reader runs by itself. -/
theorem run_read {moves : List CallerMove} {p : Pipeline σ τ}
    {c : StreamCaller (DecoderInstance τ) Unit}
    (h : StreamCaller.run (decompressorMethod dec) moves p.reader = some c) :
    run enc dec (moves.map .read) p = some { p with reader := c } := by
  induction moves generalizing p with
  | nil =>
      obtain rfl := Option.some.inj h
      rfl
  | cons move moves ih =>
      obtain ⟨c₁, hstep, hrest⟩ := Option.bind_eq_some_iff.mp h
      rw [List.map_cons, run, step, hstep]
      exact ih (p := { p with reader := c₁ }) hrest

end Pipeline

/-- A compressor that was initialized, with options that leave its encoder in `init`. -/
structure OpenedCompressor (enc : Encoder σ) (init : σ) where
  hash : Hash
  read : StringOptions CompressorOptions
  read_eq : getStringOptions getCompressorOptions hash = .ok read
  set_eq : brsExtSetCompressorOptions enc enc.create read.codec = (.ok, init)
  before : Memory
  new : Compressor σ
  memory : Memory
  object : Compressor σ
  initialized : brsExtInitializeCompressor enc before new (.hash hash) = (.ok (), memory, object)

/-- A decompressor that was initialized, with options that leave its decoder in `init`. -/
structure OpenedDecompressor (dec : Decoder τ) (init : τ) where
  hash : Hash
  read : StringOptions DecompressorOptions
  read_eq : getStringOptions getDecompressorOptions hash = .ok read
  set_eq : brsExtSetDecompressorOptions dec dec.create read.codec = (.ok, init)
  before : Memory
  new : Decompressor τ
  memory : Memory
  object : Decompressor τ
  initialized : brsExtInitializeDecompressor dec before new (.hash hash) =
    (.ok (), memory, object)

/-- A compressor that stores what it is given, with a buffer of one byte. -/
def OpenedCompressor.stored : OpenedCompressor storedEncoder storedEncoder.create where
  hash := oneByteOptions
  read := _
  read_eq := rfl
  set_eq := rfl
  before := .unused
  new := .new 0
  memory := _
  object := _
  initialized := rfl

/-- A decompressor of what it gives, also with a buffer of one byte. -/
def OpenedDecompressor.stored : OpenedDecompressor (formatDecoder storedFormat id) ([], 0) where
  hash := oneByteOptions
  read := _
  read_eq := rfl
  set_eq := rfl
  before := .unused
  new := .new 0
  memory := _
  object := _
  initialized := rfl

/-- Nothing was written yet. -/
def Pipeline.start {enc : Encoder σ} {dec : Decoder τ} {encInit : σ} {decInit : τ}
    (w : OpenedCompressor enc encInit) (r : OpenedDecompressor dec decInit)
    (calls : List WriterCall) : Pipeline σ τ :=
  { writer := .start w.memory w.object (writerRequests calls)
    passed := 0
    reader := .start r.memory r.object [] }

/-! ## What was written so far -/

namespace StreamCaller

variable {κ ω : Type}

/-- The bytes of those of the requests that were made or are in progress. -/
def begun (requests : List (ω × List UInt8)) (c : StreamCaller κ ω) : List UInt8 :=
  inputs (requests.take (requests.length - c.todo.length + if c.phase = .ready then 0 else 1))

/-- They are a first part of all there will be. -/
theorem begun_prefix (requests : List (ω × List UInt8)) (c : StreamCaller κ ω) :
    c.begun requests <+: inputs requests := by
  unfold begun
  generalize requests.length - c.todo.length + _ = count
  refine ⟨inputs (requests.drop count), ?_⟩
  rw [← inputs_append, List.take_append_drop]

end StreamCaller

/-- They are what the encoder took and what is left of the request in progress. -/
theorem Writing.begun {enc : Encoder σ} {init : σ} {capacity : Nat} {hcapacity : 0 < capacity}
    {requests : List (Operation × List UInt8)} {x : Exchange UInt8 σ Operation Bool}
    (h : Writing enc init capacity hcapacity requests x)
    {c : StreamCaller (EncoderInstance σ) Operation} (htodo : c.todo = x.todo)
    (hphase : c.phase = x.phase) :
    c.begun requests = x.coder.consumed ++ enc.unfinished x.coder := by
  unfold StreamCaller.begun
  rw [htodo, hphase]
  by_cases hready : x.phase = .ready
  · obtain ⟨done, hrequests, -, hdone⟩ := h.sound.ready hready
    have htake : requests.take (requests.length - x.todo.length + 0) = done := by
      have hlength := congrArg List.length hrequests
      rw [List.length_append] at hlength
      rw [show requests.length - x.todo.length + 0 = done.length by omega, hrequests,
        List.take_left]
    rw [if_pos hready, htake, h.consumed_eq hrequests]
    cases hlast : x.coder.calls.getLast? with
    | none => rw [Encoder.unfinished_none hlast, List.append_nil]
    | some last => rw [Encoder.unfinished_done hlast (hdone last hlast), List.append_nil]
  · obtain ⟨done, request, rest, last, hrequests, hlast, -, htodo', hmore⟩ := h.sound.busy hready
    have htake : requests.take (requests.length - x.todo.length + 1) = done ++ [request] := by
      have hlength := congrArg List.length hrequests
      have hrest := congrArg List.length htodo'
      rw [List.length_append, List.length_cons] at hlength
      rw [List.length_cons] at hrest
      have hcount : requests.length - x.todo.length + 1 = (done ++ [request]).length := by
        rw [List.length_append, List.length_singleton]
        omega
      rw [hcount, hrequests, List.append_cons done request rest, List.take_left]
    -- The request in progress is what was taken of it and what is left.
    have hconserves := h.conserves
    rw [Exchange.Conserves, htodo', hrequests, inputs_cons,
      List.append_cons done request rest, inputs_append, ← List.append_assoc] at hconserves
    rw [if_neg hready, htake, Encoder.unfinished_pending hlast hmore]
    exact (List.append_cancel_right hconserves).symm

/-! ## Where they are -/

/-- The two programs are where these exchanges are, and what the reader was given is
    what was passed on of what the writer has handed out. -/
structure Joined (enc : Encoder σ) (dec : Decoder τ) (fmt : Format UInt8) (encInit : σ)
    (decInit : τ) (ce : Nat) (hce : 0 < ce) (cd : Nat) (hcd : 0 < cd)
    (requests : List (Operation × List UInt8)) (p : Pipeline σ τ)
    (x : Exchange UInt8 σ Operation Bool) (chunks : List (List UInt8))
    (y : Exchange UInt8 τ Unit DecoderResult) : Prop where
  writes : Simulates (bufferedEncoder enc ce hce) compressorRequest p.writer x
  writing : Writing enc encInit ce hce requests x
  reads : Simulates (bufferedDecoder dec cd hcd) decompressorRequest p.reader y
  receiving : Receiving dec fmt decInit cd hcd (readerRequests chunks) y
  chunks_eq : chunks.flatten = x.handed.take p.passed
  passed_le : p.passed ≤ x.handed.length

namespace Joined

variable {enc : Encoder σ} {dec : Decoder τ} {fmt : Format UInt8} {encInit : σ} {decInit : τ}
  {ce : Nat} {hce : 0 < ce} {cd : Nat} {hcd : 0 < cd} {requests : List (Operation × List UInt8)}
  {p p' : Pipeline σ τ} {x : Exchange UInt8 σ Operation Bool} {chunks : List (List UInt8)}
  {y : Exchange UInt8 τ Unit DecoderResult}

theorem waiting_eq (h : Joined enc dec fmt encInit decInit ce hce cd hcd requests p x chunks y) :
    p.waiting = x.handed.drop p.passed := by
  rw [Pipeline.waiting, h.writes.results]

/-- What was handed out more is not passed on yet. -/
theorem handed (h : Joined enc dec fmt encInit decInit ce hce cd hcd requests p x chunks y)
    {x' : Exchange UInt8 σ Operation Bool} (hfirst : x.handed <+: x'.handed) :
    chunks.flatten = x'.handed.take p.passed ∧ p.passed ≤ x'.handed.length := by
  obtain ⟨more, hmore⟩ := hfirst
  rw [← hmore, List.take_append_of_le_length h.passed_le, List.length_append]
  exact ⟨h.chunks_eq, Nat.le_add_right_of_le h.passed_le⟩

/-- The writer goes on. -/
theorem write {bound : Nat}
    (h : Joined enc dec fmt encInit decInit ce hce cd hcd requests p x chunks y)
    (hsteady : Exchange.Steady (bufferedEncoder enc ce hce) bound
      (Writing enc encInit ce hce requests)) {moves : List CallerMove}
    {c : StreamCaller (EncoderInstance σ) Operation}
    (hc : StreamCaller.run (compressorMethod enc) moves p.writer = some c) :
    ∃ x', Joined enc dec fmt encInit decInit ce hce cd hcd requests { p with writer := c } x'
      chunks y := by
  obtain ⟨moves', x', hx, hsim, -⟩ := h.writes.run (performs_compressor enc hce) hc
  obtain ⟨hchunks, hpassed⟩ := h.handed (Exchange.run_grows hx).1
  exact ⟨x', hsim, hsteady.run h.writing hx, h.reads, h.receiving, hchunks, hpassed⟩

/-- Some bytes are passed on. -/
theorem pass (h : Joined enc dec fmt encInit decInit ce hce cd hcd requests p x chunks y)
    (count : Nat) :
    Joined enc dec fmt encInit decInit ce hce cd hcd requests
      { p with
        passed := p.passed + (p.waiting.take count).length
        reader := p.reader.offer ((), p.waiting.take count) }
      x (chunks ++ [p.waiting.take count]) (y.offer ((), p.waiting.take count)) where
  writes := h.writes
  writing := h.writing
  reads := h.reads.offer trivial
  receiving := by
    rw [readerRequests, List.map_append]
    exact h.receiving.offer _
  chunks_eq := by
    show _ = x.handed.take (p.passed + (p.waiting.take count).length)
    rw [List.flatten_append, List.flatten_singleton, h.chunks_eq, h.waiting_eq, List.take_add,
      List.length_take, ← List.take_eq_take_min]
  passed_le := by
    show p.passed + (p.waiting.take count).length ≤ x.handed.length
    have hpassed := h.passed_le
    rw [h.waiting_eq, List.length_take, List.length_drop]
    omega

/-- All that was handed out is passed on. -/
theorem passAll (h : Joined enc dec fmt encInit decInit ce hce cd hcd requests p x chunks y) :
    ∃ count p' chunks' y', p.step enc dec (.pass count) = some p' ∧
      Joined enc dec fmt encInit decInit ce hce cd hcd requests p' x chunks' y' ∧
      chunks'.flatten = x.handed ∧ p'.waiting = [] ∧ p'.writer = p.writer ∧
      p'.reader.memory = p.reader.memory := by
  have hjoined := h.pass p.waiting.length
  have hall : (chunks ++ [p.waiting.take p.waiting.length]).flatten = x.handed := by
    rw [List.take_length, List.flatten_append, List.flatten_singleton, h.chunks_eq, h.waiting_eq]
    exact List.take_append_drop _ _
  refine ⟨_, _, _, _, rfl, hjoined, hall, ?_, rfl, rfl⟩
  rw [hjoined.waiting_eq, List.drop_eq_nil_iff]
  have hlength := congrArg List.length (hjoined.chunks_eq.symm.trans hall)
  rw [List.length_take] at hlength
  omega

/-- The reader goes on. -/
theorem read (h : Joined enc dec fmt encInit decInit ce hce cd hcd requests p x chunks y)
    (hdec : dec.Follows fmt decInit) {moves : List CallerMove}
    {c : StreamCaller (DecoderInstance τ) Unit}
    (hc : StreamCaller.run (decompressorMethod dec) moves p.reader = some c) :
    ∃ y', Joined enc dec fmt encInit decInit ce hce cd hcd requests { p with reader := c } x
      chunks y' ∧ y.coder.emitted <+: y'.coder.emitted := by
  obtain ⟨moves', y', hy, hsim, -⟩ := h.reads.run (performs_decompressor dec hcd) hc
  exact ⟨y', ⟨h.writes, h.writing, hsim, (Receiving.confined hdec).run h.receiving hy,
    h.chunks_eq, h.passed_le⟩, (Exchange.run_grows hy).2⟩

/-- One step of the two. -/
theorem step {bound : Nat}
    (h : Joined enc dec fmt encInit decInit ce hce cd hcd requests p x chunks y)
    (hsteady : Exchange.Steady (bufferedEncoder enc ce hce) bound
      (Writing enc encInit ce hce requests)) (hdec : dec.Follows fmt decInit)
    {move : PipelineMove} (hp : p.step enc dec move = some p') :
    ∃ x' chunks' y',
      Joined enc dec fmt encInit decInit ce hce cd hcd requests p' x' chunks' y' := by
  cases move with
  | write move =>
      obtain ⟨c, hc, rfl⟩ := Option.map_eq_some_iff.mp hp
      have hrun : StreamCaller.run (compressorMethod enc) [move] p.writer = some c := by
        rw [StreamCaller.run, hc]
        rfl
      obtain ⟨x', hx'⟩ := h.write hsteady hrun
      exact ⟨x', chunks, y, hx'⟩
  | pass count =>
      obtain rfl := Option.some.inj hp
      exact ⟨x, _, _, h.pass count⟩
  | read move =>
      obtain ⟨c, hc, rfl⟩ := Option.map_eq_some_iff.mp hp
      have hrun : StreamCaller.run (decompressorMethod dec) [move] p.reader = some c := by
        rw [StreamCaller.run, hc]
        rfl
      obtain ⟨y', hy', -⟩ := h.read hdec hrun
      exact ⟨x, chunks, y', hy'⟩

theorem run {bound : Nat}
    (h : Joined enc dec fmt encInit decInit ce hce cd hcd requests p x chunks y)
    (hsteady : Exchange.Steady (bufferedEncoder enc ce hce) bound
      (Writing enc encInit ce hce requests)) (hdec : dec.Follows fmt decInit)
    {moves : List PipelineMove} (hp : Pipeline.run enc dec moves p = some p') :
    ∃ x' chunks' y',
      Joined enc dec fmt encInit decInit ce hce cd hcd requests p' x' chunks' y' := by
  induction moves generalizing p x chunks y with
  | nil =>
      obtain rfl := Option.some.inj hp
      exact ⟨x, chunks, y, h⟩
  | cons move rest ih =>
      obtain ⟨p₁, hstep, hrest⟩ := Option.bind_eq_some_iff.mp hp
      obtain ⟨x₁, chunks₁, y₁, h₁⟩ := h.step hsteady hdec hstep
      exact ih h₁ hrest

/-- What was passed on is a first part of a complete stream of what was written. -/
theorem stream (h : Joined enc dec fmt encInit decInit ce hce cd hcd requests p x chunks y)
    (henc : enc.Contract compressorOperations fmt encInit) :
    ∃ s, chunks.flatten <+: s ∧ fmt.Decodes s (p.writer.begun requests) := by
  obtain ⟨s, hs, hdecodes⟩ := henc.finishable (mem_compressorOperations .finish) h.writing.session
  refine ⟨s, ?_, ?_⟩
  · rw [h.chunks_eq]
    refine (List.take_prefix _ _).trans (List.IsPrefix.trans ?_ hs)
    exact ⟨x.filled, h.writing.sound.delivered⟩
  · rw [h.writing.begun h.writes.todo h.writes.phase]
    exact hdecodes

/-- The reader has a first part of what was written. -/
theorem delivered (h : Joined enc dec fmt encInit decInit ce hce cd hcd requests p x chunks y)
    (henc : enc.Contract compressorOperations fmt encInit) (hdec : dec.Follows fmt decInit) :
    p.reader.results.flatten ++ p.reader.object.filled <+: p.writer.begun requests := by
  obtain ⟨s, hs, -, hall⟩ := h.stream henc
  have hemitted := h.receiving.emitted_prefix hdec
  rw [inputs_readerRequests] at hemitted
  rw [h.reads.results, h.reads.filled, h.receiving.sound.delivered, ← hall]
  exact hemitted.trans (fmt.decodable_mono hs)

theorem reader_not_raises
    (h : Joined enc dec fmt encInit decInit ce hce cd hcd requests p x chunks y)
    (henc : enc.Contract compressorOperations fmt encInit) (hdec : dec.Follows fmt decInit)
    (e : RubyError) : ¬ p.reader.Raises (decompressorMethod dec) e := by
  intro hraises
  obtain ⟨s, hs, hcomplete, -⟩ := h.stream henc
  obtain ⟨⟨q, hq, hcorrupt⟩, -⟩ := h.receiving.corrupt_of_raises hdec h.reads hraises
  rw [inputs_readerRequests] at hq
  exact hcomplete.not_corrupt (List.prefix_refl s) (hq.trans hs) hcorrupt

theorem writer_not_raises {bound : Nat}
    (h : Joined enc dec fmt encInit decInit ce hce cd hcd requests p x chunks y)
    (hsteady : Exchange.Steady (bufferedEncoder enc ce hce) bound
      (Writing enc encInit ce hce requests)) (e : RubyError) :
    ¬ p.writer.Raises (compressorMethod enc) e := by
  intro hraises
  have hnone := hraises.request_eq
  obtain ⟨op, source, rest, htodo, hphase, -⟩ := hraises
  have hnil : x.todo ≠ [] := by
    rw [← h.writes.todo, htodo]
    exact List.cons_ne_nil _ _
  obtain ⟨x', hcall⟩ := hsteady.can h.writing hnil (h.writes.phase ▸ hphase)
  rcases h.writes.request_cases (performs_compressor enc hce) with
    ⟨-, hxnone⟩ | ⟨c', x'', hrequest, -⟩
  · rw [hxnone] at hcall
    cases hcall
  · rw [hnone] at hrequest
    cases hrequest

/-- The reader can come to the end of its chunks. -/
theorem drains (h : Joined enc dec fmt encInit decInit ce hce cd hcd requests p x chunks y)
    (henc : enc.Contract compressorOperations fmt encInit) (hdec : dec.Follows fmt decInit)
    (hm : p.reader.memory.Faultless) :
    ∃ moves c y', StreamCaller.run (decompressorMethod dec) moves p.reader = some c ∧
      Joined enc dec fmt encInit decInit ce hce cd hcd requests { p with reader := c } x chunks
        y' ∧ y.coder.emitted <+: y'.coder.emitted ∧ c.memory.Faultless ∧ c.todo = [] ∧
      c.object.filled = [] := by
  obtain ⟨moves, c, hc, hm', hstop⟩ :=
    h.reads.stops (Receiving.confined hdec) (performs_decompressor dec hcd) h.receiving hm
  obtain ⟨y', hjoined, hemitted⟩ := h.read hdec hc
  rcases hstop with ⟨htodo, hfilled⟩ | ⟨e, hraises⟩
  · exact ⟨moves, c, y', hc, hjoined, hemitted, hm', htodo, hfilled⟩
  · exact absurd hraises (hjoined.reader_not_raises henc hdec e)

/-- At the end of its chunks the reader has taken all of them, and it has all of the
    content if a stream has ended with them. -/
theorem taken (h : Joined enc dec fmt encInit decInit ce hce cd hcd requests p x chunks y)
    (henc : enc.Contract compressorOperations fmt encInit) (htodo : p.reader.todo = []) :
    y.coder.consumed = chunks.flatten ∧
      (y.coder.emitted = fmt.decodable chunks.flatten ∨ fmt.Open chunks.flatten) := by
  obtain ⟨s, hs, hcomplete, -⟩ := h.stream henc
  have hfinished := h.receiving.finished (h.reads.todo ▸ htodo)
  rw [inputs_readerRequests] at hfinished
  rcases hfinished with ⟨hfirst, hend, hall⟩ | ⟨hconsumed, hopen⟩
  · -- The stream that has ended is the only one there can be.
    have heq : y.coder.consumed = s := Format.Reaches.unique hend hcomplete (by decide) (by decide)
      (hfirst.trans hs) (List.prefix_refl s)
    have hsame : y.coder.consumed = chunks.flatten :=
      hfirst.eq_of_length_le (heq ▸ hs.length_le)
    exact ⟨hsame, Or.inl (hsame ▸ hall.symm)⟩
  · exact ⟨hconsumed, Or.inr hopen⟩

theorem results_eq (h : Joined enc dec fmt encInit decInit ce hce cd hcd requests p x chunks y)
    (hfilled : p.reader.object.filled = []) : p.reader.results.flatten = y.coder.emitted := by
  have hdelivered := h.receiving.sound.delivered
  rw [← h.reads.filled, hfilled, List.append_nil] at hdelivered
  rw [h.reads.results, hdelivered]

/-- When everything was done and passed on, the reader has all that was written. -/
theorem finished (h : Joined enc dec fmt encInit decInit ce hce cd hcd requests p x chunks y)
    (henc : enc.FlushContract compressorOperations fmt encInit)
    (hrequests : requests.getLast?.map Prod.fst = some .finish) (hwritten : p.writer.todo = [])
    (hhanded : p.writer.object.filled = []) (hwaiting : p.waiting = [])
    (htodo : p.reader.todo = []) (hfilled : p.reader.object.filled = []) :
    p.reader.results.flatten = inputs requests := by
  have hstream := h.writing.finished henc hrequests (h.writes.todo ▸ hwritten)
    (h.writes.filled ▸ hhanded)
  have hall : chunks.flatten = x.handed := by
    rw [h.waiting_eq] at hwaiting
    rw [h.chunks_eq]
    exact List.take_of_length_le (List.drop_eq_nil_iff.mp hwaiting)
  obtain ⟨-, hemitted | hopen⟩ := h.taken henc.toContract htodo
  · rw [h.results_eq hfilled, hemitted, hall]
    exact hstream.2
  · exact absurd hopen (hall ▸ hstream.1.not_open (List.prefix_refl _))

/-- By reading, and by being given nothing more, the reader gets all that can be
    decoded of its chunks. -/
theorem pushed (h : Joined enc dec fmt encInit decInit ce hce cd hcd requests p x chunks y)
    (henc : enc.Contract compressorOperations fmt encInit) (hdec : dec.Pushes fmt decInit)
    (hm : p.reader.memory.Faultless) :
    ∃ moves c passed, Pipeline.run enc dec moves p = some { p with passed, reader := c } ∧
      (∀ move ∈ moves, ∀ m, move ≠ .write m) ∧
      c.results.flatten = fmt.decodable chunks.flatten := by
  -- The induction is on what the decoder holds back.
  induction hheld : (fmt.decodable chunks.flatten).length - y.coder.emitted.length using
    Nat.strong_induction_on generalizing p chunks y with
  | _ held ih =>
      obtain ⟨moves, c, y₁, hc, h₁, hemitted, hm₁, htodo, hfilled⟩ :=
        h.drains henc hdec.toFollows hm
      have hrun : Pipeline.run enc dec (moves.map .read) p = some { p with reader := c } :=
        Pipeline.run_read hc
      have hreads : ∀ move ∈ moves.map PipelineMove.read, ∀ m, move ≠ .write m := by
        intro move hmove m
        obtain ⟨m', -, rfl⟩ := List.mem_map.mp hmove
        exact PipelineMove.noConfusion
      obtain ⟨hconsumed, hcases⟩ := h₁.taken henc htodo
      by_cases hall : y₁.coder.emitted = fmt.decodable chunks.flatten
      · exact ⟨_, c, p.passed, hrun, hreads, (h₁.results_eq hfilled).trans hall⟩
      -- Something is held back: a chunk without bytes gives it room.
      have hopen : fmt.Open y₁.coder.consumed := hconsumed ▸ hcases.resolve_left hall
      have h₂ := h₁.pass 0
      have hnil : y₁.todo = [] := h₁.reads.todo ▸ htodo
      have htodo₂ : (y₁.offer ((), [])).todo = [((), [])] := by
        show y₁.todo ++ _ = _
        rw [hnil, List.nil_append]
      have hphase : y₁.phase ≠ .full := by
        rw [h₁.receiving.sound.ready_of_done hnil]
        decide
      rcases h₂.reads.request_cases (performs_decompressor dec hcd) with
        ⟨hnone, -⟩ | ⟨c₃, y₃, hrequest, hcall, hsim, hm₃⟩
      · obtain ⟨e, hraises⟩ := StreamCaller.raises_of_none
          (by rw [h₂.reads.todo, List.take_zero, htodo₂]; exact List.cons_ne_nil _ _)
          (by rw [h₂.reads.phase]; exact hphase) hnone
        exact absurd hraises (h₂.reader_not_raises henc hdec.toFollows e)
      · have hgrown : y₁.coder.emitted.length < y₃.coder.emitted.length :=
          h₂.receiving.pushes hdec (h₁.reads.filled ▸ hfilled) htodo₂ hopen (hconsumed ▸ hall) hcall
        have h₃ : Joined enc dec fmt encInit decInit ce hce cd hcd requests
            { p with passed := p.passed + 0, reader := c₃ } x (chunks ++ [[]]) y₃ :=
          ⟨h₂.writes, h₂.writing, hsim, h₂.receiving.call hdec.toFollows hcall, h₂.chunks_eq,
            h₂.passed_le⟩
        have hsame : (chunks ++ [[]]).flatten = chunks.flatten := by
          rw [List.flatten_append, List.flatten_singleton, List.append_nil]
        have hfits := (h₃.receiving.emitted_prefix hdec.toFollows).length_le
        rw [inputs_readerRequests, hsame] at hfits
        have hle := hemitted.length_le
        obtain ⟨moves', c', passed', hrun', hreads', hresults⟩ :=
          ih _ (by rw [hsame]; omega) h₃ (hm₃ hm₁) rfl
        refine ⟨moves.map .read ++ .pass 0 :: .read .request :: moves', c', passed', ?_, ?_,
          hsame ▸ hresults⟩
        · rw [Pipeline.run_append, hrun, Option.bind_some, Pipeline.run, Pipeline.step,
            Option.bind_some, Pipeline.run, Pipeline.step, StreamCaller.step, hrequest]
          exact hrun'
        · intro move hmove m
          rcases List.mem_append.mp hmove with hmove | hmove
          · exact hreads move hmove m
          · rcases List.mem_cons.mp hmove with rfl | hmove
            · exact PipelineMove.noConfusion
            · rcases List.mem_cons.mp hmove with rfl | hmove
              · exact PipelineMove.noConfusion
              · exact hreads' move hmove m

end Joined

/-! ## Whole runs -/

section Run

variable {enc : Encoder σ} {dec : Decoder τ} {fmt : Format UInt8} {encInit : σ} {decInit : τ}

/-- Two new objects are where nothing was called yet. -/
theorem Pipeline.joined_start (w : OpenedCompressor enc encInit)
    (r : OpenedDecompressor dec decInit) (calls : List WriterCall)
    (henc : enc.Contract compressorOperations fmt encInit) :
    ∃ ce hce cd hcd bound encHandle decHandle,
      Exchange.Steady (bufferedEncoder enc ce hce) bound
        (Writing enc encInit ce hce (writerRequests calls)) ∧
      Joined enc dec fmt encInit decInit ce hce cd hcd (writerRequests calls) (.start w r calls)
        (.start encHandle encInit (writerRequests calls)) []
        (.start decHandle decInit (readerRequests [])) := by
  obtain ⟨encHandle, encBuffer, hencOpen, hencFilled, hencLength⟩ :=
    StreamObject.initializeObject_ok w.read_eq w.set_eq w.initialized
  obtain ⟨decHandle, decBuffer, hdecOpen, hdecFilled, hdecLength⟩ :=
    StreamObject.initializeObject_ok r.read_eq r.set_eq r.initialized
  have hce : 0 < w.object.destinationBufferLength := hencLength ▸ orDefault_pos (by decide)
  have hcd : 0 < r.object.destinationBufferLength := hdecLength ▸ orDefault_pos (by decide)
  obtain ⟨bound, hsteady⟩ := writing_steady hce henc (writerRequests_finishesLast calls)
  exact ⟨_, hce, _, hcd, bound, encHandle, decHandle, hsteady,
    { writes := .start _ hencOpen hencFilled rfl (writerRequests_valid calls) w.memory
      writing := .start encHandle
      reads := .start _ hdecOpen hdecFilled rfl (readerRequests_valid []) r.memory
      receiving := .start decHandle
      chunks_eq := rfl
      passed_le := Nat.zero_le _ }⟩

/-- Wherever two programs are that began with new objects. -/
theorem Pipeline.joined {w : OpenedCompressor enc encInit} {r : OpenedDecompressor dec decInit}
    {calls : List WriterCall} (henc : enc.Contract compressorOperations fmt encInit)
    (hdec : dec.Follows fmt decInit) {moves : List PipelineMove} {p : Pipeline σ τ}
    (hrun : Pipeline.run enc dec moves (.start w r calls) = some p) :
    ∃ ce hce cd hcd bound x chunks y,
      Exchange.Steady (bufferedEncoder enc ce hce) bound
        (Writing enc encInit ce hce (writerRequests calls)) ∧
      Joined enc dec fmt encInit decInit ce hce cd hcd (writerRequests calls) p x chunks y := by
  obtain ⟨ce, hce, cd, hcd, bound, _, _, hsteady, hstart⟩ := joined_start w r calls henc
  obtain ⟨x, chunks, y, h⟩ := hstart.run hsteady hdec hrun
  exact ⟨ce, hce, cd, hcd, bound, x, chunks, y, hsteady, h⟩

/-- At any time the reader has a first part of what was written so far, and neither
    program is stopped by an exception. -/
theorem pipeline_safe (w : OpenedCompressor enc encInit) (r : OpenedDecompressor dec decInit)
    (henc : enc.Contract compressorOperations fmt encInit) (hdec : dec.Follows fmt decInit)
    (calls : List WriterCall) :
    ∀ moves p, Pipeline.run enc dec moves (.start w r calls) = some p →
      p.reader.results.flatten ++ p.reader.object.filled <+:
        p.writer.begun (writerRequests calls) ∧
      (∀ e, ¬ p.writer.Raises (compressorMethod enc) e) ∧
      ∀ e, ¬ p.reader.Raises (decompressorMethod dec) e := by
  intro moves p hrun
  obtain ⟨ce, hce, cd, hcd, bound, x, chunks, y, hsteady, h⟩ := Pipeline.joined henc hdec hrun
  exact ⟨h.delivered henc hdec, h.writer_not_raises hsteady, h.reader_not_raises henc hdec⟩

/-- Two bytes of a stream were passed on, and the reader has looked at them. -/
theorem pipeline_safe_stored :
    ∃ p, Pipeline.run storedEncoder (formatDecoder storedFormat id)
        [.write .request, .write .readResult, .write .request, .write .readResult, .pass 2,
          .read .request]
        (.start .stored .stored [.write [7], .flush, .write [9]]) = some p ∧
      p.reader.results.flatten ++ p.reader.object.filled <+:
        p.writer.begun (writerRequests [.write [7], .flush, .write [9]]) ∧
      (∀ e, ¬ p.writer.Raises (compressorMethod storedEncoder) e) ∧
      ∀ e, ¬ p.reader.Raises (decompressorMethod (formatDecoder storedFormat id)) e := by
  obtain ⟨p, hrun⟩ : ∃ p, Pipeline.run storedEncoder (formatDecoder storedFormat id)
      [.write .request, .write .readResult, .write .request, .write .readResult, .pass 2,
        .read .request]
      (.start .stored .stored [.write [7], .flush, .write [9]]) = some p := ⟨_, rfl⟩
  exact ⟨p, hrun, pipeline_safe _ _ (storedEncoder_flushContract compressorOperations).toContract
    (formatDecoder_follows storedFormat id) _ _ _ hrun⟩

/-- Once a flush is done, the reader can get all that was written before it, without
    any other request of the writer. -/
theorem pipeline_flushed (w : OpenedCompressor enc encInit) (r : OpenedDecompressor dec decInit)
    (henc : enc.FlushContract compressorOperations fmt encInit)
    (hdec : dec.Pushes fmt decInit) (calls : List WriterCall) :
    ∀ moves p, Pipeline.run enc dec moves (.start w r calls) = some p →
      p.writer.memory.Faultless → p.reader.memory.Faultless → p.writer.phase = .ready →
      ∀ done, writerRequests calls = done ++ p.writer.todo →
        done.getLast?.map Prod.fst = some .flush →
        ∃ rest p', Pipeline.run enc dec rest p = some p' ∧
          (∀ move ∈ rest, move ≠ .write .request) ∧
          p'.reader.results.flatten = inputs done := by
  intro moves p hrun hwriter hreader hphase done hdone hflush
  obtain ⟨ce, hce, cd, hcd, bound, x, chunks, y, hsteady, h⟩ :=
    Pipeline.joined henc.toContract hdec.toFollows hrun
  -- The writer takes its result, so all that the flush has emitted was handed out.
  obtain ⟨hsim, -⟩ := h.writes.readResult hwriter
  have hfirst : x.handed <+: x.take.handed := List.prefix_append _ _
  obtain ⟨hchunks, hpassed⟩ := h.handed hfirst
  have h₁ : Joined enc dec fmt encInit decInit ce hce cd hcd (writerRequests calls)
      { p with writer := p.writer.readResult } x.take chunks y :=
    ⟨hsim, hsteady.take h.writing, h.reads, h.receiving, hchunks, hpassed⟩
  have hready : x.phase = .ready := h.writes.phase ▸ hphase
  obtain ⟨done', hdone', -, hdecodable⟩ := h₁.writing.flushed henc (if_pos hready)
  obtain rfl : done = done' := by
    apply List.append_cancel_right
    rw [← hdone, hdone', h.writes.todo]
    rfl
  -- All of it is passed on, and the reader is given nothing else.
  obtain ⟨count, p₂, chunks₂, y₂, hpass, h₂, hall, -, -, hmemory⟩ := h₁.passAll
  obtain ⟨moves', c, passed, hrun', hreads, hresults⟩ :=
    h₂.pushed henc.toContract hdec (hmemory ▸ hreader)
  refine ⟨.write .readResult :: .pass count :: moves', { p₂ with passed, reader := c }, ?_, ?_, ?_⟩
  · show (Pipeline.run enc dec (.pass count :: moves') { p with writer := p.writer.readResult }) = _
    rw [Pipeline.run, hpass]
    exact hrun'
  · intro move hmove
    rcases List.mem_cons.mp hmove with rfl | hmove
    · decide
    · rcases List.mem_cons.mp hmove with rfl | hmove
      · exact PipelineMove.noConfusion
      · exact hreads move hmove .request
  · rw [hresults, hall]
    exact hdecodable hflush rfl

/-- One byte was written and flushed, and nothing was passed on yet. -/
theorem pipeline_flushed_stored :
    ∃ p, Pipeline.run storedEncoder (formatDecoder storedFormat id)
        (List.replicate 5 [.write .request, .write .readResult]).flatten
        (.start .stored .stored [.write [7], .flush, .write [9]]) = some p ∧
      ∃ rest p', Pipeline.run storedEncoder (formatDecoder storedFormat id) rest p = some p' ∧
        (∀ move ∈ rest, move ≠ .write .request) ∧ p'.reader.results.flatten = [7] := by
  obtain ⟨p, hrun, hwriter, hreader, hphase, hdone⟩ :
      ∃ p, Pipeline.run storedEncoder (formatDecoder storedFormat id)
        (List.replicate 5 [.write .request, .write .readResult]).flatten
        (.start .stored .stored [.write [7], .flush, .write [9]]) = some p ∧
      p.writer.memory.Faultless ∧ p.reader.memory.Faultless ∧ p.writer.phase = .ready ∧
      writerRequests [.write [7], .flush, .write [9]] =
        [(.process, [7]), (.flush, [])] ++ p.writer.todo :=
    ⟨_, rfl, fun _ _ => rfl, fun _ _ => rfl, rfl, rfl⟩
  exact ⟨p, hrun, pipeline_flushed _ _ (storedEncoder_flushContract compressorOperations)
    (formatDecoder_pushes storedFormat) _ _ _ hrun hwriter hreader hphase _ hdone rfl⟩

/-- When everything was done and passed on, the reader has all that was written, and
    without allocation faults the two programs can always come to that. -/
theorem pipeline_finished (w : OpenedCompressor enc encInit) (r : OpenedDecompressor dec decInit)
    (henc : enc.FlushContract compressorOperations fmt encInit) (hdec : dec.Follows fmt decInit)
    (calls : List WriterCall) :
    ∀ moves p, Pipeline.run enc dec moves (.start w r calls) = some p →
      (p.writer.todo = [] → p.writer.object.filled = [] → p.waiting = [] → p.reader.todo = [] →
        p.reader.object.filled = [] → p.reader.results.flatten = inputs (writerRequests calls)) ∧
      (p.writer.memory.Faultless → p.reader.memory.Faultless →
        ∃ rest p', Pipeline.run enc dec rest p = some p' ∧ p'.writer.todo = [] ∧
          p'.writer.object.filled = [] ∧ p'.waiting = [] ∧ p'.reader.todo = [] ∧
          p'.reader.object.filled = []) := by
  intro moves p hrun
  obtain ⟨ce, hce, cd, hcd, bound, x, chunks, y, hsteady, h⟩ :=
    Pipeline.joined henc.toContract hdec hrun
  refine ⟨h.finished henc (by simp [writerRequests]), fun hwriter hreader => ?_⟩
  -- First the writer finishes, then everything is passed on, and then the reader reads.
  obtain ⟨writes, c, hc, htodo, hfilled⟩ :=
    h.writes.completes hsteady (performs_compressor enc hce) h.writing hwriter
  obtain ⟨x₁, h₁⟩ := h.write hsteady hc
  obtain ⟨count, p₂, chunks₂, y₂, hpass, h₂, -, hwaiting, hsame, hmemory⟩ := h₁.passAll
  obtain ⟨reads, c', y', hc', -, -, -, htodo', hfilled'⟩ :=
    h₂.drains henc.toContract hdec (hmemory ▸ hreader)
  refine ⟨writes.map .write ++ .pass count :: reads.map .read, { p₂ with reader := c' }, ?_,
    by rw [hsame]; exact htodo, by rw [hsame]; exact hfilled, hwaiting, htodo', hfilled'⟩
  rw [Pipeline.run_append, Pipeline.run_write hc, Option.bind_some, Pipeline.run, hpass]
  exact Pipeline.run_read hc'

/-- A byte, a flush and another byte come through. -/
theorem pipeline_finished_stored :
    ∃ moves p, Pipeline.run storedEncoder (formatDecoder storedFormat id) moves
        (.start .stored .stored [.write [7], .flush, .write [9]]) = some p ∧
      p.reader.results.flatten = [7, 9] := by
  have henc := storedEncoder_flushContract compressorOperations
  have hdec := formatDecoder_follows storedFormat id
  obtain ⟨-, hcan⟩ := pipeline_finished .stored .stored henc hdec
    [.write [7], .flush, .write [9]] [] _ rfl
  obtain ⟨moves, p, hrun, hwritten, hhanded, hwaiting, htodo, hfilled⟩ :=
    hcan (fun _ _ => rfl) (fun _ _ => rfl)
  obtain ⟨hall, -⟩ := pipeline_finished .stored .stored henc hdec
    [.write [7], .flush, .write [9]] moves p hrun
  exact ⟨moves, p, hrun, hall hwritten hhanded hwaiting htodo hfilled⟩

end Run

end RubyBrs
