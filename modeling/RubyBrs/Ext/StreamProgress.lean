/-
  RubyBrs.Ext.StreamProgress

  The writer and the reader of a pipeline come to their end, whoever takes turns.

  A program idles when it takes the result without a need: the buffer is empty, and no
  request waits for it.  Otherwise the result has bytes, or makes room for a request
  (`Brisk`), so the results are paid for by the bytes handed out and by the requests;
  the requests of the writer are bounded, those of the reader are paid for by the chunks
  it was given, and these by the bytes passed on.  Hence no run without idle moves goes
  on forever, and one that cannot go on is done (`pipeline_ends`).
-/

import RubyBrs.Lib.Progress
import RubyBrs.Ext.StreamPipeline

namespace RubyBrs

open StreamCodec StreamFormat

variable {κ σ τ ω ρ : Type}

/-! ## One program -/

namespace StreamCaller

/-- The result has no bytes, and no request waits for it to be taken. -/
def idle (c : StreamCaller κ ω) : CallerMove → Bool
  | .request => false
  | .readResult => c.object.filled.isEmpty && c.phase != .full

/-- Each result that was taken had bytes or made room for one of so many requests. -/
def Brisk (c : StreamCaller κ ω) (calls : Nat) : Prop :=
  c.results.length + (if c.phase = .full then 1 else 0) ≤ c.results.flatten.length + calls

theorem Brisk.start (memory : Memory) (object : StreamObject κ) (todo : List (ω × List UInt8)) :
    (StreamCaller.start memory object todo).Brisk 0 := Nat.le_refl _

end StreamCaller

namespace Simulates

variable {b : Buffered UInt8 σ ω ρ} {valid : ω → List UInt8 → Prop}
  {method : RequestMethod (Coder UInt8 σ ω ρ) ω} {c c' : StreamCaller (Coder UInt8 σ ω ρ) ω}
  {x : Exchange UInt8 σ ω ρ}

/-- Without allocation faults one more result is taken. -/
theorem readResult_results (h : Simulates b valid c x) (hm : c.memory.Faultless) :
    c.readResult.results = c.results ++ [x.filled] := by
  obtain ⟨buffer, hopen⟩ := h.isOpen
  rcases hopen.readResult c.memory with ⟨hfault, -⟩ | ⟨m', o', hread, -⟩
  · exact absurd hm hfault
  · simp only [StreamCaller.readResult, hread, h.filled]

/-- A move that is not idle makes one more call, or takes one more result. -/
theorem advance (h : Simulates b valid c x) (hperforms : Performs b valid method)
    (hm : c.memory.Faultless) (hbrisk : c.Brisk x.coder.calls.length) {move : CallerMove}
    (hidle : c.idle move = false) (hc : c.step method move = some c') :
    ∃ move' x', x.step b move' = some x' ∧ Simulates b valid c' x' ∧ c'.memory.Faultless ∧
      c'.Brisk x'.coder.calls.length ∧ c'.results.length + x'.coder.calls.length =
        c.results.length + x.coder.calls.length + 1 := by
  unfold StreamCaller.Brisk at hbrisk ⊢
  cases move with
  | request =>
      rcases h.request_cases hperforms with ⟨hnone, -⟩ | ⟨c₁, x', hrequest, hx, hsim, hm'⟩
      · rw [StreamCaller.step, hnone] at hc
        cases hc
      · obtain rfl := Option.some.inj (hrequest.symm.trans hc)
        obtain ⟨_, _, _, _, _, -, -, hresults, -⟩ := StreamCaller.request_cases hrequest
        have hcalls := Exchange.call_length hx
        have hone : (if c₁.phase = .full then 1 else 0) ≤ 1 := by split <;> omega
        refine ⟨.call, x', hx, hsim, hm' hm, ?_, ?_⟩
        · rw [hresults]
          omega
        · rw [hresults]
          omega
  | readResult =>
      obtain rfl := Option.some.inj hc
      obtain ⟨hsim, hm'⟩ := h.readResult hm
      have hresults := h.readResult_results hm
      have hphase : c.readResult.phase ≠ .full := by
        rw [hsim.phase]
        simp only [Exchange.take]
        split <;> decide
      refine ⟨.take, x.take, rfl, hsim, hm', ?_, ?_⟩
      · rw [hresults, if_neg hphase, List.length_append, List.flatten_append,
          List.length_append, List.flatten_singleton, List.length_singleton]
        show _ ≤ _ + x.coder.calls.length
        -- The result has bytes, or the program was waiting to take it.
        by_cases hfilled : x.filled = []
        · have hfull : c.phase = .full := by
            simpa [StreamCaller.idle, h.filled, hfilled] using hidle
          rw [if_pos hfull] at hbrisk
          omega
        · have hpos := List.length_pos_iff.mpr hfilled
          omega
      · rw [hresults, List.length_append, List.length_singleton]
        show _ + x.coder.calls.length = _
        omega

end Simulates

/-! ## The two programs -/

namespace Pipeline

/-- A program idles, or no bytes are passed on. -/
def idle (p : Pipeline σ τ) : PipelineMove → Bool
  | .write move => p.writer.idle move
  | .pass count => (p.waiting.take count).isEmpty
  | .read move => p.reader.idle move

def system (enc : Encoder σ) (dec : Decoder τ) :
    Progress.System (Pipeline σ τ) PipelineMove where
  step := step enc dec
  idle := idle

/-- All requests were made, and nothing is left in either buffer or between them. -/
structure Done (p : Pipeline σ τ) : Prop where
  written : p.writer.todo = []
  handed : p.writer.object.filled = []
  passed : p.waiting = []
  read : p.reader.todo = []
  taken : p.reader.object.filled = []

end Pipeline

/-- Where the two programs are after so many moves of which none was idle. -/
structure Moved (enc : Encoder σ) (dec : Decoder τ) (fmt : Format UInt8) (encInit : σ)
    (decInit : τ) (ce : Nat) (hce : 0 < ce) (cd : Nat) (hcd : 0 < cd)
    (requests : List (Operation × List UInt8)) (p : Pipeline σ τ)
    (x : Exchange UInt8 σ Operation Bool) (chunks : List (List UInt8))
    (y : Exchange UInt8 τ Unit DecoderResult) (moves : Nat) : Prop
    extends Joined enc dec fmt encInit decInit ce hce cd hcd requests p x chunks y where
  writerFaultless : p.writer.memory.Faultless
  readerFaultless : p.reader.memory.Faultless
  writerBrisk : p.writer.Brisk x.coder.calls.length
  readerBrisk : p.reader.Brisk y.coder.calls.length
  chunks_le : chunks.length ≤ p.passed
  moves_eq : moves = p.writer.results.length + x.coder.calls.length + chunks.length +
    (p.reader.results.length + y.coder.calls.length)

namespace Moved

variable {enc : Encoder σ} {dec : Decoder τ} {fmt : Format UInt8} {encInit : σ} {decInit : τ}
  {ce : Nat} {hce : 0 < ce} {cd : Nat} {hcd : 0 < cd} {requests : List (Operation × List UInt8)}
  {p p' : Pipeline σ τ} {x : Exchange UInt8 σ Operation Bool} {chunks : List (List UInt8)}
  {y : Exchange UInt8 τ Unit DecoderResult} {moves : Nat}

/-- One more move that is not idle. -/
theorem advance {bound : Nat}
    (h : Moved enc dec fmt encInit decInit ce hce cd hcd requests p x chunks y moves)
    (hsteady : Exchange.Steady (bufferedEncoder enc ce hce) bound
      (Writing enc encInit ce hce requests)) (hdec : dec.Follows fmt decInit)
    {move : PipelineMove} (hp : (Pipeline.system enc dec).advance p move = some p') :
    ∃ x' chunks' y',
      Moved enc dec fmt encInit decInit ce hce cd hcd requests p' x' chunks' y' (moves + 1) := by
  obtain ⟨hidle, hstep⟩ := Progress.System.advance_eq_some.mp hp
  have hmoves := h.moves_eq
  cases move with
  | write move =>
      obtain ⟨c, hc, rfl⟩ := Option.map_eq_some_iff.mp hstep
      obtain ⟨move', x', hx, hsim, hm, hbrisk, hcount⟩ :=
        h.writes.advance (performs_compressor enc hce) h.writerFaultless h.writerBrisk hidle hc
      have hrun : Exchange.run (bufferedEncoder enc ce hce) [move'] x = some x' := by
        rw [Exchange.run, hx]
        rfl
      obtain ⟨hchunks, hpassed⟩ := h.handed (Exchange.run_grows hrun).1
      exact ⟨x', chunks, y,
        { writes := hsim
          writing := hsteady.run h.writing hrun
          reads := h.reads
          receiving := h.receiving
          chunks_eq := hchunks
          passed_le := hpassed
          writerFaultless := hm
          readerFaultless := h.readerFaultless
          writerBrisk := hbrisk
          readerBrisk := h.readerBrisk
          chunks_le := h.chunks_le
          moves_eq := by
            dsimp only
            omega }⟩
  | pass count =>
      obtain rfl := Option.some.inj hstep
      have hpos := List.length_pos_iff.mpr (List.isEmpty_eq_false_iff.mp hidle)
      have hle := h.chunks_le
      refine ⟨x, _, _,
        { toJoined := h.pass count
          writerFaultless := h.writerFaultless
          readerFaultless := h.readerFaultless
          writerBrisk := h.writerBrisk
          readerBrisk := h.readerBrisk
          chunks_le := ?_
          moves_eq := ?_ }⟩
      · rw [List.length_append, List.length_singleton]
        show chunks.length + 1 ≤ p.passed + (p.waiting.take count).length
        omega
      · rw [List.length_append, List.length_singleton]
        show moves + 1 = p.writer.results.length + x.coder.calls.length + (chunks.length + 1) +
          (p.reader.results.length + y.coder.calls.length)
        omega
  | read move =>
      obtain ⟨c, hc, rfl⟩ := Option.map_eq_some_iff.mp hstep
      obtain ⟨move', y', hy, hsim, hm, hbrisk, hcount⟩ :=
        h.reads.advance (performs_decompressor dec hcd) h.readerFaultless h.readerBrisk hidle hc
      have hrun : Exchange.run (bufferedDecoder dec cd hcd) [move'] y = some y' := by
        rw [Exchange.run, hy]
        rfl
      exact ⟨x, chunks, y',
        { writes := h.writes
          writing := h.writing
          reads := hsim
          receiving := (Receiving.confined hdec).run h.receiving hrun
          chunks_eq := h.chunks_eq
          passed_le := h.passed_le
          writerFaultless := h.writerFaultless
          readerFaultless := hm
          writerBrisk := h.writerBrisk
          readerBrisk := hbrisk
          chunks_le := h.chunks_le
          moves_eq := by
            dsimp only
            omega }⟩

/-- The moves are paid for by the requests of the writer, by what the encoder emits for
    what is written, and by what is written. -/
theorem moves_le {bound length : Nat}
    (h : Moved enc dec fmt encInit decInit ce hce cd hcd requests p x chunks y moves)
    (hsteady : Exchange.Steady (bufferedEncoder enc ce hce) bound
      (Writing enc encInit ce hce requests))
    (henc : enc.Contract compressorOperations fmt encInit) (hdec : dec.Follows fmt decInit)
    (hlength : ∀ i, enc.Session compressorOperations encInit i → i.consumed <+: inputs requests →
      i.emitted.length ≤ length) :
    moves ≤ 2 * bound + 6 * length + 3 * (inputs requests).length + 2 := by
  have hwriter := h.writerBrisk
  have hreader := h.readerBrisk
  unfold StreamCaller.Brisk at hwriter hreader
  rw [h.writes.results] at hwriter
  rw [h.reads.results] at hreader
  have hcalls := hsteady.bounded h.writing
  have hhanded := congrArg List.length h.writing.sound.delivered
  have hemitted := hlength _ h.writing.session h.writing.consumed_prefix
  have hchunks := h.chunks_le
  have hpassed := h.passed_le
  -- What can be decoded of the chunks is a first part of what was written.
  have hdecodable : (fmt.decodable chunks.flatten).length ≤ (inputs requests).length := by
    obtain ⟨s, hs, -, hall⟩ := h.stream henc
    have hfirst := fmt.decodable_mono hs
    rw [hall] at hfirst
    exact (hfirst.trans (p.writer.begun_prefix requests)).length_le
  have hreads := h.receiving.calls_le hdec
  have htaken := congrArg List.length h.receiving.sound.delivered
  have hread := (h.receiving.emitted_prefix hdec).length_le
  rw [inputs_readerRequests] at hreads hread
  rw [readerRequests, List.length_map] at hreads
  rw [List.length_append] at hhanded htaken
  have hmoves := h.moves_eq
  omega

end Moved

namespace Joined

variable {enc : Encoder σ} {dec : Decoder τ} {fmt : Format UInt8} {encInit : σ} {decInit : τ}
  {ce : Nat} {hce : 0 < ce} {cd : Nat} {hcd : 0 < cd} {requests : List (Operation × List UInt8)}
  {p : Pipeline σ τ} {x : Exchange UInt8 σ Operation Bool} {chunks : List (List UInt8)}
  {y : Exchange UInt8 τ Unit DecoderResult}

/-- As long as not all is done there is a move that is not idle. -/
theorem done_of_stuck {bound : Nat}
    (h : Joined enc dec fmt encInit decInit ce hce cd hcd requests p x chunks y)
    (hsteady : Exchange.Steady (bufferedEncoder enc ce hce) bound
      (Writing enc encInit ce hce requests))
    (henc : enc.Contract compressorOperations fmt encInit) (hdec : dec.Follows fmt decInit)
    (hstuck : (Pipeline.system enc dec).Stuck p) : p.Done := by
  have hcannot : ∀ move, p.idle move = false → p.step enc dec move = none := by
    intro move hidle
    refine (Progress.System.advance_eq_none.mp (hstuck move)).resolve_left ?_
    exact Bool.eq_false_iff.mp hidle
  have hidle : ∀ {move p'}, p.step enc dec move = some p' → p.idle move = true := by
    intro move p' hstep
    by_contra hidle
    rw [hcannot move (Bool.eq_false_iff.mpr hidle)] at hstep
    cases hstep
  -- Neither program waits for its result to be taken, so it can make its next request.
  obtain ⟨hhanded, hwriter⟩ : p.writer.object.filled = [] ∧ p.writer.phase ≠ .full := by
    have hwrite := hidle (show p.step enc dec (.write .readResult) = some _ from rfl)
    simpa [Pipeline.idle, StreamCaller.idle] using hwrite
  obtain ⟨htaken, hreader⟩ : p.reader.object.filled = [] ∧ p.reader.phase ≠ .full := by
    have hread := hidle (show p.step enc dec (.read .readResult) = some _ from rfl)
    simpa [Pipeline.idle, StreamCaller.idle] using hread
  have hwritten := Option.map_eq_none_iff.mp (hcannot (.write .request) rfl)
  have hread := Option.map_eq_none_iff.mp (hcannot (.read .request) rfl)
  refine ⟨?_, hhanded, ?_, ?_, htaken⟩
  · by_contra htodo
    obtain ⟨e, hraises⟩ := StreamCaller.raises_of_none htodo hwriter hwritten
    exact h.writer_not_raises hsteady e hraises
  · have hpass := hidle (show p.step enc dec (.pass p.waiting.length) = some _ from rfl)
    simpa [Pipeline.idle] using hpass
  · by_contra htodo
    obtain ⟨e, hraises⟩ := StreamCaller.raises_of_none htodo hreader hread
    exact h.reader_not_raises henc hdec e hraises

/-- And then there is none. -/
theorem stuck_of_done
    (h : Joined enc dec fmt encInit decInit ce hce cd hcd requests p x chunks y)
    (hdone : p.Done) : (Pipeline.system enc dec).Stuck p := by
  intro move
  apply Progress.System.advance_eq_none.mpr
  have hwriter : p.writer.phase = .ready :=
    h.writes.phase.trans (h.writing.sound.ready_of_done (h.writes.todo ▸ hdone.written))
  have hreader : p.reader.phase = .ready :=
    h.reads.phase.trans (h.receiving.sound.ready_of_done (h.reads.todo ▸ hdone.read))
  cases move with
  | write move =>
      cases move with
      | request =>
          right
          show Option.map _ (p.writer.request (compressorMethod enc)) = none
          rw [StreamCaller.request, hdone.written]
          rfl
      | readResult =>
          left
          show (p.writer.object.filled.isEmpty && p.writer.phase != .full) = true
          rw [hdone.handed, hwriter]
          rfl
  | pass count =>
      left
      show (p.waiting.take count).isEmpty = true
      rw [hdone.passed, List.take_nil]
      rfl
  | read move =>
      cases move with
      | request =>
          right
          show Option.map _ (p.reader.request (decompressorMethod dec)) = none
          rw [StreamCaller.request, hdone.read]
          rfl
      | readResult =>
          left
          show (p.reader.object.filled.isEmpty && p.reader.phase != .full) = true
          rw [hdone.taken, hreader]
          rfl

end Joined

/-! ## Whole runs -/

section Run

variable {enc : Encoder σ} {dec : Decoder τ} {fmt : Format UInt8} {encInit : σ} {decInit : τ}

/-- Two programs that begin with new objects, and their budget. -/
theorem Pipeline.budget (w : OpenedCompressor enc encInit) (r : OpenedDecompressor dec decInit)
    (calls : List WriterCall) (henc : enc.Contract compressorOperations fmt encInit)
    (hdec : dec.Follows fmt decInit) (hw : w.memory.Faultless) (hr : r.memory.Faultless) :
    ∃ ce hce cd hcd steady bound,
      Exchange.Steady (bufferedEncoder enc ce hce) steady
        (Writing enc encInit ce hce (writerRequests calls)) ∧
      (system enc dec).Budget bound (fun moves p => ∃ x chunks y, Moved enc dec fmt encInit
        decInit ce hce cd hcd (writerRequests calls) p x chunks y moves) ∧
      ∃ x chunks y, Moved enc dec fmt encInit decInit ce hce cd hcd (writerRequests calls)
        (.start w r calls) x chunks y 0 := by
  obtain ⟨ce, hce, cd, hcd, steady, _, _, hsteady, hstart⟩ := joined_start w r calls henc
  obtain ⟨length, hlength⟩ := henc.finite (inputs (writerRequests calls))
  refine ⟨ce, hce, cd, hcd, steady,
    2 * steady + 6 * length + 3 * (inputs (writerRequests calls)).length + 2, hsteady,
    ⟨?_, ?_⟩, _, _, _,
    { toJoined := hstart
      writerFaultless := hw
      readerFaultless := hr
      writerBrisk := .start w.memory w.object (writerRequests calls)
      readerBrisk := .start r.memory r.object []
      chunks_le := Nat.le_refl 0
      moves_eq := rfl }⟩
  · rintro moves p move p' ⟨x, chunks, y, h⟩ hp
    exact h.advance hsteady hdec hp
  · rintro moves p ⟨x, chunks, y, h⟩
    exact h.moves_le hsteady henc hdec hlength

/-- Without allocation faults the two programs come to their end, whoever takes turns:
    there is a bound on the moves of all runs that do not idle; such a run cannot go on
    exactly when all is done, and then the reader has exactly what was written; and each
    run can be continued to that. -/
theorem pipeline_ends (w : OpenedCompressor enc encInit) (r : OpenedDecompressor dec decInit)
    (henc : enc.FlushContract compressorOperations fmt encInit) (hdec : dec.Follows fmt decInit)
    (hw : w.memory.Faultless) (hr : r.memory.Faultless) (calls : List WriterCall) :
    ∃ bound, ∀ moves p, (Pipeline.system enc dec).run moves (.start w r calls) = some p →
      moves.length ≤ bound ∧ ((Pipeline.system enc dec).Stuck p ↔ p.Done) ∧
      (p.Done → p.reader.results.flatten = inputs (writerRequests calls)) ∧
      ∃ rest p', (Pipeline.system enc dec).run rest p = some p' ∧ p'.Done := by
  obtain ⟨ce, hce, cd, hcd, steady, bound, hsteady, hbudget, hstart⟩ :=
    Pipeline.budget w r calls henc.toContract hdec hw hr
  refine ⟨bound, fun moves p hrun => ?_⟩
  have hp := hbudget.run hstart hrun
  obtain ⟨rest, p', hrest, hstuck⟩ := hbudget.exists_stuck hp
  obtain ⟨x', chunks', y', h'⟩ := hbudget.run hp hrest
  obtain ⟨x, chunks, y, h⟩ := hp
  refine ⟨hbudget.length_le hstart hrun, ⟨h.done_of_stuck hsteady henc.toContract hdec,
    h.stuck_of_done⟩, ?_, rest, p', hrest, h'.done_of_stuck hsteady henc.toContract hdec hstuck⟩
  rintro ⟨hwritten, hhanded, hpassed, hread, htaken⟩
  exact h.finished henc (by simp [writerRequests]) hwritten hhanded hpassed hread htaken

/-- A byte, a flush and another byte: some run comes to its end with both bytes. -/
theorem pipeline_ends_stored :
    ∃ moves p, (Pipeline.system storedEncoder (formatDecoder storedFormat id)).run moves
        (.start .stored .stored [.write [7], .flush, .write [9]]) = some p ∧
      (Pipeline.system storedEncoder (formatDecoder storedFormat id)).Stuck p ∧
      p.reader.results.flatten = [7, 9] := by
  obtain ⟨bound, hends⟩ := pipeline_ends .stored .stored
    (storedEncoder_flushContract compressorOperations) (formatDecoder_follows storedFormat id)
    (fun _ _ => rfl) (fun _ _ => rfl) [.write [7], .flush, .write [9]]
  obtain ⟨-, -, -, moves, p, hrun, hdone⟩ := hends [] _ rfl
  obtain ⟨-, hstuck, hresults, -⟩ := hends moves p hrun
  exact ⟨moves, p, hrun, hstuck.mpr hdone, hresults hdone⟩

end Run

end RubyBrs
