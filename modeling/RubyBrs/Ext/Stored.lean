/-
  RubyBrs.Ext.Stored

  A small part of the brotli format that a person can read, and an encoder for
  it: streams of uncompressed meta-blocks of one byte each, with a window of 22
  bits, as the library would accept them.

    * `3b` — the empty stream: header and last empty meta-block.
    * `0b 00 80 b` — header and a first meta-block of the byte `b`.
    * `00 00 08 b` — a further one.
    * `03` — the last empty meta-block.

  The encoder keeps what it could not emit in a queue.  It keeps the contract of
  an encoder (`storedEncoder_flushContract`), so the hypotheses of the results about
  compression can be met.
-/

import RubyBrs.Ext.FormatDecoder

namespace RubyBrs

open StreamCodec StreamFormat

/-! ## The format -/

/-- Where a reader of a stored stream is. -/
inductive StoredState where
  | start
  | header1
  | header2
  | literal
  | boundary
  | block1
  | block2
  | done
  | bad
deriving Repr, DecidableEq

/-- Read one byte: where the reader is then, and the content it gives. -/
def StoredState.step : StoredState → UInt8 → StoredState × List UInt8
  | .start, b => (if b = 0x3b then .done else if b = 0x0b then .header1 else .bad, [])
  | .header1, b => (if b = 0 then .header2 else .bad, [])
  | .header2, b => (if b = 0x80 then .literal else .bad, [])
  | .literal, b => (.boundary, [b])
  | .boundary, b => (if b = 3 then .done else if b = 0 then .block1 else .bad, [])
  | .block1, b => (if b = 0 then .block2 else .bad, [])
  | .block2, b => (if b = 8 then .literal else .bad, [])
  | .done, _ => (.done, [])
  | .bad, _ => (.bad, [])

/-- Read several bytes. -/
def StoredState.run : StoredState → List UInt8 → StoredState × List UInt8
  | st, [] => (st, [])
  | st, b :: rest => (((st.step b).1.run rest).1, (st.step b).2 ++ ((st.step b).1.run rest).2)

def StoredState.status : StoredState → Status
  | .done => .complete
  | .bad => .corrupt
  | _ => .incomplete

namespace StoredState

theorem run_append (st : StoredState) (p q : List UInt8) :
    st.run (p ++ q) = (((st.run p).1.run q).1, (st.run p).2 ++ ((st.run p).1.run q).2) := by
  induction p generalizing st with
  | nil => rfl
  | cons b rest ih => simp only [List.cons_append, run, ih, List.append_assoc]

/-- The end of a stream, or the point where it breaks, is never left. -/
theorem run_ended {st : StoredState} (h : st.status ≠ .incomplete) (p : List UInt8) :
    (st.run p).1 = st := by
  induction p with
  | nil => rfl
  | cons b rest ih =>
      cases st <;> first | exact absurd rfl h | exact ih

/-- A reader that has not ended had not ended before. -/
theorem status_of_prefix {st : StoredState} {p q : List UInt8} (hq : q <+: p)
    (h : (st.run p).1.status = .incomplete) : (st.run q).1.status = .incomplete := by
  obtain ⟨rest, rfl⟩ := hq
  rw [run_append] at h
  by_contra hne
  exact hne (by rwa [run_ended hne] at h)

end StoredState

/-- The format of stored streams. -/
def storedFormat : Format UInt8 where
  status p := (StoredState.start.run p).1.status
  decodable p := (StoredState.start.run p).2
  decodable_mono := by
    rintro p q ⟨rest, rfl⟩
    rw [StoredState.run_append]
    exact List.prefix_append _ _
  status_nil := rfl
  decodable_nil := rfl

/-! ## The encoder -/

/-- The meta-blocks of `content`, after the header if it was written before. -/
def storedBlocks : Bool → List UInt8 → List UInt8
  | _, [] => []
  | false, b :: rest => [0x0b, 0x00, 0x80, b] ++ storedBlocks true rest
  | true, b :: rest => [0x00, 0x00, 0x08, b] ++ storedBlocks true rest

/-- The last meta-block, with the header if it was not written before. -/
def storedEnd (started : Bool) : List UInt8 := if started then [0x03] else [0x3b]

structure StoredEncoderState where
  started : Bool
  finished : Bool
  queue : List UInt8
deriving Repr, DecidableEq

/-- What a call puts in the queue. -/
def StoredEncoderState.enqueue (s : StoredEncoderState) (op : Operation) (input : List UInt8) :
    List UInt8 :=
  s.queue ++ storedBlocks s.started input ++
    if op = .finish ∧ s.finished = false then storedEnd (s.started || !input.isEmpty) else []

def storedEncoderStream (s : StoredEncoderState) (op : Operation) (input : List UInt8)
    (room : Nat) : Answer UInt8 StoredEncoderState Bool :=
  if s.finished = true ∧ (op ≠ .finish ∨ input ≠ []) then
    { state := s, consumed := 0, output := [], result := false }
  else
    { state :=
        { started := s.started || !input.isEmpty
          finished := s.finished || op == .finish
          queue := (s.enqueue op input).drop room }
      consumed := input.length
      output := (s.enqueue op input).take room
      result := true }

def storedEncoder : Encoder StoredEncoderState where
  stream := storedEncoderStream
  consumed_le s op input room := by
    unfold storedEncoderStream
    split
    · exact Nat.zero_le _
    · exact le_refl _
  output_le s op input room := by
    unfold storedEncoderStream
    split
    · exact Nat.zero_le _
    · rw [List.length_take]
      exact Nat.min_le_left _ _
  create := ⟨false, false, []⟩
  setParameter s _ _ := (true, s)
  hasMoreOutput s := !s.queue.isEmpty
  isFinished s := s.finished && s.queue.isEmpty

/-! ## Streams of the encoder -/

theorem storedBlocks_append (started : Bool) (p q : List UInt8) :
    storedBlocks started (p ++ q) =
      storedBlocks started p ++ storedBlocks (started || !p.isEmpty) q := by
  induction p generalizing started with
  | nil => simp [storedBlocks]
  | cons b rest ih =>
      cases started <;> simp [storedBlocks, ih]

theorem storedBlocks_length (started : Bool) (p : List UInt8) :
    (storedBlocks started p).length = 4 * p.length := by
  induction p generalizing started with
  | nil => rfl
  | cons b rest ih =>
      cases started <;> simp only [storedBlocks, List.length_append, ih, List.length_cons,
        List.length_nil] <;> omega

/-- Reading the meta-blocks of `content` gives the content and ends between two
    meta-blocks. -/
theorem run_storedBlocks (p : List UInt8) :
    StoredState.boundary.run (storedBlocks true p) = (.boundary, p) := by
  induction p with
  | nil => rfl
  | cons b rest ih =>
      simp [storedBlocks, StoredState.run, StoredState.step, ih]

theorem run_start_storedBlocks (p : List UInt8) :
    StoredState.start.run (storedBlocks false p) =
      (if p.isEmpty then .start else .boundary, p) := by
  cases p with
  | nil => rfl
  | cons b rest =>
      simp [storedBlocks, StoredState.run, StoredState.step, run_storedBlocks]

/-- What was written before the end can be decoded at once. -/
theorem decodable_storedBlocks (p : List UInt8) :
    storedFormat.decodable (storedBlocks false p) = p := by
  simp only [storedFormat, run_start_storedBlocks]

/-- The meta-blocks with the last one are a complete stream. -/
theorem decodes_stored (p : List UInt8) :
    storedFormat.Decodes (storedBlocks false p ++ storedEnd (!p.isEmpty)) p := by
  have hrun : StoredState.start.run (storedBlocks false p ++ storedEnd (!p.isEmpty)) =
      (.done, p) := by
    rw [StoredState.run_append, run_start_storedBlocks]
    cases p <;> simp [storedEnd, StoredState.run, StoredState.step]
  refine ⟨⟨?_, ?_⟩, ?_⟩
  · simp only [storedFormat, hrun, StoredState.status]
  -- The end is one byte, so before it the reader is between two meta-blocks.
  · intro q hq hne
    obtain ⟨e, he⟩ : ∃ e, storedEnd (!p.isEmpty) = [e] := by
      cases p <;> exact ⟨_, rfl⟩
    rw [he] at hq hne
    have hblocks : q <+: storedBlocks false p :=
      (List.prefix_concat_iff.mp hq).resolve_left hne
    refine StoredState.status_of_prefix hblocks ?_
    rw [run_start_storedBlocks]
    cases p <;> rfl
  · simp only [storedFormat, hrun]

/-! ## The encoder keeps its contract -/

/-- What holds of the encoder between two calls in the documented order. -/
structure StoredEncoderInvariant (i : EncoderInstance StoredEncoderState) : Prop where
  started : i.state.started = !i.consumed.isEmpty
  output : i.emitted ++ i.state.queue = storedBlocks false i.consumed ++
    if i.state.finished then storedEnd (!i.consumed.isEmpty) else []
  finished : ∀ last, i.calls.getLast? = some last →
    (i.state.finished = true ↔ last.operation = .finish) ∧ last.rest = []
  new : i.calls.getLast? = none → i.state.finished = false

section Invariant

variable {i : EncoderInstance StoredEncoderState} {op : Operation} {input : List UInt8}

/-- A call in the documented order is not refused: after the end nothing but the
    end is asked for. -/
theorem StoredEncoderInvariant.allowed (h : StoredEncoderInvariant i)
    (hallowed : storedEncoder.Allowed i op input) :
    ¬ (i.state.finished = true ∧ (op ≠ .finish ∨ input ≠ [])) := by
  rintro ⟨hfinished, hother⟩
  unfold Encoder.Allowed at hallowed
  cases hlast : i.calls.getLast? with
  | none =>
      rw [h.new hlast] at hfinished
      cases hfinished
  -- The encoder finished with its last call, which may only be repeated.
  | some last =>
      obtain ⟨hiff, hrest⟩ := h.finished last hlast
      have hop := hiff.mp hfinished
      simp only [hlast] at hallowed
      split at hallowed
      · obtain ⟨rfl, rfl⟩ := hallowed
        rcases hother with hne | hne
        · exact hne hop
        · exact hne hrest
      · exact hallowed hop

/-- What such a call gives back. -/
theorem StoredEncoderInvariant.stream_eq (h : StoredEncoderInvariant i)
    (hallowed : storedEncoder.Allowed i op input) (room : Nat) :
    storedEncoder.stream i.state op input room =
      { state :=
          { started := i.state.started || !input.isEmpty
            finished := i.state.finished || op == .finish
            queue := (i.state.enqueue op input).drop room }
        consumed := input.length
        output := (i.state.enqueue op input).take room
        result := true } :=
  if_neg (h.allowed hallowed)

/-- Unless the end was written before, the queue grows by the new meta-blocks,
    and by the end when that is asked for. -/
theorem StoredEncoderInvariant.enqueued (h : StoredEncoderInvariant i)
    (hallowed : storedEncoder.Allowed i op input) :
    i.emitted ++ i.state.enqueue op input =
      storedBlocks false (i.consumed ++ input) ++
        if (i.state.finished || op == .finish) then storedEnd (!(i.consumed ++ input).isEmpty)
        else [] := by
  have hnot := h.allowed hallowed
  have houtput := h.output
  cases hfinished : i.state.finished with
  -- The end was queued before, and nothing is added to it.
  | true =>
      obtain ⟨rfl, rfl⟩ : op = .finish ∧ input = [] := by
        constructor
        · by_contra hne
          exact hnot ⟨hfinished, Or.inl hne⟩
        · by_contra hne
          exact hnot ⟨hfinished, Or.inr hne⟩
      simp [StoredEncoderState.enqueue, hfinished] at houtput ⊢
      simpa [storedBlocks] using houtput
  | false =>
      have hblocks : storedBlocks false (i.consumed ++ input) =
          storedBlocks false i.consumed ++ storedBlocks i.state.started input := by
        rw [storedBlocks_append, h.started, Bool.false_or]
      have hempty : (!(i.consumed ++ input).isEmpty) =
          (i.state.started || !input.isEmpty) := by
        rw [h.started]
        cases i.consumed <;> cases input <;> rfl
      rw [hfinished] at houtput
      rw [hblocks, hempty, StoredEncoderState.enqueue, ← List.append_assoc, ← List.append_assoc,
        houtput]
      cases op <;> simp [hfinished]

theorem StoredEncoderInvariant.call (h : StoredEncoderInvariant i)
    (hallowed : storedEncoder.Allowed i op input) (room : Nat) :
    StoredEncoderInvariant (storedEncoder.call i op input room) := by
  have hstream := h.stream_eq hallowed room
  refine ⟨?_, ?_, ?_, ?_⟩
  · rw [Codec.call_state, Codec.call_consumed, hstream, List.take_length]
    simp only [h.started]
    cases i.consumed <;> cases input <;> rfl
  · rw [Codec.call_state, Codec.call_consumed, Codec.call_emitted, hstream, List.take_length,
      List.append_assoc]
    simp only [List.take_append_drop]
    exact h.enqueued hallowed
  · intro last hlast
    rw [Codec.call_getLast, hstream] at hlast
    obtain rfl := Option.some.inj hlast
    rw [Codec.call_state, hstream]
    refine ⟨?_, List.drop_length⟩
    have hnot := h.allowed hallowed
    cases hfinished : i.state.finished with
    | true =>
        have hop : op = .finish := by
          by_contra hne
          exact hnot ⟨hfinished, Or.inl hne⟩
        simp [hop]
    | false => simp
  · intro hnone
    rw [Codec.call_getLast] at hnone
    cases hnone

theorem StoredEncoderInvariant.of_session {ops : List Operation}
    (h : storedEncoder.Session ops storedEncoder.create i) : StoredEncoderInvariant i := by
  induction h with
  | start handle => exact ⟨rfl, rfl, (fun _ h => nomatch h), fun _ => rfl⟩
  | call room _ _ hallowed ih => exact ih.call hallowed room

/-- Nothing is pending when the queue is empty and the end, if it was asked for,
    was written. -/
theorem pending_stored (op : Operation) (s : StoredEncoderState) :
    storedEncoder.pending op s = (!s.queue.isEmpty || (op == .finish && !s.finished)) := by
  show (!s.queue.isEmpty || (op == .finish && !(s.finished && s.queue.isEmpty))) = _
  cases s.queue.isEmpty <;> cases s.finished <;> cases op <;> rfl

end Invariant

/-- The stored encoder keeps the contract of an encoder, of any operations. -/
theorem storedEncoder_flushContract (ops : List Operation) :
    storedEncoder.FlushContract ops storedFormat storedEncoder.create := by
  refine { succeeds := ?_, completes := ?_, progresses := ?_, finite := ?_, finishes := ?_,
           flushes := ?_ }
  · intro i op input room hi _ hallowed
    rw [(StoredEncoderInvariant.of_session hi).stream_eq hallowed]
  · intro i op input room hi _ hallowed _
    rw [(StoredEncoderInvariant.of_session hi).stream_eq hallowed]
  · intro i op input room hi _ hallowed hroom hpending
    have hstream := (StoredEncoderInvariant.of_session hi).stream_eq hallowed room
    rw [hstream, pending_stored] at hpending
    rw [hstream]
    intro hnil
    -- With room, nothing is emitted only when the queue is empty, and then nothing is pending.
    rcases List.take_eq_nil_iff.mp hnil with hzero | hqueue
    · omega
    · simp only [hqueue, List.drop_nil, List.isEmpty_nil, Bool.not_true, Bool.false_or] at hpending
      cases op <;> simp at hpending
  · intro content
    refine ⟨4 * content.length + 1, fun i hi hconsumed => ?_⟩
    have h := StoredEncoderInvariant.of_session hi
    have hlength := congrArg List.length h.output
    have hend : (if i.state.finished then storedEnd (!i.consumed.isEmpty) else []).length ≤ 1 := by
      split
      · cases i.consumed <;> simp [storedEnd]
      · exact Nat.zero_le 1
    rw [List.length_append, List.length_append, storedBlocks_length] at hlength
    have := hconsumed.length_le
    omega
  · intro i last hi hlast hop hdone
    have h := StoredEncoderInvariant.of_session hi
    have hfinished : i.state.finished = true := (h.finished last hlast).1.mpr hop
    have hqueue : i.state.queue = [] := by
      rw [pending_stored, hfinished] at hdone
      simpa using hdone
    have houtput := h.output
    rw [hqueue, List.append_nil, if_pos hfinished] at houtput
    rw [houtput]
    exact decodes_stored i.consumed
  · intro i last hi hlast hop hdone
    have h := StoredEncoderInvariant.of_session hi
    have hfinished : i.state.finished = false := by
      by_contra hne
      have := (h.finished last hlast).1.mp (by simpa using hne)
      rw [hop] at this
      cases this
    have hqueue : i.state.queue = [] := by
      rw [pending_stored, hfinished] at hdone
      simpa using hdone
    have houtput := h.output
    rw [hqueue, hfinished, List.append_nil] at houtput
    simp only [Bool.false_eq_true, if_false, List.append_nil] at houtput
    rw [houtput]
    exact decodable_storedBlocks i.consumed

end RubyBrs
