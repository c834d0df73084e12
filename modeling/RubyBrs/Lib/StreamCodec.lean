/-
  RubyBrs.Lib.StreamCodec

  A streaming codec: a stateful function that is offered some input and some
  room for output, takes a prefix of the input, and gives back at most as much
  output as there is room for.  Nothing else is fixed: what an operation asks
  for and what an answer means are parameters.

  A `Coder` is one codec in use, together with the record of the calls made on
  it; `consumed` and `emitted` are read off the record.  A `Pipe` is what any
  driver of a codec amounts to once its buffers are forgotten: the input still
  to be offered, and the output already taken away.  `Pipe.Balanced` says that
  no input was lost, repeated or reordered and that no output was either, and
  `Pipe.feed_balanced` that a call keeps it so.
-/

import Mathlib.Data.List.Basic

namespace StreamCodec

variable {α σ ω ρ : Type}

/-- What a codec call gives back. -/
structure Answer (α σ ρ : Type) where
  state : σ
  consumed : Nat
  output : List α
  result : ρ

/-- A codec over states `σ`, operations `ω` and results `ρ`.  It cannot reach
    outside the input it is offered or the room it is given. -/
structure Codec (α σ ω ρ : Type) where
  stream : σ → ω → List α → Nat → Answer α σ ρ
  consumed_le : ∀ s op input room, (stream s op input room).consumed ≤ input.length
  output_le : ∀ s op input room, (stream s op input room).output.length ≤ room

/-- The record of one call. -/
structure Call (α ω ρ : Type) where
  operation : ω
  input : List α
  room : Nat
  consumed : Nat
  output : List α
  result : ρ

namespace Call

/-- The part of the offered input that was taken. -/
def taken (c : Call α ω ρ) : List α := c.input.take c.consumed

/-- The part of the offered input that was left. -/
def rest (c : Call α ω ρ) : List α := c.input.drop c.consumed

end Call

/-- A codec in use: who owns it, its state, and the calls made on it so far,
    oldest first. -/
structure Coder (α σ ω ρ : Type) where
  handle : Nat
  state : σ
  calls : List (Call α ω ρ)

namespace Coder

/-- Everything the codec has taken, in order. -/
def consumed (c : Coder α σ ω ρ) : List α := c.calls.flatMap Call.taken

/-- Everything the codec has given back, in order. -/
def emitted (c : Coder α σ ω ρ) : List α := c.calls.flatMap Call.output

/-- The result of the last call. -/
def lastResult (c : Coder α σ ω ρ) : Option ρ := c.calls.getLast?.map Call.result

@[simp] theorem consumed_new (handle : Nat) (s : σ) :
    (⟨handle, s, []⟩ : Coder α σ ω ρ).consumed = [] := rfl

@[simp] theorem emitted_new (handle : Nat) (s : σ) :
    (⟨handle, s, []⟩ : Coder α σ ω ρ).emitted = [] := rfl

end Coder

namespace Codec

variable (codec : Codec α σ ω ρ)

/-- Call the codec and record the call. -/
def call (c : Coder α σ ω ρ) (op : ω) (input : List α) (room : Nat) : Coder α σ ω ρ :=
  let answer := codec.stream c.state op input room
  { c with
    state := answer.state
    calls := c.calls ++ [⟨op, input, room, answer.consumed, answer.output, answer.result⟩] }

@[simp] theorem call_state (c : Coder α σ ω ρ) (op : ω) (input : List α) (room : Nat) :
    (codec.call c op input room).state = (codec.stream c.state op input room).state := rfl

@[simp] theorem call_consumed (c : Coder α σ ω ρ) (op : ω) (input : List α) (room : Nat) :
    (codec.call c op input room).consumed =
      c.consumed ++ input.take (codec.stream c.state op input room).consumed := by
  simp [call, Coder.consumed, Call.taken]

@[simp] theorem call_emitted (c : Coder α σ ω ρ) (op : ω) (input : List α) (room : Nat) :
    (codec.call c op input room).emitted =
      c.emitted ++ (codec.stream c.state op input room).output := by
  simp [call, Coder.emitted]

@[simp] theorem call_getLast (c : Coder α σ ω ρ) (op : ω) (input : List α) (room : Nat) :
    (codec.call c op input room).calls.getLast? =
      some ⟨op, input, room, (codec.stream c.state op input room).consumed,
        (codec.stream c.state op input room).output,
        (codec.stream c.state op input room).result⟩ := by
  simp [call]

@[simp] theorem call_lastResult (c : Coder α σ ω ρ) (op : ω) (input : List α) (room : Nat) :
    (codec.call c op input room).lastResult =
      some (codec.stream c.state op input room).result := by
  simp [Coder.lastResult]

/-- `faulty` does what the codec does, at every call that it does not fail. -/
def Faulty (faulty : Codec α σ ω ρ) (failed : ρ → Prop) : Prop :=
  ∀ s op input room, ¬ failed (faulty.stream s op input room).result →
    faulty.stream s op input room = codec.stream s op input room

theorem Faulty.refl (failed : ρ → Prop) : codec.Faulty codec failed := fun _ _ _ _ _ => rfl

/-- The codec, but for calls that fail: they take nothing and fill the room. -/
def failing (fails : σ → ω → Bool) (failure : ρ) (garbage : α) : Codec α σ ω ρ where
  stream s op input room :=
    if fails s op then ⟨s, 0, List.replicate room garbage, failure⟩
    else codec.stream s op input room
  consumed_le s op input room := by
    split
    · exact Nat.zero_le _
    · exact codec.consumed_le s op input room
  output_le s op input room := by
    split
    · exact Nat.le_of_eq List.length_replicate
    · exact codec.output_le s op input room

theorem failing_faulty (fails : σ → ω → Bool) {failure : ρ} (garbage : α) {failed : ρ → Prop}
    (h : failed failure) : codec.Faulty (codec.failing fails failure garbage) failed := by
  intro s op input room hok
  simp only [failing] at hok ⊢
  split
  · rename_i hfails
    rw [if_pos hfails] at hok
    exact absurd h hok
  · rfl

/-- A codec offered nothing takes nothing. -/
@[simp] theorem consumed_nil (s : σ) (op : ω) (room : Nat) :
    (codec.stream s op [] room).consumed = 0 :=
  Nat.le_zero.mp (codec.consumed_le s op [] room)

end Codec

/-! ## Pipes -/

/-- A codec between the input still to be offered and the output taken away. -/
structure Pipe (α σ ω ρ : Type) where
  coder : Coder α σ ω ρ
  pending : List α
  delivered : List α

namespace Pipe

/-- Offer the next `n` of the pending input, with `room` for output. -/
def feed (codec : Codec α σ ω ρ) (op : ω) (n room : Nat) (p : Pipe α σ ω ρ) : Pipe α σ ω ρ :=
  let answer := codec.stream p.coder.state op (p.pending.take n) room
  { coder := codec.call p.coder op (p.pending.take n) room
    pending := p.pending.drop answer.consumed
    delivered := p.delivered ++ answer.output }

/-- The codec has been offered `content` from its start, each item once and in
    order, and what it emitted was delivered after `before`, once and in order. -/
def Balanced (content before : List α) (p : Pipe α σ ω ρ) : Prop :=
  p.coder.consumed ++ p.pending = content ∧ p.delivered = before ++ p.coder.emitted

theorem feed_balanced {content before : List α} {p : Pipe α σ ω ρ} (codec : Codec α σ ω ρ)
    (op : ω) (n room : Nat) (h : p.Balanced content before) :
    (p.feed codec op n room).Balanced content before := by
  -- What is taken comes off the front of what is pending.
  obtain ⟨hin, hout⟩ := h
  have hle := codec.consumed_le p.coder.state op (p.pending.take n) room
  rw [List.length_take] at hle
  constructor
  · simp only [feed, Codec.call_consumed, List.take_take]
    rw [Nat.min_eq_left (by omega), List.append_assoc, List.take_append_drop, hin]
  · simp only [feed, Codec.call_emitted, hout, List.append_assoc]

theorem Balanced.consumed_prefix {content before : List α} {p : Pipe α σ ω ρ}
    (h : p.Balanced content before) : p.coder.consumed <+: content :=
  ⟨p.pending, h.1⟩

/-- With nothing pending, all of the content has been consumed. -/
theorem Balanced.consumed_eq {content before : List α} {p : Pipe α σ ω ρ}
    (h : p.Balanced content before) (hp : p.pending = []) : p.coder.consumed = content := by
  have := h.1
  rwa [hp, List.append_nil] at this

end Pipe

end StreamCodec
