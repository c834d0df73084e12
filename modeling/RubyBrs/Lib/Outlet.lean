/-
  RubyBrs.Lib.Outlet

  A codec in use, together with the output of it that nobody has taken yet: at any
  time at most `capacity` of it.  Input is given to the codec as long as there is
  room, and all the output is taken at once.

  `Outlet.Delivers` says that what was taken, and what waits to be taken, is all that
  the codec has emitted.
-/

import RubyBrs.Lib.StreamCodec

namespace StreamCodec

variable {α σ ω ρ : Type}

structure Outlet (α σ ω ρ : Type) where
  coder : Coder α σ ω ρ
  capacity : Nat
  queue : List α
  queue_le : queue.length ≤ capacity

namespace Outlet

/-- Nothing waits to be taken. -/
def opened (coder : Coder α σ ω ρ) (capacity : Nat) : Outlet α σ ω ρ :=
  ⟨coder, capacity, [], Nat.zero_le _⟩

def room (x : Outlet α σ ω ρ) : Nat := x.capacity - x.queue.length

/-- What the codec answers, given all the room there is. -/
def answer (codec : Codec α σ ω ρ) (op : ω) (input : List α) (x : Outlet α σ ω ρ) :
    Answer α σ ρ := codec.stream x.coder.state op input x.room

/-- Call the codec; its output waits behind what waits already. -/
def call (codec : Codec α σ ω ρ) (op : ω) (input : List α) (x : Outlet α σ ω ρ) :
    Outlet α σ ω ρ where
  coder := codec.call x.coder op input x.room
  capacity := x.capacity
  queue := x.queue ++ (x.answer codec op input).output
  queue_le := by
    have houtput := codec.output_le x.coder.state op input x.room
    have hqueue := x.queue_le
    rw [List.length_append]
    unfold answer room at *
    omega

/-- Take what waits. -/
def take (x : Outlet α σ ω ρ) : Outlet α σ ω ρ :=
  { x with queue := [], queue_le := Nat.zero_le _ }

/-- What was taken, and then what waits, is all that was emitted. -/
def Delivers (taken : List α) (x : Outlet α σ ω ρ) : Prop :=
  taken ++ x.queue = x.coder.emitted

section Delivers

variable {taken : List α} {x : Outlet α σ ω ρ}

theorem delivers_opened {coder : Coder α σ ω ρ} (h : coder.calls = []) (capacity : Nat) :
    (opened coder capacity).Delivers [] := by
  simp [Delivers, opened, Coder.emitted, h]

theorem Delivers.call (h : x.Delivers taken) (codec : Codec α σ ω ρ) (op : ω)
    (input : List α) : (x.call codec op input).Delivers taken := by
  show taken ++ (x.queue ++ _) = (codec.call x.coder op input x.room).emitted
  rw [← List.append_assoc, h, Codec.call_emitted]
  rfl

theorem Delivers.take (h : x.Delivers taken) : x.take.Delivers (taken ++ x.queue) := by
  show taken ++ x.queue ++ [] = x.coder.emitted
  rw [List.append_nil, h]

end Delivers

theorem call_consumed (codec : Codec α σ ω ρ) (op : ω) (input : List α)
    (x : Outlet α σ ω ρ) : (x.call codec op input).coder.consumed =
      x.coder.consumed ++ input.take (x.answer codec op input).consumed :=
  codec.call_consumed x.coder op input x.room

end Outlet

end StreamCodec
