/-
  RubyBrs.Ext.FormatDecoder

  The plainest decoders of a stream format: they take their input up to the end
  of the stream, and ask for more whenever the stream has not ended, whether or
  not they are holding content back.  How much of the room they use before the
  end is a parameter, `push`.

  They follow their format (`formatDecoder_follows`), and the one that uses all
  of the room pushes (`formatDecoder_pushes`), so the contracts of a decoder can
  be met for every format.
-/

import RubyBrs.Ext.Brotli

namespace RubyBrs

open StreamCodec StreamFormat

/-- How many bytes of `input`, read after `p`, there are up to the end of the
    stream, or in all. -/
def untilEnd (fmt : Format UInt8) (p : List UInt8) : List UInt8 → Nat
  | [] => 0
  | b :: rest => if fmt.status p = .incomplete then untilEnd fmt (p ++ [b]) rest + 1 else 0

/-- How much of the room is used with `taken` of the stream read. -/
def usedRoom (fmt : Format UInt8) (push : Nat → Nat) (taken : List UInt8) (room : Nat) : Nat :=
  if fmt.status taken = .incomplete then min (push room) room else room

/-- One call: the state is what was taken so far and how much was emitted. -/
def formatDecoderStream (fmt : Format UInt8) (push : Nat → Nat) (s : List UInt8 × Nat) (_ : Unit)
    (input : List UInt8) (room : Nat) : Answer UInt8 (List UInt8 × Nat) DecoderResult :=
  let taken := s.1 ++ input.take (untilEnd fmt s.1 input)
  let output := ((fmt.decodable taken).drop s.2).take (usedRoom fmt push taken room)
  { state := (taken, s.2 + output.length)
    consumed := untilEnd fmt s.1 input
    output
    result :=
      match fmt.status taken with
      | .incomplete => .needsMoreInput
      | .corrupt => .error
      | .complete =>
          if s.2 + output.length = (fmt.decodable taken).length then
            .success
          else
            .needsMoreOutput }

theorem untilEnd_le (fmt : Format UInt8) (p input : List UInt8) :
    untilEnd fmt p input ≤ input.length := by
  induction input generalizing p with
  | nil => exact Nat.le_refl 0
  | cons b rest ih =>
      unfold untilEnd
      split
      · exact Nat.succ_le_succ (ih (p ++ [b]))
      · exact Nat.zero_le _

theorem usedRoom_le (fmt : Format UInt8) (push : Nat → Nat) (taken : List UInt8) (room : Nat) :
    usedRoom fmt push taken room ≤ room := by
  unfold usedRoom
  split
  · exact Nat.min_le_right _ _
  · exact Nat.le_refl room

/-- A decoder of `fmt`. -/
def formatDecoder (fmt : Format UInt8) (push : Nat → Nat) : Decoder (List UInt8 × Nat) where
  stream := formatDecoderStream fmt push
  consumed_le s _ input _ := untilEnd_le fmt s.1 input
  output_le s _ input room := by
    simp only [formatDecoderStream, List.length_take]
    exact (Nat.min_le_left _ _).trans (usedRoom_le _ _ _ _)
  create := ([], 0)
  setParameter s _ _ := (true, s)
  hasMoreOutput s := decide (s.2 < (fmt.decodable s.1).length)
  getErrorCode _ := .formatReserved

variable {fmt : Format UInt8}

/-- No end is passed over. -/
theorem untilEnd_open {p input : List UInt8} {k : Nat} (hk : k < untilEnd fmt p input) :
    fmt.status (p ++ input.take k) = .incomplete := by
  induction input generalizing p k with
  | nil => exact absurd hk (Nat.not_lt_zero k)
  | cons b rest ih =>
      unfold untilEnd at hk
      split at hk
      · rename_i hp
        cases k with
        | zero => simpa using hp
        | succ k =>
            have := ih (p := p ++ [b]) (Nat.lt_of_succ_lt_succ hk)
            simpa using this
      · exact absurd hk (Nat.not_lt_zero k)

/-- All of the input is taken when no end is found. -/
theorem untilEnd_all {p input : List UInt8}
    (h : fmt.status (p ++ input.take (untilEnd fmt p input)) = .incomplete) :
    untilEnd fmt p input = input.length := by
  induction input generalizing p with
  | nil => rfl
  | cons b rest ih =>
      unfold untilEnd at h ⊢
      split
      · rename_i hp
        rw [if_pos hp] at h
        rw [ih (p := p ++ [b]) (by simpa using h), List.length_cons]
      · rename_i hp
        rw [if_neg hp] at h
        exact absurd (by simpa using h) hp

/-- A first call with all of an open string asks for more. -/
theorem formatDecoderStream_open {s : List UInt8} (h : fmt.Open s) (push : Nat → Nat)
    (room : Nat) :
    (formatDecoderStream fmt push ([], 0) () s room).result = .needsMoreInput ∧
      (formatDecoderStream fmt push ([], 0) () s room).output =
        (fmt.decodable s).take (min (push room) room) := by
  have hall : untilEnd fmt [] s = s.length := by
    apply untilEnd_all
    exact (h.of_prefix (List.take_prefix _ s)).1
  simp only [formatDecoderStream, usedRoom, hall, List.nil_append, List.take_length, h.1,
    if_true, List.drop_zero, true_and]

/-- What holds of the decoder between two calls. -/
structure FormatDecoderInvariant (fmt : Format UInt8) (i : DecoderInstance (List UInt8 × Nat)) :
    Prop where
  taken : i.state.1 = i.consumed
  count : i.state.2 = i.emitted.length
  emitted : i.emitted <+: fmt.decodable i.consumed
  proper : ∀ q, q <+: i.consumed → q ≠ i.consumed → fmt.status q = .incomplete

section Step

variable {i : DecoderInstance (List UInt8 × Nat)} (h : FormatDecoderInvariant fmt i)
  (push : Nat → Nat) (input : List UInt8) (room : Nat)

include h

/-- What a call has taken of the stream so far. -/
theorem FormatDecoderInvariant.taken_eq :
    (formatDecoderStream fmt push i.state () input room).state.1 =
      i.consumed ++ input.take (formatDecoderStream fmt push i.state () input room).consumed := by
  simp only [formatDecoderStream, h.taken]

/-- What a call emits is the next part of what can be told from that. -/
theorem FormatDecoderInvariant.output_eq :
    i.emitted ++ (formatDecoderStream fmt push i.state () input room).output =
      (fmt.decodable (i.consumed ++
          input.take (formatDecoderStream fmt push i.state () input room).consumed)).take
        (i.emitted.length + usedRoom fmt push (i.consumed ++
          input.take (formatDecoderStream fmt push i.state () input room).consumed) room) := by
  obtain ⟨held, hheld⟩ := h.emitted.trans (fmt.decodable_mono
    (List.prefix_append i.consumed
      (input.take (formatDecoderStream fmt push i.state () input room).consumed)))
  simp only [formatDecoderStream, h.taken, h.count] at hheld ⊢
  rw [← hheld, List.drop_left, List.take_length_add_append]

/-- No end of the stream lies before the point that a call has reached. -/
theorem FormatDecoderInvariant.proper_taken (q : List UInt8)
    (hq : q <+: i.consumed ++
      input.take (formatDecoderStream fmt push i.state () input room).consumed)
    (hne : q ≠ i.consumed ++
      input.take (formatDecoderStream fmt push i.state () input room).consumed) :
    fmt.status q = .incomplete := by
  -- Either `q` ends before this call, or it ends in the part that the call takes.
  by_cases hlength : q.length < i.consumed.length
  · have hconsumed : q <+: i.consumed :=
      List.prefix_of_prefix_length_le hq (List.prefix_append _ _) (Nat.le_of_lt hlength)
    refine h.proper q hconsumed fun heq => ?_
    rw [heq] at hlength
    omega
  · obtain ⟨rest, rfl⟩ : i.consumed <+: q :=
      List.prefix_of_prefix_length_le (List.prefix_append _ _) hq (by omega)
    have hrest := (List.prefix_append_right_inj _).mp hq
    have hshort : rest.length < untilEnd fmt i.consumed input := by
      have hle := hrest.length_le
      have hk := untilEnd_le fmt i.consumed input
      simp only [formatDecoderStream, h.taken] at hrest hne hle
      rw [List.length_take] at hle
      by_contra hnot
      refine hne (congrArg (i.consumed ++ ·) (hrest.eq_of_length ?_))
      rw [List.length_take]
      omega
    have htake : rest = input.take rest.length :=
      List.prefix_iff_eq_take.mp (hrest.trans (List.take_prefix _ _))
    rw [htake]
    exact untilEnd_open hshort

/-- The results, in terms of the point that a call has reached. -/
theorem FormatDecoderInvariant.result_eq :
    (formatDecoderStream fmt push i.state () input room).result =
      match fmt.status (i.consumed ++
          input.take (formatDecoderStream fmt push i.state () input room).consumed) with
      | .incomplete => .needsMoreInput
      | .corrupt => .error
      | .complete =>
          if i.emitted.length +
              (formatDecoderStream fmt push i.state () input room).output.length =
            (fmt.decodable (i.consumed ++ input.take
              (formatDecoderStream fmt push i.state () input room).consumed)).length then
            .success
          else
            .needsMoreOutput := by
  simp only [formatDecoderStream, h.taken, h.count]

/-- All that can be told was emitted, or all of the room that may be used was. -/
theorem FormatDecoderInvariant.output_full :
    (formatDecoderStream fmt push i.state () input room).output.length =
        usedRoom fmt push (i.consumed ++
          input.take (formatDecoderStream fmt push i.state () input room).consumed) room ∨
      i.emitted ++ (formatDecoderStream fmt push i.state () input room).output =
        fmt.decodable (i.consumed ++
          input.take (formatDecoderStream fmt push i.state () input room).consumed) := by
  have houtput := h.output_eq push input room
  have hlength := congrArg List.length houtput
  rw [List.length_append, List.length_take] at hlength
  by_cases hfits : (fmt.decodable (i.consumed ++ input.take
      (formatDecoderStream fmt push i.state () input room).consumed)).length ≤ i.emitted.length +
        usedRoom fmt push (i.consumed ++
          input.take (formatDecoderStream fmt push i.state () input room).consumed) room
  · right
    rwa [List.take_of_length_le hfits] at houtput
  · left
    omega

/-- More input is asked for when all of it was taken and there was no end. -/
theorem FormatDecoderInvariant.needsInput
    (hresult : (formatDecoderStream fmt push i.state () input room).result = .needsMoreInput) :
    (formatDecoderStream fmt push i.state () input room).consumed = input.length ∧
      fmt.Open (i.consumed ++ input) := by
  have hstatus : fmt.status (i.consumed ++ input.take
      (formatDecoderStream fmt push i.state () input room).consumed) = .incomplete := by
    have hr := (h.result_eq push input room).symm.trans hresult
    split at hr
    · assumption
    · cases hr
    · split at hr <;> cases hr
  have hall : (formatDecoderStream fmt push i.state () input room).consumed = input.length := by
    simp only [formatDecoderStream, h.taken] at hstatus ⊢
    exact untilEnd_all hstatus
  have hproper := h.proper_taken push input room
  rw [hall, List.take_length] at hstatus hproper
  exact ⟨hall, hstatus, hproper⟩

theorem FormatDecoderInvariant.call :
    FormatDecoderInvariant fmt ((formatDecoder fmt push).call i () input room) := by
  have houtput := h.output_eq push input room
  refine ⟨?_, ?_, ?_, ?_⟩
  · rw [Codec.call_consumed]
    exact h.taken_eq push input room
  · rw [Codec.call_emitted, List.length_append, ← h.count]
    rfl
  · rw [Codec.call_emitted, Codec.call_consumed]
    show i.emitted ++ (formatDecoderStream fmt push i.state () input room).output <+: _
    rw [houtput]
    exact List.take_prefix _ _
  · rw [Codec.call_consumed]
    exact h.proper_taken push input room

end Step

theorem FormatDecoderInvariant.of_feeding {push : Nat → Nat}
    {i : DecoderInstance (List UInt8 × Nat)}
    (h : (formatDecoder fmt push).Feeding ([], 0) i) : FormatDecoderInvariant fmt i := by
  induction h with
  | start handle =>
      exact ⟨rfl, rfl, List.nil_prefix, fun q hq hne => absurd (List.prefix_nil.mp hq) hne⟩
  | call input room _ _ ih => exact ih.call push input room

theorem formatDecoder_follows (fmt : Format UInt8) (push : Nat → Nat) :
    (formatDecoder fmt push).Follows fmt (formatDecoder fmt push).create := by
  refine { emits := ?_, needsInput := ?_, needsOutput := ?_, success := ?_, error := ?_ }
  · intro i input room hi _
    have h := FormatDecoderInvariant.of_feeding hi
    show i.emitted ++ (formatDecoderStream fmt push i.state () input room).output <+: _
    rw [h.output_eq]
    exact List.take_prefix _ _
  · intro i input room hi hresult
    have h := FormatDecoderInvariant.of_feeding hi
    exact h.needsInput push input room hresult
  · intro i input room hi hresult
    have h := FormatDecoderInvariant.of_feeding hi
    have hr := (h.result_eq push input room).symm.trans hresult
    split at hr
    · cases hr
    · cases hr
    · rename_i hstatus
      split at hr
      · cases hr
      · rename_i hheld
        -- The stream has ended and something is held back, so all of the room was used.
        have hmore : i.emitted ++ (formatDecoderStream fmt push i.state () input room).output ≠
            fmt.decodable (i.consumed ++ input.take
              (formatDecoderStream fmt push i.state () input room).consumed) := by
          intro heq
          have := congrArg List.length heq
          rw [List.length_append] at this
          exact hheld this
        have hfull := (h.output_full push input room).resolve_right hmore
        rw [usedRoom, hstatus] at hfull
        exact ⟨hfull, hmore, Or.inr ⟨hstatus, h.proper_taken push input room⟩⟩
  · intro i input room hi hresult
    have h := FormatDecoderInvariant.of_feeding hi
    have hr := (h.result_eq push input room).symm.trans hresult
    split at hr
    · cases hr
    · cases hr
    · rename_i hstatus
      split at hr
      · rename_i hlength
        refine ⟨⟨hstatus, h.proper_taken push input room⟩, ?_⟩
        have hpre : i.emitted ++ (formatDecoderStream fmt push i.state () input room).output <+:
            fmt.decodable (i.consumed ++ input.take
              (formatDecoderStream fmt push i.state () input room).consumed) := by
          rw [h.output_eq]
          exact List.take_prefix _ _
        exact (hpre.eq_of_length (by rw [List.length_append]; exact hlength)).symm
      · cases hr
  · intro i input room hi hresult
    have h := FormatDecoderInvariant.of_feeding hi
    have hr := (h.result_eq push input room).symm.trans hresult
    split at hr
    · cases hr
    · rename_i hstatus
      exact ⟨_, (formatDecoder fmt push).consumed_le _ () _ _,
        hstatus, h.proper_taken push input room⟩
    · split at hr <;> cases hr

/-- The decoder that uses all of its room, and what it answers when asked whether
    it holds anything back. -/
theorem formatDecoder_pushes (fmt : Format UInt8) :
    (formatDecoder fmt id).Pushes fmt (formatDecoder fmt id).create := by
  refine { toFollows := formatDecoder_follows fmt id, pushes := ?_, holds := ?_ }
  · intro i input room hi hresult
    have h := FormatDecoderInvariant.of_feeding hi
    rcases h.output_full id input room with hfull | hall
    · left
      refine hfull.trans ?_
      unfold usedRoom
      split
      · exact Nat.min_self room
      · rfl
    · right
      rw [(h.needsInput id input room hresult).1, List.take_length] at hall
      exact hall
  · intro i hi
    have h := FormatDecoderInvariant.of_feeding hi
    have hle := h.emitted.length_le
    show decide (i.state.2 < (fmt.decodable i.state.1).length) = true ↔ _
    rw [h.taken, h.count, decide_eq_true_eq]
    constructor
    · intro hlt heq
      rw [heq] at hlt
      omega
    · intro hne
      by_contra hnot
      exact hne (h.emitted.eq_of_length (by omega))

end RubyBrs
