/-
  RubyBrs.Ext.StringRefine

  What the loops of `string.c` do to the data, and the rules for them.

  As in `io.c`, a library call is `Pipe.feed` once the buffers are forgotten.
  The source string is in memory as a whole, and at the head of the loop there
  are always `destination_buffer_length` bytes to write to: the string is grown
  by that much whenever it goes round again.
-/

import RubyBrs.Ext.String

namespace RubyBrs
namespace Str

open StreamCodec WhileTrue Window

variable {κ σ ω ρ : Type} {d : Nat}

/-- The cursors lie inside the two strings, and at most `d` bytes are left to
    write to. -/
structure WellFormed (d : Nat) (s : Str κ) : Prop where
  source_fits : s.remainingSource + s.remainingSourceLength = s.source.length
  destination_fits :
    s.destinationLength + s.remainingDestinationBufferLength = s.destinationValue.length
  remaining_le : s.remainingDestinationBufferLength ≤ d

/-- The pipe that the variables implement. -/
def view (s : Str (Coder UInt8 σ ω ρ)) : Pipe UInt8 σ ω ρ :=
  { coder := s.coder
    pending := s.sourceWindow
    delivered := s.destinationValue.take s.destinationLength }

theorem WellFormed.sourceWindow_length {s : Str κ} (hs : s.WellFormed d) :
    s.sourceWindow.length = s.remainingSourceLength :=
  window_length (le_of_eq hs.source_fits)

/-! ## Library calls -/

section Streamed

variable (codec : Codec UInt8 σ ω ρ) (operation : ω)

/-- The answer to a call on the remaining source and destination. -/
def streamAnswer (s : Str (Coder UInt8 σ ω ρ)) : Answer UInt8 σ ρ :=
  codec.stream s.coder.state operation s.sourceWindow s.remainingDestinationBufferLength

/-- The variables after such a call, with the destination length updated. -/
def streamed (s : Str (Coder UInt8 σ ω ρ)) : Str (Coder UInt8 σ ω ρ) :=
  let answer := streamAnswer codec operation s
  { s with
    coder := codec.call s.coder operation s.sourceWindow s.remainingDestinationBufferLength
    remainingSource := s.remainingSource + answer.consumed
    remainingSourceLength := s.remainingSourceLength - answer.consumed
    destinationValue := overwrite s.destinationValue s.destinationLength answer.output
    destinationLength := s.destinationLength + answer.output.length
    remainingDestinationBufferLength :=
      s.remainingDestinationBufferLength - answer.output.length }

theorem streamAnswer_consumed_le {s : Str (Coder UInt8 σ ω ρ)} (hs : s.WellFormed d) :
    (streamAnswer codec operation s).consumed ≤ s.remainingSourceLength := by
  rw [← hs.sourceWindow_length]
  exact codec.consumed_le _ _ _ _

theorem streamAnswer_output_le (s : Str (Coder UInt8 σ ω ρ)) :
    (streamAnswer codec operation s).output.length ≤ s.remainingDestinationBufferLength :=
  codec.output_le _ _ _ _

theorem streamed_wellFormed {s : Str (Coder UInt8 σ ω ρ)} (hs : s.WellFormed d) :
    (streamed codec operation s).WellFormed d := by
  have hk := streamAnswer_consumed_le codec operation hs
  have ho := streamAnswer_output_le codec operation s
  have hsource := hs.source_fits
  have hdestination := hs.destination_fits
  have hremaining := hs.remaining_le
  refine ⟨?_, ?_, ?_⟩
  · simp only [streamed]
    omega
  · simp only [streamed]
    rw [overwrite_length (by omega)]
    omega
  · simp only [streamed]
    omega

/-- The new source window is what the call left of the old one. -/
theorem streamed_sourceWindow (s : Str (Coder UInt8 σ ω ρ)) :
    (streamed codec operation s).sourceWindow =
      s.sourceWindow.drop (streamAnswer codec operation s).consumed := by
  simp only [streamed, sourceWindow, window_drop]

/-- A library call is one feed of the pipe. -/
theorem view_streamed {s : Str (Coder UInt8 σ ω ρ)} (hs : s.WellFormed d) :
    (streamed codec operation s).view =
      s.view.feed codec operation s.sourceWindow.length
        s.remainingDestinationBufferLength := by
  have hpending := streamed_sourceWindow codec operation s
  have hfilled : (streamed codec operation s).destinationValue.take
        (streamed codec operation s).destinationLength =
      s.destinationValue.take s.destinationLength ++
        (streamAnswer codec operation s).output := by
    apply take_overwrite
    have := hs.destination_fits
    omega
  simp only [view, Pipe.feed, List.take_length, hpending, hfilled]
  rfl

end Streamed

/-! ## Resizing the destination -/

/-- The results on which a failed allocation leaves `compress` and `decompress`. -/
inductive OutOfMemory : Except RubyError ExtResult → Prop
  /-- The string could not be resized, and the result code says so. -/
  | returned : OutOfMemory (.ok .allocateFailed)
  /-- The string could not be resized, and `decompress` raises. -/
  | raised : OutOfMemory (.error (brsExtRaiseError .allocateFailed))
  /-- The array of the arguments could not be allocated. -/
  | array : OutOfMemory (.error .noMemoryError)

theorem OutOfMemory.ne_ok {r : Except RubyError ExtResult} (h : OutOfMemory r) :
    r ≠ .ok .ok := by
  rintro rfl
  cases h

/-- The three ways in which the destination is increased: it is not, it cannot
    be, or it keeps what was written and has room for `d` bytes more. -/
theorem increaseDestinationBuffer_cases {s : Str κ} (hs : s.WellFormed d) :
    (s.remainingDestinationBufferLength = d ∧
      s.increaseDestinationBuffer d = (.ok .notEnoughDestinationBuffer, s)) ∨
    (s.remainingDestinationBufferLength ≠ d ∧ ¬ s.memory.Faultless ∧
      ∃ r memory, OutOfMemory r ∧
        s.increaseDestinationBuffer d = (r, { s with memory })) ∨
    (s.remainingDestinationBufferLength ≠ d ∧
      ∃ memory value, s.increaseDestinationBuffer d =
          (.ok .ok, { s with
            memory, destinationValue := value, remainingDestinationBufferLength := d }) ∧
        value.length = s.destinationLength + d ∧
        value.take s.destinationLength = s.destinationValue.take s.destinationLength ∧
        (s.memory.Faultless → memory.Faultless)) := by
  by_cases hd : s.remainingDestinationBufferLength = d
  -- The whole of the last increase is unused.
  · left
    exact ⟨hd, by rw [increaseDestinationBuffer, if_pos hd]⟩
  · right
    have hfits := hs.destination_fits
    rcases resizeStringBuffer_cases s.memory s.destinationValue
        (s.destinationLength + d) with
      ⟨hfault, hresize⟩ | ⟨hfault, hresize⟩ | ⟨value, hresize, hlength, hkeeps⟩
    · left
      exact ⟨hd, hfault, _, _, .array, by rw [increaseDestinationBuffer, if_neg hd, hresize]⟩
    · left
      exact ⟨hd, hfault, _, _, .returned, by rw [increaseDestinationBuffer, if_neg hd, hresize]⟩
    · right
      exact ⟨hd, _, value, by rw [increaseDestinationBuffer, if_neg hd, hresize], hlength,
        hkeeps _ (by omega) (by omega), fun hm => hm.step.step⟩

/-- The destination is cut to what was written, or it cannot be. -/
theorem cutDestination_cases {s : Str κ} (hs : s.WellFormed d)
    {failed : Except RubyError ExtResult} (hfailed : OutOfMemory failed) :
    (¬ s.memory.Faultless ∧ ∃ r memory, OutOfMemory r ∧
      s.cutDestination failed = (r, { s with memory })) ∨
    ∃ memory, s.cutDestination failed = (.ok .ok, { s with
      memory, destinationValue := s.destinationValue.take s.destinationLength }) := by
  have hfits := hs.destination_fits
  rcases resizeStringBuffer_cases s.memory s.destinationValue s.destinationLength with
    ⟨hfault, hresize⟩ | ⟨hfault, hresize⟩ | ⟨value, hresize, hlength, hkeeps⟩
  · exact Or.inl ⟨hfault, _, _, .array, by rw [cutDestination, hresize]⟩
  · exact Or.inl ⟨hfault, _, _, hfailed, by rw [cutDestination, hresize]⟩
  -- A shorter string keeps its first bytes, and that is all there is.
  · right
    have hvalue : value = s.destinationValue.take s.destinationLength := by
      rw [← hkeeps _ (le_refl _) (by omega), ← hlength, List.take_length]
    exact ⟨_, by rw [cutDestination, hresize, hvalue]⟩

/-! ## The loop around a library call -/

/-- The variables between any two steps, given the source and the memory at the
    start. -/
structure Kept (d : Nat) (source : List UInt8) (memory : Memory)
    (s : Str (Coder UInt8 σ ω ρ)) : Prop where
  wellFormed : s.WellFormed d
  balanced : s.view.Balanced source []
  memory_faultless : memory.Faultless → s.memory.Faultless

/-- The variables at the head of the loop. -/
structure AtHead (d : Nat) (source : List UInt8) (memory : Memory)
    (s : Str (Coder UInt8 σ ω ρ)) : Prop extends Kept d source memory s where
  room : s.remainingDestinationBufferLength = d

section Kept

variable {source destinationValue : List UInt8} {memory : Memory}
  {s : Str (Coder UInt8 σ ω ρ)}

theorem AtHead.enter (coder : Coder UInt8 σ ω ρ) (hnew : coder.calls = [])
    (hd : destinationValue.length = d) :
    AtHead d source memory (enter coder memory source destinationValue d) where
  wellFormed := ⟨Nat.zero_add _, (Nat.zero_add d).trans hd.symm, le_refl d⟩
  balanced := by
    simp [Pipe.Balanced, view, Str.enter, sourceWindow, window, Coder.consumed, Coder.emitted,
      hnew]
  memory_faultless := id
  room := rfl

theorem Kept.streamed {codec : Codec UInt8 σ ω ρ} {operation : ω} (h : Kept d source memory s) :
    Kept d source memory (streamed codec operation s) where
  wellFormed := streamed_wellFormed codec operation h.wellFormed
  balanced := by
    rw [view_streamed codec operation h.wellFormed]
    exact Pipe.feed_balanced _ _ _ _ h.balanced
  memory_faultless := h.memory_faultless

/-- Growing the destination keeps what was written. -/
theorem Kept.increased {memory' : Memory} {value : List UInt8} (h : Kept d source memory s)
    (hlength : value.length = s.destinationLength + d)
    (hkeeps : value.take s.destinationLength = s.destinationValue.take s.destinationLength)
    (hfaultless : s.memory.Faultless → memory'.Faultless) :
    AtHead d source memory { s with
      memory := memory', destinationValue := value, remainingDestinationBufferLength := d } where
  wellFormed := ⟨h.wellFormed.source_fits, hlength.symm, le_refl d⟩
  balanced := ⟨h.balanced.1, hkeeps.trans h.balanced.2⟩
  memory_faultless hm := hfaultless (h.memory_faultless hm)
  room := rfl

theorem Kept.written (h : Kept d source memory s) :
    s.destinationValue.take s.destinationLength = s.coder.emitted := by
  have := h.balanced.2
  rwa [List.nil_append] at this

theorem Kept.consumed_prefix (h : Kept d source memory s) : s.coder.consumed <+: source :=
  h.balanced.consumed_prefix

/-- All of the remaining source is the rest of the source. -/
theorem Kept.offered (h : Kept d source memory s) :
    s.coder.consumed ++ s.sourceWindow = source := h.balanced.1

end Kept

section StreamLoop

variable {codec : Codec UInt8 σ ω ρ} {operation : ω}
  {failure : Coder UInt8 σ ω ρ → ρ → Option ExtResult}
  {again : Coder UInt8 σ ω ρ → ρ → Bool} {gvl : Bool} {source : List UInt8} {memory : Memory}

/-- The loop body in terms of the call and the growth of the destination. -/
theorem streamBody_eq (s : Str (Coder UInt8 σ ω ρ)) :
    streamBody (streamWrapper codec operation) failure again gvl d s =
      match failure (streamed codec operation s).coder
          (streamAnswer codec operation s).result with
      | some extResult => some (.exit (.ok extResult,
          { streamed codec operation s with destinationLength := s.destinationLength }))
      | none =>
          if again (streamed codec operation s).coder
              (streamAnswer codec operation s).result then
            some (roundAgain ((streamed codec operation s).increaseDestinationBuffer d))
          else
            some (.exit (.ok .ok, streamed codec operation s)) := by
  have hout := streamAnswer_output_le codec operation s
  have hlen : s.remainingDestinationBufferLength - (s.remainingDestinationBufferLength -
      (streamAnswer codec operation s).output.length) =
      (streamAnswer codec operation s).output.length := by omega
  simp only [streamBody, gvlWrap_eq, streamWrapper]
  simp only [streamed, streamAnswer] at hlen ⊢
  simp only [hlen]
  rfl

/-- The four ways out of the loop, by a last call made with the variables `v`. -/
inductive LoopOutcome (codec : Codec UInt8 σ ω ρ) (operation : ω)
    (failure : Coder UInt8 σ ω ρ → ρ → Option ExtResult)
    (again : Coder UInt8 σ ω ρ → ρ → Bool) (memory : Memory) (v : Str (Coder UInt8 σ ω ρ)) :
    Except RubyError ExtResult × Str (Coder UInt8 σ ω ρ) → Prop
  | finished
      (hnone : failure (streamed codec operation v).coder
        (streamAnswer codec operation v).result = none)
      (hdone : again (streamed codec operation v).coder
        (streamAnswer codec operation v).result = false) :
      LoopOutcome codec operation failure again memory v (.ok .ok, streamed codec operation v)
  | failed {extResult : ExtResult}
      (hfail : failure (streamed codec operation v).coder
        (streamAnswer codec operation v).result = some extResult) :
      LoopOutcome codec operation failure again memory v
        (.ok extResult,
          { streamed codec operation v with destinationLength := v.destinationLength })
  | stalled
      (hagain : again (streamed codec operation v).coder
        (streamAnswer codec operation v).result = true)
      (houtput : (streamAnswer codec operation v).output = []) :
      LoopOutcome codec operation failure again memory v
        (.ok .notEnoughDestinationBuffer, streamed codec operation v)
  | outOfMemory {r : Except RubyError ExtResult} {memory' : Memory} (hr : OutOfMemory r)
      (hfault : ¬ memory.Faultless) :
      LoopOutcome codec operation failure again memory v
        (r, { streamed codec operation v with memory := memory' })

/-- What one round does from the head of the loop: it leaves in one of the four
    ways, or emits something and comes back to the head. -/
inductive Round (codec : Codec UInt8 σ ω ρ) (operation : ω)
    (failure : Coder UInt8 σ ω ρ → ρ → Option ExtResult)
    (again : Coder UInt8 σ ω ρ → ρ → Bool) (d : Nat) (source : List UInt8) (memory : Memory)
    (v : Str (Coder UInt8 σ ω ρ)) :
    Flow (Str (Coder UInt8 σ ω ρ)) (Except RubyError ExtResult × Str (Coder UInt8 σ ω ρ)) → Prop
  | left {x : Except RubyError ExtResult × Str (Coder UInt8 σ ω ρ)}
      (houtcome : LoopOutcome codec operation failure again memory v x) :
      Round codec operation failure again d source memory v (.exit x)
  | increased {v' : Str (Coder UInt8 σ ω ρ)} (hhead : AtHead d source memory v')
      (hcoder : v'.coder = (streamed codec operation v).coder)
      (hwindow : v'.sourceWindow = (streamed codec operation v).sourceWindow)
      (hemits : (streamAnswer codec operation v).output ≠ [])
      (hnone : failure (streamed codec operation v).coder
        (streamAnswer codec operation v).result = none)
      (hagain : again (streamed codec operation v).coder
        (streamAnswer codec operation v).result = true) :
      Round codec operation failure again d source memory v (.next v')

theorem streamBody_round {s : Str (Coder UInt8 σ ω ρ)} (h : AtHead d source memory s) :
    ∃ flow, streamBody (streamWrapper codec operation) failure again gvl d s = some flow ∧
      Round codec operation failure again d source memory s flow := by
  have hstreamed : Kept d source memory (streamed codec operation s) := h.toKept.streamed
  -- All of the room is left exactly when nothing was emitted.
  have hremaining : (streamed codec operation s).remainingDestinationBufferLength = d ↔
      (streamAnswer codec operation s).output = [] := by
    have hle := streamAnswer_output_le codec operation s
    rw [h.room] at hle
    have heq : (streamed codec operation s).remainingDestinationBufferLength =
        d - (streamAnswer codec operation s).output.length := by
      rw [← h.room]; rfl
    rw [heq, ← List.length_eq_zero_iff]
    omega
  rw [streamBody_eq]
  cases hfailure : failure (streamed codec operation s).coder
      (streamAnswer codec operation s).result with
  -- Only the last of the four exits ends the loop well.
  | some extResult => exact ⟨_, rfl, .left (.failed hfailure)⟩
  | none =>
      by_cases hagain : again (streamed codec operation s).coder
          (streamAnswer codec operation s).result = true
      · simp only [if_pos hagain]
        rcases increaseDestinationBuffer_cases hstreamed.wellFormed with
          ⟨hfull, heq⟩ | ⟨_, hfault, r, memory', hr, heq⟩ |
          ⟨hroom, memory', value, heq, hlength, hkeeps, hfaultless⟩
        · rw [heq, roundAgain_of_ne (by simp)]
          exact ⟨_, rfl, .left (.stalled hagain (hremaining.mp hfull))⟩
        · rw [heq, roundAgain_of_ne hr.ne_ok]
          exact ⟨_, rfl, .left (.outOfMemory hr fun hm => hfault (h.memory_faultless hm))⟩
        · rw [heq, roundAgain_ok]
          exact ⟨_, rfl, .increased (hstreamed.increased hlength hkeeps hfaultless) rfl rfl
            (fun hnil => hroom (hremaining.mpr hnil)) hfailure hagain⟩
      · simp only [if_neg hagain]
        exact ⟨_, rfl, .left (.finished hfailure (by simpa using hagain))⟩

theorem Round.of_body {s : Str (Coder UInt8 σ ω ρ)} (hs : AtHead d source memory s)
    {flow : Flow (Str (Coder UInt8 σ ω ρ))
      (Except RubyError ExtResult × Str (Coder UInt8 σ ω ρ))}
    (h : streamBody (streamWrapper codec operation) failure again gvl d s = some flow) :
    Round codec operation failure again d source memory s flow := by
  obtain ⟨flow', heq, hround⟩ := streamBody_round hs
  obtain rfl := Option.some.inj (heq.symm.trans h)
  exact hround

/-- The loop ends in one of the four ways; `K` is any property of the codec and
    of the source that is left which the rounds before the last keep. -/
theorem streamLoop_outcome {K : Coder UInt8 σ ω ρ → List UInt8 → Prop}
    (hK : ∀ s : Str (Coder UInt8 σ ω ρ), AtHead d source memory s → K s.coder s.sourceWindow →
      failure (streamed codec operation s).coder
        (streamAnswer codec operation s).result = none →
      again (streamed codec operation s).coder (streamAnswer codec operation s).result = true →
      K (streamed codec operation s).coder (streamed codec operation s).sourceWindow)
    {fuel : Nat} {s : Str (Coder UInt8 σ ω ρ)}
    {x : Except RubyError ExtResult × Str (Coder UInt8 σ ω ρ)}
    (hs : AtHead d source memory s) (hKs : K s.coder s.sourceWindow)
    (h : whileTrue (streamBody (streamWrapper codec operation) failure again gvl d) fuel s =
      some x) :
    ∃ v, AtHead d source memory v ∧ K v.coder v.sourceWindow ∧
      LoopOutcome codec operation failure again memory v x := by
  refine whileTrue_invariant
    (I := fun s => AtHead d source memory s ∧ K s.coder s.sourceWindow)
    (Q := fun x => ∃ v, AtHead d source memory v ∧ K v.coder v.sourceWindow ∧
      LoopOutcome codec operation failure again memory v x) ?_ ?_ ⟨hs, hKs⟩ h
  · rintro s s' ⟨hs, hKs⟩ hbody
    cases Round.of_body hs hbody with
    | increased hhead hcoder hwindow _ hnone hagain =>
        rw [hcoder, hwindow]
        exact ⟨hhead, hK s hs hKs hnone hagain⟩
  · rintro s x ⟨hs, hKs⟩ hbody
    cases Round.of_body hs hbody with
    | left houtcome => exact ⟨s, hs, hKs, houtcome⟩

theorem AtHead.reached {s v : Str (Coder UInt8 σ ω ρ)} (hs : AtHead d source memory s)
    (h : Reaches (streamBody (streamWrapper codec operation) failure again gvl d) s v) :
    AtHead d source memory v := by
  refine h.invariant (I := AtHead d source memory) ?_ hs
  intro v v' hv hbody
  cases Round.of_body hv hbody with
  | increased hhead => exact hhead

/-- The loop ends when the codec, as far as it is called, emits at most `bound`
    bytes. -/
theorem streamLoop_ends {bound : Nat} {s : Str (Coder UInt8 σ ω ρ)}
    (hs : AtHead d source memory s)
    (hbound : ∀ v,
      Reaches (streamBody (streamWrapper codec operation) failure again gvl d) s v →
      failure (streamed codec operation v).coder
        (streamAnswer codec operation v).result = none →
      again (streamed codec operation v).coder (streamAnswer codec operation v).result = true →
      (streamed codec operation v).coder.emitted.length ≤ bound)
    {fuel : Nat} (hfuel : bound < fuel) :
    ∃ x, whileTrue (streamBody (streamWrapper codec operation) failure again gvl d) fuel s =
      some x := by
  have hmeasure : bound - s.coder.emitted.length < fuel := by omega
  refine whileTrue_ends (fun v => bound - v.coder.emitted.length) ?_ hmeasure
  intro v hv
  -- A round that is not the last one emits something, which the bound limits.
  obtain ⟨flow, heq, hround⟩ := streamBody_round (hs.reached hv)
  cases hround with
  | @left x => exact Or.inr ⟨x, heq⟩
  | @increased v' _ hcoder _ hemits hnone hagain =>
      have hle := hbound v hv hnone hagain
      have hpos := List.length_pos_iff.mpr hemits
      have hemitted : (streamed codec operation v).coder.emitted.length =
          v.coder.emitted.length + (streamAnswer codec operation v).output.length := by
        simp [streamed, streamAnswer]
      refine Or.inl ⟨v', heq, ?_⟩
      show bound - v'.coder.emitted.length < bound - v.coder.emitted.length
      rw [hcoder]
      omega

/-- The loop returns when the codec, as long as it is called again, has emitted
    at most `bound` bytes. -/
theorem streamLoop_returns {K : Coder UInt8 σ ω ρ → List UInt8 → Prop}
    {bound : Nat}
    (hK : ∀ s : Str (Coder UInt8 σ ω ρ), AtHead d source memory s → K s.coder s.sourceWindow →
      failure (streamed codec operation s).coder
        (streamAnswer codec operation s).result = none →
      again (streamed codec operation s).coder (streamAnswer codec operation s).result = true →
      K (streamed codec operation s).coder (streamed codec operation s).sourceWindow ∧
        (streamed codec operation s).coder.emitted.length ≤ bound)
    {fuel : Nat} {s : Str (Coder UInt8 σ ω ρ)} (hs : AtHead d source memory s)
    (hKs : K s.coder s.sourceWindow) (hfuel : bound < fuel) :
    ∃ x, whileTrue (streamBody (streamWrapper codec operation) failure again gvl d) fuel s =
      some x := by
  have hreached : ∀ v,
      Reaches (streamBody (streamWrapper codec operation) failure again gvl d) s v →
      AtHead d source memory v ∧ K v.coder v.sourceWindow := by
    intro v hv
    refine hv.invariant (I := fun v => AtHead d source memory v ∧ K v.coder v.sourceWindow) ?_
      ⟨hs, hKs⟩
    rintro v v' ⟨hv, hKv⟩ hbody
    cases Round.of_body hv hbody with
    | increased hhead hcoder hwindow _ hnone hagain =>
        rw [hcoder, hwindow]
        exact ⟨hhead, (hK v hv hKv hnone hagain).1⟩
  refine streamLoop_ends hs (fun v hv hn ha => ?_) hfuel
  exact (hK v (hreached v hv).1 (hreached v hv).2 hn ha).2

end StreamLoop

end Str
end RubyBrs
