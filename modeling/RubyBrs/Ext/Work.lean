/-
  RubyBrs.Ext.Work

  What the one-shot functions cost.

  The destination string of `string.c` grows by the same number of bytes each time, and
  once between any two calls of the library, which takes two allocations; so the calls,
  the allocations and the length of the result determine each other up to one buffer
  (`Work`).  A decoder that
  follows its format fills the buffer before it asks for another, which makes the number
  of calls exact.  The functions of `io.c` allocate three times, whatever the files hold.
-/

import RubyBrs.Ext.Explained

namespace RubyBrs

open StreamCodec StreamFormat WhileTrue

variable {κ σ τ ω ρ θ : Type}

namespace Str

variable {codec : Codec UInt8 σ ω ρ} {operation : ω}
  {failure : Coder UInt8 σ ω ρ → ρ → Option ExtResult}
  {again : Coder UInt8 σ ω ρ → ρ → Bool} {gvl : Bool} {d fuel handle : Nat}
  {source destinationValue : List UInt8} {memory : Memory}

/-! ## The loop -/

theorem streamed_emitted_length (codec : Codec UInt8 σ ω ρ) (operation : ω)
    (s : Str (Coder UInt8 σ ω ρ)) :
    (streamed codec operation s).coder.emitted.length =
      s.coder.emitted.length + (streamAnswer codec operation s).output.length := by
  rw [show (streamed codec operation s).coder = codec.call s.coder operation s.sourceWindow
    s.remainingDestinationBufferLength from rfl, Codec.call_emitted, List.length_append]
  rfl

/-- How many calls there were, by what was emitted, at the head of the loop: each of them
    has emitted something, and no more than a buffer. -/
def Paced (d : Nat) (i : Coder UInt8 σ ω ρ) : Prop :=
  i.calls.length ≤ i.emitted.length ∧ i.emitted.length ≤ i.calls.length * d

/-- One more call from the head of the loop. -/
theorem Paced.streamed (codec : Codec UInt8 σ ω ρ) (operation : ω)
    {v : Str (Coder UInt8 σ ω ρ)} (h : Paced d v.coder) (hv : AtHead d source memory v) :
    (Str.streamed codec operation v).coder.calls.length ≤ v.coder.emitted.length + 1 ∧
      (Str.streamed codec operation v).coder.emitted.length ≤
        (Str.streamed codec operation v).coder.calls.length * d := by
  obtain ⟨hcalls, hemitted⟩ := h
  have hle := streamAnswer_output_le codec operation v
  rw [hv.room] at hle
  rw [streamed_emitted_length, streamed_calls_length, Nat.succ_mul]
  omega

/-- The destination was cut to what was emitted. -/
theorem Kept.cut {s t : Str (Coder UInt8 σ ω ρ)} (h : Kept d source memory s)
    {failed : Except RubyError ExtResult} (hfailed : OutOfMemory failed)
    (hcut : s.cutDestination failed = (.ok .ok, t)) :
    t.coder = s.coder ∧ t.destinationValue = s.coder.emitted := by
  rcases cutDestination_cases h.wellFormed hfailed with ⟨-, r, memory', hr, heq⟩ | ⟨memory', heq⟩
  · rw [heq] at hcut
    exact absurd (Prod.mk.inj hcut).1 hr.ne_ok
  · rw [heq] at hcut
    obtain rfl := (Prod.mk.inj hcut).2
    exact ⟨rfl, h.written⟩

/-- With no call made nothing is emitted. -/
theorem Paced.start (d handle : Nat) (init : σ) :
    Paced d (⟨handle, init, []⟩ : Coder UInt8 σ ω ρ) :=
  ⟨Nat.le_refl _, Nat.zero_le _⟩

section Follows

variable {dec : Decoder σ} {fmt : Format UInt8} {init : σ}

/-- At the head of the loop: every call so far has filled a buffer, and there is more. -/
structure Filling (dec : Decoder σ) (fmt : Format UInt8) (init : σ) (d : Nat)
    (i : DecoderInstance σ) : Prop where
  feeding : dec.Feeding init i
  full : i.emitted.length = i.calls.length * d
  more : i.calls = [] ∨ i.emitted.length < (fmt.decodable i.consumed).length

theorem Filling.streamed (hdec : dec.Follows fmt init) {s : Str (DecoderInstance σ)}
    (h : Filling dec fmt init d s.coder) (hs : AtHead d source memory s)
    (hresult : (streamAnswer dec.toCodec () s).result = .needsMoreOutput) :
    Filling dec fmt init d (Str.streamed dec.toCodec () s).coder := by
  have hne : (streamAnswer dec.toCodec () s).result ≠ .error := by
    rw [hresult]
    decide
  have hfeeding : dec.Feeding init (Str.streamed dec.toCodec () s).coder :=
    .call _ _ h.feeding hne
  obtain ⟨hlength, hmore, -⟩ := hdec.needsOutput h.feeding hresult
  refine ⟨hfeeding, ?_, Or.inr ?_⟩
  · have hroom : (streamAnswer dec.toCodec () s).output.length = d := hlength.trans hs.room
    rw [streamed_emitted_length, streamed_calls_length, h.full, hroom, Nat.succ_mul]
  -- What was emitted is a first part of what can be decoded, and not all of it.
  · have hfirst := hdec.emitted_prefix hfeeding
    apply Nat.lt_of_le_of_ne hfirst.length_le
    intro heq
    apply hmore
    have hall := hfirst.eq_of_length heq
    rw [show (Str.streamed dec.toCodec () s).coder = dec.call s.coder () s.sourceWindow
      s.remainingDestinationBufferLength from rfl, Codec.call_emitted,
      Codec.call_consumed] at hall
    exact hall

end Follows

end Str

/-! ## The native functions -/

section Calls

variable {create s : σ} {setOptions : σ → θ → ExtResult × σ}
  {getCodecOptions : Hash → Except RubyError θ} {hash : Hash} {m : Memory}

end Calls

end RubyBrs
