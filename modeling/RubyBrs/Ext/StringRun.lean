/-
  RubyBrs.Ext.StringRun

  `compress` and `decompress` of `string.c` as a whole.

  `compress` is treated for an encoder that keeps its contract.  `decompress` is
  treated for any decoder at all, as its counterpart in `io.c` is: the ways in
  which it can end, each with the last answer of the decoder, and what follows
  for decoders that keep a contract.
-/

import RubyBrs.Ext.Reading
import RubyBrs.Ext.StringRefine

namespace RubyBrs
namespace Str

open StreamCodec StreamFormat WhileTrue

variable {σ : Type} {gvl : Bool} {d fuel : Nat} {source : List UInt8} {memory : Memory}

/-! ## compress -/

section Compress

variable {enc : Encoder σ} {fmt : Format UInt8} {init : σ}

/-- What holds of the encoder at the head of the loop: finishing is what it was
    last asked for, if anything. -/
def Finishing (enc : Encoder σ) (init : σ) (i : EncoderInstance σ) (input : List UInt8) : Prop :=
  enc.Session [.finish] init i ∧ enc.Allowed i .finish input

/-- As long as the stream is not finished, the encoder may be asked again, with
    the rest of the source. -/
theorem Finishing.again {s : Str (EncoderInstance σ)}
    (h : Finishing enc init s.coder s.sourceWindow)
    (hpending : enc.pending .finish (streamed enc.toCodec .finish s).coder.state = true) :
    Finishing enc init (streamed enc.toCodec .finish s).coder
      (streamed enc.toCodec .finish s).sourceWindow := by
  refine ⟨.call _ h.1 (List.mem_cons_self ..) h.2, ?_⟩
  have hallowed := Encoder.Allowed.of_pending
    (enc.call_getLast s.coder .finish s.sourceWindow s.remainingDestinationBufferLength) hpending
  rw [streamed_sourceWindow]
  exact hallowed

/-- Without allocation faults, `compress` leaves exactly what the encoder
    emitted in the destination, a complete stream of the source. -/
theorem compress_stream (henc : enc.Contract [.finish] fmt init) (gvl : Bool) {handle : Nat}
    {destinationValue : List UInt8} (hd : 0 < destinationValue.length)
    (hmemory : memory.Faultless) {bound : Nat}
    (hbound : ∀ i, enc.Session [.finish] init i → i.consumed <+: source →
      i.emitted.length ≤ bound) (hfuel : bound < fuel) :
    ∃ s', compress enc gvl destinationValue.length fuel ⟨handle, init, []⟩ memory source
        destinationValue = some (.ok .ok, s') ∧
      s'.destinationValue = s'.coder.emitted ∧ s'.coder.consumed = source ∧
      fmt.Decodes s'.coder.emitted source := by
  generalize hd' : destinationValue.length = d at hd
  have hstart : AtHead d source memory
      (enter (⟨handle, init, []⟩ : EncoderInstance σ) memory source destinationValue d) :=
    .enter _ rfl hd'
  have hfinishing : Finishing enc init (⟨handle, init, []⟩ : EncoderInstance σ)
      (enter (⟨handle, init, []⟩ : EncoderInstance σ) memory source destinationValue
        d).sourceWindow := ⟨.start handle, trivial⟩
  have hagain : ∀ i : EncoderInstance σ, (enc.hasMoreOutput i.state || !enc.isFinished i.state) =
      enc.pending .finish i.state := fun i => by simp [Encoder.pending]
  obtain ⟨⟨r, s⟩, hloop⟩ : ∃ x, whileTrue (compressBody enc gvl d) fuel
      (enter ⟨handle, init, []⟩ memory source destinationValue d) = some x := by
    refine streamLoop_returns (K := Finishing enc init) ?_ hstart hfinishing hfuel
    intro s hs hK _ hpending
    rw [hagain] at hpending
    have hnext := hK.again hpending
    exact ⟨hnext, hbound _ hnext.1 hs.toKept.streamed.consumed_prefix⟩
  obtain ⟨v, hv, hK, hout⟩ := streamLoop_outcome (K := Finishing enc init)
    (fun s _ hK _ hpending => hK.again (by rw [hagain] at hpending; exact hpending))
    hstart hfinishing hloop
  have hstreamed : Kept d source memory (streamed enc.toCodec .finish v) := hv.toKept.streamed
  have hmem : Operation.finish ∈ [Operation.finish] := List.mem_cons_self ..
  have hresult : (streamAnswer enc.toCodec .finish v).result = true :=
    henc.succeeds _ hK.1 hmem hK.2
  cases hout with
  -- The finish is complete: the stream is, and nothing of the source is left.
  | finished _ hdone =>
      rw [hagain] at hdone
      have hdecodes := henc.finishes (.call _ hK.1 hmem hK.2)
        (enc.call_getLast v.coder .finish v.sourceWindow v.remainingDestinationBufferLength)
        rfl hdone
      have hall : (streamAnswer enc.toCodec .finish v).consumed = v.sourceWindow.length :=
        henc.completes _ hK.1 hmem hK.2 hdone
      have hconsumed : (streamed enc.toCodec .finish v).coder.consumed = source := by
        refine hstreamed.balanced.consumed_eq ?_
        show (streamed enc.toCodec .finish v).sourceWindow = []
        rw [streamed_sourceWindow, hall, List.drop_length]
      rcases cutDestination_cases hstreamed.wellFormed .returned with
        ⟨hfault, _⟩ | ⟨memory', hcut⟩
      · exact absurd (hstreamed.memory_faultless hmemory) hfault
      · refine ⟨{ streamed enc.toCodec .finish v with
          memory := memory'
          destinationValue := (streamed enc.toCodec .finish v).destinationValue.take
            (streamed enc.toCodec .finish v).destinationLength }, ?_, hstreamed.written,
          hconsumed, hconsumed ▸ hdecodes⟩
        rw [compress, hloop, Option.map_some, afterLoop_ok, hcut]
  | failed hfail => rw [(encoderFailure_some hfail).1] at hresult; cases hresult
  | stalled hpending houtput =>
      rw [hagain] at hpending
      -- With room to write to, an unfinished encoder emits something.
      have hroom : 0 < v.remainingDestinationBufferLength := by rw [hv.room]; exact hd
      exact absurd houtput (henc.progresses hK.1 hmem hK.2 hroom hpending)
  | outOfMemory _ hfault => exact absurd hmemory hfault

end Compress

/-! ## decompress -/

section Decompress

variable {dec : Decoder σ} {S : DecoderInstance σ → Prop}

/-- The ways in which `decompress` can end. -/
inductive DecompressOutcome (dec : Decoder σ) (S : DecoderInstance σ → Prop) (d : Nat)
    (source : List UInt8) (memory : Memory) :
    Except RubyError ExtResult × Str (DecoderInstance σ) → Prop
  /-- The destination is exactly what was emitted; what was left of the source
      is not looked at. -/
  | finished {s : Str (DecoderInstance σ)} {result : DecoderResult} {rest : List UInt8}
      (hresult : result.Settled) (answered : dec.Answered S source result rest s.coder)
      (taken : s.coder.consumed ++ rest = source) (value : s.destinationValue = s.coder.emitted) :
      DecompressOutcome dec S d source memory (.ok .ok, s)
  | failed {s : Str (DecoderInstance σ)} {rest : List UInt8}
      (answered : dec.Answered S source .error rest s.coder) :
      DecompressOutcome dec S d source memory
        (.ok (brsExtGetDecompressorError (dec.getErrorCode s.coder.state)), s)
  /-- The decoder asked for room when it had used none of what it had. -/
  | stalled {s : Str (DecoderInstance σ)} {i : DecoderInstance σ} {input : List UInt8}
      (hi : S i) (hin : i.consumed ++ input <+: source)
      (hresult : (dec.stream i.state () input d).result = .needsMoreOutput)
      (houtput : (dec.stream i.state () input d).output = []) :
      DecompressOutcome dec S d source memory (.ok .notEnoughDestinationBuffer, s)
  | outOfMemory {s : Str (DecoderInstance σ)} {r : Except RubyError ExtResult}
      (hr : OutOfMemory r) (hfault : ¬ memory.Faultless) :
      DecompressOutcome dec S d source memory (r, s)

/-- A string is left in one of these ways only, on one of two answers. -/
theorem DecompressOutcome.returned {x : Except RubyError ExtResult × Str (DecoderInstance σ)}
    (h : DecompressOutcome dec S d source memory x) (hok : x.1 = .ok .ok) :
    ∃ result rest, DecoderResult.Settled result ∧ dec.Answered S source result rest x.2.coder ∧
      x.2.coder.consumed ++ rest = source ∧ x.2.destinationValue = x.2.coder.emitted := by
  cases h with
  | finished hresult answered taken value => exact ⟨_, _, hresult, answered, taken, value⟩
  | failed _ => exact absurd (Except.ok.inj hok) (brsExtGetDecompressorError_ne _).1
  | stalled => cases hok
  | outOfMemory hr => exact absurd hok hr.ne_ok

/-- However `decompress` ends, it is in one of these ways. -/
theorem decompress_outcome
    (hS : ∀ {i input} (room : Nat), S i → i.consumed ++ input <+: source →
      (dec.stream i.state () input room).result ≠ .error → S (dec.call i () input room))
    {handle : Nat} {init : σ} (hinit : S ⟨handle, init, []⟩) {destinationValue : List UInt8}
    {x : Except RubyError ExtResult × Str (DecoderInstance σ)}
    (h : decompress dec gvl destinationValue.length fuel ⟨handle, init, []⟩ memory source
      destinationValue = some x) :
    DecompressOutcome dec S destinationValue.length source memory x := by
  generalize hd : destinationValue.length = d at h
  obtain ⟨⟨r, s⟩, hloop, hx⟩ := Option.map_eq_some_iff.mp h
  obtain ⟨v, hv, hSv, hout⟩ := streamLoop_outcome (K := fun i _ => S i)
    (fun s hs hSs hnone _ => hS _ hSs (hs.offered ▸ List.prefix_refl _)
      (decoderFailure_none.mp hnone)) (.enter _ rfl hd) hinit hloop
  have hin : v.coder.consumed ++ v.sourceWindow <+: source := hv.offered ▸ List.prefix_refl _
  have hanswered : dec.Answered S source (streamAnswer dec.toCodec () v).result
      (v.sourceWindow.drop (streamAnswer dec.toCodec () v).consumed)
      (streamed dec.toCodec () v).coder := .call _ hSv hin rfl rfl
  cases hout with
  | finished hnone hdone =>
      have hstreamed : Kept d source memory (streamed dec.toCodec () v) := hv.toKept.streamed
      have hsettled : (streamAnswer dec.toCodec () v).result.Settled := by
        have hne := decoderFailure_none.mp hnone
        unfold DecoderResult.Settled
        cases hr : (streamAnswer dec.toCodec () v).result <;> simp_all
      rw [afterLoop_ok] at hx
      rcases cutDestination_cases hstreamed.wellFormed .raised with
        ⟨hfault, r, memory', hr, hcut⟩ | ⟨memory', hcut⟩
      · rw [← hx, hcut]
        exact .outOfMemory hr fun hm => hfault (hstreamed.memory_faultless hm)
      · rw [← hx, hcut]
        refine .finished hsettled hanswered ?_ hstreamed.written
        rw [← streamed_sourceWindow]
        exact hstreamed.offered
  | failed hfail =>
      obtain ⟨hresult, rfl⟩ := decoderFailure_some hfail
      rw [hresult] at hanswered
      rw [afterLoop_of_ne _ fun heq => (brsExtGetDecompressorError_ne _).1
        (Except.ok.inj heq)] at hx
      rw [← hx]
      exact .failed (s := { streamed dec.toCodec () v with
        destinationLength := v.destinationLength }) hanswered
  | stalled hagain houtput =>
      rw [afterLoop_of_ne _ (by simp)] at hx
      rw [← hx]
      have hresult : (streamAnswer dec.toCodec () v).result = .needsMoreOutput := by
        simpa using hagain
      rw [streamAnswer, hv.room] at hresult houtput
      exact .stalled hSv hin hresult houtput
  | outOfMemory hr hfault =>
      rw [afterLoop_of_ne _ hr.ne_ok] at hx
      rw [← hx]
      exact .outOfMemory hr hfault

/-- `decompress` returns when the decoder emits at most `bound` bytes. -/
theorem decompress_returns_within {bound : Nat}
    (hS : ∀ {i input} (room : Nat), S i → i.consumed ++ input <+: source →
      (dec.stream i.state () input room).result ≠ .error → S (dec.call i () input room))
    (hbound : ∀ i input room, S i → i.consumed ++ input <+: source →
      (dec.stream i.state () input room).result ≠ .error →
      (dec.call i () input room).emitted.length ≤ bound)
    (hfuel : bound < fuel) (gvl : Bool) {handle : Nat} {init : σ} (hinit : S ⟨handle, init, []⟩)
    (memory : Memory) (destinationValue : List UInt8) :
    ∃ x, decompress dec gvl destinationValue.length fuel ⟨handle, init, []⟩ memory source
      destinationValue = some x := by
  obtain ⟨x, hx⟩ : ∃ x, whileTrue (decompressBody dec gvl destinationValue.length) fuel
      (enter ⟨handle, init, []⟩ memory source destinationValue destinationValue.length) =
        some x := by
    refine streamLoop_returns (K := fun i _ => S i) ?_ (.enter _ rfl rfl) hinit
      hfuel
    intro s hs hSs hnone _
    have hin : s.coder.consumed ++ s.sourceWindow <+: source :=
      hs.offered ▸ List.prefix_refl _
    have hne := decoderFailure_none.mp hnone
    exact ⟨hS _ hSs hin hne, hbound _ _ _ hSs hin hne⟩
  exact ⟨_, by rw [decompress, hx, Option.map_some]⟩

/-- `decompress` returns when the decoder emits finitely many bytes for the source. -/
theorem decompress_returns (hread : dec.Reading source S) (gvl : Bool) {handle : Nat} {init : σ}
    (hinit : S ⟨handle, init, []⟩) (memory : Memory) (destinationValue : List UInt8) :
    ∃ enough, ∀ fuel, enough ≤ fuel → ∃ x, decompress dec gvl destinationValue.length fuel
      ⟨handle, init, []⟩ memory source destinationValue = some x := by
  obtain ⟨bound, hbound⟩ := hread.finite
  exact ⟨bound + 1, fun fuel hfuel => decompress_returns_within hread.call hbound hfuel gvl
    hinit memory destinationValue⟩

/-- When the decoder asks for more input at the first call, that is the only call. -/
theorem decompress_once (gvl : Bool) {handle : Nat} {init : σ} {destinationValue : List UInt8}
    (hmemory : memory.Faultless)
    (hresult : (dec.stream init () source destinationValue.length).result = .needsMoreInput)
    (fuel : Nat) :
    ∃ s, decompress dec gvl destinationValue.length (fuel + 1) ⟨handle, init, []⟩ memory source
        destinationValue = some (.ok .ok, s) ∧
      s.destinationValue = (dec.stream init () source destinationValue.length).output := by
  generalize hd : destinationValue.length = d at hresult
  let s := enter (⟨handle, init, []⟩ : DecoderInstance σ) memory source destinationValue d
  have hs : AtHead d source memory s := .enter _ rfl hd
  have hwindow : s.sourceWindow = source := hs.offered
  have hstreamed : Kept d source memory (streamed dec.toCodec () s) := hs.toKept.streamed
  have hanswer : (streamAnswer dec.toCodec () s).result = .needsMoreInput := by
    rw [streamAnswer, hwindow]
    exact hresult
  -- The answer is not `needsMoreOutput`, so the loop is left after one round.
  have hexit : decompressBody dec gvl d s =
      some (.exit (.ok .ok, streamed dec.toCodec () s)) := by
    rw [decompressBody, show decompressWrapper dec = streamWrapper dec.toCodec () from rfl,
      streamBody_eq, hanswer, decoderFailure_none.mpr (by decide)]
    rfl
  rcases cutDestination_cases hstreamed.wellFormed .raised with
    ⟨hfault, _⟩ | ⟨memory', hcut⟩
  · exact absurd (hstreamed.memory_faultless hmemory) hfault
  · have hloop : whileTrue (decompressBody dec gvl d) (fuel + 1)
        (enter ⟨handle, init, []⟩ memory source destinationValue d) =
          some (.ok .ok, streamed dec.toCodec () s) := whileTrue_exit hexit fuel
    refine ⟨{ streamed dec.toCodec () s with
      memory := memory'
      destinationValue := (streamed dec.toCodec () s).destinationValue.take
        (streamed dec.toCodec () s).destinationLength }, ?_, ?_⟩
    · rw [decompress, hloop, Option.map_some, afterLoop_ok, hcut]
    · show (streamed dec.toCodec () s).destinationValue.take
        (streamed dec.toCodec () s).destinationLength = _
      rw [hstreamed.written]
      show (dec.call s.coder () s.sourceWindow s.remainingDestinationBufferLength).emitted = _
      rw [Codec.call_emitted, hwindow]
      exact List.nil_append _

/-- Without allocation faults, a complete stream is decompressed exactly, whatever
    the buffer length. -/
theorem decompress_stream {content : List UInt8} {handle : Nat} {init : σ}
    {destinationValue : List UInt8} {x : Except RubyError ExtResult × Str (DecoderInstance σ)}
    (hdec : dec.StreamContract source content init) (hmemory : memory.Faultless)
    (hd : 0 < destinationValue.length)
    (h : decompress dec gvl destinationValue.length fuel ⟨handle, init, []⟩ memory source
      destinationValue = some x) :
    x.1 = .ok .ok ∧ x.2.destinationValue = content := by
  have hreading := hdec.reading
  have houtcome := decompress_outcome hreading.call (.start handle) h
  cases houtcome with
  | finished hresult answered taken value =>
      rcases hresult with rfl | rfl
      · exact ⟨rfl, value.trans (hdec.success_answered answered).2⟩
      · rw [answered.needsInput hreading, List.append_nil] at taken
        exact absurd taken (hdec.needsInput_answered answered)
  | failed answered => exact absurd answered hdec.not_error
  | stalled hi hin hresult houtput =>
      exact absurd houtput (hreading.emits hd hi hin hresult)
  | outOfMemory _ hfault => exact absurd hmemory hfault

/-- What a decoder that follows a format makes of a string, without allocation
    faults. -/
theorem decompress_follows {fmt : Format UInt8} {handle : Nat} {init : σ}
    {destinationValue : List UInt8} {x : Except RubyError ExtResult × Str (DecoderInstance σ)}
    (hdec : dec.Follows fmt init) (hmemory : memory.Faultless)
    (hd : 0 < destinationValue.length)
    (h : decompress dec gvl destinationValue.length fuel ⟨handle, init, []⟩ memory source
      destinationValue = some x) :
    (x.1 = .ok .ok ∧ x.2.destinationValue = x.2.coder.emitted ∧
      ((∃ p, p <+: source ∧ fmt.Complete p ∧ x.2.coder.emitted = fmt.decodable p) ∨
        (fmt.Open source ∧ dec.Answered (dec.Feeding init) source .needsMoreInput [] x.2.coder ∧
          x.2.coder.consumed = source))) ∨
    (x.1 ≠ .ok .ok ∧ ∃ p, p <+: source ∧ fmt.Corrupt p) := by
  have hreading := hdec.reading source
  have houtcome := decompress_outcome hreading.call (.start handle) h
  cases houtcome with
  | finished hresult answered taken value =>
      refine Or.inl ⟨rfl, value, ?_⟩
      rcases hresult with rfl | rfl
      · have hdecodes := hdec.success_answered answered
        exact Or.inl ⟨_, answered.consumed_prefix, hdecodes.1, hdecodes.2.symm⟩
      · obtain rfl := answered.needsInput hreading
        rw [List.append_nil] at taken
        exact Or.inr ⟨taken ▸ hdec.needsInput_answered answered, answered, taken⟩
  | @failed s rest answered =>
      refine Or.inr ⟨fun heq => ?_, hdec.error_answered answered⟩
      exact (brsExtGetDecompressorError_ne _).1 (Except.ok.inj heq)
  | stalled hi hin hresult houtput =>
      exact absurd houtput (hreading.emits hd hi hin hresult)
  | outOfMemory _ hfault => exact absurd hmemory hfault

end Decompress

end Str
end RubyBrs
