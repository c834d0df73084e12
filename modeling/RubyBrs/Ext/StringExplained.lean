/-
  RubyBrs.Ext.StringExplained

  What the result of `compress` and of `decompress` of `string.c` tells.

  Between two calls of the library the loop resizes the destination, and once more after
  the last one; each time it allocates the array of the arguments and then the string.
  If one of these allocations fails, that is what is told; otherwise what is told has its
  cause in the library (`streamLoop_explained`).
-/

import RubyBrs.Ext.Allocations
import RubyBrs.Ext.Unfinished

namespace RubyBrs

open StreamCodec StreamFormat WhileTrue

variable {κ σ τ ω ρ θ : Type}

namespace Str

variable {codec : Codec UInt8 σ ω ρ} {operation : ω}
  {failure : Coder UInt8 σ ω ρ → ρ → Option ExtResult}
  {again : Coder UInt8 σ ω ρ → ρ → Bool} {gvl : Bool} {d fuel : Nat} {source : List UInt8}
  {memory : Memory}

/-- What a failed allocation of a resize is told by, when every resize before it passed:
    they come in pairs, the array and the string. -/
def resizeError (failed : Except RubyError ExtResult) (k : Nat) : Except RubyError ExtResult :=
  if k % 2 = 0 then .error .noMemoryError else failed

theorem resizeError_ne_ok {failed : Except RubyError ExtResult} (hfailed : failed ≠ .ok .ok)
    (k : Nat) : resizeError failed k ≠ .ok .ok := by
  unfold resizeError
  split
  · simp
  · exact hfailed

/-- Pairs that came before make no difference. -/
theorem resizeError_add (failed : Except RubyError ExtResult) (count k : Nat) :
    resizeError failed (2 * count + k) = resizeError failed k := by
  unfold resizeError
  rw [Nat.mul_add_mod]

theorem increaseDestinationBuffer_explained (d : Nat) (s : Str κ) :
    ((s.increaseDestinationBuffer d).1 = .ok .notEnoughDestinationBuffer ∧
      s.remainingDestinationBufferLength = d ∧
      s.memory.Passes 0 (s.increaseDestinationBuffer d).2.memory) ∨
    (∃ k, (s.increaseDestinationBuffer d).1 = resizeError (.ok .allocateFailed) k ∧
      s.memory.FailedAt k (s.increaseDestinationBuffer d).2.memory) ∨
    ((s.increaseDestinationBuffer d).1 = .ok .ok ∧
      s.memory.Passes 2 (s.increaseDestinationBuffer d).2.memory) := by
  unfold increaseDestinationBuffer
  split
  · rename_i hfull
    exact Or.inl ⟨rfl, hfull, .refl _⟩
  · right
    have hresize := resizeStringBuffer_explained s.memory s.destinationValue
      (s.destinationLength + d)
    generalize resizeStringBuffer s.memory s.destinationValue (s.destinationLength + d) = resized
      at hresize ⊢
    obtain ⟨result, m⟩ := resized
    rcases hresize with ⟨hresult, hfailed⟩ | ⟨hresult, hfailed⟩ | ⟨value, hresult, hpasses⟩
    · obtain rfl : result = .error .noMemoryError := hresult
      exact Or.inl ⟨0, rfl, hfailed⟩
    · obtain rfl : result = .ok none := hresult
      exact Or.inl ⟨1, rfl, hfailed⟩
    · obtain rfl : result = .ok (some value) := hresult
      exact Or.inr ⟨rfl, hpasses⟩

theorem cutDestination_explained (failed : Except RubyError ExtResult) (s : Str κ) :
    (∃ k, (s.cutDestination failed).1 = resizeError failed k ∧
      s.memory.FailedAt k (s.cutDestination failed).2.memory) ∨
    ((s.cutDestination failed).1 = .ok .ok ∧
      s.memory.Passes 2 (s.cutDestination failed).2.memory) := by
  have hresize := resizeStringBuffer_explained s.memory s.destinationValue s.destinationLength
  unfold cutDestination
  generalize resizeStringBuffer s.memory s.destinationValue s.destinationLength = resized
    at hresize ⊢
  obtain ⟨result, m⟩ := resized
  rcases hresize with ⟨hresult, hfailed⟩ | ⟨hresult, hfailed⟩ | ⟨value, hresult, hpasses⟩
  · obtain rfl : result = .error .noMemoryError := hresult
    exact Or.inl ⟨0, rfl, hfailed⟩
  · obtain rfl : result = .ok none := hresult
    exact Or.inl ⟨1, rfl, hfailed⟩
  · obtain rfl : result = .ok (some value) := hresult
    exact Or.inr ⟨rfl, hpasses⟩

theorem increaseDestinationBuffer_coder (d : Nat) (s : Str κ) :
    (s.increaseDestinationBuffer d).2.coder = s.coder := by
  unfold increaseDestinationBuffer
  split
  · rfl
  · split <;> rfl

theorem streamed_calls_length (s : Str (Coder UInt8 σ ω ρ)) :
    (streamed codec operation s).coder.calls.length = s.coder.calls.length + 1 :=
  List.length_append

/-- A round with which the loop goes on has made two allocations. -/
theorem streamBody_passes {s s' : Str (Coder UInt8 σ ω ρ)}
    (h : streamBody (streamWrapper codec operation) failure again gvl d s = some (.next s')) :
    s.memory.Passes 2 s'.memory := by
  rw [streamBody_eq] at h
  split at h
  · cases h
  · split at h
    · rcases roundAgain_cases ((streamed codec operation s).increaseDestinationBuffer d) with
        ⟨hok, heq⟩ | ⟨-, heq⟩ <;> rw [heq] at h
      · rcases increaseDestinationBuffer_explained d (streamed codec operation s) with
          ⟨hresult, -⟩ | ⟨k, hresult, -⟩ | ⟨-, hpasses⟩
        · rw [hresult] at hok
          cases hok
        · rw [hresult] at hok
          exact absurd hok (resizeError_ne_ok (by simp) k)
        · rw [← Flow.next.inj (Option.some.inj h)]
          exact hpasses
      · cases h
    · cases h

/-- How the loop is left that was entered with `s`: an allocation failed, or the codec
    caused the result.  Between any two calls there is a resize. -/
def LoopExplained (cause : ExtResult → Prop) (s : Str (Coder UInt8 σ ω ρ))
    (x : Except RubyError ExtResult × Str (Coder UInt8 σ ω ρ)) : Prop :=
  (∃ k, s.memory.FailedAt k x.2.memory ∧ x.1 = resizeError (.ok .allocateFailed) k) ∨
  ∃ count extResult, s.memory.Passes (2 * count) x.2.memory ∧ x.1 = .ok extResult ∧
    x.2.coder.calls.length = s.coder.calls.length + count + 1 ∧
    (extResult ≠ .ok → cause extResult)

/-- When every call of the loop is made in `K`, what is known of such calls tells the
    causes. -/
theorem streamLoop_explained {K : Coder UInt8 σ ω ρ → List UInt8 → Prop}
    (cause : ExtResult → Prop)
    (hK : ∀ s : Str (Coder UInt8 σ ω ρ), AtHead d source memory s → K s.coder s.sourceWindow →
      failure (streamed codec operation s).coder
        (streamAnswer codec operation s).result = none →
      again (streamed codec operation s).coder (streamAnswer codec operation s).result = true →
      K (streamed codec operation s).coder (streamed codec operation s).sourceWindow)
    (hfailed : ∀ (s : Str (Coder UInt8 σ ω ρ)) extResult, AtHead d source memory s →
      K s.coder s.sourceWindow →
      failure (streamed codec operation s).coder
        (streamAnswer codec operation s).result = some extResult → cause extResult)
    (hstalled : ∀ s : Str (Coder UInt8 σ ω ρ), AtHead d source memory s →
      K s.coder s.sourceWindow →
      again (streamed codec operation s).coder (streamAnswer codec operation s).result = true →
      (streamAnswer codec operation s).output = [] → cause .notEnoughDestinationBuffer)
    {s : Str (Coder UInt8 σ ω ρ)} {x : Except RubyError ExtResult × Str (Coder UInt8 σ ω ρ)}
    (hs : AtHead d source memory s) (hKs : K s.coder s.sourceWindow)
    (h : whileTrue (streamBody (streamWrapper codec operation) failure again gvl d) fuel s =
      some x) : LoopExplained cause s x := by
  refine whileTrue_invariant
    (I := fun v => AtHead d source memory v ∧ K v.coder v.sourceWindow ∧
      ∃ count, s.memory.Passes (2 * count) v.memory ∧
        v.coder.calls.length = s.coder.calls.length + count)
    (Q := LoopExplained cause s) ?_ ?_ ⟨hs, hKs, 0, .refl _, rfl⟩ h
  · rintro v v' ⟨hv, hKv, count, hpasses, hcount⟩ hbody
    have hpasses' := hpasses.trans (streamBody_passes hbody)
    cases Round.of_body hv hbody with
    | increased hhead hcoder hwindow _ hnone hagain =>
        rw [hcoder, hwindow]
        refine ⟨hhead, hK v hv hKv hnone hagain, count + 1, hpasses', ?_⟩
        rw [streamed_calls_length, hcount, Nat.add_assoc]
  · rintro v x ⟨hv, hKv, count, hpasses, hcount⟩ hbody
    have hcalls : (streamed codec operation v).coder.calls.length =
        s.coder.calls.length + count + 1 := by
      rw [streamed_calls_length, hcount]
    rw [streamBody_eq] at hbody
    split at hbody
    · rename_i extResult hfailure
      obtain rfl := Flow.exit.inj (Option.some.inj hbody)
      exact Or.inr ⟨count, extResult, hpasses, rfl, hcalls, fun _ => hfailed v _ hv hKv hfailure⟩
    · split at hbody
      · rename_i hagain
        rcases roundAgain_cases ((streamed codec operation v).increaseDestinationBuffer d) with
          ⟨-, heq⟩ | ⟨hne, heq⟩ <;> rw [heq] at hbody
        · cases hbody
        · obtain rfl := Flow.exit.inj (Option.some.inj hbody)
          rcases increaseDestinationBuffer_explained d (streamed codec operation v) with
            ⟨hresult, hfull, hmemory⟩ | ⟨k, hresult, hmemory⟩ | ⟨hresult, -⟩
          -- All of the room that there was is left.
          · have hroom : v.remainingDestinationBufferLength -
                (streamAnswer codec operation v).output.length = d := hfull
            have hle := streamAnswer_output_le codec operation v
            have hnil : (streamAnswer codec operation v).output = [] := by
              apply List.length_eq_zero_iff.mp
              rw [hv.room] at hroom hle
              omega
            refine Or.inr ⟨count, _, hpasses.trans hmemory, hresult, ?_, fun _ => ?_⟩
            · rw [increaseDestinationBuffer_coder]
              exact hcalls
            · exact hstalled v hv hKv hagain hnil
          · refine Or.inl ⟨2 * count + k, hpasses.failed hmemory, ?_⟩
            rw [resizeError_add]
            exact hresult
          · exact absurd hresult hne
      · obtain rfl := Flow.exit.inj (Option.some.inj hbody)
        exact Or.inr ⟨count, .ok, hpasses, rfl, hcalls, fun hne => absurd rfl hne⟩

/-- How `compress` and `decompress` come back: the array of the arguments of a resize
    could not be allocated, or the string, which is told in one of two ways.  Without an
    error there was a resize for each call. -/
def RunExplained (cause : RubyError → Prop) (before : Memory)
    (x : Except RubyError ExtResult × Str (Coder UInt8 σ ω ρ)) : Prop :=
  (∃ k, before.FailedAt k x.2.memory ∧ (x.1 = resizeError (.ok .allocateFailed) k ∨
    x.1 = resizeError (.error (brsExtRaiseError .allocateFailed)) k)) ∨
  ∃ count extResult, before.Passes count x.2.memory ∧ x.1 = .ok extResult ∧
    (extResult = .ok → count = 2 * x.2.coder.calls.length) ∧
    (extResult ≠ .ok → cause (brsExtRaiseError extResult))

theorem cutDestination_coder (failed : Except RubyError ExtResult) (s : Str κ) :
    (s.cutDestination failed).2.coder = s.coder := by
  unfold cutDestination
  split <;> rfl

/-- When its loop is explained the function is. -/
theorem LoopExplained.afterLoop (cause : RubyError → Prop) {s : Str (Coder UInt8 σ ω ρ)}
    {y : Except RubyError ExtResult × Str (Coder UInt8 σ ω ρ)}
    (h : LoopExplained (fun extResult => cause (brsExtRaiseError extResult)) s y)
    (hnew : s.coder.calls = []) {failed : Except RubyError ExtResult}
    (hfailed : failed = .ok .allocateFailed ∨
      failed = .error (brsExtRaiseError .allocateFailed)) :
    RunExplained cause s.memory (Str.afterLoop failed y) := by
  obtain ⟨r, t⟩ := y
  rcases h with ⟨k, hmemory, hresult⟩ | ⟨count, extResult, hpasses, hresult, hcalls, hcause⟩
  · obtain rfl : r = resizeError (.ok .allocateFailed) k := hresult
    rw [afterLoop_of_ne _ (resizeError_ne_ok (by simp) k)]
    exact Or.inl ⟨k, hmemory, Or.inl rfl⟩
  · obtain rfl : r = .ok extResult := hresult
    rw [hnew, List.length_nil, Nat.zero_add] at hcalls
    by_cases hok : extResult = .ok
    · subst hok
      rw [afterLoop_ok]
      rcases t.cutDestination_explained failed with ⟨k, hcut, hmemory⟩ | ⟨hcut, hmemory⟩
      · refine Or.inl ⟨2 * count + k, hpasses.failed hmemory, ?_⟩
        rw [resizeError_add, resizeError_add]
        rcases hfailed with rfl | rfl
        · exact Or.inl hcut
        · exact Or.inr hcut
      · refine Or.inr ⟨2 * count + 2, .ok, hpasses.trans hmemory, hcut, fun _ => ?_, fun hne =>
          absurd rfl hne⟩
        have hlength : t.coder.calls.length = count + 1 := hcalls
        rw [cutDestination_coder, hlength]
        omega
    · rw [afterLoop_of_ne _ fun h => hok (Except.ok.inj h)]
      exact Or.inr ⟨2 * count, extResult, hpasses, rfl, fun h => absurd h hok, hcause⟩

section Compress

variable {enc : Encoder σ} {fmt : Format UInt8} {init : σ} {handle : Nat}
  {destinationValue : List UInt8}

/-- Finishing a stream does not fail. -/
theorem Finishing.not_failed (henc : enc.Contract [.finish] fmt init)
    {s : Str (EncoderInstance σ)} (h : Finishing enc init s.coder s.sourceWindow) :
    encoderFailure (streamed enc.toCodec .finish s).coder
      (streamAnswer enc.toCodec .finish s).result = none := by
  have hresult : (streamAnswer enc.toCodec .finish s).result = true :=
    henc.succeeds _ h.1 (List.mem_cons_self ..) h.2
  exact encoderFailure_none.mpr hresult

/-- With an encoder that keeps its contract only an allocation can fail. -/
theorem compress_explained (henc : enc.Contract [.finish] fmt init)
    (hd : 0 < destinationValue.length)
    {x : Except RubyError ExtResult × Str (EncoderInstance σ)}
    (h : compress enc gvl destinationValue.length fuel ⟨handle, init, []⟩ memory source
      destinationValue = some x) :
    RunExplained (fun _ => False) memory x := by
  generalize hd' : destinationValue.length = d at h hd
  have hagain : ∀ i : EncoderInstance σ, (enc.hasMoreOutput i.state || !enc.isFinished i.state) =
      enc.pending .finish i.state := fun i => by simp [Encoder.pending]
  have hfinishing : Finishing enc init (⟨handle, init, []⟩ : EncoderInstance σ)
      (enter (⟨handle, init, []⟩ : EncoderInstance σ) memory source destinationValue
        d).sourceWindow := ⟨.start handle, trivial⟩
  obtain ⟨y, hy, rfl⟩ := Option.map_eq_some_iff.mp h
  suffices hloop : LoopExplained (fun _ => False)
      (enter (⟨handle, init, []⟩ : EncoderInstance σ) memory source destinationValue d) y from
    hloop.afterLoop (fun _ => False) rfl (Or.inl rfl)
  refine streamLoop_explained (K := Finishing enc init) _ ?_ ?_ ?_ (.enter _ rfl hd')
    hfinishing hy
  · intro v _ hK _ hpending
    rw [hagain] at hpending
    exact hK.again hpending
  · intro v extResult _ hK hfail
    rw [hK.not_failed henc] at hfail
    cases hfail
  · intro v hv hK hpending houtput
    rw [hagain] at hpending
    have hroom : 0 < v.remainingDestinationBufferLength := by
      rw [hv.room]
      exact hd
    exact henc.progresses hK.1 (List.mem_cons_self ..) hK.2 hroom hpending houtput

end Compress

end Str

/-- The source is blamed with one of the decoder's errors, and it is corrupt. -/
def CorruptSource (fmt : Format UInt8) (source : List UInt8) (err : RubyError) : Prop :=
  (∃ code, err = brsExtRaiseError (brsExtGetDecompressorError code)) ∧
    ∃ p, p <+: source ∧ fmt.Corrupt p

/-- Bytes follow a complete stream, and the file ended or the buffer was full of them. -/
def Trailing (fmt : Format UInt8) (source : List UInt8) (err : RubyError) : Prop :=
  (err = brsExtRaiseError .readIo ∨ err = brsExtRaiseError .notEnoughSourceBuffer) ∧
    ∃ p, p <+: source ∧ p ≠ source ∧ fmt.Complete p

namespace Str

section Decompress

variable {dec : Decoder σ} {fmt : Format UInt8} {init : σ} {handle d fuel : Nat} {gvl : Bool}
  {source destinationValue : List UInt8} {memory : Memory}

/-- With a decoder that follows the format an allocation can fail, or the source is
    corrupt. -/
theorem decompress_explained (hdec : dec.Follows fmt init) (hd : 0 < destinationValue.length)
    {x : Except RubyError ExtResult × Str (DecoderInstance σ)}
    (h : decompress dec gvl destinationValue.length fuel ⟨handle, init, []⟩ memory source
      destinationValue = some x) :
    RunExplained (CorruptSource fmt source) memory x := by
  generalize hd' : destinationValue.length = d at h hd
  have hreading := hdec.reading source
  obtain ⟨y, hy, rfl⟩ := Option.map_eq_some_iff.mp h
  suffices hloop : LoopExplained
      (fun extResult => CorruptSource fmt source (brsExtRaiseError extResult))
      (enter (⟨handle, init, []⟩ : DecoderInstance σ) memory source destinationValue d) y from
    hloop.afterLoop (CorruptSource fmt source) rfl (Or.inr rfl)
  refine streamLoop_explained (K := fun i _ => dec.Feeding init i) _ ?_ ?_ ?_
    (.enter _ rfl hd') (.start handle) hy
  · intro v _ hK hnone _
    exact .call _ _ hK (decoderFailure_none.mp hnone)
  · intro v extResult hv hK hfail
    obtain ⟨hresult, rfl⟩ := decoderFailure_some hfail
    obtain ⟨k, -, hcorrupt⟩ := hdec.error hK hresult
    refine ⟨⟨_, rfl⟩, _, ?_, hcorrupt⟩
    have hoffered := hv.offered
    rw [← hoffered]
    exact (List.prefix_append_right_inj _).mpr (List.take_prefix k _)
  -- A decoder that asks for room has used what it had.
  · intro v hv hK hagain houtput
    have hroom : 0 < v.remainingDestinationBufferLength := by
      rw [hv.room]
      exact hd
    have hin : v.coder.consumed ++ v.sourceWindow <+: source := by rw [hv.offered]
    exact absurd houtput (hreading.emits hroom hK hin (eq_of_beq hagain))

end Decompress

end Str

end RubyBrs
