/-
  RubyBrs.Ext.DriveLoops

  The loops of `string.c` and `io.c` end without trusting the library to make
  progress.

  What is asked of a codec is only that the calls of one run emit finitely many
  bytes; each of them may take nothing, give nothing and ask to be called again.
  A call that asks for room without having used any is in vain (`InVain`): in
  `string.c` the first one ends the run, in `io.c` the second in a row, since
  the first may have found the buffer full of old bytes.  A codec that stops
  consuming but asks for nothing is resting (`Resting`): the source buffer fills up,
  or the file ends.
-/

import RubyBrs.Ext.LibraryCalls

namespace RubyBrs

open StreamCodec WhileTrue

variable {σ τ ω ρ : Type}

/-- The call made with the variables `v`, which left the instance as `coder`, is
    the last one: its loop is left with `y`, `y` is what the run returns, and in `y`
    the instance, with its calls, is as it was after this one. -/
structure LastCall {S R κ : Type} (body : S → Option (Flow S R)) (coderOf : R → κ)
    (run : Option R) (v : S) (coder : κ) (y : R) : Prop where
  left : body v = some (.exit y)
  coder : coderOf y = coder
  returned : ∀ x, run = some x → x = y

/-! ## string.c -/

namespace Str

section StreamLoop

variable {codec : Codec UInt8 σ ω ρ} {operation : ω}
  {failure : Coder UInt8 σ ω ρ → ρ → Option ExtResult}
  {again : Coder UInt8 σ ω ρ → ρ → Bool} {gvl : Bool} {d : Nat} {source : List UInt8}
  {memory : Memory}

/-- The call with the variables `v` is no error, asks for more room, and has used
    none of what it had. -/
structure InVain (codec : Codec UInt8 σ ω ρ) (operation : ω)
    (failure : Coder UInt8 σ ω ρ → ρ → Option ExtResult)
    (again : Coder UInt8 σ ω ρ → ρ → Bool) (v : Str (Coder UInt8 σ ω ρ)) : Prop where
  accepted : failure (streamed codec operation v).coder
    (streamAnswer codec operation v).result = none
  again : again (streamed codec operation v).coder (streamAnswer codec operation v).result = true
  silent : (streamAnswer codec operation v).output = []

/-- The length left is the growth step, so the destination is not increased. -/
theorem InVain.streamBody {v : Str (Coder UInt8 σ ω ρ)} (h : AtHead d source memory v)
    (hv : InVain codec operation failure again v) :
    streamBody (streamWrapper codec operation) failure again gvl d v =
      some (.exit (.ok .notEnoughDestinationBuffer, streamed codec operation v)) := by
  have hroom : (streamed codec operation v).remainingDestinationBufferLength = d := by
    show v.remainingDestinationBufferLength - (streamAnswer codec operation v).output.length = d
    rw [hv.silent, h.room]
    rfl
  rw [streamBody_eq, hv.accepted]
  simp only [hv.again, if_true, increaseDestinationBuffer, hroom]
  rfl

/-- A call in vain is the last one: what follows the loop leaves its error alone. -/
theorem InVain.lastCall {v s : Str (Coder UInt8 σ ω ρ)} (hs : AtHead d source memory s)
    (hcall : Reaches (Str.streamBody (streamWrapper codec operation) failure again gvl d) s v)
    (hv : InVain codec operation failure again v) (failed : Except RubyError ExtResult)
    (fuel : Nat) :
    LastCall (Str.streamBody (streamWrapper codec operation) failure again gvl d)
      (fun y => y.2.coder)
      ((whileTrue (Str.streamBody (streamWrapper codec operation) failure again gvl d) fuel
        s).map (afterLoop failed))
      v (streamed codec operation v).coder
      (.ok .notEnoughDestinationBuffer, streamed codec operation v) where
  left := InVain.streamBody (hs.reached hcall) hv
  coder := rfl
  returned := by
    intro x h
    obtain ⟨y, hloop, rfl⟩ := Option.map_eq_some_iff.mp h
    rw [hcall.left (InVain.streamBody (hs.reached hcall) hv) hloop]
    exact afterLoop_of_ne _ (by simp) _

end StreamLoop

variable {enc : Encoder σ} {dec : Decoder σ} {gvl : Bool} {handle : Nat} {init : σ}
  {memory : Memory} {source destinationValue : List UInt8}

/-- When `compress` asks to go on. -/
def compressAgain (enc : Encoder σ) (i : EncoderInstance σ) (_ : Bool) : Bool :=
  enc.hasMoreOutput i.state || !enc.isFinished i.state

/-- When `decompress` asks to go on. -/
def decompressAgain (_ : DecoderInstance σ) (result : DecoderResult) : Bool :=
  result == .needsMoreOutput

/-- The loop of `compress` ends. -/
structure CompressEnds (enc : Encoder σ) (gvl : Bool) (handle : Nat) (init : σ)
    (memory : Memory) (source destinationValue : List UInt8) : Prop where
  ends : (∃ bound, ∀ v, CompressCall enc gvl destinationValue.length ⟨handle, init, []⟩ memory
      source destinationValue v →
      (streamed enc.toCodec .finish v).coder.emitted.length ≤ bound) →
    ∃ enough, ∀ fuel, enough ≤ fuel → ∃ x, compress enc gvl destinationValue.length fuel
      ⟨handle, init, []⟩ memory source destinationValue = some x
  in_vain : ∀ v, CompressCall enc gvl destinationValue.length ⟨handle, init, []⟩ memory source
      destinationValue v →
    InVain enc.toCodec .finish encoderFailure (compressAgain enc) v → ∀ fuel,
    LastCall (compressBody enc gvl destinationValue.length) (fun y => y.2.coder)
      (compress enc gvl destinationValue.length fuel ⟨handle, init, []⟩ memory source
        destinationValue)
      v (streamed enc.toCodec .finish v).coder
      (.ok .notEnoughDestinationBuffer, streamed enc.toCodec .finish v)

theorem compressEnds : CompressEnds enc gvl handle init memory source destinationValue where
  ends := by
    rintro ⟨bound, hbound⟩
    refine ⟨bound + 1, fun fuel hfuel => ?_⟩
    obtain ⟨x, hx⟩ : ∃ x, whileTrue (compressBody enc gvl destinationValue.length) fuel
        (enter ⟨handle, init, []⟩ memory source destinationValue destinationValue.length) =
          some x :=
      streamLoop_ends (.enter _ rfl rfl) (fun v hv _ _ => hbound v hv)
        (show bound < fuel by omega)
    exact ⟨_, Option.map_eq_some_iff.mpr ⟨x, hx, rfl⟩⟩
  in_vain _ hcall hv fuel := InVain.lastCall (.enter _ rfl rfl) hcall hv _ fuel

/-- The loop of `decompress` ends. -/
structure DecompressEnds (dec : Decoder σ) (gvl : Bool) (handle : Nat) (init : σ)
    (memory : Memory) (source destinationValue : List UInt8) : Prop where
  ends : (∃ bound, ∀ v, DecompressCall dec gvl destinationValue.length ⟨handle, init, []⟩ memory
      source destinationValue v →
      (streamed dec.toCodec () v).coder.emitted.length ≤ bound) →
    ∃ enough, ∀ fuel, enough ≤ fuel → ∃ x, decompress dec gvl destinationValue.length fuel
      ⟨handle, init, []⟩ memory source destinationValue = some x
  in_vain : ∀ v, DecompressCall dec gvl destinationValue.length ⟨handle, init, []⟩ memory source
      destinationValue v →
    InVain dec.toCodec () (decoderFailure dec) decompressAgain v → ∀ fuel,
    LastCall (decompressBody dec gvl destinationValue.length) (fun y => y.2.coder)
      (decompress dec gvl destinationValue.length fuel ⟨handle, init, []⟩ memory source
        destinationValue)
      v (streamed dec.toCodec () v).coder
      (.ok .notEnoughDestinationBuffer, streamed dec.toCodec () v)

theorem decompressEnds : DecompressEnds dec gvl handle init memory source destinationValue where
  ends := by
    rintro ⟨bound, hbound⟩
    refine ⟨bound + 1, fun fuel hfuel => ?_⟩
    obtain ⟨x, hx⟩ : ∃ x, whileTrue (decompressBody dec gvl destinationValue.length) fuel
        (enter ⟨handle, init, []⟩ memory source destinationValue destinationValue.length) =
          some x :=
      streamLoop_ends (.enter _ rfl rfl) (fun v hv _ _ => hbound v hv)
        (show bound < fuel by omega)
    exact ⟨_, Option.map_eq_some_iff.mpr ⟨x, hx, rfl⟩⟩
  in_vain _ hcall hv fuel := InVain.lastCall (.enter _ rfl rfl) hcall hv _ fuel

end Str

/-! ## io.c -/

namespace Io

section BufferedLoop

variable {codec : Codec UInt8 σ ω ρ} {operation : ω} {offered : Io (Coder UInt8 σ ω ρ) → Nat}
  {wrapper : Nat → Io (Coder UInt8 σ ω ρ) → Io (Coder UInt8 σ ω ρ) × Nat × ρ}
  {failure : Coder UInt8 σ ω ρ → ρ → Option ExtResult}
  {again : Coder UInt8 σ ω ρ → ρ → Bool} {gvl : Bool} {m n fuel : Nat}

/-- The call with the variables `v` is no error, asks for more room, and has used
    none of what it had. -/
structure InVain (codec : Codec UInt8 σ ω ρ) (operation : ω)
    (failure : Coder UInt8 σ ω ρ → ρ → Option ExtResult)
    (again : Coder UInt8 σ ω ρ → ρ → Bool) (offered n : Nat) (v : Io (Coder UInt8 σ ω ρ)) :
    Prop where
  accepted : failure (streamed codec operation offered n v).coder
    (streamAnswer codec operation offered n v).result = none
  again : again (streamed codec operation offered n v).coder
    (streamAnswer codec operation offered n v).result = true
  silent : (streamAnswer codec operation offered n v).output = []

/-- The call with the variables `v` is no error, asks for nothing, and has taken
    nothing. -/
structure Resting (codec : Codec UInt8 σ ω ρ) (operation : ω)
    (failure : Coder UInt8 σ ω ρ → ρ → Option ExtResult)
    (again : Coder UInt8 σ ω ρ → ρ → Bool) (offered n : Nat) (v : Io (Coder UInt8 σ ω ρ)) :
    Prop where
  accepted : failure (streamed codec operation offered n v).coder
    (streamAnswer codec operation offered n v).result = none
  done : again (streamed codec operation offered n v).coder
    (streamAnswer codec operation offered n v).result = false
  consumed : (streamAnswer codec operation offered n v).consumed = 0

/-- A call in vain leaves the loop, or empties the buffer for the next one. -/
theorem InVain.bufferedBody (gvl : Bool)
    (hwrapper : ∀ room w, wrapper room w = streamWrapper codec operation (offered w) room w)
    {v : Io (Coder UInt8 σ ω ρ)} (hwf : v.WellFormed m n) (hoff : offered v ≤ v.sourceLength)
    (hv : InVain codec operation failure again (offered v) n v) :
    (∃ x, bufferedBody wrapper failure again gvl n v = some (.exit x) ∧
      x.2.coder = (streamed codec operation (offered v) n v).coder ∧
      (x.1 = .notEnoughDestinationBuffer ∨
        x.1 = .writeIo ∧ v.destinationLength ≠ 0 ∧ ¬ v.destinationFile.Faultless)) ∨
    (∃ v', bufferedBody wrapper failure again gvl n v = some (.next v') ∧
      v'.destinationLength = 0) := by
  have hlength : (streamed codec operation (offered v) n v).destinationLength =
      v.destinationLength := by
    show v.destinationLength +
      (streamAnswer codec operation (offered v) n v).output.length = v.destinationLength
    rw [hv.silent]
    rfl
  obtain ⟨flow, heq, hround⟩ : ∃ flow, Io.bufferedBody wrapper failure again gvl n v =
      some flow ∧ Round codec operation offered failure again n v flow :=
    bufferedBody_round hwrapper hwf hoff
  rw [heq]
  cases hround with
  | finished _ hdone =>
      rw [hv.again] at hdone
      cases hdone
  | failed hfail =>
      rw [hv.accepted] at hfail
      cases hfail
  | stalled => exact Or.inl ⟨_, rfl, rfl, Or.inl rfl⟩
  | writeFailed _ _ hfilled _ hfault =>
      exact Or.inl ⟨_, rfl, rfl, Or.inr ⟨rfl, hlength ▸ hfilled, hfault⟩⟩
  | flushed => exact Or.inr ⟨_, rfl, rfl⟩

/-- A call in vain that is the last of its loop leaves it with an error. -/
theorem InVain.last
    (hwrapper : ∀ room w, wrapper room w = streamWrapper codec operation (offered w) room w)
    {v : Io (Coder UInt8 σ ω ρ)} (hwf : v.WellFormed m n) (hoff : offered v ≤ v.sourceLength)
    (hv : InVain codec operation failure again (offered v) n v)
    (hlast : ∀ v', Io.bufferedBody wrapper failure again gvl n v ≠ some (.next v')) :
    ∃ x, Io.bufferedBody wrapper failure again gvl n v = some (.exit x) ∧ x.1 ≠ .ok ∧
      x.2.coder = (streamed codec operation (offered v) n v).coder ∧
      (x.1 = .notEnoughDestinationBuffer ∨
        x.1 = .writeIo ∧ v.destinationLength ≠ 0 ∧ ¬ v.destinationFile.Faultless) := by
  rcases InVain.bufferedBody gvl hwrapper hwf hoff hv with
    ⟨x, hexit, hcoder, hx⟩ | ⟨v', hnext, _⟩
  · refine ⟨x, hexit, ?_, hcoder, hx⟩
    rcases hx with hx | ⟨hx, _⟩ <;> rw [hx] <;> exact ExtResult.noConfusion
  · exact absurd hnext (hlast v')

/-- With the buffer empty, a call in vain is the last. -/
theorem InVain.stalled (gvl : Bool)
    (hwrapper : ∀ room w, wrapper room w = streamWrapper codec operation (offered w) room w)
    {v : Io (Coder UInt8 σ ω ρ)} (hoff : offered v ≤ v.sourceLength)
    (hempty : v.destinationLength = 0)
    (hv : InVain codec operation failure again (offered v) n v) :
    Io.bufferedBody wrapper failure again gvl n v =
      some (.exit (.notEnoughDestinationBuffer, streamed codec operation (offered v) n v)) := by
  have hlength : (streamed codec operation (offered v) n v).destinationLength = 0 := by
    show v.destinationLength + (streamAnswer codec operation (offered v) n v).output.length = 0
    rw [hv.silent, hempty]
    rfl
  rw [bufferedBody_eq hwrapper v hoff, hv.accepted]
  simp only [hv.again, if_true, flushDestinationBuffer, hlength]
  rfl

/-- The second of two calls in vain leaves the loop: the first emptied the buffer. -/
theorem InVain.twice
    (hwrapper : ∀ room w, wrapper room w = streamWrapper codec operation (offered w) room w)
    {v v' : Io (Coder UInt8 σ ω ρ)} (hwf : v.WellFormed m n) (hoff : offered v ≤ v.sourceLength)
    (hoff' : offered v' ≤ v'.sourceLength)
    (hv : InVain codec operation failure again (offered v) n v)
    (hnext : Io.bufferedBody wrapper failure again gvl n v = some (.next v'))
    (hv' : InVain codec operation failure again (offered v') n v') :
    Io.bufferedBody wrapper failure again gvl n v' =
      some (.exit (.notEnoughDestinationBuffer, streamed codec operation (offered v') n v')) := by
  rcases InVain.bufferedBody gvl hwrapper hwf hoff hv with ⟨x, hexit, _⟩ | ⟨v'', hnext', hempty⟩
  · rw [hnext] at hexit
    cases hexit
  · obtain rfl := Flow.next.inj (Option.some.inj (hnext.symm.trans hnext'))
    exact InVain.stalled gvl hwrapper hoff' hempty hv'

/-- A resting call leaves the loop well, with the source as it was. -/
theorem Resting.bufferedBody
    (hwrapper : ∀ room w, wrapper room w = streamWrapper codec operation (offered w) room w)
    {v : Io (Coder UInt8 σ ω ρ)} (hoff : offered v ≤ v.sourceLength)
    (hv : Resting codec operation failure again (offered v) n v) :
    Io.bufferedBody wrapper failure again gvl n v =
      some (.exit (.ok, streamed codec operation (offered v) n v)) := by
  rw [bufferedBody_eq hwrapper v hoff, hv.accepted]
  simp only [hv.done, Bool.false_eq_true, if_false]

theorem Resting.pending {v : Io (Coder UInt8 σ ω ρ)} {offered : Nat}
    (hv : Resting codec operation failure again offered n v) :
    (streamed codec operation offered n v).view.pending = v.view.pending := by
  simp only [view]
  rw [streamed_sourceWindow, hv.consumed, List.drop_zero]
  rfl

end BufferedLoop

/-! ### Both loops together -/

section ReadSource

variable {codec : Codec UInt8 σ ω ρ} {operation : ω} {offered : Io (Coder UInt8 σ ω ρ) → Nat}
  {wrapper : Nat → Io (Coder UInt8 σ ω ρ) → Io (Coder UInt8 σ ω ρ) × Nat × ρ}
  {failure : Coder UInt8 σ ω ρ → ρ → Option ExtResult}
  {again : Coder UInt8 σ ω ρ → ρ → Bool} {gvl : Bool} {m n fuel bound : Nat}

/-- The loop around a call ends, from anywhere that the cursors lie inside the
    buffers, when the calls in it emit at most `bound` bytes. -/
theorem WellFormed.bufferedLoop_ends
    (hwrapper : ∀ room w, wrapper room w = streamWrapper codec operation (offered w) room w)
    (hoffered : ∀ w, offered w ≤ w.sourceLength) {w : Io (Coder UInt8 σ ω ρ)}
    (hw : w.WellFormed m n)
    (hbound : ∀ v, Reaches (Io.bufferedBody wrapper failure again gvl n) w v →
      (streamed codec operation (offered v) n v).coder.emitted.length ≤ bound)
    (hfuel : 2 * bound + 1 < fuel) :
    ∃ x, whileTrue (Io.bufferedBody wrapper failure again gvl n) fuel w = some x := by
  refine Io.bufferedLoop_ends (m := m) hwrapper (fun v hv => ?_) (fun v hv _ _ => hbound v hv)
    hfuel
  exact ⟨hw.reached hwrapper hoffered hv, hoffered v⟩

/-- The loop that reads the source around it ends too: every round but the last
    takes something from the file. -/
theorem WellFormed.bufferedReadSource_ends
    (hwrapper : ∀ room w, wrapper room w = streamWrapper codec operation (offered w) room w)
    (hoffered : ∀ w, offered w ≤ w.sourceLength) {w₀ : Io (Coder UInt8 σ ω ρ)}
    (hw₀ : w₀.WellFormed m n)
    (hbound : ∀ v, BufferedCall (Io.bufferedBody wrapper failure again gvl n) m fuel
      (false, w₀) v → (streamed codec operation (offered v) n v).coder.emitted.length ≤ bound)
    (hfuel : w₀.sourceFile.unread.length + 2 * bound + 2 ≤ fuel) :
    ∃ x, bufferedReadSource (whileTrue (Io.bufferedBody wrapper failure again gvl n) fuel) m
      fuel w₀ = some x := by
  have hkeep : ∀ w w', w.WellFormed m n →
      whileTrue (Io.bufferedBody wrapper failure again gvl n) fuel w = some (.ok, w') →
      w'.WellFormed m n := fun w w' hw hf => (bufferedLoop_frame hwrapper hoffered hw hf).1
  refine Io.bufferedReadSource_ends (fun _ v hv => hw₀.sourceReached hkeep hv) ?_ ?_
    (show w₀.sourceFile.unread.length < fuel by omega)
  · intro called v v' hv _ hf
    have hwf := (readMoreSource_cases (hw₀.sourceReached hkeep hv)).1.wellFormed
    exact (bufferedLoop_frame hwrapper hoffered hwf hf).2
  · intro v hv
    have hwf := hw₀.functionCall hkeep hv
    exact hwf.bufferedLoop_ends hwrapper hoffered (fun u hu => hbound u ⟨v, hv, hu⟩) (by omega)

end ReadSource

/-! ### The calls of a run that returned -/

section Returned

variable {κ : Type} {function : Io κ → Option (ExtResult × Io κ)}
  {body : Io κ → Option (Flow (Io κ) (ExtResult × Io κ))} {m fuel : Nat} {w₀ w v : Io κ}
  {x y : ExtResult × Io κ}

/-- In a run that returned, every call of the function returned, and an error of it
    is what the run returned. -/
theorem FunctionCall.returned (h : FunctionCall function m (false, w₀) w)
    (hr : bufferedReadSource function m fuel w₀ = some x) :
    ∃ z, function w = some z ∧ (z.1 ≠ .ok → x = z) := by
  obtain ⟨⟨extResult, called, w₁⟩, hloop, hx⟩ := Option.bind_eq_some_iff.mp hr
  cases h with
  | @read called' u hreach hok =>
      obtain ⟨fuel', hrest⟩ := hreach.returned hloop
      obtain ⟨fuel'', -, hbody⟩ := whileTrue_some_cases hrest
      -- The read went well, so the round called the function.
      have hround : ∀ {flow}, bufferedReadSourceBody function m (called', u) = some flow →
          SourceRound function m called' u flow := bufferedReadSourceBody_round
      rcases hbody with hleave | ⟨s', hnext, -⟩
      · generalize hflow : Flow.exit (extResult, called, w₁) = flow at hleave
        cases hround hleave with
        | ended hr' => exact absurd (hok.symm.trans hr') (by decide)
        | remainder hr' => exact absurd (hok.symm.trans hr') (by decide)
        | readFailed hne => exact absurd hok hne
        | failed _ hf hne =>
            simp only [Flow.exit.injEq, Prod.mk.injEq] at hflow
            obtain ⟨rfl, -, rfl⟩ := hflow
            refine ⟨_, hf, fun _ => ?_⟩
            simp only [ne_eq, hne, not_false_eq_true, if_true, Option.some.injEq] at hx
            exact hx.symm
        | next => cases hflow
      · cases hround hnext with
        | next _ hf => exact ⟨_, hf, fun hne => absurd rfl hne⟩
  | @once u hreach hend hempty =>
      have hexit : bufferedReadSourceBody function m (false, u) =
          some (.exit (.ok, false, (u.readMoreSource m).2)) := by
        simp [bufferedReadSourceBody, hend, hempty]
      have hr' := hreach.left hexit hloop
      simp only [Prod.mk.injEq] at hr'
      obtain ⟨rfl, rfl, rfl⟩ := hr'
      exact ⟨x, by simpa using hx, fun _ => rfl⟩

/-- A call with which the loop was left with an error ended the run. -/
theorem BufferedCall.left (h : BufferedCall body m fuel (false, w₀) v)
    (hexit : body v = some (.exit y)) (hy : y.1 ≠ .ok)
    (hr : bufferedReadSource (whileTrue body fuel) m fuel w₀ = some x) : x = y := by
  obtain ⟨w, hfunction, hcall⟩ := h
  obtain ⟨z, hz, herror⟩ := hfunction.returned hr
  obtain rfl : z = y := hcall.left hexit hz
  exact herror hy

end Returned

/-! ### A codec that stops consuming -/

section Resting

variable {codec : Codec UInt8 σ ω ρ} {operation : ω} {offered : Io (Coder UInt8 σ ω ρ) → Nat}
  {wrapper : Nat → Io (Coder UInt8 σ ω ρ) → Io (Coder UInt8 σ ω ρ) × Nat × ρ}
  {failure : Coder UInt8 σ ω ρ → ρ → Option ExtResult}
  {again : Coder UInt8 σ ω ρ → ρ → Bool} {gvl : Bool} {m n fuel : Nat}
  {w₀ v : Io (Coder UInt8 σ ω ρ)} {x : ExtResult × Io (Coder UInt8 σ ω ρ)}

theorem pending_eq_nil {w : Io (Coder UInt8 σ ω ρ)} (hw : w.WellFormed m n)
    (hunread : w.sourceFile.unread = []) (hlength : w.sourceLength = 0) :
    w.view.pending = [] := by
  have hwindow := hw.sourceWindow_eq_nil.mpr hlength
  simp only [view]
  rw [hwindow, hunread]
  rfl

/-- With nothing left to offer, the loop goes on with nothing left to offer. -/
theorem pending_nil_of_reached
    (hwrapper : ∀ room w, wrapper room w = streamWrapper codec operation (offered w) room w)
    (hoffered : ∀ w, offered w ≤ w.sourceLength) {w : Io (Coder UInt8 σ ω ρ)}
    (hw : w.WellFormed m n) (hunread : w.sourceFile.unread = []) (hlength : w.sourceLength = 0)
    (h : Reaches (Io.bufferedBody wrapper failure again gvl n) w v) : v.view.pending = [] := by
  obtain ⟨hwf, hunread, hlength⟩ : v.WellFormed m n ∧ v.sourceFile.unread = [] ∧
      v.sourceLength = 0 := by
    refine h.invariant (I := fun v => v.WellFormed m n ∧
      v.sourceFile.unread = [] ∧ v.sourceLength = 0) ?_ ⟨hw, hunread, hlength⟩
    rintro v v' ⟨hwf, hunread, hlength⟩ hbody
    have hwf' := hwf.reached hwrapper hoffered (.round .start hbody)
    cases Round.of_body hwrapper hwf (hoffered v) hbody with
    | flushed =>
        refine ⟨hwf', hunread, ?_⟩
        show v.sourceLength - _ = 0
        omega
  exact pending_eq_nil hwf hunread hlength

/-- If the function takes nothing, then the loop that reads the source ends when the
    source buffer is full, or when the file does. -/
theorem resting_loop
    {function : Io (Coder UInt8 σ ω ρ) → Option (ExtResult × Io (Coder UInt8 σ ω ρ))}
    {w : Io (Coder UInt8 σ ω ρ)} {x : ExtResult × Bool × Io (Coder UInt8 σ ω ρ)}
    (hw : w.WellFormed m n) (hpending : w.view.pending ≠ [])
    (hfunction : ∀ {s}, Reaches (bufferedReadSourceBody function m) (true, w) s →
      (s.2.readMoreSource m).1 = .ok → (s.2.readMoreSource m).2.WellFormed m n →
      ∀ {y}, function (s.2.readMoreSource m).2 = some y →
      y.1 = .ok ∧ y.2.WellFormed m n ∧
        y.2.view.pending = (s.2.readMoreSource m).2.view.pending)
    (h : whileTrue (bufferedReadSourceBody function m) fuel (true, w) = some x) :
    x.1 = .notEnoughSourceBuffer ∨ x.1 = .readIo := by
  refine whileTrue_invariant
    (I := fun s => Reaches (bufferedReadSourceBody function m) (true, w) s ∧
      s.2.WellFormed m n ∧ s.2.view.pending ≠ [])
    (Q := fun r => r.1 = .notEnoughSourceBuffer ∨ r.1 = .readIo) ?_ ?_ ⟨.start, hw, hpending⟩ h
  -- Another round: more was read, and the call took nothing.
  · rintro ⟨c, s⟩ ⟨c', s'⟩ ⟨hs, hwf, hpending⟩ hbody
    refine ⟨hs.round hbody, ?_⟩
    cases bufferedReadSourceBody_round hbody with
    | next hok hf =>
        obtain ⟨-, hwf', hkept⟩ := hfunction hs hok (readMoreSource_cases hwf).1.wellFormed hf
        refine ⟨hwf', ?_⟩
        rw [hkept, view_readMoreSource hwf (by rw [hok]; exact ExtResult.noConfusion)]
        exact hpending
  -- A way out: at the end of the file there is a remainder, and else the read failed.
  · rintro ⟨c, s⟩ ⟨r, c', s'⟩ ⟨hs, hwf, hpending⟩ hbody
    have hwf' := (readMoreSource_cases hwf).1.wellFormed
    cases bufferedReadSourceBody_round hbody with
    | ended hend hrest =>
        obtain ⟨-, -, hunread⟩ := readMoreSource_finished hwf hend
        have hview := view_readMoreSource hwf (by rw [hend]; exact ExtResult.noConfusion)
        refine absurd ?_ hpending
        rw [← hview]
        exact pending_eq_nil hwf' hunread hrest
    | remainder => exact Or.inr rfl
    | readFailed hok hend =>
        cases (readMoreSource_cases hwf).2 with
        | read h => exact absurd h hok
        | full h => exact Or.inl h
        | finished h => exact absurd h hend
        | failed h => exact Or.inr h
    | failed hok hf hne => exact absurd (hfunction hs hok hwf' hf).1 hne

/-- If, with some of the source left, all further calls are resting, then the source
    buffer fills up with it or the file ends before it is taken. -/
theorem resting_ends
    (hwrapper : ∀ room w, wrapper room w = streamWrapper codec operation (offered w) room w)
    (hoffered : ∀ w, offered w ≤ w.sourceLength) (hw₀ : w₀.WellFormed m n)
    (hcall : BufferedCall (Io.bufferedBody wrapper failure again gvl n) m fuel (false, w₀) v)
    (hresting : Resting codec operation failure again (offered v) n v) (hleft : v.view.pending ≠ [])
    (hlater : ∀ v', BufferedCall (Io.bufferedBody wrapper failure again gvl n) m fuel
      (true, streamed codec operation (offered v) n v) v' →
      Resting codec operation failure again (offered v') n v')
    (hr : bufferedReadSource (whileTrue (Io.bufferedBody wrapper failure again gvl n) fuel) m
      fuel w₀ = some x) : x.1 = .notEnoughSourceBuffer ∨ x.1 = .readIo := by
  have hframe : ∀ w w', w.WellFormed m n →
      whileTrue (Io.bufferedBody wrapper failure again gvl n) fuel w = some (.ok, w') →
      w'.WellFormed m n := fun w w' hw hf => (bufferedLoop_frame hwrapper hoffered hw hf).1
  have hv := hw₀.bufferedCall hwrapper hoffered hcall
  obtain ⟨w, hfunction, hreach⟩ := hcall
  obtain ⟨z, hz, -⟩ := hfunction.returned hr
  obtain rfl : z = (.ok, streamed codec operation (offered v) n v) :=
    hreach.left (hresting.bufferedBody hwrapper (hoffered v)) hz
  cases hfunction with
  | once h hend hempty =>
      -- An empty file: nothing is left.
      have hu := hw₀.sourceReached hframe h
      obtain ⟨-, -, hunread⟩ := readMoreSource_finished hu hend
      exact absurd (pending_nil_of_reached hwrapper hoffered (readMoreSource_cases hu).1.wellFormed
        hunread hempty hreach) hleft
  | @read called u h hok =>
      have hnext : bufferedReadSourceBody
          (whileTrue (Io.bufferedBody wrapper failure again gvl n) fuel) m (called, u) =
          some (.next (true, streamed codec operation (offered v) n v)) := by
        simp [bufferedReadSourceBody, hok, hz]
      obtain ⟨⟨extResult, called', w₁⟩, hloop, hx⟩ := Option.bind_eq_some_iff.mp hr
      obtain ⟨fuel', hrest⟩ := (h.round hnext).returned hloop
      have hresult : extResult = .notEnoughSourceBuffer ∨ extResult = .readIo := by
        refine resting_loop (streamed_wellFormed hv (hoffered v))
          (by rw [hresting.pending]; exact hleft) ?_ hrest
        -- A further call rests, so the loop around it is left at once.
        intro s hs hok hwf y hy
        have hresting' := hlater _ ⟨_, .read hs hok, .start⟩
        obtain rfl : y = (.ok, streamed codec operation (offered (s.2.readMoreSource m).2) n
            (s.2.readMoreSource m).2) :=
          Reaches.start.left (hresting'.bufferedBody hwrapper (hoffered _)) hy
        exact ⟨rfl, streamed_wellFormed hwf (hoffered _), hresting'.pending⟩
      have hne : extResult ≠ .ok := by
        rintro rfl
        rcases hresult with h | h <;> cases h
      simp only [ne_eq, hne, not_false_eq_true, if_true, Option.some.injEq] at hx
      rw [← hx]
      exact hresult

end Resting

/-! ### compress and decompress -/

section Compress

variable (enc : Encoder σ) (gvl : Bool) (handle : Nat) (init : σ) (sourceFile : SourceFile)
  (sourceBuffer : List UInt8) (destinationFile : DestinationFile)
  (destinationBuffer : List UInt8)

/-- How much of the source a call of `compress` offers. -/
def compressOffered {κ : Type} : Operation → Io κ → Nat
  | .finish, _ => 0
  | _, w => w.sourceLength

/-- When `compress` asks to go on with an operation. -/
def compressAgain : Operation → EncoderInstance σ → Bool → Bool
  | .finish, i, _ => enc.hasMoreOutput i.state || !enc.isFinished i.state
  | _, i, _ => enc.hasMoreOutput i.state

/-- The loop of `compress` that a call of an operation is made in. -/
def compressLoopBody (n : Nat) : Operation → Io (EncoderInstance σ) →
    Option (Flow (Io (EncoderInstance σ)) (ExtResult × Io (EncoderInstance σ)))
  | .finish => bufferedCompressorFinishBody enc gvl n
  | _ => bufferedCompressBody enc gvl n

/-- A call of `compress` that asks for more room and has used none of what it had. -/
def CompressInVain (n : Nat) (operation : Operation) (v : Io (EncoderInstance σ)) : Prop :=
  InVain enc.toCodec operation encoderFailure (compressAgain enc operation)
    (compressOffered operation v) n v

/-- A call of `compress` that takes nothing and asks for nothing. -/
def CompressResting (n : Nat) (v : Io (EncoderInstance σ)) : Prop :=
  Resting enc.toCodec .process encoderFailure (compressAgain enc .process) v.sourceLength n v

/-- The loops of `compress` end, for any amount of fuel that is enough.  `ends` is
    for a codec that emits finitely many bytes in the calls that are made. -/
structure CompressEnds : Prop where
  ends : (∃ bound, ∀ fuel operation v, CompressCall enc gvl sourceBuffer.length
      destinationBuffer.length fuel (enter ⟨handle, init, []⟩ sourceFile sourceBuffer
        destinationFile destinationBuffer) operation v →
      (streamed enc.toCodec operation (compressOffered operation v) destinationBuffer.length
        v).coder.emitted.length ≤ bound) →
    ∃ enough, ∀ fuel, enough ≤ fuel → ∃ x, compress enc gvl sourceBuffer.length
      destinationBuffer.length fuel ⟨handle, init, []⟩ sourceFile sourceBuffer destinationFile
      destinationBuffer = some x
  /-- A run that ends with a call in vain had nothing to write, or failed to write it. -/
  in_vain_last : ∀ fuel operation v, CompressCall enc gvl sourceBuffer.length
      destinationBuffer.length fuel (enter ⟨handle, init, []⟩ sourceFile sourceBuffer
        destinationFile destinationBuffer) operation v →
    CompressInVain enc destinationBuffer.length operation v →
    (∀ v', compressLoopBody enc gvl destinationBuffer.length operation v ≠ some (.next v')) →
    ∃ y, LastCall (compressLoopBody enc gvl destinationBuffer.length operation)
        (fun y => y.2.coder)
        (compress enc gvl sourceBuffer.length destinationBuffer.length fuel ⟨handle, init, []⟩
          sourceFile sourceBuffer destinationFile destinationBuffer)
        v (streamed enc.toCodec operation (compressOffered operation v) destinationBuffer.length
          v).coder y ∧
      (y.1 = .notEnoughDestinationBuffer ∨
        y.1 = .writeIo ∧ v.destinationLength ≠ 0 ∧ ¬ v.destinationFile.Faultless)
  /-- The second call in vain in a row is always the last. -/
  in_vain_twice : ∀ fuel operation v v', CompressCall enc gvl sourceBuffer.length
      destinationBuffer.length fuel (enter ⟨handle, init, []⟩ sourceFile sourceBuffer
        destinationFile destinationBuffer) operation v →
    CompressInVain enc destinationBuffer.length operation v →
    compressLoopBody enc gvl destinationBuffer.length operation v = some (.next v') →
    CompressInVain enc destinationBuffer.length operation v' →
    LastCall (compressLoopBody enc gvl destinationBuffer.length operation) (fun y => y.2.coder)
      (compress enc gvl sourceBuffer.length destinationBuffer.length fuel ⟨handle, init, []⟩
        sourceFile sourceBuffer destinationFile destinationBuffer)
      v' (streamed enc.toCodec operation (compressOffered operation v') destinationBuffer.length
        v').coder
      (.notEnoughDestinationBuffer, streamed enc.toCodec operation (compressOffered operation v')
        destinationBuffer.length v')
  /-- From the call with the variables `v` on, all calls are resting. -/
  resting : ∀ fuel v x, BufferedCall (bufferedCompressBody enc gvl destinationBuffer.length)
      sourceBuffer.length fuel (false, enter ⟨handle, init, []⟩ sourceFile sourceBuffer
        destinationFile destinationBuffer) v →
    v.view.pending ≠ [] → CompressResting enc destinationBuffer.length v →
    (∀ v', BufferedCall (bufferedCompressBody enc gvl destinationBuffer.length)
      sourceBuffer.length fuel (true, streamed enc.toCodec .process v.sourceLength
        destinationBuffer.length v) v' → CompressResting enc destinationBuffer.length v') →
    compress enc gvl sourceBuffer.length destinationBuffer.length fuel ⟨handle, init, []⟩
      sourceFile sourceBuffer destinationFile destinationBuffer = some x →
    x.1 = .notEnoughSourceBuffer ∨ x.1 = .readIo

end Compress

section CompressProof

variable {enc : Encoder σ} {gvl : Bool} {handle : Nat} {init : σ} {sourceFile : SourceFile}
  {sourceBuffer : List UInt8} {destinationFile : DestinationFile}
  {destinationBuffer : List UInt8} {fuel m n : Nat} {w₀ v : Io (EncoderInstance σ)}
  {x y : ExtResult × Io (EncoderInstance σ)}

/-- What `compress` makes of the outcome of reading the source. -/
theorem compress_cases (h : compress enc gvl m n fuel ⟨handle, init, []⟩ sourceFile sourceBuffer
      destinationFile destinationBuffer = some x) :
    ∃ z, bufferedReadSource (bufferedCompress enc gvl n fuel) m fuel
        (enter ⟨handle, init, []⟩ sourceFile sourceBuffer destinationFile destinationBuffer) =
          some z ∧
      (z.1 ≠ .ok → x = z) ∧
      (z.1 = .ok → ∃ y, bufferedCompressorFinish enc gvl n fuel z.2 = some y ∧
        (y.1 ≠ .ok → x = y)) := by
  obtain ⟨⟨extResult, w⟩, hloop, hx⟩ := Option.bind_eq_some_iff.mp h
  refine ⟨_, hloop, fun hne => ?_, fun hok => ?_⟩
  · simp only [ne_eq] at hne
    simp only [ne_eq, hne, not_false_eq_true, if_true, Option.some.injEq] at hx
    exact hx.symm
  · obtain rfl : extResult = .ok := hok
    simp only [ne_eq, not_true_eq_false, if_false] at hx
    obtain ⟨y, hy, hx⟩ := Option.map_eq_some_iff.mp hx
    refine ⟨y, hy, fun hne => ?_⟩
    rw [if_pos hne] at hx
    exact hx.symm

/-- A call that left its loop with an error ended the run. -/
theorem CompressCall.left {operation : Operation}
    (hcall : CompressCall enc gvl m n fuel
      (enter ⟨handle, init, []⟩ sourceFile sourceBuffer destinationFile destinationBuffer)
      operation v)
    (hexit : compressLoopBody enc gvl n operation v = some (.exit y)) (hy : y.1 ≠ .ok)
    (h : compress enc gvl m n fuel ⟨handle, init, []⟩ sourceFile sourceBuffer destinationFile
      destinationBuffer = some x) : x = y := by
  obtain ⟨z, hz, herror, hok⟩ := compress_cases h
  cases hcall with
  | process hcall =>
      obtain rfl : z = y := hcall.left hexit hy hz
      exact herror hy
  | finish hread hcall =>
      obtain rfl := Option.some.inj (hz.symm.trans hread)
      obtain ⟨y', hy', hx⟩ := hok rfl
      obtain rfl : y' = y := hcall.left hexit hy'
      exact hx hy

theorem CompressCall.next {operation : Operation} {v' : Io (EncoderInstance σ)}
    (hcall : CompressCall enc gvl m n fuel w₀ operation v)
    (hnext : compressLoopBody enc gvl n operation v = some (.next v')) :
    CompressCall enc gvl m n fuel w₀ operation v' := by
  cases hcall with
  | process hcall =>
      obtain ⟨w, hfunction, hreach⟩ := hcall
      exact .process ⟨w, hfunction, hreach.round hnext⟩
  | finish hread hreach => exact .finish hread (hreach.round hnext)

theorem CompressCall.last {operation : Operation}
    (hcall : CompressCall enc gvl m n fuel w₀ operation v) (hw₀ : w₀.WellFormed m n)
    (hv : CompressInVain enc n operation v)
    (hlast : ∀ v', compressLoopBody enc gvl n operation v ≠ some (.next v')) :
    ∃ x, compressLoopBody enc gvl n operation v = some (.exit x) ∧ x.1 ≠ .ok ∧
      x.2.coder = (streamed enc.toCodec operation (compressOffered operation v) n v).coder ∧
      (x.1 = .notEnoughDestinationBuffer ∨
        x.1 = .writeIo ∧ v.destinationLength ≠ 0 ∧ ¬ v.destinationFile.Faultless) := by
  have hwf := hcall.wellFormed hw₀
  cases hcall with
  | process => exact InVain.last (compressWrapper_eq enc) hwf (le_refl _) hv hlast
  | finish => exact InVain.last (compressorFinishWrapper_eq enc) hwf (Nat.zero_le _) hv hlast

theorem CompressCall.twice {operation : Operation} {v' : Io (EncoderInstance σ)}
    (hcall : CompressCall enc gvl m n fuel w₀ operation v) (hw₀ : w₀.WellFormed m n)
    (hv : CompressInVain enc n operation v)
    (hnext : compressLoopBody enc gvl n operation v = some (.next v'))
    (hv' : CompressInVain enc n operation v') :
    compressLoopBody enc gvl n operation v' = some (.exit (.notEnoughDestinationBuffer,
      streamed enc.toCodec operation (compressOffered operation v') n v')) := by
  have hwf := hcall.wellFormed hw₀
  cases hcall with
  | process =>
      exact InVain.twice (compressWrapper_eq enc) hwf (le_refl _) (le_refl _) hv hnext hv'
  | finish =>
      exact InVain.twice (compressorFinishWrapper_eq enc) hwf (Nat.zero_le _) (Nat.zero_le _) hv
        hnext hv'

/-- `compress` returns when the calls that are made emit finitely many bytes. -/
theorem compress_ends {bound : Nat}
    (hw₀ : (enter (⟨handle, init, []⟩ : EncoderInstance σ) sourceFile sourceBuffer
      destinationFile destinationBuffer).WellFormed m n)
    (hbound : ∀ operation v, CompressCall enc gvl m n fuel
      (enter ⟨handle, init, []⟩ sourceFile sourceBuffer destinationFile destinationBuffer)
      operation v → (streamed enc.toCodec operation (compressOffered operation v) n
        v).coder.emitted.length ≤ bound)
    (hfuel : sourceFile.unread.length + 2 * bound + 2 ≤ fuel) :
    ∃ x, compress enc gvl m n fuel ⟨handle, init, []⟩ sourceFile sourceBuffer destinationFile
      destinationBuffer = some x := by
  obtain ⟨⟨extResult, w⟩, hread⟩ : ∃ x, bufferedReadSource (bufferedCompress enc gvl n fuel) m
      fuel (enter ⟨handle, init, []⟩ sourceFile sourceBuffer destinationFile
        destinationBuffer) = some x :=
    hw₀.bufferedReadSource_ends (compressWrapper_eq enc) (fun _ => le_refl _)
      (fun v hv => hbound .process v (.process hv)) hfuel
  by_cases hok : extResult = .ok
  · subst hok
    have hw : w.WellFormed m n := (CompressCall.finish hread .start).wellFormed hw₀
    obtain ⟨y, hy⟩ : ∃ y, bufferedCompressorFinish enc gvl n fuel w = some y :=
      hw.bufferedLoop_ends (compressorFinishWrapper_eq enc) (fun _ => Nat.zero_le _)
        (fun v hv => hbound .finish v (.finish hread hv)) (by omega)
    refine ⟨if y.1 ≠ .ok then y else y.2.writeRemainingDestination,
      Option.bind_eq_some_iff.mpr ⟨_, hread, ?_⟩⟩
    simp only [ne_eq, not_true_eq_false, if_false]
    exact Option.map_eq_some_iff.mpr ⟨y, hy, rfl⟩
  · refine ⟨(extResult, w), Option.bind_eq_some_iff.mpr ⟨_, hread, ?_⟩⟩
    simp only [ne_eq, hok, not_false_eq_true, if_true]

theorem compressEnds : CompressEnds enc gvl handle init sourceFile sourceBuffer destinationFile
    destinationBuffer where
  ends := by
    rintro ⟨bound, hbound⟩
    exact ⟨_, fun fuel hfuel => compress_ends (.enter _ _ _ _ _) (hbound fuel) hfuel⟩
  in_vain_last := by
    intro fuel operation v hcall hv hlast
    obtain ⟨y, hexit, hne, hcoder, hy⟩ := hcall.last (.enter _ _ _ _ _) hv hlast
    exact ⟨y, ⟨hexit, hcoder, fun x h => hcall.left hexit hne h⟩, hy⟩
  in_vain_twice := by
    intro fuel operation v v' hcall hv hnext hv'
    have hexit := hcall.twice (.enter _ _ _ _ _) hv hnext hv'
    exact ⟨hexit, rfl, fun x h => (hcall.next hnext).left hexit ExtResult.noConfusion h⟩
  resting := by
    intro fuel v x hcall hleft hresting hlater h
    obtain ⟨z, hz, herror, -⟩ := compress_cases h
    have hresult := resting_ends (compressWrapper_eq enc) (fun _ => le_refl _)
      (.enter _ _ _ _ _) hcall hresting hleft hlater hz
    have hne : z.1 ≠ .ok := by
      rcases hresult with hz | hz <;> rw [hz] <;> decide
    rw [herror hne]
    exact hresult

end CompressProof

section Decompress

variable (dec : Decoder σ) (gvl : Bool) (handle : Nat) (init : σ) (sourceFile : SourceFile)
  (sourceBuffer : List UInt8) (destinationFile : DestinationFile)
  (destinationBuffer : List UInt8)

/-- When `decompress` asks to go on. -/
def decompressAgain (_ : DecoderInstance σ) (result : DecoderResult) : Bool :=
  result == .needsMoreOutput

/-- A call of `decompress` that asks for more room and has used none of what it had. -/
def DecompressInVain (n : Nat) (v : Io (DecoderInstance σ)) : Prop :=
  InVain dec.toCodec () (decoderFailure dec) decompressAgain v.sourceLength n v

/-- A call of `decompress` that takes nothing and asks for nothing. -/
def DecompressResting (n : Nat) (v : Io (DecoderInstance σ)) : Prop :=
  Resting dec.toCodec () (decoderFailure dec) decompressAgain v.sourceLength n v

/-- The loops of `decompress` end, as those of `compress` do. -/
structure DecompressEnds : Prop where
  ends : (∃ bound, ∀ fuel v, DecompressCall dec gvl sourceBuffer.length
      destinationBuffer.length fuel (enter ⟨handle, init, []⟩ sourceFile sourceBuffer
        destinationFile destinationBuffer) v →
      (streamed dec.toCodec () v.sourceLength destinationBuffer.length
        v).coder.emitted.length ≤ bound) →
    ∃ enough, ∀ fuel, enough ≤ fuel → ∃ x, decompress dec gvl sourceBuffer.length
      destinationBuffer.length fuel ⟨handle, init, []⟩ sourceFile sourceBuffer destinationFile
      destinationBuffer = some x
  in_vain_last : ∀ fuel v, DecompressCall dec gvl sourceBuffer.length
      destinationBuffer.length fuel (enter ⟨handle, init, []⟩ sourceFile sourceBuffer
        destinationFile destinationBuffer) v →
    DecompressInVain dec destinationBuffer.length v →
    (∀ v', bufferedDecompressBody dec gvl destinationBuffer.length v ≠ some (.next v')) →
    ∃ y, LastCall (bufferedDecompressBody dec gvl destinationBuffer.length) (fun y => y.2.coder)
        (decompress dec gvl sourceBuffer.length destinationBuffer.length fuel ⟨handle, init, []⟩
          sourceFile sourceBuffer destinationFile destinationBuffer)
        v (streamed dec.toCodec () v.sourceLength destinationBuffer.length v).coder y ∧
      (y.1 = .notEnoughDestinationBuffer ∨
        y.1 = .writeIo ∧ v.destinationLength ≠ 0 ∧ ¬ v.destinationFile.Faultless)
  in_vain_twice : ∀ fuel v v', DecompressCall dec gvl sourceBuffer.length
      destinationBuffer.length fuel (enter ⟨handle, init, []⟩ sourceFile sourceBuffer
        destinationFile destinationBuffer) v →
    DecompressInVain dec destinationBuffer.length v →
    bufferedDecompressBody dec gvl destinationBuffer.length v = some (.next v') →
    DecompressInVain dec destinationBuffer.length v' →
    LastCall (bufferedDecompressBody dec gvl destinationBuffer.length) (fun y => y.2.coder)
      (decompress dec gvl sourceBuffer.length destinationBuffer.length fuel ⟨handle, init, []⟩
        sourceFile sourceBuffer destinationFile destinationBuffer)
      v' (streamed dec.toCodec () v'.sourceLength destinationBuffer.length v').coder
      (.notEnoughDestinationBuffer, streamed dec.toCodec () v'.sourceLength
        destinationBuffer.length v')
  resting : ∀ fuel v x, DecompressCall dec gvl sourceBuffer.length destinationBuffer.length fuel
      (enter ⟨handle, init, []⟩ sourceFile sourceBuffer destinationFile destinationBuffer) v →
    v.view.pending ≠ [] → DecompressResting dec destinationBuffer.length v →
    (∀ v', BufferedCall (bufferedDecompressBody dec gvl destinationBuffer.length)
      sourceBuffer.length fuel (true, streamed dec.toCodec () v.sourceLength
        destinationBuffer.length v) v' → DecompressResting dec destinationBuffer.length v') →
    decompress dec gvl sourceBuffer.length destinationBuffer.length fuel ⟨handle, init, []⟩
      sourceFile sourceBuffer destinationFile destinationBuffer = some x →
    x.1 = .notEnoughSourceBuffer ∨ x.1 = .readIo

end Decompress

section DecompressProof

variable {dec : Decoder σ} {gvl : Bool} {handle : Nat} {init : σ} {sourceFile : SourceFile}
  {sourceBuffer : List UInt8} {destinationFile : DestinationFile}
  {destinationBuffer : List UInt8} {fuel m n : Nat} {w₀ v : Io (DecoderInstance σ)}
  {x y : ExtResult × Io (DecoderInstance σ)}

/-- What `decompress` makes of the outcome of reading the source. -/
theorem decompress_cases (h : decompress dec gvl m n fuel ⟨handle, init, []⟩ sourceFile
      sourceBuffer destinationFile destinationBuffer = some x) :
    ∃ z, bufferedReadSource (bufferedDecompress dec gvl n fuel) m fuel
        (enter ⟨handle, init, []⟩ sourceFile sourceBuffer destinationFile destinationBuffer) =
          some z ∧ (z.1 ≠ .ok → x = z) := by
  obtain ⟨⟨extResult, w⟩, hloop, hx⟩ := Option.map_eq_some_iff.mp h
  refine ⟨_, hloop, fun hne => ?_⟩
  simp only [ne_eq] at hne
  simp only [ne_eq, hne, not_false_eq_true, if_true] at hx
  exact hx.symm

/-- `decompress` returns when the calls that are made emit finitely many bytes. -/
theorem decompress_ends {bound : Nat}
    (hw₀ : (enter (⟨handle, init, []⟩ : DecoderInstance σ) sourceFile sourceBuffer
      destinationFile destinationBuffer).WellFormed m n)
    (hbound : ∀ v, DecompressCall dec gvl m n fuel
      (enter ⟨handle, init, []⟩ sourceFile sourceBuffer destinationFile destinationBuffer) v →
      (streamed dec.toCodec () v.sourceLength n v).coder.emitted.length ≤ bound)
    (hfuel : sourceFile.unread.length + 2 * bound + 2 ≤ fuel) :
    ∃ x, decompress dec gvl m n fuel ⟨handle, init, []⟩ sourceFile sourceBuffer destinationFile
      destinationBuffer = some x := by
  obtain ⟨z, hread⟩ : ∃ x, bufferedReadSource (bufferedDecompress dec gvl n fuel) m
      fuel (enter ⟨handle, init, []⟩ sourceFile sourceBuffer destinationFile
        destinationBuffer) = some x :=
    hw₀.bufferedReadSource_ends (decompressWrapper_eq dec) (fun _ => le_refl _) hbound hfuel
  exact ⟨if z.1 ≠ .ok then z else z.2.writeRemainingDestination,
    Option.map_eq_some_iff.mpr ⟨z, hread, rfl⟩⟩

/-- A call that left its loop with an error ended the run. -/
theorem DecompressCall.left
    (hcall : DecompressCall dec gvl m n fuel
      (enter ⟨handle, init, []⟩ sourceFile sourceBuffer destinationFile destinationBuffer) v)
    (hexit : bufferedDecompressBody dec gvl n v = some (.exit y)) (hy : y.1 ≠ .ok)
    (h : decompress dec gvl m n fuel ⟨handle, init, []⟩ sourceFile sourceBuffer destinationFile
      destinationBuffer = some x) : x = y := by
  obtain ⟨z, hz, herror⟩ := decompress_cases h
  obtain rfl : z = y := BufferedCall.left hcall hexit hy hz
  exact herror hy

theorem decompressEnds : DecompressEnds dec gvl handle init sourceFile sourceBuffer
    destinationFile destinationBuffer where
  ends := by
    rintro ⟨bound, hbound⟩
    exact ⟨_, fun fuel hfuel => decompress_ends (.enter _ _ _ _ _) (hbound fuel) hfuel⟩
  in_vain_last := by
    intro fuel v hcall hv hlast
    have hwf := hcall.wellFormed (.enter _ _ _ _ _)
    obtain ⟨y, hexit, hne, hcoder, hy⟩ :=
      InVain.last (decompressWrapper_eq dec) hwf (le_refl _) hv hlast
    exact ⟨y, ⟨hexit, hcoder, fun x h => hcall.left hexit hne h⟩, hy⟩
  in_vain_twice := by
    intro fuel v v' hcall hv hnext hv'
    have hwf := hcall.wellFormed (.enter _ _ _ _ _)
    have hexit : bufferedDecompressBody dec gvl destinationBuffer.length v' =
        some (.exit (.notEnoughDestinationBuffer, streamed dec.toCodec () v'.sourceLength
          destinationBuffer.length v')) :=
      InVain.twice (decompressWrapper_eq dec) hwf (le_refl _) (le_refl _) hv hnext hv'
    obtain ⟨w, hfunction, hreach⟩ := hcall
    have hcall' : DecompressCall dec gvl sourceBuffer.length destinationBuffer.length fuel
      (enter ⟨handle, init, []⟩ sourceFile sourceBuffer destinationFile destinationBuffer) v' :=
      ⟨w, hfunction, hreach.round hnext⟩
    exact ⟨hexit, rfl, fun x h => hcall'.left hexit ExtResult.noConfusion h⟩
  resting := by
    intro fuel v x hcall hleft hresting hlater h
    obtain ⟨z, hz, herror⟩ := decompress_cases h
    have hresult := resting_ends (decompressWrapper_eq dec) (fun _ => le_refl _)
      (.enter _ _ _ _ _) hcall hresting hleft hlater hz
    have hne : z.1 ≠ .ok := by
      rcases hresult with hz | hz <;> rw [hz] <;> decide
    rw [herror hne]
    exact hresult

end DecompressProof

end Io

/-! ## All drive loops end -/

/-- The loops of all four functions end, for every codec whose calls in a run emit
    finitely many bytes, and a codec that only asks, or only waits, is answered
    with an error; one that only asks is not called again. -/
theorem drive_loops_end (enc : Encoder σ) (dec : Decoder τ) (gvl : Bool) (handle : Nat)
    (initEncoder : σ) (initDecoder : τ) :
    (∀ memory source destinationValue,
      Str.CompressEnds enc gvl handle initEncoder memory source destinationValue ∧
      Str.DecompressEnds dec gvl handle initDecoder memory source destinationValue) ∧
    (∀ sourceFile sourceBuffer destinationFile destinationBuffer,
      Io.CompressEnds enc gvl handle initEncoder sourceFile sourceBuffer destinationFile
        destinationBuffer ∧
      Io.DecompressEnds dec gvl handle initDecoder sourceFile sourceBuffer destinationFile
        destinationBuffer) :=
  ⟨fun _ _ _ => ⟨Str.compressEnds, Str.decompressEnds⟩,
    fun _ _ _ _ => ⟨Io.compressEnds, Io.decompressEnds⟩⟩

/-- An encoder that takes everything, emits one byte at its first call, and from
    the second on only asks for more room.  The state counts the calls. -/
def insatiableEncoder : Encoder Nat where
  stream k _ input room := ⟨k + 1, input.length, if k = 0 then [7].take room else [], true⟩
  consumed_le _ _ _ _ := le_refl _
  output_le k _ _ room := by
    split
    · rw [List.length_take]
      exact Nat.min_le_left _ _
    · exact Nat.zero_le _
  create := 0
  setParameter k _ _ := (true, k)
  hasMoreOutput k := decide (2 ≤ k)
  isFinished _ := false

/-- It is answered at its second call in `string.c`.  In `io.c` the second call
    finds the byte of the first one in the buffer, so the third is the last. -/
theorem drive_loops_end_insatiable :
    (∃ x, Str.compress insatiableEncoder true 2 2 ⟨0, 0, []⟩ .unused [1] [0, 0] = some x ∧
      x.1 = .ok .notEnoughDestinationBuffer ∧ x.2.coder.calls.length = 2) ∧
    ∃ x, Io.compress insatiableEncoder true 1 2 3 ⟨0, 0, []⟩ (.opened [1, 2] []) [0] (.opened [])
      [0, 0] = some x ∧ x.1 = .notEnoughDestinationBuffer ∧ x.2.coder.calls.length = 3 := by
  obtain ⟨hstring, hio⟩ := drive_loops_end insatiableEncoder
    (formatDecoder storedFormat id) true 0 0 (formatDecoder storedFormat id).create
  constructor
  · obtain ⟨v, hcall, hv, hcalls⟩ : ∃ v, Str.CompressCall insatiableEncoder true 2 ⟨0, 0, []⟩
        .unused [1] [0, 0] v ∧ Str.InVain insatiableEncoder.toCodec .finish encoderFailure
          (Str.compressAgain insatiableEncoder) v ∧
        (Str.streamed insatiableEncoder.toCodec .finish v).coder.calls.length = 2 :=
      ⟨_, .round .start rfl, ⟨rfl, rfl, rfl⟩, rfl⟩
    obtain ⟨x, hx⟩ : ∃ x, Str.compress insatiableEncoder true 2 2 ⟨0, 0, []⟩ .unused [1]
      [0, 0] = some x := ⟨_, rfl⟩
    have hlast := ((hstring .unused [1] [0, 0]).1.in_vain v hcall hv 2).returned x hx
    exact ⟨x, hx, by rw [hlast], by rw [hlast]; exact hcalls⟩
  · obtain ⟨v, v', hcall, hv, hnext, hv', hcalls⟩ : ∃ v v', Io.CompressCall insatiableEncoder
        true 1 2 3 (Io.enter ⟨0, 0, []⟩ (.opened [1, 2] []) [0] (.opened []) [0, 0]) .process v ∧
        Io.CompressInVain insatiableEncoder 2 .process v ∧
        Io.compressLoopBody insatiableEncoder true 2 .process v = some (.next v') ∧
        Io.CompressInVain insatiableEncoder 2 .process v' ∧
        (Io.streamed insatiableEncoder.toCodec .process v'.sourceLength 2 v').coder.calls.length =
          3 :=
      ⟨_, _, .process ⟨_, .read (.round .start rfl) rfl, .start⟩, ⟨rfl, rfl, rfl⟩, rfl,
        ⟨rfl, rfl, rfl⟩, rfl⟩
    obtain ⟨x, hx⟩ : ∃ x, Io.compress insatiableEncoder true 1 2 3 ⟨0, 0, []⟩
      (.opened [1, 2] []) [0] (.opened []) [0, 0] = some x := ⟨_, rfl⟩
    have hlast := ((hio (.opened [1, 2] []) [0] (.opened []) [0, 0]).1.in_vain_twice 3 .process v
      v' hcall hv hnext hv').returned x hx
    exact ⟨x, hx, by rw [hlast], by rw [hlast]; exact hcalls⟩

end RubyBrs
