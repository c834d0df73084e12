/-
  RubyBrs.Ext.String

  `string.c` up to the two loops that compress and decompress a Ruby string
  into another one, which grows by `destination_buffer_length` bytes whenever
  the library wants more room.

  The local variables are the fields of `Str`; pointers into the source and the
  destination are offsets.
-/

import RubyBrs.Ext.Brotli
import RubyBrs.Ext.Memory
import RubyBrs.Lib.WhileTrue
import RubyBrs.Lib.Window

namespace RubyBrs

open StreamCodec WhileTrue Window

variable {κ σ ω ρ : Type}

/-- The variables of `compress` and `decompress`, with the bytes of
    `source_value` and `destination_value`. -/
structure Str (κ : Type) where
  coder : κ
  memory : Memory
  source : List UInt8
  /-- `remaining_source`, as an offset into the source. -/
  remainingSource : Nat
  remainingSourceLength : Nat
  destinationValue : List UInt8
  destinationLength : Nat
  remainingDestinationBufferLength : Nat

namespace Str

/-- The variables at the start of `compress` and `decompress`. -/
def enter (coder : κ) (memory : Memory) (source destinationValue : List UInt8)
    (destinationBufferLength : Nat) : Str κ :=
  { coder, memory, source
    remainingSource := 0
    remainingSourceLength := source.length
    destinationValue
    destinationLength := 0
    remainingDestinationBufferLength := destinationBufferLength }

/-! ## buffer -/

/-- `increase_destination_buffer`: its result code, or the exception it is left by. -/
def increaseDestinationBuffer (destinationBufferLength : Nat) (s : Str κ) :
    Except RubyError ExtResult × Str κ :=
  if s.remainingDestinationBufferLength = destinationBufferLength then
    -- We want to write more data at once, than buffer has.
    (.ok .notEnoughDestinationBuffer, s)
  else
    match resizeStringBuffer s.memory s.destinationValue
        (s.destinationLength + destinationBufferLength) with
    | (.error e, memory) => (.error e, { s with memory })
    | (.ok none, memory) => (.ok .allocateFailed, { s with memory })
    | (.ok (some destinationValue), memory) =>
        -- The pointers into the string are computed anew, so a move of it does no harm.
        (.ok .ok, { s with
          memory
          destinationValue
          remainingDestinationBufferLength := destinationBufferLength })

/-! ## codec calls -/

/-- The part of the source that is still to be consumed. -/
def sourceWindow (s : Str κ) : List UInt8 :=
  window s.source s.remainingSource s.remainingSourceLength

/-- One call of the library on the remaining source and on the remaining part of
    the destination buffer. -/
def streamWrapper (codec : Codec UInt8 σ ω ρ) (operation : ω) (s : Str (Coder UInt8 σ ω ρ)) :
    Str (Coder UInt8 σ ω ρ) × ρ :=
  let answer := codec.stream s.coder.state operation s.sourceWindow
    s.remainingDestinationBufferLength
  ({ s with
      coder := codec.call s.coder operation s.sourceWindow s.remainingDestinationBufferLength
      remainingSource := s.remainingSource + answer.consumed
      remainingSourceLength := s.remainingSourceLength - answer.consumed
      destinationValue := overwrite s.destinationValue s.destinationLength answer.output
      remainingDestinationBufferLength :=
        s.remainingDestinationBufferLength - answer.output.length },
    answer.result)

/-- How the loop goes on after `increase_destination_buffer`. -/
def roundAgain : Except RubyError ExtResult × Str κ →
    Flow (Str κ) (Except RubyError ExtResult × Str κ)
  -- The exception leaves the loop, and the function that the loop is in.
  | (.error e, s) => .exit (.error e, s)
  | (.ok extResult, s) => if extResult ≠ .ok then .exit (.ok extResult, s) else .next s

/-- The loop body that `compress` and `decompress` share: call the library
    through `wrapper`, leave with the error if there is one, and go round again
    with a longer destination if asked to. -/
def streamBody (wrapper : Str κ → Str κ × ρ) (failure : κ → ρ → Option ExtResult)
    (again : κ → ρ → Bool) (gvl : Bool) (destinationBufferLength : Nat) (s : Str κ) :
    Option (Flow (Str κ) (Except RubyError ExtResult × Str κ)) :=
  let prevRemaining := s.remainingDestinationBufferLength
  let (s, result) := gvlWrap gvl wrapper s
  match failure s.coder result with
  -- An error leaves before the destination length is updated.
  | some extResult => some (.exit (.ok extResult, s))
  | none =>
      let s := { s with
        destinationLength :=
          s.destinationLength + (prevRemaining - s.remainingDestinationBufferLength) }
      if again s.coder result then
        some (roundAgain (s.increaseDestinationBuffer destinationBufferLength))
      else
        some (.exit (.ok .ok, s))

/-- The end of `compress` and `decompress`: `BRS_EXT_RESIZE_STRING_BUFFER` to the
    length of what was written.  When the string cannot be resized, the function
    ends with `failed`. -/
def cutDestination (failed : Except RubyError ExtResult) (s : Str κ) :
    Except RubyError ExtResult × Str κ :=
  match resizeStringBuffer s.memory s.destinationValue s.destinationLength with
  | (.error e, memory) => (.error e, { s with memory })
  | (.ok none, memory) => (failed, { s with memory })
  | (.ok (some destinationValue), memory) => (.ok .ok, { s with memory, destinationValue })

/-- What follows the loop: the destination is cut unless the loop returned an
    error or was left by an exception. -/
def afterLoop (failed : Except RubyError ExtResult) :
    Except RubyError ExtResult × Str κ → Except RubyError ExtResult × Str κ
  | (.error e, s) => (.error e, s)
  | (.ok extResult, s) =>
      if extResult ≠ .ok then (.ok extResult, s) else s.cutDestination failed

@[simp] theorem roundAgain_ok (s : Str κ) : roundAgain (.ok .ok, s) = .next s := rfl

theorem roundAgain_of_ne {r : Except RubyError ExtResult} (hr : r ≠ .ok .ok) (s : Str κ) :
    roundAgain (r, s) = .exit (r, s) := by
  cases r with
  | error e => rfl
  | ok extResult => exact if_pos fun heq => hr (by rw [heq])

/-- The loop goes on with the variables, or is left with the result as it is. -/
theorem roundAgain_cases (x : Except RubyError ExtResult × Str κ) :
    (x.1 = .ok .ok ∧ roundAgain x = .next x.2) ∨ (x.1 ≠ .ok .ok ∧ roundAgain x = .exit x) := by
  obtain ⟨r, s⟩ := x
  by_cases hr : r = .ok .ok
  · subst hr
    exact Or.inl ⟨rfl, rfl⟩
  · exact Or.inr ⟨hr, roundAgain_of_ne hr s⟩

@[simp] theorem afterLoop_ok (failed : Except RubyError ExtResult) (s : Str κ) :
    afterLoop failed (.ok .ok, s) = s.cutDestination failed := rfl

theorem afterLoop_of_ne (failed : Except RubyError ExtResult) {r : Except RubyError ExtResult}
    (hr : r ≠ .ok .ok) (s : Str κ) : afterLoop failed (r, s) = (r, s) := by
  cases r with
  | error e => rfl
  | ok extResult => exact if_pos fun heq => hr (by rw [heq])

/-- The function ended well, so the loop did. -/
theorem afterLoop_eq_ok {failed : Except RubyError ExtResult}
    {y : Except RubyError ExtResult × Str κ} {t : Str κ}
    (h : afterLoop failed y = (.ok .ok, t)) :
    y.1 = .ok .ok ∧ y.2.cutDestination failed = (.ok .ok, t) := by
  obtain ⟨r, s⟩ := y
  by_cases hr : r = .ok .ok
  · subst hr
    exact ⟨rfl, h⟩
  · rw [afterLoop_of_ne failed hr] at h
    exact absurd (Prod.mk.inj h).1 hr

/-! ## compress -/

section Compress

variable (enc : Encoder σ) (gvl : Bool) (destinationBufferLength fuel : Nat)

/-- `compress_wrapper`. -/
def compressWrapper (s : Str (EncoderInstance σ)) : Str (EncoderInstance σ) × Bool :=
  streamWrapper enc.toCodec .finish s

/-- The body of the loop of `compress`. -/
def compressBody :=
  streamBody (compressWrapper enc) encoderFailure
    (fun i _ => enc.hasMoreOutput i.state || !enc.isFinished i.state) gvl
    destinationBufferLength

/-- `compress`: a result code, or the exception it is left by. -/
def compress (coder : EncoderInstance σ) (memory : Memory)
    (source destinationValue : List UInt8) :
    Option (Except RubyError ExtResult × Str (EncoderInstance σ)) :=
  (whileTrue (compressBody enc gvl destinationBufferLength) fuel
      (enter coder memory source destinationValue destinationBufferLength)).map
    (afterLoop (.ok .allocateFailed))

end Compress

/-! ## decompress -/

section Decompress

variable (dec : Decoder σ) (gvl : Bool) (destinationBufferLength fuel : Nat)

/-- `decompress_wrapper`. -/
def decompressWrapper (s : Str (DecoderInstance σ)) : Str (DecoderInstance σ) × DecoderResult :=
  streamWrapper dec.toCodec () s

/-- The body of the loop of `decompress`. -/
def decompressBody :=
  streamBody (decompressWrapper dec) (decoderFailure dec)
    (fun _ result => result == .needsMoreOutput) gvl destinationBufferLength

/-- `decompress`.  Unlike `compress`, it raises by itself when the last resize
    fails. -/
def decompress (coder : DecoderInstance σ) (memory : Memory)
    (source destinationValue : List UInt8) :
    Option (Except RubyError ExtResult × Str (DecoderInstance σ)) :=
  (whileTrue (decompressBody dec gvl destinationBufferLength) fuel
      (enter coder memory source destinationValue destinationBufferLength)).map
    (afterLoop (.error (brsExtRaiseError .allocateFailed)))

end Decompress

end Str

end RubyBrs
