/-
  RubyBrs.Ext.Error

  The result codes of the extension (`common.h`, `error.h`, and the additional
  file result of `io.c`), the decoder's error codes, and how both become Ruby
  exceptions (`error.c`, with the classes of `lib/brs/error.rb`).
-/

import Mathlib.Logic.Basic

namespace RubyBrs

/-- `brs_ext_result_t`: zero, the errors of `error.h`, and
    `BRS_EXT_FILE_READ_FINISHED`. -/
inductive ExtResult where
  | ok
  | allocateFailed
  | validateFailed
  | usedAfterClose
  | notEnoughSourceBuffer
  | notEnoughDestinationBuffer
  | decompressorCorruptedSource
  | accessIo
  | readIo
  | writeIo
  | unexpected
  | fileReadFinished
deriving Repr, DecidableEq

/-- The exception classes the extension raises by name. -/
inductive ErrorClass where
  | allocateError
  | validateError
  | usedAfterCloseError
  | notEnoughSourceBufferError
  | notEnoughDestinationBufferError
  | decompressorCorruptedSourceError
  | accessIoError
  | readIoError
  | writeIoError
  | unexpectedError
deriving Repr, DecidableEq

/-- A raised Ruby exception: one of the library's own with its text, or one
    that the Ruby C API raises by itself. -/
inductive RubyError where
  | brs (errorClass : ErrorClass) (description : String)
  | typeError
  | rangeError
  | noMemoryError
  | closedIoError
deriving Repr, DecidableEq

/-- `brs_ext_raise_error`. -/
def brsExtRaiseError : ExtResult → RubyError
  | .allocateFailed => .brs .allocateError "allocate error"
  | .validateFailed => .brs .validateError "validate error"
  | .usedAfterClose => .brs .usedAfterCloseError "used after closed"
  | .notEnoughSourceBuffer => .brs .notEnoughSourceBufferError "not enough source buffer"
  | .notEnoughDestinationBuffer =>
      .brs .notEnoughDestinationBufferError "not enough destination buffer"
  | .decompressorCorruptedSource =>
      .brs .decompressorCorruptedSourceError "decompressor received corrupted source"
  | .accessIo => .brs .accessIoError "failed to access IO"
  | .readIo => .brs .readIoError "failed to read IO"
  | .writeIo => .brs .writeIoError "failed to write IO"
  -- The `default` branch of the source: `BRS_EXT_ERROR_UNEXPECTED` and any other code.
  | .unexpected => .brs .unexpectedError "unexpected error"
  | .fileReadFinished => .brs .unexpectedError "unexpected error"
  | .ok => .brs .unexpectedError "unexpected error"

/-- A sequence that raised nothing got through both of its parts. -/
theorem bind_ok {α β : Type} {x : Except RubyError α} {f : α → Except RubyError β} {b : β}
    (h : (x >>= f) = .ok b) : ∃ a, x = .ok a ∧ f a = .ok b := by
  cases x with
  | error e => cases h
  | ok a => exact ⟨a, rfl, h⟩

/-- `BrotliDecoderErrorCode`, as far as `error.c` tells the codes apart. -/
inductive DecoderErrorCode where
  | formatExuberantNibble
  | formatReserved
  | formatExuberantMetaNibble
  | formatSimpleHuffmanAlphabet
  | formatSimpleHuffmanSame
  | formatClSpace
  | formatHuffmanSpace
  | formatContextMapRepeat
  | formatBlockLength1
  | formatBlockLength2
  | formatTransform
  | formatDictionary
  | formatWindowBits
  | formatPadding1
  | formatPadding2
  | formatDistance
  | allocContextModes
  | allocTreeGroups
  | allocContextMap
  | allocRingBuffer1
  | allocRingBuffer2
  | allocBlockTypeTrees
  | other
deriving Repr, DecidableEq

/-- `brs_ext_get_decompressor_error`. -/
def brsExtGetDecompressorError : DecoderErrorCode → ExtResult
  | .formatExuberantNibble | .formatReserved | .formatExuberantMetaNibble
  | .formatSimpleHuffmanAlphabet | .formatSimpleHuffmanSame | .formatClSpace
  | .formatHuffmanSpace | .formatContextMapRepeat | .formatBlockLength1
  | .formatBlockLength2 | .formatTransform | .formatDictionary | .formatWindowBits
  | .formatPadding1 | .formatPadding2 | .formatDistance => .decompressorCorruptedSource
  | .allocContextModes | .allocTreeGroups | .allocContextMap | .allocRingBuffer1
  | .allocRingBuffer2 | .allocBlockTypeTrees => .allocateFailed
  | .other => .unexpected

/-- A decoder error is never taken for success or for the end of a file. -/
theorem brsExtGetDecompressorError_ne (code : DecoderErrorCode) :
    brsExtGetDecompressorError code ≠ .ok ∧
      brsExtGetDecompressorError code ≠ .fileReadFinished := by
  cases code <;> exact ⟨by decide, by decide⟩

end RubyBrs
