/-
  RubyBrs.Ext.Io

  `io.c` up to the two loops that compress and decompress a file through a pair
  of fixed buffers.  The local variables that the functions pass to each other
  by pointer are the fields of `Io`; the buffer lengths stay parameters.

  A pointer into a buffer is its offset, and the memory behind a pointer is the
  whole buffer, so what a call finds outside its window is modelled too.
-/

import RubyBrs.Ext.Brotli
import RubyBrs.Ext.Stdio
import RubyBrs.Lib.WhileTrue
import RubyBrs.Lib.Window

namespace RubyBrs

open StreamCodec WhileTrue Window

variable {κ σ ω ρ : Type}

/-- The variables of `compress` and `decompress`: the instance behind
    `state_ptr`, both files, both buffers, and the cursors into them. -/
structure Io (κ : Type) where
  coder : κ
  sourceFile : SourceFile
  sourceBuffer : List UInt8
  /-- `source`, as an offset into `source_buffer`. -/
  source : Nat
  sourceLength : Nat
  destinationFile : DestinationFile
  destinationBuffer : List UInt8
  destinationLength : Nat

namespace Io

/-! ## file -/

/-- `read_file`: the result, the bytes read (their number is stored in
    `*source_length_ptr` only on success), and the file. -/
def readFile (sourceFile : SourceFile) (sourceBufferLength : Nat) :
    ExtResult × List UInt8 × SourceFile :=
  let (bytes, sourceFile) := sourceFile.fread sourceBufferLength
  -- A short read is an error only when the error flag is set.
  if bytes.length = 0 ∧ sourceFile.eof then
    (.fileReadFinished, bytes, sourceFile)
  else if bytes.length ≠ sourceBufferLength ∧ sourceFile.error then
    (.readIo, bytes, sourceFile)
  else
    (.ok, bytes, sourceFile)

/-- `write_file`. -/
def writeFile (destinationFile : DestinationFile) (destinationBuffer : List UInt8)
    (destinationLength : Nat) : ExtResult × DestinationFile :=
  let (writtenLength, destinationFile) :=
    destinationFile.fwrite (destinationBuffer.take destinationLength)
  if writtenLength ≠ destinationLength then
    (.writeIo, destinationFile)
  else
    (.ok, destinationFile)

/-! ## buffer -/

/-- The first half of `read_more_source`: the remaining source is moved to the
    top of the source buffer. -/
def compactSource (w : Io κ) : Io κ :=
  if w.source ≠ 0 then
    { w with
      sourceBuffer :=
        if w.sourceLength ≠ 0 then
          memmove w.sourceBuffer 0 w.source w.sourceLength
        else
          w.sourceBuffer
      source := 0 }
  else
    w

/-- `read_more_source`. -/
def readMoreSource (sourceBufferLength : Nat) (w : Io κ) : ExtResult × Io κ :=
  let w := w.compactSource
  let remainingSourceBufferLength := sourceBufferLength - w.sourceLength
  if remainingSourceBufferLength = 0 then
    -- We want to read more data at once, than buffer has.
    (.notEnoughSourceBuffer, w)
  else
    let (extResult, bytes, sourceFile) := readFile w.sourceFile remainingSourceBufferLength
    let w :=
      { w with
        sourceFile := sourceFile
        sourceBuffer := overwrite w.sourceBuffer w.sourceLength bytes }
    if extResult ≠ .ok then
      (extResult, w)
    else
      (.ok, { w with sourceLength := w.sourceLength + bytes.length })

/-- `flush_destination_buffer`. -/
def flushDestinationBuffer (w : Io κ) : ExtResult × Io κ :=
  if w.destinationLength = 0 then
    -- We want to write more data at once, than buffer has.
    (.notEnoughDestinationBuffer, w)
  else
    let (extResult, destinationFile) :=
      writeFile w.destinationFile w.destinationBuffer w.destinationLength
    -- The buffer is reset to its top only after the whole of it was written.
    let w := { w with destinationFile := destinationFile }
    if extResult ≠ .ok then
      (extResult, w)
    else
      (.ok, { w with destinationLength := 0 })

/-- `write_remaining_destination`. -/
def writeRemainingDestination (w : Io κ) : ExtResult × Io κ :=
  if w.destinationLength = 0 then
    (.ok, w)
  else
    let (extResult, destinationFile) :=
      writeFile w.destinationFile w.destinationBuffer w.destinationLength
    (extResult, { w with destinationFile := destinationFile })

/-- The part of the source buffer that is still to be consumed. -/
def sourceWindow (w : Io κ) : List UInt8 := window w.sourceBuffer w.source w.sourceLength

/-- The body of the `while` loop of `BUFFERED_READ_SOURCE`; the state is
    `is_function_called` and the variables of the caller. -/
def bufferedReadSourceBody (function : Io κ → Option (ExtResult × Io κ))
    (sourceBufferLength : Nat) :
    Bool × Io κ → Option (Flow (Bool × Io κ) (ExtResult × Bool × Io κ))
  | (isFunctionCalled, w) =>
      let (extResult, w) := w.readMoreSource sourceBufferLength
      if extResult = .fileReadFinished then
        if w.sourceLength ≠ 0 then
          -- Brotli won't provide any remainder by design.
          some (.exit (.readIo, isFunctionCalled, w))
        else
          some (.exit (.ok, isFunctionCalled, w))
      else if extResult ≠ .ok then
        some (.exit (extResult, isFunctionCalled, w))
      else
        (function w).map fun (extResult, w) =>
          if extResult ≠ .ok then
            .exit (extResult, isFunctionCalled, w)
          else
            .next (true, w)

/-- `BUFFERED_READ_SOURCE`; any result but `ok` is returned by the function that
    uses the macro. -/
def bufferedReadSource (function : Io κ → Option (ExtResult × Io κ))
    (sourceBufferLength fuel : Nat) (w : Io κ) : Option (ExtResult × Io κ) :=
  (whileTrue (bufferedReadSourceBody function sourceBufferLength) fuel (false, w)).bind
    fun (extResult, isFunctionCalled, w) =>
      if extResult ≠ .ok then
        some (extResult, w)
      else if !isFunctionCalled then
        -- Function should be called at least once.
        function w
      else
        some (.ok, w)

/-! ## codec calls -/

/-- One call of the library on the first `offered` bytes of the source and on the
    remaining part of the destination buffer: the variables afterwards, what is
    left of the remaining length, and the answer. -/
def streamWrapper (codec : Codec UInt8 σ ω ρ) (operation : ω)
    (offered remainingDestinationBufferLength : Nat) (w : Io (Coder UInt8 σ ω ρ)) :
    Io (Coder UInt8 σ ω ρ) × Nat × ρ :=
  let input := window w.sourceBuffer w.source offered
  let answer := codec.stream w.coder.state operation input remainingDestinationBufferLength
  ({ w with
      coder := codec.call w.coder operation input remainingDestinationBufferLength
      source := w.source + answer.consumed
      sourceLength := w.sourceLength - answer.consumed
      destinationBuffer := overwrite w.destinationBuffer w.destinationLength answer.output },
    remainingDestinationBufferLength - answer.output.length, answer.result)

/-- The loop body that `buffered_compress`, `buffered_compressor_finish` and
    `buffered_decompress` share: call the library through `wrapper`, leave with
    the error if there is one, and go round again after a flush if asked to. -/
def bufferedBody (wrapper : Nat → Io κ → Io κ × Nat × ρ) (failure : κ → ρ → Option ExtResult)
    (again : κ → ρ → Bool) (gvl : Bool) (destinationBufferLength : Nat) (w : Io κ) :
    Option (Flow (Io κ) (ExtResult × Io κ)) :=
  -- `prev_remaining_destination_buffer_length`; the wrapper lowers its copy.
  let prevRemaining := destinationBufferLength - w.destinationLength
  let (w, remaining, result) := gvlWrap gvl (wrapper prevRemaining) w
  match failure w.coder result with
  -- An error leaves before the destination length is updated.
  | some extResult => some (.exit (extResult, w))
  | none =>
      let w := { w with destinationLength := w.destinationLength + (prevRemaining - remaining) }
      if again w.coder result then
        let (extResult, w) := w.flushDestinationBuffer
        if extResult ≠ .ok then
          some (.exit (extResult, w))
        else
          some (.next w)
      else
        some (.exit (.ok, w))

section Compress

variable (enc : Encoder σ) (gvl : Bool) (sourceBufferLength destinationBufferLength fuel : Nat)

/-! ## buffered compress -/

/-- `compress_wrapper`. -/
def compressWrapper (remaining : Nat) (w : Io (EncoderInstance σ)) :
    Io (EncoderInstance σ) × Nat × Bool :=
  streamWrapper enc.toCodec .process w.sourceLength remaining w

/-- The body of the loop of `buffered_compress`. -/
def bufferedCompressBody :=
  bufferedBody (compressWrapper enc) encoderFailure
    (fun i _ => enc.hasMoreOutput i.state) gvl destinationBufferLength

/-- `buffered_compress`. -/
def bufferedCompress (w : Io (EncoderInstance σ)) :
    Option (ExtResult × Io (EncoderInstance σ)) :=
  whileTrue (bufferedCompressBody enc gvl destinationBufferLength) fuel w

/-! ## buffered compressor finish -/

/-- `compressor_finish_wrapper`: its source is `NULL` with length zero, so nothing
    is offered and the source cursor stays. -/
def compressorFinishWrapper (remaining : Nat) (w : Io (EncoderInstance σ)) :
    Io (EncoderInstance σ) × Nat × Bool :=
  streamWrapper enc.toCodec .finish 0 remaining w

/-- The body of the loop of `buffered_compressor_finish`. -/
def bufferedCompressorFinishBody :=
  bufferedBody (compressorFinishWrapper enc) encoderFailure
    (fun i _ => enc.hasMoreOutput i.state || !enc.isFinished i.state) gvl
    destinationBufferLength

/-- `buffered_compressor_finish`. -/
def bufferedCompressorFinish (w : Io (EncoderInstance σ)) :
    Option (ExtResult × Io (EncoderInstance σ)) :=
  whileTrue (bufferedCompressorFinishBody enc gvl destinationBufferLength) fuel w

/-! ## compress -/

/-- `compress`. -/
def compress (coder : EncoderInstance σ) (sourceFile : SourceFile)
    (sourceBuffer : List UInt8) (destinationFile : DestinationFile)
    (destinationBuffer : List UInt8) : Option (ExtResult × Io (EncoderInstance σ)) :=
  let w : Io (EncoderInstance σ) :=
    { coder, sourceFile, sourceBuffer, source := 0, sourceLength := 0, destinationFile,
      destinationBuffer, destinationLength := 0 }
  (bufferedReadSource (bufferedCompress enc gvl destinationBufferLength fuel)
      sourceBufferLength fuel w).bind fun (extResult, w) =>
    if extResult ≠ .ok then
      some (extResult, w)
    else
      (bufferedCompressorFinish enc gvl destinationBufferLength fuel w).map
        fun (extResult, w) =>
          if extResult ≠ .ok then
            (extResult, w)
          else
            w.writeRemainingDestination

end Compress

section Decompress

variable (dec : Decoder σ) (gvl : Bool) (sourceBufferLength destinationBufferLength fuel : Nat)

/-! ## buffered decompress -/

/-- `decompress_wrapper`. -/
def decompressWrapper (remaining : Nat) (w : Io (DecoderInstance σ)) :
    Io (DecoderInstance σ) × Nat × DecoderResult :=
  streamWrapper dec.toCodec () w.sourceLength remaining w

/-- The body of the loop of `buffered_decompress`. -/
def bufferedDecompressBody :=
  bufferedBody (decompressWrapper dec) (decoderFailure dec)
    (fun _ result => result == .needsMoreOutput) gvl destinationBufferLength

/-- `buffered_decompress`. -/
def bufferedDecompress (w : Io (DecoderInstance σ)) :
    Option (ExtResult × Io (DecoderInstance σ)) :=
  whileTrue (bufferedDecompressBody dec gvl destinationBufferLength) fuel w

/-! ## decompress -/

/-- `decompress`. -/
def decompress (coder : DecoderInstance σ) (sourceFile : SourceFile)
    (sourceBuffer : List UInt8) (destinationFile : DestinationFile)
    (destinationBuffer : List UInt8) : Option (ExtResult × Io (DecoderInstance σ)) :=
  let w : Io (DecoderInstance σ) :=
    { coder, sourceFile, sourceBuffer, source := 0, sourceLength := 0, destinationFile,
      destinationBuffer, destinationLength := 0 }
  (bufferedReadSource (bufferedDecompress dec gvl destinationBufferLength fuel)
      sourceBufferLength fuel w).map fun (extResult, w) =>
    if extResult ≠ .ok then
      (extResult, w)
    else
      w.writeRemainingDestination

end Decompress

end Io

end RubyBrs
