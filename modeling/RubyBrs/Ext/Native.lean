/-
  RubyBrs.Ext.Native

  The one-shot functions that the extension defines for Ruby, in `string.c` and
  `io.c`: they check their arguments, create and configure a codec instance,
  allocate the buffers, run the loops, and release what they hold.

  Each returns an `Exit`: the Ruby value or exception it is left by, and what it
  leaves behind.
-/

import RubyBrs.Ext.Io
import RubyBrs.Ext.Option
import RubyBrs.Ext.String

namespace RubyBrs

open StreamCodec

variable {σ ω ρ θ : Type}

/-! ## Arguments -/

/-- `Check_Type(value, T_STRING)`. -/
def checkString : Argument → Except RubyError (List UInt8)
  | .value (.string bytes) => .ok bytes
  | _ => .error .typeError

/-- `Check_Type(value, T_HASH)`. -/
def checkHash : Argument → Except RubyError Hash
  | .hash h => .ok h
  | .value _ => .error .typeError

/-- An argument that should be an open file. -/
inductive FileArgument (φ : Type) where
  | notFile
  | closed
  /-- `rb_io_stdio_file` fails. -/
  | inaccessible
  | file (f : φ)

/-- `GET_FILE`. -/
def getFile {φ : Type} : FileArgument φ → Except RubyError φ
  | .notFile => .error .typeError
  | .closed => .error .closedIoError
  | .inaccessible => .error (brsExtRaiseError .accessIo)
  | .file f => .ok f

/-- The options of a string function, in the order they are read. -/
structure StringOptions (θ : Type) where
  destinationBufferLength : Nat
  gvl : Bool
  codec : θ

def getStringOptions {θ : Type} (getCodecOptions : Hash → Except RubyError θ) (options : Hash) :
    Except RubyError (StringOptions θ) := do
  let destinationBufferLength ← brsExtGetSizeOptionValue options "destination_buffer_length"
  let gvl ← brsExtGetBoolOptionValue options "gvl"
  let codec ← getCodecOptions options
  return { destinationBufferLength, gvl, codec }

/-- The options of a file function, in the order they are read. -/
structure IoOptions (θ : Type) extends StringOptions θ where
  sourceBufferLength : Nat

def getIoOptions {θ : Type} (getCodecOptions : Hash → Except RubyError θ) (options : Hash) :
    Except RubyError (IoOptions θ) := do
  let sourceBufferLength ← brsExtGetSizeOptionValue options "source_buffer_length"
  let rest ← getStringOptions getCodecOptions options
  return { rest with sourceBufferLength }

/-- Options with buffers of one byte, and no codec options. -/
def oneByteOptions : Hash :=
  Hash.ofSymbols [("source_buffer_length", .integer 1), ("destination_buffer_length", .integer 1),
    ("gvl", .false)]

/-- The same for a string function, which has no source buffer. -/
def oneByteStringOptions : Hash :=
  Hash.ofSymbols [("destination_buffer_length", .integer 1), ("gvl", .false)]

/-- A length of zero stands for the default. -/
def orDefault (length default : Nat) : Nat := if length = 0 then default else length

/-! ## Instances and buffers -/

/-- `Brotli…CreateInstance` and the setting of its options. -/
def createCoder (create : σ) (setOptions : σ → ExtResult × σ) (m : Memory) :
    Except RubyError (Coder UInt8 σ ω ρ) × Memory :=
  match m.allocate with
  | (none, m) => (.error (brsExtRaiseError .allocateFailed), m)
  | (some handle, m) =>
      match setOptions create with
      -- An option that is refused destroys the instance before the error is raised.
      | (.ok, s) => (.ok ⟨handle, s, []⟩, m)
      | (extResult, _) => (.error (brsExtRaiseError extResult), m.release handle)

/-- A `malloc`ed buffer. -/
structure Buffer where
  handle : Nat
  bytes : List UInt8

/-- `malloc(length)`. -/
def mallocBuffer (m : Memory) (length : Nat) : Option Buffer × Memory :=
  (m.allocate.1.map fun handle => ⟨handle, m.fresh length⟩, m.allocate.2)

/-- `create_buffers`. -/
def createBuffers (m : Memory) (sourceBufferLength destinationBufferLength : Nat) :
    Option (Buffer × Buffer) × Memory :=
  match mallocBuffer m sourceBufferLength with
  | (none, m) => (none, m)
  | (some sourceBuffer, m) =>
      match mallocBuffer m destinationBufferLength with
      | (none, m) => (none, m.release sourceBuffer.handle)
      | (some destinationBuffer, m) => (some (sourceBuffer, destinationBuffer), m)

/-! ## string -/

/-- How a native function is left. -/
structure Exit (α κ : Type) where
  outcome : Except RubyError α
  memory : Memory
  /-- The codec instance after its last call, if it came to that. -/
  coder : Option κ

/-- What `brs_ext_compress_string` and `brs_ext_decompress_string` share: `run` is
    `compress` or `decompress`, which may be left by an exception, and then the
    instance is not destroyed. -/
def stringCall (getCodecOptions : Hash → Except RubyError θ) (create : σ)
    (setOptions : σ → θ → ExtResult × σ) (defaultDestinationBufferLength : Nat)
    (run : Bool → Nat → Coder UInt8 σ ω ρ → Memory → List UInt8 → List UInt8 →
      Option (Except RubyError ExtResult × Str (Coder UInt8 σ ω ρ)))
    (m : Memory) (sourceValue options : Argument) :
    Option (Exit (List UInt8) (Coder UInt8 σ ω ρ)) :=
  match (do
      let source ← checkString sourceValue
      let options ← getStringOptions getCodecOptions (← checkHash options)
      return (source, options) : Except RubyError _) with
  | .error e => some ⟨.error e, m, none⟩
  | .ok (source, options) =>
      match createCoder create (setOptions · options.codec) m with
      | (.error e, m) => some ⟨.error e, m, none⟩
      | (.ok coder, m) =>
          let destinationBufferLength :=
            orDefault options.destinationBufferLength defaultDestinationBufferLength
          match createStringBuffer m destinationBufferLength with
          | (none, m) =>
              some ⟨.error (brsExtRaiseError .allocateFailed), m.release coder.handle, none⟩
          | (some destinationValue, m) =>
              (run options.gvl destinationBufferLength coder m source destinationValue).map fun
                -- The exception passes over the call that would destroy the instance.
                | (.error e, s) => ⟨.error e, s.memory, some s.coder⟩
                | (.ok extResult, s) =>
                    { outcome :=
                        if extResult ≠ .ok then
                          .error (brsExtRaiseError extResult)
                        else
                          .ok s.destinationValue
                      memory := s.memory.release coder.handle
                      coder := some s.coder }

/-- `brs_ext_compress_string`. -/
def brsExtCompressString (enc : Encoder σ) (fuel : Nat) :
    Memory → Argument → Argument → Option (Exit (List UInt8) (EncoderInstance σ)) :=
  stringCall getCompressorOptions enc.create (brsExtSetCompressorOptions enc)
    defaultDestinationBufferLengthForCompressor
    fun gvl destinationBufferLength => Str.compress enc gvl destinationBufferLength fuel

/-- `brs_ext_decompress_string`. -/
def brsExtDecompressString (dec : Decoder σ) (fuel : Nat) :
    Memory → Argument → Argument → Option (Exit (List UInt8) (DecoderInstance σ)) :=
  stringCall getDecompressorOptions dec.create (brsExtSetDecompressorOptions dec)
    defaultDestinationBufferLengthForDecompressor
    fun gvl destinationBufferLength => Str.decompress dec gvl destinationBufferLength fuel

/-! ## io -/

/-- How a native function on files is left. -/
structure IoExit (κ : Type) extends Exit Unit κ where
  destinationFile : Option DestinationFile
  /-- The destination as the loops left it, if it came to the closing `fflush`. -/
  closing : Option DestinationFile

/-- The exit of a file function that raised before it touched the files. -/
def IoExit.early {κ : Type} (e : RubyError) (m : Memory)
    (destination : FileArgument DestinationFile) : IoExit κ :=
  { outcome := .error e
    memory := m
    coder := none
    destinationFile := (getFile destination).toOption
    closing := none }

/-- The end of the file functions: release everything, then raise, or flush the
    destination and return `nil`. -/
def IoExit.finish {κ : Type} (extResult : ExtResult) (w : Io κ) (m : Memory)
    (sourceBuffer destinationBuffer : Buffer) (handle : Nat) : IoExit κ :=
  let m := ((m.release sourceBuffer.handle).release destinationBuffer.handle).release handle
  if extResult ≠ .ok then
    { outcome := .error (brsExtRaiseError extResult)
      memory := m
      coder := some w.coder
      destinationFile := some w.destinationFile
      closing := none }
  else
    -- Ruby itself won't flush stdio file before closing fd, flush is required.
    -- What `fflush` returns is not looked at.
    { outcome := .ok ()
      memory := m
      coder := some w.coder
      destinationFile := some w.destinationFile.fflush.2
      closing := some w.destinationFile }

/-- What `brs_ext_compress_io` and `brs_ext_decompress_io` share: `run` is
    `compress` or `decompress`. -/
def ioCall (getCodecOptions : Hash → Except RubyError θ) (create : σ)
    (setOptions : σ → θ → ExtResult × σ)
    (defaultSourceBufferLength defaultDestinationBufferLength : Nat)
    (run : Bool → Nat → Nat → Coder UInt8 σ ω ρ → SourceFile → List UInt8 → DestinationFile →
      List UInt8 → Option (ExtResult × Io (Coder UInt8 σ ω ρ)))
    (m : Memory) (source : FileArgument SourceFile)
    (destination : FileArgument DestinationFile) (options : Argument) :
    Option (IoExit (Coder UInt8 σ ω ρ)) :=
  match (do
      let sourceFile ← getFile source
      let destinationFile ← getFile destination
      let options ← getIoOptions getCodecOptions (← checkHash options)
      return (sourceFile, destinationFile, options) : Except RubyError _) with
  | .error e => some (.early e m destination)
  | .ok (sourceFile, destinationFile, options) =>
      match createCoder create (setOptions · options.codec) m with
      | (.error e, m) => some (.early e m destination)
      | (.ok coder, m) =>
          let sourceBufferLength :=
            orDefault options.sourceBufferLength defaultSourceBufferLength
          let destinationBufferLength :=
            orDefault options.destinationBufferLength defaultDestinationBufferLength
          match createBuffers m sourceBufferLength destinationBufferLength with
          | (none, m) =>
              some (.early (brsExtRaiseError .allocateFailed) (m.release coder.handle)
                destination)
          | (some (sourceBuffer, destinationBuffer), m) =>
              (run options.gvl sourceBufferLength destinationBufferLength coder sourceFile
                  sourceBuffer.bytes destinationFile destinationBuffer.bytes).map
                fun (extResult, w) =>
                  .finish extResult w m sourceBuffer destinationBuffer coder.handle

/-- `brs_ext_compress_io`. -/
def brsExtCompressIo (enc : Encoder σ) (fuel : Nat) :
    Memory → FileArgument SourceFile → FileArgument DestinationFile → Argument →
      Option (IoExit (EncoderInstance σ)) :=
  ioCall getCompressorOptions enc.create (brsExtSetCompressorOptions enc)
    defaultSourceBufferLengthForCompressor defaultDestinationBufferLengthForCompressor
    fun gvl sourceBufferLength destinationBufferLength =>
      Io.compress enc gvl sourceBufferLength destinationBufferLength fuel

/-- `brs_ext_decompress_io`. -/
def brsExtDecompressIo (dec : Decoder σ) (fuel : Nat) :
    Memory → FileArgument SourceFile → FileArgument DestinationFile → Argument →
      Option (IoExit (DecoderInstance σ)) :=
  ioCall getDecompressorOptions dec.create (brsExtSetDecompressorOptions dec)
    defaultSourceBufferLengthForDecompressor defaultDestinationBufferLengthForDecompressor
    fun gvl sourceBufferLength destinationBufferLength =>
      Io.decompress dec gvl sourceBufferLength destinationBufferLength fuel

end RubyBrs
