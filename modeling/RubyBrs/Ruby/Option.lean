/-
  RubyBrs.Ruby.Option

  `lib/brs/option.rb` and `lib/brs/validation.rb`, and the options that
  `BRS::String.compress` and `BRS::File.compress` hand on.

  The validators of the `adsp` gem, which these build on, are a parameter;
  `Adsp.Documented` says what they accept.
-/

import RubyBrs.Ruby.Value

namespace RubyBrs
namespace Ruby

/-- What the `adsp` gem provides: its validators, which raise or do nothing, and
    the names of the buffer lengths of its classes. -/
structure Adsp where
  validateHash : Argument → Except RubyError Unit
  validateString : Value → Except RubyError Unit
  validateSymbol : Value → Except RubyError Unit
  validateNotNegativeInteger : Value → Except RubyError Unit
  stringBufferLengthNames : List Value
  fileBufferLengthNames : List Value

/-- The documented behaviour of the validators. -/
structure Adsp.Documented (adsp : Adsp) : Prop where
  hash : ∀ options, adsp.validateHash options = .ok () ↔ ∃ h, options = .hash h
  string : ∀ value, adsp.validateString value = .ok () ↔ ∃ bytes, value = .string bytes
  symbol : ∀ value, adsp.validateSymbol value = .ok () ↔ ∃ name, value = .symbol name
  notNegativeInteger : ∀ value, adsp.validateNotNegativeInteger value = .ok () ↔
    ∃ n : Int, value = .integer n ∧ 0 ≤ n

/-- `raise ValidateError, description`. -/
def raiseValidateError {α : Type} (description : String) : Except RubyError α :=
  .error (.brs .validateError description)

/-- The validators as the gem has them, and the names that it has. -/
def Adsp.gem : Adsp where
  validateHash
    | .hash _ => .ok ()
    | .value _ => raiseValidateError "invalid hash"
  validateString
    | .string _ => .ok ()
    | _ => raiseValidateError "invalid string"
  validateSymbol
    | .symbol _ => .ok ()
    | _ => raiseValidateError "invalid symbol"
  validateNotNegativeInteger
    | .integer n => if 0 ≤ n then .ok () else raiseValidateError "invalid not negative integer"
    | _ => raiseValidateError "invalid not negative integer"
  stringBufferLengthNames := [.symbol "destination_buffer_length"]
  fileBufferLengthNames := [.symbol "source_buffer_length", .symbol "destination_buffer_length"]

theorem Adsp.gem_documented : Adsp.gem.Documented where
  hash options := by cases options <;> simp [gem, raiseValidateError]
  string value := by cases value <;> simp [gem, raiseValidateError]
  symbol value := by cases value <;> simp [gem, raiseValidateError]
  notNegativeInteger value := by cases value <;> simp [gem, raiseValidateError]

/-- `Validation.validate_bool`. -/
def validateBool (value : Value) : Except RubyError Unit :=
  if value = .true ∨ value = .false then .ok () else raiseValidateError "invalid bool"

/-! ## Constants -/

/-- `MODES`. -/
def modes : List Value := [.symbol "text", .symbol "font", .symbol "generic"]

def minQuality : Int := 0
def maxQuality : Int := 11
def minLgwin : Int := 10
def maxLgwin : Int := 24
def minLgblock : Int := 16
def maxLgblock : Int := 24
def minNpostfix : Int := 0
def maxNpostfix : Int := 3
def minNdirect : Int := 0
def maxNdirect : Int := 15 <<< 3
def ndirectNpostfixStepBase : Int := 1
def ndirectNpostfixMaxBase : Int := 15

/-- `DEFAULT_BUFFER_LENGTH`. -/
def defaultBufferLength : Value := .integer 0

/-- `COMPRESSOR_DEFAULTS`. -/
def compressorDefaults : Hash :=
  Hash.ofSymbols [("gvl", .false), ("mode", .nil), ("quality", .nil), ("lgwin", .nil),
    ("lgblock", .nil), ("npostfix", .nil), ("ndirect", .nil),
    ("disable_literal_context_modeling", .nil), ("large_window", .nil)]

/-- `DECOMPRESSOR_DEFAULTS`. -/
def decompressorDefaults : Hash :=
  Hash.ofSymbols [("gvl", .false), ("disable_ring_buffer_reallocation", .nil),
    ("large_window", .nil)]

/-! ## Processing options -/

section Processing

variable (adsp : Adsp)

/-- `unless value.nil?`. -/
def unlessNil (value : Value) (check : Value → Except RubyError Unit) : Except RubyError Unit :=
  if value = .nil then .ok () else check value

/-- The integer that a value compared with `<` and `>` has to be. -/
def comparable : Value → Except RubyError Int
  | .integer n => .ok n
  | _ => .error .typeError

/-- The check of an integer option against its bounds. -/
def validateBounds (min max : Int) (description : String) (value : Value) :
    Except RubyError Unit := do
  adsp.validateNotNegativeInteger value
  let n ← comparable value
  if n < min ∨ max < n then raiseValidateError description

/-- `options = DEFAULTS.merge(buffer_length_defaults).merge options`, after
    `validate_hash`. -/
def mergeDefaults (defaults : Hash) (options : Argument) (bufferLengthNames : List Value) :
    Except RubyError Hash := do
  adsp.validateHash options
  let bufferLengthDefaults := bufferLengthNames.foldl
    (fun defaults name => defaults.set name defaultBufferLength) Hash.empty
  match options with
  | .hash options => return (defaults.merge bufferLengthDefaults).merge options
  | .value _ => throw .typeError

/-- The check of `ndirect` against `npostfix`, when both are given. -/
def validateNdirectNpostfix (ndirect npostfix : Value) : Except RubyError Unit := do
  let n ← comparable ndirect
  let p ← comparable npostfix
  if (n - minNdirect) % (ndirectNpostfixStepBase <<< p.toNat) ≠ 0 ∨
      ndirectNpostfixMaxBase <<< p.toNat < n - minNdirect then
    raiseValidateError "invalid ndirect"

/-- `Option.get_compressor_options`. -/
def getCompressorOptions (options : Argument) (bufferLengthNames : List Value) :
    Except RubyError Hash := do
  let options ← mergeDefaults adsp compressorDefaults options bufferLengthNames
  bufferLengthNames.forM fun name => adsp.validateNotNegativeInteger (options.get name)
  validateBool (options.get (.symbol "gvl"))
  unlessNil (options.get (.symbol "mode")) fun mode => do
    adsp.validateSymbol mode
    if mode ∉ modes then raiseValidateError "invalid mode"
  unlessNil (options.get (.symbol "quality")) <|
    validateBounds adsp minQuality maxQuality "invalid quality"
  unlessNil (options.get (.symbol "lgwin")) <|
    validateBounds adsp minLgwin maxLgwin "invalid lgwin"
  unlessNil (options.get (.symbol "lgblock")) <|
    validateBounds adsp minLgblock maxLgblock "invalid lgblock"
  let npostfix := options.get (.symbol "npostfix")
  unlessNil npostfix <| validateBounds adsp minNpostfix maxNpostfix "invalid npostfix"
  unlessNil (options.get (.symbol "ndirect")) fun ndirect => do
    validateBounds adsp minNdirect maxNdirect "invalid ndirect" ndirect
    -- `ndirect` is checked against `npostfix` only when both are given.
    unlessNil npostfix <| validateNdirectNpostfix ndirect
  unlessNil (options.get (.symbol "disable_literal_context_modeling")) validateBool
  unlessNil (options.get (.symbol "large_window")) validateBool
  return options

/-- `Option.get_decompressor_options`. -/
def getDecompressorOptions (options : Argument) (bufferLengthNames : List Value) :
    Except RubyError Hash := do
  let options ← mergeDefaults adsp decompressorDefaults options bufferLengthNames
  bufferLengthNames.forM fun name => adsp.validateNotNegativeInteger (options.get name)
  validateBool (options.get (.symbol "gvl"))
  unlessNil (options.get (.symbol "disable_ring_buffer_reallocation")) validateBool
  unlessNil (options.get (.symbol "large_window")) validateBool
  return options

/-- The options that `BRS::String.compress` passes to its superclass. -/
def stringCompressOptions (source : Value) (options : Argument) : Except RubyError Hash := do
  adsp.validateString source
  let options ← getCompressorOptions adsp options adsp.stringBufferLengthNames
  match source with
  -- The hint is added after the checks, and is not checked itself.
  | .string bytes => return options.set (.symbol "size_hint") (.integer bytes.length)
  | _ => throw .typeError

/-- The options that `BRS::File.compress` passes to its superclass, for a source
    path of a file of `size` bytes. -/
def fileCompressOptions (source : Value) (size : Nat) (options : Argument) :
    Except RubyError Hash := do
  adsp.validateString source
  let options ← getCompressorOptions adsp options adsp.fileBufferLengthNames
  return options.set (.symbol "size_hint") (.integer size)

end Processing

end Ruby
end RubyBrs
