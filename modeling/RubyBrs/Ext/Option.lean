/-
  RubyBrs.Ext.Option

  `option.c` and the macros of `option.h`: reading the options out of a Ruby
  hash, and setting them on a new codec instance.  An option that the hash does
  not have, or has as `nil`, is not set.
-/

import RubyBrs.Ext.Brotli
import RubyBrs.Ruby.Value

namespace RubyBrs

/-! ## values -/

/-- `get_raw_value`. -/
def getRawValue (options : Hash) (name : String) : Value := options.get (.symbol name)

/-- `get_bool_value`. -/
def getBoolValue : Value → Except RubyError Bool
  | .true => .ok true
  | .false => .ok false
  | _ => .error (brsExtRaiseError .validateFailed)

/-- `get_uint_value`. -/
def getUintValue (rawValue : Value) : Except RubyError UInt32 := do
  num2uint (← checkFixnum rawValue)

/-- `get_size_value`. -/
def getSizeValue (rawValue : Value) : Except RubyError Nat := do
  return num2sizet (← checkFixnum rawValue)

/-- `get_mode_value`: the codes of `BrotliEncoderMode`. -/
def getModeValue : Value → Except RubyError UInt32
  | .symbol name =>
      if name = "text" then
        .ok 1
      else if name = "font" then
        .ok 2
      else if name = "generic" then
        .ok 0
      else
        .error (brsExtRaiseError .validateFailed)
  | _ => .error .typeError

/-- `brs_ext_option_type_t`. -/
inductive OptionType where
  | bool
  | uint
  | mode
deriving Repr, DecidableEq

/-- The conversion that `brs_ext_resolve_option` makes of a value that is not
    `nil`. -/
def resolveValue : OptionType → Value → Except RubyError UInt32
  | .bool, rawValue => do return if ← getBoolValue rawValue then 1 else 0
  | .uint, rawValue => getUintValue rawValue
  | .mode, rawValue => getModeValue rawValue

/-- `brs_ext_resolve_option`; `none` stands for `has_value == false`. -/
def brsExtResolveOption (options : Hash) (type : OptionType) (name : String) :
    Except RubyError (Option UInt32) :=
  let rawValue := getRawValue options name
  if rawValue = .nil then
    .ok none
  else
    (resolveValue type rawValue).map some

/-- `brs_ext_get_bool_option_value`. -/
def brsExtGetBoolOptionValue (options : Hash) (name : String) : Except RubyError Bool :=
  getBoolValue (getRawValue options name)

/-- `brs_ext_get_size_option_value`. -/
def brsExtGetSizeOptionValue (options : Hash) (name : String) : Except RubyError Nat :=
  getSizeValue (getRawValue options name)

/-- `brs_ext_compressor_options_t`. -/
structure CompressorOptions where
  mode : Option UInt32
  quality : Option UInt32
  lgwin : Option UInt32
  lgblock : Option UInt32
  npostfix : Option UInt32
  ndirect : Option UInt32
  disableLiteralContextModeling : Option UInt32
  sizeHint : Option UInt32
  largeWindow : Option UInt32
deriving Repr, DecidableEq

/-- `brs_ext_decompressor_options_t`. -/
structure DecompressorOptions where
  disableRingBufferReallocation : Option UInt32
  largeWindow : Option UInt32
deriving Repr, DecidableEq

/-- `BRS_EXT_GET_COMPRESSOR_OPTIONS`. -/
def getCompressorOptions (options : Hash) : Except RubyError CompressorOptions := do
  let mode ← brsExtResolveOption options .mode "mode"
  let quality ← brsExtResolveOption options .uint "quality"
  let lgwin ← brsExtResolveOption options .uint "lgwin"
  let lgblock ← brsExtResolveOption options .uint "lgblock"
  let npostfix ← brsExtResolveOption options .uint "npostfix"
  let ndirect ← brsExtResolveOption options .uint "ndirect"
  let disableLiteralContextModeling ←
    brsExtResolveOption options .bool "disable_literal_context_modeling"
  let sizeHint ← brsExtResolveOption options .uint "size_hint"
  let largeWindow ← brsExtResolveOption options .bool "large_window"
  return { mode, quality, lgwin, lgblock, npostfix, ndirect, disableLiteralContextModeling,
           sizeHint, largeWindow }

/-- `BRS_EXT_GET_DECOMPRESSOR_OPTIONS`. -/
def getDecompressorOptions (options : Hash) : Except RubyError DecompressorOptions := do
  let disableRingBufferReallocation ←
    brsExtResolveOption options .bool "disable_ring_buffer_reallocation"
  let largeWindow ← brsExtResolveOption options .bool "large_window"
  return { disableRingBufferReallocation, largeWindow }

/-! ## set params -/

/-- A sequence of `SET_OPTION_VALUE`: each option that has a value is set, and
    the first one that is refused ends it. -/
def setOptionValues {σ π : Type} (function : σ → π → UInt32 → Bool × σ) :
    List (π × Option UInt32) → σ → ExtResult × σ
  | [], s => (.ok, s)
  | (_, none) :: rest, s => setOptionValues function rest s
  | (param, some value) :: rest, s =>
      if !(function s param value).1 then
        (.validateFailed, (function s param value).2)
      else
        setOptionValues function rest (function s param value).2

variable {σ : Type}

/-- The parameters of `brs_ext_set_compressor_options`, in its order. -/
def CompressorOptions.params (options : CompressorOptions) :
    List (EncoderParameter × Option UInt32) :=
  [(.mode, options.mode), (.quality, options.quality), (.lgwin, options.lgwin),
    (.lgblock, options.lgblock), (EncoderParameter.npostfix, options.npostfix),
    (.ndirect, options.ndirect),
    (.disableLiteralContextModeling, options.disableLiteralContextModeling),
    (.sizeHint, options.sizeHint), (.largeWindow, options.largeWindow)]

/-- The parameters of `brs_ext_set_decompressor_options`, in its order. -/
def DecompressorOptions.params (options : DecompressorOptions) :
    List (DecoderParameter × Option UInt32) :=
  [(.disableRingBufferReallocation, options.disableRingBufferReallocation),
    (.largeWindow, options.largeWindow)]

/-- `brs_ext_set_compressor_options`. -/
def brsExtSetCompressorOptions (enc : Encoder σ) (s : σ) (options : CompressorOptions) :
    ExtResult × σ :=
  setOptionValues enc.setParameter options.params s

/-- `brs_ext_set_decompressor_options`. -/
def brsExtSetDecompressorOptions (dec : Decoder σ) (s : σ) (options : DecompressorOptions) :
    ExtResult × σ :=
  setOptionValues dec.setParameter options.params s

end RubyBrs
