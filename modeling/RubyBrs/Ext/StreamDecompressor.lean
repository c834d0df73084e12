/-
  RubyBrs.Ext.StreamDecompressor

  The native class `NativeDecompressor` of `stream/decompressor.c`, and what its
  callers can ask of it: to read some bytes.

  A decompressor knows what it needs from the result of the decoder alone; unlike
  the compressor, it does not ask whether there is more output.
-/

import RubyBrs.Ext.StreamCaller

namespace RubyBrs

open StreamCodec

variable {σ : Type}

/-- `brs_ext_decompressor_t`. -/
abbrev Decompressor (σ : Type) := StreamObject (DecoderInstance σ)

/-- `brs_ext_allocate_decompressor`.  It does not set `gvl`, which is zero like all
    of a new structure. -/
def brsExtAllocateDecompressor (m : Memory) : Except RubyError (Decompressor σ) × Memory :=
  StreamObject.allocate m

/-- `free_decompressor`. -/
def freeDecompressor (m : Memory) (self : Decompressor σ) : Memory := self.free m

/-! ## library calls -/

/-- `decompress_wrapper`, and what `brs_ext_decompress` makes of the answer. -/
def decompressCall (dec : Decoder σ) : LibraryCall σ Unit DecoderResult where
  codec := dec.toCodec
  operation := ()
  failure := decoderFailure dec
  more _ result := result == .needsMoreOutput

/-! ## methods -/

section Methods

variable (dec : Decoder σ) (m : Memory) (self : Decompressor σ)

/-- `brs_ext_initialize_decompressor`. -/
def brsExtInitializeDecompressor (options : Argument) : MethodResult Unit (DecoderInstance σ) :=
  self.initializeObject getDecompressorOptions dec.create (brsExtSetDecompressorOptions dec)
    defaultDestinationBufferLengthForDecompressor m options

/-- `brs_ext_decompress`: the number of bytes read, and `needs_more_destination`.  The
    array of the two is taken as allocated. -/
def brsExtDecompress (sourceValue : Argument) : MethodResult (Nat × Bool) (DecoderInstance σ) :=
  self.unlessClosed m fun coder _ =>
    match checkString sourceValue with
    | .error e => (.error e, m, self)
    | .ok source => self.streamCall (decompressCall dec) source m coder

/-- `brs_ext_decompressor_read_result`. -/
def brsExtDecompressorReadResult : MethodResult (List UInt8) (DecoderInstance σ) :=
  self.readResult m

/-- `brs_ext_decompressor_close`. -/
def brsExtDecompressorClose : MethodResult Unit (DecoderInstance σ) := self.close m

end Methods

/-- With options that the decoder accepts and without allocation faults, the
    object is initialized. -/
theorem brsExtInitializeDecompressor_run {dec : Decoder σ} {m : Memory} {hash : Hash}
    {read : StringOptions DecompressorOptions} {s : σ}
    (hread : getStringOptions getDecompressorOptions hash = .ok read)
    (hset : brsExtSetDecompressorOptions dec dec.create read.codec = (.ok, s))
    (hm : m.Faultless) (self : Decompressor σ) :
    ∃ m' self', brsExtInitializeDecompressor dec m self (.hash hash) = (.ok (), m', self') ∧
      m'.Faultless :=
  StreamObject.initializeObject_run hread hset hm self

/-! ## Requests -/

/-- What a caller makes a request with. -/
def decompressorMethod (dec : Decoder σ) : RequestMethod (DecoderInstance σ) Unit :=
  fun _ source m self => brsExtDecompress dec m self (.value (.string source))

/-- `read` is given any bytes. -/
def decompressorRequest (_ : Unit) (_ : List UInt8) : Prop := True

/-- Chunks of bytes, to be read in order. -/
def readerRequests (chunks : List (List UInt8)) : List (Unit × List UInt8) :=
  chunks.map (Prod.mk ())

theorem readerRequests_valid (chunks : List (List UInt8)) :
    ∀ r ∈ readerRequests chunks, decompressorRequest r.1 r.2 := fun _ _ => trivial

@[simp] theorem inputs_readerRequests (chunks : List (List UInt8)) :
    inputs (readerRequests chunks) = chunks.flatten := by
  simp only [inputs, readerRequests, List.flatMap_def, List.map_map]
  exact congrArg List.flatten (List.map_id chunks)

/-- The decoder behind a buffer of this capacity. -/
def bufferedDecoder (dec : Decoder σ) (capacity : Nat) (hcapacity : 0 < capacity) :
    Buffered UInt8 σ Unit DecoderResult where
  toCodec := dec.toCodec
  capacity := capacity
  capacity_pos := hcapacity
  failed result := result == .error
  more _ _ result := result == .needsMoreOutput

theorem performs_decompressor (dec : Decoder σ) {capacity : Nat} (hcapacity : 0 < capacity) :
    Performs (bufferedDecoder dec capacity hcapacity) decompressorRequest
      (decompressorMethod dec) where
  drop _ _ := trivial
  call {o coder buffer op source answer} m hopen hlength _ hanswer := by
    obtain ⟨outcome, m', o', buffer', hcall, hrest⟩ :=
      performs_streamCall (bufferedDecoder dec capacity hcapacity) (decoderFailure dec)
        (fun i result => by
          rw [decoderFailure_none]
          cases result <;> simp [bufferedDecoder]) hopen hlength hanswer m
    refine ⟨outcome, m', o', buffer', ?_, hrest⟩
    simp only [decompressorMethod, brsExtDecompress, hopen.unlessClosed, checkString]
    exact hcall

end RubyBrs
