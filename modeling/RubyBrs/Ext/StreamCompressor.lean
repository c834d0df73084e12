/-
  RubyBrs.Ext.StreamCompressor

  The native class `NativeCompressor` of `stream/compressor.c`, and what its
  callers can ask of it: to write some bytes, to flush, and to finish.
-/

import RubyBrs.Ext.StreamCaller

namespace RubyBrs

open StreamCodec

variable {σ : Type}

/-- `brs_ext_compressor_t`. -/
abbrev Compressor (σ : Type) := StreamObject (EncoderInstance σ)

/-- `brs_ext_allocate_compressor`. -/
def brsExtAllocateCompressor (m : Memory) : Except RubyError (Compressor σ) × Memory :=
  StreamObject.allocate m

/-- `free_compressor`. -/
def freeCompressor (m : Memory) (self : Compressor σ) : Memory := self.free m

/-! ## library calls -/

/-- `compress_wrapper`, and what `brs_ext_compress` makes of the answer. -/
def compressCall (enc : Encoder σ) : LibraryCall σ Operation Bool where
  codec := enc.toCodec
  operation := .process
  failure := encoderFailure
  more s _ := enc.hasMoreOutput s

/-- `compressor_flush_wrapper`, and what `brs_ext_flush_compressor` makes of the answer. -/
def flushCall (enc : Encoder σ) : LibraryCall σ Operation Bool :=
  { compressCall enc with operation := .flush }

/-- `compressor_finish_wrapper`, and what `brs_ext_finish_compressor` makes of the
    answer. -/
def finishCall (enc : Encoder σ) : LibraryCall σ Operation Bool :=
  { compressCall enc with
    operation := .finish
    more := fun s _ => enc.hasMoreOutput s || !enc.isFinished s }

/-! ## methods -/

section Methods

variable (enc : Encoder σ) (m : Memory) (self : Compressor σ)

/-- `brs_ext_initialize_compressor`. -/
def brsExtInitializeCompressor (options : Argument) : MethodResult Unit (EncoderInstance σ) :=
  self.initializeObject getCompressorOptions enc.create (brsExtSetCompressorOptions enc)
    defaultDestinationBufferLengthForCompressor m options

/-- `brs_ext_compress`: the number of bytes written, and `needs_more_destination`.  The
    array of the two is taken as allocated. -/
def brsExtCompress (sourceValue : Argument) : MethodResult (Nat × Bool) (EncoderInstance σ) :=
  self.unlessClosed m fun coder _ =>
    match checkString sourceValue with
    | .error e => (.error e, m, self)
    | .ok source => self.streamCall (compressCall enc) source m coder

/-- `brs_ext_flush_compressor`. -/
def brsExtFlushCompressor : MethodResult Bool (EncoderInstance σ) :=
  self.unlessClosed m fun coder _ =>
    (self.streamCall (flushCall enc) [] m coder).map Prod.snd

/-- `brs_ext_finish_compressor`. -/
def brsExtFinishCompressor : MethodResult Bool (EncoderInstance σ) :=
  self.unlessClosed m fun coder _ =>
    (self.streamCall (finishCall enc) [] m coder).map Prod.snd

/-- `brs_ext_compressor_read_result`. -/
def brsExtCompressorReadResult : MethodResult (List UInt8) (EncoderInstance σ) :=
  self.readResult m

/-- `brs_ext_compressor_close`. -/
def brsExtCompressorClose : MethodResult Unit (EncoderInstance σ) := self.close m

end Methods

/-- With options that the encoder accepts and without allocation faults, the
    object is initialized. -/
theorem brsExtInitializeCompressor_run {enc : Encoder σ} {m : Memory} {hash : Hash}
    {read : StringOptions CompressorOptions} {s : σ}
    (hread : getStringOptions getCompressorOptions hash = .ok read)
    (hset : brsExtSetCompressorOptions enc enc.create read.codec = (.ok, s))
    (hm : m.Faultless) (self : Compressor σ) :
    ∃ m' self', brsExtInitializeCompressor enc m self (.hash hash) = (.ok (), m', self') ∧
      m'.Faultless :=
  StreamObject.initializeObject_run hread hset hm self

/-! ## Requests -/

/-- What a caller makes a request with; `flush` and `finish` take no bytes. -/
def compressorMethod (enc : Encoder σ) : RequestMethod (EncoderInstance σ) Operation
  | .process, source, m, self => brsExtCompress enc m self (.value (.string source))
  | .flush, _, m, self => (brsExtFlushCompressor enc m self).map (0, ·)
  | .finish, _, m, self => (brsExtFinishCompressor enc m self).map (0, ·)

/-- Only `write` is given bytes. -/
def compressorRequest (op : Operation) (source : List UInt8) : Prop :=
  op ≠ .process → source = []

/-- The encoder behind a buffer of this capacity. -/
def bufferedEncoder (enc : Encoder σ) (capacity : Nat) (hcapacity : 0 < capacity) :
    Buffered UInt8 σ Operation Bool where
  toCodec := enc.toCodec
  capacity := capacity
  capacity_pos := hcapacity
  failed result := !result
  more op s _ := enc.pending op s

/-- Nothing is lost when a request without bytes does not return their number. -/
theorem map_snd_zero {κ : Type} {r : MethodResult (Nat × Bool) κ}
    {outcome : Except RubyError (Nat × Bool)} {m : Memory} {o : StreamObject κ}
    (hr : r = (outcome, m, o))
    (h : ∀ count more, outcome = .ok (count, more) → count = 0) :
    (r.map Prod.snd).map (0, ·) = (outcome, m, o) := by
  subst hr
  cases outcome with
  | error e => rfl
  | ok value =>
      obtain ⟨count, more⟩ := value
      obtain rfl := h count more rfl
      rfl

theorem performs_compressor (enc : Encoder σ) {capacity : Nat} (hcapacity : 0 < capacity) :
    Performs (bufferedEncoder enc capacity hcapacity) compressorRequest
      (compressorMethod enc) where
  drop n h hop := by rw [h hop, List.drop_nil]
  call {o coder buffer op source answer} m hopen hlength hvalid hanswer := by
    obtain ⟨outcome, m', o', buffer', hcall, hm', hopen', hfilled', hcapacity', houtcome⟩ :=
      performs_streamCall (bufferedEncoder enc capacity hcapacity) encoderFailure
        (fun i result => by
          rw [encoderFailure_none]
          cases result <;> simp [bufferedEncoder]) hopen hlength hanswer m
    refine ⟨outcome, m', o', buffer', ?_, hm', hopen', hfilled', hcapacity', houtcome⟩
    -- Without bytes none are taken.
    have hzero : source = [] → ∀ count more, outcome = .ok (count, more) → count = 0 := by
      rintro rfl count more rfl
      have hnone : answer.consumed = 0 := by
        rw [← hanswer]
        exact enc.consumed_nil _ _ _
      split at houtcome
      · obtain ⟨e, he⟩ := houtcome
        cases he
      · rw [(Prod.mk.inj (Except.ok.inj houtcome)).1, hnone]
    -- `write` and `flush` do not ask whether the stream has ended.
    have hmore : ∀ {op : Operation}, op ≠ .finish →
        (bufferedEncoder enc capacity hcapacity).more op = fun s _ => enc.hasMoreOutput s :=
      fun hne => funext fun s => funext fun _ => enc.pending_of_ne hne s
    cases op with
    | process =>
        rw [hmore (by decide)] at hcall
        simp only [compressorMethod, brsExtCompress, hopen.unlessClosed, checkString]
        exact hcall
    | flush =>
        have hnil := hvalid (by decide)
        rw [hmore (by decide), hnil] at hcall
        simp only [compressorMethod, brsExtFlushCompressor, hopen.unlessClosed]
        exact map_snd_zero hcall (hzero hnil)
    | finish =>
        have hnil := hvalid (by decide)
        rw [hnil] at hcall
        simp only [compressorMethod, brsExtFinishCompressor, hopen.unlessClosed]
        exact map_snd_zero hcall (hzero hnil)

end RubyBrs
