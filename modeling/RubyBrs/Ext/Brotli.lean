/-
  RubyBrs.Ext.Brotli

  The brotli library as the extension sees it (`brotli/encode.h`,
  `brotli/decode.h`): an encoder and a decoder are streaming codecs with a few
  questions that can be asked of their state.  The library itself is a
  parameter of the model; the second half of the file names the documented
  behaviour that particular results rely on.

  * `Encoder.Contract` — an encoder used as its documentation asks: an operation
    is repeated, with what is left of its input, until it is complete.
  * `Decoder.StreamContract` — a decoder fed one complete stream, in any pieces.
  * `Decoder.Follows` — a decoder fed anything at all.
-/

import RubyBrs.Ext.Error
import RubyBrs.Lib.StreamCodec
import RubyBrs.Lib.StreamFormat

namespace RubyBrs

open StreamCodec StreamFormat

/-- `BrotliEncoderOperation`, without `EMIT_METADATA`, which is never asked for. -/
inductive Operation where
  | process
  | flush
  | finish
deriving Repr, DecidableEq

/-- `BrotliDecoderResult`. -/
inductive DecoderResult where
  | error
  | success
  | needsMoreInput
  | needsMoreOutput
deriving Repr, DecidableEq

/-- `BrotliEncoderParameter`, as far as `option.c` sets them. -/
inductive EncoderParameter where
  | mode
  | quality
  | lgwin
  | lgblock
  | npostfix
  | ndirect
  | disableLiteralContextModeling
  | sizeHint
  | largeWindow
deriving Repr, DecidableEq

/-- `BrotliDecoderParameter`. -/
inductive DecoderParameter where
  | disableRingBufferReallocation
  | largeWindow
deriving Repr, DecidableEq

/-- `BrotliEncoderState`: `stream` is `BrotliEncoderCompressStream`, `create` the
    state of a new instance. -/
structure Encoder (σ : Type) extends Codec UInt8 σ Operation Bool where
  create : σ
  setParameter : σ → EncoderParameter → UInt32 → Bool × σ
  hasMoreOutput : σ → Bool
  isFinished : σ → Bool

/-- `BrotliDecoderState`: `stream` is `BrotliDecoderDecompressStream`. -/
structure Decoder (σ : Type) extends Codec UInt8 σ Unit DecoderResult where
  create : σ
  setParameter : σ → DecoderParameter → UInt32 → Bool × σ
  hasMoreOutput : σ → Bool
  getErrorCode : σ → DecoderErrorCode

abbrev EncoderInstance (σ : Type) := Coder UInt8 σ Operation Bool
abbrev DecoderInstance (σ : Type) := Coder UInt8 σ Unit DecoderResult

variable {σ : Type}

/-- `rb_thread_call_without_gvl`: other Ruby threads may run meanwhile, none of
    which touches the data of the call. -/
def callWithoutGvl {δ ε : Type} (function : δ → ε) (data : δ) : ε := function data

/-- `BRS_EXT_GVL_WRAP`. -/
def gvlWrap {δ ε : Type} (gvl : Bool) (function : δ → ε) (data : δ) : ε :=
  if gvl then function data else callWithoutGvl function data

@[simp] theorem gvlWrap_eq {δ ε : Type} (gvl : Bool) (function : δ → ε) (data : δ) :
    gvlWrap gvl function data = function data := by
  cases gvl <;> rfl

/-- What every caller of the encoder makes of its result: `if (!args.result)
    return BRS_EXT_ERROR_UNEXPECTED`. -/
def encoderFailure (_ : EncoderInstance σ) (result : Bool) : Option ExtResult :=
  if !result then some .unexpected else none

/-- What every caller of the decoder makes of its result: any but the three
    expected ones is an error of the decoder. -/
def decoderFailure (dec : Decoder σ) (i : DecoderInstance σ) (result : DecoderResult) :
    Option ExtResult :=
  if result ≠ .success ∧ result ≠ .needsMoreInput ∧ result ≠ .needsMoreOutput then
    some (brsExtGetDecompressorError (dec.getErrorCode i.state))
  else
    none

theorem encoderFailure_none {i : EncoderInstance σ} {result : Bool} :
    encoderFailure i result = none ↔ result = true := by
  cases result <;> simp [encoderFailure]

theorem encoderFailure_some {i : EncoderInstance σ} {result : Bool} {extResult : ExtResult}
    (h : encoderFailure i result = some extResult) :
    result = false ∧ extResult = .unexpected := by
  cases result <;> simp_all [encoderFailure]

theorem decoderFailure_none {dec : Decoder σ} {i : DecoderInstance σ} {result : DecoderResult} :
    decoderFailure dec i result = none ↔ result ≠ .error := by
  cases result <;> simp [decoderFailure]

theorem decoderFailure_some {dec : Decoder σ} {i : DecoderInstance σ} {result : DecoderResult}
    {extResult : ExtResult} (h : decoderFailure dec i result = some extResult) :
    result = .error ∧ extResult = brsExtGetDecompressorError (dec.getErrorCode i.state) := by
  cases result <;> simp_all [decoderFailure]

/-! ## The encoder's documented behaviour -/

namespace Encoder

variable (enc : Encoder σ)

/-- The operation has to be asked for again: there is output left to take, or a
    stream being finished has not ended. -/
def pending (op : Operation) (s : σ) : Bool :=
  enc.hasMoreOutput s || (op == .finish && !enc.isFinished s)

/-- Only for a finish is the end of the stream asked about. -/
theorem pending_of_ne {op : Operation} (h : op ≠ .finish) (s : σ) :
    enc.pending op s = enc.hasMoreOutput s := by
  simp [pending, h]

/-- The order of calls the documentation asks for: a pending operation is
    repeated with the rest of its input, and nothing follows a completed finish. -/
def Allowed (i : EncoderInstance σ) (op : Operation) (input : List UInt8) : Prop :=
  match i.calls.getLast? with
  | none => True
  | some last =>
      -- The library refuses another operation while it has output to give.
      if enc.pending last.operation i.state then
        op = last.operation ∧ input = last.rest
      else
        last.operation ≠ .finish

/-- The instances that come of calls in the documented order, of the operations
    `ops` only. -/
inductive Session (ops : List Operation) (init : σ) : EncoderInstance σ → Prop
  | start (handle : Nat) : Session ops init ⟨handle, init, []⟩
  | call {i : EncoderInstance σ} {op : Operation} {input : List UInt8} (room : Nat)
      (h : Session ops init i) (hop : op ∈ ops) (hallowed : enc.Allowed i op input) :
      Session ops init (enc.call i op input room)

/-- The encoder, used in the documented order from the state `init`. -/
structure Contract (ops : List Operation) (fmt : Format UInt8) (init : σ) : Prop where
  /-- Calls in the documented order succeed. -/
  succeeds : ∀ {i op input} (room : Nat), enc.Session ops init i → op ∈ ops →
    enc.Allowed i op input → (enc.stream i.state op input room).result = true
  /-- A call that completes its operation has taken all of its input. -/
  completes : ∀ {i op input} (room : Nat), enc.Session ops init i → op ∈ ops →
    enc.Allowed i op input →
    enc.pending op (enc.stream i.state op input room).state = false →
    (enc.stream i.state op input room).consumed = input.length
  /-- A call that is given room and leaves its operation pending emits something. -/
  progresses : ∀ {i op input} {room : Nat}, enc.Session ops init i → op ∈ ops →
    enc.Allowed i op input → 0 < room →
    enc.pending op (enc.stream i.state op input room).state = true →
    (enc.stream i.state op input room).output ≠ []
  /-- The output for given content is finite. -/
  finite : ∀ content : List UInt8, ∃ bound : Nat, ∀ i, enc.Session ops init i →
    i.consumed <+: content → i.emitted.length ≤ bound
  /-- A completed finish has emitted one complete stream of what was consumed. -/
  finishes : ∀ {i last}, enc.Session ops init i → i.calls.getLast? = some last →
    last.operation = .finish → enc.pending .finish i.state = false →
    fmt.Decodes i.emitted i.consumed

/-- After a completed flush everything consumed can be decoded. -/
structure FlushContract (ops : List Operation) (fmt : Format UInt8) (init : σ) : Prop
    extends enc.Contract ops fmt init where
  flushes : ∀ {i last}, enc.Session ops init i → i.calls.getLast? = some last →
    last.operation = .flush → enc.pending .flush i.state = false →
    fmt.decodable i.emitted = i.consumed

variable {enc}

/-- Any operation may start when the last one, if any, was completed and was not
    a finish. -/
theorem Allowed.of_complete {i : EncoderInstance σ} {op : Operation} {input : List UInt8}
    (h : ∀ last, i.calls.getLast? = some last →
      enc.pending last.operation i.state = false ∧ last.operation ≠ .finish) :
    enc.Allowed i op input := by
  unfold Allowed
  cases hlast : i.calls.getLast? with
  | none => trivial
  | some last =>
      obtain ⟨hdone, hne⟩ := h last hlast
      simpa [hdone] using hne

/-- A pending operation may be repeated with the rest of its input. -/
theorem Allowed.of_pending {i : EncoderInstance σ} {last : Call UInt8 Operation Bool}
    (hlast : i.calls.getLast? = some last)
    (hpending : enc.pending last.operation i.state = true) :
    enc.Allowed i last.operation last.rest := by
  simp [Allowed, hlast, hpending]

end Encoder

/-! ## The decoder's documented behaviour -/

namespace Decoder

variable (dec : Decoder σ)

/-- The instances that come of offering pieces of `s`, in order, from the state
    `init`; what was not taken of a piece need not be offered again at once. -/
inductive Session (s : List UInt8) (init : σ) : DecoderInstance σ → Prop
  | start (handle : Nat) : Session s init ⟨handle, init, []⟩
  | call {i : DecoderInstance σ} {input : List UInt8} (room : Nat)
      (h : Session s init i) (hin : i.consumed ++ input <+: s) :
      Session s init (dec.call i () input room)

/-- The decoder, fed the complete stream `s` of `content`. -/
structure StreamContract (s content : List UInt8) (init : σ) : Prop where
  /-- What is emitted is the next part of the content. -/
  emits : ∀ {i input} (room : Nat), dec.Session s init i → i.consumed ++ input <+: s →
    i.emitted ++ (dec.stream i.state () input room).output <+: content
  no_error : ∀ {i input} (room : Nat), dec.Session s init i → i.consumed ++ input <+: s →
    (dec.stream i.state () input room).result ≠ .error
  /-- More input is asked for only when all of it was taken and the stream has
      not ended; decoded bytes may be held back. -/
  needsInput : ∀ {i input} {room : Nat}, dec.Session s init i → i.consumed ++ input <+: s →
    (dec.stream i.state () input room).result = .needsMoreInput →
    (dec.stream i.state () input room).consumed = input.length ∧ i.consumed ++ input ≠ s
  /-- More room is asked for only when all of it was used and content is left. -/
  needsOutput : ∀ {i input} {room : Nat}, dec.Session s init i → i.consumed ++ input <+: s →
    (dec.stream i.state () input room).result = .needsMoreOutput →
    (dec.stream i.state () input room).output.length = room ∧
      i.emitted ++ (dec.stream i.state () input room).output ≠ content
  /-- Success is answered exactly at the end of the stream and of its content. -/
  success : ∀ {i input} {room : Nat}, dec.Session s init i → i.consumed ++ input <+: s →
    ((dec.stream i.state () input room).result = .success ↔
      i.consumed ++ input.take (dec.stream i.state () input room).consumed = s ∧
        i.emitted ++ (dec.stream i.state () input room).output = content)

/-- The instances that come of offering anything at all, up to the first error. -/
inductive Feeding (init : σ) : DecoderInstance σ → Prop
  | start (handle : Nat) : Feeding init ⟨handle, init, []⟩
  | call {i : DecoderInstance σ} (input : List UInt8) (room : Nat) (h : Feeding init i)
      (hok : (dec.stream i.state () input room).result ≠ .error) :
      Feeding init (dec.call i () input room)

/-- The decoder reads `fmt`, whatever it is offered. -/
structure Follows (fmt : Format UInt8) (init : σ) : Prop where
  emits : ∀ {i} (input : List UInt8) (room : Nat), dec.Feeding init i →
    (dec.stream i.state () input room).result ≠ .error →
    i.emitted ++ (dec.stream i.state () input room).output <+:
      fmt.decodable (i.consumed ++ input.take (dec.stream i.state () input room).consumed)
  needsInput : ∀ {i} {input : List UInt8} {room : Nat}, dec.Feeding init i →
    (dec.stream i.state () input room).result = .needsMoreInput →
    (dec.stream i.state () input room).consumed = input.length ∧
      fmt.Open (i.consumed ++ input)
  needsOutput : ∀ {i} {input : List UInt8} {room : Nat}, dec.Feeding init i →
    (dec.stream i.state () input room).result = .needsMoreOutput →
    (dec.stream i.state () input room).output.length = room ∧
      i.emitted ++ (dec.stream i.state () input room).output ≠
        fmt.decodable (i.consumed ++ input.take (dec.stream i.state () input room).consumed) ∧
      (fmt.Open (i.consumed ++ input.take (dec.stream i.state () input room).consumed) ∨
        fmt.Complete (i.consumed ++ input.take (dec.stream i.state () input room).consumed))
  success : ∀ {i} {input : List UInt8} {room : Nat}, dec.Feeding init i →
    (dec.stream i.state () input room).result = .success →
    fmt.Decodes (i.consumed ++ input.take (dec.stream i.state () input room).consumed)
      (i.emitted ++ (dec.stream i.state () input room).output)
  error : ∀ {i} {input : List UInt8} {room : Nat}, dec.Feeding init i →
    (dec.stream i.state () input room).result = .error →
    ∃ n, n ≤ input.length ∧ fmt.Corrupt (i.consumed ++ input.take n)

/-- When the input runs out the decoder pushes as much output as there is room
    for, and `hasMoreOutput` tells whether any is held back. -/
structure Pushes (fmt : Format UInt8) (init : σ) : Prop extends dec.Follows fmt init where
  pushes : ∀ {i} {input : List UInt8} {room : Nat}, dec.Feeding init i →
    (dec.stream i.state () input room).result = .needsMoreInput →
    (dec.stream i.state () input room).output.length = room ∨
      i.emitted ++ (dec.stream i.state () input room).output =
        fmt.decodable (i.consumed ++ input)
  holds : ∀ {i}, dec.Feeding init i →
    (dec.hasMoreOutput i.state = true ↔ i.emitted ≠ fmt.decodable i.consumed)

variable {dec}

/-- A decoder that follows a format keeps the contract for each of its streams. -/
theorem Follows.streamContract {fmt : Format UInt8} {init : σ} (h : dec.Follows fmt init)
    {s content : List UInt8} (hs : fmt.Decodes s content) :
    dec.StreamContract s content init := by
  obtain ⟨hcomplete, rfl⟩ := hs
  -- No error inside a complete stream.
  have hno_error : ∀ {i : DecoderInstance σ} {input : List UInt8} (room : Nat),
      dec.Feeding init i → i.consumed ++ input <+: s →
      (dec.stream i.state () input room).result ≠ .error := by
    intro i input room hfeed hin herr
    obtain ⟨n, -, hcorrupt⟩ := h.error hfeed herr
    have hpre : i.consumed ++ input.take n <+: s :=
      ((List.prefix_append_right_inj _).mpr (List.take_prefix n input)).trans hin
    exact hcomplete.not_corrupt (List.prefix_refl s) hpre hcorrupt
  have hfeeding : ∀ {i : DecoderInstance σ}, dec.Session s init i → dec.Feeding init i := by
    intro i hi
    induction hi with
    | start handle => exact .start handle
    | call room _ hin ih => exact .call _ room ih (hno_error room ih hin)
  have htaken : ∀ {i : DecoderInstance σ} {input : List UInt8} (room : Nat),
      i.consumed ++ input <+: s →
      i.consumed ++ input.take (dec.stream i.state () input room).consumed <+: s := by
    intro i input room hin
    exact ((List.prefix_append_right_inj _).mpr (List.take_prefix _ input)).trans hin
  -- A complete prefix of a complete stream is all of it.
  have hall : ∀ {p : List UInt8}, fmt.Complete p → p <+: s → p = s := fun hp hps =>
    Format.Reaches.unique hp hcomplete (by decide) (by decide) hps (List.prefix_refl s)
  refine ⟨?_, ?_, ?_, ?_, ?_⟩
  · intro i input room hi hin
    exact (h.emits input room (hfeeding hi) (hno_error room (hfeeding hi) hin)).trans
      (fmt.decodable_mono (htaken room hin))
  · intro i input room hi hin
    exact hno_error room (hfeeding hi) hin
  · intro i input room hi hin hres
    obtain ⟨hk, hopen⟩ := h.needsInput (hfeeding hi) hres
    refine ⟨hk, fun heq => ?_⟩
    rw [heq] at hopen
    exact hcomplete.not_open (List.prefix_refl s) hopen
  -- Content that can be told already is content of the whole stream.
  · intro i input room hi hin hres
    obtain ⟨hfull, hmore, -⟩ := h.needsOutput (hfeeding hi) hres
    refine ⟨hfull, fun heq => hmore ?_⟩
    have hpre := h.emits input room (hfeeding hi) (hno_error room (hfeeding hi) hin)
    rw [heq] at hpre ⊢
    exact hpre.eq_of_length
      (Nat.le_antisymm hpre.length_le (fmt.decodable_mono (htaken room hin)).length_le)
  · intro i input room hi hin
    constructor
    · intro hres
      obtain ⟨hend, hcontent⟩ := h.success (hfeeding hi) hres
      have heq := hall hend (htaken room hin)
      exact ⟨heq, by rw [← hcontent, heq]⟩
    · rintro ⟨hconsumed, hemitted⟩
      cases hres : (dec.stream i.state () input room).result with
      | success => rfl
      | error => exact absurd hres (hno_error room (hfeeding hi) hin)
      -- At the end of the stream there is nothing more to ask for, of either kind.
      | needsMoreInput =>
          obtain ⟨hk, hopen⟩ := h.needsInput (hfeeding hi) hres
          rw [hk, List.take_length] at hconsumed
          rw [hconsumed] at hopen
          exact absurd hopen (hcomplete.not_open (List.prefix_refl s))
      | needsMoreOutput =>
          obtain ⟨-, hmore, -⟩ := h.needsOutput (hfeeding hi) hres
          rw [hconsumed] at hmore
          exact absurd hemitted hmore

end Decoder

end RubyBrs
