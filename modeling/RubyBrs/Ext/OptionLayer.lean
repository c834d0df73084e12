/-
  RubyBrs.Ext.OptionLayer

  What the extension makes of options that the Ruby layer has accepted.

  Options are taken as they are given (`StringAsGiven`, `IoAsGiven`) if they are
  refused with an error of the library, or every option that is not `nil` is set
  by one call of `SetParameter` with the number that it stands for, and every
  buffer has the length that was asked for, or its default for zero.

  That depends on the size of three numbers only.  The validators accept any
  integer that is not negative, as it is documented, but the extension asks for
  fixnums (`LengthFits`) and reads the size hint as an unsigned int (`HintFits`).
-/

import RubyBrs.Ext.Ledger
import RubyBrs.Ext.StreamCompressor
import RubyBrs.Ext.StreamDecompressor
import RubyBrs.Ruby.Accepted
import RubyBrs.Ruby.SizeHint

namespace RubyBrs

open StreamCodec

variable {σ τ ω ρ θ π α : Type}

/-! ## As given -/

/-- The calls of `SetParameter`: one for each option that is not `nil`, with the
    number that it stands for. -/
def CallsAsGiven (parameters : List (π × String)) (h : Hash) (calls : List (π × UInt32)) : Prop :=
  calls.map (fun call => (call.1, (call.2.toNat : Int))) =
    parameters.filterMap fun parameter =>
      (numericValue (h.get (.symbol parameter.2))).map (parameter.1, ·)

/-- Call `SetParameter` for one parameter after the other, until one is refused. -/
def setParameters (setParameter : σ → π → UInt32 → Bool × σ) :
    List (π × UInt32) → σ → ExtResult × σ
  | [], s => (.ok, s)
  | (param, value) :: rest, s =>
      if (setParameter s param value).1 then
        setParameters setParameter rest (setParameter s param value).2
      else
        (.validateFailed, (setParameter s param value).2)

/-- The length of a buffer: as it was asked for, or the default for zero. -/
def LengthAsGiven (h : Hash) (name : String) (default length : Nat) : Prop :=
  ∃ n : Int, h.get (.symbol name) = .integer n ∧
    (length : Int) = if n = 0 then (default : Int) else n

/-- `ValidateError` or `AllocateError`. -/
def IsOwnError (e : RubyError) : Prop :=
  e = brsExtRaiseError .validateFailed ∨ e = brsExtRaiseError .allocateFailed

/-! ## Processing options -/

/-- What a native function does with its options before it allocates buffers: it
    reads them, and creates and configures an instance. -/
def configure (read : Except RubyError α) (create : σ) (setOptions : σ → α → ExtResult × σ)
    (m : Memory) : Except RubyError (α × Coder UInt8 σ ω ρ) × Memory :=
  match read with
  | .error e => (.error e, m)
  | .ok options =>
      match createCoder create (setOptions · options) m with
      | (.error e, m) => (.error e, m)
      | (.ok coder, m) => (.ok (options, coder), m)

section Configure

variable {getCodecOptions : Hash → Except RubyError θ} {create : σ}
  {setOptions : σ → θ → ExtResult × σ} {m : Memory} {h : Hash}

theorem stringCall_configure {defaultLength : Nat}
    {run : Bool → Nat → Coder UInt8 σ ω ρ → Memory → List UInt8 → List UInt8 →
      Option (Except RubyError ExtResult × Str (Coder UInt8 σ ω ρ))} (source : List UInt8) :
    stringCall getCodecOptions create setOptions defaultLength run m (.value (.string source))
        (.hash h) =
      match configure (getStringOptions getCodecOptions h) create
          (fun s options => setOptions s options.codec) m with
      | (.error e, m) => some ⟨.error e, m, none⟩
      | (.ok (options, coder), m) =>
          match createStringBuffer m
              (orDefault options.destinationBufferLength defaultLength) with
          | (none, m) =>
              some ⟨.error (brsExtRaiseError .allocateFailed), m.release coder.handle, none⟩
          | (some destinationValue, m) =>
              (run options.gvl (orDefault options.destinationBufferLength defaultLength) coder m
                source destinationValue).map (leaveString coder.handle) := by
  have hargs : (do
      let source ← checkString (.value (.string source))
      let options ← getStringOptions getCodecOptions (← checkHash (.hash h))
      return (source, options) : Except RubyError _) =
        (getStringOptions getCodecOptions h).map (source, ·) := by
    show (getStringOptions getCodecOptions h >>= fun options => pure (source, options)) = _
    cases getStringOptions getCodecOptions h <;> rfl
  rw [stringCall, hargs]
  cases getStringOptions getCodecOptions h with
  | error e => rfl
  | ok options =>
      simp only [Except.map, configure]
      rcases createCoder (ω := ω) (ρ := ρ) create (setOptions · options.codec) m with
        ⟨_ | coder, m'⟩
      · rfl
      · simp only
        rcases createStringBuffer m' (orDefault options.destinationBufferLength defaultLength)
          with ⟨_ | value, m''⟩ <;> rfl

theorem ioCall_configure {defaultSource defaultDestination : Nat}
    {run : Bool → Nat → Nat → Coder UInt8 σ ω ρ → SourceFile → List UInt8 → DestinationFile →
      List UInt8 → Option (ExtResult × Io (Coder UInt8 σ ω ρ))} (sourceFile : SourceFile)
    (destinationFile : DestinationFile) :
    ioCall getCodecOptions create setOptions defaultSource defaultDestination run m
        (.file sourceFile) (.file destinationFile) (.hash h) =
      match configure (getIoOptions getCodecOptions h) create
          (fun s options => setOptions s options.codec) m with
      | (.error e, m) => some (.early e m (.file destinationFile))
      | (.ok (options, coder), m) =>
          match createBuffers m (orDefault options.sourceBufferLength defaultSource)
              (orDefault options.destinationBufferLength defaultDestination) with
          | (none, m) =>
              some (.early (brsExtRaiseError .allocateFailed) (m.release coder.handle)
                (.file destinationFile))
          | (some (sourceBuffer, destinationBuffer), m) =>
              (run options.gvl (orDefault options.sourceBufferLength defaultSource)
                  (orDefault options.destinationBufferLength defaultDestination) coder sourceFile
                  sourceBuffer.bytes destinationFile destinationBuffer.bytes).map
                fun (extResult, w) =>
                  .finish extResult w m sourceBuffer destinationBuffer coder.handle := by
  have hargs : (do
      let sourceFile ← getFile (.file sourceFile)
      let destinationFile ← getFile (.file destinationFile)
      let options ← getIoOptions getCodecOptions (← checkHash (.hash h))
      return (sourceFile, destinationFile, options) : Except RubyError _) =
        (getIoOptions getCodecOptions h).map (sourceFile, destinationFile, ·) := by
    show (getIoOptions getCodecOptions h >>= fun options =>
      pure (sourceFile, destinationFile, options)) = _
    cases getIoOptions getCodecOptions h <;> rfl
  rw [ioCall, hargs]
  cases getIoOptions getCodecOptions h with
  | error e => rfl
  | ok options =>
      simp only [Except.map, configure]
      rcases createCoder (ω := ω) (ρ := ρ) create (setOptions · options.codec) m with
        ⟨_ | coder, m'⟩
      · rfl
      · rfl

theorem initializeObject_configure {defaultLength : Nat}
    (self : StreamObject (Coder UInt8 σ ω ρ)) :
    self.initializeObject getCodecOptions create setOptions defaultLength m (.hash h) =
      match configure (getStringOptions getCodecOptions h) create
          (fun s options => setOptions s options.codec) m with
      | (.error e, m) => (.error e, m, self)
      | (.ok (options, coder), m) =>
          match mallocBuffer m (orDefault options.destinationBufferLength defaultLength) with
          | (none, m) =>
              (.error (brsExtRaiseError .allocateFailed), m.release coder.handle, self)
          | (some destinationBuffer, m) =>
              (.ok (), m,
                { self with
                  statePtr := some coder
                  destinationBuffer := some destinationBuffer
                  destinationBufferLength :=
                    orDefault options.destinationBufferLength defaultLength
                  remainingDestinationBuffer := some ⟨destinationBuffer.handle, 0⟩
                  remainingDestinationBufferLength :=
                    orDefault options.destinationBufferLength defaultLength
                  gvl := options.gvl }) := by
  have hargs : (do getStringOptions getCodecOptions (← checkHash (.hash h)) :
      Except RubyError _) = getStringOptions getCodecOptions h := rfl
  rw [StreamObject.initializeObject, hargs]
  cases getStringOptions getCodecOptions h with
  | error e => rfl
  | ok options =>
      simp only [configure]
      rcases createCoder (ω := ω) (ρ := ρ) create (setOptions · options.codec) m with
        ⟨_ | coder, m'⟩
      · rfl
      · rfl

end Configure

/-! ## The two codecs -/

/-- How the native functions of a codec process their options. -/
structure OptionKit (σ θ π : Type) where
  getCodecOptions : Hash → Except RubyError θ
  params : θ → List (π × Option UInt32)
  create : σ
  setParameter : σ → π → UInt32 → Bool × σ
  /-- The parameters with the names of their options. -/
  parameters : List (π × String)
  defaultSource : Nat
  defaultDestination : Nat

def compressorKit (enc : Encoder σ) : OptionKit σ CompressorOptions EncoderParameter where
  getCodecOptions := getCompressorOptions
  params := CompressorOptions.params
  create := enc.create
  setParameter := enc.setParameter
  parameters := compressorParameters
  defaultSource := defaultSourceBufferLengthForCompressor
  defaultDestination := defaultDestinationBufferLengthForCompressor

def decompressorKit (dec : Decoder σ) : OptionKit σ DecompressorOptions DecoderParameter where
  getCodecOptions := getDecompressorOptions
  params := DecompressorOptions.params
  create := dec.create
  setParameter := dec.setParameter
  parameters := decompressorParameters
  defaultSource := defaultSourceBufferLengthForDecompressor
  defaultDestination := defaultDestinationBufferLengthForDecompressor

namespace OptionKit

variable (K : OptionKit σ θ π)

/-- `brs_ext_set_compressor_options` and `brs_ext_set_decompressor_options`. -/
def setOptions (s : σ) (options : θ) : ExtResult × σ :=
  setOptionValues K.setParameter (K.params options) s

/-- Options were refused with an error of the library, or read with these lengths
    and set as they are given. -/
def ProcessedAsGiven (h : Hash) (lengths : α → Prop)
    (left : Except RubyError (α × Coder UInt8 σ ω ρ)) : Prop :=
  (∃ e, left = .error e ∧ IsOwnError e) ∨
    ∃ options coder calls, left = .ok (options, coder) ∧ lengths options ∧
      CallsAsGiven K.parameters h calls ∧
      setParameters K.setParameter calls K.create = (.ok, coder.state)

/-- The functions on strings and the streaming objects take the options as they
    are given. -/
def StringAsGiven (ω ρ : Type) (m : Memory) (h : Hash) : Prop :=
  K.ProcessedAsGiven h
    (fun options : StringOptions θ =>
      LengthAsGiven h "destination_buffer_length" K.defaultDestination
        (orDefault options.destinationBufferLength K.defaultDestination))
    (configure (ω := ω) (ρ := ρ) (getStringOptions K.getCodecOptions h) K.create
      (fun s options => K.setOptions s options.codec) m).1

/-- The functions on files take the options as they are given. -/
def IoAsGiven (ω ρ : Type) (m : Memory) (h : Hash) : Prop :=
  K.ProcessedAsGiven h
    (fun options : IoOptions θ =>
      LengthAsGiven h "source_buffer_length" K.defaultSource
        (orDefault options.sourceBufferLength K.defaultSource) ∧
      LengthAsGiven h "destination_buffer_length" K.defaultDestination
        (orDefault options.destinationBufferLength K.defaultDestination))
    (configure (ω := ω) (ρ := ρ) (getIoOptions K.getCodecOptions h) K.create
      (fun s options => K.setOptions s options.codec) m).1

end OptionKit

/-! ## Numbers that fit -/

/-- The buffer length is a fixnum. -/
def LengthFits (h : Hash) (name : String) : Prop :=
  ∀ n : Int, h.get (.symbol name) = .integer n → n < 2 ^ 62

/-- The size hint is an unsigned int. -/
def HintFits (h : Hash) : Prop :=
  ∀ n : Int, h.get (.symbol "size_hint") = .integer n → n < 2 ^ 32

/-! ## Setting options -/

/-- The parameters that have a value. -/
def givenParams (params : List (π × Option UInt32)) : List (π × UInt32) :=
  params.filterMap fun param => param.2.map (param.1, ·)

theorem setOptionValues_eq (setParameter : σ → π → UInt32 → Bool × σ)
    (params : List (π × Option UInt32)) (s : σ) :
    setOptionValues setParameter params s = setParameters setParameter (givenParams params) s := by
  induction params generalizing s with
  | nil => rfl
  | cons entry rest ih =>
      obtain ⟨param, option⟩ := entry
      cases option with
      | none => exact ih s
      | some value =>
          show setOptionValues setParameter ((param, some value) :: rest) s =
            setParameters setParameter ((param, value) :: givenParams rest) s
          rw [setOptionValues, setParameters, ih]
          cases (setParameter s param value).1 <;> rfl

theorem ParamsAsGiven.calls {parameters : List (π × String)} {h : Hash}
    {params : List (π × Option UInt32)} (hparams : ParamsAsGiven parameters h params) :
    CallsAsGiven parameters h (givenParams params) := by
  unfold CallsAsGiven
  induction hparams with
  | nil => rfl
  | @cons parameter param parameters params hfirst _ ih =>
      obtain ⟨hparam, hvalue⟩ := hfirst
      obtain ⟨kind, option⟩ := param
      obtain rfl : kind = parameter.1 := hparam
      unfold ValueAsGiven at hvalue
      rw [List.filterMap_cons, ← hvalue]
      cases option with
      | none => exact ih
      | some value => exact congrArg _ ih

/-- A new instance that cannot be had is an error of the library. -/
theorem createCoder_error {create : σ} {setOptions : σ → ExtResult × σ} {m m' : Memory}
    {e : RubyError} (hset : (setOptions create).1 = .ok ∨ (setOptions create).1 = .validateFailed)
    (h : (createCoder create setOptions m : Except RubyError (Coder UInt8 σ ω ρ) × Memory) =
      (.error e, m')) : IsOwnError e := by
  rcases hallocate : m.allocate with ⟨_ | handle, m₁⟩
  · simp only [createCoder, hallocate] at h
    exact Or.inr (Except.error.inj (Prod.mk.inj h).1).symm
  · rcases hs : setOptions create with ⟨extResult, s⟩
    rw [hs] at hset
    rcases hset with rfl | rfl
    · simp only [createCoder, hallocate, hs] at h
      cases (Prod.mk.inj h).1
    · simp only [createCoder, hallocate, hs] at h
      exact Or.inl (Except.error.inj (Prod.mk.inj h).1).symm

theorem createCoder_state {create : σ} {setOptions : σ → ExtResult × σ} {m m' : Memory}
    {coder : Coder UInt8 σ ω ρ} (h : createCoder create setOptions m = (.ok coder, m')) :
    setOptions create = (.ok, coder.state) := by
  rcases createCoder_cases (ω := ω) (ρ := ρ) create setOptions m with
    ⟨e, m₁, heq⟩ | ⟨handle, s, m₁, hset, heq⟩
  · rw [heq] at h
    cases (Prod.mk.inj h).1
  · rw [heq] at h
    rw [hset, ← Except.ok.inj (Prod.mk.inj h).1]

theorem setParameters_fst (setParameter : σ → π → UInt32 → Bool × σ) (calls : List (π × UInt32))
    (s : σ) : (setParameters setParameter calls s).1 = .ok ∨
      (setParameters setParameter calls s).1 = .validateFailed := by
  induction calls generalizing s with
  | nil => exact Or.inl rfl
  | cons call rest ih =>
      unfold setParameters
      split
      · exact ih _
      · exact Or.inr rfl

/-! ## Reading options -/

theorem not_isOwnError_typeError : ¬ IsOwnError .typeError := by
  rintro (h | h) <;> cases h

theorem not_isOwnError_rangeError : ¬ IsOwnError .rangeError := by
  rintro (h | h) <;> cases h

/-- A length is read as it is, as long as it is a fixnum. -/
theorem getSizeOptionValue_eq {h : Hash} {name : String} {n : Int} (hn : 0 ≤ n)
    (hget : h.get (.symbol name) = .integer n) :
    brsExtGetSizeOptionValue h name = if n < 2 ^ 62 then .ok n.toNat else .error .typeError := by
  have hvalue : brsExtGetSizeOptionValue h name =
      (do return num2sizet (← checkFixnum (.integer n))) := by
    rw [← hget]
    rfl
  rw [hvalue]
  split
  · rename_i hlt
    have hfixnum : IsFixnum n := ⟨by omega, hlt⟩
    have hmod : n % 2 ^ 64 = n := Int.emod_eq_of_lt hn (by omega)
    simp only [checkFixnum, if_pos hfixnum]
    show Except.ok (num2sizet n) = _
    rw [num2sizet, hmod]
  · rename_i hge
    have hnot : ¬ IsFixnum n := fun hfixnum => hge hfixnum.2
    simp only [checkFixnum, if_neg hnot]
    rfl

theorem lengthFits_iff {h : Hash} {name : String} {n : Int}
    (hget : h.get (.symbol name) = .integer n) : LengthFits h name ↔ n < 2 ^ 62 := by
  refine ⟨fun hfits => hfits n hget, fun hlt k hk => ?_⟩
  rw [hget] at hk
  rwa [← Value.integer.inj hk]

theorem lengthAsGiven_orDefault {h : Hash} {name : String} {n : Int} (default : Nat) (hn : 0 ≤ n)
    (hget : h.get (.symbol name) = .integer n) :
    LengthAsGiven h name default (orDefault n.toNat default) := by
  refine ⟨n, hget, ?_⟩
  unfold orDefault
  by_cases hzero : n = 0
  · subst hzero
    simp
  · have htoNat : n.toNat ≠ 0 := by omega
    rw [if_neg htoNat, if_neg hzero]
    omega

theorem getBoolValue_bool {value : Value} (h : value = .true ∨ value = .false) :
    ∃ b, getBoolValue value = .ok b := by
  rcases h with rfl | rfl
  · exact ⟨true, rfl⟩
  · exact ⟨false, rfl⟩

namespace OptionKit

variable {K : OptionKit σ θ π} {h : Hash} {m : Memory}

/-- The codec's options are read, each with the number that it stands for. -/
def Reads (K : OptionKit σ θ π) (h : Hash) : Prop :=
  ∃ options, K.getCodecOptions h = .ok options ∧ ParamsAsGiven K.parameters h (K.params options)

/-- The codec's options are refused with an error that is not the library's own. -/
def Refuses (K : OptionKit σ θ π) (h : Hash) : Prop :=
  ∃ e, K.getCodecOptions h = .error e ∧ ¬ IsOwnError e

section Processed

variable {read : Except RubyError α} {codec : α → θ} {lengths : α → Prop}

theorem processedAsGiven_of_ok {options : α} (hread : read = .ok options)
    (hlengths : lengths options)
    (hparams : ParamsAsGiven K.parameters h (K.params (codec options))) :
    K.ProcessedAsGiven h lengths (configure (ω := ω) (ρ := ρ) read K.create
      (fun s options => K.setOptions s (codec options)) m).1 := by
  have hset : ∀ s, K.setOptions s (codec options) =
      setParameters K.setParameter (givenParams (K.params (codec options))) s :=
    setOptionValues_eq K.setParameter _
  rcases hcreate : createCoder (ω := ω) (ρ := ρ) K.create
    (fun s => K.setOptions s (codec options)) m with ⟨e | coder, m'⟩
  · refine Or.inl ⟨e, by simp only [configure, hread, hcreate], ?_⟩
    refine createCoder_error ?_ hcreate
    rw [hset]
    exact setParameters_fst _ _ _
  · refine Or.inr ⟨options, coder, _, by simp only [configure, hread, hcreate], hlengths,
      hparams.calls, ?_⟩
    rw [← hset]
    exact createCoder_state hcreate

theorem not_processedAsGiven_of_error {e : RubyError} (hread : read = .error e)
    (he : ¬ IsOwnError e) :
    ¬ K.ProcessedAsGiven h lengths (configure (ω := ω) (ρ := ρ) read K.create
      (fun s options => K.setOptions s (codec options)) m).1 := by
  have hleft : (configure (ω := ω) (ρ := ρ) read K.create
      (fun s options => K.setOptions s (codec options)) m).1 = .error e := by
    rw [hread]
    rfl
  rw [hleft]
  rintro (⟨e', heq, hown⟩ | ⟨options, coder, calls, heq, -⟩)
  · rw [← Except.error.inj heq] at hown
    exact he hown
  · cases heq

end Processed

variable {fits : Prop} {n : Int} (hn : 0 ≤ n)
  (hlength : h.get (.symbol "destination_buffer_length") = .integer n)
  (hgvl : h.get (.symbol "gvl") = .true ∨ h.get (.symbol "gvl") = .false)

include hn hlength hgvl in
/-- Behind the length and `gvl`, which are read first, the codec's options decide. -/
theorem getStringOptions_eq : ∃ gvl, getStringOptions K.getCodecOptions h =
    if n < 2 ^ 62 then (K.getCodecOptions h).map (⟨n.toNat, gvl, ·⟩) else .error .typeError := by
  obtain ⟨gvl, hgvl⟩ := getBoolValue_bool hgvl
  refine ⟨gvl, ?_⟩
  have hgvl' : brsExtGetBoolOptionValue h "gvl" = .ok gvl := hgvl
  rw [getStringOptions, getSizeOptionValue_eq hn hlength]
  split
  · rw [hgvl']
    cases K.getCodecOptions h <;> rfl
  · rfl

include hn hlength hgvl in
theorem stringAsGiven_iff (hreads : fits → K.Reads h) (hrefuses : ¬ fits → K.Refuses h) :
    K.StringAsGiven ω ρ m h ↔ LengthFits h "destination_buffer_length" ∧ fits := by
  obtain ⟨gvl, hread⟩ := getStringOptions_eq (K := K) hn hlength hgvl
  rw [lengthFits_iff hlength]
  by_cases hlt : n < 2 ^ 62
  · rw [if_pos hlt] at hread
    by_cases hfits : fits
    · obtain ⟨options, hoptions, hparams⟩ := hreads hfits
      rw [hoptions] at hread
      refine iff_of_true ?_ ⟨hlt, hfits⟩
      exact processedAsGiven_of_ok hread (lengthAsGiven_orDefault _ hn hlength) hparams
    · obtain ⟨e, herror, hown⟩ := hrefuses hfits
      rw [herror] at hread
      exact iff_of_false (not_processedAsGiven_of_error hread hown) fun hboth => hfits hboth.2
  · rw [if_neg hlt] at hread
    exact iff_of_false (not_processedAsGiven_of_error hread not_isOwnError_typeError)
      fun hboth => hlt hboth.1

include hn hlength hgvl in
theorem ioAsGiven_iff {k : Int} (hk : 0 ≤ k)
    (hsource : h.get (.symbol "source_buffer_length") = .integer k)
    (hreads : fits → K.Reads h) (hrefuses : ¬ fits → K.Refuses h) :
    K.IoAsGiven ω ρ m h ↔ LengthFits h "source_buffer_length" ∧
      LengthFits h "destination_buffer_length" ∧ fits := by
  obtain ⟨gvl, hstring⟩ := getStringOptions_eq (K := K) hn hlength hgvl
  have hread : getIoOptions K.getCodecOptions h =
      if k < 2 ^ 62 then
        (getStringOptions K.getCodecOptions h).map ({ · with sourceBufferLength := k.toNat })
      else .error .typeError := by
    rw [getIoOptions, getSizeOptionValue_eq hk hsource]
    split
    · cases getStringOptions K.getCodecOptions h <;> rfl
    · rfl
  rw [lengthFits_iff hsource, lengthFits_iff hlength]
  by_cases hltk : k < 2 ^ 62
  · rw [if_pos hltk, hstring] at hread
    by_cases hlt : n < 2 ^ 62
    · rw [if_pos hlt] at hread
      by_cases hfits : fits
      · obtain ⟨options, hoptions, hparams⟩ := hreads hfits
        rw [hoptions] at hread
        refine iff_of_true ?_ ⟨hltk, hlt, hfits⟩
        exact processedAsGiven_of_ok hread
          ⟨lengthAsGiven_orDefault _ hk hsource, lengthAsGiven_orDefault _ hn hlength⟩ hparams
      · obtain ⟨e, herror, hown⟩ := hrefuses hfits
        rw [herror] at hread
        exact iff_of_false (not_processedAsGiven_of_error hread hown)
          fun hall => hfits hall.2.2
    · rw [if_neg hlt] at hread
      exact iff_of_false (not_processedAsGiven_of_error hread not_isOwnError_typeError)
        fun hall => hlt hall.2.1
  · rw [if_neg hltk] at hread
    exact iff_of_false (not_processedAsGiven_of_error hread not_isOwnError_typeError)
      fun hall => hltk hall.1

end OptionKit

/-! ## The options of the codecs -/

/-- `nil`, or an integer that is not negative. -/
def HintGiven (h : Hash) : Prop :=
  h.get (.symbol "size_hint") = .nil ∨
    ∃ n : Int, h.get (.symbol "size_hint") = .integer n ∧ 0 ≤ n

theorem compressorKit_reads (enc : Encoder σ) {h : Hash} {names : List Value}
    (hdocumented : Ruby.CompressorOptionsDocumented h.get names) (hhint : HintGiven h)
    (hfits : HintFits h) :
    (compressorKit enc).Reads h := by
  obtain ⟨o, ho, hparams⟩ := getCompressorOptions_asGiven hdocumented
  obtain ⟨sizeHint, hresolve, hgiven⟩ : ∃ option,
      brsExtResolveOption h .uint "size_hint" = .ok option ∧
        ValueAsGiven h "size_hint" option := by
    rcases hhint with hnil | ⟨n, hget, hn⟩
    · exact resolveOption_nil hnil
    · exact resolveOption_integer hn (hfits n hget) hget
  rw [hresolve] at ho
  exact ⟨o sizeHint, ho, hparams sizeHint hgiven⟩

/-- A size hint that is no unsigned int ends in an error of Ruby's. -/
theorem compressorKit_refuses (enc : Encoder σ) {h : Hash} {names : List Value}
    (hdocumented : Ruby.CompressorOptionsDocumented h.get names) (hfits : ¬ HintFits h) :
    (compressorKit enc).Refuses h := by
  obtain ⟨o, ho, -⟩ := getCompressorOptions_asGiven hdocumented
  simp only [HintFits, not_forall, not_lt] at hfits
  obtain ⟨n, hget, hge⟩ := hfits
  rw [resolveOption_large hge hget] at ho
  refine ⟨_, ho, ?_⟩
  split
  · exact not_isOwnError_rangeError
  · exact not_isOwnError_typeError

/-! ## From the Ruby layer -/

namespace Ruby

/-- `Stream::Raw::Compressor#initialize` up to its superclass. -/
def rawCompressorOptions (adsp : Adsp) (options : Argument) (bufferLengthNames : List Value) :
    Except RubyError Hash := do
  let options ← getCompressorOptions adsp options bufferLengthNames
  unlessNil (options.get (.symbol "size_hint")) adsp.validateNotNegativeInteger
  return options

/-- The hashes that the native functions of the compressor are called with:
    accepted options whose size hint was checked, or was added by the library. -/
inductive HandedToCompressor (adsp : Adsp) (bufferLengthNames : List Value) : Hash → Prop
  | checked {options : Argument} {h : Hash}
      (hraw : rawCompressorOptions adsp options bufferLengthNames = .ok h) :
      HandedToCompressor adsp bufferLengthNames h
  | sized {options : Argument} {h : Hash} (size : Nat)
      (haccepted : getCompressorOptions adsp options bufferLengthNames = .ok h) :
      HandedToCompressor adsp bufferLengthNames (h.set (.symbol "size_hint") (.integer size))

variable {adsp : Adsp} {names : List Value} {h : Hash}

theorem stringCompressOptions_handed {source : Value} {options : Argument}
    (hok : stringCompressOptions adsp source options = .ok h) :
    HandedToCompressor adsp adsp.stringBufferLengthNames h := by
  obtain ⟨_, -, hok⟩ := bind_ok hok
  obtain ⟨h', haccepted, hok⟩ := bind_ok hok
  cases source with
  | string bytes =>
      obtain rfl := Except.ok.inj hok
      exact .sized bytes.length haccepted
  | _ => cases hok

theorem fileCompressOptions_handed {source : Value} {size : Nat} {options : Argument}
    (hok : fileCompressOptions adsp source size options = .ok h) :
    HandedToCompressor adsp adsp.fileBufferLengthNames h := by
  obtain ⟨_, -, hok⟩ := bind_ok hok
  obtain ⟨h', haccepted, hok⟩ := bind_ok hok
  obtain rfl := Except.ok.inj hok
  exact .sized size haccepted

theorem HandedToCompressor.documented (hadsp : adsp.Documented)
    (hh : HandedToCompressor adsp names h) :
    CompressorOptionsDocumented h.get names ∧ HintGiven h := by
  cases hh with
  | checked hraw =>
      obtain ⟨h', haccepted, hraw⟩ := bind_ok hraw
      obtain ⟨_, hhint, hraw⟩ := bind_ok hraw
      obtain rfl := Except.ok.inj hraw
      refine ⟨getCompressorOptions_documented hadsp haccepted, ?_⟩
      exact (unlessNil_iff.mp hhint).imp_right (hadsp.notNegativeInteger _).mp
  | sized size haccepted =>
      have hdocumented := getCompressorOptions_documented hadsp haccepted
      refine ⟨hdocumented.set_sizeHint fun _ => ⟨size, rfl, by omega⟩, Or.inr ?_⟩
      exact ⟨size, Hash.get_set_self _ _ _, by omega⟩

end Ruby

theorem decompressorKit_reads (dec : Decoder σ) {h : Hash}
    {names : List Value} (hdocumented : Ruby.DecompressorOptionsDocumented h.get names) :
    (decompressorKit dec).Reads h := by
  obtain ⟨reallocation, hreallocation, hreallocation'⟩ :=
    resolveOption_bool hdocumented.disableRingBufferReallocation
  obtain ⟨window, hwindow, hwindow'⟩ := resolveOption_bool hdocumented.largeWindow
  refine ⟨⟨reallocation, window⟩, ?_, .cons ⟨rfl, hreallocation'⟩ (.cons ⟨rfl, hwindow'⟩ .nil)⟩
  show getDecompressorOptions h = _
  simp only [getDecompressorOptions, hreallocation, hwindow]
  rfl

/-- The options that the Ruby layer hands over, with the buffer lengths that a
    native function reads among the named ones, are taken as they are given
    exactly if these lengths are fixnums and the size hint is an unsigned int. -/
theorem options_agree_iff {adsp : Ruby.Adsp} (hadsp : adsp.Documented) (enc : Encoder σ)
    (dec : Decoder τ) (m : Memory) {names : List Value}
    (hdestination : .symbol "destination_buffer_length" ∈ names) :
    (∀ h, Ruby.HandedToCompressor adsp names h →
      ((compressorKit enc).StringAsGiven Operation Bool m h ↔
        LengthFits h "destination_buffer_length" ∧ HintFits h) ∧
      (.symbol "source_buffer_length" ∈ names →
        ((compressorKit enc).IoAsGiven Operation Bool m h ↔
          LengthFits h "source_buffer_length" ∧ LengthFits h "destination_buffer_length" ∧
            HintFits h))) ∧
    ∀ options h, Ruby.getDecompressorOptions adsp options names = .ok h →
      ((decompressorKit dec).StringAsGiven Unit DecoderResult m h ↔
        LengthFits h "destination_buffer_length") ∧
      (.symbol "source_buffer_length" ∈ names →
        ((decompressorKit dec).IoAsGiven Unit DecoderResult m h ↔
          LengthFits h "source_buffer_length" ∧ LengthFits h "destination_buffer_length")) := by
  constructor
  · intro h hh
    obtain ⟨hdocumented, hhint⟩ := hh.documented hadsp
    obtain ⟨n, hlength, hn⟩ := hdocumented.bufferLengths _ hdestination
    have hreads : HintFits h → (compressorKit enc).Reads h :=
      compressorKit_reads enc hdocumented hhint
    have hrefuses : ¬ HintFits h → (compressorKit enc).Refuses h :=
      compressorKit_refuses enc hdocumented
    have hgvl := hdocumented.gvl
    refine ⟨OptionKit.stringAsGiven_iff hn hlength hgvl hreads hrefuses, fun hsource => ?_⟩
    obtain ⟨k, hsourceLength, hk⟩ := hdocumented.bufferLengths _ hsource
    exact OptionKit.ioAsGiven_iff hn hlength hgvl hk hsourceLength hreads hrefuses
  · intro options h hok
    have hdocumented := Ruby.getDecompressorOptions_documented hadsp hok
    have hgvl := hdocumented.gvl
    obtain ⟨n, hlength, hn⟩ := hdocumented.bufferLengths _ hdestination
    have hreads : True → (decompressorKit dec).Reads h := fun _ =>
      decompressorKit_reads dec hdocumented
    have hrefuses : ¬ True → (decompressorKit dec).Refuses h := fun hnot => absurd trivial hnot
    constructor
    · rw [OptionKit.stringAsGiven_iff hn hlength hgvl hreads hrefuses, and_true]
    · intro hsource
      obtain ⟨k, hsourceLength, hk⟩ := hdocumented.bufferLengths _ hsource
      rw [OptionKit.ioAsGiven_iff hn hlength hgvl hk hsourceLength hreads hrefuses, and_true]

/-- A file of three bytes, and the decompression of one, with the default options. -/
theorem options_agree_threeBytes :
    ∃ h h', Ruby.fileCompressOptions .gem (.string []) 3 (.hash .empty) = .ok h ∧
      (compressorKit storedEncoder).IoAsGiven Operation Bool .unused h ∧
      Ruby.getDecompressorOptions .gem (.hash .empty) Ruby.Adsp.gem.fileBufferLengthNames =
        .ok h' ∧
      (decompressorKit (formatDecoder storedFormat id)).IoAsGiven Unit DecoderResult .unused
        h' := by
  obtain ⟨h, hcompress, hsource, hdestination, hhint⟩ : ∃ h,
      Ruby.fileCompressOptions .gem (.string []) 3 (.hash .empty) = .ok h ∧
      h.get (.symbol "source_buffer_length") = .integer 0 ∧
      h.get (.symbol "destination_buffer_length") = .integer 0 ∧
      h.get (.symbol "size_hint") = .integer 3 := ⟨_, rfl, rfl, rfl, rfl⟩
  obtain ⟨h', hdecompress, hsource', hdestination'⟩ : ∃ h',
      Ruby.getDecompressorOptions .gem (.hash .empty) Ruby.Adsp.gem.fileBufferLengthNames = .ok h' ∧
      h'.get (.symbol "source_buffer_length") = .integer 0 ∧
      h'.get (.symbol "destination_buffer_length") = .integer 0 := ⟨_, rfl, rfl, rfl⟩
  have hnamed : .symbol "destination_buffer_length" ∈ Ruby.Adsp.gem.fileBufferLengthNames := by
    decide
  have hsourceNamed : .symbol "source_buffer_length" ∈ Ruby.Adsp.gem.fileBufferLengthNames := by
    decide
  obtain ⟨hcompressor, hdecompressor⟩ := options_agree_iff Ruby.Adsp.gem_documented storedEncoder
    (formatDecoder storedFormat id) .unused hnamed
  have hfits : HintFits h := by
    intro n hn
    rw [hhint] at hn
    rw [← Value.integer.inj hn]
    omega
  refine ⟨h, h', hcompress, ?_, hdecompress, ?_⟩
  · refine ((hcompressor h (Ruby.fileCompressOptions_handed hcompress)).2 hsourceNamed).mpr ?_
    rw [lengthFits_iff hsource, lengthFits_iff hdestination]
    exact ⟨by omega, by omega, hfits⟩
  · refine ((hdecompressor _ h' hdecompress).2 hsourceNamed).mpr ?_
    rw [lengthFits_iff hsource', lengthFits_iff hdestination']
    exact ⟨by omega, by omega⟩

/-- A buffer length of `2 ^ 62` is accepted and then refused with a `TypeError`, and
    a size hint of `2 ^ 32` with a `RangeError`. -/
theorem options_disagree_large :
    (∃ h, Ruby.getDecompressorOptions .gem
        (.hash (.ofSymbols [("destination_buffer_length", .integer (2 ^ 62))]))
        [.symbol "destination_buffer_length"] = .ok h ∧
      ¬ (decompressorKit (formatDecoder storedFormat id)).StringAsGiven Unit DecoderResult
        .unused h) ∧
    ∃ h, Ruby.rawCompressorOptions .gem (.hash (.ofSymbols [("size_hint", .integer (2 ^ 32))]))
        [.symbol "destination_buffer_length"] = .ok h ∧
      ¬ (compressorKit storedEncoder).StringAsGiven Operation Bool .unused h := by
  constructor
  · obtain ⟨h, hok, hread⟩ : ∃ h, Ruby.getDecompressorOptions .gem
        (.hash (.ofSymbols [("destination_buffer_length", .integer (2 ^ 62))]))
        [.symbol "destination_buffer_length"] = .ok h ∧
      getStringOptions getDecompressorOptions h = .error .typeError := ⟨_, rfl, rfl⟩
    exact ⟨h, hok, OptionKit.not_processedAsGiven_of_error hread not_isOwnError_typeError⟩
  · obtain ⟨h, hok, hread⟩ : ∃ h, Ruby.rawCompressorOptions .gem
        (.hash (.ofSymbols [("size_hint", .integer (2 ^ 32))]))
        [.symbol "destination_buffer_length"] = .ok h ∧
      getStringOptions getCompressorOptions h = .error .rangeError := ⟨_, rfl, rfl⟩
    exact ⟨h, hok, OptionKit.not_processedAsGiven_of_error hread not_isOwnError_rangeError⟩

end RubyBrs
