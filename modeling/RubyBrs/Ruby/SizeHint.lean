/-
  RubyBrs.Ruby.SizeHint

  How options get from the Ruby layer through the native one: what
  `Option.get_compressor_options` accepts is read and set without an error, but
  for the size hint, which the Ruby layer adds afterwards and does not check.
-/

import RubyBrs.Ext.OptionValues
import RubyBrs.Ext.Stored

namespace RubyBrs

variable {σ : Type}

/-- The values that an encoder parameter is documented to have. -/
def EncoderParameter.Documented (value : UInt32) : EncoderParameter → Prop
  | .mode => value.toNat ≤ 2
  | .quality => value.toNat ≤ 11
  | .lgwin => 10 ≤ value.toNat ∧ value.toNat ≤ 24
  | .lgblock => 16 ≤ value.toNat ∧ value.toNat ≤ 24
  | EncoderParameter.npostfix => value.toNat ≤ 3
  | .ndirect => value.toNat ≤ 120
  | .disableLiteralContextModeling | .largeWindow => value.toNat ≤ 1
  | .sizeHint => True

/-- The states of a new encoder while its parameters are being set. -/
inductive Encoder.Configuring (enc : Encoder σ) : σ → Prop
  | create : Configuring enc enc.create
  | set {s : σ} (h : Configuring enc s) (param : EncoderParameter) (value : UInt32) :
      Configuring enc (enc.setParameter s param value).2

/-- A new encoder takes every documented value of every parameter. -/
def Encoder.AcceptsDocumented (enc : Encoder σ) : Prop :=
  ∀ {s param value}, enc.Configuring s → EncoderParameter.Documented value param →
    (enc.setParameter s param value).1 = true

/-- The native option layer takes the compressor options: it raises no exception
    and the encoder refuses no parameter. -/
def CompressorOptionsPass (enc : Encoder σ) (options : Hash) : Prop :=
  ∃ o, getCompressorOptions options = .ok o ∧
    (brsExtSetCompressorOptions enc enc.create o).1 = .ok

/-! ## Setting parameters -/

theorem setOptionValues_ok {enc : Encoder σ} (henc : enc.AcceptsDocumented)
    {params : List (EncoderParameter × Option UInt32)} {s : σ} (hs : enc.Configuring s)
    (hparams : ∀ param value, (param, some value) ∈ params →
      EncoderParameter.Documented value param) :
    (setOptionValues enc.setParameter params s).1 = .ok := by
  induction params generalizing s with
  | nil => rfl
  | cons entry rest ih =>
      have hrest : ∀ param value, (param, some value) ∈ rest →
          EncoderParameter.Documented value param := fun param value hmem =>
        hparams param value (List.mem_cons_of_mem _ hmem)
      obtain ⟨param, option⟩ := entry
      cases option with
      | none => exact ih hs hrest
      | some value =>
          have haccepts := henc hs (hparams param value (List.mem_cons_self ..))
          simp only [setOptionValues, haccepts, Bool.not_true, Bool.false_eq_true, if_false]
          exact ih (.set hs param value) hrest

/-! ## The size hint -/

/-- The numbers that documented options stand for are documented values. -/
theorem documented_of_given {h : Hash} {names : List Value}
    (hdocumented : Ruby.CompressorOptionsDocumented h.get names) {param : EncoderParameter}
    {name : String} (hmem : (param, name) ∈ compressorParameters) {value : UInt32}
    (hv : ValueAsGiven h name (some value)) : EncoderParameter.Documented value param := by
  simp only [compressorParameters, List.mem_cons, Prod.mk.injEq, List.not_mem_nil,
    or_false] at hmem
  -- One case for each parameter, in the order in which they are set.
  rcases hmem with ⟨rfl, rfl⟩ | ⟨rfl, rfl⟩ | ⟨rfl, rfl⟩ | ⟨rfl, rfl⟩ | ⟨rfl, rfl⟩ |
    ⟨rfl, rfl⟩ | ⟨rfl, rfl⟩ | ⟨rfl, rfl⟩ | ⟨rfl, rfl⟩
  · exact hv.mode hdocumented.mode
  · have hbounds := hv.inBounds hdocumented.quality
    simp only [EncoderParameter.Documented, Ruby.maxQuality] at hbounds ⊢
    omega
  · have hbounds := hv.inBounds hdocumented.lgwin
    simp only [EncoderParameter.Documented, Ruby.minLgwin, Ruby.maxLgwin] at hbounds ⊢
    omega
  · have hbounds := hv.inBounds hdocumented.lgblock
    simp only [EncoderParameter.Documented, Ruby.minLgblock, Ruby.maxLgblock] at hbounds ⊢
    omega
  · have hbounds := hv.inBounds hdocumented.npostfix
    simp only [EncoderParameter.Documented, Ruby.maxNpostfix] at hbounds ⊢
    omega
  · have hbounds := hv.inBounds hdocumented.ndirect_inBounds
    have hmax : Ruby.maxNdirect = 120 := by decide
    simp only [EncoderParameter.Documented, hmax] at hbounds ⊢
    omega
  · exact hv.boolOrNil hdocumented.disableLiteralContextModeling
  · trivial
  · exact hv.boolOrNil hdocumented.largeWindow

/-- Documented options with a size hint pass the native layer exactly when the hint
    fits an unsigned int. -/
theorem compressorOptionsPass_set_sizeHint {enc : Encoder σ} (henc : enc.AcceptsDocumented)
    {h : Hash} {names : List Value} (hdocumented : Ruby.CompressorOptionsDocumented h.get names)
    (size : Nat) :
    CompressorOptionsPass enc (h.set (.symbol "size_hint") (.integer size)) ↔ size < 2 ^ 32 := by
  have hdocumented' : Ruby.CompressorOptionsDocumented
      (h.set (.symbol "size_hint") (.integer size)).get names :=
    hdocumented.set_sizeHint fun _ => ⟨size, rfl, by omega⟩
  have hhint := h.get_set_self (.symbol "size_hint") (.integer size)
  obtain ⟨o, ho, hgiven⟩ := getCompressorOptions_asGiven hdocumented'
  constructor
  -- A hint that does not fit is not even read.
  · rintro ⟨o', ho', -⟩
    by_contra hlarge
    rw [ho, resolveOption_large (by omega) hhint] at ho'
    cases ho'
  · intro hlt
    obtain ⟨sizeHint, hresolve, hsizeHint⟩ := resolveOption_integer (by omega) (by omega) hhint
    rw [hresolve] at ho
    refine ⟨_, ho, setOptionValues_ok henc .create fun param value hmem => ?_⟩
    obtain ⟨name, hname, hv⟩ := (hgiven sizeHint hsizeHint).mem hmem
    exact documented_of_given hdocumented' hname hv

/-- The options of `BRS::String.compress` and `BRS::File.compress` pass the native
    layer exactly when the length of the source fits an unsigned int. -/
theorem compress_passes_iff {adsp : Ruby.Adsp} (hadsp : adsp.Documented) {enc : Encoder σ}
    (henc : enc.AcceptsDocumented) (options : Argument) :
    (∀ bytes h, Ruby.stringCompressOptions adsp (.string bytes) options = .ok h →
      (CompressorOptionsPass enc h ↔ bytes.length < 2 ^ 32)) ∧
    ∀ path size h, Ruby.fileCompressOptions adsp path size options = .ok h →
      (CompressorOptionsPass enc h ↔ size < 2 ^ 32) := by
  constructor
  · intro bytes h hok
    obtain ⟨_, -, hok⟩ := bind_ok hok
    obtain ⟨h', hoptions, hok⟩ := bind_ok hok
    obtain rfl : h'.set (.symbol "size_hint") (.integer bytes.length) = h := by injection hok
    exact compressorOptionsPass_set_sizeHint henc
      (Ruby.getCompressorOptions_documented hadsp hoptions) bytes.length
  · intro path size h hok
    obtain ⟨_, -, hok⟩ := bind_ok hok
    obtain ⟨h', hoptions, hok⟩ := bind_ok hok
    obtain rfl : h'.set (.symbol "size_hint") (.integer size) = h := by injection hok
    exact compressorOptionsPass_set_sizeHint henc
      (Ruby.getCompressorOptions_documented hadsp hoptions) size

theorem storedEncoder_acceptsDocumented : storedEncoder.AcceptsDocumented :=
  fun _ _ => rfl

/-- Three bytes with the default options. -/
theorem compress_passes_threeBytes :
    ∃ h, Ruby.stringCompressOptions .gem (.string [1, 2, 3]) (.hash .empty) = .ok h ∧
      CompressorOptionsPass storedEncoder h := by
  refine ⟨_, rfl, ?_⟩
  refine ((compress_passes_iff Ruby.Adsp.gem_documented storedEncoder_acceptsDocumented
    (.hash .empty)).1 [1, 2, 3] _ rfl).mpr ?_
  decide

/-- A file of 4 GiB with the default options. -/
theorem not_passes_fourGiB :
    ∃ h, Ruby.fileCompressOptions .gem (.string []) (2 ^ 32) (.hash .empty) = .ok h ∧
      ¬ CompressorOptionsPass storedEncoder h := by
  obtain ⟨options, hoptions⟩ : ∃ options, Ruby.getCompressorOptions .gem (.hash .empty)
      Ruby.Adsp.gem.fileBufferLengthNames = .ok options := ⟨_, rfl⟩
  have hdocumented := Ruby.getCompressorOptions_documented Ruby.Adsp.gem_documented hoptions
  refine ⟨options.set (.symbol "size_hint") (.integer (2 ^ 32 : Nat)), ?_, fun hpass => ?_⟩
  · simp only [Ruby.fileCompressOptions, hoptions]
    rfl
  · have hlt := (compressorOptionsPass_set_sizeHint storedEncoder_acceptsDocumented
      hdocumented (2 ^ 32)).mp hpass
    omega

end RubyBrs
