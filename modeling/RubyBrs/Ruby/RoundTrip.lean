/-
  RubyBrs.Ruby.RoundTrip

  From the options of a program's call to its data and back.

  The options go through the Ruby layer, which may process them any number of times,
  as the superclasses of the `adsp` gem process them again, and then through the native
  one, which sets them on a new codec instance.  They arrive there exactly if they are
  documented and the numbers that C reads from them are no larger than it can read
  (`Producer.arrives_iff`, `Consumer.arrives_iff`).  With any such options on both
  sides, and a library that keeps to one format in the two states that they lead to,
  whatever was compressed is what is decompressed (`user_round_trip`).
-/

import RubyBrs.Ext.Interchange
import RubyBrs.Ruby.Processing

namespace RubyBrs

open StreamFormat

variable {σ τ : Type}

/-! ## The native layer -/

namespace OptionKit

variable {θ π : Type} {K : OptionKit σ θ π} {h : Hash}

/-- The options are read for a string or a stream, and leave a new instance in `init`. -/
def StringConfigured (K : OptionKit σ θ π) (h : Hash) (init : σ) : Prop :=
  ∃ read, getStringOptions K.getCodecOptions h = .ok read ∧
    K.setOptions K.create read.codec = (.ok, init)

/-- The options are read for a file, and leave a new instance in `init`. -/
def IoConfigured (K : OptionKit σ θ π) (h : Hash) (init : σ) : Prop :=
  ∃ read, getIoOptions K.getCodecOptions h = .ok read ∧
    K.setOptions K.create read.codec = (.ok, init)

/-- An instance takes options as they are given. -/
def Takes (K : OptionKit σ θ π) (h : Hash) : Prop :=
  ∀ options, ParamsAsGiven K.parameters h (K.params options) →
    (K.setOptions K.create options).1 = .ok

variable {fits : Prop} {n : Int} (hn : 0 ≤ n)
  (hlength : h.get (.symbol "destination_buffer_length") = .integer n)
  (hgvl : h.get (.symbol "gvl") = .true ∨ h.get (.symbol "gvl") = .false)
  (hreads : fits → K.Reads h) (hrefuses : ¬ fits → K.Refuses h) (htakes : K.Takes h)

include hn hlength hgvl hreads hrefuses htakes

theorem stringConfigured_iff :
    (∃ init, K.StringConfigured h init) ↔ LengthFits h "destination_buffer_length" ∧ fits := by
  obtain ⟨gvl, hread⟩ := getStringOptions_eq (K := K) hn hlength hgvl
  rw [lengthFits_iff hlength]
  constructor
  · rintro ⟨init, read, hok, -⟩
    rw [hread] at hok
    split at hok
    · rename_i hlt
      refine ⟨hlt, ?_⟩
      by_contra hnot
      obtain ⟨e, herror, -⟩ := hrefuses hnot
      rw [herror] at hok
      cases hok
    · cases hok
  · rintro ⟨hlt, hfits⟩
    obtain ⟨options, hoptions, hparams⟩ := hreads hfits
    rw [if_pos hlt, hoptions] at hread
    exact ⟨_, _, hread, Prod.ext (htakes options hparams) rfl⟩

theorem ioConfigured_iff {k : Int} (hk : 0 ≤ k)
    (hsource : h.get (.symbol "source_buffer_length") = .integer k) :
    (∃ init, K.IoConfigured h init) ↔ LengthFits h "source_buffer_length" ∧
      LengthFits h "destination_buffer_length" ∧ fits := by
  have hstring := stringConfigured_iff hn hlength hgvl hreads hrefuses htakes
  rw [← hstring, lengthFits_iff hsource]
  have hread : getIoOptions K.getCodecOptions h =
      if k < 2 ^ 62 then
        (getStringOptions K.getCodecOptions h).map ({ · with sourceBufferLength := k.toNat })
      else .error .typeError := by
    rw [getIoOptions, getSizeOptionValue_eq hk hsource]
    split
    · cases getStringOptions K.getCodecOptions h <;> rfl
    · rfl
  constructor
  · rintro ⟨init, read, hok, hset⟩
    rw [hread] at hok
    split at hok
    · rename_i hlt
      cases hrest : getStringOptions K.getCodecOptions h with
      | error e =>
          rw [hrest] at hok
          cases hok
      | ok rest =>
          rw [hrest] at hok
          obtain rfl := Except.ok.inj hok
          exact ⟨hlt, init, rest, hrest, hset⟩
    · cases hok
  · rintro ⟨hlt, init, rest, hrest, hset⟩
    rw [if_pos hlt, hrest] at hread
    exact ⟨init, _, hread, hset⟩

end OptionKit

/-- The states of a new decoder while its parameters are being set. -/
inductive Decoder.Configuring (dec : Decoder σ) : σ → Prop
  | create : Configuring dec dec.create
  | set {s : σ} (h : Configuring dec s) (param : DecoderParameter) (value : UInt32) :
      Configuring dec (dec.setParameter s param value).2

/-- A new decoder takes both values of both parameters. -/
def Decoder.AcceptsDocumented (dec : Decoder σ) : Prop :=
  ∀ {s param} {value : UInt32}, dec.Configuring s → value.toNat ≤ 1 →
    (dec.setParameter s param value).1 = true

theorem setOptionValues_decoder_ok {dec : Decoder σ} (hdec : dec.AcceptsDocumented)
    {params : List (DecoderParameter × Option UInt32)} {s : σ} (hs : dec.Configuring s)
    (hparams : ∀ param value, (param, some value) ∈ params → value.toNat ≤ 1) :
    (setOptionValues dec.setParameter params s).1 = .ok := by
  induction params generalizing s with
  | nil => rfl
  | cons entry rest ih =>
      have hrest : ∀ param value, (param, some value) ∈ rest → value.toNat ≤ 1 :=
        fun param value hmem => hparams param value (List.mem_cons_of_mem _ hmem)
      obtain ⟨param, option⟩ := entry
      cases option with
      | none => exact ih hs hrest
      | some value =>
          have haccepts : (dec.setParameter s param value).1 = true :=
            hdec hs (hparams param value (List.mem_cons_self ..))
          simp only [setOptionValues, haccepts, Bool.not_true, Bool.false_eq_true, if_false]
          exact ih (.set hs param value) hrest

section Takes

variable {h : Hash}

theorem compressorKit_takes {enc : Encoder σ} (henc : enc.AcceptsDocumented) {names : List Value}
    (hdocumented : Ruby.CompressorOptionsDocumented h.get names) :
    (compressorKit enc).Takes h := by
  intro options hparams
  refine setOptionValues_ok henc .create fun param value hmem => ?_
  obtain ⟨name, hname, hv⟩ := hparams.mem hmem
  exact documented_of_given hdocumented hname hv

theorem decompressorKit_takes {dec : Decoder σ} (hdec : dec.AcceptsDocumented)
    {names : List Value} (hdocumented : Ruby.DecompressorOptionsDocumented h.get names) :
    (decompressorKit dec).Takes h := by
  intro options hparams
  refine setOptionValues_decoder_ok hdec .create fun param value hmem => ?_
  obtain ⟨name, hname, hv⟩ := hparams.mem hmem
  change (param, name) ∈ decompressorParameters at hname
  simp only [decompressorParameters, List.mem_cons, Prod.mk.injEq, List.not_mem_nil,
    or_false] at hname
  rcases hname with ⟨-, rfl⟩ | ⟨-, rfl⟩
  · exact hv.boolOrNil hdocumented.disableRingBufferReallocation
  · exact hv.boolOrNil hdocumented.largeWindow

end Takes

/-- What the native functions read of a hash is what is under its keys. -/
theorem resolveOption_congr {h h' : Hash} (hget : h'.get = h.get) (type : OptionType)
    (name : String) : brsExtResolveOption h' type name = brsExtResolveOption h type name := by
  have hvalue : getRawValue h' name = getRawValue h name := congrFun hget _
  rw [brsExtResolveOption, brsExtResolveOption, hvalue]

namespace OptionKit

variable {θ π : Type} {K : OptionKit σ θ π} {h h' : Hash} {init : σ}

theorem StringConfigured.congr (hget : h'.get = h.get)
    (hcodec : K.getCodecOptions h' = K.getCodecOptions h) (hh : K.StringConfigured h init) :
    K.StringConfigured h' init := by
  obtain ⟨read, hread, hset⟩ := hh
  refine ⟨read, ?_, hset⟩
  rw [← hread]
  simp only [getStringOptions, brsExtGetSizeOptionValue, brsExtGetBoolOptionValue, getRawValue,
    hget, hcodec]

theorem IoConfigured.congr (hget : h'.get = h.get)
    (hcodec : K.getCodecOptions h' = K.getCodecOptions h) (hh : K.IoConfigured h init) :
    K.IoConfigured h' init := by
  obtain ⟨read, hread, hset⟩ := hh
  refine ⟨read, ?_, hset⟩
  rw [← hread]
  simp only [getIoOptions, getStringOptions, brsExtGetSizeOptionValue, brsExtGetBoolOptionValue,
    getRawValue, hget, hcodec]

end OptionKit

/-! ## Producers -/

/-- No integer under the name reaches the bound. -/
def IntegerBelow (option : Value → Value) (name : String) (bound : Int) : Prop :=
  ∀ n : Int, option (.symbol name) = .integer n → n < bound

namespace Producer

/-- The names of the buffer lengths of a producer's class. -/
def lengthNames (adsp : Ruby.Adsp) (streamNames : List Value) : Producer → List Value
  | .string => adsp.stringBufferLengthNames
  | .file => adsp.fileBufferLengthNames
  | .stream _ => streamNames

/-- What `BRS::String.compress`, `BRS::File.compress` or `BRS::Stream::Raw::Compressor.new`
    makes of its options. -/
def processOptions (adsp : Ruby.Adsp) (streamNames : List Value) (path source : List UInt8)
    (options : Argument) : Producer → Except RubyError Hash
  | .string => Ruby.stringCompressOptions adsp (.string source) options
  | .file => Ruby.fileCompressOptions adsp (.string path) source.length options
  | .stream _ => Ruby.rawCompressorOptions adsp options streamNames

/-- The options that come to the native function, when the superclass processes them so
    many times again. -/
def handOver (adsp : Ruby.Adsp) (streamNames : List Value) (path source : List UInt8)
    (times : Nat) (options : Argument) (p : Producer) : Except RubyError Hash := do
  let options ← p.processOptions adsp streamNames path source options
  Ruby.processAgain
    (fun options => Ruby.getCompressorOptions adsp (.hash options)
      (p.lengthNames adsp streamNames)) times options

/-- The size hint is an unsigned int: the one that the program may give to a stream, or the
    size of the source. -/
def HintUsable (option : Value → Value) (source : List UInt8) : Producer → Prop
  | .stream _ => option (.symbol "size_hint") = .nil ∨
      ∃ n : Int, option (.symbol "size_hint") = .integer n ∧ 0 ≤ n ∧ n < 2 ^ 32
  | _ => source.length < 2 ^ 32

/-- The options are documented, and C can read their numbers. -/
structure Usable (names : List Value) (source : List UInt8) (given : Hash) (p : Producer) :
    Prop where
  documented : Ruby.CompressorOptionsDocumented
    (Ruby.optionIn Ruby.compressorDefaults given names) names
  destinationBufferLength : IntegerBelow (Ruby.optionIn Ruby.compressorDefaults given names)
    "destination_buffer_length" (2 ^ 62)
  sourceBufferLength : p = .file →
    IntegerBelow (Ruby.optionIn Ruby.compressorDefaults given names) "source_buffer_length"
      (2 ^ 62)
  hint : p.HintUsable (Ruby.optionIn Ruby.compressorDefaults given names) source

/-- A stream's size hint is checked as a length. -/
def HintChecked (option : Value → Value) : Producer → Prop
  | .stream _ => option (.symbol "size_hint") = .nil ∨
      ∃ n : Int, option (.symbol "size_hint") = .integer n ∧ 0 ≤ n
  | _ => True

/-- What the options become, when they are accepted. -/
def processed (names : List Value) (source : List UInt8) (given : Hash) : Producer → Hash
  | .stream _ => Ruby.mergedWith Ruby.compressorDefaults given names
  | _ => (Ruby.mergedWith Ruby.compressorDefaults given names).set (.symbol "size_hint")
      (.integer source.length)

section Processing

variable {adsp : Ruby.Adsp} {streamNames names : List Value} {path source : List UInt8}
  {options : Argument} {given h : Hash} {p : Producer}

theorem processed_full :
    Ruby.Full Ruby.compressorDefaults names (p.processed names source given) := by
  have hfull : Ruby.Full Ruby.compressorDefaults names
      (Ruby.mergedWith Ruby.compressorDefaults given names) := Ruby.full_mergedWith _ _
  cases p with
  | stream _ => exact hfull
  | string => exact hfull.set _ _
  | file => exact hfull.set _ _

/-- Only the size hint may be another. -/
theorem processed_get {key : Value} (hne : key ≠ .symbol "size_hint") :
    (p.processed names source given).get key =
      Ruby.optionIn Ruby.compressorDefaults given names key := by
  rw [← Ruby.get_mergedWith]
  cases p with
  | stream _ => rfl
  | string => exact Hash.get_set_ne _ _ hne
  | file => exact Hash.get_set_ne _ _ hne

theorem processed_documented
    (h : Ruby.CompressorOptionsDocumented
      (Ruby.optionIn Ruby.compressorDefaults given names) names) :
    Ruby.CompressorOptionsDocumented (p.processed names source given).get names := by
  rw [← Ruby.get_mergedWith] at h
  have hset : Ruby.CompressorOptionsDocumented ((Ruby.mergedWith Ruby.compressorDefaults given
      names).set (.symbol "size_hint") (.integer source.length)).get names :=
    h.set_sizeHint fun _ => ⟨source.length, rfl, by omega⟩
  cases p with
  | stream _ => exact h
  | string => exact hset
  | file => exact hset

theorem processOptions_iff (hadsp : adsp.Documented) :
    p.processOptions adsp streamNames path source options = .ok h ↔
      ∃ given, options = .hash given ∧
        Ruby.CompressorOptionsDocumented (Ruby.optionIn Ruby.compressorDefaults given
          (p.lengthNames adsp streamNames)) (p.lengthNames adsp streamNames) ∧
        p.HintChecked (Ruby.optionIn Ruby.compressorDefaults given
          (p.lengthNames adsp streamNames)) ∧
        h = p.processed (p.lengthNames adsp streamNames) source given := by
  cases p with
  | string =>
      rw [processOptions]
      exact (Ruby.sizedOptions_iff hadsp ((hadsp.string _).mpr ⟨source, rfl⟩)).trans
        (by simp only [HintChecked, true_and]; rfl)
  | file =>
      rw [processOptions]
      exact (Ruby.sizedOptions_iff hadsp ((hadsp.string _).mpr ⟨path, rfl⟩)).trans
        (by simp only [HintChecked, true_and]; rfl)
  | stream _ => exact Ruby.rawCompressorOptions_iff hadsp

/-- The options that come to the native function are, under every key, those that were
    processed first; and processing them again is never refused. -/
theorem handOver_iff (hadsp : adsp.Documented) (times : Nat) {P : Hash → Prop}
    (hP : ∀ h h', h'.get = h.get → P h → P h') :
    (∃ h, p.handOver adsp streamNames path source times options = .ok h ∧ P h) ↔
      ∃ h, p.processOptions adsp streamNames path source options = .ok h ∧ P h := by
  refine Ruby.processedAgain_iff (D := (Ruby.CompressorOptionsDocumented · _))
    (Ruby.getCompressorOptions_hash_iff hadsp) ?_ times hP
  intro h hfirst
  obtain ⟨given, -, hdocumented, -, rfl⟩ := (processOptions_iff hadsp).mp hfirst
  exact ⟨processed_full, processed_documented hdocumented⟩

end Processing

theorem Configured.congr {enc : Encoder σ} {init : σ} {p : Producer} (h h' : Hash)
    (hget : h'.get = h.get) (hp : p.Configured enc h init) : p.Configured enc h' init := by
  have hcodec : (compressorKit enc).getCodecOptions h' =
      (compressorKit enc).getCodecOptions h := by
    simp only [compressorKit, getCompressorOptions, resolveOption_congr hget]
  cases p with
  | file => exact OptionKit.IoConfigured.congr hget hcodec hp
  | string => exact OptionKit.StringConfigured.congr hget hcodec hp
  | stream _ => exact OptionKit.StringConfigured.congr hget hcodec hp

end Producer

/-- The gem's classes name the buffer lengths that their native functions read. -/
structure Ruby.Adsp.NamesLengths (adsp : Ruby.Adsp) (streamNames : List Value) : Prop where
  string : .symbol "destination_buffer_length" ∈ adsp.stringBufferLengthNames
  fileSource : .symbol "source_buffer_length" ∈ adsp.fileBufferLengthNames
  fileDestination : .symbol "destination_buffer_length" ∈ adsp.fileBufferLengthNames
  stream : .symbol "destination_buffer_length" ∈ streamNames

namespace Producer

variable {adsp : Ruby.Adsp} {streamNames : List Value} {path source : List UInt8}
  {enc : Encoder σ} {p : Producer}

theorem lengthNames_destination (hnames : adsp.NamesLengths streamNames) :
    .symbol "destination_buffer_length" ∈ p.lengthNames adsp streamNames := by
  cases p with
  | string => exact hnames.string
  | file => exact hnames.fileDestination
  | stream _ => exact hnames.stream

theorem handed {options : Argument} {h : Hash}
    (hok : p.processOptions adsp streamNames path source options = .ok h) :
    Ruby.HandedToCompressor adsp (p.lengthNames adsp streamNames) h := by
  cases p with
  | string => exact Ruby.stringCompressOptions_handed hok
  | file => exact Ruby.fileCompressOptions_handed hok
  | stream _ => exact .checked hok

/-- Accepted options are read and set exactly if C can read their numbers. -/
theorem configured_iff (hadsp : adsp.Documented) (hnames : adsp.NamesLengths streamNames)
    (henc : enc.AcceptsDocumented) {h : Hash}
    (hh : Ruby.HandedToCompressor adsp (p.lengthNames adsp streamNames) h) :
    (∃ init, p.Configured enc h init) ↔ (p = .file → LengthFits h "source_buffer_length") ∧
      LengthFits h "destination_buffer_length" ∧ HintFits h := by
  obtain ⟨hdocumented, hhint⟩ := hh.documented hadsp
  have hgvl := hdocumented.gvl
  obtain ⟨n, hlength, hn⟩ := hdocumented.bufferLengths _ (lengthNames_destination hnames)
  have hreads : HintFits h → (compressorKit enc).Reads h :=
    compressorKit_reads enc hdocumented hhint
  have hrefuses : ¬ HintFits h → (compressorKit enc).Refuses h :=
    compressorKit_refuses enc hdocumented
  have htakes : (compressorKit enc).Takes h := compressorKit_takes henc hdocumented
  have hstring := OptionKit.stringConfigured_iff hn hlength hgvl hreads hrefuses htakes
  cases p with
  | string => exact hstring.trans (by simp)
  | file =>
      obtain ⟨k, hsource, hk⟩ := hdocumented.bufferLengths _ hnames.fileSource
      exact (OptionKit.ioConfigured_iff hn hlength hgvl hreads hrefuses htakes hk hsource).trans
        (by simp)
  | stream _ => exact hstring.trans (by simp)

theorem hintUsable_iff {names : List Value} {given : Hash} :
    p.HintUsable (Ruby.optionIn Ruby.compressorDefaults given names) source ↔
      p.HintChecked (Ruby.optionIn Ruby.compressorDefaults given names) ∧
        HintFits (p.processed names source given) := by
  have hsized : ∀ h : Hash, source.length < 2 ^ 32 ↔
      True ∧ HintFits (h.set (.symbol "size_hint") (.integer source.length)) := by
    intro h
    rw [true_and]
    constructor
    · intro hlt n hn
      rw [Hash.get_set_self] at hn
      rw [← Value.integer.inj hn]
      omega
    · intro hfits
      have hlt := hfits source.length (Hash.get_set_self _ _ _)
      omega
  cases p with
  | string => exact hsized _
  | file => exact hsized _
  | stream _ =>
      show _ ∨ _ ↔ (_ ∨ _) ∧ HintFits (Ruby.mergedWith Ruby.compressorDefaults given names)
      rw [HintFits, Ruby.get_mergedWith]
      constructor
      · rintro (hnil | ⟨n, hinteger, hn, hlt⟩)
        · refine ⟨Or.inl hnil, fun k hk => ?_⟩
          rw [hnil] at hk
          cases hk
        · refine ⟨Or.inr ⟨n, hinteger, hn⟩, fun k hk => ?_⟩
          rw [hinteger] at hk
          rw [← Value.integer.inj hk]
          exact hlt
      · rintro ⟨hchecked, hfits⟩
        refine hchecked.imp_right ?_
        rintro ⟨n, hinteger, hn⟩
        exact ⟨n, hinteger, hn, hfits n hinteger⟩

/-- The options get to the encoder exactly if they are usable. -/
theorem arrives_iff (hadsp : adsp.Documented) (hnames : adsp.NamesLengths streamNames)
    (henc : enc.AcceptsDocumented) (times : Nat) {options : Argument} :
    (∃ init h, p.handOver adsp streamNames path source times options = .ok h ∧
        p.Configured enc h init) ↔
      ∃ given, options = .hash given ∧
        p.Usable (p.lengthNames adsp streamNames) source given := by
  have hfits : ∀ given name, name ≠ "size_hint" →
      (LengthFits (p.processed (p.lengthNames adsp streamNames) source given) name ↔
        IntegerBelow (Ruby.optionIn Ruby.compressorDefaults given (p.lengthNames adsp streamNames))
          name (2 ^ 62)) := by
    intro given name hne
    rw [LengthFits, IntegerBelow, processed_get fun heq => hne (Value.symbol.inj heq)]
  constructor
  · rintro ⟨init, hok⟩
    obtain ⟨h, hfirst, hconfigured⟩ := (handOver_iff hadsp times Configured.congr).mp hok
    obtain ⟨hsource, hdestination, hhint⟩ :=
      (configured_iff hadsp hnames henc (handed hfirst)).mp ⟨init, hconfigured⟩
    obtain ⟨given, rfl, hdocumented, hchecked, rfl⟩ := (processOptions_iff hadsp).mp hfirst
    exact ⟨given, rfl, hdocumented, (hfits given _ (by decide)).mp hdestination,
      fun hfile => (hfits given _ (by decide)).mp (hsource hfile),
      hintUsable_iff.mpr ⟨hchecked, hhint⟩⟩
  · rintro ⟨given, rfl, husable⟩
    obtain ⟨hchecked, hhint⟩ := hintUsable_iff.mp husable.hint
    have hfirst : p.processOptions adsp streamNames path source (.hash given) =
        .ok (p.processed (p.lengthNames adsp streamNames) source given) :=
      (processOptions_iff hadsp).mpr ⟨given, rfl, husable.documented, hchecked, rfl⟩
    obtain ⟨init, hconfigured⟩ := (configured_iff hadsp hnames henc (handed hfirst)).mpr
      ⟨fun hfile => (hfits given _ (by decide)).mpr (husable.sourceBufferLength hfile),
        (hfits given _ (by decide)).mpr husable.destinationBufferLength, hhint⟩
    exact ⟨init, (handOver_iff hadsp times Configured.congr).mpr ⟨_, hfirst, hconfigured⟩⟩

end Producer

/-! ## Consumers -/

namespace Consumer

/-- The names of the buffer lengths of a consumer's class. -/
def lengthNames (adsp : Ruby.Adsp) (streamNames : List Value) : Consumer → List Value
  | .string => adsp.stringBufferLengthNames
  | .file => adsp.fileBufferLengthNames
  | .stream _ => streamNames

/-- The options that come to the native function, when they are processed so many times
    more than once. -/
def handOver (adsp : Ruby.Adsp) (streamNames : List Value) (times : Nat) (options : Argument)
    (c : Consumer) : Except RubyError Hash := do
  let options ← Ruby.getDecompressorOptions adsp options (c.lengthNames adsp streamNames)
  Ruby.processAgain
    (fun options => Ruby.getDecompressorOptions adsp (.hash options)
      (c.lengthNames adsp streamNames)) times options

/-- The options are documented, and C can read their numbers. -/
structure Usable (names : List Value) (given : Hash) (c : Consumer) : Prop where
  documented : Ruby.DecompressorOptionsDocumented
    (Ruby.optionIn Ruby.decompressorDefaults given names) names
  destinationBufferLength : IntegerBelow (Ruby.optionIn Ruby.decompressorDefaults given names)
    "destination_buffer_length" (2 ^ 62)
  sourceBufferLength : c = .file →
    IntegerBelow (Ruby.optionIn Ruby.decompressorDefaults given names) "source_buffer_length"
      (2 ^ 62)

variable {adsp : Ruby.Adsp} {streamNames : List Value} {dec : Decoder τ} {c : Consumer}

theorem handOver_iff (hadsp : adsp.Documented) (times : Nat) {options : Argument}
    {P : Hash → Prop} (hP : ∀ h h', h'.get = h.get → P h → P h') :
    (∃ h, c.handOver adsp streamNames times options = .ok h ∧ P h) ↔
      ∃ h, Ruby.getDecompressorOptions adsp options (c.lengthNames adsp streamNames) = .ok h ∧
        P h := by
  refine Ruby.processedAgain_iff (D := (Ruby.DecompressorOptionsDocumented · _))
    (Ruby.getDecompressorOptions_hash_iff hadsp) ?_ times hP
  intro h hfirst
  obtain ⟨given, -, rfl, hdocumented⟩ := (Ruby.getDecompressorOptions_iff hadsp).mp hfirst
  rw [← Ruby.get_mergedWith] at hdocumented
  exact ⟨Ruby.full_mergedWith _ _, hdocumented⟩

theorem Configured.congr {init : τ} (h h' : Hash) (hget : h'.get = h.get)
    (hc : c.Configured dec h init) : c.Configured dec h' init := by
  have hcodec : (decompressorKit dec).getCodecOptions h' =
      (decompressorKit dec).getCodecOptions h := by
    simp only [decompressorKit, getDecompressorOptions, resolveOption_congr hget]
  cases c with
  | file => exact OptionKit.IoConfigured.congr hget hcodec hc
  | string => exact OptionKit.StringConfigured.congr hget hcodec hc
  | stream _ => exact OptionKit.StringConfigured.congr hget hcodec hc

/-- Accepted options are read and set exactly if C can read their lengths. -/
theorem configured_iff (hadsp : adsp.Documented) (hnames : adsp.NamesLengths streamNames)
    (hdec : dec.AcceptsDocumented) {options : Argument} {h : Hash}
    (hh : Ruby.getDecompressorOptions adsp options (c.lengthNames adsp streamNames) = .ok h) :
    (∃ init, c.Configured dec h init) ↔ (c = .file → LengthFits h "source_buffer_length") ∧
      LengthFits h "destination_buffer_length" := by
  have hdocumented := Ruby.getDecompressorOptions_documented hadsp hh
  have hgvl := hdocumented.gvl
  have hdestination : .symbol "destination_buffer_length" ∈ c.lengthNames adsp streamNames := by
    cases c with
    | string => exact hnames.string
    | file => exact hnames.fileDestination
    | stream _ => exact hnames.stream
  obtain ⟨n, hlength, hn⟩ := hdocumented.bufferLengths _ hdestination
  have hreads : True → (decompressorKit dec).Reads h := fun _ =>
    decompressorKit_reads dec hdocumented
  have hrefuses : ¬ True → (decompressorKit dec).Refuses h := fun hnot => absurd trivial hnot
  have htakes : (decompressorKit dec).Takes h := decompressorKit_takes hdec hdocumented
  have hstring := OptionKit.stringConfigured_iff hn hlength hgvl hreads hrefuses htakes
  cases c with
  | string => exact hstring.trans (by simp)
  | file =>
      obtain ⟨k, hsource, hk⟩ := hdocumented.bufferLengths _ hnames.fileSource
      exact (OptionKit.ioConfigured_iff hn hlength hgvl hreads hrefuses htakes hk hsource).trans
        (by simp)
  | stream _ => exact hstring.trans (by simp)

/-- The options get to the decoder exactly if they are usable. -/
theorem arrives_iff (hadsp : adsp.Documented) (hnames : adsp.NamesLengths streamNames)
    (hdec : dec.AcceptsDocumented) (times : Nat) {options : Argument} :
    (∃ init h, c.handOver adsp streamNames times options = .ok h ∧ c.Configured dec h init) ↔
      ∃ given, options = .hash given ∧ c.Usable (c.lengthNames adsp streamNames) given := by
  have hfits : ∀ given name,
      LengthFits (Ruby.mergedWith Ruby.decompressorDefaults given
          (c.lengthNames adsp streamNames)) name ↔
        IntegerBelow (Ruby.optionIn Ruby.decompressorDefaults given
          (c.lengthNames adsp streamNames)) name (2 ^ 62) := by
    intro given name
    rw [LengthFits, IntegerBelow, Ruby.get_mergedWith]
  constructor
  · rintro ⟨init, hok⟩
    obtain ⟨h, hfirst, hconfigured⟩ := (handOver_iff hadsp times Configured.congr).mp hok
    obtain ⟨hsource, hdestination⟩ :=
      (configured_iff hadsp hnames hdec hfirst).mp ⟨init, hconfigured⟩
    obtain ⟨given, rfl, rfl, hdocumented⟩ := (Ruby.getDecompressorOptions_iff hadsp).mp hfirst
    exact ⟨given, rfl, hdocumented, (hfits given _).mp hdestination,
      fun hfile => (hfits given _).mp (hsource hfile)⟩
  · rintro ⟨given, rfl, husable⟩
    have hfirst := (Ruby.getDecompressorOptions_iff hadsp).mpr
      ⟨given, rfl, rfl, husable.documented⟩
    obtain ⟨init, hconfigured⟩ := (configured_iff hadsp hnames hdec hfirst).mpr
      ⟨fun hfile => (hfits given _).mpr (husable.sourceBufferLength hfile),
        (hfits given _).mpr husable.destinationBufferLength⟩
    exact ⟨init, (handOver_iff hadsp times Configured.congr).mpr ⟨_, hfirst, hconfigured⟩⟩

end Consumer

/-! ## There and back -/

/-- What comes of compressing a source with the one options, and decompressing it with the
    other. -/
structure RoundTrip (enc : Encoder σ) (dec : Decoder τ) (encHash decHash : Hash)
    (source : List UInt8) (p : Producer) (c : Consumer) : Prop where
  /-- Where nothing fails the source is compressed, -/
  compresses : ∀ s : Surroundings, s.Faultless → ∃ bytes, p.Yields enc encHash s source bytes
  /-- and what it was compressed to, whatever failed on the way, is decompressed to the
      source, -/
  decompresses : ∀ (s s' : Surroundings) bytes, p.Yields enc encHash s source bytes →
    s'.Faultless → c.Yields dec decHash s' bytes source
  /-- and to nothing else. -/
  unchanged : ∀ (s s' : Surroundings) bytes result, p.Yields enc encHash s source bytes →
    c.Yields dec decHash s' bytes result → result = source

theorem roundTrip_of_configured {enc : Encoder σ} {dec : Decoder τ} {fmt : Format UInt8}
    {encInit : σ} {decInit : τ} {encHash decHash : Hash} {p : Producer} {c : Consumer}
    (henc : enc.FlushContract compressorOperations fmt encInit)
    (hdec : dec.Follows fmt decInit) (hp : p.Configured enc encHash encInit)
    (hc : c.Configured dec decHash decInit) (source : List UInt8) :
    RoundTrip enc dec encHash decHash source p c where
  compresses _ hs := Producer.yields henc hp hs source
  decompresses s s' bytes hbytes hs' := by
    have hdecodes := hbytes.decodes henc hp
    exact Consumer.yields (hdec.streamContract hdecodes) hdecodes.1.ne_nil hc hs'
  unchanged s s' bytes result hbytes hresult := by
    have hdecodes := hbytes.decodes henc hp
    exact hresult.eq (hdec.streamContract hdecodes) hdecodes.1.ne_nil hc

/-- For each way to compress and each way to decompress: options get to the codec, however
    often they are processed, exactly if they are documented and their numbers can be read
    in C.  With such options on both sides the source comes back, in any format that the
    library keeps to in the states that they lead to. -/
theorem user_round_trip {adsp : Ruby.Adsp} {streamNames : List Value} (hadsp : adsp.Documented)
    (hnames : adsp.NamesLengths streamNames) {enc : Encoder σ} {dec : Decoder τ}
    (henc : enc.AcceptsDocumented) (hdec : dec.AcceptsDocumented) (p : Producer) (c : Consumer)
    (path source : List UInt8) :
    (∀ times options,
      (∃ init h, p.handOver adsp streamNames path source times options = .ok h ∧
          p.Configured enc h init) ↔
        ∃ given, options = .hash given ∧
          p.Usable (p.lengthNames adsp streamNames) source given) ∧
    (∀ times options,
      (∃ init h, c.handOver adsp streamNames times options = .ok h ∧
          c.Configured dec h init) ↔
        ∃ given, options = .hash given ∧ c.Usable (c.lengthNames adsp streamNames) given) ∧
    ∀ encGiven decGiven, p.Usable (p.lengthNames adsp streamNames) source encGiven →
      c.Usable (c.lengthNames adsp streamNames) decGiven →
      ∃ encInit decInit, ∀ times times', ∃ encHash decHash,
        p.handOver adsp streamNames path source times (.hash encGiven) = .ok encHash ∧
        c.handOver adsp streamNames times' (.hash decGiven) = .ok decHash ∧
        p.Configured enc encHash encInit ∧ c.Configured dec decHash decInit ∧
        ∀ fmt, enc.FlushContract compressorOperations fmt encInit → dec.Follows fmt decInit →
          RoundTrip enc dec encHash decHash source p c := by
  refine ⟨fun times options => Producer.arrives_iff hadsp hnames henc times,
    fun times options => Consumer.arrives_iff hadsp hnames hdec times, ?_⟩
  intro encGiven decGiven hencGiven hdecGiven
  -- The states do not depend on how often the options are processed.
  obtain ⟨encInit, hencFirst⟩ : ∃ init h,
      p.processOptions adsp streamNames path source (.hash encGiven) = .ok h ∧
        p.Configured enc h init := by
    obtain ⟨init, harrives⟩ := (Producer.arrives_iff hadsp hnames henc 0).mpr
      ⟨encGiven, rfl, hencGiven⟩
    exact ⟨init, (Producer.handOver_iff hadsp 0 Producer.Configured.congr).mp harrives⟩
  obtain ⟨decInit, hdecFirst⟩ : ∃ init h,
      Ruby.getDecompressorOptions adsp (.hash decGiven) (c.lengthNames adsp streamNames) =
        .ok h ∧ c.Configured dec h init := by
    obtain ⟨init, harrives⟩ := (Consumer.arrives_iff hadsp hnames hdec 0).mpr
      ⟨decGiven, rfl, hdecGiven⟩
    exact ⟨init, (Consumer.handOver_iff hadsp 0 Consumer.Configured.congr).mp harrives⟩
  refine ⟨encInit, decInit, fun times times' => ?_⟩
  obtain ⟨encHash, hencHash, hp⟩ :=
    (Producer.handOver_iff hadsp times Producer.Configured.congr).mpr hencFirst
  obtain ⟨decHash, hdecHash, hc⟩ :=
    (Consumer.handOver_iff hadsp times' Consumer.Configured.congr).mpr hdecFirst
  exact ⟨encHash, decHash, hencHash, hdecHash, hp, hc, fun fmt hfmt hfollows =>
    roundTrip_of_configured hfmt hfollows hp hc source⟩

/-- Parameters that change nothing leave a new instance as it was created. -/
theorem setOptionValues_state {π : Type} {function : σ → π → UInt32 → Bool × σ}
    (hfunction : ∀ s param value, (function s param value).2 = s)
    (params : List (π × Option UInt32)) (s : σ) : (setOptionValues function params s).2 = s := by
  induction params with
  | nil => rfl
  | cons entry rest ih =>
      obtain ⟨param, option⟩ := entry
      cases option with
      | none => exact ih
      | some value =>
          rw [setOptionValues, hfunction]
          split
          · rfl
          · exact ih

/-- A file of three bytes with the default options, read back one byte at a time. -/
theorem user_round_trip_threeBytes :
    ∃ encHash decHash,
      Producer.file.handOver .gem [.symbol "destination_buffer_length"] [] [1, 2, 3] 1
        (.hash .empty) = .ok encHash ∧
      (Consumer.stream .single).handOver .gem [.symbol "destination_buffer_length"] 2
        (.hash .empty) = .ok decHash ∧
      RoundTrip storedEncoder (formatDecoder storedFormat id) encHash decHash [1, 2, 3] .file
        (.stream .single) := by
  have hnames : Ruby.Adsp.gem.NamesLengths [.symbol "destination_buffer_length"] :=
    ⟨.head _, .head _, .tail _ (.head _), .head _⟩
  obtain ⟨hproducer, hconsumer, hround⟩ := user_round_trip Ruby.Adsp.gem_documented hnames
    storedEncoder_acceptsDocumented
    (fun _ _ => rfl : (formatDecoder storedFormat id).AcceptsDocumented) .file (.stream .single)
    [] [1, 2, 3]
  -- The default options are usable, as they arrive.
  obtain ⟨encGiven, hencGiven, hencUsable⟩ := (hproducer 0 (.hash .empty)).mp
    ⟨_, _, rfl, _, rfl, rfl⟩
  obtain ⟨decGiven, hdecGiven, hdecUsable⟩ := (hconsumer 0 (.hash .empty)).mp
    ⟨_, _, rfl, _, rfl, rfl⟩
  obtain rfl := Argument.hash.inj hencGiven
  obtain rfl := Argument.hash.inj hdecGiven
  obtain ⟨encInit, decInit, hround⟩ := hround _ _ hencUsable hdecUsable
  obtain ⟨encHash, decHash, henc, hdec, ⟨_, _, hencInit⟩, ⟨_, _, hdecInit⟩, hround⟩ := hround 1 2
  refine ⟨encHash, decHash, henc, hdec, hround storedFormat ?_ ?_⟩
  · obtain rfl : storedEncoder.create = encInit :=
      (setOptionValues_state (fun _ _ _ => rfl) _ _).symm.trans (congrArg Prod.snd hencInit)
    exact storedEncoder_flushContract compressorOperations
  · obtain rfl : (formatDecoder storedFormat id).create = decInit :=
      (setOptionValues_state (fun _ _ _ => rfl) _ _).symm.trans (congrArg Prod.snd hdecInit)
    exact formatDecoder_follows storedFormat id

end RubyBrs
