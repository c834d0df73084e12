/-
  RubyBrs.Ruby.Documented

  Which options `Option.get_compressor_options` and `Option.get_decompressor_options`
  accept.

  Both fill in the defaults (`mergedWith`) and check the result.
  `CompressorOptionsDocumented` and `DecompressorOptionsDocumented` are the
  documentation: a condition on the option under each key.  The checks pass exactly then
  (`checkCompressorOptions_iff`), so that exactly the options are accepted that are
  documented when the defaults are filled in (`getCompressorOptions_iff`).
-/

import RubyBrs.Ruby.HashHeap
import RubyBrs.Ruby.Option

namespace RubyBrs
namespace Ruby

variable {adsp : Adsp} {names : List Value} {h : Hash}

/-! ## Filling in the defaults -/

/-- `DEFAULTS.merge(buffer_length_defaults).merge options`. -/
def mergedWith (defaults options : Hash) (bufferLengthNames : List Value) : Hash :=
  (defaults.merge (bufferLengthNames.foldl
    (fun defaults name => defaults.set name defaultBufferLength) Hash.empty)).merge options

/-- The default of a key that the caller's options do not have. -/
def defaultIn (defaults : Hash) (bufferLengthNames : List Value) (key : Value) : Option Value :=
  if key ∈ bufferLengthNames then some defaultBufferLength else defaults.lookup key

/-- What is under a key after the defaults are filled in. -/
def filledIn (defaults options : Hash) (bufferLengthNames : List Value) (key : Value) :
    Option Value :=
  (options.lookup key).or (defaultIn defaults bufferLengthNames key)

/-- The option that a key then stands for. -/
def optionIn (defaults options : Hash) (bufferLengthNames : List Value) (key : Value) : Value :=
  (filledIn defaults options bufferLengthNames key).getD .nil

theorem lookup_mergedWith (defaults options : Hash) (key : Value) :
    (mergedWith defaults options names).lookup key = filledIn defaults options names key := by
  rw [mergedWith, Hash.lookup_merge, Hash.lookup_merge, Hash.lookup_setKeys, filledIn, defaultIn]
  split
  · rfl
  · rw [Hash.lookup_empty, Option.none_or]

theorem get_mergedWith (defaults options : Hash) :
    (mergedWith defaults options names).get = optionIn defaults options names := by
  funext key
  rw [Hash.get_eq_lookup, lookup_mergedWith, optionIn]

/-- No default is missing. -/
def Full (defaults : Hash) (bufferLengthNames : List Value) (h : Hash) : Prop :=
  ∀ key, h.lookup key = none → defaultIn defaults bufferLengthNames key = none

theorem full_mergedWith (defaults options : Hash) :
    Full defaults names (mergedWith defaults options names) := by
  intro key hnone
  rw [lookup_mergedWith, filledIn, Option.or_eq_none_iff] at hnone
  exact hnone.2

theorem Full.set {defaults : Hash} (hfull : Full defaults names h) (key value : Value) :
    Full defaults names (h.set key value) := by
  intro k hnone
  rw [Hash.lookup_set] at hnone
  split at hnone
  · cases hnone
  · exact hfull k hnone

/-- Where no default is missing, nothing is filled in. -/
theorem Full.filledIn_eq {defaults : Hash} (hfull : Full defaults names h) (key : Value) :
    filledIn defaults h names key = h.lookup key := by
  rw [filledIn]
  cases hkey : h.lookup key with
  | none => rw [hfull key hkey, Option.none_or]
  | some value => rfl

theorem Full.optionIn_eq {defaults : Hash} (hfull : Full defaults names h) :
    optionIn defaults h names = h.get := by
  funext key
  rw [optionIn, hfull.filledIn_eq, Hash.get_eq_lookup]

/-- Only hashes are merged. -/
theorem mergeDefaults_iff (hadsp : adsp.Documented) {defaults : Hash} {options : Argument} :
    mergeDefaults adsp defaults options names = .ok h ↔
      ∃ given, options = .hash given ∧ h = mergedWith defaults given names := by
  constructor
  · intro hok
    obtain ⟨_, hhash, hok⟩ := bind_ok hok
    obtain ⟨given, rfl⟩ := (hadsp.hash options).mp hhash
    exact ⟨given, rfl, (Except.ok.inj hok).symm⟩
  · rintro ⟨given, rfl, rfl⟩
    rw [mergeDefaults, (hadsp.hash _).mpr ⟨given, rfl⟩]
    rfl

/-! ## The documented options -/

section Documented

variable (option : Value → Value)

/-- The option is `nil` or an integer within its bounds. -/
def InBounds (name : String) (min max : Int) : Prop :=
  option (.symbol name) = .nil ∨
    ∃ n : Int, option (.symbol name) = .integer n ∧ min ≤ n ∧ n ≤ max

/-- The option is a boolean. -/
def IsBool (name : String) : Prop :=
  option (.symbol name) = .true ∨ option (.symbol name) = .false

/-- The option is `nil` or a boolean. -/
def BoolOrNil (name : String) : Prop := option (.symbol name) = .nil ∨ IsBool option name

/-- `ndirect` is `nil`, or within its bounds and at one of the first 16 steps of
    `npostfix`, if that is given. -/
def NdirectFits : Prop :=
  option (.symbol "ndirect") = .nil ∨
    ∃ n : Int, option (.symbol "ndirect") = .integer n ∧ minNdirect ≤ n ∧ n ≤ maxNdirect ∧
      ∀ p : Int, option (.symbol "npostfix") = .integer p →
        ∃ k : Int, 0 ≤ k ∧ k ≤ 15 ∧ n = k <<< p.toNat

/-- What is documented of the option under each key. -/
structure CompressorOptionsDocumented (bufferLengthNames : List Value) : Prop where
  bufferLengths : ∀ name ∈ bufferLengthNames, ∃ n : Int, option name = .integer n ∧ 0 ≤ n
  gvl : IsBool option "gvl"
  mode : option (.symbol "mode") = .nil ∨ option (.symbol "mode") ∈ modes
  quality : InBounds option "quality" minQuality maxQuality
  lgwin : InBounds option "lgwin" minLgwin maxLgwin
  lgblock : InBounds option "lgblock" minLgblock maxLgblock
  npostfix : InBounds option "npostfix" minNpostfix maxNpostfix
  ndirect : NdirectFits option
  disableLiteralContextModeling : BoolOrNil option "disable_literal_context_modeling"
  largeWindow : BoolOrNil option "large_window"

/-- What is documented of the options of a decompression. -/
structure DecompressorOptionsDocumented (bufferLengthNames : List Value) : Prop where
  bufferLengths : ∀ name ∈ bufferLengthNames, ∃ n : Int, option name = .integer n ∧ 0 ≤ n
  gvl : IsBool option "gvl"
  disableRingBufferReallocation : BoolOrNil option "disable_ring_buffer_reallocation"
  largeWindow : BoolOrNil option "large_window"

end Documented

/-- With the steps of `npostfix` left out, `ndirect` is an option like others. -/
theorem CompressorOptionsDocumented.ndirect_inBounds {option : Value → Value}
    (hdocumented : CompressorOptionsDocumented option names) :
    InBounds option "ndirect" minNdirect maxNdirect := by
  refine hdocumented.ndirect.imp_right ?_
  rintro ⟨n, hn, hle, hge, -⟩
  exact ⟨n, hn, hle, hge⟩

/-- A size hint is not one of the options that are checked by their own names. -/
theorem documented_sizeHint {option : Value → Value} {sizeHint : Value}
    (hdocumented : CompressorOptionsDocumented option names)
    (hhint : .symbol "size_hint" ∈ names → ∃ n : Int, sizeHint = .integer n ∧ 0 ≤ n) :
    CompressorOptionsDocumented
      (fun key => if key = .symbol "size_hint" then sizeHint else option key) names where
  bufferLengths name hname := by
    by_cases heq : name = .symbol "size_hint"
    · subst heq
      simpa using hhint hname
    · simpa [heq] using hdocumented.bufferLengths name hname
  gvl := by simpa [IsBool] using hdocumented.gvl
  mode := by simpa using hdocumented.mode
  quality := by simpa [InBounds] using hdocumented.quality
  lgwin := by simpa [InBounds] using hdocumented.lgwin
  lgblock := by simpa [InBounds] using hdocumented.lgblock
  npostfix := by simpa [InBounds] using hdocumented.npostfix
  ndirect := by simpa [NdirectFits] using hdocumented.ndirect
  disableLiteralContextModeling := by
    simpa [BoolOrNil, IsBool] using hdocumented.disableLiteralContextModeling
  largeWindow := by simpa [BoolOrNil, IsBool] using hdocumented.largeWindow

/-- So a size hint may be added to documented options. -/
theorem CompressorOptionsDocumented.set_sizeHint {sizeHint : Value}
    (hdocumented : CompressorOptionsDocumented h.get names)
    (hhint : .symbol "size_hint" ∈ names → ∃ n : Int, sizeHint = .integer n ∧ 0 ≤ n) :
    CompressorOptionsDocumented (h.set (.symbol "size_hint") sizeHint).get names := by
  have hget : (h.set (.symbol "size_hint") sizeHint).get =
      fun key => if key = .symbol "size_hint" then sizeHint else h.get key := by
    funext key
    rw [Hash.get_set]
  rw [hget]
  exact documented_sizeHint hdocumented hhint

/-! ## The checks -/

/-- The checks of `Option.get_compressor_options`, after the defaults are filled
    in. -/
def checkCompressorOptions (adsp : Adsp) (options : Hash) (bufferLengthNames : List Value) :
    Except RubyError Unit := do
  bufferLengthNames.forM fun name => adsp.validateNotNegativeInteger (options.get name)
  validateBool (options.get (.symbol "gvl"))
  unlessNil (options.get (.symbol "mode")) fun mode => do
    adsp.validateSymbol mode
    if mode ∉ modes then raiseValidateError "invalid mode"
  unlessNil (options.get (.symbol "quality")) <|
    validateBounds adsp minQuality maxQuality "invalid quality"
  unlessNil (options.get (.symbol "lgwin")) <|
    validateBounds adsp minLgwin maxLgwin "invalid lgwin"
  unlessNil (options.get (.symbol "lgblock")) <|
    validateBounds adsp minLgblock maxLgblock "invalid lgblock"
  let npostfix := options.get (.symbol "npostfix")
  unlessNil npostfix <| validateBounds adsp minNpostfix maxNpostfix "invalid npostfix"
  unlessNil (options.get (.symbol "ndirect")) fun ndirect => do
    validateBounds adsp minNdirect maxNdirect "invalid ndirect" ndirect
    unlessNil npostfix <| validateNdirectNpostfix ndirect
  unlessNil (options.get (.symbol "disable_literal_context_modeling")) validateBool
  unlessNil (options.get (.symbol "large_window")) validateBool

theorem getCompressorOptions_eq (adsp : Adsp) (options : Argument)
    (bufferLengthNames : List Value) :
    getCompressorOptions adsp options bufferLengthNames = (do
      let options ← mergeDefaults adsp compressorDefaults options bufferLengthNames
      checkCompressorOptions adsp options bufferLengthNames
      return options) := by
  simp only [getCompressorOptions, checkCompressorOptions, bind_assoc]

/-- The checks of `Option.get_decompressor_options`, after the defaults are filled in. -/
def checkDecompressorOptions (adsp : Adsp) (options : Hash) (bufferLengthNames : List Value) :
    Except RubyError Unit := do
  bufferLengthNames.forM fun name => adsp.validateNotNegativeInteger (options.get name)
  validateBool (options.get (.symbol "gvl"))
  unlessNil (options.get (.symbol "disable_ring_buffer_reallocation")) validateBool
  unlessNil (options.get (.symbol "large_window")) validateBool

theorem getDecompressorOptions_eq (adsp : Adsp) (options : Argument)
    (bufferLengthNames : List Value) :
    getDecompressorOptions adsp options bufferLengthNames = (do
      let options ← mergeDefaults adsp decompressorDefaults options bufferLengthNames
      checkDecompressorOptions adsp options bufferLengthNames
      return options) := by
  simp only [getDecompressorOptions, checkDecompressorOptions, bind_assoc]

theorem bind_unit_iff {α : Type} {x : Except RubyError Unit} {f : Unit → Except RubyError α}
    {a : α} : (x >>= f) = .ok a ↔ x = .ok () ∧ f () = .ok a := by
  cases x with
  | error e => exact ⟨fun h => (by cases h), fun h => (by cases h.1)⟩
  | ok u => exact ⟨fun h => ⟨rfl, h⟩, fun h => h.2⟩

theorem unlessNil_iff {value : Value} {check : Value → Except RubyError Unit} :
    unlessNil value check = .ok () ↔ value = .nil ∨ check value = .ok () := by
  unfold unlessNil
  split
  · rename_i hnil
    exact ⟨fun _ => Or.inl hnil, fun _ => rfl⟩
  · rename_i hnil
    exact ⟨Or.inr, fun h => h.resolve_left hnil⟩

theorem validateBool_iff {value : Value} :
    validateBool value = .ok () ↔ value = .true ∨ value = .false := by
  by_cases hbool : value = .true ∨ value = .false
  · rw [validateBool, if_pos hbool]
    exact ⟨fun _ => hbool, fun _ => rfl⟩
  · rw [validateBool, if_neg hbool]
    exact ⟨fun h => (by cases h), fun h => absurd h hbool⟩

theorem raise_unless_iff {c : Prop} [Decidable c] {description : String} :
    (if c then raiseValidateError description else pure () : Except RubyError Unit) = .ok () ↔
      ¬ c := by
  by_cases hc : c
  · rw [if_pos hc]
    exact ⟨fun h => (by cases h), fun h => absurd hc h⟩
  · rw [if_neg hc]
    exact ⟨fun _ => hc, fun _ => rfl⟩

theorem forM_iff {names : List Value} {check : Value → Except RubyError Unit} :
    names.forM check = .ok () ↔ ∀ name ∈ names, check name = .ok () := by
  induction names with
  | nil => exact ⟨fun _ name hname => (by cases hname), fun _ => rfl⟩
  | cons name rest ih =>
      show (check name >>= fun _ => rest.forM check) = .ok () ↔ _
      rw [bind_unit_iff, ih, List.forall_mem_cons]

/-- The two checks of `ndirect` against `npostfix` leave 16 values of it. -/
theorem ndirect_step_iff {n : Int} {p : Nat} (hn : 0 ≤ n) :
    ¬ ((n - minNdirect) % (ndirectNpostfixStepBase <<< p) ≠ 0 ∨
        ndirectNpostfixMaxBase <<< p < n - minNdirect) ↔
      ∃ k : Int, 0 ≤ k ∧ k ≤ 15 ∧ n = k <<< p := by
  have hpow : (0 : Int) < 2 ^ p := Int.pow_pos (by decide)
  simp only [minNdirect, ndirectNpostfixStepBase, ndirectNpostfixMaxBase, Int.shiftLeft_eq,
    Int.sub_zero, one_mul, not_or, not_not, not_lt]
  constructor
  · rintro ⟨hmod, hle⟩
    refine ⟨n / 2 ^ p, Int.ediv_nonneg hn (le_of_lt hpow), ?_, ?_⟩
    · exact Int.ediv_le_of_le_mul hpow hle
    · exact (Int.ediv_mul_cancel (Int.dvd_of_emod_eq_zero hmod)).symm
  · rintro ⟨k, hk, hle, rfl⟩
    exact ⟨Int.mul_emod_left k _, Int.mul_le_mul_of_nonneg_right hle (le_of_lt hpow)⟩

/-- With an integer at hand, the check of its bounds is the comparison. -/
theorem validateBounds_iff (hadsp : adsp.Documented) {min max : Int} (hmin : 0 ≤ min)
    {description : String} {value : Value} :
    validateBounds adsp min max description value = .ok () ↔
      ∃ n : Int, value = .integer n ∧ min ≤ n ∧ n ≤ max := by
  have hinside : ∀ n : Int, (if n < min ∨ max < n then raiseValidateError description else pure () :
      Except RubyError Unit) = .ok () ↔ min ≤ n ∧ n ≤ max := by
    intro n
    rw [raise_unless_iff]
    omega
  rw [validateBounds, bind_unit_iff, hadsp.notNegativeInteger]
  constructor
  · rintro ⟨⟨n, rfl, -⟩, hcheck⟩
    exact ⟨n, rfl, (hinside n).mp hcheck⟩
  · rintro ⟨n, rfl, hle, hge⟩
    exact ⟨⟨n, rfl, by omega⟩, (hinside n).mpr ⟨hle, hge⟩⟩

/-- With both integers at hand, the check of `ndirect` is the comparison. -/
theorem validateNdirectNpostfix_iff {n p : Int} (hn : 0 ≤ n) :
    validateNdirectNpostfix (.integer n) (.integer p) = .ok () ↔
      ∃ k : Int, 0 ≤ k ∧ k ≤ 15 ∧ n = k <<< p.toNat := by
  rw [← ndirect_step_iff hn]
  exact raise_unless_iff

/-- The checks pass for the documented options and no others. -/
theorem checkCompressorOptions_iff (hadsp : adsp.Documented) {options : Hash}
    {names : List Value} :
    checkCompressorOptions adsp options names = .ok () ↔
      CompressorOptionsDocumented options.get names := by
  have hinteger := fun name => hadsp.notNegativeInteger (options.get name)
  have hmode : ∀ mode, (do
      adsp.validateSymbol mode
      if mode ∉ modes then raiseValidateError "invalid mode" : Except RubyError Unit) = .ok () ↔
        mode ∈ modes := by
    intro mode
    rw [bind_unit_iff, raise_unless_iff, hadsp.symbol, not_not]
    refine ⟨And.right, fun hmem => ⟨?_, hmem⟩⟩
    simp only [modes, List.mem_cons, List.not_mem_nil, or_false] at hmem
    rcases hmem with rfl | rfl | rfl <;> exact ⟨_, rfl⟩
  simp only [checkCompressorOptions, bind_unit_iff, forM_iff, hinteger, validateBool_iff,
    unlessNil_iff, hmode]
  constructor
  · rintro ⟨hlengths, hgvl, hmode, hquality, hlgwin, hlgblock, hnpostfix, hndirect, hliteral,
      hwindow⟩
    refine ⟨hlengths, hgvl, hmode, ?_, ?_, ?_, ?_, ?_, hliteral, hwindow⟩
    · exact hquality.imp_right (validateBounds_iff hadsp (by decide)).mp
    · exact hlgwin.imp_right (validateBounds_iff hadsp (by decide)).mp
    · exact hlgblock.imp_right (validateBounds_iff hadsp (by decide)).mp
    · exact hnpostfix.imp_right (validateBounds_iff hadsp (by decide)).mp
    · refine hndirect.imp_right ?_
      rintro ⟨hbounds, hstep⟩
      obtain ⟨n, hn, hle, hge⟩ := (validateBounds_iff hadsp (by decide)).mp hbounds
      refine ⟨n, hn, hle, hge, fun p hp => ?_⟩
      rw [hn, hp] at hstep
      exact (validateNdirectNpostfix_iff hle).mp (hstep.resolve_left (by simp))
  · intro h
    refine ⟨h.bufferLengths, h.gvl, h.mode, ?_, ?_, ?_, ?_, ?_, h.disableLiteralContextModeling,
      h.largeWindow⟩
    · exact h.quality.imp_right (validateBounds_iff hadsp (by decide)).mpr
    · exact h.lgwin.imp_right (validateBounds_iff hadsp (by decide)).mpr
    · exact h.lgblock.imp_right (validateBounds_iff hadsp (by decide)).mpr
    · exact h.npostfix.imp_right (validateBounds_iff hadsp (by decide)).mpr
    · refine h.ndirect.imp_right ?_
      rintro ⟨n, hn, hle, hge, hstep⟩
      refine ⟨(validateBounds_iff hadsp (by decide)).mpr ⟨n, hn, hle, hge⟩, ?_⟩
      -- `npostfix` passed its own check, so it is `nil` or an integer.
      refine h.npostfix.imp_right ?_
      rintro ⟨p, hp, -, -⟩
      rw [hn, hp]
      exact (validateNdirectNpostfix_iff hle).mpr (hstep p hp)

theorem checkDecompressorOptions_iff (hadsp : adsp.Documented) :
    checkDecompressorOptions adsp h names = .ok () ↔
      DecompressorOptionsDocumented h.get names := by
  have hinteger := fun name => hadsp.notNegativeInteger (h.get name)
  simp only [checkDecompressorOptions, bind_unit_iff, forM_iff, hinteger, validateBool_iff,
    unlessNil_iff]
  constructor
  · rintro ⟨hlengths, hgvl, hreallocation, hwindow⟩
    exact ⟨hlengths, hgvl, hreallocation, hwindow⟩
  · intro hdocumented
    exact ⟨hdocumented.bufferLengths, hdocumented.gvl, hdocumented.disableRingBufferReallocation,
      hdocumented.largeWindow⟩

/-! ## What is accepted -/

/-- Processing is merging and checking. -/
theorem processed_iff (hadsp : adsp.Documented) {defaults : Hash} {options : Argument}
    {check : Hash → Except RubyError Unit} {D : (Value → Value) → Prop}
    (hcheck : ∀ h, check h = .ok () ↔ D h.get) :
    (do
      let options ← mergeDefaults adsp defaults options names
      check options
      return options) = .ok h ↔
      ∃ given, options = .hash given ∧ h = mergedWith defaults given names ∧
        D (optionIn defaults given names) := by
  constructor
  · intro hok
    obtain ⟨h', hmerged, hok⟩ := bind_ok hok
    rw [bind_unit_iff, hcheck] at hok
    obtain ⟨hdocumented, hok⟩ := hok
    obtain rfl := Except.ok.inj hok
    obtain ⟨given, rfl, rfl⟩ := (mergeDefaults_iff hadsp).mp hmerged
    rw [get_mergedWith] at hdocumented
    exact ⟨given, rfl, rfl, hdocumented⟩
  · rintro ⟨given, rfl, rfl, hdocumented⟩
    rw [(mergeDefaults_iff hadsp).mpr ⟨given, rfl, rfl⟩]
    show (check _ >>= fun _ => _) = _
    rw [bind_unit_iff, hcheck, get_mergedWith]
    exact ⟨hdocumented, rfl⟩

/-- `Option.get_compressor_options` accepts the documented options. -/
theorem getCompressorOptions_iff (hadsp : adsp.Documented) {options : Argument} :
    getCompressorOptions adsp options names = .ok h ↔
      ∃ given, options = .hash given ∧ h = mergedWith compressorDefaults given names ∧
        CompressorOptionsDocumented (optionIn compressorDefaults given names) names := by
  rw [getCompressorOptions_eq]
  exact processed_iff hadsp (D := (CompressorOptionsDocumented · names))
    fun h => checkCompressorOptions_iff hadsp

/-- What was accepted is documented. -/
theorem getCompressorOptions_documented (hadsp : adsp.Documented) {options : Argument}
    (hok : getCompressorOptions adsp options names = .ok h) :
    CompressorOptionsDocumented h.get names := by
  obtain ⟨given, -, rfl, hdocumented⟩ := (getCompressorOptions_iff hadsp).mp hok
  rw [get_mergedWith]
  exact hdocumented

/-- `Option.get_decompressor_options` accepts the documented options. -/
theorem getDecompressorOptions_iff (hadsp : adsp.Documented) {options : Argument} :
    getDecompressorOptions adsp options names = .ok h ↔
      ∃ given, options = .hash given ∧ h = mergedWith decompressorDefaults given names ∧
        DecompressorOptionsDocumented (optionIn decompressorDefaults given names) names := by
  rw [getDecompressorOptions_eq]
  exact processed_iff hadsp (D := (DecompressorOptionsDocumented · names))
    fun h => checkDecompressorOptions_iff hadsp

theorem getDecompressorOptions_documented (hadsp : adsp.Documented) {options : Argument}
    (hok : getDecompressorOptions adsp options names = .ok h) :
    DecompressorOptionsDocumented h.get names := by
  obtain ⟨given, -, rfl, hdocumented⟩ := (getDecompressorOptions_iff hadsp).mp hok
  rw [get_mergedWith]
  exact hdocumented

end Ruby
end RubyBrs
