/-
  RubyBrs.Ext.OptionValues

  The options of the codecs as numbers: a valid option is read with the number
  that it stands for (`ValueAsGiven`), or not at all if it is `nil`.
-/

import RubyBrs.Ext.Option
import RubyBrs.Ruby.Documented
import Mathlib.Data.List.Forall2

namespace RubyBrs

variable {π : Type}

/-! ## As given -/

/-- The number that an option stands for; `nil` stands for none. -/
def numericValue : Value → Option Int
  | .integer n => some n
  | .true => some 1
  | .false => some 0
  | .symbol name =>
      if name = "generic" then some 0
      else if name = "text" then some 1
      else if name = "font" then some 2
      else none
  | _ => none

/-- The encoder's parameters with the names of their options, in the order in
    which they are set. -/
def compressorParameters : List (EncoderParameter × String) :=
  [(.mode, "mode"), (.quality, "quality"), (.lgwin, "lgwin"), (.lgblock, "lgblock"),
    (EncoderParameter.npostfix, "npostfix"), (.ndirect, "ndirect"),
    (.disableLiteralContextModeling, "disable_literal_context_modeling"),
    (.sizeHint, "size_hint"), (.largeWindow, "large_window")]

/-- The decoder's parameters with the names of their options. -/
def decompressorParameters : List (DecoderParameter × String) :=
  [(.disableRingBufferReallocation, "disable_ring_buffer_reallocation"),
    (.largeWindow, "large_window")]

/-- The option is read with the number that it stands for. -/
def ValueAsGiven (h : Hash) (name : String) (option : Option UInt32) : Prop :=
  option.map (fun v => (v.toNat : Int)) = numericValue (h.get (.symbol name))

/-- Each parameter has the value of its option. -/
def ParamsAsGiven (parameters : List (π × String)) (h : Hash)
    (params : List (π × Option UInt32)) : Prop :=
  List.Forall₂ (fun parameter param => param.1 = parameter.1 ∧
    ValueAsGiven h parameter.2 param.2) parameters params

theorem ParamsAsGiven.mem {parameters : List (π × String)} {h : Hash}
    {params : List (π × Option UInt32)} (hparams : ParamsAsGiven parameters h params) {param : π}
    {option : Option UInt32} (hmem : (param, option) ∈ params) :
    ∃ name, (param, name) ∈ parameters ∧ ValueAsGiven h name option := by
  induction hparams with
  | nil => cases hmem
  | @cons parameter _ parameters _ hfirst _ ih =>
      rcases List.mem_cons.mp hmem with rfl | hmem
      · obtain ⟨hparam, hvalue⟩ := hfirst
        refine ⟨parameter.2, ?_, hvalue⟩
        rw [show param = parameter.1 from hparam]
        exact List.mem_cons_self
      · obtain ⟨name, hname, hvalue⟩ := ih hmem
        exact ⟨name, List.mem_cons_of_mem _ hname, hvalue⟩

/-! ## Unsigned ints -/

/-- An integer between zero and the largest unsigned int is read as it is. -/
theorem getUintValue_integer {n : Int} (hn : 0 ≤ n) (hlt : n < 2 ^ 32) :
    ∃ v : UInt32, getUintValue (.integer n) = .ok v ∧ (v.toNat : Int) = n := by
  have hfixnum : IsFixnum n := ⟨by omega, by omega⟩
  have hrange : ¬ (n < -(2 ^ 31) ∨ 2 ^ 32 ≤ n) := by omega
  refine ⟨UInt32.ofInt n, ?_, ?_⟩
  · simp only [getUintValue, checkFixnum, if_pos hfixnum]
    show num2uint n = _
    rw [num2uint, if_neg hrange]
  · simp [UInt32.ofInt]
    omega

/-- No larger integer is. -/
theorem getUintValue_large {n : Int} (hn : 2 ^ 32 ≤ n) :
    getUintValue (.integer n) = .error (if n < 2 ^ 62 then .rangeError else .typeError) := by
  by_cases hfixnum : IsFixnum n
  · have hlt : n < 2 ^ 62 := hfixnum.2
    simp only [getUintValue, checkFixnum, if_pos hfixnum, if_pos hlt]
    show num2uint n = _
    rw [num2uint, if_pos (Or.inr hn)]
  · have hge : ¬ n < 2 ^ 62 := fun hlt => hfixnum ⟨by omega, hlt⟩
    simp only [getUintValue, checkFixnum, if_neg hfixnum, if_neg hge]
    rfl

/-! ## Valid options -/

section Values

variable {h : Hash} {name : String}

/-- A `nil` option is not set. -/
theorem resolveOption_nil {type : OptionType} (hnil : h.get (.symbol name) = .nil) :
    ∃ option, brsExtResolveOption h type name = .ok option ∧ ValueAsGiven h name option := by
  refine ⟨none, by simp only [brsExtResolveOption, getRawValue, hnil, if_true], ?_⟩
  rw [ValueAsGiven, hnil]
  rfl

/-- An option that is not `nil` is converted. -/
theorem resolveOption_eq {type : OptionType} {value : Value}
    (hget : h.get (.symbol name) = value) (hne : value ≠ .nil) :
    brsExtResolveOption h type name = (resolveValue type value).map some := by
  simp only [brsExtResolveOption, getRawValue, hget, if_neg hne]

theorem resolveOption_given {type : OptionType} {value : Value} {v : UInt32}
    (hget : h.get (.symbol name) = value) (hne : value ≠ .nil)
    (hresolve : resolveValue type value = .ok v)
    (hnumber : numericValue value = some (v.toNat : Int)) :
    ∃ option, brsExtResolveOption h type name = .ok option ∧ ValueAsGiven h name option := by
  refine ⟨some v, ?_, ?_⟩
  · rw [resolveOption_eq hget hne, hresolve]
    rfl
  · rw [ValueAsGiven, hget, hnumber]
    rfl

theorem resolveOption_integer {n : Int} (hn : 0 ≤ n) (hlt : n < 2 ^ 32)
    (hget : h.get (.symbol name) = .integer n) :
    ∃ option, brsExtResolveOption h .uint name = .ok option ∧ ValueAsGiven h name option := by
  obtain ⟨v, hv, hvn⟩ := getUintValue_integer hn hlt
  exact resolveOption_given hget (by simp) hv (congrArg some hvn.symm)

theorem resolveOption_large {n : Int} (hn : 2 ^ 32 ≤ n)
    (hget : h.get (.symbol name) = .integer n) :
    brsExtResolveOption h .uint name =
      .error (if n < 2 ^ 62 then .rangeError else .typeError) := by
  rw [resolveOption_eq hget (by simp), resolveValue, getUintValue_large hn]
  rfl

theorem resolveOption_bounds {min max : Int} (hbounds : Ruby.InBounds h.get name min max)
    (hmin : 0 ≤ min) (hmax : max < 2 ^ 32) :
    ∃ option, brsExtResolveOption h .uint name = .ok option ∧ ValueAsGiven h name option := by
  rcases hbounds with hnil | ⟨n, hget, hle, hge⟩
  · exact resolveOption_nil hnil
  · exact resolveOption_integer (by omega) (by omega) hget

theorem resolveOption_bool (hbool : Ruby.BoolOrNil h.get name) :
    ∃ option, brsExtResolveOption h .bool name = .ok option ∧ ValueAsGiven h name option := by
  rcases hbool with hnil | htrue | hfalse
  · exact resolveOption_nil hnil
  · exact resolveOption_given htrue (by simp) rfl rfl
  · exact resolveOption_given hfalse (by simp) rfl rfl

theorem resolveOption_mode
    (hmode : h.get (.symbol "mode") = .nil ∨ h.get (.symbol "mode") ∈ Ruby.modes) :
    ∃ option, brsExtResolveOption h .mode "mode" = .ok option ∧ ValueAsGiven h "mode" option := by
  rcases hmode with hnil | hmem
  · exact resolveOption_nil hnil
  · simp only [Ruby.modes, List.mem_cons, List.not_mem_nil, or_false] at hmem
    rcases hmem with htext | hfont | hgeneric
    · exact resolveOption_given htext (by simp) rfl rfl
    · exact resolveOption_given hfont (by simp) rfl rfl
    · exact resolveOption_given hgeneric (by simp) rfl rfl

end Values

/-! ### What the numbers are -/

namespace ValueAsGiven

variable {h : Hash} {name : String} {v : UInt32}

theorem inBounds (hv : ValueAsGiven h name (some v)) {min max : Int}
    (hbounds : Ruby.InBounds h.get name min max) :
    min ≤ (v.toNat : Int) ∧ (v.toNat : Int) ≤ max := by
  unfold ValueAsGiven at hv
  rcases hbounds with hnil | ⟨n, hget, hle, hge⟩
  · rw [hnil] at hv
    cases hv
  · rw [hget] at hv
    obtain rfl : (v.toNat : Int) = n := Option.some.inj hv
    exact ⟨hle, hge⟩

theorem boolOrNil (hv : ValueAsGiven h name (some v)) (hbool : Ruby.BoolOrNil h.get name) :
    v.toNat ≤ 1 := by
  unfold ValueAsGiven at hv
  rcases hbool with hget | hget | hget <;> rw [hget] at hv
  · cases hv
  · have hone : (v.toNat : Int) = 1 := Option.some.inj hv
    omega
  · have hzero : (v.toNat : Int) = 0 := Option.some.inj hv
    omega

theorem mode (hv : ValueAsGiven h "mode" (some v))
    (hmode : h.get (.symbol "mode") = .nil ∨ h.get (.symbol "mode") ∈ Ruby.modes) :
    v.toNat ≤ 2 := by
  unfold ValueAsGiven at hv
  rcases hmode with hget | hmem
  · rw [hget] at hv
    cases hv
  · simp only [Ruby.modes, List.mem_cons, List.not_mem_nil, or_false] at hmem
    rcases hmem with hget | hget | hget <;> rw [hget] at hv
    · have htext : (v.toNat : Int) = 1 := Option.some.inj hv
      omega
    · have hfont : (v.toNat : Int) = 2 := Option.some.inj hv
      omega
    · have hgeneric : (v.toNat : Int) = 0 := Option.some.inj hv
      omega

end ValueAsGiven

/-! ## All options of the compressor -/

/-- All valid options but the size hint are read as they are given. -/
theorem getCompressorOptions_asGiven {h : Hash} {names : List Value}
    (hdocumented : Ruby.CompressorOptionsDocumented h.get names) :
    ∃ o : Option UInt32 → CompressorOptions,
      getCompressorOptions h = (brsExtResolveOption h .uint "size_hint").map o ∧
      ∀ sizeHint, ValueAsGiven h "size_hint" sizeHint →
        ParamsAsGiven compressorParameters h (o sizeHint).params := by
  obtain ⟨mode, hmode, hmode'⟩ := resolveOption_mode hdocumented.mode
  obtain ⟨quality, hquality, hquality'⟩ := resolveOption_bounds hdocumented.quality (by decide)
    (by decide)
  obtain ⟨lgwin, hlgwin, hlgwin'⟩ := resolveOption_bounds hdocumented.lgwin (by decide)
    (by decide)
  obtain ⟨lgblock, hlgblock, hlgblock'⟩ := resolveOption_bounds hdocumented.lgblock (by decide)
    (by decide)
  obtain ⟨ npostfix, hnpostfix, hnpostfix'⟩ := resolveOption_bounds hdocumented.npostfix (by decide)
    (by decide)
  obtain ⟨ndirect, hndirect, hndirect'⟩ := resolveOption_bounds hdocumented.ndirect_inBounds
    (by decide) (by decide)
  obtain ⟨literal, hliteral, hliteral'⟩ := resolveOption_bool
    hdocumented.disableLiteralContextModeling
  obtain ⟨window, hwindow, hwindow'⟩ := resolveOption_bool hdocumented.largeWindow
  refine ⟨fun sizeHint => ⟨mode, quality, lgwin, lgblock, npostfix, ndirect, literal, sizeHint,
    window⟩, ?_, fun sizeHint hhint => ?_⟩
  · simp only [getCompressorOptions, hmode, hquality, hlgwin, hlgblock, hnpostfix, hndirect,
      hliteral, hwindow]
    cases brsExtResolveOption h .uint "size_hint" <;> rfl
  · exact .cons ⟨rfl, hmode'⟩ (.cons ⟨rfl, hquality'⟩ (.cons ⟨rfl, hlgwin'⟩
      (.cons ⟨rfl, hlgblock'⟩ (.cons ⟨rfl, hnpostfix'⟩ (.cons ⟨rfl, hndirect'⟩
      (.cons ⟨rfl, hliteral'⟩ (.cons ⟨rfl, hhint⟩ (.cons ⟨rfl, hwindow'⟩ .nil))))))))

end RubyBrs
