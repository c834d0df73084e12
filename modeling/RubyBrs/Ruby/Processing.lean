/-
  RubyBrs.Ruby.Processing

  What processing options comes to.

  The methods of the library that compress add a size to the processed options, or check
  the one that they are given.  What was processed can be processed again, any number of
  times, and stays as it is under every key (`processedAgain_iff`).
-/

import RubyBrs.Ext.OptionLayer

namespace RubyBrs

namespace Ruby

variable {adsp : Adsp} {names : List Value} {h : Hash}

/-! ## What a hash becomes -/

theorem hash_iff {P : Hash → Prop} :
    (∃ given, Argument.hash h = .hash given ∧ P given) ↔ P h := by
  constructor
  · rintro ⟨given, heq, hP⟩
    rw [Argument.hash.inj heq]
    exact hP
  · intro hP
    exact ⟨h, rfl, hP⟩

theorem getCompressorOptions_hash_iff (hadsp : adsp.Documented) (h h' : Hash) :
    getCompressorOptions adsp (.hash h) names = .ok h' ↔
      h' = mergedWith compressorDefaults h names ∧
        CompressorOptionsDocumented (optionIn compressorDefaults h names) names := by
  rw [getCompressorOptions_iff hadsp]
  exact hash_iff

theorem getDecompressorOptions_hash_iff (hadsp : adsp.Documented) (h h' : Hash) :
    getDecompressorOptions adsp (.hash h) names = .ok h' ↔
      h' = mergedWith decompressorDefaults h names ∧
        DecompressorOptionsDocumented (optionIn decompressorDefaults h names) names := by
  rw [getDecompressorOptions_iff hadsp]
  exact hash_iff

/-- A size that is added after the checks. -/
theorem sizedOptions_iff (hadsp : adsp.Documented) {options : Argument} {value : Value} {size : Nat}
    (hvalue : adsp.validateString value = .ok ()) :
    (do
      adsp.validateString value
      let options ← getCompressorOptions adsp options names
      return options.set (.symbol "size_hint") (.integer size)) = .ok h ↔
      ∃ given, options = .hash given ∧
        CompressorOptionsDocumented (optionIn compressorDefaults given names) names ∧
        h = (mergedWith compressorDefaults given names).set (.symbol "size_hint")
          (.integer size) := by
  rw [bind_unit_iff]
  constructor
  · rintro ⟨-, hok⟩
    obtain ⟨h', haccepted, hok⟩ := bind_ok hok
    obtain ⟨given, rfl, rfl, hdocumented⟩ := (getCompressorOptions_iff hadsp).mp haccepted
    exact ⟨given, rfl, hdocumented, (Except.ok.inj hok).symm⟩
  · rintro ⟨given, rfl, hdocumented, rfl⟩
    refine ⟨hvalue, ?_⟩
    rw [(getCompressorOptions_iff hadsp).mpr ⟨given, rfl, rfl, hdocumented⟩]
    rfl

/-- A size hint that the program gives is checked as a length. -/
theorem rawCompressorOptions_iff (hadsp : adsp.Documented) {options : Argument} :
    rawCompressorOptions adsp options names = .ok h ↔
      ∃ given, options = .hash given ∧
        CompressorOptionsDocumented (optionIn compressorDefaults given names) names ∧
        (optionIn compressorDefaults given names (.symbol "size_hint") = .nil ∨
          ∃ n : Int, optionIn compressorDefaults given names (.symbol "size_hint") = .integer n ∧
            0 ≤ n) ∧
        h = mergedWith compressorDefaults given names := by
  have hchecked : ∀ given, unlessNil ((mergedWith compressorDefaults given names).get
      (.symbol "size_hint")) adsp.validateNotNegativeInteger = .ok () ↔
        optionIn compressorDefaults given names (.symbol "size_hint") = .nil ∨
          ∃ n : Int, optionIn compressorDefaults given names (.symbol "size_hint") = .integer n ∧
            0 ≤ n := by
    intro given
    rw [get_mergedWith, unlessNil_iff, hadsp.notNegativeInteger]
  constructor
  · intro hok
    obtain ⟨h', haccepted, hok⟩ := bind_ok hok
    obtain ⟨_, hhint, hok⟩ := bind_ok hok
    obtain ⟨given, rfl, rfl, hdocumented⟩ := (getCompressorOptions_iff hadsp).mp haccepted
    exact ⟨given, rfl, hdocumented, (hchecked given).mp hhint, (Except.ok.inj hok).symm⟩
  · rintro ⟨given, rfl, hdocumented, hhint, rfl⟩
    rw [rawCompressorOptions,
      (getCompressorOptions_iff hadsp).mpr ⟨given, rfl, rfl, hdocumented⟩]
    show (unlessNil _ _ >>= fun _ => _) = _
    rw [bind_unit_iff]
    exact ⟨(hchecked given).mpr hhint, rfl⟩

/-! ## Processing again -/

/-- Options that were processed are processed again, so many times. -/
def processAgain (process : Hash → Except RubyError Hash) : Nat → Hash → Except RubyError Hash
  | 0, h => .ok h
  | times + 1, h => do processAgain process times (← process h)

section ProcessedAgain

variable {defaults : Hash} {process : Hash → Except RubyError Hash} {D : (Value → Value) → Prop}
  (hprocess : ∀ h h', process h = .ok h' ↔
    h' = mergedWith defaults h names ∧ D (optionIn defaults h names))

include hprocess

/-- Documented options in which no default is missing are never refused, and stay as they
    are under every key. -/
theorem processAgain_ok (times : Nat) (hfull : Full defaults names h) (hdocumented : D h.get) :
    ∃ h', processAgain process times h = .ok h' ∧ h'.get = h.get := by
  induction times generalizing h with
  | zero => exact ⟨h, rfl, rfl⟩
  | succ times ih =>
      have hfirst : process h = .ok (mergedWith defaults h names) := by
        rw [hprocess, hfull.optionIn_eq]
        exact ⟨rfl, hdocumented⟩
      have hmerged : (mergedWith defaults h names).get = h.get := by
        rw [get_mergedWith, hfull.optionIn_eq]
      rw [← hmerged] at hdocumented
      obtain ⟨h', hrest, hget⟩ := ih (full_mergedWith defaults h) hdocumented
      refine ⟨h', ?_, hget.trans hmerged⟩
      rw [processAgain, hfirst]
      exact hrest

/-- So it does not matter how often they are processed. -/
theorem processedAgain_iff {first : Except RubyError Hash}
    (hfirst : ∀ h, first = .ok h → Full defaults names h ∧ D h.get) (times : Nat)
    {P : Hash → Prop} (hP : ∀ h h', h'.get = h.get → P h → P h') :
    (∃ h, (do processAgain process times (← first)) = .ok h ∧ P h) ↔
      ∃ h, first = .ok h ∧ P h := by
  constructor
  · rintro ⟨h', hok, hP'⟩
    obtain ⟨h, hh, hrest⟩ := bind_ok hok
    obtain ⟨hfull, hdocumented⟩ := hfirst h hh
    obtain ⟨h₁, hrest', hget⟩ := processAgain_ok hprocess times hfull hdocumented
    obtain rfl : h' = h₁ := Except.ok.inj (hrest.symm.trans hrest')
    exact ⟨h, hh, hP _ _ hget.symm hP'⟩
  · rintro ⟨h, hh, hPh⟩
    obtain ⟨hfull, hdocumented⟩ := hfirst h hh
    obtain ⟨h', hrest, hget⟩ := processAgain_ok hprocess times hfull hdocumented
    refine ⟨h', ?_, hP _ _ hget hPh⟩
    rw [hh]
    exact hrest

end ProcessedAgain

end Ruby

end RubyBrs
