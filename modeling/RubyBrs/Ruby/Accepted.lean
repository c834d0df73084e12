/-
  RubyBrs.Ruby.Accepted

  How `Option.get_compressor_options` refuses the options that are not documented, and
  what it does with the hashes that it is given.

  The checks pass for the documented options (`checkCompressorOptions_iff`), and
  otherwise raise `ValidateError`.  The method itself is read here with its hashes as
  objects, so that it can be said what it does not change.
-/

import RubyBrs.Ruby.Documented

namespace RubyBrs
namespace Ruby

/-! ## Errors -/

/-- `ValidateError`, with any description. -/
def IsValidateError (e : RubyError) : Prop := ∃ description, e = .brs .validateError description

/-- The validators raise `ValidateError` and nothing else. -/
structure Adsp.RaisesValidateError (adsp : Adsp) : Prop where
  hash : ∀ options e, adsp.validateHash options = .error e → IsValidateError e
  symbol : ∀ value e, adsp.validateSymbol value = .error e → IsValidateError e
  notNegativeInteger : ∀ value e, adsp.validateNotNegativeInteger value = .error e →
    IsValidateError e

theorem Adsp.gem_raisesValidateError : Adsp.gem.RaisesValidateError where
  hash options e h := by
    cases options with
    | hash _ => cases h
    | value _ => exact ⟨_, (Except.error.inj h).symm⟩
  symbol value e h := by
    cases value with
    | symbol _ => cases h
    | _ => exact ⟨_, (Except.error.inj h).symm⟩
  notNegativeInteger value e h := by
    cases value with
    | integer n =>
        by_cases hn : 0 ≤ n
        · simp only [gem, if_pos hn] at h
          cases h
        · simp only [gem, if_neg hn] at h
          exact ⟨_, (Except.error.inj h).symm⟩
    | _ => exact ⟨_, (Except.error.inj h).symm⟩

/-- If it raises, then `ValidateError`. -/
def OnlyValidateError {α : Type} (x : Except RubyError α) : Prop :=
  ∀ e, x = .error e → IsValidateError e

section OnlyValidateError

variable {α β : Type}

theorem OnlyValidateError.ok (a : α) : OnlyValidateError (.ok a : Except RubyError α) :=
  fun _ h => by cases h

theorem OnlyValidateError.raise (description : String) :
    OnlyValidateError (raiseValidateError description : Except RubyError α) :=
  fun _ h => ⟨description, (Except.error.inj h).symm⟩

theorem OnlyValidateError.bind {x : Except RubyError α} {f : α → Except RubyError β}
    (hx : OnlyValidateError x) (hf : ∀ a, x = .ok a → OnlyValidateError (f a)) :
    OnlyValidateError (x >>= f) := by
  intro e h
  cases x with
  | error e' =>
      have herror : (.error e' : Except RubyError β) = .error e := h
      exact hx e (by rw [Except.error.inj herror])
  | ok a => exact hf a rfl e h

end OnlyValidateError

/-! ## The checks -/

section Checks

variable {adsp : Adsp} (hadsp : adsp.Documented) (hraises : adsp.RaisesValidateError)

theorem unlessNil_raises {value : Value} {check : Value → Except RubyError Unit}
    (h : OnlyValidateError (check value)) : OnlyValidateError (unlessNil value check) := by
  unfold unlessNil
  split
  · exact .ok ()
  · exact h

theorem validateBool_raises (value : Value) : OnlyValidateError (validateBool value) := by
  unfold validateBool
  split
  · exact .ok ()
  · exact .raise _

theorem raise_raises {c : Prop} [Decidable c] (description : String) :
    OnlyValidateError
      (if c then raiseValidateError description else pure () : Except RubyError Unit) := by
  split
  · exact .raise _
  · exact .ok ()

include hadsp hraises in
theorem validateBounds_raises (min max : Int) (description : String) (value : Value) :
    OnlyValidateError (validateBounds adsp min max description value) := by
  refine .bind (fun e => hraises.notNegativeInteger value e) fun _ hinteger => ?_
  -- What passed is an integer, and can be compared.
  obtain ⟨n, rfl, -⟩ := (hadsp.notNegativeInteger value).mp hinteger
  exact raise_raises description

include hadsp hraises in
theorem checkCompressorOptions_raises (options : Hash) (names : List Value) :
    OnlyValidateError (checkCompressorOptions adsp options names) := by
  have hbounds : ∀ name min max description, OnlyValidateError
      (unlessNil (options.get (.symbol name)) (validateBounds adsp min max description)) :=
    fun name min max description =>
      unlessNil_raises (validateBounds_raises hadsp hraises min max description _)
  have hlengths : OnlyValidateError
      (names.forM fun name => adsp.validateNotNegativeInteger (options.get name)) := by
    induction names with
    | nil => exact .ok ()
    | cons name rest ih => exact .bind (fun e => hraises.notNegativeInteger _ e) fun _ _ => ih
  refine .bind hlengths fun _ _ => ?_
  refine .bind (validateBool_raises _) fun _ _ => ?_
  refine .bind (unlessNil_raises ?_) fun _ _ => ?_
  · exact .bind (fun e => hraises.symbol _ e) fun _ _ => raise_raises _
  refine .bind (hbounds _ _ _ _) fun _ _ => ?_
  refine .bind (hbounds _ _ _ _) fun _ _ => ?_
  refine .bind (hbounds _ _ _ _) fun _ _ => ?_
  refine .bind (hbounds _ _ _ _) fun _ hnpostfix => ?_
  refine .bind (unlessNil_raises ?_) fun _ _ => ?_
  · refine .bind (validateBounds_raises hadsp hraises _ _ _ _) fun _ hndirect => ?_
    obtain ⟨n, hn, -⟩ := (validateBounds_iff hadsp (by decide)).mp hndirect
    rcases unlessNil_iff.mp hnpostfix with hnil | hbounds
    · rw [hnil]
      exact .ok ()
    · obtain ⟨p, hp, -⟩ := (validateBounds_iff hadsp (by decide)).mp hbounds
      rw [hn, hp]
      exact unlessNil_raises (raise_raises _)
  refine .bind (unlessNil_raises (validateBool_raises _)) fun _ _ => ?_
  exact unlessNil_raises (validateBool_raises _)

end Checks

/-! ## The method on objects -/

/-- An argument: a reference to a hash, or another value. -/
inductive ReferenceArgument where
  | hash (reference : Nat)
  | value (v : Value)

def ReferenceArgument.read (heap : Heap) : ReferenceArgument → Argument
  | .hash reference => .hash (heap.read reference)
  | .value v => .value v

/-- The hash that is referred to exists. -/
def ReferenceArgument.Exists (heap : Heap) : ReferenceArgument → Prop
  | .hash reference => reference < heap.size
  | .value _ => True

/-- `Option.get_compressor_options`, where `defaults` refers to
    `COMPRESSOR_DEFAULTS`: a reference to the result, or an exception. -/
def getCompressorOptionsOn (adsp : Adsp) (defaults : Nat) (heap : Heap)
    (options : ReferenceArgument) (bufferLengthNames : List Value) :
    Except RubyError Nat × Heap :=
  match adsp.validateHash (options.read heap), options with
  | .error e, _ => (.error e, heap)
  | .ok (), .value _ => (.error .typeError, heap)
  | .ok (), .hash options =>
      let (bufferLengthDefaults, heap) := heap.allocate .empty
      let heap := heap.storeAll bufferLengthDefaults
        (bufferLengthNames.map fun name => (name, defaultBufferLength))
      let (merged, heap) := heap.merge defaults bufferLengthDefaults
      let (options, heap) := heap.merge merged options
      (do checkCompressorOptions adsp (heap.read options) bufferLengthNames; return options, heap)

section Objects

variable {adsp : Adsp} {defaults : Nat} {heap : Heap} {names : List Value}

/-- What the method does with a hash: it makes three, of which the last one has
    the options filled in, checks that one, and changes no other. -/
theorem getCompressorOptionsOn_hash (names : List Value) (hdefaults : defaults < heap.size)
    (hread : heap.read defaults = compressorDefaults) {reference : Nat}
    (hreference : reference < heap.size)
    (hhash : adsp.validateHash (.hash (heap.read reference)) = .ok ()) :
    ∃ heap', getCompressorOptionsOn adsp defaults heap (.hash reference) names =
        (do checkCompressorOptions adsp (heap'.read (heap.size + 2)) names
            return heap.size + 2, heap') ∧
      heap.Keeps heap' ∧ heap'.size = heap.size + 3 ∧
      heap'.read (heap.size + 2) = mergedWith compressorDefaults (heap.read reference) names := by
  let heap₁ := (heap.allocate .empty).2
  let heap₂ := heap₁.storeAll heap.size (names.map fun name => (name, defaultBufferLength))
  let heap₃ := (heap₂.merge defaults heap.size).2
  let heap₄ := (heap₃.merge heap₂.size reference).2
  have hkeeps₂ : heap.Keeps heap₂ := (heap.allocate_keeps _).storeAll (Nat.le_refl _) _
  have hkeeps₃ : heap.Keeps heap₃ := hkeeps₂.trans (heap₂.merge_keeps ..)
  have hsize₁ : heap₁.size = heap.size + 1 := heap.allocate_size _
  have hsize₂ : heap₂.size = heap.size + 1 := by rw [Heap.storeAll_size, hsize₁]
  have hsize₃ : heap₃.size = heap.size + 2 := by rw [Heap.merge_size, hsize₂]
  have hsize₄ : heap₄.size = heap.size + 3 := by rw [Heap.merge_size, hsize₃]
  have hlengths : heap₂.read heap.size = names.foldl
      (fun defaults name => defaults.set name defaultBufferLength) Hash.empty := by
    rw [Heap.storeAll_read_self _ (by omega), Heap.allocate_read, List.foldl_map]
  have hmerged : heap₃.read heap₂.size = compressorDefaults.merge (heap₂.read heap.size) := by
    rw [Heap.merge_read, hkeeps₂.read_eq defaults hdefaults, hread]
  have hresult : heap₄.read (heap.size + 2) =
      (heap₃.read heap₂.size).merge (heap.read reference) := by
    rw [← hsize₃, Heap.merge_read, hkeeps₃.read_eq reference hreference]
  refine ⟨heap₄, ?_, hkeeps₃.trans (heap₃.merge_keeps ..), hsize₄, ?_⟩
  · simp only [getCompressorOptionsOn, ReferenceArgument.read, hhash]
    show (do
      checkCompressorOptions adsp (heap₄.read heap₃.size) names
      return heap₃.size, heap₄) = _
    rw [hsize₃]
  · rw [hresult, hmerged, hlengths, mergedWith]

/-- The method on objects does what it does on values. -/
theorem getCompressorOptionsOn_refines (hadsp : adsp.Documented) (hdefaults : defaults < heap.size)
    (hread : heap.read defaults = compressorDefaults) {options : ReferenceArgument}
    (hoptions : options.Exists heap) :
    (getCompressorOptionsOn adsp defaults heap options names).1.map
        (getCompressorOptionsOn adsp defaults heap options names).2.read =
      getCompressorOptions adsp (options.read heap) names := by
  rw [getCompressorOptions_eq]
  cases hhash : adsp.validateHash (options.read heap) with
  | error e =>
      cases options <;> simp only [getCompressorOptionsOn, mergeDefaults, hhash] <;> rfl
  | ok u =>
      cases options with
      | value v =>
          obtain ⟨h, heq⟩ := (hadsp.hash _).mp hhash
          cases heq
      | hash reference =>
          obtain ⟨heap', heq, -, -, hresult⟩ :=
            getCompressorOptionsOn_hash names hdefaults hread hoptions hhash
          rw [heq]
          have hmerged : mergeDefaults adsp compressorDefaults
              (ReferenceArgument.read heap (.hash reference)) names =
                .ok (heap'.read (heap.size + 2)) := by
            rw [mergeDefaults, hhash, hresult]
            rfl
          rw [hmerged]
          show Except.map _ (checkCompressorOptions adsp _ names >>= fun _ => _) =
            (checkCompressorOptions adsp _ names >>= fun _ => _)
          cases checkCompressorOptions adsp (heap'.read (heap.size + 2)) names <;> rfl

/-- Processing the hash gives an equal one. -/
def Reprocessed (adsp : Adsp) (defaults : Nat) (heap : Heap) (reference : Nat)
    (bufferLengthNames : List Value) : Prop :=
  ∃ result heap', getCompressorOptionsOn adsp defaults heap (.hash reference) bufferLengthNames =
      (.ok result, heap') ∧
    (heap'.read result).Same (heap.read reference)

/-- Documented options that no default is missing of are processed to themselves. -/
theorem reprocessed (hadsp : adsp.Documented) (hdefaults : defaults < heap.size)
    (hread : heap.read defaults = compressorDefaults) {reference : Nat}
    (hreference : reference < heap.size)
    (hdocumented : CompressorOptionsDocumented (heap.read reference).get names)
    (hfull : Full compressorDefaults names (heap.read reference)) :
    Reprocessed adsp defaults heap reference names := by
  obtain ⟨heap', heq, -, -, hresult⟩ := getCompressorOptionsOn_hash names hdefaults hread
    hreference ((hadsp.hash _).mpr ⟨_, rfl⟩)
  have hsame : (heap'.read (heap.size + 2)).Same (heap.read reference) := by
    intro key
    rw [hresult, lookup_mergedWith, hfull.filledIn_eq]
  have hget : (heap'.read (heap.size + 2)).get = (heap.read reference).get := by
    funext key
    rw [Hash.get_eq_lookup, Hash.get_eq_lookup, hsame key]
  rw [← hget, ← checkCompressorOptions_iff hadsp] at hdocumented
  refine ⟨heap.size + 2, heap', ?_, hsame⟩
  rw [heq, hdocumented]
  rfl

/-- What `Option.get_compressor_options` is documented to do, given what it left
    behind. -/
structure Exact (adsp : Adsp) (defaults : Nat) (heap : Heap) (options : ReferenceArgument)
    (bufferLengthNames : List Value) (left : Except RubyError Nat × Heap) : Prop where
  accepts_iff : (∃ result, left.1 = .ok result) ↔ ∃ h, options.read heap = .hash h ∧
    CompressorOptionsDocumented (optionIn compressorDefaults h bufferLengthNames)
      bufferLengthNames
  onlyValidateError : OnlyValidateError left.1
  /-- Neither the caller's hash nor the defaults are modified. -/
  keeps : heap.Keeps left.2
  /-- The result is a new hash, with the options of the caller and the defaults
      elsewhere. -/
  result : ∀ result h, left.1 = .ok result → options.read heap = .hash h →
    heap.size ≤ result ∧ result < left.2.size ∧
    ∀ key, (left.2.read result).lookup key =
      filledIn compressorDefaults h bufferLengthNames key
  again : ∀ result, left.1 = .ok result →
    Reprocessed adsp defaults left.2 result bufferLengthNames
  /-- Also with a size hint, which has to be a length only if it is named as one. -/
  again_sizeHint : ∀ result sizeHint, left.1 = .ok result →
    (.symbol "size_hint" ∈ bufferLengthNames → ∃ n : Int, sizeHint = .integer n ∧ 0 ≤ n) →
    Reprocessed adsp defaults (left.2.store result (.symbol "size_hint") sizeHint) result
      bufferLengthNames

/-- They stay so with a size hint. -/
theorem reprocessed_sizeHint (hadsp : adsp.Documented) (hdefaults : defaults < heap.size)
    (hread : heap.read defaults = compressorDefaults) {reference : Nat}
    (hreference : reference < heap.size) (hne : defaults ≠ reference)
    (hdocumented : CompressorOptionsDocumented (heap.read reference).get names)
    (hfull : Full compressorDefaults names (heap.read reference))
    {sizeHint : Value}
    (hhint : .symbol "size_hint" ∈ names → ∃ n : Int, sizeHint = .integer n ∧ 0 ≤ n) :
    Reprocessed adsp defaults (heap.store reference (.symbol "size_hint") sizeHint) reference
      names := by
  have hself := heap.store_read_self hreference (.symbol "size_hint") sizeHint
  apply reprocessed hadsp
  · rw [Heap.store_size]
    exact hdefaults
  · rw [Heap.store_read_ne _ hne, hread]
  · rw [Heap.store_size]
    exact hreference
  · rw [hself]
    exact hdocumented.set_sizeHint hhint
  · rw [hself]
    exact hfull.set _ _

/-- Whatever is not a hash is refused before any hash is made. -/
theorem exact_of_not_hash (hadsp : adsp.Documented) (hraises : adsp.RaisesValidateError)
    {options : ReferenceArgument} {e : RubyError}
    (hhash : adsp.validateHash (options.read heap) = .error e) :
    Exact adsp defaults heap options names
      (getCompressorOptionsOn adsp defaults heap options names) := by
  have heq : getCompressorOptionsOn adsp defaults heap options names = (.error e, heap) := by
    cases options <;> simp only [getCompressorOptionsOn, hhash]
  rw [heq]
  refine ⟨⟨?_, ?_⟩, ?_, Heap.Keeps.refl heap, ?_, ?_, ?_⟩
  · rintro ⟨result, h⟩
    cases h
  · rintro ⟨h, hh, -⟩
    rw [(hadsp.hash _).mpr ⟨h, hh⟩] at hhash
    cases hhash
  · rintro e' h
    rw [← Except.error.inj h]
    exact hraises.hash _ _ hhash
  · rintro result h hok
    cases hok
  · rintro result hok
    cases hok
  · rintro result sizeHint hok
    cases hok

/-- The result is returned as soon as the checks pass. -/
theorem checked_ok_iff (hadsp : adsp.Documented) {options : Hash} {reference result : Nat} :
    (do checkCompressorOptions adsp options names; return reference : Except RubyError Nat) =
        .ok result ↔
      CompressorOptionsDocumented options.get names ∧ reference = result := by
  rw [bind_unit_iff, checkCompressorOptions_iff hadsp]
  exact and_congr_right fun _ => ⟨Except.ok.inj, fun h => congrArg Except.ok h⟩

theorem exact_of_hash (hadsp : adsp.Documented) (hraises : adsp.RaisesValidateError)
    (hdefaults : defaults < heap.size) (hread : heap.read defaults = compressorDefaults)
    {reference : Nat} (hreference : reference < heap.size) :
    Exact adsp defaults heap (.hash reference) names
      (getCompressorOptionsOn adsp defaults heap (.hash reference) names) := by
  obtain ⟨heap', heq, hkeeps, hsize, hmerged⟩ := getCompressorOptionsOn_hash names
    hdefaults hread hreference ((hadsp.hash _).mpr ⟨_, rfl⟩)
  have hlookup : ∀ key, (heap'.read (heap.size + 2)).lookup key =
      filledIn compressorDefaults (heap.read reference) names key := by
    intro key
    rw [hmerged, lookup_mergedWith]
  have hget : (heap'.read (heap.size + 2)).get =
      optionIn compressorDefaults (heap.read reference) names := by
    rw [hmerged, get_mergedWith]
  -- The next call finds everything as this one did.
  have hdefaults' : defaults < heap'.size := by omega
  have hread' : heap'.read defaults = compressorDefaults := by
    rw [hkeeps.read_eq defaults hdefaults, hread]
  have hresult' : heap.size + 2 < heap'.size := by omega
  have hfull : Full compressorDefaults names (heap'.read (heap.size + 2)) := by
    rw [hmerged]
    exact full_mergedWith _ _
  rw [heq]
  refine ⟨⟨?_, ?_⟩, ?_, hkeeps, ?_, ?_, ?_⟩
  · rintro ⟨result, hok⟩
    obtain ⟨hdocumented, -⟩ := (checked_ok_iff hadsp).mp hok
    rw [hget] at hdocumented
    exact ⟨heap.read reference, rfl, hdocumented⟩
  · rintro ⟨h, hh, hdocumented⟩
    obtain rfl := Argument.hash.inj hh
    rw [← hget] at hdocumented
    exact ⟨_, (checked_ok_iff hadsp).mpr ⟨hdocumented, rfl⟩⟩
  · exact .bind (checkCompressorOptions_raises hadsp hraises _ _) fun _ _ => .ok _
  · intro result h hok hh
    obtain rfl := Argument.hash.inj hh
    obtain ⟨-, rfl⟩ := (checked_ok_iff hadsp).mp hok
    exact ⟨by omega, hresult', hlookup⟩
  · intro result hok
    obtain ⟨hdocumented, rfl⟩ := (checked_ok_iff hadsp).mp hok
    exact reprocessed hadsp hdefaults' hread' hresult' hdocumented hfull
  · intro result sizeHint hok hhint
    obtain ⟨hdocumented, rfl⟩ := (checked_ok_iff hadsp).mp hok
    exact reprocessed_sizeHint hadsp hdefaults' hread' hresult' (by omega) hdocumented hfull hhint

/-- `Option.get_compressor_options` accepts exactly the documented options, raises
    `ValidateError` for all others, changes no hash, and gives an equal hash for
    its own result. -/
theorem getCompressorOptions_exact (hadsp : adsp.Documented) (hraises : adsp.RaisesValidateError)
    (hdefaults : defaults < heap.size) (hread : heap.read defaults = compressorDefaults)
    {options : ReferenceArgument} (hoptions : options.Exists heap)
    (bufferLengthNames : List Value) :
    Exact adsp defaults heap options bufferLengthNames
      (getCompressorOptionsOn adsp defaults heap options bufferLengthNames) := by
  cases hhash : adsp.validateHash (options.read heap) with
  | error e => exact exact_of_not_hash hadsp hraises hhash
  | ok u =>
      obtain ⟨h, hh⟩ := (hadsp.hash _).mp hhash
      cases options with
      | value v => cases hh
      | hash reference => exact exact_of_hash hadsp hraises hdefaults hread hoptions

/-- The defaults, and options with an explicit `nil` and an explicit `false`. -/
def overridingHeap : Heap :=
  ⟨[compressorDefaults, .ofSymbols [("quality", .nil), ("gvl", .false), ("npostfix", .integer 1),
    ("ndirect", .integer 30)]]⟩

theorem getCompressorOptions_exact_overriding :
    Exact .gem 0 overridingHeap (.hash 1) [.symbol "destination_buffer_length"]
      (getCompressorOptionsOn .gem 0 overridingHeap (.hash 1)
        [.symbol "destination_buffer_length"]) := by
  have hexists : ReferenceArgument.Exists overridingHeap (.hash 1) := by
    show 1 < 2
    omega
  exact getCompressorOptions_exact Adsp.gem_documented Adsp.gem_raisesValidateError
    (by decide) rfl hexists _

end Objects

end Ruby
end RubyBrs
