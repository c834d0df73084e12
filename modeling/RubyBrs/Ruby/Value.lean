/-
  RubyBrs.Ruby.Value

  Ruby values and hashes, as far as the library and its extension look at them,
  and the conversions of the Ruby C API to machine integers.

  A hash keeps its entries in the order of insertion and has no key twice, which
  is a field of the structure.
-/

import RubyBrs.Ext.Error
import Mathlib.Algebra.Order.Ring.Int
import Mathlib.Data.List.Nodup

namespace RubyBrs

/-- A Ruby value that is not a hash. -/
inductive Value where
  | nil
  | true
  | false
  | integer (n : Int)
  | symbol (name : String)
  | string (bytes : List UInt8)
  /-- A value of any other class. -/
  | other (object : Nat)
deriving Repr, DecidableEq

/-! ## Hashes -/

/-- The entries with the value of `key` replaced, or with a new one at the end. -/
def setEntry (key value : Value) : List (Value × Value) → List (Value × Value)
  | [] => [(key, value)]
  | (k, v) :: rest =>
      if k = key then (key, value) :: rest else (k, v) :: setEntry key value rest

theorem mem_keys_setEntry {key value k : Value} {entries : List (Value × Value)} :
    k ∈ (setEntry key value entries).map Prod.fst ↔ k = key ∨ k ∈ entries.map Prod.fst := by
  induction entries with
  | nil => simp [setEntry]
  | cons e rest ih =>
      obtain ⟨j, v⟩ := e
      by_cases hj : j = key
      · simp [setEntry, hj]
      · simp only [setEntry, hj, if_false, List.map_cons, List.mem_cons, ih]
        exact or_left_comm

theorem setEntry_nodup {key value : Value} {entries : List (Value × Value)}
    (h : (entries.map Prod.fst).Nodup) : ((setEntry key value entries).map Prod.fst).Nodup := by
  induction entries with
  | nil => simp [setEntry]
  | cons e rest ih =>
      obtain ⟨j, v⟩ := e
      rw [List.map_cons, List.nodup_cons] at h
      by_cases hj : j = key
      · subst hj
        simpa [setEntry] using h
      · simp only [setEntry, hj, if_false, List.map_cons, List.nodup_cons]
        refine ⟨fun hmem => ?_, ih h.2⟩
        rcases mem_keys_setEntry.mp hmem with heq | hrest
        · exact hj heq
        · exact h.1 hrest

/-- A Ruby hash. -/
structure Hash where
  entries : List (Value × Value)
  nodup : (entries.map Prod.fst).Nodup

namespace Hash

/-- `{}`. -/
def empty : Hash := ⟨[], List.nodup_nil⟩

/-- `hash[key]`; a missing key gives `nil`. -/
def get (h : Hash) (key : Value) : Value := (h.entries.lookup key).getD .nil

/-- `hash[key] = value`. -/
def set (h : Hash) (key value : Value) : Hash :=
  ⟨setEntry key value h.entries, setEntry_nodup h.nodup⟩

/-- `hash.merge other`. -/
def merge (h other : Hash) : Hash :=
  other.entries.foldl (fun merged entry => merged.set entry.1 entry.2) h

/-- A hash with symbols as keys, from a list of them with their values. -/
def ofSymbols (pairs : List (String × Value)) : Hash :=
  pairs.foldl (fun h pair => h.set (.symbol pair.1) pair.2) empty

theorem lookup_setEntry (entries : List (Value × Value)) (key value k : Value) :
    (setEntry key value entries).lookup k =
      if k = key then some value else entries.lookup k := by
  have hfalse : ∀ {j : Value}, k ≠ j → (k == j) = false := fun h => beq_eq_false_iff_ne.mpr h
  induction entries with
  | nil =>
      by_cases hk : k = key
      · simp [setEntry, hk]
      · simp [setEntry, List.lookup_cons, hk, hfalse hk]
  -- The key is found here, or is left to the rest.
  | cons e rest ih =>
      obtain ⟨j, v⟩ := e
      by_cases hj : j = key
      · subst hj
        by_cases hk : k = j
        · simp [setEntry, hk]
        · simp [setEntry, List.lookup_cons, hk, hfalse hk]
      · simp only [setEntry, hj, if_false, List.lookup_cons, ih]
        by_cases hkj : k = j
        · subst hkj
          simp [hj]
        · simp [hfalse hkj]

/-- Setting a key changes what is found under that key and nothing else. -/
theorem get_set (h : Hash) (key value k : Value) :
    (h.set key value).get k = if k = key then value else h.get k := by
  simp only [get, set, lookup_setEntry]
  split <;> rfl

@[simp] theorem get_set_self (h : Hash) (key value : Value) :
    (h.set key value).get key = value := by
  rw [get_set, if_pos rfl]

theorem get_set_ne (h : Hash) {key k : Value} (value : Value) (hne : k ≠ key) :
    (h.set key value).get k = h.get k := by
  rw [get_set, if_neg hne]

end Hash

/-- An argument of a method: a hash or another value. -/
inductive Argument where
  | hash (h : Hash)
  | value (v : Value)

/-! ## Integers of the C API -/

/-- The integers that `T_FIXNUM` covers; the others are of type `T_BIGNUM`. -/
def IsFixnum (n : Int) : Prop := -(2 ^ 62) ≤ n ∧ n < 2 ^ 62

instance (n : Int) : Decidable (IsFixnum n) := inferInstanceAs (Decidable (_ ∧ _))

/-- `Check_Type(value, T_FIXNUM)`. -/
def checkFixnum : Value → Except RubyError Int
  | .integer n => if IsFixnum n then .ok n else .error .typeError
  | _ => .error .typeError

/-- `NUM2UINT` of a fixnum: negative integers down to the least `int` wrap. -/
def num2uint (n : Int) : Except RubyError UInt32 :=
  if n < -(2 ^ 31) ∨ 2 ^ 32 ≤ n then .error .rangeError else .ok (UInt32.ofInt n)

/-- `NUM2SIZET` of a fixnum: negative integers wrap. -/
def num2sizet (n : Int) : Nat := (n % 2 ^ 64).toNat

end RubyBrs
