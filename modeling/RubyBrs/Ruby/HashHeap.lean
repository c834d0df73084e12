/-
  RubyBrs.Ruby.HashHeap

  Hashes as Ruby has them: a variable holds a reference, `hash[key] = value`
  changes the hash for everyone who refers to it, and `merge` makes a new one.

  `Heap.Keeps` says that everything that could be referred to before is as it
  was, which is what a method owes to the owner of a hash that it is given.
-/

import RubyBrs.Ruby.Value

namespace RubyBrs

/-! ## Entries -/

namespace Hash

/-- The value of a key that the hash has. -/
def lookup (h : Hash) (key : Value) : Option Value := h.entries.lookup key

/-- `hash == other`: the same keys with the same values, in whatever order. -/
def Same (h other : Hash) : Prop := ∀ key, h.lookup key = other.lookup key

theorem get_eq_lookup (h : Hash) (key : Value) : h.get key = (h.lookup key).getD .nil := rfl

theorem lookup_set (h : Hash) (key value k : Value) :
    (h.set key value).lookup k = if k = key then some value else h.lookup k :=
  lookup_setEntry h.entries key value k

@[simp] theorem lookup_empty (key : Value) : empty.lookup key = none := rfl

/-- Setting one key after the other, all of them different. -/
theorem lookup_setAll {entries : List (Value × Value)} (hnodup : (entries.map Prod.fst).Nodup)
    (h : Hash) (k : Value) :
    (entries.foldl (fun merged entry => merged.set entry.1 entry.2) h).lookup k =
      (entries.lookup k).or (h.lookup k) := by
  induction entries generalizing h with
  | nil => rfl
  | cons entry rest ih =>
      obtain ⟨key, value⟩ := entry
      rw [List.map_cons, List.nodup_cons] at hnodup
      rw [List.foldl_cons, ih hnodup.2, lookup_set, List.lookup_cons]
      by_cases hk : k = key
      -- No later entry has this key, so its value stays.
      · subst hk
        have hnone : rest.lookup k = none := by
          rw [List.lookup_eq_none_iff]
          intro p hp
          rw [bne_iff_ne]
          rintro rfl
          exact hnodup.1 (List.mem_map.mpr ⟨p, hp, rfl⟩)
        simp [hnone]
      · simp [hk, beq_eq_false_iff_ne.mpr hk]

/-- The other hash decides wherever it has the key. -/
theorem lookup_merge (h other : Hash) (k : Value) :
    (h.merge other).lookup k = (other.lookup k).or (h.lookup k) :=
  lookup_setAll other.nodup h k

/-- Setting keys to one value. -/
theorem lookup_setKeys (keys : List Value) (value : Value) (h : Hash) (k : Value) :
    (keys.foldl (fun h key => h.set key value) h).lookup k =
      if k ∈ keys then some value else h.lookup k := by
  induction keys generalizing h with
  | nil => rfl
  | cons key rest ih =>
      rw [List.foldl_cons, ih, lookup_set]
      by_cases hrest : k ∈ rest
      · simp [hrest]
      · by_cases hk : k = key
        · simp [hk]
        · simp [hrest, hk]

end Hash

/-! ## References -/

/-- The hashes that exist; a reference to one is its place. -/
structure Heap where
  hashes : List Hash

namespace Heap

def size (heap : Heap) : Nat := heap.hashes.length

/-- The hash that is referred to. -/
def read (heap : Heap) (reference : Nat) : Hash := heap.hashes.getD reference .empty

/-- A new hash. -/
def allocate (heap : Heap) (h : Hash) : Nat × Heap := (heap.size, ⟨heap.hashes ++ [h]⟩)

/-- `hash[key] = value`. -/
def store (heap : Heap) (reference : Nat) (key value : Value) : Heap :=
  ⟨heap.hashes.modify reference (·.set key value)⟩

/-- `hash[key] = value` for some keys and values, in their order. -/
def storeAll (heap : Heap) (reference : Nat) (entries : List (Value × Value)) : Heap :=
  entries.foldl (fun heap entry => heap.store reference entry.1 entry.2) heap

/-- `hash.merge other`: a copy of the hash, to which the entries of the other one
    are added. -/
def merge (heap : Heap) (hash other : Nat) : Nat × Heap :=
  let (merged, heap') := heap.allocate (heap.read hash)
  (merged, heap'.storeAll merged (heap.read other).entries)

/-- No hash of the heap was changed. -/
structure Keeps (heap heap' : Heap) : Prop where
  size_le : heap.size ≤ heap'.size
  read_eq : ∀ reference, reference < heap.size → heap'.read reference = heap.read reference

theorem Keeps.refl (heap : Heap) : heap.Keeps heap := ⟨Nat.le_refl _, fun _ _ => rfl⟩

theorem Keeps.trans {heap₁ heap₂ heap₃ : Heap} (h : heap₁.Keeps heap₂) (h' : heap₂.Keeps heap₃) :
    heap₁.Keeps heap₃ where
  size_le := Nat.le_trans h.size_le h'.size_le
  read_eq reference hlt := by
    rw [h'.read_eq reference (Nat.lt_of_lt_of_le hlt h.size_le), h.read_eq reference hlt]

section Operations

variable (heap : Heap)

@[simp] theorem allocate_size (h : Hash) : (heap.allocate h).2.size = heap.size + 1 := by
  simp [allocate, size]

@[simp] theorem allocate_read (h : Hash) : (heap.allocate h).2.read heap.size = h := by
  simp [allocate, read, size]

theorem allocate_keeps (h : Hash) : heap.Keeps (heap.allocate h).2 where
  size_le := by
    rw [allocate_size]
    omega
  read_eq reference hlt := by
    have hlt' : reference < heap.hashes.length := hlt
    simp [allocate, read, List.getElem?_append_left hlt']

@[simp] theorem store_size (reference : Nat) (key value : Value) :
    (heap.store reference key value).size = heap.size := by
  simp [store, size]

theorem store_read_self {reference : Nat} (hlt : reference < heap.size) (key value : Value) :
    (heap.store reference key value).read reference = (heap.read reference).set key value := by
  have hlt' : reference < heap.hashes.length := hlt
  simp [store, read, hlt']

theorem store_read_ne {reference other : Nat} (hne : other ≠ reference) (key value : Value) :
    (heap.store reference key value).read other = heap.read other := by
  simp [store, read, Ne.symm hne]

@[simp] theorem storeAll_size (reference : Nat) (entries : List (Value × Value)) :
    (heap.storeAll reference entries).size = heap.size := by
  induction entries generalizing heap with
  | nil => rfl
  | cons entry rest ih => exact (ih _).trans (heap.store_size ..)

theorem storeAll_read_self {reference : Nat} (hlt : reference < heap.size)
    (entries : List (Value × Value)) : (heap.storeAll reference entries).read reference =
      entries.foldl (fun h entry => h.set entry.1 entry.2) (heap.read reference) := by
  induction entries generalizing heap with
  | nil => rfl
  | cons entry rest ih =>
      have hlt' : reference < (heap.store reference entry.1 entry.2).size := by
        rw [store_size]
        exact hlt
      have hrest := ih _ hlt'
      rw [heap.store_read_self hlt] at hrest
      exact hrest

theorem storeAll_read_ne {reference other : Nat} (hne : other ≠ reference)
    (entries : List (Value × Value)) :
    (heap.storeAll reference entries).read other = heap.read other := by
  induction entries generalizing heap with
  | nil => rfl
  | cons entry rest ih => exact (ih _).trans (heap.store_read_ne hne ..)

/-- Changing a new hash changes none that was there before. -/
theorem Keeps.storeAll {heap heap' : Heap} (h : heap.Keeps heap') {reference : Nat}
    (hnew : heap.size ≤ reference) (entries : List (Value × Value)) :
    heap.Keeps (heap'.storeAll reference entries) where
  size_le := by
    rw [storeAll_size]
    exact h.size_le
  read_eq other hlt := by
    rw [heap'.storeAll_read_ne (by omega), h.read_eq other hlt]

variable (hash other : Nat)

theorem merge_eq : heap.merge hash other = (heap.size,
    (heap.allocate (heap.read hash)).2.storeAll heap.size (heap.read other).entries) := rfl

theorem merge_keeps : heap.Keeps (heap.merge hash other).2 :=
  (heap.allocate_keeps _).storeAll (Nat.le_refl _) _

@[simp] theorem merge_size : (heap.merge hash other).2.size = heap.size + 1 := by
  rw [merge_eq, storeAll_size, allocate_size]

/-- The result of `merge` is a hash of its own. -/
theorem merge_read :
    (heap.merge hash other).2.read heap.size = (heap.read hash).merge (heap.read other) := by
  rw [merge_eq, storeAll_read_self _ (by rw [allocate_size]; omega), allocate_read]
  rfl

end Operations

end Heap

end RubyBrs
