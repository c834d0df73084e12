/-
  RubyBrs.Lib.Window

  Windows into a block of memory held as a list: reading `len` cells at an
  offset, overwriting cells at an offset, and moving a window inside the block.

  `take_overwrite` and `window_overwrite_left` are the two facts a cursor
  argument needs: the cells in front of the write cursor grow by exactly what
  was written, and a window that ends at the cursor is not touched.
-/

import Mathlib.Data.List.Basic

namespace Window

variable {α : Type}

/-- The `len` cells of `mem` at `off`. -/
def window (mem : List α) (off len : Nat) : List α :=
  (mem.drop off).take len

/-- `mem` with the cells at `off` replaced by `cells`. -/
def overwrite (mem : List α) (off : Nat) (cells : List α) : List α :=
  mem.take off ++ cells ++ mem.drop (off + cells.length)

/-- The `memmove` of `len` cells from `src` to `dst`: the source window is read
    before anything is written, so the two may overlap. -/
def memmove (mem : List α) (dst src len : Nat) : List α :=
  overwrite mem dst (window mem src len)

/-! ## Reading -/

theorem window_length {mem : List α} {off len : Nat} (h_fits : off + len ≤ mem.length) :
    (window mem off len).length = len := by
  simp only [window, List.length_take, List.length_drop]
  omega

@[simp] theorem window_zero_len (mem : List α) (off : Nat) : window mem off 0 = [] := by
  simp [window]

theorem window_zero (mem : List α) (len : Nat) : window mem 0 len = mem.take len := by
  simp [window]

/-- Dropping the front of a window advances its offset. -/
theorem window_drop (mem : List α) (off len k : Nat) :
    (window mem off len).drop k = window mem (off + k) (len - k) := by
  simp only [window, List.drop_take, List.drop_drop]

/-! ## Writing -/

theorem overwrite_length {mem cells : List α} {off : Nat}
    (h_fits : off + cells.length ≤ mem.length) :
    (overwrite mem off cells).length = mem.length := by
  simp only [overwrite, List.length_append, List.length_take, List.length_drop]
  omega

/-- The cells in front of the end of a write: the old front, then what was
    written. -/
theorem take_overwrite {mem cells : List α} {off : Nat} (h_off : off ≤ mem.length) :
    (overwrite mem off cells).take (off + cells.length) = mem.take off ++ cells := by
  have hlen : (mem.take off ++ cells).length = off + cells.length := by
    simp only [List.length_append, List.length_take]
    omega
  rw [overwrite, ← hlen, List.take_left]

/-- A write behind a window that starts the block extends that window. -/
theorem window_overwrite_append {mem cells : List α} {len : Nat} (h_len : len ≤ mem.length) :
    window (overwrite mem len cells) 0 (len + cells.length) = window mem 0 len ++ cells := by
  rw [window_zero, window_zero, take_overwrite h_len]

/-- A write leaves every window that ends at or before it as it was. -/
theorem window_overwrite_left {mem cells : List α} {off len at_ : Nat}
    (h_before : off + len ≤ at_) (h_at : at_ ≤ mem.length) :
    window (overwrite mem at_ cells) off len = window mem off len := by
  have hlen : (mem.take at_).length = at_ := by
    rw [List.length_take]; omega
  have hfront : (overwrite mem at_ cells).take at_ = mem.take at_ := by
    rw [overwrite, List.append_assoc, List.take_append_of_le_length (by omega), List.take_take,
      Nat.min_self]
  -- The window depends only on the cells in front of the write.
  have hread : ∀ m : List α, window m off len = ((m.take at_).drop off).take len := by
    intro m
    rw [List.drop_take, List.take_take, window, Nat.min_eq_left (by omega)]
  rw [hread, hfront, ← hread]

/-! ## Moving -/

theorem memmove_length {mem : List α} {dst src len : Nat}
    (h_src : src + len ≤ mem.length) (h_dst : dst + len ≤ mem.length) :
    (memmove mem dst src len).length = mem.length := by
  apply overwrite_length
  rw [window_length h_src]
  exact h_dst

/-- Moved to the start of the block, the window reads as it did before. -/
theorem window_memmove {mem : List α} {src len : Nat} (h_src : src + len ≤ mem.length) :
    window (memmove mem 0 src len) 0 len = window mem src len := by
  have hlen := window_length h_src
  have h : (overwrite mem 0 (window mem src len)).take (0 + (window mem src len).length) =
      mem.take 0 ++ window mem src len := take_overwrite (Nat.zero_le mem.length)
  rw [hlen] at h
  rw [window_zero, memmove]
  simpa using h

/-! ## Two blocks -/

/-- Two blocks of one length that have the same first `n` cells. -/
structure SameFront (n : Nat) (mem mem' : List α) : Prop where
  length_eq : mem'.length = mem.length
  take_eq : mem'.take n = mem.take n

namespace SameFront

variable {n : Nat} {mem mem' : List α}

theorem refl (n : Nat) (mem : List α) : SameFront n mem mem := ⟨rfl, rfl⟩

/-- Of blocks of one length nothing need be the same. -/
theorem zero (h : mem'.length = mem.length) : SameFront 0 mem mem' := ⟨h, by simp⟩

theorem mono (h : SameFront n mem mem') {k : Nat} (hk : k ≤ n) : SameFront k mem mem' := by
  refine ⟨h.length_eq, ?_⟩
  have htake := congrArg (List.take k) h.take_eq
  rwa [List.take_take, List.take_take, Nat.min_eq_left hk] at htake

/-- When that is all of the cells, the blocks are the same. -/
theorem eq_of_length_le (h : SameFront n mem mem') (hn : mem.length ≤ n) : mem' = mem := by
  have htake := h.take_eq
  rw [List.take_of_length_le hn, List.take_of_length_le (h.length_eq ▸ hn)] at htake
  exact htake

theorem window_eq (h : SameFront n mem mem') {off len : Nat} (hn : off + len ≤ n) :
    window mem' off len = window mem off len := by
  have htake := (h.mono hn).take_eq
  have hread : ∀ m : List α, window m off len = (m.take (off + len)).drop off := by
    intro m
    rw [window, List.drop_take, Nat.add_sub_cancel_left]
  rw [hread, hread, htake]

/-- What is written behind the front comes to it. -/
theorem overwrite (h : SameFront n mem mem') (cells : List α) :
    SameFront (n + cells.length) (overwrite mem n cells) (overwrite mem' n cells) := by
  by_cases hn : n ≤ mem.length
  · refine ⟨?_, ?_⟩
    · simp only [Window.overwrite, List.length_append, List.length_take, List.length_drop,
        h.length_eq]
    · rw [take_overwrite hn, take_overwrite (h.length_eq ▸ hn), h.take_eq]
  · rw [h.eq_of_length_le (by omega)]
    exact refl _ _

/-- A window of the front that is moved to the top is the front then. -/
theorem memmove {src len : Nat} (h : SameFront (src + len) mem mem') :
    SameFront len (memmove mem 0 src len) (memmove mem' 0 src len) := by
  have hcells := h.window_eq (Nat.le_refl (src + len))
  by_cases hfits : src + len ≤ mem.length
  · have hmoved := (h.mono (Nat.zero_le _)).overwrite (window mem src len)
    rw [window_length hfits, Nat.zero_add] at hmoved
    rw [Window.memmove, Window.memmove, hcells]
    exact hmoved
  · rw [h.eq_of_length_le (by omega)]
    exact refl _ _

end SameFront

end Window
