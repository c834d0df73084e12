/-
  RubyBrs.Lib.Progress

  Runs that do not idle.

  A system makes moves in any order.  Some of the moves of a state are idle: they could
  be repeated forever, with nothing gained.  When every other move is paid for out of a
  budget (`Budget`), no run without idle moves is longer than the budget, and each can be
  continued to a state that has no such move, whoever chooses the moves.
-/

import Mathlib.Data.Nat.Init
import Mathlib.Logic.Basic

namespace Progress

structure System (S M : Type) where
  step : S → M → Option S
  idle : S → M → Bool

namespace System

variable {S M : Type} (sys : System S M)

/-- A move that is not idle. -/
def advance (s : S) (m : M) : Option S :=
  if sys.idle s m then none else sys.step s m

def run : List M → S → Option S
  | [], s => some s
  | m :: rest, s => (sys.advance s m).bind (run rest)

/-- There is no move but idle ones. -/
def Stuck (s : S) : Prop := ∀ m, sys.advance s m = none

variable {sys} {s s' : S} {m : M}

theorem advance_eq_some : sys.advance s m = some s' ↔ sys.idle s m = false ∧
    sys.step s m = some s' := by
  unfold advance
  cases sys.idle s m <;> simp

theorem advance_eq_none : sys.advance s m = none ↔ sys.idle s m = true ∨
    sys.step s m = none := by
  unfold advance
  cases sys.idle s m <;> simp

/-- What holds after so many moves, and allows no more of them than `bound`. -/
structure Budget (sys : System S M) (bound : Nat) (I : Nat → S → Prop) : Prop where
  advance : ∀ {n s m s'}, I n s → sys.advance s m = some s' → I (n + 1) s'
  bounded : ∀ {n s}, I n s → n ≤ bound

variable {bound n : Nat} {I : Nat → S → Prop} {moves : List M}

theorem Budget.run (h : sys.Budget bound I) (hs : I n s) (hrun : sys.run moves s = some s') :
    I (n + moves.length) s' := by
  induction moves generalizing n s with
  | nil =>
      obtain rfl := Option.some.inj hrun
      exact hs
  | cons m rest ih =>
      obtain ⟨s₁, hstep, hrest⟩ := Option.bind_eq_some_iff.mp hrun
      have hall := ih (h.advance hs hstep) hrest
      rw [List.length_cons, Nat.add_comm rest.length, ← Nat.add_assoc]
      exact hall

/-- However the moves were chosen, there are no more of them than that. -/
theorem Budget.length_le (h : sys.Budget bound I) (hs : I 0 s)
    (hrun : sys.run moves s = some s') : moves.length ≤ bound := by
  have hbounded := h.bounded (h.run hs hrun)
  omega

/-- So every run can be continued to one that has no further move. -/
theorem Budget.exists_stuck (h : sys.Budget bound I) (hs : I n s) :
    ∃ moves s', sys.run moves s = some s' ∧ sys.Stuck s' := by
  -- The induction is on the moves that are left.
  induction hleft : bound - n using Nat.strong_induction_on generalizing n s with
  | _ left ih =>
      by_cases hstuck : sys.Stuck s
      · exact ⟨[], s, rfl, hstuck⟩
      · obtain ⟨m, hm⟩ := not_forall.mp hstuck
        obtain ⟨s₁, hadvance⟩ := Option.ne_none_iff_exists'.mp hm
        have hs₁ := h.advance hs hadvance
        have hbounded := h.bounded hs₁
        obtain ⟨moves, s', hrun, hstuck'⟩ := ih _ (by omega) hs₁ rfl
        refine ⟨m :: moves, s', ?_, hstuck'⟩
        rw [System.run, hadvance]
        exact hrun

end System

end Progress
