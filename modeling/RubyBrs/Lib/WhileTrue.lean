/-
  RubyBrs.Lib.WhileTrue

  Executable semantics and proof rules of a `while (true)` loop whose body
  either goes round again with a new state or leaves the loop with a result.

  The body is partial (`Option`): a body that itself runs a loop may run out
  of fuel.  The rules a consumer uses:

    * `whileTrue_invariant` — partial correctness, for every amount of fuel.
    * `whileTrue_total` — total correctness from an invariant and a measure.
    * `Reaches.invariant` — what holds each time round, whether the loop ends or not.
    * `checkRounds_reaches` — the same by computation, of one run.
    * `whileTrue_ends` — termination from a measure on the states that are reached.
    * `whileTrue_mono` — more fuel changes nothing of a run that returned.
    * `whileTrue_unless` — a loop that does what another one does until it fails.
    * `whileTrue_rel` — two loops that keep their states related end related.
-/

import Mathlib.Order.Basic

namespace WhileTrue

/-- What one run of a loop body does: go round again, or leave the loop. -/
inductive Flow (S R : Type) where
  | next (s : S)
  | exit (r : R)
deriving Repr, DecidableEq

variable {S R : Type}

/-- Run the loop from `s`, at most `fuel` times round. -/
def whileTrue (body : S → Option (Flow S R)) : Nat → S → Option R
  | 0, _ => none
  | fuel + 1, s =>
      match body s with
      | none => none
      | some (.exit r) => some r
      | some (.next s') => whileTrue body fuel s'

theorem whileTrue_exit {body : S → Option (Flow S R)} {s : S} {r : R}
    (h : body s = some (.exit r)) (fuel : Nat) :
    whileTrue body (fuel + 1) s = some r := by
  simp only [whileTrue, h]

theorem whileTrue_next {body : S → Option (Flow S R)} {s s' : S}
    (h : body s = some (.next s')) (fuel : Nat) :
    whileTrue body (fuel + 1) s = whileTrue body fuel s' := by
  simp only [whileTrue, h]

/-- A loop that returned went round at least once: its first body run either
    left the loop with that result, or the rest of the loop returned it. -/
theorem whileTrue_some_cases {body : S → Option (Flow S R)} {fuel : Nat} {s : S} {r : R}
    (h : whileTrue body fuel s = some r) :
    ∃ fuel', fuel = fuel' + 1 ∧
      (body s = some (.exit r) ∨
        ∃ s', body s = some (.next s') ∧ whileTrue body fuel' s' = some r) := by
  cases fuel with
  | zero => cases h
  | succ fuel' =>
      refine ⟨fuel', rfl, ?_⟩
      cases hb : body s with
      | none => simp [whileTrue, hb] at h
      | some flow =>
          cases flow with
          | exit r' =>
              rw [whileTrue_exit hb] at h
              exact Or.inl (by rw [Option.some.inj h])
          | next s' =>
              rw [whileTrue_next hb] at h
              exact Or.inr ⟨s', rfl, h⟩

/-- What a loop returned it returns with more fuel, and with a body that is defined more
    often, too. -/
theorem whileTrue_mono {body body' : S → Option (Flow S R)}
    (hbody : ∀ s flow, body s = some flow → body' s = some flow) {fuel fuel' : Nat}
    (hle : fuel ≤ fuel') {s : S} {r : R} (h : whileTrue body fuel s = some r) :
    whileTrue body' fuel' s = some r := by
  induction fuel generalizing fuel' s with
  | zero => cases h
  | succ fuel ih =>
      obtain ⟨j, hj, hcase⟩ := whileTrue_some_cases h
      obtain rfl : fuel = j := by omega
      obtain ⟨k, rfl⟩ : ∃ k, fuel' = k + 1 := ⟨fuel' - 1, by omega⟩
      rcases hcase with hleave | ⟨s', hround, hrest⟩
      · exact whileTrue_exit (hbody _ _ hleave) k
      · rw [whileTrue_next (hbody _ _ hround)]
        exact ih (by omega) hrest

/-! ## Partial correctness -/

/-- An invariant of the body gives a postcondition of the loop, whatever the
    fuel. -/
theorem whileTrue_invariant {body : S → Option (Flow S R)} {I : S → Prop} {Q : R → Prop}
    (hnext : ∀ s s', I s → body s = some (.next s') → I s')
    (hexit : ∀ s r, I s → body s = some (.exit r) → Q r)
    {fuel : Nat} {s : S} {r : R} (hI : I s) (h : whileTrue body fuel s = some r) : Q r := by
  induction fuel generalizing s with
  | zero => cases h
  | succ fuel ih =>
      obtain ⟨j, hj, hcase⟩ := whileTrue_some_cases h
      obtain rfl : fuel = j := by omega
      -- The loop is left now, or goes round once and the rest of it keeps the invariant.
      rcases hcase with hleave | ⟨s', hround, hrest⟩
      · exact hexit _ _ hI hleave
      · exact ih (hnext _ _ hI hround) hrest

/-! ## Total correctness -/

/-- If every round from an invariant state is defined and either leaves with
    `Q` or keeps the invariant and lowers the measure, the loop returns as soon
    as the fuel exceeds the measure. -/
theorem whileTrue_total {body : S → Option (Flow S R)} {I : S → Prop} {Q : R → Prop}
    (μ : S → Nat)
    (hround : ∀ s, I s →
      (∃ s', body s = some (.next s') ∧ I s' ∧ μ s' < μ s) ∨
      (∃ r, body s = some (.exit r) ∧ Q r))
    {fuel : Nat} {s : S} (hI : I s) (hfuel : μ s < fuel) :
    ∃ r, whileTrue body fuel s = some r ∧ Q r := by
  induction fuel generalizing s with
  | zero => omega
  | succ fuel ih =>
      rcases hround s hI with ⟨s', hnext, hI', hlt⟩ | ⟨r, hexit, hQ⟩
      · obtain ⟨r, hr, hQ⟩ := ih hI' (by omega)
        exact ⟨r, by rw [whileTrue_next hnext]; exact hr, hQ⟩
      · exact ⟨r, whileTrue_exit hexit fuel, hQ⟩

/-! ## The states at the head of the loop -/

/-- The states at the head of the loop that a run from `s` comes to. -/
inductive Reaches (body : S → Option (Flow S R)) (s : S) : S → Prop
  | start : Reaches body s s
  | round {s₁ s₂ : S} (h : Reaches body s s₁) (hnext : body s₁ = some (.next s₂)) :
      Reaches body s s₂

namespace Reaches

variable {body : S → Option (Flow S R)} {s s' : S}

theorem invariant {I : S → Prop} (hnext : ∀ s s', I s → body s = some (.next s') → I s')
    (hI : I s) (h : Reaches body s s') : I s' := by
  induction h with
  | start => exact hI
  | round _ hround ih => exact hnext _ _ ih hround

/-- What a run that returned did from any state it came to. -/
theorem returned {fuel : Nat} {r : R} (h : Reaches body s s')
    (hr : whileTrue body fuel s = some r) : ∃ fuel', whileTrue body fuel' s' = some r := by
  induction h with
  | start => exact ⟨fuel, hr⟩
  | round _ hround ih =>
      obtain ⟨fuel', hr'⟩ := ih
      obtain ⟨fuel'', -, hleave | ⟨s₂, hnext, hrest⟩⟩ := whileTrue_some_cases hr'
      · rw [hround] at hleave
        cases hleave
      · rw [hround] at hnext
        obtain rfl := Flow.next.inj (Option.some.inj hnext)
        exact ⟨fuel'', hrest⟩

/-- A run that returned and came to a state from which the loop is left returned
    what it is left with. -/
theorem left {fuel : Nat} {r r' : R} (h : Reaches body s s') (hexit : body s' = some (.exit r'))
    (hr : whileTrue body fuel s = some r) : r = r' := by
  obtain ⟨fuel', hr'⟩ := h.returned hr
  obtain ⟨fuel'', -, hleave | ⟨s₂, hnext, -⟩⟩ := whileTrue_some_cases hr'
  · rw [hexit] at hleave
    exact (Flow.exit.inj (Option.some.inj hleave)).symm
  · rw [hexit] at hnext
    cases hnext

/-- From a state from which the loop is left at once, no other is reached. -/
theorem eq_of_exit {r : R} (hexit : body s = some (.exit r)) (h : Reaches body s s') : s' = s := by
  refine h.invariant (I := fun s' => s' = s) ?_ rfl
  rintro s₁ s₂ rfl hround
  rw [hexit] at hround
  cases hround

/-- A state that is reached is the first one, or is reached from the second. -/
theorem head_cases (h : Reaches body s s') :
    s' = s ∨ ∃ s₁, body s = some (.next s₁) ∧ Reaches body s₁ s' := by
  induction h with
  | start => exact Or.inl rfl
  | round _ hround ih =>
      right
      rcases ih with rfl | ⟨s₁, hnext, hrest⟩
      · exact ⟨_, hround, .start⟩
      · exact ⟨s₁, hnext, hrest.round hround⟩

theorem mono {body' : S → Option (Flow S R)}
    (hbody : ∀ s flow, body s = some flow → body' s = some flow) (h : Reaches body s s') :
    Reaches body' s s' := by
  induction h with
  | start => exact .start
  | round _ hround ih => exact ih.round (hbody _ _ hround)

/-- What is returned from a state that the loop comes to is what the loop returns. -/
theorem returns {fuel : Nat} {r : R} (h : Reaches body s s')
    (hr : whileTrue body fuel s' = some r) : ∃ fuel', whileTrue body fuel' s = some r := by
  induction h generalizing fuel with
  | start => exact ⟨fuel, hr⟩
  | round _ hround ih => exact ih (by rw [whileTrue_next hround]; exact hr)

end Reaches

/-- Does `P` hold in all states at the head of a loop that is left after at most
    `n` rounds? -/
def checkRounds (P : S → Prop) [DecidablePred P] (body : S → Option (Flow S R)) :
    Nat → S → Bool
  | 0, _ => false
  | n + 1, s =>
      decide (P s) &&
        match body s with
        | some (.next s') => checkRounds P body n s'
        | _ => true

theorem checkRounds_reaches {P : S → Prop} [DecidablePred P] {body : S → Option (Flow S R)}
    {n : Nat} {s s' : S} (hchecked : checkRounds P body n s = true) (h : Reaches body s s') :
    P s' := by
  induction n generalizing s with
  | zero => cases hchecked
  | succ n ih =>
      obtain ⟨hholds, hrest⟩ := Bool.and_eq_true_iff.mp hchecked
      rcases h.head_cases with rfl | ⟨s₁, hnext, htail⟩
      · exact of_decide_eq_true hholds
      · simp only [hnext] at hrest
        exact ih hrest htail

/-- A run that returned left the loop from a state that it came to. -/
theorem whileTrue_left {body : S → Option (Flow S R)} {s : S} {fuel : Nat} {r : R}
    (h : whileTrue body fuel s = some r) : ∃ s', Reaches body s s' ∧ body s' = some (.exit r) := by
  refine whileTrue_invariant (I := Reaches body s)
    (Q := fun r => ∃ s', Reaches body s s' ∧ body s' = some (.exit r)) ?_ ?_ .start h
  · exact fun _ _ hs hnext => hs.round hnext
  · exact fun s' _ hs hexit => ⟨s', hs, hexit⟩

/-- A loop whose every round, as far as it comes, is defined and lowers the
    measure or leaves, returns as soon as the fuel exceeds the measure. -/
theorem whileTrue_ends {body : S → Option (Flow S R)} {s : S} (μ : S → Nat)
    (hround : ∀ s', Reaches body s s' →
      (∃ s'', body s' = some (.next s'') ∧ μ s'' < μ s') ∨ ∃ r, body s' = some (.exit r))
    {fuel : Nat} (hfuel : μ s < fuel) : ∃ r, whileTrue body fuel s = some r := by
  refine (whileTrue_total (I := Reaches body s) (Q := fun _ => True) μ ?_ .start
    hfuel).imp fun _ h => h.1
  intro s' hs'
  rcases hround s' hs' with ⟨s'', hnext, hlt⟩ | ⟨r, hexit⟩
  · exact Or.inl ⟨s'', hnext, hs'.round hnext, hlt⟩
  · exact Or.inr ⟨r, hexit, trivial⟩

/-! ## Two runs -/

/-- A loop that does what another one does, unless it leaves with a bad result, returns
    what that one returns, or a bad result. -/
theorem whileTrue_unless {body body' : S → Option (Flow S R)} {Bad : R → Prop}
    (hbody : ∀ s flow, body' s = some flow →
      body s = some flow ∨ ∃ r, flow = .exit r ∧ Bad r)
    {fuel : Nat} {s : S} {r : R} (h : whileTrue body' fuel s = some r) :
    whileTrue body fuel s = some r ∨ Bad r := by
  induction fuel generalizing s with
  | zero => cases h
  | succ fuel ih =>
      obtain ⟨j, hj, hcase⟩ := whileTrue_some_cases h
      obtain rfl : fuel = j := by omega
      rcases hcase with hleave | ⟨s', hround, hrest⟩
      · rcases hbody _ _ hleave with hsame | ⟨r', heq, hbad⟩
        · exact Or.inl (whileTrue_exit hsame fuel)
        · obtain rfl := Flow.exit.inj heq
          exact Or.inr hbad
      · rcases hbody _ _ hround with hsame | ⟨r', heq, -⟩
        · rw [whileTrue_next hsame]
          exact ih hrest
        · cases heq

section TwoRuns

variable {S' R' : Type} {I : S → S' → Prop} {Q : R → R' → Prop}

/-- Two ways to go on: round again with related states, or out with related results. -/
inductive Flow.Rel (I : S → S' → Prop) (Q : R → R' → Prop) : Flow S R → Flow S' R' → Prop
  | next {s : S} {s' : S'} (h : I s s') : Flow.Rel I Q (.next s) (.next s')
  | exit {r : R} {r' : R'} (h : Q r r') : Flow.Rel I Q (.exit r) (.exit r')

theorem rel_map {A A' B B' : Type} {P : A → A' → Prop} {P' : B → B' → Prop} {f : A → B}
    {f' : A' → B'} {a : Option A} {a' : Option A'} (h : Option.Rel P a a')
    (hf : ∀ a a', P a a' → P' (f a) (f' a')) : Option.Rel P' (a.map f) (a'.map f') := by
  cases h with
  | none => exact .none
  | some h => exact .some (hf _ _ h)

theorem rel_bind {A A' B B' : Type} {P : A → A' → Prop} {P' : B → B' → Prop}
    {f : A → Option B} {f' : A' → Option B'} {a : Option A} {a' : Option A'}
    (h : Option.Rel P a a') (hf : ∀ a a', P a a' → Option.Rel P' (f a) (f' a')) :
    Option.Rel P' (a.bind f) (a'.bind f') := by
  cases h with
  | none => exact .none
  | some h => exact hf _ _ h

/-- Two loops whose bodies keep their states related, and leave with related results,
    do so as wholes: either runs out of fuel when the other does. -/
theorem whileTrue_rel {body : S → Option (Flow S R)} {body' : S' → Option (Flow S' R')}
    (hbody : ∀ s s', I s s' → Option.Rel (Flow.Rel I Q) (body s) (body' s')) (fuel : Nat)
    {s : S} {s' : S'} (h : I s s') :
    Option.Rel Q (whileTrue body fuel s) (whileTrue body' fuel s') := by
  induction fuel generalizing s s' with
  | zero => exact .none
  | succ fuel ih =>
      have hround := hbody s s' h
      rw [whileTrue, whileTrue]
      -- One round of both, and then the rest of both.
      generalize body s = flow at hround
      generalize body' s' = flow' at hround
      cases hround with
      | none => exact .none
      | some hflow =>
          cases hflow with
          | next hnext => exact ih hnext
          | exit hexit => exact .some hexit

end TwoRuns

end WhileTrue
