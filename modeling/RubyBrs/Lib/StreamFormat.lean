/-
  RubyBrs.Lib.StreamFormat

  A self-delimiting stream format, as a decoder sees it: after any number of
  items the stream read so far is unfinished, finished or broken, and some
  content can already be told from it.

  `Open`, `Complete` and `Corrupt` say the same of a string and of all the ways
  of cutting it short, which is what a decoder that reads from the start can
  tell.  A string has at most one prefix at which the stream finishes or breaks
  (`Format.Reaches.unique`).
-/

import Mathlib.Data.List.Infix

namespace StreamFormat

/-- What is known of a stream after a prefix of it. -/
inductive Status where
  | incomplete
  | complete
  | corrupt
deriving Repr, DecidableEq

/-- A stream format over `α`.  More input never takes content back, and before it
    starts a stream is not finished or broken and has no content. -/
structure Format (α : Type) where
  status : List α → Status
  decodable : List α → List α
  decodable_mono : ∀ {p q : List α}, p <+: q → decodable p <+: decodable q
  status_nil : status [] = .incomplete
  decodable_nil : decodable [] = []

namespace Format

variable {α : Type} (fmt : Format α)

/-- The stream reaches the end of `p` with the given status, and no earlier
    point of it is an end. -/
def Reaches (st : Status) (p : List α) : Prop :=
  fmt.status p = st ∧ ∀ q, q <+: p → q ≠ p → fmt.status q = .incomplete

/-- `p` is the start of a stream that has not finished: more input is needed. -/
def Open (p : List α) : Prop := fmt.Reaches .incomplete p

/-- `p` is exactly one complete stream. -/
def Complete (p : List α) : Prop := fmt.Reaches .complete p

/-- `p` is the start of a stream up to the point where it breaks. -/
def Corrupt (p : List α) : Prop := fmt.Reaches .corrupt p

/-- `p` is exactly one complete stream of `content`. -/
def Decodes (p content : List α) : Prop := fmt.Complete p ∧ fmt.decodable p = content

variable {fmt}

theorem Open.of_prefix {p q : List α} (h : fmt.Open p) (hq : q <+: p) : fmt.Open q := by
  have hall : ∀ r, r <+: p → fmt.status r = .incomplete := by
    intro r hr
    by_cases heq : r = p
    · rw [heq]; exact h.1
    · exact h.2 r hr heq
  exact ⟨hall q hq, fun r hr _ => hall r (hr.trans hq)⟩

theorem open_nil : fmt.Open [] :=
  ⟨fmt.status_nil, fun _ hq hne => absurd (List.prefix_nil.mp hq) hne⟩

/-- Two ends of one string are the same end. -/
theorem Reaches.unique {st st' : Status} {p q s : List α} (hp : fmt.Reaches st p)
    (hq : fmt.Reaches st' q) (hst : st ≠ .incomplete) (hst' : st' ≠ .incomplete)
    (hps : p <+: s) (hqs : q <+: s) : p = q := by
  by_contra hne
  -- The shorter of the two would be an end before the end of the longer one.
  rcases List.prefix_or_prefix_of_prefix hps hqs with h | h
  · exact hst (hp.1.symm.trans (hq.2 p h hne))
  · exact hst' (hq.1.symm.trans (hp.2 q h (Ne.symm hne)))

theorem Reaches.not_open {st : Status} {p s : List α} (h : fmt.Reaches st p)
    (hst : st ≠ .incomplete) (hps : p <+: s) : ¬ fmt.Open s :=
  fun ho => hst (h.1.symm.trans (ho.of_prefix hps).1)

theorem Complete.not_open {p s : List α} (h : fmt.Complete p) (hps : p <+: s) :
    ¬ fmt.Open s :=
  Reaches.not_open h (by decide) hps

theorem Corrupt.not_open {p s : List α} (h : fmt.Corrupt p) (hps : p <+: s) :
    ¬ fmt.Open s :=
  Reaches.not_open h (by decide) hps

theorem Complete.not_corrupt {p q s : List α} (h : fmt.Complete p) (hps : p <+: s)
    (hqs : q <+: s) : ¬ fmt.Corrupt q := by
  intro hc
  have heq : p = q := Reaches.unique h hc (by decide) (by decide) hps hqs
  subst heq
  have := h.1.symm.trans hc.1
  cases this

theorem Complete.ne_nil {p : List α} (h : fmt.Complete p) : p ≠ [] := by
  rintro rfl
  have := fmt.status_nil.symm.trans h.1
  cases this

end Format

end StreamFormat
