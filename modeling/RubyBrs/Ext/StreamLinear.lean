/-
  RubyBrs.Ext.StreamLinear

  Native streaming objects in several threads, seen from outside.

  Every object answers as an outlet of its codec, whatever else is done to the memory it
  shares with the others (`StreamMethod.answers`), and the threads run as if every
  function of the extension were called as a whole when it takes effect
  (`linked_of_run`).  Put together, the
  calls of any run have an order in which each object, taken by itself, lives the life of
  an outlet (`Linear`); the order is fixed as the run goes on, and never changed
  afterwards (`threads_refine`).
-/

import RubyBrs.Ext.StreamOutlet
import RubyBrs.Ext.StreamThreads

namespace RubyBrs

open StreamCodec Threads

variable {ι T : Type} {χ σ ω ρ : ι → Type}

/-- What the threads do with native objects. -/
abbrev NativeConfig (ι T : Type) (χ σ ω ρ : ι → Type) :=
  Config ι T Memory (Except RubyError Reply)
    (fun i => StreamObject (Coder UInt8 (σ i) (ω i) (ρ i))) χ
    (fun i => CallArgs (σ i) (ω i) (ρ i)) (fun i => CallAnswer (σ i) (ω i) (ρ i))

/-- Calls of native objects, with their replies. -/
abbrev NativeHistory (T : Type) (χ : ι → Type) := List (Entry T (Except RubyError Reply) χ)

variable [DecidableEq ι]

variable (C : (i : ι) → StreamClass (χ i) (σ i) (ω i) (ρ i))

/-- In a serial run each object lives the life of an outlet. -/
theorem StreamObject.Abstracts.serial (order : List (T × (i : ι) × χ i))
    (shared : Shared Memory fun i => StreamObject (Coder UInt8 (σ i) (ω i) (ρ i))) {i : ι}
    {s : Option (Outlet UInt8 (σ i) (ω i) (ρ i))} (h : (shared.objects i).Abstracts s) :
    ∃ s', Lives s (asMethods (C i).method
        (entriesAt i (serial (fun i => (C i).whole) order shared).2)) s' ∧
      ((serial (fun i => (C i).whole) order shared).1.objects i).Abstracts s' := by
  refine serial_at i (fun s entries s' => Lives s (asMethods (C i).method entries) s')
    Lives.nil (fun call m o s h => ?_) order h
  obtain ⟨s', hanswers, h'⟩ := ((C i).method call).answers h m
  rw [(C i).made.invoke] at hanswers h'
  exact ⟨s', h', fun hlives => .cons hanswers hlives⟩

variable [DecidableEq T]

/-- An order of the calls of a run, with the replies they get. -/
structure Linear (history : NativeHistory T χ) (c : NativeConfig ι T χ σ ω ρ) : Prop where
  /-- A thread has been told of all of its calls but one at most, which is done and about
      to return. -/
  replies : ∀ t, entriesOf t history = entriesOf t c.returned ∨
    ∃ i call w reply, c.doing t = some (.worked i call w) ∧
      entriesOf t history = entriesOf t c.returned ++ [⟨t, i, call, reply⟩]
  /-- Each object is what an outlet has come to that answered the same, and the books
      that were kept of its answers are right. -/
  lives : ∀ i, ∃ s, Lives none (asMethods (C i).method (entriesAt i history)) s ∧
    (c.shared.objects i).Abstracts s ∧ ∀ x, s = some x →
      (Books.enterAll ⟨none, []⟩ (asMethods (C i).method (entriesAt i history))).Right x

variable {C} {m : Memory} {handle : ι → Nat}

theorem Linear.of_linked
    {Safe : (Shared Memory fun i => StreamObject (Coder UInt8 (σ i) (ω i) (ρ i))) → Prop}
    {done : List (T × (i : ι) × χ i)} {history : NativeHistory T χ}
    {c : NativeConfig ι T χ σ ω ρ}
    (h : Linked (fun i => (C i).sections) (fun i => (C i).whole) Safe
      ⟨m, fun i => .new (handle i)⟩ done history c) : Linear C history c where
  replies := h.effects
  lives i := by
    have hnew : StreamObject.Abstracts (.new (handle i) :
        StreamObject (Coder UInt8 (σ i) (ω i) (ρ i))) none := ⟨rfl, rfl⟩
    obtain ⟨s, hlives, habstracts⟩ :=
      StreamObject.Abstracts.serial C done ⟨m, fun i => .new (handle i)⟩ hnew
    rw [h.serial_eq] at hlives habstracts
    exact ⟨s, hlives, habstracts, Books.enterAll_right hlives fun x hx => by cases hx⟩

/-- Threads that use new objects of any native classes, none of them in two threads at
    the same time: wherever they are, there is an order of the calls that have taken
    effect, with the replies that the functions of the extension give when they are
    called in it, in which every object lives the life of an outlet, whatever the threads
    have done to the other objects; and however they go on, later calls come after these. -/
theorem threads_refine (C : (i : ι) → StreamClass (χ i) (σ i) (ω i) (ρ i)) (hm : m.WellFormed)
    (hlive : ∀ i, handle i ∈ m.live) (hinj : Function.Injective handle)
    (moves : List (Move T χ)) :
    ∀ c, Threads.run (fun i => (C i).sections) moves
        (.start ⟨m, fun i => .new (handle i)⟩) = some c →
      ∃ done history, serial (fun i => (C i).whole) done ⟨m, fun i => .new (handle i)⟩ =
          (c.shared, history) ∧ Linear C history c ∧
        ∀ rest c', Threads.run (fun i => (C i).sections) rest c = some c' →
          ∃ done' later, serial (fun i => (C i).whole) done' c.shared = (c'.shared, later) ∧
            Linear C (history ++ later) c' := by
  intro c hrun
  obtain ⟨history, h⟩ := linked_of_run (keeps_apart C m) (Apart.start hm hlive hinj) hrun
  refine ⟨_, history, h.serial_eq, .of_linked h, fun rest c' hrest => ?_⟩
  obtain ⟨history', h'⟩ := h.run (keeps_apart C m) hrest
  obtain ⟨later, hserial, rfl⟩ := h.grows h'
  exact ⟨_, later, hserial, .of_linked h'⟩

/-- The two threads of `twoThreads` while the library works for the first one, and in the
    end. -/
theorem threads_refine_two :
    ∃ c c' done history done' later,
      Threads.run (fun _ => compressorClass.sections) (twoThreads.take 3)
        (.start ⟨twoStructures, fun i => .new i.toNat⟩) = some c ∧
      Threads.run (fun _ => compressorClass.sections) (twoThreads.drop 3) c = some c' ∧
      c'.returned.length = 5 ∧
      serial (fun _ => compressorClass.whole) done ⟨twoStructures, fun i => .new i.toNat⟩ =
        (c.shared, history) ∧
      serial (fun _ => compressorClass.whole) done' c.shared = (c'.shared, later) ∧
      Linear (fun _ => compressorClass) history c ∧
      Linear (fun _ => compressorClass) (history ++ later) c' := by
  obtain ⟨c, c', hrun, hrest, hreturned⟩ : ∃ c c',
      Threads.run (fun _ => compressorClass.sections) (twoThreads.take 3)
        (.start ⟨twoStructures, fun i => .new i.toNat⟩) = some c ∧
      Threads.run (fun _ => compressorClass.sections) (twoThreads.drop 3) c = some c' ∧
      c'.returned.length = 5 := ⟨_, _, rfl, rfl, rfl⟩
  obtain ⟨done, history, hserial, hnow, hlater⟩ := threads_refine (fun _ => compressorClass)
    twoStructures_wellFormed (by decide) toNat_injective (twoThreads.take 3) c hrun
  obtain ⟨done', later, hserial', hend⟩ := hlater (twoThreads.drop 3) c' hrest
  exact ⟨c, c', done, history, done', later, hrun, hrest, hreturned, hserial, hserial', hnow,
    hend⟩

end RubyBrs
