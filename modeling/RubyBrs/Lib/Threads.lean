/-
  RubyBrs.Lib.Threads

  Threads that call methods of shared objects under one global lock, which a
  method may give up for a part of its work.

  A method is entered under the lock and left under the lock, and in between it may
  work without it, while other threads run (`Sections`).  The caller of a method
  holds the object: no other thread calls a method of the same object before it has
  returned, and this is all that the threads have to agree upon.

  Then every run is one in which each call is performed as a whole at the moment at
  which it takes effect (`linked_of_run`): the shared state is the same, every thread
  gets the same replies, and no thread is ever stuck.
-/

import Mathlib.Logic.Function.Basic
import Mathlib.Data.List.Basic

namespace RubyBrs
namespace Threads

/-! ## Methods in sections -/

/-- How a method runs.  `none` is a crash. -/
structure Sections (M O C L W R : Type) where
  /-- Under the lock: finish, or come to the part without it. -/
  enter : C → M → O → (M × O × R) ⊕ L
  /-- Without the lock. -/
  work : L → M → O → Option (M × O × W)
  /-- Under the lock again: make a reply. -/
  leave : W → O → Option R

/-- A method with nothing in between its sections. -/
def Sections.whole {M O C L W R : Type} (sections : Sections M O C L W R) (call : C) (m : M)
    (o : O) : Option (M × O × R) :=
  match sections.enter call m o with
  | .inl done => some done
  | .inr l => (sections.work l m o).bind fun (m, o, w) => (sections.leave w o).map (m, o, ·)

/-- The methods called in other words. -/
def Sections.comap {M O C D L W R : Type} (f : D → C) (sections : Sections M O C L W R) :
    Sections M O D L W R where
  enter call := sections.enter (f call)
  work := sections.work
  leave := sections.leave

variable {ι T M R : Type} {O C L W : ι → Type}

/-- A call that was made by a thread, and its reply. -/
structure Entry (T R : Type) (C : ι → Type) where
  thread : T
  index : ι
  call : C index
  reply : R

section Entries

variable [DecidableEq T]

/-- The entries of one thread. -/
def entriesOf (t : T) (history : List (Entry T R C)) : List (Entry T R C) :=
  history.filter fun entry => entry.thread = t

theorem entriesOf_append (t : T) (h h' : List (Entry T R C)) :
    entriesOf t (h ++ h') = entriesOf t h ++ entriesOf t h' := List.filter_append _ _

theorem entriesOf_self (t : T) (i : ι) (call : C i) (reply : R) :
    entriesOf t [(⟨t, i, call, reply⟩ : Entry T R C)] = [⟨t, i, call, reply⟩] := by
  simp [entriesOf]

theorem entriesOf_append_of_ne {t t' : T} (h : t' ≠ t) (history : List (Entry T R C)) (i : ι)
    (call : C i) (reply : R) :
    entriesOf t (history ++ [⟨t', i, call, reply⟩]) = entriesOf t history := by
  rw [entriesOf_append]
  simp [entriesOf, h]

end Entries

variable [DecidableEq ι]

/-- What the threads share: the memory and the objects. -/
structure Shared (M : Type) (O : ι → Type) where
  memory : M
  objects : (i : ι) → O i

namespace Shared

def set (s : Shared M O) (i : ι) (memory : M) (o : O i) : Shared M O :=
  { memory, objects := Function.update s.objects i o }

@[simp] theorem set_objects_self (s : Shared M O) (i : ι) (m : M) (o : O i) :
    (s.set i m o).objects i = o := Function.update_self i o s.objects

theorem set_objects_of_ne {i j : ι} (h : j ≠ i) (s : Shared M O) (m : M) (o : O i) :
    (s.set i m o).objects j = s.objects j := Function.update_of_ne h o s.objects

end Shared

/-! ## One call after the other -/

section Serial

variable (perform : (i : ι) → C i → M → O i → M × O i × R)

/-- Perform whole calls, one after the other. -/
def serial : List (T × (i : ι) × C i) → Shared M O → Shared M O × List (Entry T R C)
  | [], s => (s, [])
  | (t, ⟨i, call⟩) :: rest, s =>
      let done := perform i call s.memory (s.objects i)
      let later := serial rest (s.set i done.1 done.2.1)
      (later.1, ⟨t, i, call, done.2.2⟩ :: later.2)

theorem serial_append (order order' : List (T × (i : ι) × C i)) (s : Shared M O) :
    serial perform (order ++ order') s =
      ((serial perform order' (serial perform order s).1).1,
        (serial perform order s).2 ++ (serial perform order' (serial perform order s).1).2) := by
  induction order generalizing s with
  | nil => rfl
  | cons first rest ih =>
      obtain ⟨t, i, call⟩ := first
      rw [List.cons_append, serial, serial, ih]
      rfl

/-! ### One object -/

/-- The calls of one object, and their replies. -/
def entriesAt (i : ι) (history : List (Entry T R C)) : List (C i × R) :=
  history.filterMap fun entry =>
    if h : entry.index = i then some (h ▸ entry.call, entry.reply) else none

theorem entriesAt_cons_self (t : T) (i : ι) (call : C i) (reply : R)
    (history : List (Entry T R C)) :
    entriesAt i (⟨t, i, call, reply⟩ :: history) = (call, reply) :: entriesAt i history := by
  simp [entriesAt]

theorem entriesAt_cons_of_ne {i j : ι} (h : j ≠ i) (t : T) (call : C j) (reply : R)
    (history : List (Entry T R C)) :
    entriesAt i (⟨t, j, call, reply⟩ :: history) = entriesAt i history := by
  simp [entriesAt, h]

variable {perform}

/-- What holds of an object whose methods are called one after the other, whatever the
    memory is when they are called, holds of it among others. -/
theorem serial_at (i : ι) {A : Type} {Abstracts : O i → A → Prop}
    (Lives : A → List (C i × R) → A → Prop) (hnil : ∀ a, Lives a [] a)
    (hcons : ∀ (call : C i) (m : M) {o : O i} {a : A}, Abstracts o a →
      ∃ a', Abstracts (perform i call m o).2.1 a' ∧ ∀ {rest a''}, Lives a' rest a'' →
        Lives a ((call, (perform i call m o).2.2) :: rest) a'')
    (order : List (T × (i : ι) × C i)) {s : Shared M O} {a : A}
    (h : Abstracts (s.objects i) a) :
    ∃ a', Lives a (entriesAt i (serial perform order s).2) a' ∧
      Abstracts ((serial perform order s).1.objects i) a' := by
  induction order generalizing s a with
  | nil => exact ⟨a, hnil a, h⟩
  | cons first rest ih =>
      obtain ⟨t, j, call⟩ := first
      simp only [serial]
      by_cases hj : j = i
      · subst hj
        obtain ⟨a₁, h₁, hlives⟩ := hcons call s.memory h
        have hset : Abstracts ((s.set j (perform j call s.memory (s.objects j)).1
            (perform j call s.memory (s.objects j)).2.1).objects j) a₁ := by
          rw [Shared.set_objects_self]
          exact h₁
        obtain ⟨a', hrest, h'⟩ := ih hset
        rw [entriesAt_cons_self]
        exact ⟨a', hlives hrest, h'⟩
      · rw [entriesAt_cons_of_ne hj]
        apply ih
        rw [Shared.set_objects_of_ne (Ne.symm hj)]
        exact h

end Serial

/-! ## Threads -/

/-- What a thread is doing that has called a method. -/
inductive Doing (C L W : ι → Type) where
  | entered (i : ι) (call : C i) (l : L i)
  | worked (i : ι) (call : C i) (w : W i)

variable [DecidableEq T]

structure Config (ι T M R : Type) (O C L W : ι → Type) where
  shared : Shared M O
  doing : T → Option (Doing C L W)
  /-- Which thread holds the object. -/
  holder : ι → Option T
  /-- The calls that have returned, in that order. -/
  returned : List (Entry T R C)

/-- What can happen next. -/
inductive Move (T : Type) (C : ι → Type) where
  | call (t : T) (i : ι) (call : C i)
  | work (t : T)
  | leave (t : T)

/-- No thread has called a method. -/
def Config.start (shared : Shared M O) : Config ι T M R O C L W :=
  { shared, doing := fun _ => none, holder := fun _ => none, returned := [] }

section Run

variable (sections : (i : ι) → Sections M (O i) (C i) (L i) (W i) R)

/-- One section of a method.  A thread is in one method at most, and a method is
    called only if nobody holds its object. -/
def step : Move T C → Config ι T M R O C L W → Option (Config ι T M R O C L W)
  | .call t i call, c =>
      match c.doing t, c.holder i with
      | none, none =>
          match (sections i).enter call c.shared.memory (c.shared.objects i) with
          | .inl (m, o, reply) =>
              some { c with
                shared := c.shared.set i m o
                returned := c.returned ++ [⟨t, i, call, reply⟩] }
          | .inr l =>
              some { c with
                doing := Function.update c.doing t (some (.entered i call l))
                holder := Function.update c.holder i (some t) }
      | _, _ => none
  | .work t, c =>
      match c.doing t with
      | some (.entered i call l) =>
          ((sections i).work l c.shared.memory (c.shared.objects i)).map fun (m, o, w) =>
            { c with
              shared := c.shared.set i m o
              doing := Function.update c.doing t (some (.worked i call w)) }
      | _ => none
  | .leave t, c =>
      match c.doing t with
      | some (.worked i call w) =>
          ((sections i).leave w (c.shared.objects i)).map fun reply =>
            { c with
              doing := Function.update c.doing t none
              holder := Function.update c.holder i none
              returned := c.returned ++ [⟨t, i, call, reply⟩] }
      | _ => none

def run : List (Move T C) → Config ι T M R O C L W → Option (Config ι T M R O C L W)
  | [], c => some c
  | move :: rest, c => (step sections move c).bind (run rest)

/-- The call that takes effect with a move. -/
def effect : Move T C → Config ι T M R O C L W → List (T × (i : ι) × C i)
  | .call t i call, c =>
      match (sections i).enter call c.shared.memory (c.shared.objects i) with
      | .inl _ => [(t, ⟨i, call⟩)]
      | .inr _ => []
  | .work t, c =>
      match c.doing t with
      | some (.entered i call _) => [(t, ⟨i, call⟩)]
      | _ => []
  | .leave _, _ => []

/-- The calls in the order in which they take effect. -/
def order : List (Move T C) → Config ι T M R O C L W → List (T × (i : ι) × C i)
  | [], _ => []
  | move :: rest, c =>
      match step sections move c with
      | none => []
      | some c' => effect sections move c ++ order rest c'

end Run

/-! ## The serial run of a run -/

/-- What is known of the methods: `perform` is the method as a whole. -/
structure Keeps (sections : (i : ι) → Sections M (O i) (C i) (L i) (W i) R)
    (perform : (i : ι) → C i → M → O i → M × O i × R) (Safe : Shared M O → Prop) : Prop where
  /-- Whether a method works without the lock does not depend on the memory. -/
  enter_inr : ∀ {i : ι} {call : C i} {m m' : M} {o : O i} {l : L i},
    (sections i).enter call m o = .inr l → (sections i).enter call m' o = .inr l
  whole_eq : ∀ {s : Shared M O}, Safe s → ∀ (i : ι) (call : C i),
    (sections i).whole call s.memory (s.objects i) =
      some (perform i call s.memory (s.objects i))
  safe : ∀ {s : Shared M O}, Safe s → ∀ (i : ι) (call : C i),
    Safe (s.set i (perform i call s.memory (s.objects i)).1
      (perform i call s.memory (s.objects i)).2.1)

section Linked

variable {sections : (i : ι) → Sections M (O i) (C i) (L i) (W i) R}
  {perform : (i : ι) → C i → M → O i → M × O i × R} {Safe : Shared M O → Prop}

/-- Where a thread is, seen from the serial run: `history` has all that has taken
    effect. -/
def Stands (sections : (i : ι) → Sections M (O i) (C i) (L i) (W i) R)
    (history : List (Entry T R C)) (c : Config ι T M R O C L W) (t : T) : Prop :=
  match c.doing t with
  | none => entriesOf t c.returned = entriesOf t history
  | some (.entered i call l) =>
      entriesOf t c.returned = entriesOf t history ∧ c.holder i = some t ∧
      (sections i).enter call c.shared.memory (c.shared.objects i) = .inr l
  | some (.worked i call w) =>
      c.holder i = some t ∧ ∃ reply, (sections i).leave w (c.shared.objects i) = some reply ∧
      entriesOf t c.returned ++ [⟨t, i, call, reply⟩] = entriesOf t history

/-- A run up to now, and the serial run of the calls that have taken effect. -/
structure Linked (sections : (i : ι) → Sections M (O i) (C i) (L i) (W i) R)
    (perform : (i : ι) → C i → M → O i → M × O i × R) (Safe : Shared M O → Prop)
    (s₀ : Shared M O) (done : List (T × (i : ι) × C i)) (history : List (Entry T R C))
    (c : Config ι T M R O C L W) : Prop where
  serial_eq : serial perform done s₀ = (c.shared, history)
  safe : Safe c.shared
  stands : ∀ t, Stands sections history c t

variable {s₀ : Shared M O} {done : List (T × (i : ι) × C i)} {history : List (Entry T R C)}
  {c c' : Config ι T M R O C L W}

theorem Linked.start (hsafe : Safe s₀) :
    Linked (T := T) sections perform Safe s₀ [] [] (.start s₀) :=
  ⟨rfl, hsafe, fun _ => rfl⟩

/-- What a thread depends on: what it is doing, its own calls, and the objects that
    it holds. -/
theorem Stands.frame (hk : Keeps sections perform Safe) {t : T}
    (h : Stands sections history c t) (hdoing : c'.doing t = c.doing t)
    (hreturned : entriesOf t c'.returned = entriesOf t c.returned)
    {history' : List (Entry T R C)} (hhistory : entriesOf t history' = entriesOf t history)
    (hheld : ∀ i, c.holder i = some t →
      c'.holder i = some t ∧ c'.shared.objects i = c.shared.objects i) :
    Stands sections history' c' t := by
  unfold Stands at h ⊢
  rw [hdoing, hreturned, hhistory]
  generalize c.doing t = doing at h
  rcases doing with _ | ⟨i, call, l⟩ | ⟨i, call, w⟩
  · exact h
  · obtain ⟨hsame, hholder, henter⟩ := h
    obtain ⟨hholder', hobject⟩ := hheld i hholder
    exact ⟨hsame, hholder', hobject ▸ hk.enter_inr henter⟩
  · obtain ⟨hholder, reply, hleave, hentries⟩ := h
    obtain ⟨hholder', hobject⟩ := hheld i hholder
    exact ⟨hholder', reply, hobject ▸ hleave, hentries⟩

/-- The next call takes effect in the serial run. -/
theorem Linked.serial_snoc (h : Linked sections perform Safe s₀ done history c) (t : T) (i : ι)
    (call : C i) {m : M} {o : O i} {reply : R}
    (heq : perform i call c.shared.memory (c.shared.objects i) = (m, o, reply)) :
    serial perform (done ++ [(t, ⟨i, call⟩)]) s₀ =
      (c.shared.set i m o, history ++ [⟨t, i, call, reply⟩]) := by
  rw [serial_append, h.serial_eq]
  simp only [serial, heq]

theorem Linked.safe_set (h : Linked sections perform Safe s₀ done history c)
    (hk : Keeps sections perform Safe) {i : ι} {call : C i} {m : M} {o : O i} {reply : R}
    (heq : perform i call c.shared.memory (c.shared.objects i) = (m, o, reply)) :
    Safe (c.shared.set i m o) := by
  have hsafe := hk.safe h.safe i call
  rwa [heq] at hsafe

/-- A method is entered: it is finished at once, or its thread holds the object. -/
theorem Linked.call (h : Linked sections perform Safe s₀ done history c)
    (hk : Keeps sections perform Safe) {t : T} {i : ι} {call : C i}
    (hstep : step sections (.call t i call) c = some c') :
    ∃ history', Linked sections perform Safe s₀ (done ++ effect sections (.call t i call) c)
      history' c' := by
  have hwhole := hk.whole_eq h.safe i call
  simp only [step] at hstep
  split at hstep
  case h_2 => cases hstep
  case h_1 hidle hfree =>
  have hown := h.stands t
  rw [Stands, hidle] at hown
  split at hstep
  · rename_i m o reply henter
    obtain rfl := Option.some.inj hstep
    have heq : perform i call c.shared.memory (c.shared.objects i) = (m, o, reply) := by
      simp only [Sections.whole, henter] at hwhole
      exact (Option.some.inj hwhole).symm
    refine ⟨history ++ [⟨t, i, call, reply⟩], ?_, h.safe_set hk heq, fun t' => ?_⟩
    · simp only [effect, henter]
      exact h.serial_snoc t i call heq
    · by_cases ht : t' = t
      · subst ht
        simp only [Stands, hidle, entriesOf_append, hown]
      · apply (h.stands t').frame hk
        · rfl
        · exact entriesOf_append_of_ne (Ne.symm ht) _ _ _ _
        · exact entriesOf_append_of_ne (Ne.symm ht) _ _ _ _
        · intro j hholder
          refine ⟨hholder, Shared.set_objects_of_ne ?_ _ _ _⟩
          rintro rfl
          rw [hfree] at hholder
          cases hholder
  · rename_i l henter
    obtain rfl := Option.some.inj hstep
    refine ⟨history, ?_, h.safe, fun t' => ?_⟩
    · simp only [effect, henter, List.append_nil]
      exact h.serial_eq
    · by_cases ht : t' = t
      · subst ht
        simp only [Stands, Function.update_self]
        exact ⟨hown, trivial, henter⟩
      · apply (h.stands t').frame hk
        · exact Function.update_of_ne ht _ _
        · rfl
        · rfl
        · intro j hholder
          refine ⟨?_, rfl⟩
          show Function.update c.holder i (some t) j = some t'
          rw [Function.update_of_ne ?_, hholder]
          rintro rfl
          rw [hfree] at hholder
          cases hholder

/-- A thread that works without the lock comes back, and its call has taken effect. -/
theorem Linked.worked (h : Linked sections perform Safe s₀ done history c)
    (hk : Keeps sections perform Safe) {t : T} {i : ι} {call : C i} {l : L i}
    (hdoing : c.doing t = some (.entered i call l)) :
    ∃ m o w reply, (sections i).work l c.shared.memory (c.shared.objects i) = some (m, o, w) ∧
      (sections i).leave w o = some reply ∧
      perform i call c.shared.memory (c.shared.objects i) = (m, o, reply) := by
  have hwhole := hk.whole_eq h.safe i call
  have hown := h.stands t
  rw [Stands, hdoing] at hown
  obtain ⟨-, -, henter⟩ := hown
  simp only [Sections.whole, henter] at hwhole
  obtain ⟨⟨m, o, w⟩, hwork, hrest⟩ := Option.bind_eq_some_iff.mp hwhole
  obtain ⟨reply, hleave, heq⟩ := Option.map_eq_some_iff.mp hrest
  exact ⟨m, o, w, reply, hwork, hleave, heq.symm⟩

theorem Linked.work (h : Linked sections perform Safe s₀ done history c)
    (hk : Keeps sections perform Safe) {t : T} (hstep : step sections (.work t) c = some c') :
    ∃ history', Linked sections perform Safe s₀ (done ++ effect sections (.work t) c)
      history' c' := by
  simp only [step] at hstep
  split at hstep
  case h_2 => cases hstep
  case h_1 i call l hdoing =>
  have hown := h.stands t
  rw [Stands, hdoing] at hown
  obtain ⟨hsame, hholds, -⟩ := hown
  obtain ⟨m, o, w, reply, hwork, hleave, heq⟩ := h.worked hk hdoing
  rw [hwork] at hstep
  obtain rfl := Option.some.inj hstep
  refine ⟨history ++ [⟨t, i, call, reply⟩], ?_, h.safe_set hk heq, fun t' => ?_⟩
  · simp only [effect, hdoing]
    exact h.serial_snoc t i call heq
  · by_cases ht : t' = t
    · subst ht
      simp only [Stands, Function.update_self]
      refine ⟨hholds, reply, ?_, ?_⟩
      · rw [Shared.set_objects_self, hleave]
      · rw [entriesOf_append, entriesOf_self, hsame]
    · apply (h.stands t').frame hk
      · exact Function.update_of_ne ht _ _
      · rfl
      · exact entriesOf_append_of_ne (Ne.symm ht) _ _ _ _
      · intro j hholder
        refine ⟨hholder, Shared.set_objects_of_ne ?_ _ _ _⟩
        rintro rfl
        exact ht (Option.some.inj (hholder.symm.trans hholds))

theorem Linked.leave (h : Linked sections perform Safe s₀ done history c)
    (hk : Keeps sections perform Safe) {t : T} (hstep : step sections (.leave t) c = some c') :
    ∃ history', Linked sections perform Safe s₀ (done ++ effect sections (.leave t) c)
      history' c' := by
  simp only [step] at hstep
  split at hstep
  case h_2 => cases hstep
  case h_1 i call w hdoing =>
  have hown := h.stands t
  rw [Stands, hdoing] at hown
  obtain ⟨hholds, reply, hleave, hentries⟩ := hown
  rw [hleave] at hstep
  obtain rfl := Option.some.inj hstep
  refine ⟨history, ?_, h.safe, fun t' => ?_⟩
  · rw [effect, List.append_nil]
    exact h.serial_eq
  · by_cases ht : t' = t
    · subst ht
      simp only [Stands, Function.update_self]
      rw [entriesOf_append, entriesOf_self, hentries]
    · apply (h.stands t').frame hk
      · exact Function.update_of_ne ht _ _
      · exact entriesOf_append_of_ne (Ne.symm ht) _ _ _ _
      · rfl
      · intro j hholder
        refine ⟨?_, rfl⟩
        show Function.update c.holder i none j = some t'
        rw [Function.update_of_ne ?_, hholder]
        rintro rfl
        exact ht (Option.some.inj (hholder.symm.trans hholds))

theorem Linked.step (h : Linked sections perform Safe s₀ done history c)
    (hk : Keeps sections perform Safe) {move : Move T C}
    (hstep : step sections move c = some c') :
    ∃ history', Linked sections perform Safe s₀ (done ++ effect sections move c)
      history' c' := by
  cases move with
  | call t i call => exact h.call hk hstep
  | work t => exact h.work hk hstep
  | leave t => exact h.leave hk hstep

theorem Linked.run (h : Linked sections perform Safe s₀ done history c)
    (hk : Keeps sections perform Safe) {moves : List (Move T C)}
    (hrun : run sections moves c = some c') :
    ∃ history', Linked sections perform Safe s₀ (done ++ order sections moves c)
      history' c' := by
  induction moves generalizing c done history with
  | nil =>
      obtain rfl := Option.some.inj hrun
      exact ⟨history, by rwa [order, List.append_nil]⟩
  | cons move rest ih =>
      obtain ⟨c₁, hstep, hrest⟩ := Option.bind_eq_some_iff.mp hrun
      obtain ⟨history₁, h₁⟩ := h.step hk hstep
      obtain ⟨history', h'⟩ := ih h₁ hrest
      refine ⟨history', ?_⟩
      simp only [order, hstep]
      rwa [← List.append_assoc]

/-- A run and the serial run of its calls come to the same. -/
theorem linked_of_run (hk : Keeps sections perform Safe) (hsafe : Safe s₀)
    {moves : List (Move T C)} (hrun : run sections moves (.start s₀) = some c') :
    ∃ history, Linked sections perform Safe s₀ (order sections moves (.start s₀)) history c' :=
  (Linked.start hsafe).run hk hrun

/-- A thread that has called a method can go on. -/
theorem Linked.goes_on (h : Linked sections perform Safe s₀ done history c)
    (hk : Keeps sections perform Safe) {t : T} (hdoing : c.doing t ≠ none) :
    (∃ c', Threads.step sections (.work t) c = some c') ∨
      ∃ c', Threads.step sections (.leave t) c = some c' := by
  rcases hd : c.doing t with _ | ⟨i, call, l⟩ | ⟨i, call, w⟩
  · exact absurd hd hdoing
  · obtain ⟨m, o, w, reply, hwork, -⟩ := h.worked hk hd
    left
    simp only [Threads.step, hd, hwork]
    exact ⟨_, rfl⟩
  · have hown := h.stands t
    rw [Stands, hd] at hown
    obtain ⟨-, reply, hleave, -⟩ := hown
    right
    simp only [Threads.step, hd, hleave]
    exact ⟨_, rfl⟩

/-- A thread has the replies of the serial run, all of them if it is in no method. -/
theorem Linked.replies (h : Linked sections perform Safe s₀ done history c) (t : T) :
    entriesOf t c.returned <+: entriesOf t history ∧
      (c.doing t = none → entriesOf t c.returned = entriesOf t history) := by
  have hown := h.stands t
  rw [Stands] at hown
  split at hown
  · exact ⟨hown ▸ List.prefix_rfl, fun _ => hown⟩
  · rename_i hdoing
    exact ⟨hown.1 ▸ List.prefix_rfl, fun hnone => by rw [hnone] at hdoing; cases hdoing⟩
  · rename_i hdoing
    obtain ⟨-, reply, -, hentries⟩ := hown
    exact ⟨⟨_, hentries⟩, fun hnone => by rw [hnone] at hdoing; cases hdoing⟩

/-- What has taken effect of the calls of a thread has returned, but for the call of a
    method that is about to be left. -/
theorem Linked.effects (h : Linked sections perform Safe s₀ done history c) (t : T) :
    entriesOf t history = entriesOf t c.returned ∨
      ∃ i call w reply, c.doing t = some (.worked i call w) ∧
        entriesOf t history = entriesOf t c.returned ++ [⟨t, i, call, reply⟩] := by
  have hown := h.stands t
  rw [Stands] at hown
  split at hown
  · exact Or.inl hown.symm
  · exact Or.inl hown.1.symm
  · rename_i i call w hdoing
    obtain ⟨-, reply, -, hentries⟩ := hown
    exact Or.inr ⟨i, call, w, reply, hdoing, hentries.symm⟩

/-- What has taken effect stays as it was, and what comes later goes on from there. -/
theorem Linked.grows (h : Linked sections perform Safe s₀ done history c)
    {done' : List (T × (i : ι) × C i)} {history' : List (Entry T R C)}
    (h' : Linked sections perform Safe s₀ (done ++ done') history' c') :
    ∃ later, serial perform done' c.shared = (c'.shared, later) ∧ history' = history ++ later := by
  have hserial := h'.serial_eq
  rw [serial_append, h.serial_eq] at hserial
  obtain ⟨hshared, hhistory⟩ := Prod.mk.inj hserial
  exact ⟨_, Prod.ext hshared rfl, hhistory.symm⟩

end Linked

end Threads
end RubyBrs
