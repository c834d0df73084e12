/-
  RubyBrs.Ext.StreamThreads

  Native streaming objects in several threads.

  A method that calls the library gives up the global lock meanwhile, unless its
  object has the option `gvl` (`BRS_EXT_GVL_WRAP`), so that other threads may do
  anything with other objects, close and initialize them included.  They share the
  allocator with it.  As the readme demands, each object is used inside of a single
  thread at the same time, and nothing else is needed: the objects have handles of
  their own (`Apart`), every method keeps to those of its object
  (`StreamObject.Effect.keeps`), and so the threads run as if every function of the
  extension were called as a whole (`threads_serialize`).
-/

import RubyBrs.Lib.Threads
import RubyBrs.Ext.StreamMethods

namespace RubyBrs

open StreamCodec Threads

section Sections

variable {σ ω ρ : Type}

/-- What a thread takes along when it gives up the lock. -/
structure CallArgs (σ ω ρ : Type) where
  call : LibraryCall σ ω ρ
  sourceValue : Option Argument
  source : List UInt8

/-- What it comes back with. -/
structure CallAnswer (σ ω ρ : Type) extends CallArgs σ ω ρ where
  remainingSource : List UInt8
  result : ρ

namespace StreamMethod

/-- A method as a whole. -/
def whole (method : StreamMethod σ ω ρ) (m : Memory) (o : StreamObject (Coder UInt8 σ ω ρ)) :
    Memory × StreamObject (Coder UInt8 σ ω ρ) × Except RubyError Reply :=
  let r := method.perform m o
  (r.2.1, r.2.2, r.1)

/-- The lock is given up only for the library. -/
def enter (method : StreamMethod σ ω ρ) (m : Memory) (o : StreamObject (Coder UInt8 σ ω ρ)) :
    (Memory × StreamObject (Coder UInt8 σ ω ρ) × Except RubyError Reply) ⊕ CallArgs σ ω ρ :=
  match method with
  | .calls call sourceValue =>
      match o.statePtr, o.destinationBuffer, checkSource sourceValue, o.gvl with
      | some _, some _, .ok source, false => .inr ⟨call, sourceValue, source⟩
      | _, _, _, _ => .inl (method.whole m o)
  | _ => .inl (method.whole m o)

/-- The wrapper of the call reads the structure when it runs. -/
def work (args : CallArgs σ ω ρ) (m : Memory) (o : StreamObject (Coder UInt8 σ ω ρ)) :
    Option (Memory × StreamObject (Coder UInt8 σ ω ρ) × CallAnswer σ ω ρ) :=
  o.statePtr.map fun coder =>
    let (w, result) := StreamObject.streamWrapper args.call.codec args.call.operation
      { memory := m, self := o, coder, remainingSource := args.source }
    (w.memory, w.self, ⟨args, w.remainingSource, result⟩)

/-- And what follows it asks the instance again. -/
def leave (answer : CallAnswer σ ω ρ) (o : StreamObject (Coder UInt8 σ ω ρ)) :
    Option (Except RubyError Reply) :=
  o.statePtr.map fun coder =>
    match answer.call.failure coder answer.result with
    | some extResult => .error (brsExtRaiseError extResult)
    | none =>
        .ok (reply answer.sourceValue (answer.source.length - answer.remainingSource.length,
          answer.call.more coder.state answer.result))

def sections : Sections Memory (StreamObject (Coder UInt8 σ ω ρ)) (StreamMethod σ ω ρ)
    (CallArgs σ ω ρ) (CallAnswer σ ω ρ) (Except RubyError Reply) where
  enter := enter
  work := work
  leave := leave

/-- A method does not give up the lock, or it has come to the library. -/
theorem enter_cases (method : StreamMethod σ ω ρ) (o : StreamObject (Coder UInt8 σ ω ρ)) :
    (∀ m, enter method m o = .inl (method.whole m o)) ∨
    ∃ call sourceValue source coder buffer, method = .calls call sourceValue ∧
      o.statePtr = some coder ∧ o.destinationBuffer = some buffer ∧
      checkSource sourceValue = .ok source ∧
      ∀ m, enter method m o = .inr ⟨call, sourceValue, source⟩ := by
  cases method with
  | calls call sourceValue =>
      rcases hstate : o.statePtr with _ | coder
      · exact Or.inl fun m => by simp only [enter, hstate]
      · rcases hbuffer : o.destinationBuffer with _ | buffer
        · exact Or.inl fun m => by simp only [enter, hstate, hbuffer]
        · rcases hsource : checkSource sourceValue with e | source
          · exact Or.inl fun m => by simp only [enter, hstate, hbuffer, hsource]
          · rcases hgvl : o.gvl with _ | _
            · refine Or.inr ⟨call, sourceValue, source, coder, buffer, rfl, rfl, rfl, hsource, ?_⟩
              exact fun m => by simp only [enter, hstate, hbuffer, hsource, hgvl]
            · exact Or.inl fun m => by simp only [enter, hstate, hbuffer, hsource, hgvl]
  | _ => exact Or.inl fun m => rfl

/-- A library call in sections is the call. -/
theorem calls_sections (call : LibraryCall σ ω ρ) (sourceValue : Option Argument)
    (source : List UInt8) (m : Memory) (o : StreamObject (Coder UInt8 σ ω ρ))
    {coder : Coder UInt8 σ ω ρ}
    (hstate : o.statePtr = some coder) {outcome : Except RubyError (Nat × Bool)} {m' : Memory}
    {o' : StreamObject (Coder UInt8 σ ω ρ)}
    (heq : o.streamCall call source m coder =
      (outcome, m', o')) :
    ((work ⟨call, sourceValue, source⟩ m o).bind fun (m, o, w) => (leave w o).map (m, o, ·)) =
      some (m', o', outcome.map (reply sourceValue)) := by
  simp only [StreamObject.streamCall, gvlWrap_eq] at heq
  simp only [work, hstate, Option.map_some, Option.bind_some]
  -- The instance that is asked is the one that the library has worked on.
  generalize hcalled : StreamObject.streamWrapper call.codec call.operation
    { memory := m, self := o, coder, remainingSource := source } = called at heq ⊢
  have hcoder : called.1.self.statePtr = some called.1.coder := by
    rw [← hcalled]
    rfl
  simp only [leave, hcoder, Option.map_some]
  split at heq
  · obtain ⟨rfl, hrest⟩ := Prod.mk.inj heq
    obtain ⟨rfl, rfl⟩ := Prod.mk.inj hrest
    simp only [*, Except.map]
  · obtain ⟨rfl, hrest⟩ := Prod.mk.inj heq
    obtain ⟨rfl, rfl⟩ := Prod.mk.inj hrest
    simp only [*, Except.map]

theorem sections_whole (method : StreamMethod σ ω ρ) (m : Memory)
    (o : StreamObject (Coder UInt8 σ ω ρ)) :
    sections.whole method m o = some (method.whole m o) := by
  rcases method.enter_cases o with henter |
    ⟨call, sourceValue, source, coder, buffer, rfl, hstate, hbuffer, hsource, henter⟩
  · simp only [Sections.whole, sections, henter]
  · rcases heq : o.streamCall call source m coder
      with ⟨outcome, m', o'⟩
    have hsections := calls_sections call sourceValue source m o hstate heq
    simp only [Sections.whole, sections, henter]
    rw [hsections]
    simp only [whole, perform, StreamObject.unlessClosed, hstate, hbuffer, hsource, heq]
    rfl

/-- Whether the lock is given up depends on the object only. -/
theorem enter_inr {method : StreamMethod σ ω ρ} {m : Memory}
    {o : StreamObject (Coder UInt8 σ ω ρ)} {args : CallArgs σ ω ρ}
    (h : enter method m o = .inr args) (m' : Memory) : enter method m' o = .inr args := by
  rcases method.enter_cases o with henter | ⟨call, _, source, _, _, rfl, -, -, -, henter⟩
  · rw [henter] at h
    cases h
  · rw [henter] at h ⊢
    exact h

end StreamMethod

namespace StreamClass

variable {χ : Type} (C : StreamClass χ σ ω ρ)

/-- A call of the class as a whole. -/
def whole (call : χ) (m : Memory) (o : StreamObject (Coder UInt8 σ ω ρ)) :
    Memory × StreamObject (Coder UInt8 σ ω ρ) × Except RubyError Reply :=
  let r := C.native.invoke call m o
  (r.2.1, r.2.2, r.1)

/-- A call of the class in sections. -/
def sections : Sections Memory (StreamObject (Coder UInt8 σ ω ρ)) χ (CallArgs σ ω ρ)
    (CallAnswer σ ω ρ) (Except RubyError Reply) :=
  StreamMethod.sections.comap C.method

theorem whole_eq (call : χ) (m : Memory) (o : StreamObject (Coder UInt8 σ ω ρ)) :
    C.whole call m o = (C.method call).whole m o := by
  simp only [whole, StreamMethod.whole, C.made.invoke]

theorem sections_whole (call : χ) (m : Memory) (o : StreamObject (Coder UInt8 σ ω ρ)) :
    C.sections.whole call m o = some (C.whole call m o) := by
  rw [C.whole_eq]
  exact (C.method call).sections_whole m o

end StreamClass

/-! ## What one method keeps -/

/-- A method on one object keeps the handles of the object, or releases or creates
    some, and the handles of all others stay live and stay the others'. -/
theorem StreamObject.Effect.keeps {handle : Nat} {m m' : Memory} {role : Role} {ok : Bool}
    {hs hs' : List Nat} (h : Effect handle m m' role ok hs hs') (hm' : m'.WellFormed)
    (hhandle : handle ∈ hs) (hlive : ∀ x ∈ hs, x ∈ m.live) (hnodup : hs.Nodup) :
    m'.misuses = m.misuses ∧ hs'.Nodup ∧ (∀ x ∈ hs', x ∈ m'.live) ∧
      ∀ x ∈ m.live, x ∉ hs → x ∈ m'.live ∧ x ∉ hs' := by
  cases h with
  | same _ hm =>
      have hsame : m'.live = m.live := hm.live
      rw [hsame]
      exact ⟨hm.misuses, hnodup, hlive, fun x hx hnot => ⟨hx, hnot⟩⟩
  | @opened _ buffer coder _ _ hm =>
      have hnew : m'.live = buffer :: coder :: m.live := hm.live
      have hdistinct := hm'.nodup
      rw [hnew, List.nodup_cons, List.nodup_cons] at hdistinct
      obtain ⟨hbuffer, hcoder, -⟩ := hdistinct
      have hself := hlive handle hhandle
      have hbuffer' : ∀ x ∈ m.live, x ≠ buffer := by
        rintro x hx rfl
        exact hbuffer (List.mem_cons_of_mem _ hx)
      have hcoder' : ∀ x ∈ m.live, x ≠ coder := by
        rintro x hx rfl
        exact hcoder hx
      have hpair : buffer ≠ coder := fun heq => hbuffer (heq ▸ List.mem_cons_self)
      rw [hnew]
      refine ⟨hm.misuses, ?_, ?_, ?_⟩
      · simp [hpair, (hbuffer' handle hself).symm, (hcoder' handle hself).symm]
      · simp [hself]
      · intro x hx hnot
        have hne : x ≠ handle := fun heq => hnot (heq ▸ hhandle)
        simp [hx, hbuffer' x hx, hcoder' x hx, hne]
  | @closed buffer coder _ hm =>
      obtain ⟨hbuffer, hrest⟩ := List.nodup_cons.mp hnodup
      obtain ⟨hcoder, hself⟩ := List.nodup_cons.mp hrest
      have hpair : buffer ≠ coder := fun heq => hbuffer (heq ▸ List.mem_cons_self)
      have hcoderLive : coder ∈ m.live := hlive coder (by simp)
      have hbufferLive : buffer ∈ m.live.erase coder :=
        (List.mem_erase_of_ne hpair).mpr (hlive buffer (by simp))
      have hreleased : m' = { m with live := (m.live.erase coder).erase buffer } := by
        have hfirst : m.release coder = { m with live := m.live.erase coder } :=
          if_pos hcoderLive
        rw [hm, hfirst]
        exact if_pos hbufferLive
      have hstays : ∀ x ∈ m.live, x ≠ coder → x ≠ buffer → x ∈ m'.live := by
        intro x hx hxc hxb
        rw [hreleased]
        exact (List.mem_erase_of_ne hxb).mpr ((List.mem_erase_of_ne hxc).mpr hx)
      refine ⟨by rw [hreleased], hself, ?_, ?_⟩
      · intro x hx
        obtain rfl := List.mem_singleton.mp hx
        apply hstays x (hlive x hhandle)
        · rintro rfl
          exact hcoder List.mem_cons_self
        · rintro rfl
          exact hbuffer (List.mem_cons_of_mem _ List.mem_cons_self)
      · intro x hx hnot
        refine ⟨hstays x hx ?_ ?_, ?_⟩
        · rintro rfl
          exact hnot (by simp)
        · rintro rfl
          exact hnot (by simp)
        · intro hself'
          exact hnot (List.mem_cons_of_mem _ (List.mem_cons_of_mem _ hself'))

end Sections

/-! ## All objects -/

variable {ι T : Type} {χ σ ω ρ : ι → Type}

/-- The memory and the objects when no method is at work: the objects are at rest,
    and the handles of each are live and its own. -/
structure Apart (m₀ : Memory)
    (s : Shared Memory fun i => StreamObject (Coder UInt8 (σ i) (ω i) (ρ i))) : Prop where
  wellFormed : s.memory.WellFormed
  misuses : s.memory.misuses = m₀.misuses
  rests : ∀ i, ∃ inUse, (s.objects i).Rests inUse (s.objects i).handles
  live : ∀ i, ∀ handle ∈ (s.objects i).handles, handle ∈ s.memory.live
  nodup : ∀ i, (s.objects i).handles.Nodup
  disjoint : ∀ i j, j ≠ i → (s.objects j).handles.Disjoint (s.objects i).handles

/-- New objects. -/
theorem Apart.start {m : Memory} (hm : m.WellFormed) {handle : ι → Nat}
    (hlive : ∀ i, handle i ∈ m.live) (hinj : Function.Injective handle) :
    Apart m (⟨m, fun i => .new (handle i)⟩ :
      Shared Memory fun i => StreamObject (Coder UInt8 (σ i) (ω i) (ρ i))) where
  wellFormed := hm
  misuses := rfl
  rests i := ⟨false, .closed rfl rfl⟩
  live i x hx := by
    obtain rfl := List.mem_singleton.mp hx
    exact hlive i
  nodup i := List.nodup_singleton _
  disjoint i j hj := by
    intro x hx hx'
    obtain rfl := List.mem_singleton.mp hx
    exact hj (hinj (List.mem_singleton.mp hx'))

variable [DecidableEq ι]

theorem Apart.perform {m₀ : Memory}
    {s : Shared Memory fun i => StreamObject (Coder UInt8 (σ i) (ω i) (ρ i))} (h : Apart m₀ s)
    (i : ι) (method : StreamMethod (σ i) (ω i) (ρ i)) :
    Apart m₀ (s.set i (method.whole s.memory (s.objects i)).1
      (method.whole s.memory (s.objects i)).2.1) := by
  obtain ⟨inUse, hrests⟩ := h.rests i
  obtain ⟨hs', hrests', -, heffect, hwellFormed⟩ := method.perform_effect hrests (h.live i)
  have hm' := hwellFormed h.wellFormed
  obtain ⟨hmisuses, hnodup, hlive, hothers⟩ :=
    heffect.keeps hm' hrests.handle_mem (h.live i) (h.nodup i)
  obtain rfl := hrests'.handles_eq
  -- Nothing happens to the handles of another object.
  have hother : ∀ j, j ≠ i → ∀ x ∈ (s.objects j).handles,
      x ∈ (method.perform s.memory (s.objects i)).2.1.live ∧
        x ∉ (method.perform s.memory (s.objects i)).2.2.handles :=
    fun j hj x hx => hothers x (h.live j x hx) (h.disjoint i j hj hx)
  refine ⟨hm', hmisuses.trans h.misuses, fun j => ?_, fun j => ?_, fun j => ?_, fun j k hjk => ?_⟩
  · by_cases hj : j = i
    · subst hj
      rw [Shared.set_objects_self]
      exact ⟨_, hrests'⟩
    · rw [Shared.set_objects_of_ne hj]
      exact h.rests j
  · by_cases hj : j = i
    · subst hj
      rw [Shared.set_objects_self]
      exact hlive
    · rw [Shared.set_objects_of_ne hj]
      exact fun x hx => (hother j hj x hx).1
  · by_cases hj : j = i
    · subst hj
      rw [Shared.set_objects_self]
      exact hnodup
    · rw [Shared.set_objects_of_ne hj]
      exact h.nodup j
  · by_cases hj : j = i
    · subst hj
      rw [Shared.set_objects_self, Shared.set_objects_of_ne hjk]
      exact fun x hx hx' => (hother k hjk x hx).2 hx'
    · rw [Shared.set_objects_of_ne hj]
      by_cases hk : k = i
      · subst hk
        rw [Shared.set_objects_self]
        exact fun x hx hx' => (hother j hj x hx').2 hx
      · rw [Shared.set_objects_of_ne hk]
        exact h.disjoint j k hjk

theorem keeps_apart (C : (i : ι) → StreamClass (χ i) (σ i) (ω i) (ρ i)) (m₀ : Memory) :
    Keeps (fun i => (C i).sections) (fun i => (C i).whole) (Apart m₀) where
  enter_inr h := StreamMethod.enter_inr h _
  whole_eq _ i call := (C i).sections_whole call _ _
  safe h i call := by
    rw [(C i).whole_eq]
    exact h.perform i ((C i).method call)

variable [DecidableEq T]

/-- Threads that use new objects of any native classes, none of them in two threads at
    the same time, come to what they would come to if every function of the extension
    were called as a whole when it takes effect: the memory and the objects are the
    same, and so are the replies that every thread has got, in its order.  Whatever the
    threads call, nothing is misused, and a thread that has called a method can always
    go on. -/
theorem threads_serialize (C : (i : ι) → StreamClass (χ i) (σ i) (ω i) (ρ i)) {m : Memory}
    (hm : m.WellFormed) {handle : ι → Nat} (hlive : ∀ i, handle i ∈ m.live)
    (hinj : Function.Injective handle) (moves : List (Move T χ)) :
    ∀ c, Threads.run (fun i => (C i).sections) moves
        (.start ⟨m, fun i => .new (handle i)⟩) = some c →
      ∃ history, serial (fun i => (C i).whole)
          (order (fun i => (C i).sections) moves
            (.start ⟨m, fun i => .new (handle i)⟩)) ⟨m, fun i => .new (handle i)⟩ =
          (c.shared, history) ∧
        (∀ t, entriesOf t c.returned <+: entriesOf t history ∧
          (c.doing t = none → entriesOf t c.returned = entriesOf t history)) ∧
        c.shared.memory.misuses = m.misuses ∧
        ∀ t, c.doing t ≠ none →
          (∃ c', Threads.step (fun i => (C i).sections) (.work t) c = some c') ∨
          ∃ c', Threads.step (fun i => (C i).sections) (.leave t) c = some c' := by
  intro c hrun
  obtain ⟨history, h⟩ := linked_of_run (keeps_apart C m) (Apart.start hm hlive hinj) hrun
  exact ⟨history, h.serial_eq, h.replies, h.safe.misuses,
    fun t hdoing => h.goes_on (keeps_apart C m) hdoing⟩

/-- A memory with two structures. -/
def twoStructures : Memory := { Memory.unused with next := 2, live := [1, 0] }

theorem twoStructures_wellFormed : twoStructures.WellFormed := ⟨by decide, by decide⟩

theorem toNat_injective : Function.Injective Bool.toNat := by
  intro a b h
  cases a <;> cases b <;> simp at h ⊢

/-- Two threads initialize a compressor each, and while the library works for the first
    one, the second one closes its own and opens it again. -/
def twoThreads : List (Move Bool fun _ : Bool => Encoder StoredEncoderState × CompressorCall) :=
  let opens := (storedEncoder, .initializeCompressor (.hash oneByteOptions))
  [.call false false opens, .call true true opens,
    .call false false (storedEncoder, .compress (.value (.string [7]))),
    .call true true (storedEncoder, .close), .call true true opens,
    .work false, .leave false]

theorem threads_serialize_two :
    ∃ c history, Threads.run (fun _ => compressorClass.sections) twoThreads
        (.start ⟨twoStructures, fun i => .new i.toNat⟩) = some c ∧
      serial (fun _ => compressorClass.whole)
          (order (fun _ => compressorClass.sections) twoThreads
            (.start ⟨twoStructures, fun i => .new i.toNat⟩))
          ⟨twoStructures, fun i => .new i.toNat⟩ = (c.shared, history) ∧
        c.returned.length = 5 ∧ ∀ t, entriesOf t c.returned = entriesOf t history := by
  obtain ⟨c, hrun, hreturned, hidle⟩ : ∃ c,
      Threads.run (fun _ => compressorClass.sections) twoThreads
        (.start ⟨twoStructures, fun i => .new i.toNat⟩) = some c ∧ c.returned.length = 5 ∧
      (c.doing false = none ∧ c.doing true = none) := ⟨_, rfl, rfl, rfl, rfl⟩
  obtain ⟨history, hserial, hreplies, -⟩ := threads_serialize (fun _ => compressorClass)
    twoStructures_wellFormed (by decide) toNat_injective twoThreads c hrun
  refine ⟨c, history, hrun, hserial, hreturned, fun t => (hreplies t).2 ?_⟩
  cases t with
  | false => exact hidle.1
  | true => exact hidle.2

end RubyBrs
