/-
  RubyBrs.Ext.StreamLeaks

  What is left in the ledger when a native streaming object has been freed.

  `initialize` overwrites the pointers of an object that is in use already: its
  former instance and its former buffer stay live, and nothing can release them any
  more (`NativeClass.replaced`).  Whatever is done to an object in its life, these
  pairs are all that is lost (`Owed.run`), so a life leaks nothing exactly
  when no initialization succeeds while the object is in use (`life_leaks`).
-/

import RubyBrs.Ext.StreamMethods

namespace RubyBrs

open StreamCodec

variable {σ τ χ ω ρ : Type}

/-! ## The ledger without its order -/

/-- Since `m₀` these handles came to be live, in any order, and nothing was misused. -/
structure Memory.Accounts (m₀ : Memory) (handles : List Nat) (m : Memory) : Prop where
  live : m.live.Perm (handles ++ m₀.live)
  misuses : m.misuses = m₀.misuses

namespace Memory.Accounts

variable {m₀ m m' : Memory} {handles handles' : List Nat}

theorem refl (m₀ : Memory) : m₀.Accounts [] m₀ := ⟨List.Perm.refl _, rfl⟩

theorem perm (h : m₀.Accounts handles m) (hp : handles.Perm handles') :
    m₀.Accounts handles' m :=
  ⟨h.live.trans (hp.append_right _), h.misuses⟩

theorem holds (h : m₀.Accounts handles m) (hm : m.Holds handles' m') :
    m₀.Accounts (handles' ++ handles) m' := by
  refine ⟨?_, hm.misuses.trans h.misuses⟩
  rw [hm.live, List.append_assoc]
  exact h.live.append_left handles'

theorem mem (h : m₀.Accounts handles m) {handle : Nat} (hheld : handle ∈ handles) :
    handle ∈ m.live :=
  h.live.mem_iff.mpr (List.mem_append_left _ hheld)

theorem release {handle : Nat} (h : m₀.Accounts (handle :: handles) m) :
    m₀.Accounts handles (m.release handle) := by
  rw [Memory.release, if_pos (h.mem List.mem_cons_self)]
  refine ⟨?_, h.misuses⟩
  have herased := h.live.erase handle
  rwa [List.cons_append, List.erase_cons_head] at herased

/-- An instance is released before the buffer that was allocated after it. -/
theorem release_pair {buffer coder : Nat} (h : m₀.Accounts (buffer :: coder :: handles) m) :
    m₀.Accounts handles ((m.release coder).release buffer) :=
  (h.perm (List.Perm.swap coder buffer handles)).release.release

end Memory.Accounts

/-! ## What is lost -/

/-- The handles of an object that is in use, but for that of its structure. -/
def StreamObject.pair (o : StreamObject (Coder UInt8 σ ω ρ)) : List Nat :=
  match o.destinationBuffer, o.statePtr with
  | some buffer, some coder => [buffer.handle, coder.handle]
  | _, _ => []

theorem StreamObject.IsOpen.pair_eq {o : StreamObject (Coder UInt8 σ ω ρ)}
    {coder : Coder UInt8 σ ω ρ} {buffer : Buffer} (h : o.IsOpen coder buffer) :
    o.pair = [buffer.handle, coder.handle] := by
  simp only [StreamObject.pair, h.destinationBuffer, h.statePtr]

namespace NativeClass

variable (C : NativeClass χ (Coder UInt8 σ ω ρ))

/-- The call is an initialization that succeeds on an object that is in use. -/
def Reinitializes (s : LifeState (Coder UInt8 σ ω ρ)) (call : χ) : Prop :=
  C.role call = .opens ∧ s.inUse = true ∧ (C.perform call s.memory s.self).1.isOk = true

instance (s : LifeState (Coder UInt8 σ ω ρ)) (call : χ) : Decidable (C.Reinitializes s call) :=
  inferInstanceAs (Decidable (_ ∧ _ ∧ _))

/-- The pair whose pointers the call overwrites. -/
def replaced (s : LifeState (Coder UInt8 σ ω ρ)) (call : χ) : List Nat :=
  if C.Reinitializes s call then s.self.pair else []

/-- All the pairs whose pointers are overwritten, the last one first. -/
def lost : List χ → LifeState (Coder UInt8 σ ω ρ) → List Nat
  | [], _ => []
  | call :: rest, s => lost rest (C.step s call) ++ C.replaced s call

variable {C} {method : χ → StreamMethod σ ω ρ} {m₀ : Memory}
  {s : LifeState (Coder UInt8 σ ω ρ)} {handles : List Nat}

/-- What is owed between two calls: the handles of the object and what was lost. -/
def Owed (m₀ : Memory) (s : LifeState (Coder UInt8 σ ω ρ)) (handles : List Nat) : Prop :=
  ∃ hs, s.self.Rests s.inUse hs ∧ m₀.Accounts (hs ++ handles) s.memory

theorem Owed.step (h : Owed m₀ s handles) (hC : Made C method) (call : χ) :
    Owed m₀ (C.step s call) (C.replaced s call ++ handles) := by
  obtain ⟨hs, hrests, hm⟩ := h
  obtain ⟨hs', hrests', hhandle, heffect, -⟩ := (method call).perform_effect hrests
    fun handle hheld => hm.mem (List.mem_append_left _ hheld)
  have hstep : C.step s call =
      { memory := ((method call).perform s.memory s.self).2.1
        self := ((method call).perform s.memory s.self).2.2
        inUse := (method call).role.inUseAfter
          (((method call).perform s.memory s.self).1.map fun _ => ()) s.inUse } := by
    rw [NativeClass.step, hC.perform, hC.role]
    rfl
  have hok : (C.perform call s.memory s.self).1.isOk =
      ((method call).perform s.memory s.self).1.isOk := by
    rw [hC.perform]
    rcases (method call).perform s.memory s.self with ⟨_ | _, -⟩ <;> rfl
  have hkept : (C.role call = .opens → s.inUse = true →
      (C.perform call s.memory s.self).1.isOk = false) → C.replaced s call = [] := by
    intro hnot
    refine if_neg fun ⟨hopens, hinUse, hsucceeds⟩ => ?_
    rw [hnot hopens hinUse] at hsucceeds
    cases hsucceeds
  rw [← hC.role, hok] at hkept
  rw [hstep]
  refine ⟨hs', hrests', ?_⟩
  show m₀.Accounts (hs' ++ (C.replaced s call ++ handles)) _
  -- Only an initialization that succeeds can lose something.
  cases heffect with
  | same hnot hm' =>
      rw [hkept fun hopens _ => hnot hopens]
      exact hm.holds hm'
  | closed hcloses hm' =>
      rw [hkept fun hopens _ => absurd (hopens.symm.trans hcloses) (by simp), hm']
      exact hm.release_pair
  | @opened _ buffer coder hopens hsucceeds hm' =>
      have hcreated := hm.holds hm'
      cases hinUse : s.inUse with
      | false =>
          rw [hkept fun _ htrue => by rw [hinUse] at htrue; cases htrue]
          rw [hinUse] at hrests
          obtain rfl := hrests.closed_eq
          exact hcreated
      | true =>
          rw [hinUse] at hrests
          obtain ⟨oldCoder, oldBuffer, hopen, rfl⟩ := hrests.opened_eq
          have hreplaced : C.replaced s call = s.self.pair :=
            if_pos ⟨hC.role call ▸ hopens, hinUse, hok ▸ hsucceeds⟩
          rw [hreplaced, hopen.pair_eq]
          -- The structure stays the object's own, and the pair does not.
          refine hcreated.perm (List.Perm.cons buffer (List.Perm.cons coder ?_))
          exact (List.Perm.cons _ (List.Perm.swap _ _ _)).trans (List.Perm.swap _ _ _)

theorem Owed.run (h : Owed m₀ s handles) (hC : Made C method) (calls : List χ) :
    Owed m₀ (C.run calls s) (C.lost calls s ++ handles) := by
  induction calls generalizing s handles with
  | nil => exact h
  | cons call rest ih =>
      have hrest := ih (h.step hC call)
      rw [← List.append_assoc] at hrest
      exact hrest

/-- When the object is freed, what was lost stays. -/
theorem Owed.free (h : Owed m₀ s handles) : m₀.Accounts handles (s.self.free s.memory) := by
  obtain ⟨hs, hrests, hm⟩ := h
  generalize s.inUse = inUse at hrests
  cases hrests with
  | closed hstate hbuffer =>
      simp only [StreamObject.free, hstate, hbuffer]
      exact hm.release
  | opened hopen =>
      simp only [StreamObject.free, hopen.statePtr, hopen.destinationBuffer]
      exact hm.release_pair.release

/-- Nothing is lost by a call exactly when it does not initialize an object that is
    in use. -/
theorem Owed.replaced_nil_iff (h : Owed m₀ s handles) (call : χ) :
    C.replaced s call = [] ↔ ¬ C.Reinitializes s call := by
  obtain ⟨hs, hrests, -⟩ := h
  by_cases hreinitializes : C.Reinitializes s call
  · rw [replaced, if_pos hreinitializes]
    rw [hreinitializes.2.1] at hrests
    obtain ⟨coder, buffer, hopen, -⟩ := hrests.opened_eq
    rw [hopen.pair_eq]
    exact iff_of_false (by simp) (not_not_intro hreinitializes)
  · rw [replaced, if_neg hreinitializes]
    exact iff_of_true rfl hreinitializes

theorem Owed.lost_nil_iff (h : Owed m₀ s handles) (hC : Made C method) (calls : List χ) :
    C.lost calls s = [] ↔ ∀ done call rest, calls = done ++ call :: rest →
      ¬ C.Reinitializes (C.run done s) call := by
  induction calls generalizing s handles with
  | nil =>
      refine iff_of_true rfl fun done call rest heq => ?_
      simp at heq
  | cons call rest ih =>
      show C.lost rest (C.step s call) ++ C.replaced s call = [] ↔ _
      rw [List.append_eq_nil_iff, ih (h.step hC call), h.replaced_nil_iff]
      constructor
      · rintro ⟨hrest, hcall⟩ done call' rest' heq
        cases done with
        | nil =>
            obtain ⟨rfl, rfl⟩ := List.cons.inj heq
            exact hcall
        | cons first done =>
            obtain ⟨rfl, heq'⟩ := List.cons.inj heq
            exact hrest done call' rest' heq'
      · intro hall
        refine ⟨fun done call' rest' heq => ?_, hall [] call rest rfl⟩
        exact hall (call :: done) call' rest' (by rw [heq]; rfl)

/-! ## Lives -/

/-- What the ledger has more after a life than before it. -/
structure Leaks (C : NativeClass χ (Coder UInt8 σ ω ρ)) (m₀ : Memory) (calls : List χ)
    (start : LifeState (Coder UInt8 σ ω ρ)) : Prop where
  live : (C.free (C.run calls start).memory (C.run calls start).self).live.Perm
    (C.lost calls start ++ m₀.live)
  nothing_iff : (C.free (C.run calls start).memory (C.run calls start).self).live.Perm m₀.live ↔
    ∀ done call rest, calls = done ++ call :: rest → ¬ C.Reinitializes (C.run done start) call

theorem Owed.leaks (h : Owed m₀ s []) (hC : Made C method) (calls : List χ) :
    C.Leaks m₀ calls s := by
  have hrun := h.run hC calls
  rw [List.append_nil] at hrun
  have hfreed := hrun.free.live
  refine ⟨hC.free ▸ hfreed, ?_⟩
  rw [← h.lost_nil_iff hC calls, hC.free]
  constructor
  · intro hnothing
    have hlength := (hfreed.symm.trans hnothing).length_eq
    rw [List.length_append] at hlength
    exact List.eq_nil_of_length_eq_zero (by omega)
  · intro hnil
    rwa [hnil, List.nil_append] at hfreed

theorem owed_start {o : StreamObject (Coder UInt8 σ ω ρ)} {m : Memory}
    (h : StreamObject.allocate m₀ = (.ok o, m)) : Owed m₀ ⟨m, o, false⟩ [] := by
  obtain ⟨hrests, hm⟩ := StreamObject.allocate_rests h
  refine ⟨_, hrests, ?_⟩
  have haccounts := (Memory.Accounts.refl m₀).holds hm
  rwa [List.append_nil] at haccounts ⊢

end NativeClass

/-- Whatever is done with a native object, what its life leaves behind are the pairs
    that were overwritten by initializing it while it was in use, and nothing if that
    was never done. -/
theorem life_leaks (m₀ : Memory) :
    (∀ (self : Compressor σ) m, nativeCompressor.allocate m₀ = (.ok self, m) →
      ∀ calls, nativeCompressor.Leaks m₀ calls ⟨m, self, false⟩) ∧
    ∀ (self : Decompressor τ) m, nativeDecompressor.allocate m₀ = (.ok self, m) →
      ∀ calls, nativeDecompressor.Leaks m₀ calls ⟨m, self, false⟩ := by
  constructor
  · intro self m hallocate calls
    exact (NativeClass.owed_start hallocate).leaks nativeCompressor_made calls
  · intro self m hallocate calls
    exact (NativeClass.owed_start hallocate).leaks nativeDecompressor_made calls

/-- A decompressor that is initialized twice leaves its first instance and its first
    buffer, and a compressor that is closed in between leaves nothing. -/
theorem life_leaks_twice :
    (∃ (self : Decompressor (List UInt8 × Nat)) (m : Memory),
      nativeDecompressor.allocate .unused = (.ok self, m) ∧
      nativeDecompressor.Leaks .unused
        [(formatDecoder storedFormat id, .initializeDecompressor (.hash oneByteOptions)),
          (formatDecoder storedFormat id, .initializeDecompressor (.hash oneByteOptions))]
        ⟨m, self, false⟩ ∧
      nativeDecompressor.lost
        [(formatDecoder storedFormat id, .initializeDecompressor (.hash oneByteOptions)),
          (formatDecoder storedFormat id, .initializeDecompressor (.hash oneByteOptions))]
        ⟨m, self, false⟩ = [2, 1]) ∧
    ∃ (self : Compressor StoredEncoderState) (m : Memory),
      nativeCompressor.allocate .unused = (.ok self, m) ∧
      nativeCompressor.Leaks .unused
        [(storedEncoder, .initializeCompressor (.hash oneByteOptions)), (storedEncoder, .close),
          (storedEncoder, .initializeCompressor (.hash oneByteOptions))] ⟨m, self, false⟩ := by
  obtain ⟨hcompressor, hdecompressor⟩ :=
    life_leaks (σ := StoredEncoderState) (τ := List UInt8 × Nat) .unused
  exact ⟨⟨_, _, rfl, hdecompressor _ _ rfl _, rfl⟩, _, _, rfl, hcompressor _ _ rfl _⟩

end RubyBrs
