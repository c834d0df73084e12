/-
  RubyBrs.Ext.Ledger

  What the one-shot functions have released when they are left.

  `m.Holds handles m'` says that from `m` to `m'` the instances and buffers with
  these handles came to be live and nothing was misused.  There is one rule for
  each function that allocates or releases, and a call has released everything
  that it created if it is left with `m.Holds []`.

  The file functions always do.  The string functions do not when an exception
  leaves them from inside their loop or behind it: `BRS_EXT_RESIZE_STRING_BUFFER`
  allocates the array of its arguments outside of `rb_protect`, and `decompress`
  raises by itself when the last resize of the result fails.
-/

import RubyBrs.Ext.FormatDecoder
import RubyBrs.Ext.NativeRun
import RubyBrs.Ext.Stored
import RubyBrs.Ext.StringRefine

namespace RubyBrs

open StreamCodec WhileTrue

variable {σ τ ω ρ θ : Type}

/-! ## The ledger -/

/-- Nothing was misused since `m`, and `handles` are live in addition. -/
structure Memory.Holds (m : Memory) (handles : List Nat) (m' : Memory) : Prop where
  live : m'.live = handles ++ m.live
  misuses : m'.misuses = m.misuses

namespace Memory.Holds

variable {m m₁ m₂ : Memory} {handles : List Nat}

theorem refl (m : Memory) : m.Holds [] m := ⟨rfl, rfl⟩

theorem allocate_some {handle : Nat} (h : m.Holds handles m₁)
    (hallocate : m₁.allocate = (some handle, m₂)) : m.Holds (handle :: handles) m₂ := by
  rcases m₁.allocate_cases with ⟨-, heq⟩ | heq
  · rw [heq] at hallocate
    cases hallocate
  · rw [heq] at hallocate
    obtain ⟨hhandle, rfl⟩ := Prod.mk.inj hallocate
    obtain rfl := Option.some.inj hhandle
    refine ⟨?_, h.misuses⟩
    show _ :: m₁.live = _
    rw [h.live, List.cons_append]

theorem allocate_none (h : m.Holds handles m₁) (hallocate : m₁.allocate = (none, m₂)) :
    m.Holds handles m₂ := by
  rcases m₁.allocate_cases with ⟨-, heq⟩ | heq
  · rw [heq] at hallocate
    obtain ⟨-, rfl⟩ := Prod.mk.inj hallocate
    exact ⟨h.live, h.misuses⟩
  · rw [heq] at hallocate
    cases hallocate

/-- A Ruby string is not in the ledger, whether it could be made or not. -/
theorem allocateString (h : m.Holds handles m₁) (bytes : List UInt8) :
    m.Holds handles (m₁.allocateString bytes).2 := by
  rcases m₁.allocateString_cases bytes with ⟨-, heq⟩ | heq
  · rw [heq]
    exact ⟨h.live, h.misuses⟩
  · rw [heq]
    exact ⟨h.live, h.misuses⟩

theorem allocateArray (h : m.Holds handles m₁) : m.Holds handles m₁.allocateArray.2 :=
  ⟨h.live, h.misuses⟩

/-- What is held can be released. -/
theorem release {handle : Nat} (h : m.Holds handles m₁) (hheld : handle ∈ handles) :
    m.Holds (handles.erase handle) (m₁.release handle) := by
  have hlive : handle ∈ m₁.live := by
    rw [h.live]
    exact List.mem_append_left _ hheld
  rw [Memory.release, if_pos hlive]
  refine ⟨?_, h.misuses⟩
  show m₁.live.erase handle = _
  rw [h.live, List.erase_append_left _ hheld]

/-- The last to be created can be released. -/
theorem release_head {handle : Nat} (h : m.Holds (handle :: handles) m₁) :
    m.Holds handles (m₁.release handle) := by
  have hreleased := h.release List.mem_cons_self
  rwa [List.erase_cons_head] at hreleased

/-- So can the one that was created before it. -/
theorem release_second {first second : Nat} (h : m.Holds (second :: first :: handles) m₁) :
    m.Holds (second :: handles) (m₁.release first) := by
  have hreleased := h.release (List.mem_cons_of_mem _ List.mem_cons_self)
  rw [List.erase_cons] at hreleased
  split at hreleased
  · rename_i heq
    rwa [eq_of_beq heq]
  · rwa [List.erase_cons_head] at hreleased

/-- As many instances and buffers are held as there are. -/
theorem length_eq {handles' : List Nat} (h : m.Holds handles m₁) (h' : m.Holds handles' m₁) :
    handles.length = handles'.length := by
  have hlength := congrArg List.length (h.live.symm.trans h'.live)
  simp only [List.length_append] at hlength
  omega

end Memory.Holds

/-! ## Instances and buffers -/

section Created

variable {m m₁ m₂ : Memory} {handles : List Nat}

theorem createCoder_holds {create : σ} {setOptions : σ → ExtResult × σ}
    {coder : Coder UInt8 σ ω ρ} (h : m.Holds handles m₁)
    (hcreate : createCoder create setOptions m₁ = (.ok coder, m₂)) :
    m.Holds (coder.handle :: handles) m₂ := by
  rcases hallocate : m₁.allocate with ⟨_ | handle, m₃⟩
  · simp only [createCoder, hallocate] at hcreate
    cases hcreate
  · rcases hset : setOptions create with ⟨extResult, s⟩
    cases extResult with
    | ok =>
        simp only [createCoder, hallocate, hset] at hcreate
        obtain ⟨hcoder, rfl⟩ := Prod.mk.inj hcreate
        obtain rfl := Except.ok.inj hcoder
        exact h.allocate_some hallocate
    | _ =>
        simp only [createCoder, hallocate, hset] at hcreate
        cases hcreate

/-- An instance that cannot be configured is destroyed. -/
theorem createCoder_failed_holds {create : σ} {setOptions : σ → ExtResult × σ} {e : RubyError}
    (h : m.Holds handles m₁)
    (hcreate : (createCoder create setOptions m₁ :
      Except RubyError (Coder UInt8 σ ω ρ) × Memory) = (.error e, m₂)) :
    m.Holds handles m₂ := by
  rcases hallocate : m₁.allocate with ⟨_ | handle, m₃⟩
  · simp only [createCoder, hallocate] at hcreate
    obtain ⟨-, rfl⟩ := Prod.mk.inj hcreate
    exact h.allocate_none hallocate
  · rcases hset : setOptions create with ⟨extResult, s⟩
    cases extResult with
    | ok =>
        simp only [createCoder, hallocate, hset] at hcreate
        cases (Prod.mk.inj hcreate).1
    | _ =>
        simp only [createCoder, hallocate, hset] at hcreate
        obtain ⟨-, rfl⟩ := Prod.mk.inj hcreate
        exact (h.allocate_some hallocate).release_head

/-- A resize that raises, fails or succeeds creates nothing that would have to be released. -/
theorem resizeStringBuffer_holds (h : m.Holds handles m₁) (buffer : List UInt8) (length : Nat) :
    m.Holds handles (resizeStringBuffer m₁ buffer length).2 := by
  have harray := h.allocateArray
  unfold resizeStringBuffer
  generalize m₁.allocateArray = allocated at harray ⊢
  obtain ⟨_ | _, m₂⟩ := allocated
  · exact harray
  · exact harray.allocateString _

theorem mallocBuffer_holds {length : Nat} {buffer : Buffer} (h : m.Holds handles m₁)
    (hmalloc : mallocBuffer m₁ length = (some buffer, m₂)) :
    m.Holds (buffer.handle :: handles) m₂ := by
  rcases hallocate : m₁.allocate with ⟨_ | handle, m₃⟩
  · simp only [mallocBuffer, hallocate, Option.map_none] at hmalloc
    cases hmalloc
  · simp only [mallocBuffer, hallocate, Option.map_some] at hmalloc
    obtain ⟨hbuffer, rfl⟩ := Prod.mk.inj hmalloc
    obtain rfl := Option.some.inj hbuffer
    exact h.allocate_some hallocate

theorem mallocBuffer_failed_holds {length : Nat} (h : m.Holds handles m₁)
    (hmalloc : mallocBuffer m₁ length = (none, m₂)) : m.Holds handles m₂ := by
  rcases hallocate : m₁.allocate with ⟨_ | handle, m₃⟩
  · simp only [mallocBuffer, hallocate, Option.map_none] at hmalloc
    obtain ⟨-, rfl⟩ := Prod.mk.inj hmalloc
    exact h.allocate_none hallocate
  · simp only [mallocBuffer, hallocate, Option.map_some] at hmalloc
    cases hmalloc

variable {sourceBufferLength destinationBufferLength : Nat}

theorem createBuffers_holds {sourceBuffer destinationBuffer : Buffer} (h : m.Holds handles m₁)
    (hcreate : createBuffers m₁ sourceBufferLength destinationBufferLength =
      (some (sourceBuffer, destinationBuffer), m₂)) :
    m.Holds (destinationBuffer.handle :: sourceBuffer.handle :: handles) m₂ := by
  rcases hsource : mallocBuffer m₁ sourceBufferLength with ⟨_ | source, m₃⟩
  · simp only [createBuffers, hsource] at hcreate
    cases hcreate
  · rcases hdestination : mallocBuffer m₃ destinationBufferLength with ⟨_ | destination, m₄⟩
    · simp only [createBuffers, hsource, hdestination] at hcreate
      cases hcreate
    · simp only [createBuffers, hsource, hdestination] at hcreate
      obtain ⟨hbuffers, rfl⟩ := Prod.mk.inj hcreate
      obtain ⟨rfl, rfl⟩ := Prod.mk.inj (Option.some.inj hbuffers)
      exact mallocBuffer_holds (mallocBuffer_holds h hsource) hdestination

/-- Without the second buffer the first one is freed. -/
theorem createBuffers_failed_holds (h : m.Holds handles m₁)
    (hcreate : createBuffers m₁ sourceBufferLength destinationBufferLength = (none, m₂)) :
    m.Holds handles m₂ := by
  rcases hsource : mallocBuffer m₁ sourceBufferLength with ⟨_ | source, m₃⟩
  · simp only [createBuffers, hsource] at hcreate
    obtain ⟨-, rfl⟩ := Prod.mk.inj hcreate
    exact mallocBuffer_failed_holds h hsource
  · rcases hdestination : mallocBuffer m₃ destinationBufferLength with ⟨_ | destination, m₄⟩
    · simp only [createBuffers, hsource, hdestination] at hcreate
      obtain ⟨-, rfl⟩ := Prod.mk.inj hcreate
      exact (mallocBuffer_failed_holds (mallocBuffer_holds h hsource) hdestination).release_head
    · simp only [createBuffers, hsource, hdestination] at hcreate
      cases hcreate

end Created

/-! ## Calls on files -/

/-- However its loops end, a function on files releases its two buffers and its
    instance. -/
theorem ioCall_holds {getCodecOptions : Hash → Except RubyError θ} {create : σ}
    {setOptions : σ → θ → ExtResult × σ} {defaultSource defaultDestination : Nat}
    {run : Bool → Nat → Nat → Coder UInt8 σ ω ρ → SourceFile → List UInt8 → DestinationFile →
      List UInt8 → Option (ExtResult × Io (Coder UInt8 σ ω ρ))}
    {m : Memory} {source : FileArgument SourceFile} {destination : FileArgument DestinationFile}
    {options : Argument} {e : IoExit (Coder UInt8 σ ω ρ)}
    (h : ioCall getCodecOptions create setOptions defaultSource defaultDestination run m source
      destination options = some e) : m.Holds [] e.memory := by
  have hm := Memory.Holds.refl m
  unfold ioCall at h
  split at h
  · obtain rfl := Option.some.inj h
    exact hm
  · split at h
    · rename_i hcoder
      obtain rfl := Option.some.inj h
      exact createCoder_failed_holds hm hcoder
    · rename_i coder m₁ hcoder
      have hm₁ := createCoder_holds hm hcoder
      simp only at h
      split at h
      · rename_i hbuffers
        obtain rfl := Option.some.inj h
        exact (createBuffers_failed_holds hm₁ hbuffers).release_head
      · rename_i sourceBuffer destinationBuffer m₂ hbuffers
        obtain ⟨⟨extResult, w⟩, -, rfl⟩ := Option.map_eq_some_iff.mp h
        -- The buffers are freed in the order in which they were allocated.
        have hm₂ := createBuffers_holds hm₁ hbuffers
        have hreleased := ((hm₂.release_second).release_head).release_head
        show m.Holds [] (IoExit.finish _ _ _ _ _ _).memory
        unfold IoExit.finish
        split <;> exact hreleased

/-! ## Calls on strings -/

namespace Str

variable {m : Memory} {handles : List Nat} {d : Nat}

/-- Growing the destination allocates nothing that would have to be released. -/
theorem increaseDestinationBuffer_holds {κ : Type} {s : Str κ} (h : m.Holds handles s.memory) :
    m.Holds handles (s.increaseDestinationBuffer d).2.memory := by
  have hresize := resizeStringBuffer_holds h s.destinationValue (s.destinationLength + d)
  unfold increaseDestinationBuffer
  split
  · exact h
  · generalize resizeStringBuffer s.memory s.destinationValue (s.destinationLength + d) = resized
      at hresize ⊢
    obtain ⟨_ | _ | _, m'⟩ := resized <;> exact hresize

theorem cutDestination_holds {κ : Type} {s : Str κ} (h : m.Holds handles s.memory)
    (failed : Except RubyError ExtResult) :
    m.Holds handles (s.cutDestination failed).2.memory := by
  have hresize := resizeStringBuffer_holds h s.destinationValue s.destinationLength
  unfold cutDestination
  generalize resizeStringBuffer s.memory s.destinationValue s.destinationLength = resized
    at hresize ⊢
  obtain ⟨_ | _ | _, m'⟩ := resized <;> exact hresize

theorem afterLoop_holds {κ : Type} {x : Except RubyError ExtResult × Str κ}
    (h : m.Holds handles x.2.memory) (failed : Except RubyError ExtResult) :
    m.Holds handles (afterLoop failed x).2.memory := by
  obtain ⟨r, s⟩ := x
  by_cases hr : r = .ok .ok
  · subst hr
    exact cutDestination_holds h failed
  · rw [afterLoop_of_ne failed hr]
    exact h

section Loop

variable {codec : Codec UInt8 σ ω ρ} {operation : ω}
  {failure : Coder UInt8 σ ω ρ → ρ → Option ExtResult}
  {again : Coder UInt8 σ ω ρ → ρ → Bool} {gvl : Bool} {fuel : Nat}

/-- The variables with which one round goes on or leaves. -/
theorem streamBody_holds {s s' : Str (Coder UInt8 σ ω ρ)} (h : m.Holds handles s.memory)
    (hbody : streamBody (streamWrapper codec operation) failure again gvl d s =
        some (.next s') ∨
      ∃ r, streamBody (streamWrapper codec operation) failure again gvl d s =
        some (.exit (r, s'))) : m.Holds handles s'.memory := by
  have hstreamed : m.Holds handles (streamed codec operation s).memory := h
  have hincreased := increaseDestinationBuffer_holds (d := d) hstreamed
  rw [streamBody_eq] at hbody
  split at hbody
  · rcases hbody with hbody | ⟨r, hbody⟩
    · cases hbody
    · obtain rfl := (Prod.mk.inj (Flow.exit.inj (Option.some.inj hbody))).2
      exact h
  · split at hbody
    · rcases roundAgain_cases ((streamed codec operation s).increaseDestinationBuffer d) with
        ⟨-, heq⟩ | ⟨-, heq⟩ <;> rw [heq] at hbody
      · rcases hbody with hbody | ⟨r, hbody⟩
        · rw [← Flow.next.inj (Option.some.inj hbody)]
          exact hincreased
        · cases hbody
      · rcases hbody with hbody | ⟨r, hbody⟩
        · cases hbody
        · rw [Flow.exit.inj (Option.some.inj hbody)] at hincreased
          exact hincreased
    · rcases hbody with hbody | ⟨r, hbody⟩
      · cases hbody
      · obtain rfl := (Prod.mk.inj (Flow.exit.inj (Option.some.inj hbody))).2
        exact h

/-- The loop allocates nothing that would have to be released. -/
theorem streamLoop_holds {s : Str (Coder UInt8 σ ω ρ)}
    {x : Except RubyError ExtResult × Str (Coder UInt8 σ ω ρ)} (hs : m.Holds handles s.memory)
    (h : whileTrue (streamBody (streamWrapper codec operation) failure again gvl d) fuel s =
      some x) : m.Holds handles x.2.memory := by
  refine whileTrue_invariant (I := fun s => m.Holds handles s.memory)
    (Q := fun x => m.Holds handles x.2.memory) ?_ ?_ hs h
  · exact fun s s' hs hbody => streamBody_holds hs (Or.inl hbody)
  · exact fun s x hs hbody => streamBody_holds hs (Or.inr ⟨x.1, hbody⟩)

end Loop

/-! ### The resizes of a run -/

section Resizes

variable (codec : Codec UInt8 σ ω ρ) (operation : ω)
  (failure : Coder UInt8 σ ω ρ → ρ → Option ExtResult)
  (again : Coder UInt8 σ ω ρ → ρ → Bool) (gvl : Bool) (d : Nat) (s : Str (Coder UInt8 σ ω ρ))

/-- The loop that is entered with `s` comes to grow the destination, with the
    variables `t`. -/
def Grows (t : Str (Coder UInt8 σ ω ρ)) : Prop :=
  ∃ v, Reaches (streamBody (streamWrapper codec operation) failure again gvl d) s v ∧
    t = streamed codec operation v ∧
    failure t.coder (streamAnswer codec operation v).result = none ∧
    again t.coder (streamAnswer codec operation v).result = true ∧
    t.remainingDestinationBufferLength ≠ d

/-- The loop that is entered with `s` comes to a good end, with the variables `t`:
    what follows is the last resize. -/
def Cuts (t : Str (Coder UInt8 σ ω ρ)) : Prop :=
  ∃ v, Reaches (streamBody (streamWrapper codec operation) failure again gvl d) s v ∧
    t = streamed codec operation v ∧
    failure t.coder (streamAnswer codec operation v).result = none ∧
    again t.coder (streamAnswer codec operation v).result = false

/-- At every resize that the function comes to, the array of the arguments, which
    is the next allocation, can be made. -/
def ArgumentsAllocated : Prop :=
  ∀ t, Grows codec operation failure again gvl d s t ∨
      Cuts codec operation failure again gvl d s t →
    t.memory.fails t.memory.next = false

/-- At the last resize the string, which is allocated after the array of the
    arguments, can be resized. -/
def LastResizeSucceeds : Prop :=
  ∀ t, Cuts codec operation failure again gvl d s t →
    t.memory.fails (t.memory.next + 1) = false

variable {codec operation failure again gvl d s}

theorem Grows.raised {t : Str (Coder UInt8 σ ω ρ)}
    (ht : Grows codec operation failure again gvl d s t)
    (hfails : t.memory.fails t.memory.next = true) :
    ∃ fuel s', whileTrue (streamBody (streamWrapper codec operation) failure again gvl d) fuel s =
      some (.error .noMemoryError, s') := by
  obtain ⟨v, hv, rfl, hnone, hagain, hroom⟩ := ht
  have hincrease : (streamed codec operation v).increaseDestinationBuffer d =
      (.error .noMemoryError, { streamed codec operation v with
        memory := (streamed codec operation v).memory.allocateArray.2 }) := by
    unfold increaseDestinationBuffer resizeStringBuffer Memory.allocateArray
    rw [if_neg hroom, hfails]
    rfl
  have hexit : streamBody (streamWrapper codec operation) failure again gvl d v =
      some (.exit (.error .noMemoryError, { streamed codec operation v with
        memory := (streamed codec operation v).memory.allocateArray.2 })) := by
    rw [streamBody_eq, hnone]
    simp only [hagain, if_true, hincrease]
    rfl
  obtain ⟨fuel, hloop⟩ := hv.returns (whileTrue_exit hexit 0)
  exact ⟨fuel, _, hloop⟩

theorem Cuts.left {t : Str (Coder UInt8 σ ω ρ)}
    (ht : Cuts codec operation failure again gvl d s t) :
    ∃ fuel, whileTrue (streamBody (streamWrapper codec operation) failure again gvl d) fuel s =
      some (.ok .ok, t) := by
  obtain ⟨v, hv, rfl, hnone, hagain⟩ := ht
  have hexit : streamBody (streamWrapper codec operation) failure again gvl d v =
      some (.exit (.ok .ok, streamed codec operation v)) := by
    rw [streamBody_eq, hnone]
    simp only [hagain, Bool.false_eq_true, if_false]
  exact hv.returns (whileTrue_exit hexit 0)

/-- A loop that came to its end came to the last resize. -/
theorem cuts_of_loop {fuel : Nat} {t : Str (Coder UInt8 σ ω ρ)}
    (h : whileTrue (streamBody (streamWrapper codec operation) failure again gvl d) fuel s =
      some (.ok .ok, t)) (hfailure : ∀ i r, failure i r ≠ some .ok) :
    Cuts codec operation failure again gvl d s t := by
  obtain ⟨v, hv, hexit⟩ := whileTrue_left h
  rw [streamBody_eq] at hexit
  split at hexit
  · rename_i extResult hfail
    have heq := (Prod.mk.inj (Flow.exit.inj (Option.some.inj hexit))).1
    rw [Except.ok.inj heq] at hfail
    exact absurd hfail (hfailure _ _)
  · rename_i hnone
    split at hexit
    · rcases roundAgain_cases ((streamed codec operation v).increaseDestinationBuffer d) with
        ⟨-, heq⟩ | ⟨hne, heq⟩ <;> rw [heq] at hexit
      · cases hexit
      · rw [Flow.exit.inj (Option.some.inj hexit)] at hne
        exact absurd rfl hne
    · rename_i hagain
      obtain rfl := (Prod.mk.inj (Flow.exit.inj (Option.some.inj hexit))).2
      exact ⟨v, hv, rfl, hnone, by simpa using hagain⟩

/-- A loop that is left by an exception could not allocate the array. -/
theorem grows_of_loop {fuel : Nat} {e : RubyError} {t : Str (Coder UInt8 σ ω ρ)}
    (h : whileTrue (streamBody (streamWrapper codec operation) failure again gvl d) fuel s =
      some (.error e, t)) :
    ∃ u, Grows codec operation failure again gvl d s u ∧
      u.memory.fails u.memory.next = true := by
  obtain ⟨v, hv, hexit⟩ := whileTrue_left h
  rw [streamBody_eq] at hexit
  split at hexit
  · cases hexit
  · rename_i hnone
    split at hexit
    · rename_i hagain
      rcases roundAgain_cases ((streamed codec operation v).increaseDestinationBuffer d) with
        ⟨-, heq⟩ | ⟨-, heq⟩ <;> rw [heq] at hexit
      · cases hexit
      · have hincrease := Flow.exit.inj (Option.some.inj hexit)
        refine ⟨_, ⟨v, hv, rfl, hnone, hagain, fun hroom => ?_⟩, ?_⟩
        · rw [increaseDestinationBuffer, if_pos hroom] at hincrease
          cases hincrease
        · by_contra hfails
          have hpasses := Bool.eq_false_of_not_eq_true hfails
          unfold increaseDestinationBuffer resizeStringBuffer Memory.allocateArray at hincrease
          split at hincrease
          · cases hincrease
          · simp only [hpasses, Bool.not_false] at hincrease
            split at hincrease
            · rename_i hresize
              cases (Prod.mk.inj hresize).1
            · cases hincrease
            · cases hincrease
    · cases hexit

end Resizes

end Str

/-- How a function on strings comes to its loop. -/
structure StringEntry (ω ρ : Type) (getCodecOptions : Hash → Except RubyError θ) (create : σ)
    (setOptions : σ → θ → ExtResult × σ) (defaultLength : Nat) (m : Memory)
    (sourceValue options : Argument) where
  source : List UInt8
  read : StringOptions θ
  args_eq : (do
    let source ← checkString sourceValue
    let options ← getStringOptions getCodecOptions (← checkHash options)
    return (source, options) : Except RubyError _) = .ok (source, read)
  coder : Coder UInt8 σ ω ρ
  created : Memory
  coder_eq : createCoder create (setOptions · read.codec) m = (.ok coder, created)
  destinationValue : List UInt8
  /-- The memory when the loop begins. -/
  memory : Memory
  destination_eq : createStringBuffer created
    (orDefault read.destinationBufferLength defaultLength) = (some destinationValue, memory)

section StringCall

variable {getCodecOptions : Hash → Except RubyError θ} {create : σ}
  {setOptions : σ → θ → ExtResult × σ} {defaultLength : Nat} {m : Memory}
  {sourceValue options : Argument}

/-- The increment of the destination. -/
def StringEntry.length
    (p : StringEntry ω ρ getCodecOptions create setOptions defaultLength m sourceValue options) :
    Nat := orDefault p.read.destinationBufferLength defaultLength

/-- At the loop there is the instance to release. -/
theorem StringEntry.holds
    (p : StringEntry ω ρ getCodecOptions create setOptions defaultLength m sourceValue options) :
    m.Holds [p.coder.handle] p.memory := by
  have hcreated := createCoder_holds (Memory.Holds.refl m) p.coder_eq
  have hdestination := hcreated.allocateString (p.created.fresh p.length)
  have heq := p.destination_eq
  unfold createStringBuffer at heq
  unfold StringEntry.length at hdestination
  rw [heq] at hdestination
  exact hdestination

/-- How a function on strings is left after its loop. -/
def leaveString (handle : Nat) :
    Except RubyError ExtResult × Str (Coder UInt8 σ ω ρ) → Exit (List UInt8) (Coder UInt8 σ ω ρ)
  | (.error e, s) => ⟨.error e, s.memory, some s.coder⟩
  | (.ok extResult, s) =>
      { outcome :=
          if extResult ≠ .ok then
            .error (brsExtRaiseError extResult)
          else
            .ok s.destinationValue
        memory := s.memory.release handle
        coder := some s.coder }

variable {run : Bool → Nat → Coder UInt8 σ ω ρ → Memory → List UInt8 → List UInt8 →
  Option (Except RubyError ExtResult × Str (Coder UInt8 σ ω ρ))}

theorem StringEntry.stringCall
    (p : StringEntry ω ρ getCodecOptions create setOptions defaultLength m sourceValue options) :
    stringCall getCodecOptions create setOptions defaultLength run m sourceValue options =
      (run p.read.gvl p.length p.coder p.memory p.source p.destinationValue).map
        (leaveString p.coder.handle) := by
  rw [RubyBrs.stringCall, p.args_eq]
  simp only [p.coder_eq, p.destination_eq]
  rfl

/-- The call raises with everything released, or comes to its loop. -/
theorem stringCall_cases {e : Exit (List UInt8) (Coder UInt8 σ ω ρ)}
    (h : stringCall getCodecOptions create setOptions defaultLength run m sourceValue options =
      some e) :
    m.Holds [] e.memory ∨ ∃ p : StringEntry ω ρ getCodecOptions create setOptions defaultLength m
        sourceValue options, ∃ x,
      run p.read.gvl p.length p.coder p.memory p.source p.destinationValue = some x ∧
      e = leaveString p.coder.handle x := by
  have hm := Memory.Holds.refl m
  have hcall := h
  unfold stringCall at h
  split at h
  · obtain rfl := Option.some.inj h
    exact Or.inl hm
  · rename_i source read hargs
    split at h
    · rename_i hcoder
      obtain rfl := Option.some.inj h
      exact Or.inl (createCoder_failed_holds hm hcoder)
    · rename_i coder created hcoder
      have hcreated := createCoder_holds hm hcoder
      have hdestination := hcreated.allocateString
        (created.fresh (orDefault read.destinationBufferLength defaultLength))
      simp only at h
      split at h
      · rename_i hfailed
        obtain rfl := Option.some.inj h
        unfold createStringBuffer at hfailed
        rw [hfailed] at hdestination
        exact Or.inl hdestination.release_head
      · rename_i destinationValue memory hvalue
        let p : StringEntry ω ρ getCodecOptions create setOptions defaultLength m sourceValue
            options :=
          { source, read, args_eq := hargs, coder, created, coder_eq := hcoder, destinationValue,
            memory, destination_eq := hvalue }
        rw [p.stringCall] at hcall
        obtain ⟨x, hrun, rfl⟩ := Option.map_eq_some_iff.mp hcall
        exact Or.inr ⟨p, x, hrun, rfl⟩

end StringCall

/-! ### Which calls on strings release everything -/

namespace Str

variable {κ : Type} {s : Str κ}

theorem cutDestination_raised (failed : Except RubyError ExtResult)
    (hfails : s.memory.fails s.memory.next = true) :
    ∃ s', s.cutDestination failed = (.error .noMemoryError, s') := by
  unfold cutDestination resizeStringBuffer Memory.allocateArray
  rw [hfails]
  exact ⟨_, rfl⟩

theorem cutDestination_failed (failed : Except RubyError ExtResult)
    (harray : s.memory.fails s.memory.next = false)
    (hfails : s.memory.fails (s.memory.next + 1) = true) :
    ∃ s', s.cutDestination failed = (failed, s') := by
  unfold cutDestination resizeStringBuffer Memory.allocateArray brsExtResizeStringBuffer
    Memory.allocateString
  simp only [harray, Bool.not_false, hfails, if_true]
  exact ⟨_, rfl⟩

theorem cutDestination_done (failed : Except RubyError ExtResult)
    (harray : s.memory.fails s.memory.next = false)
    (hfails : s.memory.fails (s.memory.next + 1) = false) :
    ∃ s', s.cutDestination failed = (.ok .ok, s') := by
  unfold cutDestination resizeStringBuffer Memory.allocateArray brsExtResizeStringBuffer
    Memory.allocateString
  simp only [harray, Bool.not_false, hfails, Bool.false_eq_true, if_false]
  exact ⟨_, rfl⟩

end Str

section Released

variable {getCodecOptions : Hash → Except RubyError θ} {create : σ}
  {setOptions : σ → θ → ExtResult × σ} {defaultLength : Nat} {m : Memory}
  {sourceValue options : Argument} {codec : Codec UInt8 σ ω ρ} {operation : ω}
  {failure : Coder UInt8 σ ω ρ → ρ → Option ExtResult} {again : Coder UInt8 σ ω ρ → ρ → Bool}

/-- The variables at the start of the loop. -/
def StringEntry.start
    (p : StringEntry ω ρ getCodecOptions create setOptions defaultLength m sourceValue options) :
    Str (Coder UInt8 σ ω ρ) :=
  Str.enter p.coder p.memory p.source p.destinationValue p.length

/-- A result code is returned, and the caller destroys the instance. -/
theorem leaveString_holds {handle : Nat} {x : Except RubyError ExtResult × Str (Coder UInt8 σ ω ρ)}
    {extResult : ExtResult} (h : m.Holds [handle] x.2.memory) (hx : x.1 = .ok extResult) :
    m.Holds [] (leaveString handle x).memory := by
  obtain ⟨_, s⟩ := x
  obtain rfl := hx
  exact h.release_head

/-- An exception passes over that. -/
theorem leaveString_leaks {handle : Nat} {x : Except RubyError ExtResult × Str (Coder UInt8 σ ω ρ)}
    {e : RubyError} (h : m.Holds [handle] x.2.memory) (hx : x.1 = .error e) :
    ¬ m.Holds [] (leaveString handle x).memory := by
  obtain ⟨_, s⟩ := x
  obtain rfl := hx
  exact fun hnone => absurd (h.length_eq hnone) (by simp)

/-- A function on strings, whose last resize fails with `failed`, always releases
    everything exactly if the arrays for its resizes can be allocated and, where
    `failed` is an exception, the last resize succeeds. -/
theorem stringCall_holds_iff (failed : Except RubyError ExtResult)
    (hfailure : ∀ i r, failure i r ≠ some .ok) :
    (∀ fuel e, stringCall getCodecOptions create setOptions defaultLength
        (fun gvl d coder m source destinationValue =>
          (whileTrue (Str.streamBody (Str.streamWrapper codec operation) failure again gvl d) fuel
            (Str.enter coder m source destinationValue d)).map (Str.afterLoop failed))
        m sourceValue options = some e → m.Holds [] e.memory) ↔
      ∀ p : StringEntry ω ρ getCodecOptions create setOptions defaultLength m sourceValue options,
        Str.ArgumentsAllocated codec operation failure again p.read.gvl p.length p.start ∧
        ((∃ e, failed = .error e) →
          Str.LastResizeSucceeds codec operation failure again p.read.gvl p.length p.start) := by
  constructor
  -- A run that is left by an exception leaves the instance behind.
  · intro h p
    have hleft : ∀ {fuel y e}, whileTrue (Str.streamBody (Str.streamWrapper codec operation)
        failure again p.read.gvl p.length) fuel p.start = some y →
        (Str.afterLoop failed y).1 ≠ .error e := by
      intro fuel y e hloop hraised
      have hholds := Str.afterLoop_holds (Str.streamLoop_holds p.holds hloop) failed
      refine leaveString_leaks hholds hraised (h fuel _ ?_)
      rw [p.stringCall]
      exact Option.map_eq_some_iff.mpr ⟨_, Option.map_eq_some_iff.mpr ⟨y, hloop, rfl⟩, rfl⟩
    have harguments : Str.ArgumentsAllocated codec operation failure again p.read.gvl p.length
        p.start := by
      intro t ht
      by_contra hfails
      have hfails := Bool.eq_true_of_not_eq_false hfails
      rcases ht with ht | ht
      · obtain ⟨fuel, s', hloop⟩ := ht.raised hfails
        exact hleft hloop rfl
      · obtain ⟨fuel, hloop⟩ := ht.left
        obtain ⟨s', hcut⟩ := Str.cutDestination_raised failed hfails
        exact hleft hloop (by rw [Str.afterLoop_ok, hcut])
    refine ⟨harguments, ?_⟩
    rintro ⟨e, rfl⟩ t ht
    by_contra hfails
    obtain ⟨fuel, hloop⟩ := ht.left
    obtain ⟨s', hcut⟩ := Str.cutDestination_failed (.error e)
      (harguments t (Or.inr ht)) (Bool.eq_true_of_not_eq_false hfails)
    exact hleft hloop (by rw [Str.afterLoop_ok, hcut])
  -- Without an exception there is a result code.
  · intro h fuel e he
    rcases stringCall_cases he with hreleased | ⟨p, x, hrun, rfl⟩
    · exact hreleased
    · obtain ⟨⟨r, t⟩, hloop, rfl⟩ := Option.map_eq_some_iff.mp hrun
      obtain ⟨harguments, hlast⟩ := h p
      have hholds := Str.afterLoop_holds (Str.streamLoop_holds (s := p.start) p.holds hloop) failed
      suffices hcode : ∃ extResult, (Str.afterLoop failed (r, t)).1 = .ok extResult by
        obtain ⟨extResult, hcode⟩ := hcode
        exact leaveString_holds hholds hcode
      cases r with
      | error e =>
          obtain ⟨u, hu, hfails⟩ := Str.grows_of_loop hloop
          rw [harguments u (Or.inl hu)] at hfails
          cases hfails
      | ok extResult =>
          by_cases hok : extResult = .ok
          · subst hok
            have ht := Str.cuts_of_loop hloop hfailure
            have harray := harguments t (Or.inr ht)
            rw [Str.afterLoop_ok]
            cases hfails : t.memory.fails (t.memory.next + 1) with
            | false =>
                obtain ⟨s', hcut⟩ := Str.cutDestination_done failed harray hfails
                exact ⟨_, by rw [hcut]⟩
            | true =>
                obtain ⟨s', hcut⟩ := Str.cutDestination_failed failed harray hfails
                cases hfailed : failed with
                | ok extResult => exact ⟨extResult, by rw [← hfailed, hcut, hfailed]⟩
                | error e =>
                    rw [hlast ⟨e, hfailed⟩ t ht] at hfails
                    cases hfails
          · exact ⟨extResult, by rw [Str.afterLoop_of_ne _ fun h => hok (Except.ok.inj h)]⟩

end Released

section Exact

variable (enc : Encoder σ) (dec : Decoder τ) (m : Memory) (sourceValue options : Argument)

/-- Whenever `brs_ext_compress_string` resizes its destination, the array of the
    arguments can be allocated. -/
def CompressArgumentsAllocated : Prop :=
  ∀ p : StringEntry Operation Bool getCompressorOptions enc.create
      (brsExtSetCompressorOptions enc) defaultDestinationBufferLengthForCompressor m sourceValue
      options,
    Str.ArgumentsAllocated enc.toCodec .finish encoderFailure
      (fun i _ => enc.hasMoreOutput i.state || !enc.isFinished i.state) p.read.gvl p.length p.start

/-- Whenever `brs_ext_decompress_string` resizes its destination, the array of the
    arguments can be allocated, and the last time the string can be resized. -/
def DecompressResizes : Prop :=
  ∀ p : StringEntry Unit DecoderResult getDecompressorOptions dec.create
      (brsExtSetDecompressorOptions dec) defaultDestinationBufferLengthForDecompressor m
      sourceValue options,
    Str.ArgumentsAllocated dec.toCodec () (decoderFailure dec)
      (fun _ result => result == .needsMoreOutput) p.read.gvl p.length p.start ∧
    Str.LastResizeSucceeds dec.toCodec () (decoderFailure dec)
      (fun _ result => result == .needsMoreOutput) p.read.gvl p.length p.start

variable {enc dec m sourceValue options}

theorem brsExtCompressString_holds_iff :
    (∀ fuel e, brsExtCompressString enc fuel m sourceValue options = some e →
      m.Holds [] e.memory) ↔ CompressArgumentsAllocated enc m sourceValue options := by
  refine (stringCall_holds_iff (.ok .allocateFailed) ?_).trans ?_
  · intro i r heq
    cases (encoderFailure_some heq).2
  · exact forall_congr' fun p => ⟨fun h => h.1, fun h => ⟨h, fun ⟨e, he⟩ => by cases he⟩⟩

theorem brsExtDecompressString_holds_iff :
    (∀ fuel e, brsExtDecompressString dec fuel m sourceValue options = some e →
      m.Holds [] e.memory) ↔ DecompressResizes dec m sourceValue options := by
  refine (stringCall_holds_iff (.error (brsExtRaiseError .allocateFailed)) ?_).trans ?_
  · intro i r heq
    exact (brsExtGetDecompressorError_ne _).1 (decoderFailure_some heq).2.symm
  · exact forall_congr' fun p => ⟨fun h => ⟨h.1, h.2 ⟨_, rfl⟩⟩, fun h => ⟨h.1, fun _ => h.2⟩⟩

end Exact

/-- However they are left, the file functions have released everything that they
    created, and nothing twice.  The string functions have done so in every call
    exactly if no array for the arguments of a resize fails to be allocated and, for
    `brs_ext_decompress_string`, the last resize of the result succeeds. -/
theorem everything_released_iff (enc : Encoder σ) (dec : Decoder τ) (m : Memory)
    (sourceValue options : Argument) (source : FileArgument SourceFile)
    (destination : FileArgument DestinationFile) :
    ((∀ fuel e, brsExtCompressString enc fuel m sourceValue options = some e →
      m.Holds [] e.memory) ↔ CompressArgumentsAllocated enc m sourceValue options) ∧
    ((∀ fuel e, brsExtDecompressString dec fuel m sourceValue options = some e →
      m.Holds [] e.memory) ↔ DecompressResizes dec m sourceValue options) ∧
    (∀ fuel e, brsExtCompressIo enc fuel m source destination options = some e →
      m.Holds [] e.memory) ∧
    (∀ fuel e, brsExtDecompressIo dec fuel m source destination options = some e →
      m.Holds [] e.memory) := by
  refine ⟨brsExtCompressString_holds_iff, brsExtDecompressString_holds_iff, ?_, ?_⟩
  · exact fun fuel e he => ioCall_holds he
  · exact fun fuel e he => ioCall_holds he

/-- A memory in which the `n`-th allocation fails. -/
def allocationFails (n : Nat) : Memory := { Memory.unused with fails := fun k => k == n }

/-- A destination much longer than what is decompressed. -/
def wideOptions : Hash :=
  Hash.ofSymbols [("destination_buffer_length", .integer 4096), ("gvl", .false)]

/-- A stream of forty bytes, more than fit into the header of a Ruby string. -/
def fortyBlocks : List UInt8 := storedBlocks false (List.replicate 40 7) ++ storedEnd true

/-- Compressing, the array of the arguments of the last resize cannot be allocated:
    the third allocation, after those of the encoder and of the result.
    Decompressing, the result cannot be cut from 4096 bytes to 40: the fourth. -/
theorem oneShots_leak :
    (¬ ∀ e, brsExtCompressString storedEncoder 1 (allocationFails 2) (.value (.string [1, 2, 3]))
      (.hash wideOptions) = some e → (allocationFails 2).Holds [] e.memory) ∧
    ¬ ∀ e, brsExtDecompressString (formatDecoder storedFormat id) 1 (allocationFails 3)
      (.value (.string fortyBlocks)) (.hash wideOptions) = some e →
        (allocationFails 3).Holds [] e.memory := by
  constructor
  · intro h
    have hlive : (brsExtCompressString storedEncoder 1 (allocationFails 2)
        (.value (.string [1, 2, 3])) (.hash wideOptions)).map (fun e => e.memory.live) =
          some [0] := by decide
    obtain ⟨e, he, hlive⟩ := Option.map_eq_some_iff.mp hlive
    have hreleased := (h e he).live
    rw [hlive] at hreleased
    cases hreleased
  · intro h
    have hlive : (brsExtDecompressString (formatDecoder storedFormat id) 1 (allocationFails 3)
        (.value (.string fortyBlocks)) (.hash wideOptions)).map (fun e => e.memory.live) =
          some [0] := by decide +kernel
    obtain ⟨e, he, hlive⟩ := Option.map_eq_some_iff.mp hlive
    have hreleased := (h e he).live
    rw [hlive] at hreleased
    cases hreleased

end RubyBrs
