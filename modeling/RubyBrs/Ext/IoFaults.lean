/-
  RubyBrs.Ext.IoFaults

  What becomes of a read or a write that fails, whatever the codec does.

  `Noticed` says that every fault a run met is the error it ends with; each helper of
  `io.c` keeps it, so both functions do.  The codec may be such that a run does not end.
  But no read and no library call comes after a fault (`NoFault`), and with enough fuel a
  run that comes to one returns its error: `LeftAtFaults`.
-/

import RubyBrs.Ext.DriveLoops

namespace RubyBrs
namespace Io

open StreamCodec WhileTrue

variable {κ σ ω ρ : Type}

/-! ## Faults are noticed -/

/-- Of a schedule of outcomes, `before`, a run that ended with `extResult` has left
    `after`; if it met a failure, `error` is what it ended with. -/
def Noticed {ε : Type} (failed : ε → Prop) (error : ExtResult) (before after : List ε)
    (extResult : ExtResult) : Prop :=
  ∃ used, before = used ++ after ∧ ((∃ o ∈ used, failed o) → extResult = error)

section Noticed

variable {ε : Type} {failed : ε → Prop} {error extResult : ExtResult} {a b c : List ε}

theorem Noticed.refl : Noticed failed error a a extResult :=
  ⟨[], rfl, fun ⟨_, hmem, _⟩ => absurd hmem List.not_mem_nil⟩

/-- A part that ended with something else met no failure, so the rest decides. -/
theorem Noticed.trans {extResult' : ExtResult} (hne : extResult' ≠ error)
    (h : Noticed failed error a b extResult') (h' : Noticed failed error b c extResult) :
    Noticed failed error a c extResult := by
  obtain ⟨used, rfl, hused⟩ := h
  obtain ⟨used', rfl, hused'⟩ := h'
  refine ⟨used ++ used', by rw [List.append_assoc], ?_⟩
  rintro ⟨o, hmem, hfailed⟩
  rcases List.mem_append.mp hmem with hmem | hmem
  · exact absurd (hused ⟨o, hmem, hfailed⟩) hne
  · exact hused' ⟨o, hmem, hfailed⟩

/-- The end of a part without a failure may be told as anything. -/
theorem Noticed.ended {extResult' : ExtResult} (hne : extResult' ≠ error)
    (h : Noticed failed error a b extResult') : Noticed failed error a b extResult :=
  h.trans hne .refl

end Noticed

/-- Every fault between the variables `w` and the exit `x` is the error of `x`. -/
structure FaultsNoticed (w : Io κ) (x : ExtResult × Io κ) : Prop where
  reads : Noticed ReadOutcome.Fails .readIo w.sourceFile.outcomes x.2.sourceFile.outcomes x.1
  writes : Noticed WriteOutcome.Fails .writeIo w.destinationFile.outcomes
    x.2.destinationFile.outcomes x.1

namespace FaultsNoticed

variable {w w' : Io κ} {x : ExtResult × Io κ} {extResult extResult' : ExtResult} {m : Nat}

theorem refl : FaultsNoticed w (extResult, w) := ⟨.refl, .refl⟩

theorem trans (h : FaultsNoticed w (.ok, w')) (h' : FaultsNoticed w' x) : FaultsNoticed w x :=
  ⟨h.reads.trans (by simp) h'.reads, h.writes.trans (by simp) h'.writes⟩

theorem of_files (hsource : w'.sourceFile = w.sourceFile)
    (hdestination : w'.destinationFile = w.destinationFile) : FaultsNoticed w (extResult, w') := by
  refine ⟨?_, ?_⟩
  · rw [hsource]; exact .refl
  · rw [hdestination]; exact .refl

theorem ended (hread : extResult' ≠ .readIo) (hwrite : extResult' ≠ .writeIo)
    (h : FaultsNoticed w (extResult', w')) : FaultsNoticed w (extResult, w') :=
  ⟨h.reads.ended hread, h.writes.ended hwrite⟩

/-- A short read with the error flag set is not taken for the end of the file. -/
theorem readFile (f : SourceFile) {k : Nat} (hk : 0 < k) :
    Noticed ReadOutcome.Fails .readIo f.outcomes (Io.readFile f k).2.2.outcomes
      (Io.readFile f k).1 := by
  obtain ⟨used, hused, hfails⟩ := f.fread_outcomes hk
  have hfile : (Io.readFile f k).2.2 = (f.fread k).2 := by
    unfold Io.readFile
    simp only
    split
    · rfl
    · split <;> rfl
  rw [hfile]
  refine ⟨used, hused, fun hmem => ?_⟩
  obtain ⟨hshort, heof, herror⟩ := hfails hmem
  simp only [Io.readFile, heof, hshort, herror, Bool.false_eq_true, and_false, if_false, ne_eq,
    not_false_eq_true, and_self, if_true]

/-- A short write is an error. -/
theorem writeFile (f : DestinationFile) (buffer : List UInt8) (k : Nat) :
    Noticed WriteOutcome.Fails .writeIo f.outcomes (Io.writeFile f buffer k).2.outcomes
      (Io.writeFile f buffer k).1 := by
  obtain ⟨used, hused, hfails⟩ := f.fwrite_outcomes (buffer.take k)
  have hfile : (Io.writeFile f buffer k).2 = (f.fwrite (buffer.take k)).2 := by
    unfold Io.writeFile
    simp only
    split <;> rfl
  rw [hfile]
  refine ⟨used, hused, fun hmem => ?_⟩
  have hshort := hfails hmem
  rw [List.length_take] at hshort
  have hne : (f.fwrite (buffer.take k)).1 ≠ k := by omega
  simp only [Io.writeFile, ne_eq, hne, not_false_eq_true, if_true]

/-! ### The helpers -/

theorem readMoreSource_ne_writeIo (m : Nat) (w : Io κ) : (w.readMoreSource m).1 ≠ .writeIo := by
  have hread : ∀ f k, (Io.readFile f k).1 ≠ .writeIo := by
    intro f k
    unfold Io.readFile
    simp only
    split
    · simp
    · split <;> simp
  simp only [Io.readMoreSource]
  split
  · simp
  · split
    · exact hread _ _
    · simp

theorem readMoreSource (m : Nat) (w : Io κ) : FaultsNoticed w (w.readMoreSource m) := by
  have hcompact : w.compactSource.sourceFile = w.sourceFile ∧
      w.compactSource.destinationFile = w.destinationFile := by
    unfold compactSource
    split <;> exact ⟨rfl, rfl⟩
  by_cases hfull : m - w.compactSource.sourceLength = 0
  · have heq : w.readMoreSource m = (.notEnoughSourceBuffer, w.compactSource) := by
      simp only [Io.readMoreSource, hfull, if_true]
    rw [heq]
    exact .of_files hcompact.1 hcompact.2
  · have hread := readFile w.sourceFile (show 0 < m - w.compactSource.sourceLength by omega)
    have heq : (w.readMoreSource m).1 =
          (Io.readFile w.sourceFile (m - w.compactSource.sourceLength)).1 ∧
        (w.readMoreSource m).2.sourceFile =
          (Io.readFile w.sourceFile (m - w.compactSource.sourceLength)).2.2 ∧
        (w.readMoreSource m).2.destinationFile = w.destinationFile := by
      simp only [Io.readMoreSource, hfull, if_false, hcompact.1]
      split
      · exact ⟨rfl, rfl, hcompact.2⟩
      · rename_i hok
        exact ⟨(not_not.mp hok).symm, rfl, hcompact.2⟩
    refine ⟨?_, ?_⟩
    · rw [heq.1, heq.2.1]; exact hread
    · rw [heq.2.2]; exact .refl

theorem flushDestinationBuffer (w : Io κ) : FaultsNoticed w w.flushDestinationBuffer := by
  by_cases hzero : w.destinationLength = 0
  · rw [Io.flushDestinationBuffer, if_pos hzero]
    exact .refl
  · have hwrite := writeFile w.destinationFile w.destinationBuffer w.destinationLength
    have heq : w.flushDestinationBuffer.1 =
          (Io.writeFile w.destinationFile w.destinationBuffer w.destinationLength).1 ∧
        w.flushDestinationBuffer.2.destinationFile =
          (Io.writeFile w.destinationFile w.destinationBuffer w.destinationLength).2 ∧
        w.flushDestinationBuffer.2.sourceFile = w.sourceFile := by
      simp only [Io.flushDestinationBuffer, hzero, if_false]
      split
      · exact ⟨rfl, rfl, rfl⟩
      · rename_i hok
        exact ⟨(not_not.mp hok).symm, rfl, rfl⟩
    refine ⟨?_, ?_⟩
    · rw [heq.2.2]; exact .refl
    · rw [heq.1, heq.2.1]; exact hwrite

theorem writeRemainingDestination (w : Io κ) :
    FaultsNoticed w w.writeRemainingDestination := by
  by_cases hzero : w.destinationLength = 0
  · rw [Io.writeRemainingDestination, if_pos hzero]
    exact .refl
  · rw [Io.writeRemainingDestination, if_neg hzero]
    exact ⟨.refl, writeFile w.destinationFile w.destinationBuffer w.destinationLength⟩

/-! ### The loops -/

section BufferedLoop

variable {ρ : Type} {wrapper : Nat → Io κ → Io κ × Nat × ρ} {failure : κ → ρ → Option ExtResult}
  {again : κ → ρ → Bool} {gvl : Bool} {n fuel : Nat}

/-- A round of the loop around a library call touches the files by the flush alone. -/
theorem bufferedBody
    (hfiles : ∀ room w, (wrapper room w).1.sourceFile = w.sourceFile ∧
      (wrapper room w).1.destinationFile = w.destinationFile) (w : Io κ) :
    (∀ w', Io.bufferedBody wrapper failure again gvl n w = some (.next w') →
      FaultsNoticed w (.ok, w')) ∧
    (∀ x, Io.bufferedBody wrapper failure again gvl n w = some (.exit x) →
      FaultsNoticed w x) := by
  obtain ⟨hsource, hdestination⟩ := hfiles (n - w.destinationLength) w
  generalize hcall : wrapper (n - w.destinationLength) w = called at hsource hdestination
  obtain ⟨w₁, remaining, result⟩ := called
  -- The variables after the call, with the destination length updated.
  let w₂ : Io κ := { w₁ with
    destinationLength := w₁.destinationLength + (n - w.destinationLength - remaining) }
  have hcalled : FaultsNoticed w (.ok, w₂) := of_files hsource hdestination
  have hflush : FaultsNoticed w w₂.flushDestinationBuffer :=
    hcalled.trans (flushDestinationBuffer w₂)
  cases hfailure : failure w₁.coder result with
  | some extResult =>
      have hbody : Io.bufferedBody wrapper failure again gvl n w =
          some (.exit (extResult, w₁)) := by
        simp only [Io.bufferedBody, gvlWrap_eq, hcall, hfailure]
      rw [hbody]
      refine ⟨fun w' h => (by cases h), fun x h => ?_⟩
      obtain rfl : (extResult, w₁) = x := by simpa using h
      exact .of_files hsource hdestination
  | none =>
      have hbody : Io.bufferedBody wrapper failure again gvl n w =
          if again w₂.coder result then
            if w₂.flushDestinationBuffer.1 ≠ .ok then
              some (.exit w₂.flushDestinationBuffer)
            else
              some (.next w₂.flushDestinationBuffer.2)
          else
            some (.exit (.ok, w₂)) := by
        simp only [Io.bufferedBody, gvlWrap_eq, hcall, hfailure]
        rfl
      rw [hbody]
      by_cases hagain : again w₂.coder result = true
      · simp only [if_pos hagain]
        by_cases hok : w₂.flushDestinationBuffer.1 = .ok
        · rw [if_neg (not_not.mpr hok)]
          refine ⟨fun w' h => ?_, fun x h => by cases h⟩
          obtain rfl : w₂.flushDestinationBuffer.2 = w' := by simpa using h
          rw [← hok]
          exact hflush
        · rw [if_pos hok]
          refine ⟨fun w' h => (by cases h), fun x h => ?_⟩
          obtain rfl : w₂.flushDestinationBuffer = x := by simpa using h
          exact hflush
      · simp only [if_neg hagain]
        refine ⟨fun w' h => (by cases h), fun x h => ?_⟩
        obtain rfl : (.ok, w₂) = x := by simpa using h
        exact hcalled

theorem bufferedLoop
    (hfiles : ∀ room w, (wrapper room w).1.sourceFile = w.sourceFile ∧
      (wrapper room w).1.destinationFile = w.destinationFile)
    (h : whileTrue (Io.bufferedBody wrapper failure again gvl n) fuel w = some x) :
    FaultsNoticed w x := by
  refine whileTrue_invariant (I := fun v => FaultsNoticed w (.ok, v)) ?_ ?_ .refl h
  · intro v v' hv hbody
    exact hv.trans ((bufferedBody hfiles v).1 v' hbody)
  · intro v x hv hbody
    exact hv.trans ((bufferedBody hfiles v).2 x hbody)

end BufferedLoop

theorem bufferedReadSource {function : Io κ → Option (ExtResult × Io κ)} {m fuel : Nat}
    (hfunction : ∀ w x, function w = some x → FaultsNoticed w x)
    (h : Io.bufferedReadSource function m fuel w = some x) : FaultsNoticed w x := by
  -- What a read returned, when it is not an error of the file, is forgotten.
  have hread : ∀ {v extResult}, FaultsNoticed w (.ok, v) →
      (v.readMoreSource m).1 ≠ .readIo → FaultsNoticed w (extResult, (v.readMoreSource m).2) := by
    intro v extResult hv hio
    refine hv.trans (ended hio ?_ (readMoreSource m v))
    exact readMoreSource_ne_writeIo m v
  refine bufferedReadSource_partial (m := m) (I := fun _ v => FaultsNoticed w (.ok, v))
    (J := fun v => FaultsNoticed w (.ok, v)) (Q := FaultsNoticed w) ?_ ?_ ?_ ?_ ?_ ?_ ?_ .refl h
  · intro called v hv hr
    exact hread hv (by rw [hr]; decide)
  · intro v v' hv hf
    exact hv.trans (hfunction v _ hf)
  · intro v extResult v' hv hf _
    exact hv.trans (hfunction v _ hf)
  · intro called v hv hr _
    exact hread hv (by rw [hr]; decide)
  · intro v hv hr _
    exact hread hv (by rw [hr]; decide)
  · intro v y hv hr _ hf
    exact (hread hv (by rw [hr]; decide)).trans (hfunction _ _ hf)
  · intro called v hv _ _
    exact hv.trans (readMoreSource m v)

theorem compress {enc : Encoder σ} {gvl : Bool} {m n fuel : Nat} {coder : EncoderInstance σ}
    {sourceFile : SourceFile} {sourceBuffer : List UInt8} {destinationFile : DestinationFile}
    {destinationBuffer : List UInt8} {x : ExtResult × Io (EncoderInstance σ)}
    (h : Io.compress enc gvl m n fuel coder sourceFile sourceBuffer destinationFile
      destinationBuffer = some x) :
    FaultsNoticed
      { coder, sourceFile, sourceBuffer, source := 0, sourceLength := 0, destinationFile,
        destinationBuffer, destinationLength := 0 } x := by
  obtain ⟨⟨extResult, w₁⟩, hloop, hx⟩ := Option.bind_eq_some_iff.mp h
  have hnoticed := bufferedReadSource
    (fun _ _ hf => bufferedLoop (fun _ _ => ⟨rfl, rfl⟩) hf) hloop
  by_cases hok : extResult = .ok
  · simp only [hok, ne_eq, not_true_eq_false, if_false] at hx
    obtain ⟨⟨extResult', w₂⟩, hfinish, hx⟩ := Option.map_eq_some_iff.mp hx
    have hfinished := bufferedLoop (fun _ _ => ⟨rfl, rfl⟩) hfinish
    rw [hok] at hnoticed
    by_cases hok' : extResult' = .ok
    · simp only [hok', not_true_eq_false, if_false] at hx
      rw [hok'] at hfinished
      rw [← hx]
      exact (hnoticed.trans hfinished).trans (writeRemainingDestination w₂)
    · simp only [hok', not_false_eq_true, if_true] at hx
      rw [← hx]
      exact hnoticed.trans hfinished
  · simp only [ne_eq, hok, not_false_eq_true, if_true, Option.some.injEq] at hx
    rw [← hx]
    exact hnoticed

theorem decompress {dec : Decoder σ} {gvl : Bool} {m n fuel : Nat} {coder : DecoderInstance σ}
    {sourceFile : SourceFile} {sourceBuffer : List UInt8} {destinationFile : DestinationFile}
    {destinationBuffer : List UInt8} {x : ExtResult × Io (DecoderInstance σ)}
    (h : Io.decompress dec gvl m n fuel coder sourceFile sourceBuffer destinationFile
      destinationBuffer = some x) :
    FaultsNoticed
      { coder, sourceFile, sourceBuffer, source := 0, sourceLength := 0, destinationFile,
        destinationBuffer, destinationLength := 0 } x := by
  obtain ⟨⟨extResult, w₁⟩, hloop, hx⟩ := Option.map_eq_some_iff.mp h
  have hnoticed := bufferedReadSource
    (fun _ _ hf => bufferedLoop (fun _ _ => ⟨rfl, rfl⟩) hf) hloop
  by_cases hok : extResult = .ok
  · simp only [hok, ne_eq, not_true_eq_false, if_false] at hx
    rw [hok] at hnoticed
    rw [← hx]
    exact hnoticed.trans (writeRemainingDestination w₁)
  · simp only [ne_eq, hok, not_false_eq_true, if_true] at hx
    rw [← hx]
    exact hnoticed

end FaultsNoticed

/-! ## No step follows a fault -/

/-- Between the variables `w` and `v` no read and no write has failed. -/
structure NoFault (w v : Io κ) : Prop where
  reads : ∃ used, w.sourceFile.outcomes = used ++ v.sourceFile.outcomes ∧ ∀ o ∈ used, ¬ o.Fails
  writes : ∃ used, w.destinationFile.outcomes = used ++ v.destinationFile.outcomes ∧
    ∀ o ∈ used, ¬ o.Fails

/-- A schedule that was `before` is `after` now, and a failure was met in between. -/
def Met {ε : Type} (failed : ε → Prop) (before after : List ε) : Prop :=
  ∃ used, before = used ++ after ∧ ∃ o ∈ used, failed o

theorem Noticed.of_met {ε : Type} {failed : ε → Prop} {error extResult : ExtResult}
    {before after : List ε} (h : Noticed failed error before after extResult)
    (hmet : Met failed before after) : extResult = error := by
  obtain ⟨used, hused, hnoticed⟩ := h
  obtain ⟨used', rfl, hfailed⟩ := hmet
  obtain rfl : used' = used := List.append_cancel_right hused
  exact hnoticed hfailed

/-- As long as a function goes on, it has met no fault. -/
theorem FaultsNoticed.noFault {w v : Io κ} (h : FaultsNoticed w (.ok, v)) : NoFault w v := by
  obtain ⟨⟨reads, hreads, hread⟩, ⟨writes, hwrites, hwrite⟩⟩ := h
  refine ⟨⟨reads, hreads, fun o hmem hfails => ?_⟩, ⟨writes, hwrites, fun o hmem hfails => ?_⟩⟩
  · cases hread ⟨o, hmem, hfails⟩
  · cases hwrite ⟨o, hmem, hfails⟩

section Going

variable {function : Io κ → Option (ExtResult × Io κ)} {m fuel : Nat} {called₀ called : Bool}
  {w₀ w : Io κ}

theorem FaultsNoticed.sourceReached
    (hfunction : ∀ w x, function w = some x → FaultsNoticed w x)
    (h : Reaches (bufferedReadSourceBody function m) (called₀, w₀) (called, w)) :
    FaultsNoticed w₀ (.ok, w) := by
  refine h.invariant (I := fun s => FaultsNoticed w₀ (.ok, s.2)) ?_ .refl
  rintro ⟨called, v⟩ ⟨called', v'⟩ hv hbody
  cases bufferedReadSourceBody_round hbody with
  | next hr hf =>
      have hread : FaultsNoticed v (.ok, (v.readMoreSource m).2) := by
        rw [← hr]
        exact .readMoreSource m v
      exact (hv.trans hread).trans (hfunction _ _ hf)

theorem FaultsNoticed.functionCall
    (hfunction : ∀ w x, function w = some x → FaultsNoticed w x)
    (h : FunctionCall function m (called₀, w₀) w) : FaultsNoticed w₀ (.ok, w) := by
  have hread : ∀ {v : Io κ}, FaultsNoticed w₀ (.ok, v) → (v.readMoreSource m).1 ≠ .readIo →
      FaultsNoticed w₀ (.ok, (v.readMoreSource m).2) := by
    intro v hv hio
    exact hv.trans (.ended hio (readMoreSource_ne_writeIo m v) (.readMoreSource m v))
  cases h with
  | read h hr => exact hread (.sourceReached hfunction h) (by rw [hr]; decide)
  | once h hr _ => exact hread (.sourceReached hfunction h) (by rw [hr]; decide)

end Going

section Calls

variable {wrapper : Nat → Io κ → Io κ × Nat × ρ} {failure : κ → ρ → Option ExtResult}
  {again : κ → ρ → Bool} {gvl : Bool} {m n fuel : Nat} {called₀ : Bool} {w₀ w v : Io κ}
  (hfiles : ∀ room w, (wrapper room w).1.sourceFile = w.sourceFile ∧
    (wrapper room w).1.destinationFile = w.destinationFile)

include hfiles

theorem FaultsNoticed.reached (hw : FaultsNoticed w₀ (.ok, w))
    (h : Reaches (Io.bufferedBody wrapper failure again gvl n) w v) :
    FaultsNoticed w₀ (.ok, v) := by
  refine h.invariant (I := fun v => FaultsNoticed w₀ (.ok, v)) ?_ hw
  intro v v' hv hbody
  exact hv.trans ((FaultsNoticed.bufferedBody hfiles v).1 v' hbody)

theorem FaultsNoticed.bufferedCall
    (h : BufferedCall (Io.bufferedBody wrapper failure again gvl n) m fuel (called₀, w₀) v) :
    FaultsNoticed w₀ (.ok, v) := by
  obtain ⟨w, hfunction, hcall⟩ := h
  exact .reached hfiles
    (.functionCall (fun _ _ hf => FaultsNoticed.bufferedLoop hfiles hf) hfunction) hcall

end Calls

/-! ## With enough fuel -/

section Fuel

variable {function function' : Io κ → Option (ExtResult × Io κ)} {m fuel fuel' : Nat}
  {w₀ w : Io κ} {x : ExtResult × Io κ}

theorem bufferedReadSourceBody_mono (hfunction : ∀ w x, function w = some x → function' w = some x)
    (s : Bool × Io κ) (flow : Flow (Bool × Io κ) (ExtResult × Bool × Io κ))
    (h : bufferedReadSourceBody function m s = some flow) :
    bufferedReadSourceBody function' m s = some flow := by
  obtain ⟨called, w⟩ := s
  cases bufferedReadSourceBody_round h with
  | ended hr hrest => simp [bufferedReadSourceBody, hr, hrest]
  | remainder hr hrest => simp [bufferedReadSourceBody, hr, hrest]
  | readFailed hok hend => simp [bufferedReadSourceBody, hok, hend]
  | failed hr hf hne => simp [bufferedReadSourceBody, hr, hfunction _ _ hf, hne]
  | next hr hf => simp [bufferedReadSourceBody, hr, hfunction _ _ hf]

theorem bufferedReadSource_mono (hfunction : ∀ w x, function w = some x → function' w = some x)
    (hle : fuel ≤ fuel') (h : bufferedReadSource function m fuel w = some x) :
    bufferedReadSource function' m fuel' w = some x := by
  obtain ⟨⟨extResult, called, w₁⟩, hloop, hx⟩ := Option.bind_eq_some_iff.mp h
  refine Option.bind_eq_some_iff.mpr
    ⟨_, whileTrue_mono (bufferedReadSourceBody_mono hfunction) hle hloop, ?_⟩
  by_cases hok : extResult = .ok
  · subst hok
    cases called with
    | true => exact hx
    | false => exact hfunction _ _ hx
  · simpa [hok] using hx

/-- An error with which the loop is left is returned. -/
theorem bufferedReadSource_of_exit {s : Bool × Io κ} {called : Bool} {extResult : ExtResult}
    (h : Reaches (bufferedReadSourceBody function m) (false, w₀) s)
    (hexit : bufferedReadSourceBody function m s = some (.exit (extResult, called, w)))
    (hne : extResult ≠ .ok) :
    ∃ fuel, bufferedReadSource function m fuel w₀ = some (extResult, w) := by
  obtain ⟨fuel, hloop⟩ := h.returns (whileTrue_exit hexit 0)
  refine ⟨fuel, Option.bind_eq_some_iff.mpr ⟨_, hloop, ?_⟩⟩
  simp only [ne_eq, hne, not_false_eq_true, if_true]

theorem FunctionCall.mono (hfunction : ∀ w x, function w = some x → function' w = some x)
    {s : Bool × Io κ} (h : FunctionCall function m s w) : FunctionCall function' m s w := by
  cases h with
  | read h hr => exact .read (h.mono (bufferedReadSourceBody_mono hfunction)) hr
  | once h hr hempty => exact .once (h.mono (bufferedReadSourceBody_mono hfunction)) hr hempty

theorem FunctionCall.returns (h : FunctionCall function m (false, w₀) w)
    (hf : function w = some x) (hne : x.1 ≠ .ok) :
    ∃ fuel, bufferedReadSource function m fuel w₀ = some x := by
  cases h with
  | @read called v h hr =>
      have hexit : bufferedReadSourceBody function m (called, v) =
          some (.exit (x.1, called, x.2)) := by
        simp [bufferedReadSourceBody, hr, hf, hne]
      exact bufferedReadSource_of_exit h hexit hne
  | @once v h hr hempty =>
      have hexit : bufferedReadSourceBody function m (false, v) =
          some (.exit (.ok, false, (v.readMoreSource m).2)) := by
        simp [bufferedReadSourceBody, hr, hempty]
      obtain ⟨fuel, hloop⟩ := h.returns (whileTrue_exit hexit 0)
      exact ⟨fuel, Option.bind_eq_some_iff.mpr ⟨_, hloop, by simpa using hf⟩⟩

/-- An error that a loop around a call is left with is returned by the loop that reads the
    source, with enough fuel for both. -/
theorem BufferedCall.returns {body : Io κ → Option (Flow (Io κ) (ExtResult × Io κ))} {v : Io κ}
    (h : BufferedCall body m fuel (false, w₀) v) (hexit : body v = some (.exit x))
    (hne : x.1 ≠ .ok) :
    ∃ fuel, bufferedReadSource (whileTrue body fuel) m fuel w₀ = some x := by
  obtain ⟨w, hfunction, hcall⟩ := h
  obtain ⟨k, hk⟩ := hcall.returns (whileTrue_exit hexit 0)
  have hmono : ∀ {i j}, i ≤ j → ∀ w x, whileTrue body i w = some x → whileTrue body j w = some x :=
    fun hle _ _ => whileTrue_mono (fun _ _ => id) hle
  obtain ⟨k', hread⟩ := (hfunction.mono (hmono (le_max_left fuel k))).returns
    (hmono (le_max_right fuel k) _ _ hk) hne
  exact ⟨max (max fuel k) k', bufferedReadSource_mono (hmono (le_max_left _ _))
    (le_max_right _ _) hread⟩

end Fuel

/-! ## The two functions -/

/-- With enough fuel a run returns the error. -/
def Returns (run : Nat → Option (ExtResult × Io κ)) (extResult : ExtResult) : Prop :=
  ∃ enough, ∀ fuel, enough ≤ fuel → ∃ x, run fuel = some x ∧ x.1 = extResult

/-- What becomes of faults in a run from the variables `w₀`, whether it ends or not.
    `Reads` and `Calls` are the variables with which it reads and calls the library, the
    latter in a loop with the given body. -/
structure LeftAtFaults {ι : Type} (m : Nat) (w₀ : Io κ) (Reads : Io κ → Prop)
    (Calls : ι → Io κ → Prop) (body : ι → Io κ → Option (Flow (Io κ) (ExtResult × Io κ)))
    (run : Nat → Option (ExtResult × Io κ)) : Prop where
  /-- Nothing is read after a fault. -/
  reads : ∀ w, Reads w → NoFault w₀ w
  /-- The library is not called after a fault. -/
  calls : ∀ operation v, Calls operation v → NoFault w₀ v
  readFailed : ∀ w, Reads w → Met ReadOutcome.Fails w.sourceFile.outcomes
      (w.readMoreSource m).2.sourceFile.outcomes → Returns run .readIo
  /-- A write that fails after a call leaves the loop around it. -/
  writeFailed : ∀ operation v x, Calls operation v → body operation v = some (.exit x) →
    Met WriteOutcome.Fails v.destinationFile.outcomes x.2.destinationFile.outcomes →
    Returns run .writeIo

/-- A read that failed leaves the loop around it. -/
theorem readMoreSource_failed {function : Io κ → Option (ExtResult × Io κ)} {m : Nat} {w₀ w : Io κ}
    {called : Bool} (h : Reaches (bufferedReadSourceBody function m) (false, w₀) (called, w))
    (hmet : Met ReadOutcome.Fails w.sourceFile.outcomes
      (w.readMoreSource m).2.sourceFile.outcomes) :
    ∃ fuel w', bufferedReadSource function m fuel w₀ = some (.readIo, w') := by
  have hr : (w.readMoreSource m).1 = .readIo := (FaultsNoticed.readMoreSource m w).reads.of_met hmet
  have hexit : bufferedReadSourceBody function m (called, w) =
      some (.exit (.readIo, called, (w.readMoreSource m).2)) := by
    simp [bufferedReadSourceBody, hr]
  obtain ⟨fuel, hread⟩ := bufferedReadSource_of_exit h hexit (by decide)
  exact ⟨fuel, _, hread⟩

section Compress

variable {enc : Encoder σ} {gvl : Bool} {m n fuel : Nat} {coder : EncoderInstance σ}
  {sourceFile : SourceFile} {sourceBuffer : List UInt8} {destinationFile : DestinationFile}
  {destinationBuffer : List UInt8} {v : Io (EncoderInstance σ)}
  {x : ExtResult × Io (EncoderInstance σ)}

theorem bufferedCompress_mono {fuel' : Nat} (hle : fuel ≤ fuel') (w : Io (EncoderInstance σ))
    (x : ExtResult × Io (EncoderInstance σ)) (h : bufferedCompress enc gvl n fuel w = some x) :
    bufferedCompress enc gvl n fuel' w = some x :=
  whileTrue_mono (fun _ _ => id) hle h

/-- An error of the loop that reads the source is returned by `compress`. -/
theorem compress_of_read
    (h : bufferedReadSource (bufferedCompress enc gvl n fuel) m fuel
      (enter coder sourceFile sourceBuffer destinationFile destinationBuffer) = some x)
    (hne : x.1 ≠ .ok) :
    Returns (fun fuel => compress enc gvl m n fuel coder sourceFile sourceBuffer destinationFile
      destinationBuffer) x.1 := by
  refine ⟨fuel, fun fuel' hle => ⟨x, Option.bind_eq_some_iff.mpr ⟨x, ?_, ?_⟩, rfl⟩⟩
  · exact bufferedReadSource_mono (bufferedCompress_mono hle) hle h
  · simp only [ne_eq, hne, not_false_eq_true, if_true]

/-- So is one that a loop around a call is left with. -/
theorem CompressCall.returns {operation : Operation}
    (hcall : CompressCall enc gvl m n fuel
      (enter coder sourceFile sourceBuffer destinationFile destinationBuffer) operation v)
    (hexit : compressLoopBody enc gvl n operation v = some (.exit x)) (hne : x.1 ≠ .ok) :
    Returns (fun fuel => compress enc gvl m n fuel coder sourceFile sourceBuffer destinationFile
      destinationBuffer) x.1 := by
  cases hcall with
  | process hcall =>
      obtain ⟨k, hread⟩ := hcall.returns hexit hne
      exact compress_of_read hread hne
  | @finish w _ hread hcall =>
      obtain ⟨k, hfinish⟩ := hcall.returns (whileTrue_exit hexit 0)
      refine ⟨max fuel k, fun fuel' hle => ⟨x, ?_, rfl⟩⟩
      have hread' : bufferedReadSource (bufferedCompress enc gvl n fuel') m fuel'
          (enter coder sourceFile sourceBuffer destinationFile destinationBuffer) =
            some (.ok, w) :=
        bufferedReadSource_mono (bufferedCompress_mono (by omega)) (by omega) hread
      have hfinish' : bufferedCompressorFinish enc gvl n fuel' w = some x :=
        whileTrue_mono (fun _ _ => id) (by omega) hfinish
      refine Option.bind_eq_some_iff.mpr ⟨_, hread', ?_⟩
      simp only [ne_eq, not_true_eq_false, if_false, hfinish', Option.map_some, hne,
        not_false_eq_true, if_true]

theorem FaultsNoticed.compressLoopBody {operation : Operation}
    (h : Io.compressLoopBody enc gvl n operation v = some (.exit x)) : FaultsNoticed v x := by
  have hcompress : ∀ room (w : Io (EncoderInstance σ)),
      (compressWrapper enc room w).1.sourceFile = w.sourceFile ∧
        (compressWrapper enc room w).1.destinationFile = w.destinationFile :=
    fun _ _ => ⟨rfl, rfl⟩
  have hfinish : ∀ room (w : Io (EncoderInstance σ)),
      (compressorFinishWrapper enc room w).1.sourceFile = w.sourceFile ∧
        (compressorFinishWrapper enc room w).1.destinationFile = w.destinationFile :=
    fun _ _ => ⟨rfl, rfl⟩
  cases operation with
  | finish =>
      change bufferedCompressorFinishBody enc gvl n v = some (.exit x) at h
      exact (FaultsNoticed.bufferedBody hfinish v).2 x h
  | process =>
      change bufferedCompressBody enc gvl n v = some (.exit x) at h
      exact (FaultsNoticed.bufferedBody hcompress v).2 x h
  | flush =>
      change bufferedCompressBody enc gvl n v = some (.exit x) at h
      exact (FaultsNoticed.bufferedBody hcompress v).2 x h

theorem FaultsNoticed.compressCall {w₀ : Io (EncoderInstance σ)} {operation : Operation}
    (hcall : CompressCall enc gvl m n fuel w₀ operation v) : FaultsNoticed w₀ (.ok, v) := by
  cases hcall with
  | process hcall => exact .bufferedCall (fun _ _ => ⟨rfl, rfl⟩) hcall
  | finish hread hcall =>
      have hfinished := FaultsNoticed.bufferedReadSource
        (fun _ _ hf => FaultsNoticed.bufferedLoop (fun _ _ => ⟨rfl, rfl⟩) hf) hread
      exact .reached (fun _ _ => ⟨rfl, rfl⟩) hfinished hcall

variable (enc gvl coder sourceFile sourceBuffer destinationFile destinationBuffer) in
/-- `compress` is left at the first read or write that fails, with its error. -/
def CompressLeftAtFaults : Prop :=
  LeftAtFaults sourceBuffer.length
    (enter coder sourceFile sourceBuffer destinationFile destinationBuffer)
    (fun w => ∃ fuel called, Reaches
      (bufferedReadSourceBody (bufferedCompress enc gvl destinationBuffer.length fuel)
        sourceBuffer.length)
      (false, enter coder sourceFile sourceBuffer destinationFile destinationBuffer) (called, w))
    (fun operation v => ∃ fuel, CompressCall enc gvl sourceBuffer.length
      destinationBuffer.length fuel
      (enter coder sourceFile sourceBuffer destinationFile destinationBuffer) operation v)
    (Io.compressLoopBody enc gvl destinationBuffer.length)
    (fun fuel => compress enc gvl sourceBuffer.length destinationBuffer.length fuel coder
      sourceFile sourceBuffer destinationFile destinationBuffer)

theorem compress_leftAtFaults : CompressLeftAtFaults enc gvl coder sourceFile sourceBuffer
    destinationFile destinationBuffer where
  reads w := by
    rintro ⟨fuel, called, h⟩
    exact (FaultsNoticed.sourceReached
      (fun _ _ hf => FaultsNoticed.bufferedLoop (fun _ _ => ⟨rfl, rfl⟩) hf) h).noFault
  calls operation v := by
    rintro ⟨fuel, hcall⟩
    exact (FaultsNoticed.compressCall hcall).noFault
  readFailed w := by
    rintro ⟨fuel, called, h⟩ hmet
    obtain ⟨k, w', hread⟩ := readMoreSource_failed h hmet
    have hread' : bufferedReadSource (bufferedCompress enc gvl destinationBuffer.length
        (max fuel k)) sourceBuffer.length (max fuel k)
        (enter coder sourceFile sourceBuffer destinationFile destinationBuffer) =
          some (.readIo, w') :=
      bufferedReadSource_mono (bufferedCompress_mono (le_max_left _ _)) (le_max_right _ _) hread
    exact compress_of_read hread' (by simp)
  writeFailed operation v x := by
    rintro ⟨fuel, hcall⟩ hexit hmet
    have hwrite : x.1 = .writeIo :=
      (FaultsNoticed.compressLoopBody hexit).writes.of_met hmet
    have hreturns := hcall.returns hexit (by rw [hwrite]; decide)
    rw [hwrite] at hreturns
    exact hreturns

end Compress

section Decompress

variable {dec : Decoder σ} {gvl : Bool} {m n fuel : Nat} {coder : DecoderInstance σ}
  {sourceFile : SourceFile} {sourceBuffer : List UInt8} {destinationFile : DestinationFile}
  {destinationBuffer : List UInt8} {v : Io (DecoderInstance σ)}
  {x : ExtResult × Io (DecoderInstance σ)}

theorem bufferedDecompress_mono {fuel' : Nat} (hle : fuel ≤ fuel') (w : Io (DecoderInstance σ))
    (x : ExtResult × Io (DecoderInstance σ)) (h : bufferedDecompress dec gvl n fuel w = some x) :
    bufferedDecompress dec gvl n fuel' w = some x :=
  whileTrue_mono (fun _ _ => id) hle h

theorem decompress_of_read
    (h : bufferedReadSource (bufferedDecompress dec gvl n fuel) m fuel
      (enter coder sourceFile sourceBuffer destinationFile destinationBuffer) = some x)
    (hne : x.1 ≠ .ok) :
    Returns (fun fuel => decompress dec gvl m n fuel coder sourceFile sourceBuffer
      destinationFile destinationBuffer) x.1 := by
  refine ⟨fuel, fun fuel' hle => ⟨x, Option.map_eq_some_iff.mpr ⟨x, ?_, ?_⟩, rfl⟩⟩
  · exact bufferedReadSource_mono (bufferedDecompress_mono hle) hle h
  · simp only [ne_eq, hne, not_false_eq_true, if_true]

theorem FaultsNoticed.decompressBody (h : bufferedDecompressBody dec gvl n v = some (.exit x)) :
    FaultsNoticed v x := by
  have hfiles : ∀ room (w : Io (DecoderInstance σ)),
      (decompressWrapper dec room w).1.sourceFile = w.sourceFile ∧
        (decompressWrapper dec room w).1.destinationFile = w.destinationFile :=
    fun _ _ => ⟨rfl, rfl⟩
  exact (FaultsNoticed.bufferedBody hfiles v).2 x h

variable (dec gvl coder sourceFile sourceBuffer destinationFile destinationBuffer) in
/-- `decompress` is left at the first read or write that fails, with its error. -/
def DecompressLeftAtFaults : Prop :=
  LeftAtFaults sourceBuffer.length
    (enter coder sourceFile sourceBuffer destinationFile destinationBuffer)
    (fun w => ∃ fuel called, Reaches
      (bufferedReadSourceBody (bufferedDecompress dec gvl destinationBuffer.length fuel)
        sourceBuffer.length)
      (false, enter coder sourceFile sourceBuffer destinationFile destinationBuffer) (called, w))
    (fun (_ : Unit) v => ∃ fuel, DecompressCall dec gvl sourceBuffer.length
      destinationBuffer.length fuel
      (enter coder sourceFile sourceBuffer destinationFile destinationBuffer) v)
    (fun _ => bufferedDecompressBody dec gvl destinationBuffer.length)
    (fun fuel => decompress dec gvl sourceBuffer.length destinationBuffer.length fuel coder
      sourceFile sourceBuffer destinationFile destinationBuffer)

theorem decompress_leftAtFaults : DecompressLeftAtFaults dec gvl coder sourceFile sourceBuffer
    destinationFile destinationBuffer where
  reads w := by
    rintro ⟨fuel, called, h⟩
    exact (FaultsNoticed.sourceReached
      (fun _ _ hf => FaultsNoticed.bufferedLoop (fun _ _ => ⟨rfl, rfl⟩) hf) h).noFault
  calls _ v := by
    rintro ⟨fuel, hcall⟩
    exact (FaultsNoticed.bufferedCall (fun _ _ => ⟨rfl, rfl⟩) hcall).noFault
  readFailed w := by
    rintro ⟨fuel, called, h⟩ hmet
    obtain ⟨k, w', hread⟩ := readMoreSource_failed h hmet
    have hread' : bufferedReadSource (bufferedDecompress dec gvl destinationBuffer.length
        (max fuel k)) sourceBuffer.length (max fuel k)
        (enter coder sourceFile sourceBuffer destinationFile destinationBuffer) =
          some (.readIo, w') :=
      bufferedReadSource_mono (bufferedDecompress_mono (le_max_left _ _)) (le_max_right _ _) hread
    exact decompress_of_read hread' (by simp)
  writeFailed _ v x := by
    rintro ⟨fuel, hcall⟩ hexit hmet
    have hwrite : x.1 = .writeIo := (FaultsNoticed.decompressBody hexit).writes.of_met hmet
    have hne : x.1 ≠ .ok := by
      rw [hwrite]
      decide
    obtain ⟨k, hread⟩ := BufferedCall.returns hcall hexit hne
    have hreturns := decompress_of_read hread hne
    rw [hwrite] at hreturns
    exact hreturns

end Decompress

end Io
end RubyBrs
