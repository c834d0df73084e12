/-
  RubyBrs.Ext.Stdio

  The C standard library's files, as `io.c` uses them.

  A source file is what is left to read of it, its two flags, and a schedule of
  the failures to come.  A destination file is a device behind a user-space
  buffer: `fwrite` puts bytes in the buffer and may drain any number of them to
  the device, `fflush` drains all of them, and any drain may fail, which the
  call that made it reports.  A schedule that has run out means no more
  failures.
-/

import Mathlib.Data.List.Basic

namespace RubyBrs

/-! ## Reading -/

/-- What the environment has in store for one `fread`. -/
inductive ReadOutcome where
  | success
  /-- The read fails after this many bytes. -/
  | failure (after : Nat)
deriving Repr, DecidableEq

/-- The read is due to fail. -/
def ReadOutcome.Fails (o : ReadOutcome) : Prop := ∃ after, o = .failure after

/-- An open source file. The end-of-file flag is only ever set at the end. -/
structure SourceFile where
  unread : List UInt8
  eof : Bool
  error : Bool
  outcomes : List ReadOutcome
  eof_atEnd : eof = true → unread = []

namespace SourceFile

/-- A file that has just been opened. -/
def opened (content : List UInt8) (outcomes : List ReadOutcome) : SourceFile :=
  ⟨content, false, false, outcomes, fun h => Bool.noConfusion h⟩

/-- No read fails. -/
def Faultless (f : SourceFile) : Prop :=
  f.error = false ∧ ∀ o ∈ f.outcomes, o = .success

theorem opened_faultless (content : List UInt8) : (opened content []).Faultless :=
  ⟨rfl, fun _ h => absurd h List.not_mem_nil⟩

/-- `fread(_, 1, n, f)`: the bytes read, and the file afterwards.  The
    end-of-file flag is sticky. -/
def fread (f : SourceFile) (n : Nat) : List UInt8 × SourceFile :=
  if n = 0 then
    ([], f)
  else if f.eof then
    ([], f)
  else
    match f.outcomes with
    | .failure after :: rest =>
        -- A failed read is short; it does not come to the end of the file.
        let bytes := f.unread.take (min after (n - 1))
        (bytes,
          { unread := f.unread.drop (min after (n - 1)), eof := false, error := true,
            outcomes := rest, eof_atEnd := fun h => Bool.noConfusion h })
    | outcomes =>
        (f.unread.take n,
          { unread := f.unread.drop n, eof := decide (f.unread.length < n), error := f.error,
            outcomes := outcomes.tail,
            eof_atEnd := fun h => List.drop_eq_nil_of_le
              (Nat.le_of_lt (of_decide_eq_true h)) })

/-- The three things a read of a non-zero size can do. -/
theorem fread_cases (f : SourceFile) {n : Nat} (hn : 0 < n) :
    (f.eof = true ∧ f.fread n = ([], f)) ∨
    (f.eof = false ∧ (f.fread n).1.length < n ∧ (f.fread n).2.eof = false ∧
      (f.fread n).2.error = true ∧ (∃ after, .failure after ∈ f.outcomes) ∧
      (f.fread n).1 ++ (f.fread n).2.unread = f.unread) ∨
    (f.eof = false ∧ (f.fread n).1 = f.unread.take n ∧
      (f.fread n).2.unread = f.unread.drop n ∧
      (f.fread n).2.eof = decide (f.unread.length < n) ∧
      (f.fread n).2.error = f.error ∧ (f.fread n).2.outcomes = f.outcomes.tail) := by
  have hn0 : n ≠ 0 := by omega
  by_cases heof : f.eof = true
  · exact Or.inl ⟨heof, by simp [fread, hn0, heof]⟩
  · have heof' : f.eof = false := by simpa using heof
    right
    cases ho : f.outcomes with
    | nil => right; simp [fread, hn0, heof', ho]
    | cons o rest =>
        cases o with
        | success => right; simp [fread, hn0, heof', ho]
        | failure after =>
            left
            simp only [fread, hn0, heof', ho, if_false, Bool.false_eq_true,
              List.take_append_drop, List.length_take, true_and, and_true]
            exact ⟨by omega, after, List.mem_cons_self ..⟩

/-- What was read and what is left make up what was there. -/
theorem fread_unread (f : SourceFile) (n : Nat) :
    (f.fread n).1 ++ (f.fread n).2.unread = f.unread := by
  rcases Nat.eq_zero_or_pos n with rfl | hn
  · simp [fread]
  · rcases f.fread_cases hn with ⟨_, h⟩ | ⟨_, _, _, _, _, h⟩ | ⟨_, h1, h2, _⟩
    · rw [h]; rfl
    · exact h
    · rw [h1, h2, List.take_append_drop]

theorem fread_length_le (f : SourceFile) {n : Nat} (hn : 0 < n) : (f.fread n).1.length ≤ n := by
  rcases f.fread_cases hn with ⟨_, h⟩ | ⟨_, h, _⟩ | ⟨_, h, _⟩
  · rw [h]; exact Nat.zero_le n
  · omega
  · rw [h, List.length_take]; omega

/-- The part of the schedule that a read uses up: a failure in it makes the read
    short, with the error flag set and the end of the file not seen. -/
theorem fread_outcomes (f : SourceFile) {n : Nat} (hn : 0 < n) :
    ∃ used, f.outcomes = used ++ (f.fread n).2.outcomes ∧
      ((∃ o ∈ used, o.Fails) → (f.fread n).1.length ≠ n ∧ (f.fread n).2.eof = false ∧
        (f.fread n).2.error = true) := by
  have hn0 : n ≠ 0 := by omega
  by_cases heof : f.eof = true
  · exact ⟨[], by simp [fread, hn0, heof], fun ⟨_, hmem, _⟩ => absurd hmem List.not_mem_nil⟩
  · cases ho : f.outcomes with
    | nil =>
        exact ⟨[], by simp [fread, hn0, heof, ho],
          fun ⟨_, hmem, _⟩ => absurd hmem List.not_mem_nil⟩
    | cons o rest =>
        cases o with
        | success =>
            refine ⟨[.success], by simp [fread, hn0, heof, ho], ?_⟩
            rintro ⟨o, hmem, after, rfl⟩
            simp at hmem
        | failure after =>
            refine ⟨[.failure after], by simp [fread, hn0, heof, ho], fun _ => ?_⟩
            simp only [fread, hn0, heof, ho, if_false, List.length_take, and_true,
              Bool.false_eq_true]
            omega

/-- A file without faults stays so. -/
theorem Faultless.fread {f : SourceFile} (h : f.Faultless) {n : Nat} (hn : 0 < n) :
    (f.fread n).2.Faultless := by
  rcases f.fread_cases hn with ⟨_, hf⟩ | ⟨_, _, _, _, ⟨after, hmem⟩, _⟩ | ⟨_, _, _, _, he, ho⟩
  · rw [hf]; exact h
  · exact absurd (h.2 _ hmem) (by simp)
  · exact ⟨he.trans h.1, fun o hm => h.2 o (List.mem_of_mem_tail (ho ▸ hm))⟩

end SourceFile

/-! ## Writing -/

/-- What the environment has in store for one `fwrite` or `fflush`. -/
inductive WriteOutcome where
  /-- The call succeeds; an `fwrite` drains this many bytes. -/
  | success (drained : Nat)
  /-- A drain fails after this many bytes; an `fwrite` has accepted so many. -/
  | failure (accepted drained : Nat)
deriving Repr, DecidableEq

/-- The drain of the call is due to fail. -/
def WriteOutcome.Fails (o : WriteOutcome) : Prop :=
  ∃ accepted drained, o = .failure accepted drained

/-- An open destination file. -/
structure DestinationFile where
  device : List UInt8
  buffered : List UInt8
  error : Bool
  outcomes : List WriteOutcome
deriving Repr, DecidableEq

namespace DestinationFile

/-- A file that has just been created. -/
def opened (outcomes : List WriteOutcome) : DestinationFile := ⟨[], [], false, outcomes⟩

/-- Everything `fwrite` has accepted, drained or not. -/
def written (f : DestinationFile) : List UInt8 := f.device ++ f.buffered

/-- No drain fails. -/
def Faultless (f : DestinationFile) : Prop :=
  f.error = false ∧ ∀ o ∈ f.outcomes, ∃ drained, o = .success drained

theorem opened_faultless : (opened []).Faultless :=
  ⟨rfl, fun _ h => absurd h List.not_mem_nil⟩

/-- Move the first `n` buffered bytes to the device. -/
def drain (f : DestinationFile) (n : Nat) : DestinationFile :=
  { f with device := f.device ++ f.buffered.take n, buffered := f.buffered.drop n }

/-- How much the next call drains, if it succeeds. -/
def nextDrain : List WriteOutcome → Nat
  | .success drained :: _ => drained
  | _ => 0

/-- `fwrite(bytes, 1, _, f)`: how many bytes were accepted, and the file
    afterwards. -/
def fwrite (f : DestinationFile) (bytes : List UInt8) : Nat × DestinationFile :=
  if bytes = [] then
    (0, f)
  else
    match f.outcomes with
    | .failure accepted drained :: rest =>
        -- A failed write is short, and sets the error flag.
        let kept := bytes.take (min accepted (bytes.length - 1))
        (kept.length,
          drain { f with buffered := f.buffered ++ kept, error := true, outcomes := rest } drained)
    | outcomes =>
        (bytes.length,
          drain { f with buffered := f.buffered ++ bytes, outcomes := outcomes.tail }
            (nextDrain outcomes))

/-- `fflush(f)`: did it succeed, and the file afterwards. With nothing buffered
    there is nothing to drain. -/
def fflush (f : DestinationFile) : Bool × DestinationFile :=
  match f.outcomes with
  | .failure _ drained :: rest =>
      if f.buffered = [] then
        (true, { f with outcomes := rest })
      else
        -- A failed flush leaves at least one byte behind.
        (false, drain { f with error := true, outcomes := rest }
          (min drained (f.buffered.length - 1)))
  | outcomes => (true, drain { f with outcomes := outcomes.tail } f.buffered.length)

@[simp] theorem error_drain (f : DestinationFile) (n : Nat) : (f.drain n).error = f.error := rfl

/-- A write of something is accepted in full, or a drain failed and the count is
    short. -/
theorem fwrite_cases (f : DestinationFile) {bytes : List UInt8} (hne : bytes ≠ []) :
    ((f.fwrite bytes).1 = bytes.length ∧ (f.fwrite bytes).2.written = f.written ++ bytes ∧
      (f.fwrite bytes).2.error = f.error ∧ (f.fwrite bytes).2.outcomes = f.outcomes.tail) ∨
    ((f.fwrite bytes).1 < bytes.length ∧ (f.fwrite bytes).2.error = true ∧
      ∃ accepted drained, .failure accepted drained ∈ f.outcomes) := by
  have hpos : 0 < bytes.length := List.length_pos_iff.mpr hne
  cases ho : f.outcomes with
  | nil => left; simp [fwrite, hne, ho, written, drain, List.append_assoc]
  | cons o rest =>
      cases o with
      | success drained => left; simp [fwrite, hne, ho, written, drain, List.append_assoc]
      | failure accepted drained =>
          right
          simp only [fwrite, hne, ho, if_false, List.length_take, error_drain, true_and]
          exact ⟨by omega, accepted, drained, List.mem_cons_self ..⟩

/-- The part of the schedule that a write uses up: a failure in it makes the
    write short. -/
theorem fwrite_outcomes (f : DestinationFile) (bytes : List UInt8) :
    ∃ used, f.outcomes = used ++ (f.fwrite bytes).2.outcomes ∧
      ((∃ o ∈ used, o.Fails) → (f.fwrite bytes).1 < bytes.length) := by
  by_cases hnil : bytes = []
  · exact ⟨[], by simp [fwrite, hnil], fun ⟨_, hmem, _⟩ => absurd hmem List.not_mem_nil⟩
  · have hpos : 0 < bytes.length := List.length_pos_iff.mpr hnil
    cases ho : f.outcomes with
    | nil =>
        exact ⟨[], by simp [fwrite, hnil, ho, drain],
          fun ⟨_, hmem, _⟩ => absurd hmem List.not_mem_nil⟩
    | cons o rest =>
        cases o with
        | success drained =>
            refine ⟨[.success drained], by simp [fwrite, hnil, ho, drain], ?_⟩
            rintro ⟨o, hmem, accepted, drained', rfl⟩
            simp at hmem
        | failure accepted drained =>
            refine ⟨[.failure accepted drained], by simp [fwrite, hnil, ho, drain], fun _ => ?_⟩
            simp only [fwrite, hnil, ho, if_false, List.length_take]
            omega

/-- Something is buffered, and the next drain is due to fail. -/
def drainFails (f : DestinationFile) : Bool :=
  match f.outcomes with
  | .failure _ _ :: _ => !f.buffered.isEmpty
  | _ => false

/-- A flush leaves nothing buffered, or the drain fails and something is left. -/
theorem fflush_cases (f : DestinationFile) :
    (f.drainFails = false ∧ f.fflush.1 = true ∧ f.fflush.2.device = f.written ∧
      f.fflush.2.error = f.error) ∨
    (f.drainFails = true ∧ f.fflush.1 = false ∧ f.fflush.2.device ≠ f.written ∧
      f.fflush.2.error = true) := by
  cases ho : f.outcomes with
  | nil => left; simp [drainFails, fflush, ho, drain, written]
  | cons o rest =>
      cases o with
      | success drained => left; simp [drainFails, fflush, ho, drain, written]
      | failure accepted drained =>
          by_cases hb : f.buffered = []
          · left; simp [drainFails, fflush, ho, hb, written]
          · right
            -- The device is short of what was written by the bytes left behind.
            have hpos : 0 < f.buffered.length := List.length_pos_iff.mpr hb
            refine ⟨by simp [drainFails, ho, hb], by simp [fflush, ho, hb], ?_,
              by simp [fflush, ho, hb]⟩
            intro heq
            have hlen := congrArg List.length heq
            simp only [fflush, ho, hb, drain, written, if_false, List.length_append,
              List.length_take] at hlen
            omega

theorem Faultless.fwrite {f : DestinationFile} (h : f.Faultless) {bytes : List UInt8}
    (hne : bytes ≠ []) :
    (f.fwrite bytes).1 = bytes.length ∧ (f.fwrite bytes).2.written = f.written ++ bytes ∧
      (f.fwrite bytes).2.Faultless := by
  rcases f.fwrite_cases hne with ⟨h1, h2, h3, h4⟩ | ⟨_, _, accepted, drained, hmem⟩
  · exact ⟨h1, h2, h3.trans h.1, fun o hm => h.2 o (List.mem_of_mem_tail (h4 ▸ hm))⟩
  · obtain ⟨d, hd⟩ := h.2 _ hmem
    cases hd

end DestinationFile

end RubyBrs
