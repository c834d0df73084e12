/-
  RubyBrs.Ext.Completion

  What an encoder has emitted is always the first part of a complete stream.

  In the middle of a session nothing is promised about the bytes that were emitted
  so far.  But whatever state the session is in, it can be brought to its end: the
  operation in progress is repeated until it is done (`Contract.perform`), and then
  the stream is finished.  What that gives is a complete stream of the bytes that
  were taken and those of the operation in progress (`Contract.finishable`), so a
  decoder that is given what there is so far meets no error and decodes a first part
  of those bytes (`Contract.decodable_emitted`).
-/

import RubyBrs.Ext.Brotli

namespace RubyBrs

open StreamCodec StreamFormat

variable {σ : Type}

namespace Encoder

/-- The bytes of the operation in progress that were not taken yet. -/
def unfinished (enc : Encoder σ) (i : EncoderInstance σ) : List UInt8 :=
  match i.calls.getLast? with
  | none => []
  | some last => if enc.pending last.operation i.state then last.rest else []

variable {enc : Encoder σ} {ops : List Operation} {fmt : Format UInt8} {init : σ}
  {i : EncoderInstance σ}

/-- Before the first call no operation is in progress. -/
theorem unfinished_none (hlast : i.calls.getLast? = none) : enc.unfinished i = [] := by
  unfold unfinished
  rw [hlast]

theorem unfinished_pending {last : Call UInt8 Operation Bool} (hlast : i.calls.getLast? = some last)
    (hpending : enc.pending last.operation i.state = true) : enc.unfinished i = last.rest := by
  unfold unfinished
  rw [hlast]
  exact if_pos hpending

theorem unfinished_done {last : Call UInt8 Operation Bool} (hlast : i.calls.getLast? = some last)
    (hdone : enc.pending last.operation i.state = false) : enc.unfinished i = [] := by
  unfold unfinished
  rw [hlast]
  exact if_neg (Bool.not_eq_true _ ▸ hdone)

theorem Session.operation_mem (h : enc.Session ops init i) {last : Call UInt8 Operation Bool}
    (hlast : i.calls.getLast? = some last) : last.operation ∈ ops := by
  cases h with
  | start handle => cases hlast
  | call room _ hop _ =>
      rw [Codec.call_getLast] at hlast
      obtain rfl := Option.some.inj hlast
      exact hop

/-- An operation that was allowed can be repeated until it is done. -/
theorem Contract.perform (henc : enc.Contract ops fmt init) (h : enc.Session ops init i)
    {op : Operation} (hop : op ∈ ops) {input : List UInt8} (hallowed : enc.Allowed i op input) :
    ∃ i' last, enc.Session ops init i' ∧ i.emitted <+: i'.emitted ∧
      i'.consumed = i.consumed ++ input ∧ i'.calls.getLast? = some last ∧ last.operation = op ∧
      enc.pending op i'.state = false := by
  obtain ⟨bound, hbound⟩ := henc.finite (i.consumed ++ input)
  -- The induction is on the bytes that may still be emitted; every call that does
  -- not end the operation emits one at least.
  induction hleft : bound - i.emitted.length using Nat.strong_induction_on
    generalizing i input with
  | _ left ih =>
      have hnext : enc.Session ops init (enc.call i op input 1) := .call 1 h hop hallowed
      have hlast := enc.call_getLast i op input 1
      have hemitted : i.emitted <+: (enc.call i op input 1).emitted := by
        rw [Codec.call_emitted]
        exact List.prefix_append _ _
      cases hpending : enc.pending op (enc.call i op input 1).state with
      | false =>
          refine ⟨_, _, hnext, hemitted, ?_, hlast, rfl, hpending⟩
          rw [Codec.call_consumed, henc.completes 1 h hop hallowed hpending, List.take_length]
      | true =>
          let rest := input.drop (enc.stream i.state op input 1).consumed
          have hall : (enc.call i op input 1).consumed ++ rest = i.consumed ++ input := by
            rw [Codec.call_consumed, List.append_assoc, List.take_append_drop]
          have hgrown : i.emitted.length < (enc.call i op input 1).emitted.length := by
            have hpos := List.length_pos_iff.mpr
              (henc.progresses h hop hallowed Nat.one_pos hpending)
            rw [Codec.call_emitted, List.length_append]
            omega
          have hfits := hbound _ hnext ⟨rest, hall⟩
          obtain ⟨i', last, hsession, hprefix, hconsumed, hrest⟩ :=
            ih _ (by omega) hnext (Allowed.of_pending hlast hpending)
              (fun j hj hjc => hbound j hj (hall ▸ hjc)) rfl
          exact ⟨i', last, hsession, hemitted.trans hprefix, hconsumed.trans hall, hrest⟩

/-- Wherever a session is, it can be finished. -/
theorem Contract.finishable (henc : enc.Contract ops fmt init) (hfinish : .finish ∈ ops)
    (h : enc.Session ops init i) :
    ∃ s, i.emitted <+: s ∧ fmt.Decodes s (i.consumed ++ enc.unfinished i) := by
  -- From a state in which no operation is in progress, the finish is one more.
  have hfrom : ∀ {i : EncoderInstance σ} {input : List UInt8}, enc.Session ops init i →
      enc.Allowed i .finish input →
      ∃ s, i.emitted <+: s ∧ fmt.Decodes s (i.consumed ++ input) := by
    intro i input h hallowed
    obtain ⟨i', last, hsession, hprefix, hconsumed, hlast, hop, hdone⟩ :=
      henc.perform h hfinish hallowed
    exact ⟨i'.emitted, hprefix, hconsumed ▸ henc.finishes hsession hlast hop hdone⟩
  cases hlast : i.calls.getLast? with
  | none =>
      rw [unfinished_none hlast]
      apply hfrom h
      unfold Allowed
      rw [hlast]
      trivial
  | some last =>
      cases hpending : enc.pending last.operation i.state with
      -- It is in the middle of an operation, which has to be done first.
      | true =>
          rw [unfinished_pending hlast hpending]
          have hallowed := Allowed.of_pending hlast hpending
          by_cases hop : last.operation = .finish
          · rw [hop] at hallowed
            exact hfrom h hallowed
          · obtain ⟨i', last', hsession, hprefix, hconsumed, hlast', hop', hdone⟩ :=
              henc.perform h (h.operation_mem hlast) hallowed
            have hallowed' : enc.Allowed i' .finish [] := by
              apply Allowed.of_complete
              intro call hcall
              obtain rfl := Option.some.inj (hlast'.symm.trans hcall)
              exact ⟨hop' ▸ hdone, hop' ▸ hop⟩
            obtain ⟨s, hs, hdecodes⟩ := hfrom hsession hallowed'
            rw [hconsumed, List.append_nil] at hdecodes
            exact ⟨s, hprefix.trans hs, hdecodes⟩
      | false =>
          rw [unfinished_done hlast hpending]
          by_cases hop : last.operation = .finish
          · -- It is finished already.
            rw [hop] at hpending
            refine ⟨i.emitted, List.prefix_refl _, ?_⟩
            rw [List.append_nil]
            exact henc.finishes h hlast hop hpending
          · apply hfrom h
            apply Allowed.of_complete
            intro call hcall
            obtain rfl := Option.some.inj (hlast.symm.trans hcall)
            exact ⟨hpending, hop⟩

/-- What can be decoded of it at any time is a first part of what it was given. -/
theorem Contract.decodable_emitted (henc : enc.Contract ops fmt init) (hfinish : .finish ∈ ops)
    (h : enc.Session ops init i) :
    fmt.decodable i.emitted <+: i.consumed ++ enc.unfinished i := by
  obtain ⟨s, hs, -, hdecodes⟩ := henc.finishable hfinish h
  exact hdecodes ▸ fmt.decodable_mono hs

end Encoder

end RubyBrs
