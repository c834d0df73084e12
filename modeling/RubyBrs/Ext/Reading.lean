/-
  RubyBrs.Ext.Reading

  A decoder in the hands of a function that offers it a string `s`, piece by
  piece and in order.

  `Reading s S` is all that the loops around the decoder rely on, for the states
  `S`; both contracts of the library give it.  `Answered` is the last call such
  a function made, and this file says what each answer to it means.
-/

import RubyBrs.Ext.Brotli

namespace RubyBrs

/-- The two answers on which the loops are left without an error. -/
def DecoderResult.Settled (result : DecoderResult) : Prop :=
  result = .success ∨ result = .needsMoreInput

namespace Decoder

open StreamCodec StreamFormat

variable {σ : Type} (dec : Decoder σ)

/-- What the loops rely on while the decoder, in the states `S`, is fed `s`. -/
structure Reading (s : List UInt8) (S : DecoderInstance σ → Prop) : Prop where
  call : ∀ {i input} (room : Nat), S i → i.consumed ++ input <+: s →
    (dec.stream i.state () input room).result ≠ .error → S (dec.call i () input room)
  finite : ∃ bound : Nat, ∀ i input room, S i → i.consumed ++ input <+: s →
    (dec.stream i.state () input room).result ≠ .error →
    (dec.call i () input room).emitted.length ≤ bound
  needsInput : ∀ {i input} {room : Nat}, S i → i.consumed ++ input <+: s →
    (dec.stream i.state () input room).result = .needsMoreInput →
    (dec.stream i.state () input room).consumed = input.length
  needsOutput : ∀ {i input} {room : Nat}, S i → i.consumed ++ input <+: s →
    (dec.stream i.state () input room).result = .needsMoreOutput →
    (dec.stream i.state () input room).output.length = room

/-- The instances whose last call was made in `S`, was answered with `result`,
    and left `rest` of what it was offered. -/
inductive Answered (S : DecoderInstance σ → Prop) (s : List UInt8) (result : DecoderResult)
    (rest : List UInt8) : DecoderInstance σ → Prop
  | call {i : DecoderInstance σ} {input : List UInt8} (room : Nat) (hi : S i)
      (hin : i.consumed ++ input <+: s)
      (hresult : (dec.stream i.state () input room).result = result)
      (hrest : input.drop (dec.stream i.state () input room).consumed = rest) :
      Answered S s result rest (dec.call i () input room)

variable {dec} {S : DecoderInstance σ → Prop} {s rest : List UInt8} {result : DecoderResult}
  {i : DecoderInstance σ}

/-- With room to write to, a decoder that asks for more of it has used some. -/
theorem Reading.emits (h : dec.Reading s S) {input : List UInt8} {room : Nat} (hroom : 0 < room)
    (hi : S i) (hin : i.consumed ++ input <+: s)
    (hresult : (dec.stream i.state () input room).result = .needsMoreOutput) :
    (dec.stream i.state () input room).output ≠ [] := by
  have hfull := h.needsOutput hi hin hresult
  apply List.ne_nil_of_length_pos
  omega

theorem Answered.lastResult (h : dec.Answered S s result rest i) :
    i.lastResult = some result := by
  obtain ⟨room, _, _, hresult, _⟩ := h
  rw [Codec.call_lastResult, hresult]

/-- Asking for more input means that nothing was left. -/
theorem Answered.needsInput (h : dec.Answered S s .needsMoreInput rest i)
    (hS : dec.Reading s S) : rest = [] := by
  obtain ⟨room, hi, hin, hresult, hrest⟩ := h
  rw [← hrest, hS.needsInput hi hin hresult, List.drop_length]

theorem Answered.consumed_prefix (h : dec.Answered S s result rest i) : i.consumed <+: s := by
  obtain ⟨room, _, hin, _, _⟩ := h
  rw [Codec.call_consumed]
  exact ((List.prefix_append_right_inj _).mpr (List.take_prefix _ _)).trans hin

/-- Nothing is left once all of `s` was taken. -/
theorem Answered.rest_nil (h : dec.Answered S s result rest i) (hall : i.consumed = s) :
    rest = [] := by
  obtain ⟨room, _, hin, _, hrest⟩ := h
  have hlength := congrArg List.length hall
  have hbound := hin.length_le
  rw [Codec.call_consumed, List.length_append, List.length_take] at hlength
  rw [List.length_append] at hbound
  rw [← hrest]
  exact List.drop_eq_nil_of_le (by omega)

/-! ## The decoder's contract for one stream -/

section StreamContract

variable {content : List UInt8} {init : σ}

theorem StreamContract.reading (h : dec.StreamContract s content init) :
    dec.Reading s (dec.Session s init) where
  call room hi hin _ := .call room hi hin
  finite := ⟨content.length, fun i input room hi hin _ => by
    rw [Codec.call_emitted]
    exact (h.emits room hi hin).length_le⟩
  needsInput hi hin hresult := (h.needsInput hi hin hresult).1
  needsOutput hi hin hresult := (h.needsOutput hi hin hresult).1

theorem StreamContract.not_error (h : dec.StreamContract s content init) :
    ¬ dec.Answered (dec.Session s init) s .error rest i := by
  rintro ⟨room, hi, hin, hresult, -⟩
  exact h.no_error room hi hin hresult

/-- Success comes with all of the content, and with the stream taken. -/
theorem StreamContract.success_answered (h : dec.StreamContract s content init)
    (ha : dec.Answered (dec.Session s init) s .success rest i) :
    i.consumed = s ∧ i.emitted = content := by
  obtain ⟨room, hi, hin, hresult, -⟩ := ha
  rw [Codec.call_consumed, Codec.call_emitted]
  exact (h.success hi hin).mp hresult

/-- As long as the decoder asks for more input, the stream is not taken. -/
theorem StreamContract.needsInput_answered (h : dec.StreamContract s content init)
    (ha : dec.Answered (dec.Session s init) s .needsMoreInput rest i) : i.consumed ≠ s := by
  obtain ⟨room, hi, hin, hresult, -⟩ := ha
  obtain ⟨hall, hne⟩ := h.needsInput hi hin hresult
  rwa [Codec.call_consumed, hall, List.take_length]

end StreamContract

/-! ## A decoder that follows a format -/

section Follows

variable {fmt : Format UInt8} {init : σ}

theorem Follows.reading (h : dec.Follows fmt init) (s : List UInt8) :
    dec.Reading s (dec.Feeding init) where
  call room hi _ hok := .call _ room hi hok
  finite := ⟨(fmt.decodable s).length, fun i input room hi hin hok => by
    have htaken : i.consumed ++ input.take (dec.stream i.state () input room).consumed <+: s :=
      ((List.prefix_append_right_inj _).mpr (List.take_prefix _ input)).trans hin
    rw [Codec.call_emitted]
    exact ((h.emits input room hi hok).trans (fmt.decodable_mono htaken)).length_le⟩
  needsInput hi _ hresult := (h.needsInput hi hresult).1
  needsOutput hi _ hresult := (h.needsOutput hi hresult).1

theorem Follows.success_answered (h : dec.Follows fmt init)
    (ha : dec.Answered (dec.Feeding init) s .success rest i) :
    fmt.Decodes i.consumed i.emitted := by
  obtain ⟨room, hi, _, hresult, _⟩ := ha
  rw [Codec.call_consumed, Codec.call_emitted]
  exact h.success hi hresult

theorem Follows.needsInput_answered (h : dec.Follows fmt init)
    (ha : dec.Answered (dec.Feeding init) s .needsMoreInput rest i) : fmt.Open i.consumed := by
  obtain ⟨room, hi, _, hresult, _⟩ := ha
  obtain ⟨hall, hopen⟩ := h.needsInput hi hresult
  rwa [Codec.call_consumed, hall, List.take_length]

theorem Follows.error_answered (h : dec.Follows fmt init)
    (ha : dec.Answered (dec.Feeding init) s .error rest i) :
    ∃ p, p <+: s ∧ fmt.Corrupt p := by
  obtain ⟨room, hi, hin, hresult, _⟩ := ha
  obtain ⟨k, -, hcorrupt⟩ := h.error hi hresult
  exact ⟨_, ((List.prefix_append_right_inj _).mpr (List.take_prefix k _)).trans hin, hcorrupt⟩

/-- What was emitted can be told from what was taken. -/
theorem Follows.emits_answered (h : dec.Follows fmt init) (hne : result ≠ .error)
    (ha : dec.Answered (dec.Feeding init) s result rest i) :
    i.emitted <+: fmt.decodable i.consumed := by
  obtain ⟨room, hi, _, hresult, _⟩ := ha
  rw [Codec.call_consumed, Codec.call_emitted]
  exact h.emits _ room hi (hresult ▸ hne)

end Follows

end Decoder

end RubyBrs
