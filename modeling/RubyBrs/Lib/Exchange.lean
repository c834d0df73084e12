/-
  RubyBrs.Lib.Exchange

  A codec behind a buffer, and its caller.

  The caller has requests to make, each an operation with some input, and the
  output goes to a buffer of a fixed capacity.  When the answer to a call is that
  it needs more room, the caller takes what is in the buffer and repeats the
  operation with what was left of its input; otherwise it goes on to the next
  request.  It may take what is in the buffer at any other time, and any attempt
  to do so may fail and have no effect.

  `Sound` holds in every state of every such run, for every codec: what was
  taken and what is in the buffer is what the codec emitted.  `Paced` bounds the
  number of calls by the number of requests and the length of the output.
-/

import RubyBrs.Lib.StreamCodec

namespace StreamCodec

variable {α σ ω ρ : Type}

/-- A codec whose output goes to a buffer: which results are failures, and when
    an operation needs more room. -/
structure Buffered (α σ ω ρ : Type) extends Codec α σ ω ρ where
  capacity : Nat
  capacity_pos : 0 < capacity
  failed : ρ → Bool
  more : ω → σ → ρ → Bool

/-- Where the caller is. -/
inductive Phase where
  /-- No operation is in progress. -/
  | ready
  /-- The operation needs more room, and the buffer was not emptied yet. -/
  | full
  /-- The buffer was emptied, and the operation is to be repeated. -/
  | again
deriving Repr, DecidableEq

structure Exchange (α σ ω ρ : Type) where
  coder : Coder α σ ω ρ
  /-- What is in the buffer. -/
  filled : List α
  /-- What the caller has taken, in order. -/
  handed : List α
  /-- The requests that are left, the first of them with what is left of it. -/
  todo : List (ω × List α)
  phase : Phase

inductive Move where
  | call
  | take
  /-- An attempt to take what is in the buffer fails. -/
  | miss
deriving Repr, DecidableEq

/-- The input of several requests. -/
def inputs (requests : List (ω × List α)) : List α := requests.flatMap Prod.snd

@[simp] theorem inputs_nil : inputs ([] : List (ω × List α)) = [] := rfl

@[simp] theorem inputs_cons (op : ω) (input : List α) (rest : List (ω × List α)) :
    inputs ((op, input) :: rest) = input ++ inputs rest := rfl

@[simp] theorem inputs_append (p q : List (ω × List α)) : inputs (p ++ q) = inputs p ++ inputs q :=
  List.flatMap_append

namespace Exchange

/-- Nothing was asked yet. -/
def start (handle : Nat) (s : σ) (requests : List (ω × List α)) : Exchange α σ ω ρ :=
  { coder := ⟨handle, s, []⟩, filled := [], handed := [], todo := requests, phase := .ready }

/-- The caller takes what is in the buffer. -/
def take (x : Exchange α σ ω ρ) : Exchange α σ ω ρ :=
  { x with
    filled := []
    handed := x.handed ++ x.filled
    phase := if x.phase = .ready then .ready else .again }

variable (b : Buffered α σ ω ρ)

/-- The answer to a call with what is left of the buffer. -/
def answer (x : Exchange α σ ω ρ) (op : ω) (input : List α) : Answer α σ ρ :=
  b.stream x.coder.state op input (b.capacity - x.filled.length)

/-- The codec and the buffer after such a call. -/
def called (x : Exchange α σ ω ρ) (op : ω) (input : List α) : Exchange α σ ω ρ :=
  { x with
    coder := b.toCodec.call x.coder op input (b.capacity - x.filled.length)
    filled := x.filled ++ (x.answer b op input).output }

/-- The caller makes its next call. -/
def call (x : Exchange α σ ω ρ) : Option (Exchange α σ ω ρ) :=
  match x.todo with
  | [] => none
  | (op, input) :: rest =>
      -- A failure ends the exchange, and a full buffer has to be emptied first.
      if x.phase = .full ∨ b.failed (x.answer b op input).result then
        none
      else if b.more op (x.answer b op input).state (x.answer b op input).result then
        some { x.called b op input with
          todo := (op, input.drop (x.answer b op input).consumed) :: rest
          phase := .full }
      else
        some { x.called b op input with todo := rest, phase := .ready }

def step (x : Exchange α σ ω ρ) : Move → Option (Exchange α σ ω ρ)
  | .call => x.call b
  | .take => some x.take
  | .miss => some x

def run : List Move → Exchange α σ ω ρ → Option (Exchange α σ ω ρ)
  | [], x => some x
  | move :: rest, x => (x.step b move).bind (run rest)

variable {b} {x x' : Exchange α σ ω ρ}

/-! ## Steps -/

/-- The next call can be made unless the operation waits for room or fails. -/
theorem call_isSome {op : ω} {input : List α} {rest : List (ω × List α)}
    (htodo : x.todo = (op, input) :: rest) (hphase : x.phase ≠ .full)
    (hok : b.failed (x.answer b op input).result = false) : ∃ x', x.call b = some x' := by
  unfold call
  rw [htodo]
  simp only [hphase, hok, Bool.false_eq_true, or_self, if_false]
  split <;> exact ⟨_, rfl⟩

/-- A call was made for the first request, which needs more room or is done. -/
theorem call_cases (h : x.call b = some x') :
    ∃ op input rest, x.todo = (op, input) :: rest ∧ x.phase ≠ .full ∧
      b.failed (x.answer b op input).result = false ∧
      ((b.more op (x.answer b op input).state (x.answer b op input).result = true ∧
          x' = { x.called b op input with
            todo := (op, input.drop (x.answer b op input).consumed) :: rest, phase := .full }) ∨
        (b.more op (x.answer b op input).state (x.answer b op input).result = false ∧
          x' = { x.called b op input with todo := rest, phase := .ready })) := by
  unfold call at h
  split at h
  · cases h
  · rename_i op input rest htodo
    split at h
    · cases h
    · rename_i hgo
      rw [not_or, Bool.not_eq_true] at hgo
      split at h
      · rename_i hmore
        exact ⟨op, input, rest, htodo, hgo.1, hgo.2, Or.inl ⟨hmore, (Option.some.inj h).symm⟩⟩
      · rename_i hmore
        rw [Bool.not_eq_true] at hmore
        exact ⟨op, input, rest, htodo, hgo.1, hgo.2, Or.inr ⟨hmore, (Option.some.inj h).symm⟩⟩

/-- What a step does. -/
theorem step_cases {move : Move} (h : x.step b move = some x') :
    (move = .call ∧ x.call b = some x') ∨ (move = .take ∧ x' = x.take) ∨
      (move = .miss ∧ x' = x) := by
  cases move with
  | call => exact Or.inl ⟨rfl, h⟩
  | take => exact Or.inr (Or.inl ⟨rfl, (Option.some.inj h).symm⟩)
  | miss => exact Or.inr (Or.inr ⟨rfl, (Option.some.inj h).symm⟩)

/-- What a call and a taking preserve, a run preserves. -/
theorem run_invariant {I : Exchange α σ ω ρ → Prop}
    (hcall : ∀ x x', I x → x.call b = some x' → I x') (htake : ∀ x, I x → I x.take)
    {moves : List Move} (hx : I x) (h : run b moves x = some x') : I x' := by
  induction moves generalizing x with
  | nil =>
      obtain rfl := Option.some.inj h
      exact hx
  | cons move rest ih =>
      obtain ⟨y, hstep, hrest⟩ := Option.bind_eq_some_iff.mp h
      refine ih ?_ hrest
      rcases step_cases hstep with ⟨-, hy⟩ | ⟨-, rfl⟩ | ⟨-, rfl⟩
      · exact hcall x y hx hy
      · exact htake x hx
      · exact hx

/-- An invariant of the runs of an exchange that makes sure that they can go on,
    with at most `bound` calls. -/
structure Steady (b : Buffered α σ ω ρ) (bound : Nat) (I : Exchange α σ ω ρ → Prop) : Prop where
  call : ∀ {x x'}, I x → x.call b = some x' → I x'
  take : ∀ {x}, I x → I x.take
  can : ∀ {x}, I x → x.todo ≠ [] → x.phase ≠ .full → ∃ x', x.call b = some x'
  bounded : ∀ {x}, I x → x.coder.calls.length ≤ bound

/-- An invariant of the runs of an exchange that need not be able to go on. -/
structure Confined (b : Buffered α σ ω ρ) (bound : Nat) (I : Exchange α σ ω ρ → Prop) : Prop where
  call : ∀ {x x'}, I x → x.call b = some x' → I x'
  take : ∀ {x}, I x → I x.take
  bounded : ∀ {x}, I x → x.coder.calls.length ≤ bound

theorem Steady.confined {bound : Nat} {I : Exchange α σ ω ρ → Prop} (h : Steady b bound I) :
    Confined b bound I :=
  ⟨h.call, h.take, h.bounded⟩

theorem Confined.run {bound : Nat} {I : Exchange α σ ω ρ → Prop} (h : Confined b bound I)
    {moves : List Move} (hx : I x) (hrun : run b moves x = some x') : I x' :=
  run_invariant (fun _ _ => h.call) (fun _ => h.take) hx hrun

theorem Steady.run {bound : Nat} {I : Exchange α σ ω ρ → Prop} (h : Steady b bound I)
    {moves : List Move} (hx : I x) (hrun : run b moves x = some x') : I x' :=
  h.confined.run hx hrun

/-- One call more. -/
theorem call_length (h : x.call b = some x') :
    x'.coder.calls.length = x.coder.calls.length + 1 := by
  obtain ⟨op, input, rest, -, -, -, ⟨-, rfl⟩ | ⟨-, rfl⟩⟩ := call_cases h <;>
    simp [called, Codec.call]

/-- Every call of the caller is one of the codec. -/
theorem run_calls {moves : List Move} (h : run b moves x = some x') :
    x'.coder.calls.length = x.coder.calls.length + moves.count .call := by
  induction moves generalizing x with
  | nil =>
      obtain rfl := Option.some.inj h
      rfl
  | cons move rest ih =>
      obtain ⟨y, hstep, hrest⟩ := Option.bind_eq_some_iff.mp h
      have hlength := ih hrest
      -- Only a call adds to the calls, on both sides.
      rcases step_cases hstep with ⟨rfl, hy⟩ | ⟨rfl, rfl⟩ | ⟨rfl, rfl⟩
      · have hy' := call_length hy
        rw [List.count_cons_self]
        omega
      · rw [List.count_cons_of_ne (by decide)]
        exact hlength
      · rw [List.count_cons_of_ne (by decide)]
        exact hlength

/-- What was handed out and what was emitted is never taken back. -/
theorem run_grows {moves : List Move} (h : run b moves x = some x') :
    x.handed <+: x'.handed ∧ x.coder.emitted <+: x'.coder.emitted := by
  refine run_invariant (I := fun y => x.handed <+: y.handed ∧
    x.coder.emitted <+: y.coder.emitted) ?_ ?_ ⟨List.prefix_refl _, List.prefix_refl _⟩ h
  · rintro y y' ⟨hhanded, hemitted⟩ hcall
    obtain ⟨op, input, rest, -, -, -, hcases⟩ := call_cases hcall
    have hcalled : y.coder.emitted <+: (y.called b op input).coder.emitted := by
      simp only [called, Codec.call_emitted]
      exact List.prefix_append _ _
    rcases hcases with ⟨-, rfl⟩ | ⟨-, rfl⟩
    · exact ⟨hhanded, hemitted.trans hcalled⟩
    · exact ⟨hhanded, hemitted.trans hcalled⟩
  · rintro y ⟨hhanded, hemitted⟩
    exact ⟨hhanded.trans (List.prefix_append _ _), hemitted⟩

/-! ## Any codec -/

/-- What holds in every state of a run with these requests. -/
structure Sound (b : Buffered α σ ω ρ) (requests : List (ω × List α))
    (x : Exchange α σ ω ρ) : Prop where
  fits : x.filled.length ≤ b.capacity
  /-- Nothing emitted is lost, repeated or reordered. -/
  delivered : x.handed ++ x.filled = x.coder.emitted
  emptied : x.phase = .again → x.filled = []
  /-- Between two operations: some of the requests were made, the last call was
      for the last of them, and it was done. -/
  ready : x.phase = .ready → ∃ done, requests = done ++ x.todo ∧
    x.coder.calls.getLast?.map Call.operation = done.getLast?.map Prod.fst ∧
    ∀ last, x.coder.calls.getLast? = some last →
      b.more last.operation x.coder.state last.result = false
  /-- During an operation: what is to be done next is to repeat it with what the
      last call has left. -/
  busy : x.phase ≠ .ready → ∃ done request rest last, requests = done ++ request :: rest ∧
    x.coder.calls.getLast? = some last ∧ last.operation = request.1 ∧
    x.todo = (last.operation, last.rest) :: rest ∧
    b.more last.operation x.coder.state last.result = true

variable {requests : List (ω × List α)}

theorem Sound.start (handle : Nat) (s : σ) :
    Sound b requests (start handle s requests : Exchange α σ ω ρ) where
  fits := Nat.zero_le _
  delivered := rfl
  emptied h := nomatch h
  ready _ := ⟨[], rfl, rfl, fun _ h => nomatch h⟩
  busy h := absurd rfl h

/-- The requests made, the one in progress and the ones to come. -/
theorem Sound.requests_eq (h : Sound b requests x) {op : ω} {input : List α}
    {rest : List (ω × List α)} (htodo : x.todo = (op, input) :: rest) :
    ∃ done original, requests = done ++ (op, original) :: rest := by
  by_cases hphase : x.phase = .ready
  · obtain ⟨done, heq, -⟩ := h.ready hphase
    exact ⟨done, input, by rw [heq, htodo]⟩
  -- The request in progress has the operation it began with, and less input.
  · obtain ⟨done, ⟨op', original⟩, rest', last, heq, -, hop, htodo', -⟩ := h.busy hphase
    rw [htodo] at htodo'
    obtain ⟨hhead, rfl⟩ := List.cons.inj htodo'
    obtain ⟨rfl, -⟩ := Prod.mk.inj hhead
    obtain rfl : last.operation = op' := hop
    exact ⟨done, original, heq⟩

/-- An operation that was begun is not the last thing there was to do. -/
theorem Sound.ready_of_done (h : Sound b requests x) (htodo : x.todo = []) :
    x.phase = .ready := by
  by_contra hphase
  obtain ⟨done, request, rest, last, -, -, -, htodo', -⟩ := h.busy hphase
  rw [htodo] at htodo'
  cases htodo'

theorem Sound.call (h : Sound b requests x) (hx : x.call b = some x') : Sound b requests x' := by
  obtain ⟨op, input, rest, htodo, hphase, -, hcases⟩ := call_cases hx
  obtain ⟨done, original, hrequests⟩ := h.requests_eq htodo
  have hfits : (x.called b op input).filled.length ≤ b.capacity := by
    have hle := b.output_le x.coder.state op input (b.capacity - x.filled.length)
    have hroom := h.fits
    simp only [called, answer, List.length_append]
    omega
  have hdelivered : (x.called b op input).handed ++ (x.called b op input).filled =
      (x.called b op input).coder.emitted := by
    simp only [called, answer, Codec.call_emitted, ← h.delivered, List.append_assoc]
  have hlast := b.toCodec.call_getLast x.coder op input (b.capacity - x.filled.length)
  -- The request stays in progress, or it is one more of those that are done.
  rcases hcases with ⟨hmore, rfl⟩ | ⟨hmore, rfl⟩
  · exact
      { fits := hfits
        delivered := hdelivered
        emptied := fun h => nomatch h
        ready := fun h => nomatch h
        busy := fun _ => ⟨done, (op, original), rest, _, hrequests, hlast, rfl, rfl, hmore⟩ }
  · refine
      { fits := hfits
        delivered := hdelivered
        emptied := fun h => nomatch h
        ready := fun _ => ⟨done ++ [(op, original)], ?_, ?_, fun last heq => ?_⟩
        busy := fun h => absurd rfl h }
    · rw [hrequests, List.append_assoc]
      rfl
    · show (b.toCodec.call x.coder op input _).calls.getLast?.map Call.operation = _
      rw [hlast, List.getLast?_concat]
      rfl
    · obtain rfl := Option.some.inj (hlast.symm.trans heq)
      exact hmore

theorem Sound.take (h : Sound b requests x) : Sound b requests x.take := by
  by_cases hphase : x.phase = .ready
  · exact
      { fits := Nat.zero_le _
        delivered := by simpa [Exchange.take] using h.delivered
        emptied := fun _ => rfl
        ready := fun _ => h.ready hphase
        busy := fun hne => absurd (by simp [Exchange.take, hphase]) hne }
  -- The operation was cut short, and is now to be repeated with the whole buffer.
  · exact
      { fits := Nat.zero_le _
        delivered := by simpa [Exchange.take] using h.delivered
        emptied := fun _ => rfl
        ready := fun heq => by simp [Exchange.take, hphase] at heq
        busy := fun _ => h.busy hphase }

/-! ## Consumption -/

/-- What was consumed and what is left to offer is all of the input. -/
def Conserves (requests : List (ω × List α)) (x : Exchange α σ ω ρ) : Prop :=
  x.coder.consumed ++ inputs x.todo = inputs requests

/-- It stays so when every operation that is done has taken all of its input. -/
theorem Conserves.call (h : Conserves requests x) (hx : x.call b = some x')
    (hcompletes : ∀ {op input rest}, x.todo = (op, input) :: rest →
      b.more op (x.answer b op input).state (x.answer b op input).result = false →
      (x.answer b op input).consumed = input.length) : Conserves requests x' := by
  obtain ⟨op, input, rest, htodo, -, -, hcases⟩ := call_cases hx
  have hinputs : x.coder.consumed ++ (input ++ inputs rest) = inputs requests := by
    have := h
    rwa [Conserves, htodo, inputs_cons] at this
  have hconsumed : (x.called b op input).coder.consumed =
      x.coder.consumed ++ input.take (x.answer b op input).consumed :=
    b.toCodec.call_consumed _ _ _ _
  -- What was not taken is offered again, or there is nothing that was not taken.
  rcases hcases with ⟨-, rfl⟩ | ⟨hmore, rfl⟩
  · show (x.called b op input).coder.consumed ++ inputs ((op, input.drop _) :: rest) = _
    rw [hconsumed, inputs_cons, List.append_assoc, ← List.append_assoc (List.take _ _),
      List.take_append_drop, hinputs]
  · show (x.called b op input).coder.consumed ++ inputs rest = _
    rw [hconsumed, hcompletes htodo hmore, List.take_length, List.append_assoc, hinputs]

/-! ## Pace -/

/-- Two calls for every request and one for every item emitted are enough. -/
def Paced (count : Nat) (x : Exchange α σ ω ρ) : Prop :=
  x.coder.calls.length + 2 * x.todo.length ≤
    2 * count + x.coder.emitted.length + if x.phase = .ready then 0 else 1

theorem Paced.start (handle : Nat) (s : σ) :
    Paced requests.length (start handle s requests : Exchange α σ ω ρ) := by
  simp [Paced, Exchange.start]

theorem Paced.take {count : Nat} (h : Paced count x) : Paced count x.take := by
  have heq : x.take.phase = .ready ↔ x.phase = .ready := by
    by_cases hphase : x.phase = .ready <;> simp [Exchange.take, hphase]
  simp only [Paced, heq] at h ⊢
  exact h

/-- It stays so when a call that has the whole buffer and needs more room emits
    something. -/
theorem Paced.call {count : Nat} (h : Paced count x) (hsound : Sound b requests x)
    (hx : x.call b = some x')
    (hprogress : ∀ {op input rest}, x.todo = (op, input) :: rest → x.filled = [] →
      b.more op (x.answer b op input).state (x.answer b op input).result = true →
      (x.answer b op input).output ≠ []) : Paced count x' := by
  obtain ⟨op, input, rest, htodo, hphase, -, hcases⟩ := call_cases hx
  have hcalls : (x.called b op input).coder.calls.length = x.coder.calls.length + 1 := by
    simp [called, Codec.call]
  have hemitted : (x.called b op input).coder.emitted.length =
      x.coder.emitted.length + (x.answer b op input).output.length := by
    simp [called, answer]
  have hlength : x.todo.length = rest.length + 1 := by rw [htodo, List.length_cons]
  unfold Paced at h
  rcases hcases with ⟨hmore, rfl⟩ | ⟨-, rfl⟩
  · show (x.called b op input).coder.calls.length + 2 * (rest.length + 1) ≤
      2 * count + (x.called b op input).coder.emitted.length + 1
    -- The first call of a request is paid for by the request itself.
    cases hp : x.phase with
    | ready =>
        simp only [hp, if_true] at h
        omega
    | full => exact absurd hp hphase
    | again =>
        -- The operation was repeated with the whole buffer.
        have hpos := List.length_pos_iff.mpr (hprogress htodo (hsound.emptied hp) hmore)
        simp only [hp, reduceCtorEq, if_false] at h
        omega
  -- The last call of a request is paid for by the two that are no longer left.
  · show (x.called b op input).coder.calls.length + 2 * rest.length ≤
      2 * count + (x.called b op input).coder.emitted.length + 0
    have hone : (if x.phase = .ready then 0 else 1) ≤ 1 := by split <;> omega
    omega

/-- The number of calls in terms of the output. -/
theorem Paced.calls_le {count bound : Nat} (h : Paced count x)
    (hbound : x.coder.emitted.length ≤ bound) :
    x.coder.calls.length ≤ 2 * count + bound + 1 := by
  unfold Paced at h
  have hone : (if x.phase = .ready then 0 else 1) ≤ 1 := by split <;> omega
  omega

/-! ## More requests -/

/-- The caller has one more request to make, after those that are left. -/
def offer (request : ω × List α) (x : Exchange α σ ω ρ) : Exchange α σ ω ρ :=
  { x with todo := x.todo ++ [request] }

theorem Sound.offer (h : Sound b requests x) (request : ω × List α) :
    Sound b (requests ++ [request]) (x.offer request) where
  fits := h.fits
  delivered := h.delivered
  emptied := h.emptied
  ready hphase := by
    obtain ⟨done, heq, hrest⟩ := h.ready hphase
    exact ⟨done, by rw [heq, List.append_assoc]; rfl, hrest⟩
  busy hphase := by
    obtain ⟨done, current, rest, last, heq, hlast, hop, htodo, hmore⟩ := h.busy hphase
    refine ⟨done, current, rest ++ [request], last, ?_, hlast, hop, ?_, hmore⟩
    · rw [heq, List.append_assoc, List.cons_append]
    · show x.todo ++ [request] = _
      rw [htodo, List.cons_append]

theorem Conserves.offer (h : Conserves requests x) (request : ω × List α) :
    Conserves (requests ++ [request]) (x.offer request) := by
  show x.coder.consumed ++ inputs (x.todo ++ [request]) = _
  rw [inputs_append, inputs_append, ← List.append_assoc, h]

theorem Paced.offer {count : Nat} (h : Paced count x) (request : ω × List α) :
    Paced (count + 1) (x.offer request) := by
  unfold Paced at h ⊢
  show x.coder.calls.length + 2 * (x.todo ++ [request]).length ≤
    2 * (count + 1) + x.coder.emitted.length + if x.phase = .ready then 0 else 1
  rw [List.length_append, List.length_singleton]
  omega

end Exchange

end StreamCodec
