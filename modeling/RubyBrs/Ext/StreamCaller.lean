/-
  RubyBrs.Ext.StreamCaller

  A program that uses a native streaming object as its documentation asks.

  The program has requests to make of the object.  When a method reports that it
  needs more destination, the program takes `read_result` and makes the same
  request again with the bytes that were not taken; otherwise it goes on to its
  next request.  It may take `read_result` at any other time too, and tries again
  when that raises.

  `Simulates` connects such a program to the `Exchange` of its codec and buffer:
  what holds in every run of the one holds in every run of the other.
-/

import RubyBrs.Ext.StreamObject
import RubyBrs.Lib.Exchange

namespace RubyBrs

open StreamCodec

variable {κ σ ω ρ : Type}

/-! ## The program -/

structure StreamCaller (κ ω : Type) where
  memory : Memory
  object : StreamObject κ
  /-- The counts of bytes that its requests returned. -/
  counts : List Nat
  /-- The strings that `read_result` returned. -/
  results : List (List UInt8)
  /-- The requests that are left, the first of them with what is left of it. -/
  todo : List (ω × List UInt8)
  phase : Phase

inductive CallerMove where
  | request
  | readResult
deriving Repr, DecidableEq

/-- The method that a request is made with: it returns the number of bytes taken
    and whether it needs more destination. -/
abbrev RequestMethod (κ ω : Type) :=
  ω → List UInt8 → Memory → StreamObject κ → MethodResult (Nat × Bool) κ

namespace StreamCaller

/-- Nothing was asked of the object yet. -/
def start (memory : Memory) (object : StreamObject κ) (todo : List (ω × List UInt8)) :
    StreamCaller κ ω :=
  { memory, object, counts := [], results := [], todo, phase := .ready }

/-- Make the next request.  There is no next state when the method raises. -/
def request (method : RequestMethod κ ω) (c : StreamCaller κ ω) : Option (StreamCaller κ ω) :=
  match c.todo with
  | [] => none
  | (op, source) :: rest =>
      if c.phase = .full then
        none
      else
        match method op source c.memory c.object with
        -- An exception ends the program: it makes no further request.
        | (.error _, _, _) => none
        | (.ok (count, needsMoreDestination), memory, object) =>
            some
              { memory
                object
                counts := c.counts ++ [count]
                results := c.results
                -- The same request again, with the bytes that were not taken.
                todo := if needsMoreDestination then (op, source.drop count) :: rest else rest
                phase := if needsMoreDestination then .full else .ready }

/-- Take the result; nothing is lost when `read_result` raises. -/
def readResult (c : StreamCaller κ ω) : StreamCaller κ ω :=
  match c.object.readResult c.memory with
  | (.error _, memory, object) => { c with memory, object }
  | (.ok value, memory, object) =>
      { c with
        memory
        object
        results := c.results ++ [value]
        phase := if c.phase = .ready then .ready else .again }

def step (method : RequestMethod κ ω) (c : StreamCaller κ ω) :
    CallerMove → Option (StreamCaller κ ω)
  | .request => c.request method
  | .readResult => some c.readResult

def run (method : RequestMethod κ ω) :
    List CallerMove → StreamCaller κ ω → Option (StreamCaller κ ω)
  | [], c => some c
  | move :: rest, c => (c.step method move).bind (run method rest)

/-- The program has one more request to make, after those that are left. -/
def offer (request : ω × List UInt8) (c : StreamCaller κ ω) : StreamCaller κ ω :=
  { c with todo := c.todo ++ [request] }

/-- The next request is left by an exception. -/
def Raises (method : RequestMethod κ ω) (c : StreamCaller κ ω) (e : RubyError) : Prop :=
  ∃ op source rest, c.todo = (op, source) :: rest ∧ c.phase ≠ .full ∧
    (method op source c.memory c.object).1 = .error e

/-- There is no other reason for a request that was due not to be made. -/
theorem raises_of_none {method : RequestMethod κ ω} {c : StreamCaller κ ω} (htodo : c.todo ≠ [])
    (hphase : c.phase ≠ .full) (h : c.request method = none) : ∃ e, c.Raises method e := by
  unfold request at h
  split at h
  · rename_i hnil
    exact absurd hnil htodo
  · rename_i op source rest hcons
    rw [if_neg hphase] at h
    split at h
    · rename_i e memory object hmethod
      exact ⟨e, op, source, rest, hcons, hphase, by rw [hmethod]⟩
    · cases h

theorem Raises.request_eq {method : RequestMethod κ ω} {c : StreamCaller κ ω} {e : RubyError}
    (h : c.Raises method e) : c.request method = none := by
  obtain ⟨op, source, rest, htodo, hphase, herror⟩ := h
  rcases hmethod : method op source c.memory c.object with ⟨outcome, memory, object⟩
  rw [hmethod] at herror
  obtain rfl : outcome = .error e := herror
  unfold request
  rw [htodo]
  simp only [hphase, hmethod, if_false]

/-- A request was made: its method returned, and it is done unless it needs more
    destination. -/
theorem request_cases {method : RequestMethod κ ω} {c c' : StreamCaller κ ω}
    (h : c.request method = some c') :
    ∃ op source rest count more, c.todo = (op, source) :: rest ∧
      method op source c.memory c.object = (.ok (count, more), c'.memory, c'.object) ∧
      c'.results = c.results ∧
      ((more = true ∧ c'.todo = (op, source.drop count) :: rest ∧ c'.phase = .full) ∨
        (more = false ∧ c'.todo = rest ∧ c'.phase = .ready)) := by
  unfold request at h
  split at h
  · cases h
  · rename_i op source rest htodo
    split at h
    · cases h
    · split at h
      · cases h
      · rename_i count more memory object hmethod
        obtain rfl := Option.some.inj h
        refine ⟨op, source, rest, count, more, htodo, hmethod, rfl, ?_⟩
        cases more with
        | true => exact Or.inl ⟨rfl, rfl, rfl⟩
        | false => exact Or.inr ⟨rfl, rfl, rfl⟩

theorem run_append (method : RequestMethod κ ω) (p q : List CallerMove)
    (c : StreamCaller κ ω) : run method (p ++ q) c = (run method p c).bind (run method q) := by
  induction p generalizing c with
  | nil => rfl
  | cons move rest ih =>
      rw [List.cons_append, run, run, Option.bind_assoc]
      exact congrArg _ (funext ih)

end StreamCaller

/-! ## Its exchange with the codec -/

/-- The method calls the codec on what is left of the buffer, for the requests
    that are valid. -/
structure Performs (b : Buffered UInt8 σ ω ρ) (valid : ω → List UInt8 → Prop)
    (method : RequestMethod (Coder UInt8 σ ω ρ) ω) : Prop where
  drop : ∀ {op source} (n : Nat), valid op source → valid op (source.drop n)
  call : ∀ {o : StreamObject (Coder UInt8 σ ω ρ)} {coder buffer op source answer} (m : Memory),
    o.IsOpen coder buffer → o.destinationBufferLength = b.capacity → valid op source →
    b.stream coder.state op source (b.capacity - o.filled.length) = answer →
    ∃ outcome m' o' buffer', method op source m o = (outcome, m', o') ∧
      (m.Faultless → m'.Faultless) ∧
      o'.IsOpen (b.toCodec.call coder op source (b.capacity - o.filled.length)) buffer' ∧
      o'.filled = o.filled ++ answer.output ∧ o'.destinationBufferLength = b.capacity ∧
      if b.failed answer.result then
        ∃ e, outcome = .error e
      else
        outcome = .ok (answer.consumed, b.more op answer.state answer.result)

/-- `streamCall` does, when it knows the failures of the codec. -/
theorem performs_streamCall (b : Buffered UInt8 σ ω ρ)
    (failure : Coder UInt8 σ ω ρ → ρ → Option ExtResult)
    (hfailure : ∀ i result, failure i result = none ↔ b.failed result = false)
    {o : StreamObject (Coder UInt8 σ ω ρ)} {coder : Coder UInt8 σ ω ρ} {buffer : Buffer}
    (hopen : o.IsOpen coder buffer) (hcapacity : o.destinationBufferLength = b.capacity)
    {op : ω} {source : List UInt8} {answer : Answer UInt8 σ ρ}
    (hanswer : b.stream coder.state op source (b.capacity - o.filled.length) = answer)
    (m : Memory) :
    ∃ outcome m' o' buffer',
      o.streamCall ⟨b.toCodec, op, failure, b.more op⟩ source m coder = (outcome, m', o') ∧
      (m.Faultless → m'.Faultless) ∧
      o'.IsOpen (b.toCodec.call coder op source (b.capacity - o.filled.length)) buffer' ∧
      o'.filled = o.filled ++ answer.output ∧ o'.destinationBufferLength = b.capacity ∧
      if b.failed answer.result then
        ∃ e, outcome = .error e
      else
        outcome = .ok (answer.consumed, b.more op answer.state answer.result) := by
  obtain ⟨m', o', buffer', hcall, hm', hopen', hfilled', hcapacity'⟩ :=
    hopen.streamCall ⟨b.toCodec, op, failure, b.more op⟩ source m (hcapacity.symm ▸ hanswer)
  dsimp only at hcall hopen'
  rw [hcapacity] at hcall hopen' hcapacity'
  refine ⟨_, m', o', buffer', hcall, hm', hopen', hfilled', hcapacity', ?_⟩
  -- The method raises exactly on the answers that the buffered codec calls failures.
  cases hfailed : b.failed answer.result with
  | true =>
      cases hresult : failure _ answer.result with
      | none => simp [(hfailure _ _).mp hresult] at hfailed
      | some extResult => exact ⟨_, rfl⟩
  | false => simp [(hfailure _ _).mpr hfailed]

/-- The program is where the exchange is. -/
structure Simulates (b : Buffered UInt8 σ ω ρ) (valid : ω → List UInt8 → Prop)
    (c : StreamCaller (Coder UInt8 σ ω ρ) ω) (x : Exchange UInt8 σ ω ρ) : Prop where
  isOpen : ∃ buffer, c.object.IsOpen x.coder buffer
  capacity : c.object.destinationBufferLength = b.capacity
  filled : c.object.filled = x.filled
  results : c.results.flatten = x.handed
  counts : c.counts.sum = x.coder.consumed.length
  todo : c.todo = x.todo
  phase : c.phase = x.phase
  valid : ∀ r ∈ x.todo, valid r.1 r.2

namespace Simulates

variable {b : Buffered UInt8 σ ω ρ} {valid : ω → List UInt8 → Prop}
  {method : RequestMethod (Coder UInt8 σ ω ρ) ω} {c c' : StreamCaller (Coder UInt8 σ ω ρ) ω}
  {x x' : Exchange UInt8 σ ω ρ}

theorem statePtr (h : Simulates b valid c x) : c.object.statePtr = some x.coder := by
  obtain ⟨buffer, hopen⟩ := h.isOpen
  exact hopen.statePtr

/-- A new object with nothing asked of it. -/
theorem start (b : Buffered UInt8 σ ω ρ) {o : StreamObject (Coder UInt8 σ ω ρ)}
    {handle : Nat} {s : σ} {buffer : Buffer} {requests : List (ω × List UInt8)}
    (hopen : o.IsOpen ⟨handle, s, []⟩ buffer)
    (hfilled : o.filled = []) (hcapacity : o.destinationBufferLength = b.capacity)
    (hvalid : ∀ r ∈ requests, valid r.1 r.2) (m : Memory) :
    Simulates b valid (.start m o requests) (.start handle s requests) where
  isOpen := ⟨buffer, hopen⟩
  capacity := hcapacity
  filled := hfilled
  results := rfl
  counts := rfl
  todo := rfl
  phase := rfl
  valid := hvalid

theorem offer (h : Simulates b valid c x) {request : ω × List UInt8}
    (hvalid : valid request.1 request.2) :
    Simulates b valid (c.offer request) (x.offer request) where
  isOpen := h.isOpen
  capacity := h.capacity
  filled := h.filled
  results := h.results
  counts := h.counts
  todo := congrArg (· ++ [request]) h.todo
  phase := h.phase
  valid r hr := by
    rcases List.mem_append.mp hr with hr | hr
    · exact h.valid r hr
    · exact List.mem_singleton.mp hr ▸ hvalid

/-- Neither can make its next request, or both make it. -/
theorem request_cases (h : Simulates b valid c x) (hperforms : Performs b valid method) :
    (c.request method = none ∧ x.call b = none) ∨
      ∃ c' x', c.request method = some c' ∧ x.call b = some x' ∧ Simulates b valid c' x' ∧
        (c.memory.Faultless → c'.memory.Faultless) := by
  obtain ⟨buffer, hopen⟩ := h.isOpen
  unfold StreamCaller.request Exchange.call
  rw [h.todo]
  cases htodo : x.todo with
  | nil => exact Or.inl ⟨rfl, rfl⟩
  | cons request rest =>
      obtain ⟨op, source⟩ := request
      have hvalid : valid op source := h.valid (op, source) (by simp [htodo])
      obtain ⟨outcome, m', o', buffer', hmethod, hm', hopen', hfilled', hcapacity', houtcome⟩ :=
        hperforms.call c.memory hopen h.capacity hvalid
          (show _ = x.answer b op source by rw [Exchange.answer, h.filled])
      rw [h.filled] at hopen' hfilled'
      simp only [h.phase, hmethod]
      -- Neither side makes a call while the buffer waits to be emptied.
      by_cases hfull : x.phase = .full
      · simp [hfull]
      · cases hfailed : b.failed (x.answer b op source).result with
        | true =>
            obtain ⟨e, rfl⟩ : ∃ e, outcome = .error e := by simpa [hfailed] using houtcome
            simp [hfull]
        | false =>
            obtain rfl : outcome = .ok ((x.answer b op source).consumed,
              b.more op (x.answer b op source).state (x.answer b op source).result) := by
              simpa [hfailed] using houtcome
            -- The count returned is the number of bytes the codec took.
            have hle := b.consumed_le x.coder.state op source (b.capacity - x.filled.length)
            have hcounts : (c.counts ++ [(x.answer b op source).consumed]).sum =
                (x.called b op source).coder.consumed.length := by
              simp only [List.sum_append, List.sum_singleton, h.counts, Exchange.called,
                Codec.call_consumed, List.length_append, List.length_take, Exchange.answer]
              omega
            have hrest : ∀ r ∈ rest, valid r.1 r.2 := fun r hr =>
              h.valid r (by simp [htodo, hr])
            simp only [hfull, false_or, Bool.false_eq_true, if_false]
            cases hmore : b.more op (x.answer b op source).state (x.answer b op source).result with
            | true =>
                refine Or.inr ⟨_, _, rfl, rfl, ⟨⟨buffer', hopen'⟩, hcapacity', hfilled', h.results,
                  hcounts, rfl, rfl, ?_⟩, hm'⟩
                -- What is left of a valid request is a valid request.
                intro r hr
                rcases List.mem_cons.mp hr with rfl | hr
                · exact hperforms.drop _ hvalid
                · exact hrest r hr
            | false =>
                exact Or.inr ⟨_, _, rfl, rfl, ⟨⟨buffer', hopen'⟩, hcapacity', hfilled', h.results,
                  hcounts, rfl, rfl, hrest⟩, hm'⟩

/-- The program takes what is in the buffer, or nothing happens. -/
theorem readResult_cases (h : Simulates b valid c x) :
    (¬ c.memory.Faultless ∧ Simulates b valid c.readResult x) ∨
      Simulates b valid c.readResult x.take ∧
        (c.memory.Faultless → c.readResult.memory.Faultless) := by
  obtain ⟨buffer, hopen⟩ := h.isOpen
  rcases hopen.readResult c.memory with
    ⟨hfault, m', hread⟩ | ⟨m', o', hread, hm', hopen', hfilled', hcapacity'⟩
  -- `rb_str_new` raised: the exchange makes a move without effect.
  · left
    refine ⟨hfault, ?_⟩
    simp only [StreamCaller.readResult, hread]
    exact ⟨⟨buffer, hopen⟩, h.capacity, h.filled, h.results, h.counts, h.todo, h.phase, h.valid⟩
  · right
    simp only [StreamCaller.readResult, hread, h.phase]
    refine ⟨⟨⟨buffer, hopen'⟩, hcapacity'.trans h.capacity, hfilled', ?_, h.counts, h.todo, rfl,
      h.valid⟩, hm'⟩
    simp only [List.flatten_append, List.flatten_singleton, h.results, h.filled, Exchange.take]

theorem step (h : Simulates b valid c x) (hperforms : Performs b valid method)
    {move : CallerMove} (hc : c.step method move = some c') :
    ∃ move' x', x.step b move' = some x' ∧ Simulates b valid c' x' ∧
      (move' = .call ↔ move = .request) := by
  cases move with
  | request =>
      rcases h.request_cases hperforms with ⟨hnone, -⟩ | ⟨c₁, x', hrequest, hx, hsim, -⟩
      · rw [StreamCaller.step, hnone] at hc
        cases hc
      · obtain rfl := Option.some.inj (hrequest.symm.trans hc)
        exact ⟨.call, x', hx, hsim, by simp⟩
  | readResult =>
      obtain rfl := Option.some.inj hc
      rcases h.readResult_cases with ⟨-, hsim⟩ | ⟨hsim, -⟩
      · exact ⟨.miss, x, rfl, hsim, by simp⟩
      · exact ⟨.take, x.take, rfl, hsim, by simp⟩

/-- Every run of the program is a run of the exchange. -/
theorem run (h : Simulates b valid c x) (hperforms : Performs b valid method)
    {moves : List CallerMove} (hc : StreamCaller.run method moves c = some c') :
    ∃ moves' x', Exchange.run b moves' x = some x' ∧ Simulates b valid c' x' ∧
      moves'.count .call = moves.count .request := by
  induction moves generalizing c x with
  | nil =>
      obtain rfl := Option.some.inj hc
      exact ⟨[], x, rfl, h, rfl⟩
  | cons move rest ih =>
      obtain ⟨c₁, hstep, hrest⟩ := Option.bind_eq_some_iff.mp hc
      obtain ⟨move', x₁, hx, hsim, hiff⟩ := h.step hperforms hstep
      obtain ⟨moves', x', hrun, hsim', hcount⟩ := ih hsim hrest
      refine ⟨move' :: moves', x', ?_, hsim', ?_⟩
      · rw [Exchange.run, hx]
        exact hrun
      · simp only [List.count_cons, hcount, beq_iff_eq, hiff]

section Steady

variable {bound : Nat} {I : Exchange UInt8 σ ω ρ → Prop}

/-- Without allocation faults the result can be taken. -/
theorem readResult (h : Simulates b valid c x) (hm : c.memory.Faultless) :
    Simulates b valid c.readResult x.take ∧ c.readResult.memory.Faultless := by
  rcases h.readResult_cases with ⟨hfault, -⟩ | ⟨hsim, hm'⟩
  · exact absurd hm hfault
  · exact ⟨hsim, hm' hm⟩

/-- Then the next request can be made, after taking the result where that is
    needed. -/
theorem proceeds (hsteady : Exchange.Steady b bound I) (hperforms : Performs b valid method)
    (h : Simulates b valid c x) (hx : I x) (hm : c.memory.Faultless) (htodo : x.todo ≠ []) :
    ∃ moves c' x', StreamCaller.run method moves c = some c' ∧ Simulates b valid c' x' ∧ I x' ∧
      c'.memory.Faultless ∧ x'.coder.calls.length = x.coder.calls.length + 1 := by
  have hrequest : ∀ {c x}, Simulates b valid c x → I x → c.memory.Faultless → x.todo ≠ [] →
      x.phase ≠ .full → ∃ c' x', c.request method = some c' ∧ Simulates b valid c' x' ∧ I x' ∧
        c'.memory.Faultless ∧ x'.coder.calls.length = x.coder.calls.length + 1 := by
    intro c x h hx hm htodo hphase
    obtain ⟨x', hcall⟩ := hsteady.can hx htodo hphase
    rcases h.request_cases hperforms with ⟨-, hnone⟩ | ⟨c', x'', hc, hcall', hsim, hm'⟩
    · rw [hnone] at hcall
      cases hcall
    · exact ⟨c', x'', hc, hsim, hsteady.call hx hcall', hm' hm, Exchange.call_length hcall'⟩
  -- A full buffer takes two moves, anything else one.
  by_cases hphase : x.phase = .full
  · obtain ⟨hsim, hm'⟩ := h.readResult hm
    have hagain : x.take.phase ≠ .full := by simp [Exchange.take, hphase]
    obtain ⟨c', x', hc, hrest⟩ := hrequest hsim (hsteady.take hx) hm' htodo hagain
    exact ⟨[.readResult, .request], c', x', by simp [StreamCaller.run, StreamCaller.step, hc],
      hrest⟩
  · obtain ⟨c', x', hc, hrest⟩ := hrequest h hx hm htodo hphase
    exact ⟨[.request], c', x', by simp [StreamCaller.run, StreamCaller.step, hc], hrest⟩

/-- And so the program can come to the end of its requests, and take the last
    result. -/
theorem completes (hsteady : Exchange.Steady b bound I) (hperforms : Performs b valid method)
    (h : Simulates b valid c x) (hx : I x) (hm : c.memory.Faultless) :
    ∃ moves c', StreamCaller.run method moves c = some c' ∧ c'.todo = [] ∧
      c'.object.filled = [] := by
  -- The induction is on the calls that are left.
  induction hleft : bound - x.coder.calls.length using Nat.strong_induction_on
    generalizing c x with
  | _ left ih =>
      by_cases htodo : x.todo = []
      · obtain ⟨hsim, -⟩ := h.readResult hm
        exact ⟨[.readResult], c.readResult, rfl, hsim.todo.trans htodo, hsim.filled⟩
      · obtain ⟨moves, c₁, x₁, hrun, hsim, hx₁, hm₁, hlength⟩ :=
          proceeds hsteady hperforms h hx hm htodo
        have hbounded := hsteady.bounded hx₁
        obtain ⟨moves', c', hrun', hdone⟩ := ih _ (by omega) hsim hx₁ hm₁ rfl
        exact ⟨moves ++ moves', c', by rw [StreamCaller.run_append, hrun]; exact hrun', hdone⟩

/-- Where requests may raise, the program can come to the end of its requests or to
    an exception. -/
theorem stops (hconfined : Exchange.Confined b bound I) (hperforms : Performs b valid method)
    (h : Simulates b valid c x) (hx : I x) (hm : c.memory.Faultless) :
    ∃ moves c', StreamCaller.run method moves c = some c' ∧ c'.memory.Faultless ∧
      (c'.todo = [] ∧ c'.object.filled = [] ∨ ∃ e, c'.Raises method e) := by
  -- The induction is on the calls that are left.
  induction hleft : bound - x.coder.calls.length using Nat.strong_induction_on
    generalizing c x with
  | _ left ih =>
      by_cases htodo : x.todo = []
      · obtain ⟨hsim, hm'⟩ := h.readResult hm
        exact ⟨[.readResult], c.readResult, rfl, hm',
          Or.inl ⟨hsim.todo.trans htodo, hsim.filled⟩⟩
      -- A full buffer is emptied first, and then there is a request to be made.
      · have hgo : ∀ {c x}, Simulates b valid c x → I x → c.memory.Faultless →
            bound - x.coder.calls.length = left → x.todo ≠ [] → x.phase ≠ .full →
            ∃ moves c', StreamCaller.run method moves c = some c' ∧ c'.memory.Faultless ∧
              (c'.todo = [] ∧ c'.object.filled = [] ∨ ∃ e, c'.Raises method e) := by
          intro c x h hx hm hleft htodo hphase
          rcases h.request_cases hperforms with ⟨hnone, -⟩ | ⟨c₁, x₁, hrequest, hcall, hsim, hm'⟩
          · exact ⟨[], c, rfl, hm, Or.inr (StreamCaller.raises_of_none (h.todo ▸ htodo)
              (h.phase ▸ hphase) hnone)⟩
          · have hx₁ := hconfined.call hx hcall
            have hlength := Exchange.call_length hcall
            have hbounded := hconfined.bounded hx₁
            obtain ⟨moves, c', hrun, hstop⟩ := ih _ (by omega) hsim hx₁ (hm' hm) rfl
            exact ⟨.request :: moves, c', by
              rw [StreamCaller.run, StreamCaller.step, hrequest]
              exact hrun, hstop⟩
        by_cases hphase : x.phase = .full
        · obtain ⟨hsim, hm'⟩ := h.readResult hm
          have hagain : x.take.phase ≠ .full := by simp [Exchange.take, hphase]
          obtain ⟨moves, c', hrun, hstop⟩ :=
            hgo hsim (hconfined.take hx) hm' hleft htodo hagain
          exact ⟨.readResult :: moves, c', hrun, hstop⟩
        · exact hgo h hx hm hleft htodo hphase

/-- Wherever a run is, the invariant holds, the number of requests is bounded, the
    next request does not raise, and the end can be reached. -/
theorem reached (hsteady : Exchange.Steady b bound I) (hperforms : Performs b valid method)
    (h : Simulates b valid c x) (hx : I x) {moves : List CallerMove}
    (hrun : StreamCaller.run method moves c = some c') :
    (∃ x', Simulates b valid c' x' ∧ I x') ∧ moves.count .request ≤ bound ∧
      (c'.todo ≠ [] → c'.phase ≠ .full → ∃ c'', c'.request method = some c'') ∧
      (c'.memory.Faultless → ∃ rest c'', StreamCaller.run method rest c' = some c'' ∧
        c''.todo = [] ∧ c''.object.filled = []) := by
  obtain ⟨moves', x', hrun', hsim, hcount⟩ := h.run hperforms hrun
  have hx' : I x' := hsteady.run hx hrun'
  refine ⟨⟨x', hsim, hx'⟩, ?_, fun htodo hphase => ?_, completes hsteady hperforms hsim hx'⟩
  · have hbounded := hsteady.bounded hx'
    have hcalls := Exchange.run_calls hrun'
    omega
  · obtain ⟨x'', hcall⟩ := hsteady.can hx' (hsim.todo ▸ htodo) (hsim.phase ▸ hphase)
    rcases hsim.request_cases hperforms with ⟨-, hnone⟩ | ⟨c'', -, hc, -⟩
    · rw [hnone] at hcall
      cases hcall
    · exact ⟨c'', hc⟩

end Steady

end Simulates

end RubyBrs
