/-
  RubyBrs.Ext.StreamOutlet

  What a native streaming object is for, and that it is that: an `Outlet` of its
  codec while it is in use, and nothing while it is not.

  `Answers` says what a method may return and what becomes of the outlet, and every
  method does so (`StreamMethod.answers`), whatever the codec does and whichever
  allocations fail.  So from the results of any calls in any order one can tell what
  has become of every byte (`life_refines`): `Books` are kept from the results alone.
-/

import RubyBrs.Lib.Outlet
import RubyBrs.Ext.StreamMethods

namespace RubyBrs

open StreamCodec

variable {σ τ κ χ ω ρ : Type}

/-! ## The methods of an outlet -/

/-- What a library call returns. -/
def LibraryCall.outcome (call : LibraryCall σ ω ρ) (sourceValue : Option Argument)
    (coder : Coder UInt8 σ ω ρ) (answer : Answer UInt8 σ ρ) : Except RubyError Reply :=
  match call.failure coder answer.result with
  | some extResult => .error (brsExtRaiseError extResult)
  | none =>
      .ok (StreamMethod.reply sourceValue
        (answer.consumed, call.more answer.state answer.result))

/-- The methods, as they are seen from outside; `none` is an object not in use. -/
inductive Answers : StreamMethod σ ω ρ → Option (Outlet UInt8 σ ω ρ) → Except RubyError Reply →
    Option (Outlet UInt8 σ ω ρ) → Prop
  | notInitialized (initializer : Initializer σ ω ρ) (s : Option (Outlet UInt8 σ ω ρ))
      (e : RubyError) : Answers (.initializes initializer) s (.error e) s
  | initialized (initializer : Initializer σ ω ρ) (s : Option (Outlet UInt8 σ ω ρ))
      {coder : Coder UInt8 σ ω ρ} (hcalls : coder.calls = []) (capacity : Nat) :
      Answers (.initializes initializer) s (.ok .nil) (some (.opened coder capacity))
  | refused {method : StreamMethod σ ω ρ} (hrole : method.role ≠ .opens) :
      Answers method none (.error (brsExtRaiseError .usedAfterClose)) none
  | unfit (call : LibraryCall σ ω ρ) {sourceValue : Option Argument} {e : RubyError}
      (hsource : StreamMethod.checkSource sourceValue = .error e) (x : Outlet UInt8 σ ω ρ) :
      Answers (.calls call sourceValue) (some x) (.error e) (some x)
  | called (call : LibraryCall σ ω ρ) {sourceValue : Option Argument} {source : List UInt8}
      (hsource : StreamMethod.checkSource sourceValue = .ok source) (x : Outlet UInt8 σ ω ρ) :
      Answers (.calls call sourceValue) (some x)
        (call.outcome sourceValue (x.call call.codec call.operation source).coder
          (x.answer call.codec call.operation source))
        (some (x.call call.codec call.operation source))
  | taken (x : Outlet UInt8 σ ω ρ) :
      Answers .readResult (some x) (.ok (.string x.queue)) (some x.take)
  | notTaken (x : Outlet UInt8 σ ω ρ) :
      Answers .readResult (some x) (.error .noMemoryError) (some x)
  | closed (x : Outlet UInt8 σ ω ρ) : Answers .close (some x) (.ok .nil) none

/-- The object is this outlet. -/
def StreamObject.Abstracts (o : StreamObject (Coder UInt8 σ ω ρ)) :
    Option (Outlet UInt8 σ ω ρ) → Prop
  | none => o.statePtr = none ∧ o.destinationBuffer = none
  | some x => ∃ buffer, o.IsOpen x.coder buffer ∧ o.filled = x.queue ∧
      o.destinationBufferLength = x.capacity

namespace StreamMethod

variable {m : Memory} {o : StreamObject (Coder UInt8 σ ω ρ)} {s : Option (Outlet UInt8 σ ω ρ)}

/-- What a method has come to is an answer of the outlet. -/
def Refined (method : StreamMethod σ ω ρ) (s : Option (Outlet UInt8 σ ω ρ))
    (r : MethodResult Reply (Coder UInt8 σ ω ρ)) : Prop :=
  ∃ s', Answers method s r.1 s' ∧ r.2.2.Abstracts s'

theorem initializes_answers (initializer : Initializer σ ω ρ) (h : o.Abstracts s) (m : Memory) :
    (initializes initializer).Refined s ((initializes initializer).perform m o) := by
  rcases initializer.holds m o with
    ⟨e, m', heq, -⟩ | ⟨m', o', coder, buffer, heq, hopen, -, -⟩
  · rw [perform, heq]
    exact ⟨s, .notInitialized initializer s e, h⟩
  · obtain ⟨hfilled, hcalls⟩ := initializer.fresh heq
    rw [perform, heq]
    exact ⟨_, .initialized initializer s (hcalls coder hopen.statePtr) o'.destinationBufferLength,
      buffer, hopen, hfilled, rfl⟩

/-- The other methods check first that the object is in use. -/
theorem refused_answers {method : StreamMethod σ ω ρ} (hrole : method.role ≠ .opens)
    (h : o.Abstracts none) {rest : Coder UInt8 σ ω ρ → Buffer → MethodResult Reply _}
    (m : Memory) : method.Refined none (o.unlessClosed m rest) := by
  rw [StreamObject.unlessClosed_of_none h.1]
  exact ⟨none, .refused hrole, h⟩

theorem calls_answers (call : LibraryCall σ ω ρ) (sourceValue : Option Argument)
    (h : o.Abstracts s) (m : Memory) :
    (calls call sourceValue).Refined s ((calls call sourceValue).perform m o) := by
  rw [perform]
  cases s with
  | none => exact refused_answers (by simp [role]) h m
  | some x =>
      have hsame := h
      obtain ⟨buffer, hopen, hfilled, hcapacity⟩ := h
      rw [hopen.unlessClosed]
      split
      · rename_i e hsource
        exact ⟨some x, .unfit call hsource x, hsame⟩
      · rename_i source hsource
        have hroom : o.destinationBufferLength - o.filled.length = x.room := by
          rw [hfilled, hcapacity, Outlet.room]
        obtain ⟨m', o', buffer', heq, -, hopen', hfilled', hcapacity'⟩ :=
          hopen.streamCall call source m rfl
        rw [hroom] at heq hopen' hfilled'
        have houtcome : ((o.streamCall call source m
            x.coder).map (reply sourceValue)).1 =
              call.outcome sourceValue (x.call call.codec call.operation source).coder
                (x.answer call.codec call.operation source) := by
          rw [heq]
          unfold LibraryCall.outcome Outlet.call Outlet.answer
          cases call.failure (call.codec.call x.coder call.operation source x.room)
            (call.codec.stream x.coder.state call.operation source x.room).result <;> rfl
        refine ⟨some (x.call call.codec call.operation source), ?_, ?_⟩
        · rw [houtcome]
          exact .called call hsource x
        · rw [heq]
          exact ⟨buffer', hopen', hfilled'.trans (by rw [hfilled]; rfl), hcapacity'.trans hcapacity⟩

theorem readResult_answers (h : o.Abstracts s) (m : Memory) :
    (readResult : StreamMethod σ ω ρ).Refined s
      ((readResult : StreamMethod σ ω ρ).perform m o) := by
  cases s with
  | none =>
      rw [perform, StreamObject.readResult, StreamObject.unlessClosed_map]
      exact refused_answers (by simp [role]) h m
  | some x =>
      have hsame := h
      obtain ⟨buffer, hopen, hfilled, hcapacity⟩ := h
      rw [perform]
      rcases hopen.readResult m with
        ⟨-, m', heq⟩ | ⟨m', o', heq, -, hopen', hfilled', hcapacity'⟩
      · rw [heq]
        exact ⟨some x, .notTaken x, hsame⟩
      · rw [heq, hfilled]
        exact ⟨some x.take, .taken x, buffer, hopen', hfilled', hcapacity'.trans hcapacity⟩

theorem close_answers (h : o.Abstracts s) (m : Memory) :
    (close : StreamMethod σ ω ρ).Refined s ((close : StreamMethod σ ω ρ).perform m o) := by
  cases s with
  | none =>
      rw [perform, StreamObject.close, StreamObject.unlessClosed_map]
      exact refused_answers (by simp [role]) h m
  | some x =>
      obtain ⟨buffer, hopen, -, -⟩ := h
      rw [perform, StreamObject.close, hopen.unlessClosed]
      exact ⟨none, .closed x, rfl, rfl⟩

theorem answers (method : StreamMethod σ ω ρ) (h : o.Abstracts s) (m : Memory) :
    method.Refined s (method.perform m o) := by
  cases method with
  | initializes initializer => exact initializes_answers initializer h m
  | calls call sourceValue => exact calls_answers call sourceValue h m
  | readResult => exact readResult_answers h m
  | close => exact close_answers h m

end StreamMethod

/-! ## Lives -/

/-- A call of a method, and how it was left. -/
abbrev LifeEntry (σ ω ρ : Type) := StreamMethod σ ω ρ × Except RubyError Reply

/-- Make some calls, one after the other, whether they raise or not, and keep what they
    return. -/
def NativeClass.life (C : NativeClass χ κ) : List χ → Memory → StreamObject κ →
    List (χ × Except RubyError Reply) × Memory × StreamObject κ
  | [], m, o => ([], m, o)
  | call :: rest, m, o =>
      let r := C.invoke call m o
      let later := C.life rest r.2.1 r.2.2
      ((call, r.1) :: later.1, later.2)

/-- Calls as the methods that they are, with their replies. -/
def asMethods (method : χ → StreamMethod σ ω ρ) (entries : List (χ × Except RubyError Reply)) :
    List (LifeEntry σ ω ρ) :=
  entries.map fun entry => (method entry.1, entry.2)

def NativeClass.trace (C : NativeClass χ (Coder UInt8 σ ω ρ)) (method : χ → StreamMethod σ ω ρ)
    (calls : List χ) (m : Memory) (o : StreamObject (Coder UInt8 σ ω ρ)) :
    List (LifeEntry σ ω ρ) :=
  asMethods method (C.life calls m o).1

/-- The object is left as it is when nobody looks at the replies. -/
theorem NativeClass.life_run (C : NativeClass χ κ) (calls : List χ) (m : Memory)
    (o : StreamObject κ) (inUse : Bool) :
    (C.life calls m o).2 =
      ((C.run calls ⟨m, o, inUse⟩).memory, (C.run calls ⟨m, o, inUse⟩).self) := by
  induction calls generalizing m o inUse with
  | nil => rfl
  | cons call rest ih => exact ih _ _ _

/-- The life of an outlet, and of what was in its place before and after. -/
inductive Lives : Option (Outlet UInt8 σ ω ρ) → List (LifeEntry σ ω ρ) →
    Option (Outlet UInt8 σ ω ρ) → Prop
  | nil (s : Option (Outlet UInt8 σ ω ρ)) : Lives s [] s
  | cons {s s' s'' : Option (Outlet UInt8 σ ω ρ)} {method : StreamMethod σ ω ρ}
      {reply : Except RubyError Reply} {rest : List (LifeEntry σ ω ρ)}
      (hanswers : Answers method s reply s') (hlives : Lives s' rest s'') :
      Lives s ((method, reply) :: rest) s''

/-- The life of an object is one of an outlet, with the same results. -/
theorem StreamObject.Abstracts.life {C : NativeClass χ (Coder UInt8 σ ω ρ)}
    {method : χ → StreamMethod σ ω ρ} (hC : C.Made method)
    {o : StreamObject (Coder UInt8 σ ω ρ)} {s : Option (Outlet UInt8 σ ω ρ)} (h : o.Abstracts s)
    (calls : List χ) (m : Memory) :
    ∃ s', Lives s (C.trace method calls m o) s' ∧ (C.life calls m o).2.2.Abstracts s' := by
  induction calls generalizing o s m with
  | nil => exact ⟨s, .nil s, h⟩
  | cons call rest ih =>
      obtain ⟨s₁, hanswers, h₁⟩ := (method call).answers h m
      rw [hC.invoke] at hanswers h₁
      obtain ⟨s', hlives, h'⟩ := ih h₁ (C.invoke call m o).2.1
      exact ⟨s', .cons hanswers hlives, h'⟩

/-! ## Books -/

/-- What one who calls the methods knows since the object was initialized: the bytes
    that were given to the codec, unless a call of it has failed, and the bytes that
    were taken. -/
structure Books where
  given : Option (List UInt8)
  taken : List UInt8

namespace Books

/-- The bytes of a string that were taken, by the number that was returned. -/
def counted : Option Argument → Reply → List UInt8
  | some (.value (.string source)), .count bytes _ => source.take bytes
  | _, _ => []

def enter (b : Books) : LifeEntry σ ω ρ → Books
  | (.initializes _, .ok _) => ⟨some [], []⟩
  | (.calls _ sourceValue, .ok reply) =>
      { b with given := b.given.map (· ++ counted sourceValue reply) }
  | (.calls _ sourceValue, .error _) =>
      match StreamMethod.checkSource sourceValue with
      | .ok _ => { b with given := none }
      | .error _ => b
  | (.readResult, .ok (.string value)) => { b with taken := b.taken ++ value }
  | _ => b

def enterAll (b : Books) (trace : List (LifeEntry σ ω ρ)) : Books := trace.foldl enter b

/-- The books of an object are right: they have what the codec has taken, and with
    what is in the buffer all that it has emitted. -/
structure Right (b : Books) (x : Outlet UInt8 σ ω ρ) : Prop where
  given : ∀ given, b.given = some given → given = x.coder.consumed
  taken : x.Delivers b.taken

theorem counted_reply {sourceValue : Option Argument} {source : List UInt8}
    (h : StreamMethod.checkSource sourceValue = .ok source) (count : Nat) (more : Bool) :
    counted sourceValue (StreamMethod.reply sourceValue (count, more)) = source.take count := by
  cases sourceValue with
  | none =>
      obtain rfl := Except.ok.inj h
      rw [List.take_nil]
      rfl
  | some value =>
      cases value with
      | hash hash => cases h
      | value value =>
          cases value with
          | string bytes =>
              obtain rfl := Except.ok.inj h
              rfl
          | _ => cases h

/-- The books stay right, whatever a method answers. -/
theorem enter_right {b : Books} {method : StreamMethod σ ω ρ}
    {s s' : Option (Outlet UInt8 σ ω ρ)} {reply : Except RubyError Reply}
    (h : Answers method s reply s') (hb : ∀ x, s = some x → b.Right x) :
    ∀ x, s' = some x → (b.enter (method, reply)).Right x := by
  intro x' hx'
  cases h with
  | notInitialized initializer _ e => exact hb x' hx'
  | initialized initializer _ hcalls capacity =>
      obtain rfl := Option.some.inj hx'
      refine ⟨fun given hgiven => ?_, Outlet.delivers_opened hcalls capacity⟩
      obtain rfl := Option.some.inj hgiven
      simp [Outlet.opened, Coder.consumed, hcalls]
  | refused _ => cases hx'
  | unfit call hsource x =>
      simp only [enter, hsource]
      exact hb x' hx'
  | @called call sourceValue source hsource x =>
      obtain rfl := Option.some.inj hx'
      obtain ⟨hgiven, htaken⟩ := hb x rfl
      have hdelivers := htaken.call call.codec call.operation source
      unfold LibraryCall.outcome
      cases call.failure (x.call call.codec call.operation source).coder
        (x.answer call.codec call.operation source).result with
      | some extResult =>
          simp only [enter, hsource]
          exact ⟨fun given hnone => absurd hnone (by simp), hdelivers⟩
      | none =>
          refine ⟨fun given hsome => ?_, hdelivers⟩
          obtain ⟨before, hbefore, rfl⟩ := Option.map_eq_some_iff.mp hsome
          rw [counted_reply hsource, Outlet.call_consumed, hgiven before hbefore]
  | taken x =>
      obtain rfl := Option.some.inj hx'
      obtain ⟨hgiven, htaken⟩ := hb x rfl
      exact ⟨hgiven, htaken.take⟩
  | notTaken x => exact hb x' hx'
  | closed x => cases hx'

theorem enterAll_right {b : Books} {s s' : Option (Outlet UInt8 σ ω ρ)}
    {trace : List (LifeEntry σ ω ρ)} (h : Lives s trace s') (hb : ∀ x, s = some x → b.Right x) :
    ∀ x, s' = some x → (b.enterAll trace).Right x := by
  induction h generalizing b with
  | nil _ => exact hb
  | cons hanswers _ ih => exact ih (enter_right hanswers hb)

end Books

/-! ## Both classes -/

/-- After these calls on a new object: it is what an outlet has come to that answered
    the same, and the books that were kept of the answers are right. -/
def NativeClass.Refines (C : NativeClass χ (Coder UInt8 σ ω ρ)) (method : χ → StreamMethod σ ω ρ)
    (calls : List χ) (m : Memory) (self : StreamObject (Coder UInt8 σ ω ρ)) : Prop :=
  ∃ s, Lives none (C.trace method calls m self) s ∧
    (C.run calls ⟨m, self, false⟩).self.Abstracts s ∧
    ∀ x, s = some x → (Books.enterAll ⟨none, []⟩ (C.trace method calls m self)).Right x

theorem StreamObject.Abstracts.refines {C : NativeClass χ (Coder UInt8 σ ω ρ)}
    {method : χ → StreamMethod σ ω ρ} (hC : C.Made method)
    {o : StreamObject (Coder UInt8 σ ω ρ)} (h : o.Abstracts none) (calls : List χ) (m : Memory) :
    C.Refines method calls m o := by
  obtain ⟨s, hlives, habstracts⟩ := h.life hC calls m
  rw [C.life_run calls m o false] at habstracts
  exact ⟨s, hlives, habstracts, Books.enterAll_right hlives fun x hx => by cases hx⟩

theorem allocate_abstracts {m m' : Memory} {o : StreamObject (Coder UInt8 σ ω ρ)}
    (h : StreamObject.allocate m = (.ok o, m')) : o.Abstracts none := by
  rcases hallocate : m.allocate with ⟨_ | handle, m₁⟩
  · simp only [StreamObject.allocate, hallocate] at h
    cases h
  · simp only [StreamObject.allocate, hallocate] at h
    obtain ⟨ho, -⟩ := Prod.mk.inj h
    obtain rfl := Except.ok.inj ho
    exact ⟨rfl, rfl⟩

/-- Whatever is called on a native object, in whichever order, whatever the library does
    and whichever allocations fail: it answers as an outlet of the library does, and at
    any time while it is in use the strings that `read_result` has returned since its
    initialization, and then the bytes in its buffer, are all that the library has
    emitted.  As long as no library call has failed, the bytes that its methods have
    counted are all that the library has taken. -/
theorem life_refines (m₀ : Memory) :
    (∀ (self : Compressor σ) m, nativeCompressor.allocate m₀ = (.ok self, m) →
      ∀ calls, nativeCompressor.Refines nativeCompressorMethod calls m self) ∧
    ∀ (self : Decompressor τ) m, nativeDecompressor.allocate m₀ = (.ok self, m) →
      ∀ calls, nativeDecompressor.Refines nativeDecompressorMethod calls m self := by
  constructor
  · intro self m hallocate calls
    exact (allocate_abstracts hallocate).refines nativeCompressor_made calls m
  · intro self m hallocate calls
    exact (allocate_abstracts hallocate).refines nativeDecompressor_made calls m

/-- A compressor whose caller tries to open it again while it is in use, does not give
    it a string, and leaves a byte in it. -/
theorem life_refines_stored :
    ∃ (self : Compressor StoredEncoderState) (m : Memory),
      nativeCompressor.allocate .unused = (.ok self, m) ∧
      nativeCompressor.Refines nativeCompressorMethod
        [(storedEncoder, .initializeCompressor (.hash oneByteOptions)),
          (storedEncoder, .compress (.value (.string [7]))), (storedEncoder, .readResult),
          (storedEncoder, .initializeCompressor (.value .nil)),
          (storedEncoder, .compress (.value .nil)), (storedEncoder, .flushCompressor)] m self ∧
      Books.enterAll ⟨none, []⟩ (nativeCompressor.trace nativeCompressorMethod
        [(storedEncoder, .initializeCompressor (.hash oneByteOptions)),
          (storedEncoder, .compress (.value (.string [7]))), (storedEncoder, .readResult),
          (storedEncoder, .initializeCompressor (.value .nil)),
          (storedEncoder, .compress (.value .nil)), (storedEncoder, .flushCompressor)] m self) =
        ⟨some [7], [0x0b]⟩ := by
  obtain ⟨hcompressor, -⟩ :=
    life_refines (σ := StoredEncoderState) (τ := List UInt8 × Nat) .unused
  exact ⟨_, _, rfl, hcompressor _ _ rfl _, rfl⟩

end RubyBrs
