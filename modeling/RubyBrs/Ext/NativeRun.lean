/-
  RubyBrs.Ext.NativeRun

  The one-shot functions of the extension from end to end.

  A call that gets as far as its loops has passed all of its checks, configured
  a codec instance and allocated non-empty buffers: that is `StringStarted` and
  `IoStarted`.  `stringCall_ok` and `ioCall_cases` say how such a function can be
  left, and `stringCall_run` and `ioCall_run` that it does come to its loops when
  no allocation fails and its options are accepted.
-/

import RubyBrs.Ext.Native

namespace RubyBrs

open StreamCodec

variable {σ ω ρ θ : Type} {create : σ} {setOptions : σ → θ → ExtResult × σ}
  {getCodecOptions : Hash → Except RubyError θ}

/-! ## Allocation -/

/-- No instance, or a new one in the state that its options leave it in. -/
theorem createCoder_cases (create : σ) (setOptions : σ → ExtResult × σ) (m : Memory) :
    (∃ e m', (createCoder create setOptions m : Except RubyError (Coder UInt8 σ ω ρ) × Memory) =
      (.error e, m')) ∨
    ∃ handle s m', setOptions create = (.ok, s) ∧
      (createCoder create setOptions m : Except RubyError (Coder UInt8 σ ω ρ) × Memory) =
        (.ok ⟨handle, s, []⟩, m') := by
  rcases m.allocate_cases with ⟨_, heq⟩ | heq
  · exact Or.inl ⟨_, _, by rw [createCoder, heq]⟩
  · rcases hset : setOptions create with ⟨extResult, s⟩
    by_cases hok : extResult = .ok
    · subst hok
      refine Or.inr ⟨m.next, s, { m with next := m.next + 1, live := m.next :: m.live }, rfl, ?_⟩
      simp only [createCoder, heq, hset]
    · refine Or.inl ⟨brsExtRaiseError extResult, m.allocate.2.release m.next, ?_⟩
      simp only [createCoder, heq, hset]

theorem createCoder_faultless (setOptions : σ → ExtResult × σ) {m : Memory} {s : σ}
    (hm : m.Faultless) (hset : setOptions create = (.ok, s)) :
    ∃ handle m', (createCoder create setOptions m : Except RubyError (Coder UInt8 σ ω ρ) ×
      Memory) = (.ok ⟨handle, s, []⟩, m') ∧ m'.Faultless := by
  rcases m.allocate_cases with ⟨hfault, _⟩ | heq
  · exact absurd hm hfault
  · refine ⟨m.next, { m with next := m.next + 1, live := m.next :: m.live }, ?_,
      hm.later rfl (Nat.le_succ _)⟩
    simp only [createCoder, heq, hset]

theorem createStringBuffer_cases (m : Memory) (length : Nat) :
    (¬ m.Faultless ∧ ∃ m', createStringBuffer m length = (none, m')) ∨
    ∃ value m', createStringBuffer m length = (some value, m') ∧ value.length = length ∧
      (m.Faultless → m'.Faultless) := by
  rcases m.allocateString_cases (m.fresh length) with ⟨hfault, heq⟩ | heq
  · exact Or.inl ⟨hfault, _, heq⟩
  · exact Or.inr ⟨_, _, heq, m.fresh_length length, fun hm => hm.step⟩

theorem mallocBuffer_cases (m : Memory) (length : Nat) :
    (¬ m.Faultless ∧ ∃ m', mallocBuffer m length = (none, m')) ∨
    ∃ buffer m', mallocBuffer m length = (some buffer, m') ∧ buffer.bytes.length = length ∧
      (m.Faultless → m'.Faultless) := by
  rcases m.allocate_cases with ⟨hfault, heq⟩ | heq
  · exact Or.inl ⟨hfault, _, by rw [mallocBuffer, heq]; rfl⟩
  · exact Or.inr ⟨⟨m.next, m.fresh length⟩,
      { m with next := m.next + 1, live := m.next :: m.live },
      by rw [mallocBuffer, heq]; rfl, m.fresh_length length,
      fun hm => hm.later rfl (Nat.le_succ _)⟩

theorem createBuffers_cases (m : Memory) (sourceBufferLength destinationBufferLength : Nat) :
    (¬ m.Faultless ∧ ∃ m', createBuffers m sourceBufferLength destinationBufferLength =
      (none, m')) ∨
    ∃ sourceBuffer destinationBuffer m',
      createBuffers m sourceBufferLength destinationBufferLength =
        (some (sourceBuffer, destinationBuffer), m') ∧
      sourceBuffer.bytes.length = sourceBufferLength ∧
      destinationBuffer.bytes.length = destinationBufferLength := by
  rcases mallocBuffer_cases m sourceBufferLength with
    ⟨hfault, m', heq⟩ | ⟨sourceBuffer, m', heq, hsource, hm'⟩
  · exact Or.inl ⟨hfault, m', by simp only [createBuffers, heq]⟩
  · rcases mallocBuffer_cases m' destinationBufferLength with
      ⟨hfault, m'', heq'⟩ | ⟨destinationBuffer, m'', heq', hdestination, _⟩
    · exact Or.inl ⟨fun hm => hfault (hm' hm), _, by simp only [createBuffers, heq, heq']; rfl⟩
    · exact Or.inr ⟨sourceBuffer, destinationBuffer, m'', by simp only [createBuffers, heq, heq'],
        hsource, hdestination⟩

theorem orDefault_pos {length default : Nat} (h : 0 < default) : 0 < orDefault length default := by
  unfold orDefault
  split <;> omega

/-! ## Arguments -/

theorem checkString_ok {argument : Argument} {bytes : List UInt8}
    (h : checkString argument = .ok bytes) : argument = .value (.string bytes) := by
  unfold checkString at h
  split at h
  · rw [Except.ok.inj h]
  · cases h

theorem checkHash_ok {argument : Argument} {hash : Hash} (h : checkHash argument = .ok hash) :
    argument = .hash hash := by
  unfold checkHash at h
  split at h
  · rw [Except.ok.inj h]
  · cases h

theorem getFile_ok {φ : Type} {argument : FileArgument φ} {f : φ}
    (h : getFile argument = .ok f) : argument = .file f := by
  cases argument with
  | file f' => rw [Except.ok.inj h]
  | _ => cases h

/-! ## Calls on strings -/

/-- What a function on strings has when it comes to its loop. -/
structure StringStarted (getCodecOptions : Hash → Except RubyError θ) (create : σ)
    (setOptions : σ → θ → ExtResult × σ) (sourceValue options : Argument) where
  source : List UInt8
  source_eq : sourceValue = .value (.string source)
  hash : Hash
  options_eq : options = .hash hash
  read : StringOptions θ
  read_eq : getStringOptions getCodecOptions hash = .ok read
  state : σ
  set_eq : setOptions create read.codec = (.ok, state)
  handle : Nat
  memory : Memory
  destinationValue : List UInt8
  destinationValue_pos : 0 < destinationValue.length

/-- What was read and set is decided by the arguments. -/
theorem StringStarted.of_args {source : List UInt8} {hash : Hash} {read : StringOptions θ} {s : σ}
    (p : StringStarted getCodecOptions create setOptions (.value (.string source)) (.hash hash))
    (hread : getStringOptions getCodecOptions hash = .ok read)
    (hset : setOptions create read.codec = (.ok, s)) : p.source = source ∧ p.state = s := by
  obtain ⟨source', hsource, hash', hhash, read', hread', s', hset', _, _, _, _⟩ := p
  injection hsource with hsource
  injection hsource with hsource
  injection hhash with hhash
  subst hsource hhash
  rw [hread] at hread'
  injection hread' with heq
  subst heq
  exact ⟨rfl, (Prod.mk.inj (hset'.symm.trans hset)).2⟩

section StringCall

variable {defaultLength : Nat} {sourceValue options : Argument} {m : Memory}
  {run : Bool → Nat → Coder UInt8 σ ω ρ → Memory → List UInt8 → List UInt8 →
    Option (Except RubyError ExtResult × Str (Coder UInt8 σ ω ρ))}

/-- A string is returned by a run of the loop that ended well. -/
theorem stringCall_ok (hdefault : 0 < defaultLength)
    {e : Exit (List UInt8) (Coder UInt8 σ ω ρ)}
    (h : stringCall getCodecOptions create setOptions defaultLength run m sourceValue options =
      some e) {bytes : List UInt8} (hok : e.outcome = .ok bytes) :
    ∃ (p : StringStarted getCodecOptions create setOptions sourceValue options)
      (s : Str (Coder UInt8 σ ω ρ)),
      run p.read.gvl p.destinationValue.length ⟨p.handle, p.state, []⟩ p.memory p.source
        p.destinationValue = some (.ok .ok, s) ∧
      e.coder = some s.coder ∧ bytes = s.destinationValue := by
  unfold stringCall at h
  split at h
  · obtain rfl := Option.some.inj h
    cases hok
  -- The checks passed; then the instance, the destination and the loop, in this order.
  · rename_i source read hprepare
    obtain ⟨source', hsource, hprepare⟩ := bind_ok hprepare
    obtain ⟨hash, hhash, hprepare⟩ := bind_ok hprepare
    obtain ⟨read', hread, hprepare⟩ := bind_ok hprepare
    obtain ⟨rfl, rfl⟩ := Prod.mk.inj (Except.ok.inj hprepare)
    rcases createCoder_cases (ω := ω) (ρ := ρ) create (setOptions · read'.codec) m with
      ⟨err, m', heq⟩ | ⟨handle, s, m', hset, heq⟩
    · rw [heq] at h
      obtain rfl := Option.some.inj h
      cases hok
    · rw [heq] at h
      rcases createStringBuffer_cases m' (orDefault read'.destinationBufferLength defaultLength)
        with ⟨_, m'', hcreate⟩ | ⟨value, m'', hcreate, hvalue, _⟩
      · simp only [hcreate] at h
        obtain rfl := Option.some.inj h
        cases hok
      · simp only [hcreate] at h
        obtain ⟨⟨r, t⟩, hrun, rfl⟩ := Option.map_eq_some_iff.mp h
        have hpos : 0 < value.length := hvalue ▸ orDefault_pos hdefault
        refine ⟨⟨source', checkString_ok hsource, hash, checkHash_ok hhash, read', hread, s, hset,
          handle, m'', value, hpos⟩, t, ?_⟩
        rw [← hvalue] at hrun
        cases r with
        | error err => cases hok
        | ok extResult =>
            by_cases hresult : extResult = .ok
            · subst hresult
              exact ⟨hrun, rfl, (Except.ok.inj hok).symm⟩
            · simp only [ne_eq, hresult, not_false_eq_true, if_true] at hok
              cases hok

/-- Without allocation faults and with accepted options, the call comes to its
    loop, and returns what the loop leaves. -/
theorem stringCall_run (hdefault : 0 < defaultLength) (hm : m.Faultless) {hash : Hash}
    {read : StringOptions θ} (hread : getStringOptions getCodecOptions hash = .ok read) {s : σ}
    (hset : setOptions create read.codec = (.ok, s)) (source : List UInt8) :
    ∃ p : StringStarted getCodecOptions create setOptions (.value (.string source)) (.hash hash),
      p.source = source ∧ p.state = s ∧ p.memory.Faultless ∧
      ∀ (run : Bool → Nat → Coder UInt8 σ ω ρ → Memory → List UInt8 → List UInt8 →
          Option (Except RubyError ExtResult × Str (Coder UInt8 σ ω ρ))) t,
        run p.read.gvl p.destinationValue.length ⟨p.handle, p.state, []⟩ p.memory p.source
          p.destinationValue = some (.ok .ok, t) →
        ∃ e, stringCall getCodecOptions create setOptions defaultLength run m
            (.value (.string source)) (.hash hash) = some e ∧
          e.outcome = .ok t.destinationValue ∧ e.coder = some t.coder := by
  obtain ⟨handle, m', hcreate, hm'⟩ := createCoder_faultless (ω := ω) (ρ := ρ)
    (setOptions · read.codec) hm hset
  rcases createStringBuffer_cases m' (orDefault read.destinationBufferLength defaultLength) with
    ⟨hfault, _⟩ | ⟨value, m'', hbuffer, hvalue, hm''⟩
  · exact absurd hm' hfault
  · have hpos : 0 < value.length := hvalue ▸ orDefault_pos hdefault
    refine ⟨⟨source, rfl, hash, rfl, read, hread, s, hset, handle, m'', value, hpos⟩, rfl, rfl,
      hm'' hm', fun run t hrun => ?_⟩
    rw [hvalue] at hrun
    -- The checks of these arguments pass.
    have hprepare : (do
        let source ← checkString (.value (.string source))
        let options ← getStringOptions getCodecOptions (← checkHash (.hash hash))
        return (source, options) : Except RubyError _) = .ok (source, read) := by
      simp only [checkString, checkHash]
      show (do
        let options ← getStringOptions getCodecOptions hash
        return (source, options) : Except RubyError _) = _
      rw [hread]
      rfl
    refine ⟨⟨.ok t.destinationValue, t.memory.release handle, some t.coder⟩, ?_, rfl, rfl⟩
    rw [stringCall, hprepare]
    simp only [hcreate, hbuffer, hrun, Option.map_some, ne_eq, not_true_eq_false, if_false]

end StringCall

/-! ## Calls on files -/

/-- What a function on files has when it comes to its loops. -/
structure IoStarted (getCodecOptions : Hash → Except RubyError θ) (create : σ)
    (setOptions : σ → θ → ExtResult × σ) (source : FileArgument SourceFile)
    (destination : FileArgument DestinationFile) (options : Argument) where
  sourceFile : SourceFile
  source_eq : source = .file sourceFile
  destinationFile : DestinationFile
  destination_eq : destination = .file destinationFile
  hash : Hash
  options_eq : options = .hash hash
  read : IoOptions θ
  read_eq : getIoOptions getCodecOptions hash = .ok read
  state : σ
  set_eq : setOptions create read.codec = (.ok, state)
  handle : Nat
  memory : Memory
  sourceBuffer : Buffer
  sourceBuffer_pos : 0 < sourceBuffer.bytes.length
  destinationBuffer : Buffer
  destinationBuffer_pos : 0 < destinationBuffer.bytes.length

/-- What was read and set is decided by the arguments. -/
theorem IoStarted.of_args {sourceFile : SourceFile} {destination : FileArgument DestinationFile}
    {hash : Hash} {read : IoOptions θ} {s : σ}
    (p : IoStarted getCodecOptions create setOptions (.file sourceFile) destination (.hash hash))
    (hread : getIoOptions getCodecOptions hash = .ok read)
    (hset : setOptions create read.codec = (.ok, s)) : p.sourceFile = sourceFile ∧ p.state = s := by
  obtain ⟨file, hfile, _, _, hash', hhash, read', hread', s', hset', _, _, _, _, _, _⟩ := p
  injection hfile with hfile
  injection hhash with hhash
  subst hfile hhash
  rw [hread] at hread'
  injection hread' with heq
  subst heq
  exact ⟨rfl, (Prod.mk.inj (hset'.symm.trans hset)).2⟩

section IoCall

variable {defaultSource defaultDestination : Nat} {source : FileArgument SourceFile}
  {destination : FileArgument DestinationFile} {options : Argument} {m : Memory}
  {run : Bool → Nat → Nat → Coder UInt8 σ ω ρ → SourceFile → List UInt8 → DestinationFile →
    List UInt8 → Option (ExtResult × Io (Coder UInt8 σ ω ρ))}

/-- The call raises before it touches the files, or ends as its loops do. -/
theorem ioCall_cases (hsource : 0 < defaultSource) (hdestination : 0 < defaultDestination)
    {e : IoExit (Coder UInt8 σ ω ρ)}
    (h : ioCall getCodecOptions create setOptions defaultSource defaultDestination run m source
      destination options = some e) :
    (∃ err m', e = .early err m' destination) ∨
    ∃ (p : IoStarted getCodecOptions create setOptions source destination options)
      (x : ExtResult × Io (Coder UInt8 σ ω ρ)),
      run p.read.gvl p.sourceBuffer.bytes.length p.destinationBuffer.bytes.length
        ⟨p.handle, p.state, []⟩ p.sourceFile p.sourceBuffer.bytes p.destinationFile
        p.destinationBuffer.bytes = some x ∧
      e = .finish x.1 x.2 p.memory p.sourceBuffer p.destinationBuffer p.handle := by
  unfold ioCall at h
  split at h
  · exact Or.inl ⟨_, _, (Option.some.inj h).symm⟩
  -- The checks passed; then the instance, the two buffers and the loops, in this order.
  · rename_i sourceFile destinationFile read hprepare
    obtain ⟨sourceFile', hsourceFile, hprepare⟩ := bind_ok hprepare
    obtain ⟨destinationFile', hdestinationFile, hprepare⟩ := bind_ok hprepare
    obtain ⟨hash, hhash, hprepare⟩ := bind_ok hprepare
    obtain ⟨read', hread, hprepare⟩ := bind_ok hprepare
    obtain ⟨rfl, heq⟩ := Prod.mk.inj (Except.ok.inj hprepare)
    obtain ⟨rfl, rfl⟩ := Prod.mk.inj heq
    rcases createCoder_cases (ω := ω) (ρ := ρ) create (setOptions · read'.codec) m with
      ⟨err, m', hcreate⟩ | ⟨handle, s, m', hset, hcreate⟩
    · rw [hcreate] at h
      exact Or.inl ⟨_, _, (Option.some.inj h).symm⟩
    · rw [hcreate] at h
      rcases createBuffers_cases m' (orDefault read'.sourceBufferLength defaultSource)
          (orDefault read'.destinationBufferLength defaultDestination) with
        ⟨_, m'', hbuffers⟩ |
        ⟨sourceBuffer, destinationBuffer, m'', hbuffers, hsourceBuffer, hdestinationBuffer⟩
      · simp only [hbuffers] at h
        exact Or.inl ⟨_, _, (Option.some.inj h).symm⟩
      · simp only [hbuffers] at h
        obtain ⟨x, hrun, rfl⟩ := Option.map_eq_some_iff.mp h
        rw [← hsourceBuffer, ← hdestinationBuffer] at hrun
        exact Or.inr ⟨⟨sourceFile', getFile_ok hsourceFile, destinationFile',
          getFile_ok hdestinationFile, hash, checkHash_ok hhash, read', hread, s, hset, handle,
          m'', sourceBuffer, hsourceBuffer ▸ orDefault_pos hsource, destinationBuffer,
          hdestinationBuffer ▸ orDefault_pos hdestination⟩, x, hrun, rfl⟩

/-- If it returns, its loops ended without an error. -/
theorem ioCall_ok (hsource : 0 < defaultSource) (hdestination : 0 < defaultDestination)
    {e : IoExit (Coder UInt8 σ ω ρ)}
    (h : ioCall getCodecOptions create setOptions defaultSource defaultDestination run m source
      destination options = some e) (hok : e.outcome = .ok ()) :
    ∃ (p : IoStarted getCodecOptions create setOptions source destination options)
      (w : Io (Coder UInt8 σ ω ρ)),
      run p.read.gvl p.sourceBuffer.bytes.length p.destinationBuffer.bytes.length
        ⟨p.handle, p.state, []⟩ p.sourceFile p.sourceBuffer.bytes p.destinationFile
        p.destinationBuffer.bytes = some (.ok, w) ∧ e.coder = some w.coder := by
  rcases ioCall_cases hsource hdestination h with ⟨err, m', rfl⟩ | ⟨p, ⟨extResult, w⟩, hrun, rfl⟩
  · cases hok
  · by_cases hresult : extResult = .ok
    · subst hresult
      exact ⟨p, w, hrun, rfl⟩
    · simp only [IoExit.finish, ne_eq, hresult, not_false_eq_true, if_true] at hok
      cases hok

/-- Without allocation faults and with accepted options, the call comes to its
    loops, and ends as they do. -/
theorem ioCall_run (hsource : 0 < defaultSource) (hdestination : 0 < defaultDestination)
    (hm : m.Faultless) {hash : Hash} {read : IoOptions θ}
    (hread : getIoOptions getCodecOptions hash = .ok read) {s : σ}
    (hset : setOptions create read.codec = (.ok, s)) (sourceFile : SourceFile)
    (destinationFile : DestinationFile) :
    ∃ p : IoStarted getCodecOptions create setOptions (.file sourceFile) (.file destinationFile)
        (.hash hash),
      p.sourceFile = sourceFile ∧ p.destinationFile = destinationFile ∧ p.state = s ∧
      ∀ (run : Bool → Nat → Nat → Coder UInt8 σ ω ρ → SourceFile → List UInt8 →
          DestinationFile → List UInt8 → Option (ExtResult × Io (Coder UInt8 σ ω ρ))) x,
        run p.read.gvl p.sourceBuffer.bytes.length p.destinationBuffer.bytes.length
          ⟨p.handle, p.state, []⟩ p.sourceFile p.sourceBuffer.bytes p.destinationFile
          p.destinationBuffer.bytes = some x →
        ioCall getCodecOptions create setOptions defaultSource defaultDestination run m
            (.file sourceFile) (.file destinationFile) (.hash hash) =
          some (.finish x.1 x.2 p.memory p.sourceBuffer p.destinationBuffer p.handle) := by
  obtain ⟨handle, m', hcreate, hm'⟩ := createCoder_faultless (ω := ω) (ρ := ρ)
    (setOptions · read.codec) hm hset
  rcases createBuffers_cases m' (orDefault read.sourceBufferLength defaultSource)
      (orDefault read.destinationBufferLength defaultDestination) with
    ⟨hfault, _⟩ |
    ⟨sourceBuffer, destinationBuffer, m'', hbuffers, hsourceBuffer, hdestinationBuffer⟩
  · exact absurd hm' hfault
  · refine ⟨⟨sourceFile, rfl, destinationFile, rfl, hash, rfl, read, hread, s, hset, handle, m'',
      sourceBuffer, hsourceBuffer ▸ orDefault_pos hsource, destinationBuffer,
      hdestinationBuffer ▸ orDefault_pos hdestination⟩, rfl, rfl, rfl, fun run x hrun => ?_⟩
    have hloops : run read.gvl sourceBuffer.bytes.length destinationBuffer.bytes.length
        ⟨handle, s, []⟩ sourceFile sourceBuffer.bytes destinationFile destinationBuffer.bytes =
          some x := hrun
    rw [hsourceBuffer, hdestinationBuffer] at hloops
    -- The checks of these arguments pass.
    have hprepare : (do
        let sourceFile ← getFile (.file sourceFile)
        let destinationFile ← getFile (.file destinationFile)
        let options ← getIoOptions getCodecOptions (← checkHash (.hash hash))
        return (sourceFile, destinationFile, options) : Except RubyError _) =
          .ok (sourceFile, destinationFile, read) := by
      show (do
        let options ← getIoOptions getCodecOptions hash
        return (sourceFile, destinationFile, options) : Except RubyError _) = _
      rw [hread]
      rfl
    rw [ioCall, hprepare]
    simp only [hcreate, hbuffers, hloops, Option.map_some]

end IoCall

end RubyBrs
