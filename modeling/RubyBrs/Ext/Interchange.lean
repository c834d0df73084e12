/-
  RubyBrs.Ext.Interchange

  Every way to compress with every way to decompress.

  The extension compresses a string, a file, or what a program writes to a
  `NativeCompressor`, and it decompresses a string, a file, or what a program reads
  through a `NativeDecompressor`.  The two sides meet at the format: whatever became of
  the allocations, the reads and the writes, a producer that came to its end has left
  one complete stream (`Producer.Yields.decodes`), and a consumer that came to its end
  of a complete stream has its content (`Consumer.Yields.eq`).  Where nothing fails
  both do come to their ends.  So any of the nine pairs gives back what was compressed
  (`interchange`).
-/

import RubyBrs.Ext.Delivery
import RubyBrs.Ext.Returned
import RubyBrs.Ext.StreamReading
import RubyBrs.Ext.StreamWriting

namespace RubyBrs

open StreamCodec StreamFormat

variable {σ τ ω ρ θ : Type}

/-! ## Files that are closed -/

section Closed

variable {getCodecOptions : Hash → Except RubyError θ} {create : σ}
  {setOptions : σ → θ → ExtResult × σ} {defaultSource defaultDestination : Nat}
  {destinationFile : DestinationFile} {m : Memory}
  {run : Bool → Nat → Nat → Coder UInt8 σ ω ρ → SourceFile → List UInt8 → DestinationFile →
    List UInt8 → Option (ExtResult × Io (Coder UInt8 σ ω ρ))}

/-- What is on the device after a return with a closing flush that did not fail is what
    the loops have written. -/
theorem ioCall_closed (hsource : 0 < defaultSource) (hdestination : 0 < defaultDestination)
    {source : FileArgument SourceFile} {options : Argument} {e : IoExit (Coder UInt8 σ ω ρ)}
    {f : DestinationFile}
    (h : ioCall getCodecOptions create setOptions defaultSource defaultDestination run m source
      (.file destinationFile) options = some e)
    (hok : e.outcome = .ok ()) (hcloses : e.ClosesCleanly) (hf : e.destinationFile = some f) :
    ∃ (p : IoStarted getCodecOptions create setOptions source (.file destinationFile) options)
      (w : Io (Coder UInt8 σ ω ρ)),
      run p.read.gvl p.sourceBuffer.bytes.length p.destinationBuffer.bytes.length
        ⟨p.handle, p.state, []⟩ p.sourceFile p.sourceBuffer.bytes p.destinationFile
        p.destinationBuffer.bytes = some (.ok, w) ∧
      p.destinationFile = destinationFile ∧ f.device = w.destinationFile.written := by
  rcases ioCall_cases hsource hdestination h with ⟨err, m', rfl⟩ | ⟨p, ⟨extResult, w⟩, hrun, rfl⟩
  · cases hok
  · by_cases hresult : extResult = .ok
    · subst hresult
      have hdrain : w.destinationFile.drainFails = false := hcloses _ rfl
      obtain rfl : w.destinationFile.fflush.2 = f := Option.some.inj hf
      refine ⟨p, w, hrun, (FileArgument.file.inj p.destination_eq).symm, ?_⟩
      rcases w.destinationFile.fflush_cases with ⟨-, -, hdevice, -⟩ | ⟨hfails, -⟩
      · exact hdevice
      · rw [hdrain] at hfails
        cases hfails
    · simp only [IoExit.finish, ne_eq, hresult, not_false_eq_true, if_true] at hok
      cases hok

/-- When the loops end well and the next drain is not due to fail, the call returns, and
    what they have written is on the device. -/
theorem IoExit.finish_closed {w : Io (Coder UInt8 σ ω ρ)}
    (hdrain : w.destinationFile.drainFails = false) (sourceBuffer destinationBuffer : Buffer)
    (handle : Nat) :
    ∃ f, (IoExit.finish .ok w m sourceBuffer destinationBuffer handle).outcome = .ok () ∧
      (IoExit.finish .ok w m sourceBuffer destinationBuffer handle).ClosesCleanly ∧
      (IoExit.finish .ok w m sourceBuffer destinationBuffer handle).destinationFile = some f ∧
      f.device = w.destinationFile.written := by
  refine ⟨w.destinationFile.fflush.2, rfl, ?_, rfl, ?_⟩
  · intro f hf
    obtain rfl : w.destinationFile = f := Option.some.inj hf
    exact hdrain
  · rcases w.destinationFile.fflush_cases with ⟨-, -, hdevice, -⟩ | ⟨hfails, -⟩
    · exact hdevice
    · rw [hdrain] at hfails
      cases hfails

/-- Of a schedule without failures no part fails. -/
theorem drainFails_of_faultless {before : DestinationFile} {f : DestinationFile}
    {extResult : ExtResult} (hbefore : before.Faultless)
    (h : Io.Noticed WriteOutcome.Fails .writeIo before.outcomes f.outcomes extResult) :
    f.drainFails = false := by
  obtain ⟨used, hused, -⟩ := h
  unfold DestinationFile.drainFails
  split
  · rename_i accepted drained rest houtcomes
    have hmem : WriteOutcome.failure accepted drained ∈ before.outcomes := by
      rw [hused, houtcomes]
      exact List.mem_append_right _ (List.mem_cons_self ..)
    obtain ⟨_, heq⟩ := hbefore.2 _ hmem
    cases heq
  · rfl

end Closed

/-! ## Producers and consumers -/

/-- What a run meets: the outcomes of its allocations, and of its reads and writes. -/
structure Surroundings where
  memory : Memory
  reads : List ReadOutcome
  writes : List WriteOutcome

/-- Nothing fails. -/
def Surroundings.Faultless (s : Surroundings) : Prop :=
  s.memory.Faultless ∧ (∀ o ∈ s.reads, o = .success) ∧
    ∀ o ∈ s.writes, ∃ drained, o = .success drained

theorem Surroundings.Faultless.source {s : Surroundings} (h : s.Faultless) (content : List UInt8) :
    (SourceFile.opened content s.reads).Faultless := ⟨rfl, h.2.1⟩

theorem Surroundings.Faultless.destination {s : Surroundings} (h : s.Faultless) :
    (DestinationFile.opened s.writes).Faultless := ⟨rfl, h.2.2⟩

/-- How a program divides its data: the writes and flushes that it makes. -/
structure Writes where
  calls : List UInt8 → List WriterCall
  inputs_eq : ∀ source, inputs (writerRequests (calls source)) = source

/-- How a program divides a stream: the chunks that it reads. -/
structure Chunks where
  chunks : List UInt8 → List (List UInt8)
  flatten_eq : ∀ bytes, (chunks bytes).flatten = bytes

/-- One byte at a time. -/
def Chunks.single : Chunks where
  chunks bytes := bytes.map fun b => [b]
  flatten_eq bytes := by
    induction bytes with
    | nil => rfl
    | cons b bytes ih => exact congrArg (b :: ·) ih

inductive Producer where
  | string
  | file
  | stream (writes : Writes)

inductive Consumer where
  | string
  | file
  | stream (chunks : Chunks)

/-- The options are accepted, and leave a new encoder in `init`. -/
def Producer.Configured (enc : Encoder σ) (hash : Hash) (init : σ) : Producer → Prop
  | .file => ∃ read, getIoOptions getCompressorOptions hash = .ok read ∧
      brsExtSetCompressorOptions enc enc.create read.codec = (.ok, init)
  | _ => ∃ read, getStringOptions getCompressorOptions hash = .ok read ∧
      brsExtSetCompressorOptions enc enc.create read.codec = (.ok, init)

/-- The options are accepted, and leave a new decoder in `init`. -/
def Consumer.Configured (dec : Decoder σ) (hash : Hash) (init : σ) : Consumer → Prop
  | .file => ∃ read, getIoOptions getDecompressorOptions hash = .ok read ∧
      brsExtSetDecompressorOptions dec dec.create read.codec = (.ok, init)
  | _ => ∃ read, getStringOptions getDecompressorOptions hash = .ok read ∧
      brsExtSetDecompressorOptions dec dec.create read.codec = (.ok, init)

/-- In some run in these surroundings, the source was compressed to these bytes. -/
inductive Producer.Yields (enc : Encoder σ) (hash : Hash) (s : Surroundings)
    (source bytes : List UInt8) : Producer → Prop
  | string {fuel : Nat} {e : Exit (List UInt8) (EncoderInstance σ)}
      (called : brsExtCompressString enc fuel s.memory (.value (.string source)) (.hash hash) =
        some e)
      (outcome : e.outcome = .ok bytes) :
      Yields enc hash s source bytes .string
  /-- The function returned and its closing flush did not fail. -/
  | file {fuel : Nat} {e : IoExit (EncoderInstance σ)} {f : DestinationFile}
      (called : brsExtCompressIo enc fuel s.memory (.file (.opened source s.reads))
        (.file (.opened s.writes)) (.hash hash) = some e)
      (outcome : e.outcome = .ok ()) (closes : e.ClosesCleanly)
      (closed : e.destinationFile = some f) (device : f.device = bytes) :
      Yields enc hash s source bytes .file
  /-- The program came to the end of its requests and took the last result. -/
  | stream {writes : Writes} {new object : Compressor σ} {memory : Memory}
      {moves : List CallerMove} {c : StreamCaller (EncoderInstance σ) Operation}
      (opened : brsExtInitializeCompressor enc s.memory new (.hash hash) =
        (.ok (), memory, object))
      (run : StreamCaller.run (compressorMethod enc) moves
        (.start memory object (writerRequests (writes.calls source))) = some c)
      (todo : c.todo = []) (filled : c.object.filled = [])
      (results : c.results.flatten = bytes) :
      Yields enc hash s source bytes (.stream writes)

/-- In some run in these surroundings, the bytes were decompressed to this result. -/
inductive Consumer.Yields (dec : Decoder σ) (hash : Hash) (s : Surroundings)
    (bytes result : List UInt8) : Consumer → Prop
  | string {fuel : Nat} {e : Exit (List UInt8) (DecoderInstance σ)}
      (called : brsExtDecompressString dec fuel s.memory (.value (.string bytes)) (.hash hash) =
        some e)
      (outcome : e.outcome = .ok result) :
      Yields dec hash s bytes result .string
  /-- The function returned and its closing flush did not fail. -/
  | file {fuel : Nat} {e : IoExit (DecoderInstance σ)} {f : DestinationFile}
      (called : brsExtDecompressIo dec fuel s.memory (.file (.opened bytes s.reads))
        (.file (.opened s.writes)) (.hash hash) = some e)
      (outcome : e.outcome = .ok ()) (closes : e.ClosesCleanly)
      (closed : e.destinationFile = some f) (device : f.device = result) :
      Yields dec hash s bytes result .file
  /-- The program came to the end of its chunks and took the last result. -/
  | stream {chunks : Chunks} {new object : Decompressor σ} {memory : Memory}
      {moves : List CallerMove} {c : StreamCaller (DecoderInstance σ) Unit}
      (opened : brsExtInitializeDecompressor dec s.memory new (.hash hash) =
        (.ok (), memory, object))
      (run : StreamCaller.run (decompressorMethod dec) moves
        (.start memory object (readerRequests (chunks.chunks bytes))) = some c)
      (todo : c.todo = []) (filled : c.object.filled = [])
      (results : c.results.flatten = result) :
      Yields dec hash s bytes result (.stream chunks)

/-! ## Producers -/

section Producer

variable {enc : Encoder σ} {fmt : Format UInt8} {init : σ} {hash : Hash} {s : Surroundings}
  {source bytes : List UInt8} {p : Producer}

/-- A compressor that was initialized is where a new exchange with its encoder is. -/
theorem writing_opened (henc : enc.Contract compressorOperations fmt init)
    {read : StringOptions CompressorOptions}
    (hread : getStringOptions getCompressorOptions hash = .ok read)
    (hset : brsExtSetCompressorOptions enc enc.create read.codec = (.ok, init))
    {m memory : Memory} {new object : Compressor σ}
    (opened : brsExtInitializeCompressor enc m new (.hash hash) = (.ok (), memory, object))
    (calls : List WriterCall) :
    ∃ (hcapacity : 0 < object.destinationBufferLength) (bound handle : Nat),
      Exchange.Steady (bufferedEncoder enc _ hcapacity) bound
        (Writing enc init _ hcapacity (writerRequests calls)) ∧
      Simulates (bufferedEncoder enc _ hcapacity) compressorRequest
        (.start memory object (writerRequests calls))
        (.start handle init (writerRequests calls)) := by
  obtain ⟨handle, buffer, hopen, hfilled, hlength⟩ :=
    StreamObject.initializeObject_ok hread hset opened
  have hcapacity : 0 < object.destinationBufferLength := hlength ▸ orDefault_pos (by decide)
  obtain ⟨bound, hsteady⟩ := writing_steady hcapacity henc (writerRequests_finishesLast calls)
  exact ⟨hcapacity, bound, handle, hsteady,
    .start _ hopen hfilled rfl (writerRequests_valid calls) memory⟩

/-- A producer that came to its end has left a complete stream of the source. -/
theorem Producer.Yields.decodes (henc : enc.FlushContract compressorOperations fmt init)
    (hp : p.Configured enc hash init) (h : p.Yields enc hash s source bytes) :
    fmt.Decodes bytes source := by
  cases h with
  | string called outcome =>
      obtain ⟨read, hread, hset⟩ := hp
      obtain ⟨p, t, hrun, -, rfl⟩ := stringCall_ok (by decide) called outcome
      obtain ⟨hsource, hstate⟩ := p.of_args hread hset
      rw [hsource, hstate] at hrun
      exact Str.compress_returned (henc.toContract.mono (by decide)) hrun
  | file called outcome closes closed device =>
      obtain ⟨read, hread, hset⟩ := hp
      obtain ⟨p, w, hrun, hdestination, hdevice⟩ :=
        ioCall_closed (by decide) (by decide) called outcome closes closed
      obtain ⟨hfile, hstate⟩ := p.of_args hread hset
      rw [hfile, hstate, hdestination] at hrun
      obtain ⟨stream, hwritten, hdecodes⟩ :=
        Io.compress_returned (henc.toContract.mono (by decide)) hrun
      -- The file was empty, so the stream is all that is on the device.
      obtain rfl : bytes = stream := by
        rw [← device, hdevice, hwritten]
        rfl
      exact hdecodes
  | @stream writes new object memory moves c opened run todo filled results =>
      obtain ⟨read, hread, hset⟩ := hp
      obtain ⟨hcapacity, bound, handle, hsteady, hsim⟩ :=
        writing_opened henc.toContract hread hset opened (writes.calls source)
      obtain ⟨moves', x, hx, hsim', -⟩ := hsim.run (performs_compressor enc hcapacity) run
      have hwriting : Writing enc init _ hcapacity (writerRequests (writes.calls source)) x :=
        hsteady.run (.start handle) hx
      have hdecodes := hwriting.finished henc (by simp [writerRequests])
        (hsim'.todo.symm.trans todo) (hsim'.filled.symm.trans filled)
      rw [← hsim'.results, results, writes.inputs_eq] at hdecodes
      exact hdecodes

/-- Where nothing fails, a producer can come to its end. -/
theorem Producer.yields (henc : enc.FlushContract compressorOperations fmt init)
    (hp : p.Configured enc hash init) (hs : s.Faultless) (source : List UInt8) :
    ∃ bytes, p.Yields enc hash s source bytes := by
  cases p with
  | string =>
      obtain ⟨read, hread, hset⟩ := hp
      obtain ⟨p, -, hstate, hmemory, hcall⟩ := stringCall_run (ω := Operation) (ρ := Bool)
        (show 0 < defaultDestinationBufferLengthForCompressor by decide) hs.1 hread hset source
      have hcontract : enc.Contract [.finish] fmt p.state :=
        hstate.symm ▸ henc.toContract.mono (by decide)
      obtain ⟨bound, hbound⟩ := hcontract.finite p.source
      obtain ⟨t, ht⟩ : ∃ t, Str.compress enc p.read.gvl p.destinationValue.length (bound + 1)
          ⟨p.handle, p.state, []⟩ p.memory p.source p.destinationValue = some (.ok .ok, t) := by
        obtain ⟨t, ht, -⟩ := Str.compress_stream hcontract p.read.gvl p.destinationValue_pos
          hmemory hbound (Nat.lt_succ_self bound)
        exact ⟨t, ht⟩
      obtain ⟨e, he, houtcome, -⟩ :=
        hcall (fun gvl length => Str.compress enc gvl length (bound + 1)) t ht
      exact ⟨_, .string he houtcome⟩
  | file =>
      obtain ⟨read, hread, hset⟩ := hp
      obtain ⟨p, hfile, hdestination, hstate, hcall⟩ := ioCall_run (ω := Operation) (ρ := Bool)
        (show 0 < defaultSourceBufferLengthForCompressor by decide)
        (show 0 < defaultDestinationBufferLengthForCompressor by decide) hs.1 hread hset
        (.opened source s.reads) (.opened s.writes)
      have hcontract : enc.Contract Io.compressOperations fmt p.state :=
        hstate.symm ▸ henc.toContract.mono (by decide)
      obtain ⟨enough, hreturns⟩ := Io.compress_returns hcontract p.read.gvl p.handle
        (hfile.symm ▸ hs.source source) (hdestination.symm ▸ hs.destination)
        p.sourceBuffer_pos p.destinationBuffer_pos
      obtain ⟨w, hw⟩ := hreturns enough (Nat.le_refl _)
      have hdrain := drainFails_of_faultless (hdestination.symm ▸ hs.destination)
        (Io.FaultsNoticed.compress hw).writes
      obtain ⟨f, houtcome, hcloses, hf, -⟩ := IoExit.finish_closed (m := p.memory) hdrain
        p.sourceBuffer p.destinationBuffer p.handle
      have he := hcall (fun gvl m n => Io.compress enc gvl m n enough) _ hw
      exact ⟨f.device, .file he houtcome hcloses hf rfl⟩
  | stream writes =>
      obtain ⟨read, hread, hset⟩ := hp
      obtain ⟨memory, object, opened, hmemory⟩ :=
        brsExtInitializeCompressor_run hread hset hs.1 (.new 0)
      obtain ⟨hcapacity, bound, handle, hsteady, hsim⟩ :=
        writing_opened henc.toContract hread hset opened (writes.calls source)
      obtain ⟨moves, c, hrun, htodo, hempty⟩ := Simulates.completes hsteady
        (performs_compressor enc hcapacity) hsim (.start handle) hmemory
      exact ⟨_, .stream opened hrun htodo hempty rfl⟩

end Producer

/-! ## Consumers -/

section Consumer

variable {dec : Decoder τ} {init : τ} {hash : Hash} {s : Surroundings}
  {bytes content result : List UInt8} {c : Consumer}

/-- A decompressor that was initialized is where a new exchange with its decoder is. -/
theorem offering_opened (hdec : dec.StreamContract bytes content init)
    {read : StringOptions DecompressorOptions}
    (hread : getStringOptions getDecompressorOptions hash = .ok read)
    (hset : brsExtSetDecompressorOptions dec dec.create read.codec = (.ok, init))
    {m memory : Memory} {new object : Decompressor τ}
    (opened : brsExtInitializeDecompressor dec m new (.hash hash) = (.ok (), memory, object))
    {chunks : List (List UInt8)} (hchunks : chunks.flatten = bytes) :
    ∃ (hcapacity : 0 < object.destinationBufferLength) (bound handle : Nat),
      Exchange.Steady (bufferedDecoder dec _ hcapacity) bound
        (Offering dec bytes init _ hcapacity (readerRequests chunks)) ∧
      Simulates (bufferedDecoder dec _ hcapacity) decompressorRequest
        (.start memory object (readerRequests chunks))
        (.start handle init (readerRequests chunks)) := by
  obtain ⟨handle, buffer, hopen, hfilled, hlength⟩ :=
    StreamObject.initializeObject_ok hread hset opened
  have hcapacity : 0 < object.destinationBufferLength := hlength ▸ orDefault_pos (by decide)
  have hinputs : inputs (readerRequests chunks) = bytes := by rw [inputs_readerRequests, hchunks]
  exact ⟨hcapacity, _, handle, offering_steady hcapacity hdec hinputs,
    .start _ hopen hfilled rfl (readerRequests_valid chunks) memory⟩

/-- A consumer that came to its end of a complete stream has its content. -/
theorem Consumer.Yields.eq (hdec : dec.StreamContract bytes content init) (hne : bytes ≠ [])
    (hc : c.Configured dec hash init) (h : c.Yields dec hash s bytes result) :
    result = content := by
  cases h with
  | string called outcome =>
      obtain ⟨read, hread, hset⟩ := hc
      obtain ⟨p, t, hrun, -, rfl⟩ := stringCall_ok (by decide) called outcome
      obtain ⟨hsource, hstate⟩ := p.of_args hread hset
      rw [hsource, hstate] at hrun
      exact Str.decompress_returned hdec hrun
  | file called outcome closes closed device =>
      obtain ⟨read, hread, hset⟩ := hc
      obtain ⟨p, w, hrun, hdestination, hdevice⟩ :=
        ioCall_closed (by decide) (by decide) called outcome closes closed
      obtain ⟨hfile, hstate⟩ := p.of_args hread hset
      rw [hfile, hstate, hdestination] at hrun
      have hstream : dec.StreamContract (SourceFile.opened bytes s.reads).unread content init :=
        hdec
      have hwritten := Io.decompress_returned hstream p.sourceBuffer_pos hrun
      rw [← device, hdevice, hwritten]
      rfl
  | @stream chunks new object memory moves c opened run todo filled results =>
      obtain ⟨read, hread, hset⟩ := hc
      obtain ⟨hcapacity, bound, handle, hsteady, hsim⟩ :=
        offering_opened hdec hread hset opened (chunks.flatten_eq bytes)
      obtain ⟨moves', x, hx, hsim', -⟩ := hsim.run (performs_decompressor dec hcapacity) run
      have hoffering : Offering dec bytes init _ hcapacity
          (readerRequests (chunks.chunks bytes)) x := hsteady.run (.start handle) hx
      have hinputs : inputs (readerRequests (chunks.chunks bytes)) = bytes := by
        rw [inputs_readerRequests, chunks.flatten_eq]
      obtain ⟨-, hemitted⟩ :=
        hoffering.finished hdec hinputs hne (hsim'.todo.symm.trans todo)
      have hdelivered := hoffering.sound.delivered
      rw [← hsim'.filled, filled, List.append_nil, hemitted, ← hsim'.results, results]
        at hdelivered
      exact hdelivered

/-- Where nothing fails, a consumer can come to its end of a complete stream, and then
    has its content. -/
theorem Consumer.yields (hdec : dec.StreamContract bytes content init) (hne : bytes ≠ [])
    (hc : c.Configured dec hash init) (hs : s.Faultless) :
    c.Yields dec hash s bytes content := by
  have hyields : ∃ result, c.Yields dec hash s bytes result := by
    cases c with
    | string =>
        obtain ⟨read, hread, hset⟩ := hc
        obtain ⟨p, hsource, hstate, hmemory, hcall⟩ := stringCall_run (ω := Unit)
          (ρ := DecoderResult) (show 0 < defaultDestinationBufferLengthForDecompressor by decide)
          hs.1 hread hset bytes
        have hstream : dec.StreamContract p.source content p.state := by
          rw [hsource, hstate]
          exact hdec
        obtain ⟨enough, hreturns⟩ := Str.decompress_returns hstream.reading p.read.gvl
          (.start p.handle) p.memory p.destinationValue
        obtain ⟨⟨r, t⟩, ht⟩ := hreturns enough (Nat.le_refl _)
        obtain ⟨hok, -⟩ := Str.decompress_stream hstream hmemory p.destinationValue_pos ht
        obtain rfl : r = .ok .ok := hok
        obtain ⟨e, he, houtcome, -⟩ := hcall
          (fun gvl length => Str.decompress dec gvl length enough) t ht
        exact ⟨_, .string he houtcome⟩
    | file =>
        obtain ⟨read, hread, hset⟩ := hc
        obtain ⟨p, hfile, hdestination, hstate, hcall⟩ := ioCall_run (ω := Unit)
          (ρ := DecoderResult) (show 0 < defaultSourceBufferLengthForDecompressor by decide)
          (show 0 < defaultDestinationBufferLengthForDecompressor by decide) hs.1 hread hset
          (.opened bytes s.reads) (.opened s.writes)
        have hstream : dec.StreamContract p.sourceFile.unread content p.state := by
          rw [hfile, hstate]
          exact hdec
        have hread' : p.sourceFile.Faultless := hfile.symm ▸ hs.source bytes
        have hwrite : p.destinationFile.Faultless := hdestination.symm ▸ hs.destination
        obtain ⟨enough, ⟨r, w⟩, hw⟩ : ∃ enough x, Io.decompress dec p.read.gvl
            p.sourceBuffer.bytes.length p.destinationBuffer.bytes.length enough
            ⟨p.handle, p.state, []⟩ p.sourceFile p.sourceBuffer.bytes p.destinationFile
            p.destinationBuffer.bytes = some x := by
          obtain ⟨enough, hreturns⟩ := Io.decompress_returns hstream.reading p.read.gvl
            (.start p.handle) p.sourceBuffer.bytes p.destinationBuffer.bytes
          exact ⟨enough, hreturns enough (Nat.le_refl _)⟩
        obtain ⟨hok, -⟩ := Io.decompress_stream hstream hread' hwrite p.sourceBuffer_pos
          p.destinationBuffer_pos hw
        obtain rfl : r = .ok := hok
        have hdrain := drainFails_of_faultless hwrite (Io.FaultsNoticed.decompress hw).writes
        obtain ⟨f, houtcome, hcloses, hf, -⟩ := IoExit.finish_closed (m := p.memory) hdrain
          p.sourceBuffer p.destinationBuffer p.handle
        have he := hcall (fun gvl m n => Io.decompress dec gvl m n enough) _ hw
        exact ⟨f.device, .file he houtcome hcloses hf rfl⟩
    | stream chunks =>
        obtain ⟨read, hread, hset⟩ := hc
        obtain ⟨memory, object, opened, hmemory⟩ :=
          brsExtInitializeDecompressor_run hread hset hs.1 (.new 0)
        obtain ⟨hcapacity, bound, handle, hsteady, hsim⟩ :=
          offering_opened hdec hread hset opened (chunks.flatten_eq bytes)
        obtain ⟨moves, c, hrun, htodo, hempty⟩ := Simulates.completes hsteady
          (performs_decompressor dec hcapacity) hsim (.start handle) hmemory
        exact ⟨_, .stream opened hrun htodo hempty rfl⟩
  obtain ⟨result, hresult⟩ := hyields
  exact hresult.eq hdec hne hc ▸ hresult

end Consumer

/-! ## Any of the one with any of the other -/

/-- With accepted options, an encoder and a decoder that then keep to one format, and
    any way to compress and any way to decompress: where nothing fails the source can be
    compressed; and whatever failed on the way, what the producer has left when it came
    to its end can be decompressed where nothing fails, and never to anything but the
    source. -/
theorem interchange {enc : Encoder σ} {dec : Decoder τ} {fmt : Format UInt8} {encInit : σ}
    {decInit : τ} {encHash decHash : Hash}
    (henc : enc.FlushContract compressorOperations fmt encInit)
    (hdec : dec.Follows fmt decInit) {p : Producer} {c : Consumer}
    (hp : p.Configured enc encHash encInit) (hc : c.Configured dec decHash decInit)
    (source : List UInt8) :
    (∀ s : Surroundings, s.Faultless → ∃ bytes, p.Yields enc encHash s source bytes) ∧
    ∀ s bytes, p.Yields enc encHash s source bytes →
      ∀ s' : Surroundings, (s'.Faultless → c.Yields dec decHash s' bytes source) ∧
        ∀ result, c.Yields dec decHash s' bytes result → result = source := by
  refine ⟨fun s hs => Producer.yields henc hp hs source, fun s bytes hbytes s' => ?_⟩
  have hdecodes : fmt.Decodes bytes source := hbytes.decodes henc hp
  have hstream : dec.StreamContract bytes source decInit := hdec.streamContract hdecodes
  have hne : bytes ≠ [] := hdecodes.1.ne_nil
  exact ⟨fun hs' => Consumer.yields hstream hne hc hs',
    fun result hresult => hresult.eq hstream hne hc⟩

/-- A file of three bytes, read back in chunks of one byte each. -/
theorem interchange_threeBytes :
    (∀ s : Surroundings, s.Faultless →
      ∃ bytes, Producer.file.Yields storedEncoder oneByteOptions s [1, 2, 3] bytes) ∧
    ∀ s bytes, Producer.file.Yields storedEncoder oneByteOptions s [1, 2, 3] bytes →
      ∀ s' : Surroundings,
        (s'.Faultless → (Consumer.stream .single).Yields (formatDecoder storedFormat id)
          oneByteOptions s' bytes [1, 2, 3]) ∧
        ∀ result, (Consumer.stream .single).Yields (formatDecoder storedFormat id)
          oneByteOptions s' bytes result → result = [1, 2, 3] := by
  have hp : Producer.file.Configured storedEncoder oneByteOptions storedEncoder.create :=
    ⟨_, rfl, rfl⟩
  have hc : (Consumer.stream .single).Configured (formatDecoder storedFormat id) oneByteOptions
      ([], 0) := ⟨_, rfl, rfl⟩
  exact interchange (storedEncoder_flushContract compressorOperations)
    (formatDecoder_follows storedFormat id) hp hc [1, 2, 3]

end RubyBrs
