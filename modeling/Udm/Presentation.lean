import Udm.Gateway

/-!
# The presentation layer

Building buffers and writing a window to the sink (`presentation.h`).
`PresentationProcessor.process` goes through the window by increasing capsule
id. The window points to elements of the receiving queue, so following a
pointer is only defined while the queue holds the element (`deref`).

Two things are easily overlooked in the source, and the model has both of them:

* `write2Souce` returns nothing. The outcome of the write, which is an answer of the system
  (`env.write`), only changes the stream and `curWritePos`, and the loop goes on;
* the header has been cut off a received buffer, and its size still counts it, so `write2Source` is
  asked for `size - HEADER_SPACE` bytes (`writeLength`), which is negative for a datagram without a
  whole header.

For every write, what was handed to the stream and the state of the factory before and after it is
recorded (`SinkWrite`). No function reads the record: it is there to state what was written.
`wp_writeWindow` executes the loop, and the lemmas about `writes` say what it leaves.
-/

namespace Udm

/-- The queue holds the element at the address of `b`. -/
def DataFactory.holds (fac : DataFactory) (b : MemBuff) : Bool :=
  fac.buffer.any fun x => x.addr = b.addr

/-- Following a pointer to an element of the receiving queue: the element must
    still be there. -/
def deref (b : MemBuff) : Prog MemBuff := do
  if (← get).rxFactory.holds b then return b else throw .fault

namespace PresentationProcessor

variable (bo : ByteOrder) (env : Env)

/-- `write2Souce`. -/
def write2Souce (fac : DataFactory) (o : WriteOutcome) (chunk : MemBuff) : DataFactory :=
  let fac := fac.write2Source o chunk chunk.size
  let curPos := int32 (fac.curPos + chunk.size)
  { fac with
    curPos := if curPos ≥ fac.allocSize then 0 else curPos
    curSize := int32 (fac.curSize + chunk.size) }

/-- A call of `write2Souce` on the receiving factory. -/
def write (windowBuffer : MemBuff) (p : Process) : Process :=
  let o := env.write p.io.writes.length
  let rxFactory := write2Souce p.rxFactory o windowBuffer
  { p with
    rxFactory
    io.accesses := p.io.accesses ++
      [.sink windowBuffer.size (DataFactory.writeLength windowBuffer.size)]
    io.writes := p.io.writes ++
      [{ buf := windowBuffer, outcome := o, before := p.rxFactory, after := rxFactory }] }

/-- The loop of `process` over the buffers of the window, in the state `done`. -/
def writeWindow : List MemBuff → Prog Unit
  | [] => pure ()
  | windowBuffer :: rest => do
    let windowBuffer ← deref windowBuffer
    if windowBuffer.data.header.isPayld then modify (write env windowBuffer)
    writeWindow rest

/-- `process`. -/
def process (state : StateCodes) : Prog Unit := do
  match state with
  | .done =>
    let p ← get
    writeWindow env (p.rxcurrentWindow.entries.map Prod.snd)
  | _ => pure ()

/-- `setCapParams`: only a copy of the header to the start of the body. -/
def setCapParams (buf : Capsule) (_p : Params) (_code : StateCodes) : Capsule :=
  buf.copyHeader bo

end PresentationProcessor

namespace Compositor

variable (env : Env)

/-- `constructChunk`: without a buffer, `fetchChunk` exits. -/
def constructChunk : Prog MemBuff := do
  match (← get).txFactory.fetchChunk with
  | some (chunk, txFactory) =>
    modify (Process.setTx txFactory)
    return chunk
  | none => throw .exit

/-- `newBuffer`. What is written later through the returned pointer is not
    copied into the queue, where nothing reads it. -/
def newBuffer (dir : StateDirection) : Prog MemBuff := do
  let p ← get
  match dir with
  | .TX =>
    let mbuff := (p.txFactory.makeChunkforRx env.heap p.statics.hdrid).1
    modify (Process.pushTx env.heap)
    return { mbuff with size := SIZEOF_CAPSULE }
  | .RX =>
    let mbuff := (p.rxFactory.makeChunkforRx env.heap p.statics.hdrid).1
    modify (Process.pushRx env.heap)
    return { mbuff with size := SIZEOF_CAPSULE }

end Compositor

/-! ## What is written -/

/-- The queue holds its own elements. -/
theorem DataFactory.holds_of_mem {fac : DataFactory} {b : MemBuff} (h : b ∈ fac.buffer) :
    fac.holds b := by
  rw [DataFactory.holds, List.any_eq_true]
  exact ⟨b, h, by simp⟩

/-- A dangling pointer is followed to no defined behaviour. -/
theorem wp_deref {Q : MemBuff → Process → Prop} {E : Halt → Process → Prop} {p : Process}
    {b : MemBuff} :
    wp (deref b) Q E p ↔ if p.rxFactory.holds b then Q b p else E .fault p := by
  rw [deref, wp_bind, wp_get, wp_ite]
  rfl

/-- The bytes of a buffer handed to the sink. -/
def MemBuff.payload (b : MemBuff) : List Byte :=
  b.data.body.load 0 (DataFactory.writeLength b.size).toNat

namespace PresentationProcessor

variable (env : Env) (p : Process) (b : MemBuff)

@[simp] theorem session_write : (write env b p).session = p.session := rfl
@[simp] theorem interfaces_write : (write env b p).interfaces = p.interfaces := rfl
@[simp] theorem txFactory_write : (write env b p).txFactory = p.txFactory := rfl
@[simp] theorem rxcurrentWindow_write :
    (write env b p).rxcurrentWindow = p.rxcurrentWindow := rfl
@[simp] theorem statics_write : (write env b p).statics = p.statics := rfl
@[simp] theorem sent_write : (write env b p).io.sent = p.io.sent := rfl

@[simp] theorem buffer_write : (write env b p).rxFactory.buffer = p.rxFactory.buffer := by
  simp [write, write2Souce]

@[simp] theorem allocated_write :
    (write env b p).rxFactory.allocated = p.rxFactory.allocated := by simp [write, write2Souce]

@[simp] theorem fin_write : (write env b p).rxFactory.fin = p.rxFactory.fin := by
  simp [write, write2Souce]

@[simp] theorem chunkSize_write :
    (write env b p).rxFactory.chunkSize = p.rxFactory.chunkSize := by simp [write, write2Souce]

@[simp] theorem fmode_write :
    (write env b p).rxFactory.sourceData.fmode = p.rxFactory.sourceData.fmode := by
  simp [write, write2Souce]

variable {p} in
/-- The stream takes the bytes of the body, as many as the size says. -/
theorem fs_write (h : p.rxFactory.sourceData.fmode = .OUT) :
    (write env b p).rxFactory.sourceData.fs = p.rxFactory.sourceData.fs.write
      (env.write p.io.writes.length) b.data.body (DataFactory.writeLength b.size) :=
  DataFactory.fs_write2Source _ b b.size h

/-- The writes of the buffers of a window, those that hold a payload. -/
def writes : List MemBuff → Process → Process
  | [], p => p
  | b :: bs, p => writes bs (if b.data.header.isPayld then write env b p else p)

variable {env p}

@[simp] theorem holds_write (b c : MemBuff) :
    (write env b p).rxFactory.holds c = p.rxFactory.holds c := by simp [DataFactory.holds]

/-- The loop is the writes, up to an element the queue does not hold any more. -/
theorem wp_writeWindow {Q : Unit → Process → Prop} {E : Halt → Process → Prop}
    {bs : List MemBuff} :
    wp (writeWindow env bs) Q E p ↔
      if bs.all p.rxFactory.holds then Q () (writes env bs p)
      else E .fault (writes env (bs.takeWhile p.rxFactory.holds) p) := by
  induction bs generalizing p with
  | nil => simp [writeWindow, writes]
  | cons b bs ih =>
    rw [writeWindow, wp_bind, wp_deref]
    by_cases hb : p.rxFactory.holds b
    · have hall : (b :: bs).all p.rxFactory.holds = bs.all p.rxFactory.holds := by simp [hb]
      have htake : (b :: bs).takeWhile p.rxFactory.holds = b :: bs.takeWhile p.rxFactory.holds := by
        simp [hb]
      rw [if_pos hb, hall, htake, writes, writes]
      by_cases hp : b.data.header.isPayld
      · have hfun : (write env b p).rxFactory.holds = p.rxFactory.holds :=
          funext fun c => holds_write b c
        simp only [hp, if_true, wp_bind, wp_modify]
        rw [ih, hfun]
      · simp only [hp, Bool.false_eq_true, if_false]
        exact ih
    · have htake : (b :: bs).takeWhile p.rxFactory.holds = [] := by simp [hb]
      rw [if_neg hb, htake, if_neg (by simp [hb])]
      rfl

/-- The writes leave everything as it is, but for the sink, the counters and the
    record of the step. -/
structure SameButSink (p p' : Process) : Prop where
  session : p'.session = p.session
  interfaces : p'.interfaces = p.interfaces
  txFactory : p'.txFactory = p.txFactory
  rxcurrentWindow : p'.rxcurrentWindow = p.rxcurrentWindow
  statics : p'.statics = p.statics
  sent : p'.io.sent = p.io.sent
  buffer : p'.rxFactory.buffer = p.rxFactory.buffer
  allocated : p'.rxFactory.allocated = p.rxFactory.allocated
  fin : p'.rxFactory.fin = p.rxFactory.fin
  chunkSize : p'.rxFactory.chunkSize = p.rxFactory.chunkSize
  fmode : p'.rxFactory.sourceData.fmode = p.rxFactory.sourceData.fmode

/-- So does one write. -/
theorem sameButSink_write (b : MemBuff) : SameButSink p (write env b p) := by
  constructor <;> simp

/-- One after the other. -/
theorem SameButSink.trans {p p' p'' : Process} (h : SameButSink p p') (h' : SameButSink p' p'') :
    SameButSink p p'' := by
  constructor
  exacts [h'.session.trans h.session, h'.interfaces.trans h.interfaces,
    h'.txFactory.trans h.txFactory, h'.rxcurrentWindow.trans h.rxcurrentWindow,
    h'.statics.trans h.statics, h'.sent.trans h.sent, h'.buffer.trans h.buffer,
    h'.allocated.trans h.allocated, h'.fin.trans h.fin, h'.chunkSize.trans h.chunkSize,
    h'.fmode.trans h.fmode]

/-- And so do all of them. -/
theorem sameButSink_writes (bs : List MemBuff) : SameButSink p (writes env bs p) := by
  induction bs generalizing p with
  | nil => constructor <;> rfl
  | cons b bs ih =>
    rw [writes]
    split
    · exact (sameButSink_write b).trans ih
    · exact ih

/-- The record of the write of the buffer `b`. -/
def record (env : Env) (p : Process) (b : MemBuff) : SinkWrite :=
  let o := env.write p.io.writes.length
  { buf := b, outcome := o, before := p.rxFactory, after := write2Souce p.rxFactory o b }

/-- Every write is recorded. -/
theorem writes_write (b : MemBuff) : (write env b p).io.writes = p.io.writes ++ [record env p b] :=
  rfl

/-- The writes already recorded stay recorded. -/
theorem mem_writes {w : SinkWrite} (h : w ∈ p.io.writes) (bs : List MemBuff) :
    w ∈ (writes env bs p).io.writes := by
  induction bs generalizing p with
  | nil => exact h
  | cons b bs ih =>
    rw [writes]
    split
    · exact ih (by rw [writes_write]; exact List.mem_append_left _ h)
    · exact ih h

/-- A write that is accepted appends the payload. -/
theorem fs_write_of_accepted (hmode : p.rxFactory.sourceData.fmode = .OUT) {b : MemBuff}
    (h : (record env p b).Accepted) :
    (write env b p).rxFactory.sourceData.fs =
      { p.rxFactory.sourceData.fs with content := p.sink ++ b.payload } :=
  (fs_write env b hmode).trans (Fstream.write_of_accepts h _)

/-- If all its writes are accepted, the payloads of the window are appended, in
    its order. -/
theorem fs_writes (hmode : p.rxFactory.sourceData.fmode = .OUT) {bs : List MemBuff}
    (h : ∀ w ∈ (writes env bs p).io.writes, w.Accepted) :
    (writes env bs p).rxFactory.sourceData.fs =
      { p.rxFactory.sourceData.fs with content := p.sink ++
        (bs.filter fun b => b.data.header.isPayld).flatMap MemBuff.payload } := by
  induction bs generalizing p with
  | nil => simp [writes, Process.sink]
  | cons b bs ih =>
    rw [writes] at h ⊢
    by_cases hb : b.data.header.isPayld
    · rw [if_pos hb] at h ⊢
      have hacc : (record env p b).Accepted := h _ (mem_writes (by rw [writes_write]; simp) bs)
      have hfs := fs_write_of_accepted hmode hacc
      rw [ih (by simpa using hmode) h]
      simp [hb, hfs, Process.sink]
    · rw [if_neg hb] at h ⊢
      rw [ih hmode h]
      simp [hb]

/-- Writes of capsules succeed when the stream does. -/
theorem accepted_writes (hmode : p.rxFactory.sourceData.fmode = .OUT)
    (hfs : p.rxFactory.sourceData.fs.failed = false) (hw : ∀ i, env.write i = .written)
    {bs : List MemBuff} (hbs : ∀ b ∈ bs, 0 ≤ DataFactory.writeLength b.size)
    (hio : ∀ w ∈ p.io.writes, w.Accepted) : ∀ w ∈ (writes env bs p).io.writes, w.Accepted := by
  induction bs generalizing p with
  | nil => exact hio
  | cons b bs ih =>
    have hrest : ∀ b ∈ bs, 0 ≤ DataFactory.writeLength b.size :=
      fun c hc => hbs c (List.mem_cons_of_mem _ hc)
    have hacc : (record env p b).Accepted :=
      Fstream.accepts_iff.2 ⟨hfs, hbs b List.mem_cons_self, hw _⟩
    rw [writes]
    split
    · refine ih (by simpa using hmode) ?_ hrest ?_
      · rw [fs_write_of_accepted hmode hacc]
        exact hfs
      · rw [writes_write, List.forall_mem_append]
        exact ⟨hio, by simpa using hacc⟩
    · exact ih hmode hfs hrest hio

end PresentationProcessor

end Udm
