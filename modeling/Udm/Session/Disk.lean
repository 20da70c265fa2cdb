import Udm.Library.Lockstep
import Udm.Session.Transition

/-!
# What a session sees of its disk

A session writes what it has received to its sink, and never looks at it again: neither
at what it holds, nor at whether the writes succeed, nor at the counters. Two processes
that differ in nothing else (`Process.Alike`) take the same steps, whatever becomes of
their writes (`blind_step`, `disk_unseen`). A sink whose writes fail holds the first bytes
of what it would hold otherwise (`DataSource.Behind`).

In the source this is no single line, but the absence of one: `write2Souce` returns nothing, the
stream is not tested after a write, and `curSize` and `curWritePos` are counted and not read on the
side of the receiver. So the statement is about all of the state functions, and its proof goes
through all of them (`blind_openState` and those that follow it), by the rules of
`Udm.Library.Lockstep`.

The relation of the two sinks is a parameter, `S`, as is that of the outcomes of their writes, `O`.
All that is asked of the two is that a write keeps them related (`Appends`). There are two uses:
with any sinks and any outcomes, nothing but the disk differs; with the second process writing
successfully, the first sink stays behind the second one.
-/

namespace Udm

/-! ## Sinks -/

/-- The sink after a buffer was written. -/
def DataSource.append (o : WriteOutcome) (b : MemBuff) (d : DataSource) : DataSource :=
  match d.fmode with
  | .IN => d
  | .OUT => (DataFactory.writeStream o d b.data.body (DataFactory.writeLength b.size)).2

/-- A write changes the sink and a counter. -/
theorem DataFactory.write2Source_eq (fac : DataFactory) (o : WriteOutcome) (b : MemBuff) :
    ∃ curWritePos, fac.write2Source o b b.size =
      { fac with sourceData := fac.sourceData.append o b, curWritePos } := by
  cases h : fac.sourceData.fmode with
  | IN => exact ⟨fac.curWritePos, by simp [write2Source, DataSource.append, h]⟩
  | OUT => simp [write2Source, DataSource.append, h]

/-- What a process has stored, its counters of it, and the record of its writes. -/
structure Disk where
  /-- The sink. -/
  sourceData : DataSource
  /-- The read position, which a receiver counts as well. -/
  curPos : ℤ
  /-- How much was written. -/
  curSize : ℤ
  /-- Where it was written, one less for every failed write. -/
  curWritePos : ℤ
  /-- What was handed to the stream. -/
  writes : List SinkWrite

namespace Process

/-- The process with another disk. -/
def onDisk (k : Disk) (p : Process) : Process :=
  { p with
    rxFactory := { p.rxFactory with
      sourceData := k.sourceData
      curPos := k.curPos
      curSize := k.curSize
      curWritePos := k.curWritePos }
    io.writes := k.writes }

/-- The disk of the process. -/
def disk (p : Process) : Disk :=
  ⟨p.rxFactory.sourceData, p.rxFactory.curPos, p.rxFactory.curSize, p.rxFactory.curWritePos,
    p.io.writes⟩

/-- A process is on its own disk. -/
theorem onDisk_disk (p : Process) : p.onDisk p.disk = p := rfl

/-- The record of the writes is that of the disk. -/
theorem io_writes_onDisk (k : Disk) (p : Process) : (p.onDisk k).io.writes = k.writes := rfl

/-- The processes differ in their disks only, and their sinks are related by `S`. -/
def Alike (S : DataSource → DataSource → Prop) : Process → Process → Prop :=
  SameBut onDisk fun p k => S p.rxFactory.sourceData k.sourceData

/-- Whether a session has returned is not on its disk. -/
theorem Alike.returned_eq {S : DataSource → DataSource → Prop} {p q : Process} (h : p.Alike S q) :
    p.returned = q.returned := by
  obtain ⟨k, rfl, -⟩ := h
  rfl

end Process

/-- The environment of a step with other outcomes of the writes. -/
def Env.writing (write : ℕ → WriteOutcome) (env : Env) : Env := { env with write }

/-- Sinks related by `S` stay so when the same is written to them, with outcomes related
    by `O`. -/
def Appends (S : DataSource → DataSource → Prop) (O : WriteOutcome → WriteOutcome → Prop) : Prop :=
  ∀ d d' o o', S d d' → O o o' → ∀ b, S (d.append o b) (d'.append o' b)

/-! ## Programs that do not see the disk -/

variable {S : DataSource → DataSource → Prop} {α : Type}

/-- The programs do the same on processes that differ in their disks only. -/
abbrev Blind (S : DataSource → DataSource → Prop) (x y : Prog α) : Prop :=
  Lockstep (Process.Alike S) Eq x y

namespace Blind

/-- An assignment that neither reads nor writes the disk. -/
theorem modify {f : Process → Process} (hf : ∀ p k, f (p.onDisk k) = (f p).onDisk k) :
    Blind S (modify f) (modify f) := by
  refine Lockstep.modify_frame hf fun p k hS => ?_
  -- What is put on its own disk stays as it is.
  have hsink : (f p).rxFactory.sourceData = p.rxFactory.sourceData := by
    rw [← p.onDisk_disk, hf]
    rfl
  rwa [hsink]

/-- A program whose rest does not depend on the disk that was read. -/
theorem read {f g : Process → Prog α} (hg : ∀ p k, g (p.onDisk k) = g p)
    (h : ∀ p, Blind S (f p) (g p)) : Blind S (get >>= f) (get >>= g) := Lockstep.read_frame hg h

end Blind

open Blind

variable (bo : ByteOrder) (env : Env) (write : ℕ → WriteOutcome)

namespace Gateway

/-- The choice of an address. -/
theorem blind_selectAddrFromList : Blind S selectAddrFromList selectAddrFromList := by
  refine read (fun _ _ => rfl) fun p => ?_
  cases p.interfaces.peer_addressList with
  | none => exact .pure rfl
  | some l =>
    refine .seq (modify fun _ _ => rfl) fun _ => ?_
    exact .ite Iff.rfl (.throw _) (.pure rfl)

/-- The call that sends a datagram. -/
theorem blind_sendto (s : Dest) (body : Block Byte) (n : ℕ) :
    Blind S (sendto env s body n) (sendto (env.writing write) s body n) := by
  rw [sendto, sendto]
  have hsend : (env.writing write).sendto = env.sendto := rfl
  rw [hsend]
  cases env.sendto with
  | true => exact .seq (modify fun _ _ => rfl) fun _ => .pure rfl
  | false => exact .pure rfl

/-- Sending without looking at the outcome. -/
theorem blind_chunkWrite (cap : Capsule) :
    Blind S (chunkWrite bo env cap) (chunkWrite bo (env.writing write) cap) :=
  blind_selectAddrFromList.seq fun s => (blind_sendto env write s _ _).seq fun _ => .pure rfl

/-- Sending a chunk of the file, or exiting. -/
theorem blind_send (cap : Capsule) :
    Blind S (send bo env cap) (send bo (env.writing write) cap) := by
  refine blind_selectAddrFromList.seq fun s => (blind_sendto env write s _ _).seq fun sent => ?_
  cases sent with
  | true => exact .pure rfl
  | false => exact .throw _

/-- Receiving into a new buffer. -/
theorem blind_pull : Blind S (pull bo env) (pull bo (env.writing write)) := by
  refine read (fun _ _ => rfl) fun p => .seq (modify fun _ _ => rfl) fun _ => ?_
  have hdatagram : (env.writing write).datagram = env.datagram := rfl
  rw [hdatagram]
  cases env.datagram with
  | none => exact .throw _
  | some d =>
    refine .seq (modify fun _ _ => rfl) fun _ => ?_
    exact .seq (modify fun _ _ => rfl) fun _ => .pure rfl

/-- Receiving into the buffer of the hello. -/
theorem blind_receive (b : MemBuff) :
    Blind S (receive bo env b) (receive bo (env.writing write) b) := by
  rw [receive, receive]
  have hdatagram : (env.writing write).datagram = env.datagram := rfl
  have hname : (env.writing write).getnameinfo = env.getnameinfo := rfl
  rw [hdatagram, hname]
  cases env.datagram with
  | none => exact .throw _
  | some d => exact .ite Iff.rfl (modify fun _ _ => rfl) (.throw _)

end Gateway

/-! ## Writing the window -/

/-- Following a pointer to a received buffer. -/
theorem blind_deref (b : MemBuff) : Blind S (deref b) (deref b) :=
  read (fun _ _ => rfl) fun _ => .ite Iff.rfl (.pure rfl) (.throw _)

namespace Compositor

/-- Taking a buffer to send. -/
theorem blind_constructChunk : Blind S constructChunk constructChunk := by
  refine read (fun _ _ => rfl) fun p => ?_
  cases p.txFactory.fetchChunk with
  | none => exact .throw _
  | some c => exact .seq (modify fun _ _ => rfl) fun _ => .pure rfl

/-- Making one. -/
theorem blind_newBuffer (dir : StateDirection) :
    Blind S (newBuffer env dir) (newBuffer (env.writing write) dir) := by
  refine read (fun _ _ => by cases dir <;> rfl) fun p => ?_
  cases dir with
  | TX => exact .seq (modify fun _ _ => rfl) fun _ => .pure rfl
  | RX => exact .seq (modify fun _ _ => rfl) fun _ => .pure rfl

end Compositor

namespace PresentationProcessor

variable {O : WriteOutcome → WriteOutcome → Prop} {env write}

/-- A write is seen in the disk only. -/
theorem alike_write (hS : Appends S O) (hO : ∀ i j, O (env.write i) (write j)) {p q : Process}
    (h : p.Alike S q) (b : MemBuff) :
    (PresentationProcessor.write env b p).Alike S
      (PresentationProcessor.write (env.writing write) b q) := by
  obtain ⟨k, rfl, hk⟩ := h
  obtain ⟨n, hn⟩ := p.rxFactory.write2Source_eq (env.write p.io.writes.length) b
  obtain ⟨m, hm⟩ := (p.onDisk k).rxFactory.write2Source_eq (write k.writes.length) b
  refine ⟨(PresentationProcessor.write (env.writing write) b (p.onDisk k)).disk, ?_, ?_⟩
  all_goals
    simp only [PresentationProcessor.write, write2Souce, hn, Env.writing, Process.io_writes_onDisk,
      hm, Process.disk]
  · rfl
  · exact hS _ _ _ _ hk (hO _ _) b

/-- The writes of a window: what is written, and how often, does not depend on what became of it. -/
theorem blind_writeWindow (hS : Appends S O) (hO : ∀ i j, O (env.write i) (write j))
    (bs : List MemBuff) : Blind S (writeWindow env bs) (writeWindow (env.writing write) bs) := by
  induction bs with
  | nil => exact .pure rfl
  | cons b bs ih =>
    refine (blind_deref b).seq fun b => ?_
    by_cases hb : b.data.header.isPayld
    · simp only [hb, if_true]
      exact .seq (.modify fun _ _ h => alike_write hS hO h b) fun _ => ih
    · simp only [hb]
      exact ih

/-- The window is written in `done`. -/
theorem blind_process (hS : Appends S O) (hO : ∀ i j, O (env.write i) (write j))
    (state : StateCodes) : Blind S (process env state) (process (env.writing write) state) := by
  cases state with
  | done => exact read (fun _ _ => rfl) fun p => blind_writeWindow hS hO _
  | _ => exact .pure rfl

end PresentationProcessor

/-! ## The session processor -/

namespace SessionProcessor

/-- The header of a capsule. -/
theorem blind_setCapParams (cap : Capsule) (par : Params) (code : StateCodes) :
    Blind S (setCapParams env cap par code) (setCapParams (env.writing write) cap par code) := by
  refine read (fun _ _ => by cases code <;> rfl) fun p => ?_
  have hstamp (cap : Capsule) : Blind S
      (do let capsuleId := (← get).session.processor.capsuleId
          modify Process.nextCapsule
          return stamp cap par capsuleId)
      (do let capsuleId := (← get).session.processor.capsuleId
          modify Process.nextCapsule
          return stamp cap par capsuleId) :=
    read (fun _ _ => rfl) fun _ => .seq (modify fun _ _ => rfl) fun _ => .pure rfl
  cases code with
  | connected => exact .seq (modify fun _ _ => rfl) fun _ => hstamp _
  | _ => exact hstamp _

/-- What is taken of a capsule. -/
theorem blind_process (b : MemBuff) (code : StateCodes) :
    Blind S (process env b code) (process (env.writing write) b code) := by
  refine .ite Iff.rfl ?_ (.pure rfl)
  cases code with
  | setup => exact modify fun _ _ => rfl
  | connected =>
    exact .seq (modify fun _ _ => rfl) fun _ => modify fun _ _ => rfl
  | closed =>
    have hfin : Blind S
        (if b.data.header.isFin then modify fun p => p.setRx { p.rxFactory with fin := true }
          else pure ())
        (if b.data.header.isFin then modify fun p => p.setRx { p.rxFactory with fin := true }
          else pure ()) :=
      .ite Iff.rfl (modify fun _ _ => rfl) (.pure rfl)
    cases b.data.header.isPayld with
    | true => exact .seq (modify fun _ _ => rfl) fun _ => hfin
    | false => exact hfin
  | _ => exact .pure rfl

end SessionProcessor

/-! ## The state functions -/

namespace Session

/-- The id of the source. -/
theorem blind_genSrcId : Blind S genSrcId genSrcId :=
  .seq (modify fun _ _ => rfl) fun _ => read (fun _ _ => rfl) fun _ => .pure rfl

/-- The id of the connection. -/
theorem blind_genConnId : Blind S genConnId genConnId :=
  .seq (modify fun _ _ => rfl) fun _ => read (fun _ _ => rfl) fun _ => .pure rfl

/-- The entry of the connection. -/
theorem blind_connection : Blind S connection connection := by
  refine read (fun _ _ => rfl) fun p => ?_
  cases p.session.connections.get p.session.connection_count with
  | none => exact .seq (modify fun _ _ => rfl) fun _ => .pure rfl
  | some c => exact .pure rfl

/-- Changing it. -/
theorem blind_setConnection (f : Connection → Connection) :
    Blind S (setConnection f) (setConnection f) :=
  blind_connection.seq fun _ => modify fun _ _ => rfl

/-- The parameters of a capsule. -/
theorem blind_params (type : CapsuleType) : Blind S (params type) (params type) :=
  blind_connection.seq fun _ => .pure rfl

/-- Taking a received buffer. -/
theorem blind_rxPop : Blind S rxPop rxPop := by
  refine read (fun _ _ => rfl) fun p => .seq (modify fun _ _ => rfl) fun _ => ?_
  cases p.rxFactory.tryPop.1 with
  | none => exact .throw _
  | some b => exact .pure rfl

/-- Freeing a sent one. -/
theorem blind_txPop : Blind S txPop txPop := modify fun _ _ => rfl

/-- Sending a capsule. -/
theorem blind_sendState (code : StateCodes) (dir : StateDirection) (cap : Capsule) :
    Blind S (sendState bo env code dir cap) (sendState bo (env.writing write) code dir cap) :=
  .ite Iff.rfl (Gateway.blind_chunkWrite bo env write cap)
    (.ite Iff.rfl (Gateway.blind_chunkWrite bo env write cap) (Gateway.blind_send bo env write cap))

/-- Receiving one. -/
theorem blind_receiveState (code : StateCodes) (b : Option MemBuff) :
    Blind S (receiveState bo env code b) (receiveState bo (env.writing write) code b) := by
  have hpull : Blind S
      (do let res ← Gateway.pull bo env
          if res.data.header.isPayld then modify (Process.keep res))
      (do let res ← Gateway.pull bo (env.writing write)
          if res.data.header.isPayld then modify (Process.keep res)) :=
    (Gateway.blind_pull bo env write).seq fun _ =>
      .ite Iff.rfl (modify fun _ _ => rfl) (.pure rfl)
  cases code with
  | «open» =>
    cases b with
    | none => exact .throw _
    | some b => exact Gateway.blind_receive bo env write b
  | _ => exact hpull

/-- The hello. -/
theorem blind_openState (dir : StateDirection) :
    Blind S (openState bo env dir) (openState bo (env.writing write) dir) := by
  cases dir with
  | TX =>
    refine blind_genSrcId.seq fun src => .seq (modify fun _ _ => rfl) fun _ => ?_
    refine (Compositor.blind_newBuffer env write .RX).seq fun b => ?_
    refine (blind_receiveState bo env write .open (some b)).seq fun _ => ?_
    refine blind_rxPop.seq fun b => ?_
    refine (SessionProcessor.blind_process env write b .open).seq fun _ => ?_
    exact (blind_setConnection _).seq fun _ => modify fun _ _ => rfl
  | RX =>
    refine (Compositor.blind_newBuffer env write .TX).seq fun b => ?_
    refine blind_genSrcId.seq fun src => .seq (modify fun _ _ => rfl) fun _ => ?_
    refine (blind_params .PAYLD).seq fun par => ?_
    refine (SessionProcessor.blind_setCapParams env write b.data par .open).seq fun cap => ?_
    refine (blind_sendState bo env write .open .RX cap).seq fun _ => ?_
    exact blind_txPop.seq fun _ => modify fun _ _ => rfl

/-- The addresses of the sender. -/
theorem blind_setupState (dir : StateDirection) :
    Blind S (setupState bo env dir) (setupState bo (env.writing write) dir) := by
  cases dir with
  | TX =>
    refine (Compositor.blind_newBuffer env write .TX).seq fun b => ?_
    refine (blind_params .CTRL).seq fun par => ?_
    refine (SessionProcessor.blind_setCapParams env write b.data par .setup).seq fun cap => ?_
    refine (blind_sendState bo env write .setup .TX cap).seq fun _ => ?_
    exact blind_txPop.seq fun _ => modify fun _ _ => rfl
  | RX =>
    refine (blind_receiveState bo env write .setup none).seq fun _ => blind_rxPop.seq fun b => ?_
    refine (SessionProcessor.blind_process env write b .setup).seq fun _ => ?_
    exact (blind_setConnection _).seq fun _ => modify fun _ _ => rfl

/-- The addresses of the receiver. -/
theorem blind_connectedState (dir : StateDirection) :
    Blind S (connectedState bo env dir) (connectedState bo (env.writing write) dir) := by
  cases dir with
  | TX =>
    refine (blind_receiveState bo env write .connected none).seq fun _ => ?_
    refine blind_rxPop.seq fun b => ?_
    refine (SessionProcessor.blind_process env write b .connected).seq fun _ => ?_
    exact (blind_setConnection _).seq fun _ => modify fun _ _ => rfl
  | RX =>
    refine blind_genConnId.seq fun id => (blind_setConnection _).seq fun _ => ?_
    refine (Compositor.blind_newBuffer env write .TX).seq fun b => ?_
    refine (blind_params .CTRL).seq fun par => ?_
    refine (SessionProcessor.blind_setCapParams env write b.data par .connected).seq fun cap => ?_
    refine (blind_sendState bo env write .connected .RX cap).seq fun _ => ?_
    exact blind_txPop.seq fun _ => modify fun _ _ => rfl

/-- A data capsule. -/
theorem blind_submitTask (dir : StateDirection) :
    Blind S (submitTask bo env dir) (submitTask bo (env.writing write) dir) := by
  cases dir with
  | TX =>
    refine .seq (modify fun _ _ => rfl) fun _ => ?_
    refine Compositor.blind_constructChunk.seq fun b => read (fun _ _ => rfl) fun p => ?_
    -- The rest is the same, whether this is the last chunk or not.
    have hsend (cap : Capsule) : Blind S
        (do let par ← params .PAYLD
            let cap := PresentationProcessor.setCapParams bo cap par .closed
            let cap ← SessionProcessor.setCapParams env cap par .closed
            sendState bo env .closed .TX cap)
        (do let par ← params .PAYLD
            let cap := PresentationProcessor.setCapParams bo cap par .closed
            let cap ← SessionProcessor.setCapParams (env.writing write) cap par .closed
            sendState bo (env.writing write) .closed .TX cap) := by
      refine (blind_params .PAYLD).seq fun par => ?_
      refine (SessionProcessor.blind_setCapParams env write _ par .closed).seq fun cap => ?_
      exact blind_sendState bo env write .closed .TX cap
    cases p.txFactory.fin && p.txFactory.buffer.isEmpty with
    | true => exact .seq (modify fun _ _ => rfl) fun _ => hsend _
    | false => exact hsend _
  | RX =>
    refine (blind_receiveState bo env write .closed none).seq fun _ => ?_
    refine read (fun _ _ => rfl) fun p => ?_
    -- The window is in memory, and the newest capsule in it is the same.
    cases p.rxcurrentWindow.last with
    | none => exact .pure rfl
    | some c =>
      refine (blind_deref c.2).seq fun b => ?_
      refine (SessionProcessor.blind_process env write b .closed).seq fun _ => ?_
      refine read (fun _ _ => rfl) fun p => ?_
      exact .ite Iff.rfl (modify fun _ _ => rfl) (.pure rfl)

/-- A window. -/
theorem blind_closedState (dir : StateDirection) :
    Blind S (closedState bo env dir) (closedState bo (env.writing write) dir) := by
  refine read (fun _ _ => rfl) fun p => .ite Iff.rfl ?_ (modify fun _ _ => rfl)
  refine (blind_submitTask bo env write dir).seq fun _ => read (fun _ _ => rfl) fun p => ?_
  exact .ite Iff.rfl (modify fun _ _ => rfl) (.pure rfl)

variable {O : WriteOutcome → WriteOutcome → Prop} {env write}

/-- Its end: only here does the receiver write. -/
theorem blind_doneState (hS : Appends S O) (hO : ∀ i j, O (env.write i) (write j))
    (dir : StateDirection) :
    Blind S (doneState bo env dir) (doneState bo (env.writing write) dir) := by
  cases dir with
  | TX =>
    refine (blind_receiveState bo env write .done none).seq fun _ => blind_rxPop.seq fun b => ?_
    refine (SessionProcessor.blind_process env write b .done).seq fun _ => ?_
    refine read (fun _ _ => rfl) fun p => ?_
    cases p.txFactory.fin with
    | true =>
      exact .seq (modify fun _ _ => rfl) fun _ => modify fun _ _ => rfl
    | false =>
      exact .seq (modify fun _ _ => rfl) fun _ =>
        .seq (modify fun _ _ => rfl) fun _ => modify fun _ _ => rfl
  | RX =>
    refine read (fun _ _ => rfl) fun p => ?_
    -- The writes, and then the acknowledgement, which does not depend on them.
    refine (PresentationProcessor.blind_process hS hO .done).seq fun _ => ?_
    refine (Compositor.blind_newBuffer env write .TX).seq fun b => ?_
    refine .seq (modify fun _ _ => rfl) fun _ => (blind_params .CTRL).seq fun par => ?_
    refine (SessionProcessor.blind_setCapParams env write b.data _ .done).seq fun cap => ?_
    refine (blind_sendState bo env write .done .RX cap).seq fun _ => ?_
    refine read (fun _ _ => rfl) fun p => ?_
    cases p.rxFactory.fin with
    | true =>
      exact .seq (modify fun _ _ => rfl) fun _ => modify fun _ _ => rfl
    | false =>
      exact .seq (modify fun _ _ => rfl) fun _ =>
        .seq (modify fun _ _ => rfl) fun _ => modify fun _ _ => rfl

/-- All the state functions. -/
theorem blind_states (hS : Appends S O) (hO : ∀ i j, O (env.write i) (write j)) (next : StateCodes)
    (dir : StateDirection) :
    Blind S (states bo env next dir) (states bo (env.writing write) next dir) := by
  cases next with
  | «open» => exact blind_openState bo env write dir
  | setup => exact blind_setupState bo env write dir
  | connected => exact blind_connectedState bo env write dir
  | closed => exact blind_closedState bo env write dir
  | done => exact blind_doneState bo hS hO dir
  | inq => exact .pure rfl
  | send => exact .throw _
  | recv => exact blind_receiveState bo env write .recv none

/-- A step does the same on processes that differ in their disks only, whatever becomes of its
    writes. -/
theorem blind_step (hS : Appends S O) (hO : ∀ i j, O (env.write i) (write j)) :
    Blind S (step bo env) (step bo (env.writing write)) := by
  -- The record of the step starts anew.
  have hclear (p q : Process) (h : p.Alike S q) : p.clear.Alike S q.clear := by
    obtain ⟨k, rfl, hk⟩ := h
    exact ⟨{ k with writes := [] }, rfl, hk⟩
  refine .seq (.modify hclear) fun _ => read (fun _ _ => rfl) fun p => ?_
  exact blind_states bo hS hO _ _

end Session

/-! ## A disk that fails -/

/-- The sink `d` holds the first bytes of what `d'` holds, and all of them as long as its
    stream is good. -/
structure DataSource.Behind (d d' : DataSource) : Prop where
  /-- Both were opened in the same way. -/
  fmode : d.fmode = d'.fmode
  /-- What `d` holds is the start of what `d'` holds. -/
  isPrefix : d.fs.content <+: d'.fs.content
  /-- A good stream has missed nothing. -/
  good : d.fs.failed = false → d'.fs.failed = false ∧ d.fs.content = d'.fs.content

/-- Nothing is missing yet. -/
theorem DataSource.Behind.refl (d : DataSource) : d.Behind d :=
  ⟨rfl, List.prefix_rfl, fun h => ⟨h, rfl⟩⟩

/-- A load is a prefix of a longer one. -/
theorem Block.load_prefix {β : Type*} (m : Block β) (off : ℕ) {n k : ℕ} (h : n ≤ k) :
    m.load off n <+: m.load off k := by
  obtain ⟨j, rfl⟩ := Nat.exists_eq_add_of_le h
  rw [m.load_add]
  exact List.prefix_append _ _

namespace Fstream

variable {fs fs' : Fstream} {o : WriteOutcome} {buff : Block Byte} {n : ℤ}

/-- Writes only append. -/
theorem prefix_write : fs.content <+: (fs.write o buff n).content := by
  unfold Fstream.write
  split <;> exact List.prefix_append _ _

/-- A stream that has failed takes nothing any more. -/
theorem write_of_failed (h : fs.failed = true) : fs.write o buff n = fs := by
  obtain ⟨content, pos, gcount, failed⟩ := fs
  obtain rfl : failed = true := h
  cases o <;> simp [Fstream.write, accepts]

/-- Of two good streams, one that takes a buffer is not behind one that may not. -/
theorem write_prefix_write (h : fs.failed = false) (h' : fs'.failed = false)
    (hcontent : fs.content = fs'.content) :
    (fs.write o buff n).content <+: (fs'.write .written buff n).content ∧
      ((fs.write o buff n).failed = false → (fs'.write .written buff n).failed = false ∧
        (fs.write o buff n).content = (fs'.write .written buff n).content) := by
  cases o with
  | written => by_cases hn : 0 ≤ n <;> simp [Fstream.write, accepts, h, h', hcontent, hn]
  | failed k =>
    have hle : min k (n.toNat - 1) ≤ n.toNat := by omega
    have hload := buff.load_prefix 0 hle
    by_cases hn : 0 ≤ n
    · simp [Fstream.write, accepts, h, h', hcontent, hn, hload]
    · have hzero : n.toNat = 0 := by omega
      simp [Fstream.write, accepts, h, h', hcontent, hn, hzero]

end Fstream

/-- What is behind stays behind, if the other one's writes succeed. -/
theorem appends_behind : Appends DataSource.Behind fun _ o' => o' = .written := by
  rintro d d' o _ ⟨hmode, hpre, hgood⟩ rfl b
  rw [DataSource.append, DataSource.append, ← hmode]
  cases hm : d.fmode with
  | IN => exact ⟨hmode, hpre, hgood⟩
  | OUT =>
    rw [DataFactory.writeStream, DataFactory.writeStream]
    dsimp only
    cases hfailed : d.fs.failed with
    | true =>
      rw [Fstream.write_of_failed hfailed]
      exact ⟨hmode, hpre.trans Fstream.prefix_write, fun hgood' => by simp [hfailed] at hgood'⟩
    | false =>
      obtain ⟨hfailed', hcontent⟩ := hgood hfailed
      obtain ⟨hpre', hgood'⟩ := Fstream.write_prefix_write hfailed hfailed' hcontent
      exact ⟨hmode, hpre', hgood'⟩

namespace Session

/-! ## Runs -/

section Runs

variable {O : WriteOutcome → WriteOutcome → Prop} {p q : Process}

/-- Runs of processes that differ in their disks only. -/
theorem same_run (hS : Appends S O) (h : p.Alike S q) (env : ℕ → Env)
    (write : ℕ → ℕ → WriteOutcome) (hO : ∀ n i j, O ((env n).write i) (write n j)) (n : ℕ) :
    Conf.Same (Process.Alike S) (run bo p env n)
      (run bo q (fun i => (env i).writing (write i)) n) :=
  Conf.lockstep_runs (fun _ _ h => h.returned_eq) (fun n => blind_step bo hS (hO n)) h n

end Runs

/-- Whatever a session stores, in whatever it finds of the sink, and whichever of its writes
    fail: in the end only its disk is another one, so that it has sent the same to the same
    addresses, and stops with the same error or returns at the same moment. If nothing else
    differs, its sink holds the first bytes of what it would hold had all the writes succeeded,
    and all of them if its stream is good. -/
theorem disk_unseen (p : Process) (env : ℕ → Env) (n : ℕ) :
    (∀ (k : Disk) (write : ℕ → ℕ → WriteOutcome), ∃ k',
      (run bo (p.onDisk k) (fun i => (env i).writing (write i)) n).error = (run bo p env n).error ∧
      (run bo (p.onDisk k) (fun i => (env i).writing (write i)) n).state =
        (run bo p env n).state.onDisk k') ∧
    (run bo p env n).state.rxFactory.sourceData.Behind
      (run bo p (fun i => (env i).writing fun _ => .written) n).state.rxFactory.sourceData := by
  constructor
  · intro k write
    have hS : Appends (fun _ _ => True) fun _ _ => True := fun _ _ _ _ _ _ _ => trivial
    obtain ⟨herror, k', hk', -⟩ :=
      @same_run _ bo _ p (p.onDisk k) hS ⟨k, rfl, trivial⟩ env write (fun _ _ _ => trivial) n
    exact ⟨k', herror.symm, hk'⟩
  · have hp : p.Alike DataSource.Behind p := ⟨p.disk, rfl, .refl _⟩
    obtain ⟨-, k, hk, hbehind⟩ :=
      same_run bo appends_behind hp env (fun _ _ => .written) (fun _ _ _ => rfl) n
    rw [hk]
    exact hbehind

end Session

end Udm
