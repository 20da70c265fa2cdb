import Udm.Session.Handshake

/-!
# The transfer

What the state functions `closedState` and `doneState` do in both directions:
the sender sends the next data capsule, the receiver keeps the capsules of a
window, writes them to its sink and acknowledges the window.

Each of the two functions is one lemma for each side, with the process that it leads to as a
definition of its own (`sentData`, `checkFin`, `sentOk`, `Process.endWindow`), so that the lemmas
about steps can name it. What the lemmas show of the source:

* a call of `closedState` handles one capsule. The window is counted down after it
  (`Process.countDown`), unless it is zero by then, which `submitTask` makes it at the end of the
  file;
* on both sides the end of the file is a flag of the factory. For the sender it comes from a short
  read (`isLast`), for the receiver from the newest capsule of the window (`checkFin`);
* `doneState` follows the pointers of the window before it sends anything. If one of them dangles,
  the writes before it have happened (`wp_doneState_rx`);
* the sender does not look at the acknowledgement: `wp_doneState_tx` has no condition on the
  datagram.
-/

namespace Udm

/-- `if (winSize) winSize--`. -/
@[simps!] def Process.countDown (p : Process) : Process :=
  p.setWinSize (if p.session.processor.winSize = 0 then 0 else p.session.processor.winSize - 1)

/-- The end of a window: the session goes on unless it is over. -/
@[simps!] def Process.endWindow (fin : Bool) (p : Process) : Process :=
  { p with
    session.processor.winSize := if fin then p.session.processor.winSize else BitVec.ofNat 16 WIN_SIZ
    session.next := if fin then .connected else .closed
    session.done := true
    session.complete := true }

namespace Session

variable (bo : ByteOrder) (env : Env) {Q : Unit → Process → Prop} {E : Halt → Process → Prop}
  {p : Process}

/-! ## Sending -/

/-- The process after reading the next chunk of its source. -/
@[simps!] def loaded (p : Process) : Process := p.setTx (p.txFactory.updateDataSource env.heap)

/-- The chunk taken out of the sending queue is the last one. -/
def isLast (p : Process) : Bool := p.txFactory.fin && p.txFactory.buffer.isEmpty

/-- The data capsule made of the chunk `b` in the state `p`, in which `b` was
    taken out of the queue. -/
def dataCapsule (p : Process) (b : MemBuff) : Capsule :=
  let cap : Capsule := if isLast p then { b.data with header.capFlags := Flags.FIN.code } else b.data
  SessionProcessor.stamp (cap.copyHeader bo) (p.session.capParams .PAYLD)
    p.session.processor.capsuleId

/-- The process once a data capsule is ready to be sent. -/
@[simps] def prepareData (p : Process) : Process :=
  { p with
    session.connections :=
      p.session.connections.insert p.session.connection_count p.session.current
    session.processor.winSize := if isLast p then 0 else p.session.processor.winSize
    session.processor.capsuleId := int32 (p.session.processor.capsuleId + 1) }

/-- Where the source has nothing more, the queue is empty, and `fetchChunk` exits. -/
theorem wp_submitTask_tx_nil (h : (loaded env p).txFactory.buffer = []) :
    wp (submitTask bo env .TX) Q E p ↔ E .exit (loaded env p) := by
  simp only [submitTask, wp_bind, wp_modify]
  exact wp_constructChunk_nil h

/-- Otherwise the chunk is sent, if there is an address, and exits if the datagram is not sent. -/
theorem wp_submitTask_tx {b : MemBuff} (h : (loaded env p).txFactory.buffer.head? = some b) :
    wp (submitTask bo env .TX) Q E p ↔
      let p' := (loaded env p).popTx
      if p.interfaces.NoAddress then E .fault (prepareData p').select
      else if env.sendto then Q () ((prepareData p').send env ((dataCapsule bo p' b).wire bo))
      else E .exit (prepareData p').select := by
  simp only [submitTask, wp_bind, wp_modify]
  refine (wp_constructChunk h).trans ?_
  simp only [wp_bind, wp_get]
  cases hl : (loaded env p).popTx.txFactory.fin && (loaded env p).popTx.txFactory.buffer.isEmpty
  · simp only [Bool.false_eq_true, if_false, wp_bind, wp_params,
      PresentationProcessor.setCapParams, SessionProcessor.wp_setCapParams_closed, wp_sendState_tx,
      Gateway.wp_send]
    simp only [prepareData, dataCapsule, isLast, hl]
    rfl
  · simp only [if_true, wp_bind, wp_modify, wp_params,
      PresentationProcessor.setCapParams, SessionProcessor.wp_setCapParams_closed, wp_sendState_tx,
      Gateway.wp_send]
    simp only [prepareData, dataCapsule, isLast, hl]
    rfl

/-- The window is used up, or one capsule of it is handled. -/
theorem wp_closedState (dir : StateDirection) :
    wp (closedState bo env dir) Q E p ↔
      if p.session.processor.winSize = 0 then Q () (p.setNext .done)
      else wp (submitTask bo env dir) (fun _ p' => Q () p'.countDown) E p := by
  simp only [closedState, wp_bind, wp_get]
  by_cases hw : p.session.processor.winSize = 0
  · simp [hw]
  · simp only [ne_eq, hw, not_false_eq_true, if_true, if_false, wp_bind]
    refine wp_congr fun _ p' => ?_
    by_cases hw' : p'.session.processor.winSize = 0
    · have : p'.countDown = p' := by
        rw [Process.countDown, if_pos hw', ← hw']
        rfl
      simp [hw', this]
    · have : p'.countDown = p'.setWinSize (p'.session.processor.winSize - 1) := by
        rw [Process.countDown, if_neg hw']
      rw [wp_bind, wp_get, this, if_pos hw', wp_modify]

/-! ## Receiving -/

/-- The process after `process` of the buffer `b` in the state `closed`. -/
@[simps] def keepFin (b : MemBuff) (p : Process) : Process :=
  { p with
    rxcurrentWindow := if b.data.header.isPayld
      then p.rxcurrentWindow.insert b.data.header.capid b else p.rxcurrentWindow
    rxFactory.fin := p.rxFactory.fin || b.data.header.isFin }

/-- The process after the end of the file was looked for in the buffer `b`: the
    window ends there. -/
@[simps!] def checkFin (b : MemBuff) (p : Process) : Process :=
  (keepFin b p).setWinSize (if (keepFin b p).rxFactory.fin then 0 else p.session.processor.winSize)

/-- A payload is kept, and FIN remembered. -/
theorem wp_process_closed (b : MemBuff) :
    wp (SessionProcessor.process env b .closed) Q E p ↔ Q () (keepFin b p) := by
  cases hp : b.data.header.isPayld <;> cases hf : b.data.header.isFin <;>
    simp [SessionProcessor.process, CapsuleType.code, keepFin, Process.keep, Process.setRx, hp, hf]

/-- A datagram is received, and then the end of the file looked for in the newest capsule. The
    window is empty if only control capsules have come. -/
theorem wp_submitTask_rx {d : List Byte} (hd : env.datagram = some d) :
    wp (submitTask bo env .RX) Q E p ↔
      match (received bo env p d).rxcurrentWindow.last with
      | none => Q () (received bo env p d)
      | some (_, b) =>
        if (received bo env p d).rxFactory.holds b then Q () (checkFin b (received bo env p d))
        else E .fault (received bo env p d) := by
  simp only [submitTask, wp_bind, wp_receiveState bo env .closed (by decide) hd, wp_get]
  cases (received bo env p d).rxcurrentWindow.last with
  | none => rfl
  | some kb =>
    obtain ⟨k, b⟩ := kb
    simp only [wp_bind, wp_deref, wp_process_closed, wp_get]
    split
    swap
    · rfl
    cases hfin : (keepFin b (received bo env p d)).rxFactory.fin
    · simp only [Bool.false_eq_true, if_false, checkFin, hfin]
      rfl
    · simp only [if_true, checkFin, hfin, wp_modify]

/-- Without a datagram, the receiver exits. -/
theorem wp_submitTask_rx_none (hd : env.datagram = none) :
    wp (submitTask bo env .RX) Q E p ↔ E .exit (p.pushRx env.heap) := by
  simp only [submitTask, wp_bind, wp_receiveState_none bo env .closed (by decide) hd]

/-! ## Acknowledging -/

/-- The last lines of `doneState`, which are the same on both sides. -/
theorem wp_endWindow (fin : Bool) :
    wp (if fin = true then (do modify (Process.setNext .connected); modify Process.finish)
      else (do
        modify (Process.setWinSize (BitVec.ofNat 16 WIN_SIZ))
        modify (Process.setNext .closed)
        modify Process.finish)) Q E p ↔ Q () (p.endWindow fin) := by
  cases fin <;> rfl

/-- Any datagram ends the window of the sender. -/
theorem wp_doneState_tx {d : List Byte} (hd : env.datagram = some d) (hb : p.rxFactory.buffer = []) :
    wp (doneState bo env .TX) Q E p ↔
      Q () ((received bo env p d).popRx.endWindow p.txFactory.fin) := by
  have hfront : (received bo env p d).rxFactory.buffer.head? =
      some (Gateway.pulled bo env p d) := by simp [hb]
  simp only [doneState, wp_bind, wp_receiveState bo env .done (by decide) hd,
    wp_rxPop hfront, wp_process_done, wp_get]
  have hfin : (received bo env p d).popRx.txFactory = p.txFactory := txFactory_received bo env d
  rw [hfin]
  exact wp_endWindow p.txFactory.fin

/-- Without a datagram, it exits. -/
theorem wp_doneState_tx_none (hd : env.datagram = none) :
    wp (doneState bo env .TX) Q E p ↔ E .exit (p.pushRx env.heap) := by
  simp only [doneState, wp_bind, wp_receiveState_none bo env .done (by decide) hd]

/-- The capsule acknowledging a window. -/
def ok (p : Process) : Capsule :=
  let cap := p.newCapsule env
  SessionProcessor.stamp { cap with header.capWinSiz := BitVec.ofNat 4 WIN_SIZ }
    (p.session.capParams .CTRL) p.session.processor.capsuleId

/-- The buffers of the window, by increasing capsule id. -/
def window (p : Process) : List MemBuff := p.rxcurrentWindow.entries.map Prod.snd

/-- The process after the writes of the window. -/
def written (p : Process) : Process := PresentationProcessor.writes env (window p) p

/-- The writes only change the sink, and what counts it. -/
theorem sameButSink_written (p : Process) : PresentationProcessor.SameButSink p (written env p) :=
  PresentationProcessor.sameButSink_writes _

@[simp] theorem session_written : (written env p).session = p.session :=
  (sameButSink_written env p).session

@[simp] theorem interfaces_written : (written env p).interfaces = p.interfaces :=
  (sameButSink_written env p).interfaces

@[simp] theorem rxcurrentWindow_written : (written env p).rxcurrentWindow = p.rxcurrentWindow :=
  (sameButSink_written env p).rxcurrentWindow

@[simp] theorem statics_written : (written env p).statics = p.statics :=
  (sameButSink_written env p).statics

@[simp] theorem sent_written : (written env p).io.sent = p.io.sent :=
  (sameButSink_written env p).sent

@[simp] theorem buffer_written : (written env p).rxFactory.buffer = p.rxFactory.buffer :=
  (sameButSink_written env p).buffer

@[simp] theorem fin_written : (written env p).rxFactory.fin = p.rxFactory.fin :=
  (sameButSink_written env p).fin

@[simp] theorem chunkSize_written : (written env p).rxFactory.chunkSize = p.rxFactory.chunkSize :=
  (sameButSink_written env p).chunkSize

/-- The process after `doneState` of the receiver. -/
def sentOk (p : Process) : Process :=
  let p' := written env p
  ((p'.release.prepare env).send env ((ok env p').wire bo)).endWindow p'.rxFactory.fin

/-- The window is written, freed and acknowledged. -/
theorem wp_doneState_rx :
    wp (doneState bo env .RX) Q E p ↔
      if (window p).all p.rxFactory.holds then
        if (written env p).interfaces.NoAddress then
          E .fault ((written env p).release.prepare env).select
        else Q () (sentOk bo env p)
      else
        E .fault (PresentationProcessor.writes env ((window p).takeWhile p.rxFactory.holds) p) := by
  have hflags : ∀ (cap : Capsule) (par : Params) (c : Prop) [Decidable c],
      SessionProcessor.setCapParams env cap
        (if c then { par with capFlags := Flags.FIN.code } else par) .done =
      SessionProcessor.setCapParams env cap par .done := by
    intro cap par c _
    split <;> rfl
  simp only [doneState, wp_bind, wp_get, PresentationProcessor.process,
    PresentationProcessor.wp_writeWindow, wp_newBuffer_tx, wp_modify, wp_params, hflags,
    SessionProcessor.wp_setCapParams_done, wp_sendState_rx, Gateway.wp_chunkWrite]
  exact Iff.of_eq (if_congr Iff.rfl (if_congr Iff.rfl rfl (propext (wp_endWindow _))) rfl)

/-- The process after `closedState` of the sender has sent the chunk `b`. -/
def sentData (b : MemBuff) (p : Process) : Process :=
  let p' := (loaded env p).popTx
  ((prepareData p').send env ((dataCapsule bo p' b).wire bo)).countDown

/-! ## Steps -/

/-- A step is the state function of the session's state, with a new record. -/
theorem wp_step :
    wp (step bo env) Q E p ↔ wp (states bo env p.session.next p.session.dir) Q E p.clear := Iff.rfl

end Session

end Udm
