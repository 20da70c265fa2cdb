import Udm.Session.Steps

/-!
# The handshake

What the state functions `openState`, `setupState` and `connectedState` do in
both directions. The receiver sends a hello capsule and, once it knows the
addresses of the sender, an ack capsule; the sender answers the hello with a hi
capsule.

In each state, one side sends and the other one receives:

* *open*: the receiver sends a hello, with the type of a payload and no content; the sender takes
  the id of its source from it;
* *setup*: the sender sends its addresses, and the receiver takes them;
* *connected*: the receiver sends its addresses and its window, and the sender takes them.

What is sent is a new buffer with the header of the session (`Process.prepare`,
`Process.sendControl`). The entry of the connection that the header is made of is
`connections[connection_count]`, which `openState` has just counted past (`newConnection`), so it is
an empty one (`Session.current`). A side that has an empty list of addresses divides by zero when it
selects one (`NoAddress`); a side without a list sends to where the socket says.
-/

namespace Udm

/-- The process once a capsule made in a new buffer is ready to be sent: the
    buffer was pushed, and `params` and `setCapParams` were called. -/
@[simps] def Process.prepare (env : Env) (p : Process) : Process :=
  { p with
    session.connections :=
      p.session.connections.insert p.session.connection_count p.session.current
    session.processor.capsuleId := int32 (p.session.processor.capsuleId + 1)
    txFactory := (p.txFactory.makeChunkforRx env.heap p.statics.hdrid).2
    statics.hdrid := p.statics.hdrid + 1 }

/-- The capsule of a new sending buffer. -/
def Process.newCapsule (env : Env) (p : Process) : Capsule :=
  (p.txFactory.makeChunkforRx env.heap p.statics.hdrid).1.data

/-- The process after a control capsule was sent as the datagram `d`, and its
    buffer popped. -/
def Process.sendControl (env : Env) (d : List Byte) (p : Process) : Process :=
  ((p.prepare env).send env d).popTx

namespace Session

variable (bo : ByteOrder) (env : Env) {Q : Unit → Process → Prop} {E : Halt → Process → Prop}
  {p : Process}

/-- Nothing is taken of a hello. -/
theorem wp_process_open (buf : MemBuff) :
    wp (SessionProcessor.process env buf .open) Q E p ↔ Q () p := by
  simp [SessionProcessor.process, CapsuleType.code]

/-- The receiver takes the addresses of the sender. -/
theorem wp_process_setup (buf : MemBuff) :
    wp (SessionProcessor.process env buf .setup) Q E p ↔
      Q () (SessionProcessor.receiveAddresses env buf p) := by
  simp [SessionProcessor.process, CapsuleType.code]

/-- The sender takes the window, and the addresses of the receiver. -/
theorem wp_process_connected (buf : MemBuff) :
    wp (SessionProcessor.process env buf .connected) Q E p ↔
      Q () (SessionProcessor.receiveAddresses env buf
        (p.setWinSize (buf.data.header.capWinSiz.setWidth 16))) := by
  simp [SessionProcessor.process, CapsuleType.code]

/-- Nothing is taken of an acknowledgement. -/
theorem wp_process_done (buf : MemBuff) :
    wp (SessionProcessor.process env buf .done) Q E p ↔ Q () p := by
  simp [SessionProcessor.process, CapsuleType.code]

/-! ## Hello -/

/-- The process with an entry for the new connection. -/
def newConnection (p : Process) : Process :=
  p.nextSrcid.addConnection { src := p.statics.prevSrcid + 1 }

/-- The capsule the receiver opens with. -/
def hello (p : Process) : Capsule :=
  SessionProcessor.stamp (p.newCapsule env) ((newConnection p).session.capParams .PAYLD)
    p.session.processor.capsuleId

/-- The process after `openState` of the receiver. -/
def sentHello (p : Process) : Process :=
  ((newConnection p).sendControl env ((hello env p).wire bo)).setNext .setup

/-- The receiver sends its hello. -/
theorem wp_openState_rx :
    wp (openState bo env .RX) Q E p ↔
      if p.interfaces.NoAddress then E .fault ((newConnection p).prepare env).select
      else Q () (sentHello bo env p) := by
  simp only [openState, wp_bind, wp_newBuffer_tx, wp_genSrcId, wp_params,
    SessionProcessor.wp_setCapParams_open, wp_sendState_rx, Gateway.wp_chunkWrite, txPop, wp_modify]
  rfl

/-- The buffer `openState` receives the hello `d` in. -/
def helloBuffer (p : Process) (d : List Byte) : MemBuff :=
  let chunk2recv := (p.rxFactory.makeChunkforRx env.heap p.statics.hdrid).1
  Gateway.recvInto bo { chunk2recv with size := SIZEOF_CAPSULE } SIZEOF_CAPSULE.toNat d

/-- The process with the hello `d` in its queue. -/
def receivedHello (d : List Byte) (p : Process) : Process :=
  let p' := (newConnection p).pushRx env.heap
  p'.setRx (p'.rxFactory.fill (helloBuffer bo env p d))

/-- The process after `openState` of the sender. -/
def opened (d : List Byte) (p : Process) : Process :=
  let p' := (receivedHello bo env d p).popRx
  let dst := (helloBuffer bo env p d).data.header.srcid
  (p'.putConnection { p'.session.current with dst }).setNext .setup

/-- The sender receives the hello, and looks up the name of where it came from. -/
theorem wp_openState_tx {d : List Byte} (hd : env.datagram = some d) (hname : env.getnameinfo)
    (hb : p.rxFactory.buffer = []) :
    wp (openState bo env .TX) Q E p ↔ Q () (opened bo env d p) := by
  have hfront : (receivedHello bo env d p).rxFactory.buffer.head? =
      some (helloBuffer bo env p d) := by
    simp [receivedHello, newConnection, hb]
  simp only [openState, wp_bind, wp_genSrcId, wp_modify, wp_newBuffer_rx, receiveState,
    Gateway.receive, hd, hname, if_true]
  refine (wp_rxPop hfront).trans ?_
  simp only [wp_bind, wp_process_open, wp_setConnection, wp_modify]
  rfl

/-- Without a hello, or without a name, it exits. -/
theorem wp_openState_tx_fail (h : env.datagram = none ∨ env.getnameinfo = false) :
    wp (openState bo env .TX) Q E p ↔ E .exit ((newConnection p).pushRx env.heap) := by
  simp only [openState, wp_bind, wp_genSrcId, wp_modify, wp_newBuffer_rx, receiveState,
    Gateway.receive]
  cases hd : env.datagram with
  | none => rfl
  | some d =>
    have hname : env.getnameinfo = false := h.resolve_left (by simp [hd])
    simp only [hname, Bool.false_eq_true, if_false]
    rfl

/-! ## Hi -/

/-- The capsule the sender answers with. -/
def hi (p : Process) : Capsule :=
  SessionProcessor.stamp
    (SessionProcessor.advertise env p.interfaces.addressList (p.newCapsule env))
    (p.session.capParams .CTRL) p.session.processor.capsuleId

/-- The process after `setupState` of the sender. -/
def sentHi (p : Process) : Process :=
  (p.sendControl env ((hi env p).wire bo)).setNext .connected

/-- The sender sends its addresses, or exits. -/
theorem wp_setupState_tx :
    wp (setupState bo env .TX) Q E p ↔
      if p.interfaces.NoAddress then E .fault (p.prepare env).select
      else if env.sendto then Q () (sentHi bo env p)
      else E .exit (p.prepare env).select := by
  simp only [setupState, wp_bind, wp_newBuffer_tx, wp_params,
    SessionProcessor.wp_setCapParams_setup, wp_sendState_tx, Gateway.wp_send, txPop, wp_modify]
  rfl

/-- The process after `setupState` of the receiver. -/
def setUp (d : List Byte) (p : Process) : Process :=
  let buf := Gateway.pulled bo env p d
  let p' := SessionProcessor.receiveAddresses env buf (received bo env p d).popRx
  (p'.putConnection { p'.session.current with dst := buf.data.header.srcid }).setNext .connected

/-- The receiver receives them. -/
theorem wp_setupState_rx {d : List Byte} (hd : env.datagram = some d)
    (hb : p.rxFactory.buffer = []) :
    wp (setupState bo env .RX) Q E p ↔ Q () (setUp bo env d p) := by
  have hfront : (received bo env p d).rxFactory.buffer.head? =
      some (Gateway.pulled bo env p d) := by simp [hb]
  simp only [setupState, wp_bind, wp_receiveState bo env .setup (by decide) hd,
    wp_rxPop hfront, wp_process_setup, wp_setConnection, wp_modify]
  rfl

/-- Without a datagram, it exits. -/
theorem wp_setupState_rx_none (hd : env.datagram = none) :
    wp (setupState bo env .RX) Q E p ↔ E .exit (p.pushRx env.heap) := by
  simp only [setupState, wp_bind, wp_receiveState_none bo env .setup (by decide) hd]

/-! ## Ack -/

/-- The process with an id for the connection. -/
def newId (p : Process) : Process :=
  (p.nextConnid.putConnection { p.session.current with id := p.statics.prevConnid + 1 }).setWinSize
    (BitVec.ofNat 16 WIN_SIZ)

/-- The capsule the receiver ends the handshake with. -/
def ack (p : Process) : Capsule :=
  let cap := p.newCapsule env
  SessionProcessor.stamp
    (SessionProcessor.advertise env p.interfaces.addressList
      { cap with header.capWinSiz := BitVec.ofNat 4 WIN_SIZ })
    ((newId p).session.capParams .CTRL) p.session.processor.capsuleId

/-- The process after `connectedState` of the receiver. -/
def sentAck (p : Process) : Process :=
  ((newId p).sendControl env ((ack env p).wire bo)).setNext .closed

/-- The receiver sends its addresses, and does not look at whether they were sent. -/
theorem wp_connectedState_rx :
    wp (connectedState bo env .RX) Q E p ↔
      if p.interfaces.NoAddress then E .fault ((newId p).prepare env).select
      else Q () (sentAck bo env p) := by
  simp only [connectedState, wp_bind, wp_genConnId, wp_setConnection, wp_newBuffer_tx, wp_params,
    SessionProcessor.wp_setCapParams_connected, wp_sendState_rx, Gateway.wp_chunkWrite, txPop,
    wp_modify]
  rfl

/-- The process after `connectedState` of the sender. -/
def connected (d : List Byte) (p : Process) : Process :=
  let buf := Gateway.pulled bo env p d
  let p' := (received bo env p d).popRx.setWinSize (buf.data.header.capWinSiz.setWidth 16)
  let p' := SessionProcessor.receiveAddresses env buf p'
  (p'.putConnection { p'.session.current with id := buf.data.header.connid }).setNext .closed

/-- The sender receives them. -/
theorem wp_connectedState_tx {d : List Byte} (hd : env.datagram = some d)
    (hb : p.rxFactory.buffer = []) :
    wp (connectedState bo env .TX) Q E p ↔ Q () (connected bo env d p) := by
  have hfront : (received bo env p d).rxFactory.buffer.head? =
      some (Gateway.pulled bo env p d) := by simp [hb]
  simp only [connectedState, wp_bind, wp_receiveState bo env .connected (by decide) hd,
    wp_rxPop hfront, wp_process_connected, wp_setConnection, wp_modify]
  rfl

/-- Without a datagram, it exits. -/
theorem wp_connectedState_tx_none (hd : env.datagram = none) :
    wp (connectedState bo env .TX) Q E p ↔ E .exit (p.pushRx env.heap) := by
  simp only [connectedState, wp_bind,
    wp_receiveState_none bo env .connected (by decide) hd]

end Session

end Udm
