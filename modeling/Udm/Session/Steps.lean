import Udm.Session

/-!
# What the state functions do

The weakest preconditions of the parts the state functions are made of: the
connection table, the capsule parameters, the queues, sending and receiving. A
state function is then executed symbolically by rewriting with them.

Each lemma says what the part does to the process, as one update by name (`putConnection`,
`nextCapsule`, `popRx`, …) and what it returns. So what a state function does comes out as a chain
of such updates, and no proof after this one unfolds a function of the source again. What fails has
a lemma of its own (`wp_constructChunk_nil`, `wp_receiveState_none`), with the error it stops with.
-/

namespace Udm

variable (bo : ByteOrder) (env : Env) {Q : Unit → Process → Prop} {E : Halt → Process → Prop}
  {p : Process}

/-! ## Connections -/

/-- `connections[connection_count]`, or the entry created if it is missing. -/
def Session.current (s : Session) : Connection := (s.connections.get s.connection_count).getD {}

/-- The `params` of a capsule sent by the session. -/
def Session.capParams (s : Session) (type : CapsuleType) : Params :=
  { srcid := s.current.src, destid := s.current.dst, connid := s.current.id, capType := type.code }

namespace Session

/-- Looking up the entry also creates it, as `operator[]` does. -/
theorem wp_connection {Q : Connection → Process → Prop} :
    wp connection Q E p ↔ Q p.session.current (p.putConnection p.session.current) := by
  simp only [connection, wp_bind, wp_get]
  cases h : p.session.connections.get p.session.connection_count with
  | none => simp [current, h]
  | some c =>
    have hc : p.session.connections.insert p.session.connection_count c = p.session.connections :=
      OrdMap.insert_of_mem (OrdMap.get_eq_some.1 h)
    simp [current, Process.putConnection, h, hc]

/-- Changing the entry. -/
theorem wp_setConnection (f : Connection → Connection) :
    wp (setConnection f) Q E p ↔ Q () (p.putConnection (f p.session.current)) := by
  simp [setConnection, wp_connection, Process.putConnection, OrdMap.insert_insert]

/-- The parameters are taken from the entry. -/
theorem wp_params {Q : Params → Process → Prop} (type : CapsuleType) :
    wp (params type) Q E p ↔
      Q (p.session.capParams type) (p.putConnection p.session.current) := by
  simp [params, wp_connection, capParams]

/-- A new id for the source, one more than the one before. -/
theorem wp_genSrcId {Q : BitVec 8 → Process → Prop} :
    wp genSrcId Q E p ↔ Q (p.statics.prevSrcid + 1) p.nextSrcid := by simp [genSrcId]

/-- A new id for the connection, one more than the one before. -/
theorem wp_genConnId {Q : BitVec 16 → Process → Prop} :
    wp genConnId Q E p ↔ Q (p.statics.prevConnid + 1) p.nextConnid := by simp [genConnId]

/-! ## Queues and buffers -/

/-- The buffer that was received first. -/
theorem wp_rxPop {Q : MemBuff → Process → Prop} {b : MemBuff}
    (h : p.rxFactory.buffer.head? = some b) : wp rxPop Q E p ↔ Q b p.popRx := by
  simp [rxPop, DataFactory.tryPop, h]

/-- A buffer for sending, with an empty capsule. -/
theorem wp_newBuffer_tx {Q : MemBuff → Process → Prop} :
    wp (Compositor.newBuffer env .TX) Q E p ↔
      Q { (p.txFactory.makeChunkforRx env.heap p.statics.hdrid).1 with size := SIZEOF_CAPSULE }
        (p.pushTx env.heap) := by
  simp [Compositor.newBuffer]

/-- A buffer for receiving, with an empty capsule. -/
theorem wp_newBuffer_rx {Q : MemBuff → Process → Prop} :
    wp (Compositor.newBuffer env .RX) Q E p ↔
      Q { (p.rxFactory.makeChunkforRx env.heap p.statics.hdrid).1 with size := SIZEOF_CAPSULE }
        (p.pushRx env.heap) := by
  simp [Compositor.newBuffer]

/-- The buffer that was queued first. -/
theorem wp_constructChunk {Q : MemBuff → Process → Prop} {b : MemBuff}
    (h : p.txFactory.buffer.head? = some b) :
    wp Compositor.constructChunk Q E p ↔ Q b p.popTx := by
  simp [Compositor.constructChunk, DataFactory.fetchChunk, DataFactory.tryPop, h, Process.popTx,
    Process.setTx]

/-- Without a buffer, `fetchChunk` exits. -/
theorem wp_constructChunk_nil {Q : MemBuff → Process → Prop} (h : p.txFactory.buffer = []) :
    wp Compositor.constructChunk Q E p ↔ E .exit p := by
  simp [Compositor.constructChunk, DataFactory.fetchChunk, DataFactory.tryPop, h]

end Session

/-! ## Capsule parameters -/

namespace SessionProcessor

variable {Q : Capsule → Process → Prop} (cap : Capsule) (par : Params)

/-- The hello brings nothing. -/
theorem wp_setCapParams_open :
    wp (setCapParams env cap par .open) Q E p ↔
      Q (stamp cap par p.session.processor.capsuleId) p.nextCapsule := by simp [setCapParams]

/-- The sender advertises its addresses. -/
theorem wp_setCapParams_setup :
    wp (setCapParams env cap par .setup) Q E p ↔
      Q (stamp (advertise env p.interfaces.addressList cap) par p.session.processor.capsuleId)
        p.nextCapsule := by simp [setCapParams]

/-- The receiver advertises its addresses, and announces a window. -/
theorem wp_setCapParams_connected :
    wp (setCapParams env cap par .connected) Q E p ↔
      Q (stamp (advertise env p.interfaces.addressList
          { cap with header.capWinSiz := BitVec.ofNat 4 WIN_SIZ }) par
        p.session.processor.capsuleId)
        (p.setWinSize (BitVec.ofNat 16 WIN_SIZ)).nextCapsule := by
  simp only [setCapParams, wp_bind, wp_get, wp_modify, wp_pure]
  exact Iff.rfl

/-- A data capsule has its payload already. -/
theorem wp_setCapParams_closed :
    wp (setCapParams env cap par .closed) Q E p ↔
      Q (stamp cap par p.session.processor.capsuleId) p.nextCapsule := by simp [setCapParams]

/-- An acknowledgement announces a window. -/
theorem wp_setCapParams_done :
    wp (setCapParams env cap par .done) Q E p ↔
      Q (stamp { cap with header.capWinSiz := BitVec.ofNat 4 WIN_SIZ } par
        p.session.processor.capsuleId) p.nextCapsule := by simp [setCapParams]

end SessionProcessor

/-! ## Sending and receiving -/

namespace Session

/-- The receiver does not look at whether its capsules are sent. -/
theorem wp_sendState_rx (nextId : StateCodes) (cap : Capsule) :
    wp (sendState bo env nextId .RX cap) Q E p ↔ wp (Gateway.chunkWrite bo env cap) Q E p := by
  simp [sendState]

/-- The sender exits where its capsules are not sent. -/
theorem wp_sendState_tx (nextId : StateCodes) (cap : Capsule) :
    wp (sendState bo env nextId .TX cap) Q E p ↔ wp (Gateway.send bo env cap) Q E p := by
  simp [sendState]

/-- The process after `receiveState` has pulled `d`. -/
def received (p : Process) (d : List Byte) : Process :=
  let b := Gateway.pulled bo env p d
  if b.data.header.isPayld then (Gateway.afterPull bo env p d).keep b
  else Gateway.afterPull bo env p d

/-- A datagram is pulled, and kept in the window if it has a payload. -/
theorem wp_receiveState (nextId : StateCodes) (hn : nextId ≠ .open) {buf : Option MemBuff}
    {d : List Byte} (hd : env.datagram = some d) :
    wp (receiveState bo env nextId buf) Q E p ↔ Q () (received bo env p d) := by
  cases nextId with
  | «open» => exact absurd rfl hn
  | _ =>
    simp only [receiveState, wp_bind, Gateway.wp_pull _ _ hd, wp_ite, received]
    split <;> rfl

/-- Without a datagram, `receive` exits, after the buffer for it was made. -/
theorem wp_receiveState_none (nextId : StateCodes) (hn : nextId ≠ .open) {buf : Option MemBuff}
    (hd : env.datagram = none) :
    wp (receiveState bo env nextId buf) Q E p ↔ E .exit (p.pushRx env.heap) := by
  cases nextId with
  | «open» => exact absurd rfl hn
  | _ => simp only [receiveState, wp_bind, Gateway.wp_pull_none _ _ hd]

section received

variable (d : List Byte)

@[simp] theorem session_received : (received bo env p d).session = p.session := by
  rw [received]; split <;> rfl

@[simp] theorem interfaces_received : (received bo env p d).interfaces = p.interfaces := by
  rw [received]; split <;> rfl

@[simp] theorem txFactory_received : (received bo env p d).txFactory = p.txFactory := by
  rw [received]; split <;> rfl

@[simp] theorem rxFactory_received :
    (received bo env p d).rxFactory = (Gateway.afterPull bo env p d).rxFactory := by
  rw [received]; split <;> rfl

@[simp] theorem io_received :
    (received bo env p d).io = (Gateway.afterPull bo env p d).io := by
  rw [received]; split <;> rfl

end received

end Session

end Udm
