import Udm.Presentation

/-!
# Sessions

The state machine of a session (`session.h`). `Session::start` runs the state
function of the state `next` until the session is back in the state `connected`
after having completed a window:

* `openState`, `setupState`, `connectedState`: the handshake. The receiver (RX)
  opens with a first capsule, the sender (TX) answers with its addresses, and
  the receiver with its own addresses, a connection id and its window size;
* `closedState`: the sender sends, and the receiver receives, a window of
  capsules, one by one (`submitTask`);
* `doneState`: the receiver writes the window to the sink and acknowledges it,
  the sender waits for the acknowledgement; then comes the next window, or the
  end.

A step (`step`) is one state function, except for `closedState`, of which it is
one test of the loop, with the `submitTask` it leads to: a step does at most one
`sendto` or `recvfrom`. The worker pool, to which no session submits a task, is
left out.
-/

namespace Udm

/-! ## The session processor -/

namespace SessionProcessor

variable (env : Env)

/-- The loop copying the addresses into the body, from the interface `i` on,
    against the successive answers `counts` of `getInfCount`. -/
def copyAddresses (interfaces : List IpaddrDummy) (past : IpaddrDummy) :
    ℕ → List ℕ → Block Byte → Block Byte
  | _, [], body => body
  | i, count :: counts, body =>
    if i < count then
      copyAddresses interfaces past (i + 1) counts
        (body.store (HEADER_SPACE + i * ADDR_LEN) (interfaces.getD i past).data)
    else body

/-- The common part of `setCapParams` in the states `setup` and `connected`:
    copying the addresses and setting `capSize`. -/
def advertise (interfaces : List IpaddrDummy) (cap : Capsule) : Capsule :=
  let addrlistLen : ℤ := ADDR_LEN * env.infCount.headD 0
  { header := { cap.header with capSize := BitVec.ofInt 16 addrlistLen }
    body := copyAddresses interfaces env.past 0 env.infCount.tail cap.body }

/-- The header fields set for all kinds of capsules; the flags are not among
    them. -/
def stamp (cap : Capsule) (par : Params) (capsuleId : ℤ) : Capsule :=
  { cap with header := { cap.header with
    srcid := par.srcid
    destid := par.destid
    connid := par.connid
    capid := BitVec.ofInt 16 capsuleId
    capPriority := 0
    capType := par.capType } }

/-- `setCapParams`. -/
def setCapParams (cap : Capsule) (par : Params) (code : StateCodes) : Prog Capsule := do
  let p ← get
  let interfaces := p.interfaces.addressList
  let cap ← match code with
    | .setup => pure (advertise env interfaces cap)
    | .connected =>
      let cap := { cap with header.capWinSiz := BitVec.ofNat 4 WIN_SIZ }
      modify (Process.setWinSize (cap.header.capWinSiz.setWidth 16))
      pure (advertise env interfaces cap)
    | .done => pure { cap with header.capWinSiz := BitVec.ofNat 4 WIN_SIZ }
    | _ => pure cap
  let capsuleId := (← get).session.processor.capsuleId
  modify Process.nextCapsule
  return stamp cap par capsuleId

/-- The state of the loop removing the loopback addresses, and the indices of the
    entries it has read. -/
structure Scan where
  list : List IpaddrDummy
  count : ℤ
  localhost_found : Bool := false
  reads : List ℕ := []

/-- An iteration of the loop removing the loopback addresses. -/
def Scan.iter (noOfAddresses : ℕ) (past : IpaddrDummy) (s : Scan) (i : ℕ) : Scan :=
  let s := { s with reads := s.reads ++ [i] }
  let s := if (s.list.getD i past).isLoopback
    then { s with localhost_found := true, count := s.count - 1 } else s
  if s.localhost_found ∧ i < noOfAddresses then
    { s with list := s.list.set i (s.list.getD (i + 1) past), reads := s.reads ++ [i + 1] }
  else s

/-- The loop removing the loopback addresses. -/
def removeLoopback (noOfAddresses : ℕ) (past : IpaddrDummy) (list : List IpaddrDummy) : Scan :=
  (List.range noOfAddresses).foldl (Scan.iter noOfAddresses past)
    { list, count := noOfAddresses }

/-- The addresses a body consists of. -/
def addresses (noOfAddresses : ℕ) (body : Block Byte) : List IpaddrDummy :=
  (List.range noOfAddresses).map fun i => .ofBlock body (i * ADDR_LEN)

/-- The peer list made of the body of a buffer, and the accesses this takes. -/
def peerScan (buf : MemBuff) : Scan :=
  let noOfAddresses := buf.data.header.capSize.toNat / ADDR_LEN
  removeLoopback noOfAddresses env.past (addresses noOfAddresses buf.data.body)

/-- The common part of `process` in the states `setup` and `connected`: the list
    of the peer addresses. -/
@[simps] def receiveAddresses (buf : MemBuff) (p : Process) : Process :=
  let noOfAddresses := buf.data.header.capSize.toNat / ADDR_LEN
  { p with
    interfaces.peer_addressList := some (peerScan env buf).list
    interfaces.peer_addressCount := (peerScan env buf).count
    io.accesses := p.io.accesses ++
      (List.range noOfAddresses).map (fun i => .body buf.size (i * ADDR_LEN) ADDR_LEN) ++
      (peerScan env buf).reads.map (.peer noOfAddresses) }

/-- `process`. As `CTRL` is zero, its test on the type of the capsule always
    passes. -/
def process (buf : MemBuff) (code : StateCodes) : Prog Unit := do
  if buf.data.header.capType &&& CapsuleType.CTRL.code = 0 then
    match code with
    | .setup => modify (receiveAddresses env buf)
    | .connected =>
      modify (Process.setWinSize (buf.data.header.capWinSiz.setWidth 16))
      modify (receiveAddresses env buf)
    | .closed =>
      if buf.data.header.isPayld then modify (Process.keep buf)
      if buf.data.header.isFin then modify fun p => p.setRx { p.rxFactory with fin := true }
    | _ => pure ()

end SessionProcessor

namespace Session

variable (bo : ByteOrder) (env : Env)

/-! ## Connections and queues -/

/-- `genSrcId`. -/
def genSrcId : Prog (BitVec 8) := do
  modify Process.nextSrcid
  return (← get).statics.prevSrcid

/-- `genConnId`. -/
def genConnId : Prog (BitVec 16) := do
  modify Process.nextConnid
  return (← get).statics.prevConnid

/-- `connections[connection_count]`: a missing entry is created. -/
def connection : Prog Connection := do
  let p ← get
  match p.session.connections.get p.session.connection_count with
  | some c => return c
  | none =>
    modify (Process.putConnection {})
    return {}

/-- An assignment to a field of `connections[connection_count]`. -/
def setConnection (f : Connection → Connection) : Prog Unit := do
  let c ← connection
  modify (Process.putConnection (f c))

/-- The `params` the state functions fill in: the ids of
    `connections[connection_count]` and a type. -/
def params (type : CapsuleType) : Prog Params := do
  let c ← connection
  return { srcid := c.src, destid := c.dst, connid := c.id, capType := type.code }

/-- `rxFactory->buffer.try_pop()`, of an element that is used: there must be one. -/
def rxPop : Prog MemBuff := do
  let front := (← get).rxFactory.tryPop.1
  modify Process.popRx
  match front with
  | some buf => return buf
  | none => throw .fault

/-- `txFactory->buffer.try_pop()`. -/
def txPop : Prog Unit := modify Process.popTx

/-! ## The state functions -/

/-- `sendState`. -/
def sendState (nextId : StateCodes) (dir : StateDirection) (currentBuffer : Capsule) : Prog Unit :=
  if nextId = .open ∧ dir = .RX then Gateway.chunkWrite bo env currentBuffer
  else if dir = .RX then Gateway.chunkWrite bo env currentBuffer
  else Gateway.send bo env currentBuffer

/-- `receiveState`. The buffer `currentBuffer` is only used in the state `open`. -/
def receiveState (nextId : StateCodes) (currentBuffer : Option MemBuff) : Prog Unit := do
  match nextId, currentBuffer with
  | .open, some currentBuffer => Gateway.receive bo env currentBuffer
  | .open, none => throw .fault
  | _, _ =>
    let res ← Gateway.pull bo env
    if res.data.header.isPayld then modify (Process.keep res)

/-- `openState`. -/
def openState (dir : StateDirection) : Prog Unit := do
  match dir with
  | .TX =>
    let src ← genSrcId
    modify (Process.addConnection { src })
    let currentBuffer ← Compositor.newBuffer env .RX
    receiveState bo env .open (some currentBuffer)
    let currentBuffer ← rxPop
    SessionProcessor.process env currentBuffer .open
    setConnection fun c => { c with dst := currentBuffer.data.header.srcid }
  | .RX =>
    let currentBuffer ← Compositor.newBuffer env .TX
    let src ← genSrcId
    modify (Process.addConnection { src })
    let p ← params .PAYLD
    let cap ← SessionProcessor.setCapParams env currentBuffer.data p .open
    sendState bo env .open dir cap
    txPop
  modify (Process.setNext .setup)

/-- `setupState`. -/
def setupState (dir : StateDirection) : Prog Unit := do
  match dir with
  | .TX =>
    let currentBuffer ← Compositor.newBuffer env .TX
    let p ← params .CTRL
    let cap ← SessionProcessor.setCapParams env currentBuffer.data p .setup
    sendState bo env .setup dir cap
    txPop
  | .RX =>
    receiveState bo env .setup none
    let currentBuffer ← rxPop
    SessionProcessor.process env currentBuffer .setup
    setConnection fun c => { c with dst := currentBuffer.data.header.srcid }
  modify (Process.setNext .connected)

/-- `connectedState`. -/
def connectedState (dir : StateDirection) : Prog Unit := do
  match dir with
  | .TX =>
    receiveState bo env .connected none
    let currentBuffer ← rxPop
    SessionProcessor.process env currentBuffer .connected
    setConnection fun c => { c with id := currentBuffer.data.header.connid }
  | .RX =>
    let id ← genConnId
    setConnection fun c => { c with id }
    let currentBuffer ← Compositor.newBuffer env .TX
    let p ← params .CTRL
    let cap ← SessionProcessor.setCapParams env currentBuffer.data p .connected
    sendState bo env .connected dir cap
    txPop
  modify (Process.setNext .closed)

/-- `submitTask`. -/
def submitTask (dir : StateDirection) : Prog Unit := do
  match dir with
  | .TX =>
    modify fun p => p.setTx (p.txFactory.updateDataSource env.heap)
    let currentBuff ← Compositor.constructChunk
    let p ← get
    let last := p.txFactory.fin && p.txFactory.buffer.isEmpty
    let cap : Capsule := if last
      then { currentBuff.data with header.capFlags := Flags.FIN.code } else currentBuff.data
    if last then modify (Process.setWinSize 0)
    let par ← params .PAYLD
    let cap := PresentationProcessor.setCapParams bo cap par .closed
    let cap ← SessionProcessor.setCapParams env cap par .closed
    sendState bo env .closed dir cap
  | .RX =>
    receiveState bo env .closed none
    match (← get).rxcurrentWindow.last with
    | none => pure ()
    | some (_, currentBuff) =>
      let currentBuff ← deref currentBuff
      SessionProcessor.process env currentBuff .closed
      if (← get).rxFactory.fin then modify (Process.setWinSize 0)
      -- The flag is not copied further: the buffer of `start` has no capsule.

/-- One test of the loop of `closedState`. -/
def closedState (dir : StateDirection) : Prog Unit := do
  if (← get).session.processor.winSize ≠ 0 then
    submitTask bo env dir
    let winSize := (← get).session.processor.winSize
    if winSize ≠ 0 then modify (Process.setWinSize (winSize - 1))
  else modify (Process.setNext .done)

/-- `doneState`. -/
def doneState (dir : StateDirection) : Prog Unit := do
  match dir with
  | .TX =>
    receiveState bo env .done none
    let currentBuffer ← rxPop
    SessionProcessor.process env currentBuffer .done
    if (← get).txFactory.fin then modify (Process.setNext .connected)
    else
      modify (Process.setWinSize (BitVec.ofNat 16 WIN_SIZ))
      modify (Process.setNext .closed)
  | .RX =>
    let bufferempty := (← get).rxFactory.fin
    PresentationProcessor.process env .done
    let currentBuffer ← Compositor.newBuffer env .TX
    modify Process.release
    let par ← params .CTRL
    let par := if bufferempty then { par with capFlags := Flags.FIN.code } else par
    let cap ← SessionProcessor.setCapParams env currentBuffer.data par .done
    sendState bo env .done dir cap
    if (← get).rxFactory.fin then modify (Process.setNext .connected)
    else
      modify (Process.setWinSize (BitVec.ofNat 16 WIN_SIZ))
      modify (Process.setNext .closed)
  modify Process.finish

/-- The table of the state functions. The states `inq`, `send` and `recv` are in
    it too: `inqState` does nothing, and `sendState` is given a buffer without
    capsule. -/
def states (next : StateCodes) (dir : StateDirection) : Prog Unit :=
  match next with
  | .open => openState bo env dir
  | .setup => setupState bo env dir
  | .connected => connectedState bo env dir
  | .closed => closedState bo env dir
  | .done => doneState bo env dir
  | .inq => pure ()
  | .send => throw .fault
  | .recv => receiveState bo env .recv none

/-- A step of the loop of `Session::start`. -/
def step : Prog Unit := do
  modify Process.clear
  let p ← get
  states bo env p.session.next p.session.dir

end Session

end Udm
