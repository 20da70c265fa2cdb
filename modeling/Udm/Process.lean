import Udm.Library.OrdMap
import Udm.DataFactory

/-!
# Processes

The state of a process running a session: the `Session` with its
`SessionProcessor` and connection table (`session.h`), the interfaces of its
`Gateway` (`gateway.h`), its two factories, the global `rxcurrentWindow`, and the
function statics, which outlive a session.

The state functions are programs (`Prog`) over this state. They take what the
operating system answers during one step as an argument (`Env`), and they may
stop the process (`Halt`), by `exit` or by an operation without defined
behaviour; what was done before is kept. What a step does outside the process,
and the memory accesses that depend on received data, are recorded in `StepIO`.
-/

namespace Udm

/-! ## Addresses -/

/-- `ADDR_LEN`. -/
abbrev ADDR_LEN : ℕ := 15

/-- `WIN_SIZ`. -/
abbrev WIN_SIZ : ℕ := 5

/-- `ipaddr_dummy`: the text of an address, in its `ADDR_LEN` bytes. -/
@[ext] structure IpaddrDummy where
  /-- The characters, a NUL if there is room for it, and what was in memory behind it. -/
  data : List Byte
  length_data : data.length = ADDR_LEN
  deriving DecidableEq

/-- The bytes of `"127.0.0.1"`, with the terminating NUL. -/
def loopbackText : List Byte := [49, 50, 55, 46, 48, 46, 48, 46, 49, 0]

/-- `strcmp(data, "127.0.0.1") == 0`: the comparison ends, at the latest, with
    the terminating NUL of the literal. -/
def IpaddrDummy.isLoopback (a : IpaddrDummy) : Bool := a.data.take 10 = loopbackText

/-- The address whose text is in memory at the offset `off`. -/
def IpaddrDummy.ofBlock (m : Block Byte) (off : ℕ) : IpaddrDummy :=
  ⟨m.load off ADDR_LEN, m.length_load off ADDR_LEN⟩

@[simp] theorem IpaddrDummy.data_ofBlock (m : Block Byte) (off : ℕ) :
    (ofBlock m off).data = m.load off ADDR_LEN := rfl

/-- `PhyInterfaces`: the addresses found when it was built, and those of the
    peer, once received (`NULL` before). The list of the peer is the array as
    allocated, of which the first `peer_addressCount` entries count. -/
structure PhyInterfaces where
  /-- The addresses of the host. -/
  addressList : List IpaddrDummy
  /-- The addresses of the peer. -/
  peer_addressList : Option (List IpaddrDummy) := none
  /-- How many entries of the list count. -/
  peer_addressCount : ℤ := 0

/-! ## Sessions -/

/-- `connection`. -/
structure Connection where
  /-- The id of the connection. -/
  id : BitVec 16 := 0
  /-- The id that this side has generated. -/
  src : BitVec 8 := 0
  /-- The id that the peer has generated. -/
  dst : BitVec 8 := 0
  /-- It stays 0. -/
  status : BitVec 8 := 0
  deriving DecidableEq

/-- `SessionProcessor`. -/
structure SessionProcessor where
  /-- The number of the next capsule. -/
  capsuleId : ℤ := 0
  /-- How many capsules are left of the window. -/
  winSize : BitVec 16 := 0

/-- `Session`. -/
structure Session where
  /-- Whether the session sends or receives. -/
  dir : StateDirection
  /-- The state whose function `start` calls next. -/
  next : StateCodes := .open
  /-- A window was acknowledged: `start` returns from the state `connected`. -/
  complete : Bool := false
  done : Bool := false
  /-- The table of connections, by the count at which they were made. -/
  connections : OrdMap ℤ Connection := ∅
  /-- The key of the entry in use. -/
  connection_count : ℤ := 0
  processor : SessionProcessor := {}

/-- The function statics: of `genSrcId`, `genConnId`, `prepareMemBuff` and
    `selectAddrFromList`. -/
structure Statics where
  /-- The last source id that `genSrcId` returned. -/
  prevSrcid : BitVec 8 := 0
  /-- The last connection id that `genConnId` returned. -/
  prevConnid : BitVec 16 := 0
  /-- The capsule id of the next buffer of `prepareMemBuff`. -/
  hdrid : BitVec 32 := 0
  /-- The counter of `selectAddrFromList`, which goes round the addresses. -/
  i : ℤ := 0

/-! ## Input and output of a step -/

/-- What the operating system answers during a step. -/
structure Env where
  /-- What `recvfrom` receives, unless it fails. -/
  datagram : Option (List Byte)
  /-- Whether `getnameinfo` succeeds on the sender's address. -/
  getnameinfo : Bool
  /-- The contents of the memory returned by `malloc` for a body. -/
  heap : Block Byte
  /-- The entry lying after the array allocated for the peer addresses. -/
  past : IpaddrDummy
  /-- Whether `sendto` succeeds. -/
  sendto : Bool
  /-- What becomes of the successive stream writes. -/
  write : ℕ → WriteOutcome
  /-- What the successive calls of `getInfCount` return. -/
  infCount : List ℕ

/-- The system calls of a step succeed. -/
structure Env.Succeeds (env : Env) : Prop where
  /-- The name of the peer is looked up. -/
  getnameinfo : env.getnameinfo = true
  /-- A datagram is sent. -/
  sendto : env.sendto = true
  /-- Every write stores what it is given. -/
  write : ∀ i, env.write i = .written

/-- The environment of a step in which the system calls succeed and memory is
    zeroed, with the given datagram and answers of `getInfCount`. -/
def Env.plain (datagram : Option (List Byte)) (infCount : List ℕ) : Env where
  datagram
  getnameinfo := true
  heap := fun _ => 0
  past := .ofBlock (fun _ => 0) 0
  sendto := true
  write := fun _ => .written
  infCount

theorem Env.succeeds_plain (datagram : Option (List Byte)) (infCount : List ℕ) :
    (plain datagram infCount).Succeeds := ⟨rfl, rfl, fun _ => rfl⟩

/-- Where `selectAddrFromList` sends: to `peer_addr`, or to the entry of the
    peer list at an index. -/
inductive Dest
  | peer_addr
  | address (index : ℤ)
  deriving DecidableEq

/-- A memory access whose place depends on received data. No length is checked before these
    accesses, so that they are recorded whether they stay in their memory or not. -/
inductive Access
  /-- The header is decoded from a datagram of `nread` bytes. -/
  | header (nread : ℤ)
  /-- `len` bytes at the offset `off` of a body are read, after the header of a
      datagram of `nread` bytes. -/
  | body (nread : ℤ) (off len : ℕ)
  /-- The entry `i` of a list of `noOfAddresses` peer addresses is read. -/
  | peer (noOfAddresses i : ℕ)
  /-- `len` bytes of a body are handed to the sink, after the header of a
      datagram of `nread` bytes. -/
  | sink (nread len : ℤ)
  deriving DecidableEq

/-- A `write2Souce` of the buffer `buf`, with the factory before and after. -/
structure SinkWrite where
  /-- The buffer that is written. -/
  buf : MemBuff
  /-- What became of the write. -/
  outcome : WriteOutcome
  before : DataFactory
  after : DataFactory

/-- The write was accepted by the stream: all bytes were appended. -/
def SinkWrite.Accepted (w : SinkWrite) : Prop :=
  w.before.sourceData.fs.accepts w.outcome (DataFactory.writeLength w.buf.size)

instance (w : SinkWrite) : Decidable w.Accepted := inferInstanceAs (Decidable (_ = true))

/-- What a step did outside the process. -/
structure StepIO where
  /-- The datagrams that were sent, and where to. -/
  sent : List (Dest × List Byte) := []
  /-- The memory that was read because of what was received. -/
  accesses : List Access := []
  /-- The writes to the sink. -/
  writes : List SinkWrite := []

/-! ## Processes -/

/-- The state of a process. -/
structure Process where
  session : Session
  interfaces : PhyInterfaces
  /-- The factory the session sends from. -/
  txFactory : DataFactory
  /-- The factory the session receives into. -/
  rxFactory : DataFactory
  /-- The global map from the capsule ids of the window to the buffers. -/
  rxcurrentWindow : OrdMap (BitVec 16) MemBuff := ∅
  statics : Statics := {}
  /-- The record of the last step. -/
  io : StepIO := {}

/-- How a process stops before its session is over. -/
inductive Halt
  /-- `exit`. -/
  | exit
  /-- An operation without defined behaviour that leaves nothing to go on with: a division by
      zero, a pointer to nothing, or a write past a block. A read past a block or a list is no
      such operation here: it finds what happens to be there, and is recorded as an access. -/
  | fault
  deriving DecidableEq

/-- A program over the state of a process. -/
abbrev Prog := EStateM Halt Process

namespace Process

/-- The datagrams sent in the last step. -/
def out (p : Process) : List (List Byte) := p.io.sent.map Prod.snd

/-- The bytes of the sink. -/
def sink (p : Process) : List Byte := p.rxFactory.sourceData.fs.content

/-- The loop of `Session::start` is over. -/
def returned (p : Process) : Bool := decide (p.session.next = .connected) && p.session.complete

/-- The process waits for a datagram in its next step. -/
def awaits (p : Process) : Bool :=
  match p.session.dir, p.session.next with
  | .TX, .open | .TX, .connected | .TX, .done | .RX, .setup => true
  | .RX, .closed => decide (p.session.processor.winSize ≠ 0)
  | _, .recv => true
  | _, _ => false

/-- A new session of a process with the given statics and interfaces, sending
    `source` and receiving into `sink` (`io_context::run`). -/
def init (dir : StateDirection) (statics : Statics) (addressList : List IpaddrDummy)
    (source sink : DataSource) : Process where
  session := { dir }
  interfaces := { addressList }
  txFactory := { sourceData := source }
  rxFactory := { sourceData := sink }
  statics := statics

/-! ### Updates -/

/-- An assignment to `next`. -/
@[simps] def setNext (newnext : StateCodes) (p : Process) : Process :=
  { p with session.next := newnext }

/-- An assignment to `processor->winSize`. -/
@[simps] def setWinSize (winSize : BitVec 16) (p : Process) : Process :=
  { p with session.processor.winSize := winSize }

/-- `capsuleId++`. -/
@[simps] def nextCapsule (p : Process) : Process :=
  { p with session.processor.capsuleId := int32 (p.session.processor.capsuleId + 1) }

/-- Setting both completion flags. -/
@[simps] def finish (p : Process) : Process :=
  { p with session.done := true, session.complete := true }

/-- `connections[connection_count] = c`. -/
@[simps] def putConnection (c : Connection) (p : Process) : Process :=
  { p with session.connections := p.session.connections.insert p.session.connection_count c }

/-- `connections[connection_count++] = c`. -/
@[simps] def addConnection (c : Connection) (p : Process) : Process :=
  { p with
    session.connections := p.session.connections.insert p.session.connection_count c
    session.connection_count := p.session.connection_count + 1 }

/-- `++prevSrcid`. -/
@[simps] def nextSrcid (p : Process) : Process :=
  { p with statics.prevSrcid := p.statics.prevSrcid + 1 }

/-- `++prevConnid`. -/
@[simps] def nextConnid (p : Process) : Process :=
  { p with statics.prevConnid := p.statics.prevConnid + 1 }

/-- `makeChunkforRx`, on the sending factory. -/
@[simps] def pushTx (heap : Block Byte) (p : Process) : Process :=
  { p with
    txFactory := (p.txFactory.makeChunkforRx heap p.statics.hdrid).2
    statics.hdrid := p.statics.hdrid + 1 }

/-- `makeChunkforRx`, on the receiving factory. -/
@[simps] def pushRx (heap : Block Byte) (p : Process) : Process :=
  { p with
    rxFactory := (p.rxFactory.makeChunkforRx heap p.statics.hdrid).2
    statics.hdrid := p.statics.hdrid + 1 }

/-- Replacing the sending factory. -/
@[simps] def setTx (txFactory : DataFactory) (p : Process) : Process := { p with txFactory }

/-- Replacing the receiving factory. -/
@[simps] def setRx (rxFactory : DataFactory) (p : Process) : Process := { p with rxFactory }

/-- Popping the sending queue. -/
@[simps] def popTx (p : Process) : Process :=
  { p with txFactory := p.txFactory.tryPop.2 }

/-- Popping the receiving queue. -/
@[simps] def popRx (p : Process) : Process :=
  { p with rxFactory := p.rxFactory.tryPop.2 }

/-- `rxcurrentWindow[buf->data->header.capid] = buf`. -/
@[simps] def keep (buf : MemBuff) (p : Process) : Process :=
  { p with rxcurrentWindow := p.rxcurrentWindow.insert buf.data.header.capid buf }

/-- Releasing the window: as many pops as it has entries, and `clear`. -/
@[simps] def release (p : Process) : Process :=
  { p with
    rxFactory.buffer := p.rxFactory.buffer.drop p.rxcurrentWindow.size
    rxcurrentWindow := ∅ }

/-- Recording memory accesses. -/
@[simps] def access (accesses : List Access) (p : Process) : Process :=
  { p with io.accesses := p.io.accesses ++ accesses }

/-- Recording a datagram that was sent. -/
@[simps] def emit (s : Dest) (d : List Byte) (p : Process) : Process :=
  { p with io.sent := p.io.sent ++ [(s, d)] }

/-- Starting a new record. -/
@[simps] def clear (p : Process) : Process := { p with io := {} }

end Process

end Udm
