import Udm.Library.Wp
import Udm.Process

/-!
# The gateway

Sending and receiving capsules (`gateway.h`). Both ways of sending, `chunkWrite`
and `send`, copy the header to the start of the body and send the first
`capSize + HEADER_SPACE` bytes of the body to an address picked by
`selectAddrFromList`; they differ in what they do when `sendto` fails. Receiving
decodes the header from the start of the body and advances the body pointer past
it (`stripHeader`): from a new buffer of the receiving factory (`pull`), or into
a given one (`receive`).
-/

namespace Udm

/-- `GatewayProcessor::stripHeader`. -/
def Capsule.stripHeader (bo : ByteOrder) (cap : Capsule) : Capsule :=
  { header := .decode bo (cap.body.load 0 HEADER_SPACE), body := cap.body.shift HEADER_SPACE }

/-- `memcpy(cap->body, &cap->header, HEADER_SPACE)`. -/
def Capsule.copyHeader (bo : ByteOrder) (cap : Capsule) : Capsule :=
  { cap with body := cap.body.store 0 (cap.header.encode bo) }

namespace Gateway

variable (bo : ByteOrder) (env : Env)

/-- `selectAddrFromList`. -/
def selectAddrFromList : Prog Dest := do
  let p ← get
  match p.interfaces.peer_addressList with
  | some _ =>
    let i := int32 (p.statics.i + 1)
    modify fun p => { p with statics.i := i }
    if p.interfaces.peer_addressCount = 0 then throw .fault
    else return .address (i.tmod p.interfaces.peer_addressCount)
  | none => return .peer_addr

/-- `sendto`, of the first `amt2Send` bytes of a body: whether it succeeds. -/
def sendto (s : Dest) (body : Block Byte) (amt2Send : ℕ) : Prog Bool := do
  if env.sendto then modify (Process.emit s (body.load 0 amt2Send))
  return env.sendto

/-- `chunkWrite`. A failed `sendto` is only reported. -/
def chunkWrite (chunk2Write : Capsule) : Prog Unit := do
  let chunk2Write := chunk2Write.copyHeader bo
  let s ← selectAddrFromList
  let amt2Send := chunk2Write.header.capSize.toNat + HEADER_SPACE
  let _ ← sendto env s chunk2Write.body amt2Send

/-- `send`. A failed `sendto` exits. -/
def send (chunk2Send : Capsule) : Prog Unit := do
  let amt2Send := chunk2Send.header.capSize.toNat + HEADER_SPACE
  let s ← selectAddrFromList
  let chunk2Send := chunk2Send.copyHeader bo
  let sent ← sendto env s chunk2Send.body amt2Send
  if !sent then throw .exit

/-- The buffer `b` after a `recvfrom` of at most `len` bytes received `d`, and
    `stripHeader`. A longer datagram is cut. -/
def recvInto (b : MemBuff) (len : ℕ) (d : List Byte) : MemBuff :=
  { b with
    size := (d.take len).length
    data := { b.data with body := b.data.body.store 0 (d.take len) }.stripHeader bo }

/-- `pull`. -/
def pull : Prog MemBuff := do
  let p ← get
  let emptyChunk := (p.rxFactory.makeChunkforRx env.heap p.statics.hdrid).1
  modify (Process.pushRx env.heap)
  match env.datagram with
  | none => throw .exit
  | some d =>
    let b := recvInto bo emptyChunk p.rxFactory.chunkSize d
    modify fun p => p.setRx (p.rxFactory.fill b)
    modify (Process.access [.header b.size])
    return b

/-- `receive`, into the buffer pushed last (by `newBuffer`). -/
def receive (chunk2recv : MemBuff) : Prog Unit := do
  match env.datagram with
  | none => throw .exit
  | some d =>
    if env.getnameinfo then
      let b := recvInto bo chunk2recv chunk2recv.size.toNat d
      modify fun p => p.setRx (p.rxFactory.fill b)
    else throw .exit

end Gateway

/-! ## What is sent -/

/-- The datagram of a capsule: its header, then `capSize` bytes of the body past
    the place of the header. -/
def Capsule.wire (bo : ByteOrder) (cap : Capsule) : List Byte :=
  cap.header.encode bo ++ cap.body.load HEADER_SPACE cap.header.capSize.toNat

@[simp] theorem Capsule.length_wire (bo : ByteOrder) (cap : Capsule) :
    (cap.wire bo).length = HEADER_SPACE + cap.header.capSize.toNat := by simp [wire]

/-- Copying the header leaves the rest of the body. -/
theorem Capsule.load_copyHeader (bo : ByteOrder) (cap : Capsule) (n : ℕ) :
    (cap.copyHeader bo).body.load HEADER_SPACE n = cap.body.load HEADER_SPACE n := by
  rw [copyHeader, Block.load_store_of_disjoint]
  simp

/-- The bytes both ways of sending hand to `sendto`. -/
theorem Capsule.load_wire (bo : ByteOrder) (cap : Capsule) :
    (cap.copyHeader bo).body.load 0 (cap.header.capSize.toNat + HEADER_SPACE) = cap.wire bo := by
  have hheader : (cap.copyHeader bo).body.load 0 HEADER_SPACE = cap.header.encode bo := by
    rw [copyHeader, Block.load_store_of_length]
    simp
  rw [Nat.add_comm, Block.load_add, Nat.zero_add, hheader, cap.load_copyHeader bo, wire]

namespace PhyInterfaces

variable (inf : PhyInterfaces)

/-- The peer list has been received, and no address is left in it: the next
    `selectAddrFromList` divides by zero. -/
def NoAddress : Prop := inf.peer_addressList ≠ none ∧ inf.peer_addressCount = 0

instance : Decidable inf.NoAddress :=
  decidable_of_iff (inf.peer_addressList.isSome ∧ inf.peer_addressCount = 0)
    (by rw [NoAddress, Option.isSome_iff_ne_none])

/-- The static `i` after `selectAddrFromList`. -/
def nextIndex (i : ℤ) : ℤ :=
  match inf.peer_addressList with
  | some _ => int32 (i + 1)
  | none => i

/-- The address `selectAddrFromList` picks. -/
def dest (i : ℤ) : Dest :=
  match inf.peer_addressList with
  | some _ => .address ((int32 (i + 1)).tmod inf.peer_addressCount)
  | none => .peer_addr

end PhyInterfaces

/-- The process after `selectAddrFromList`. -/
@[simps] def Process.select (p : Process) : Process :=
  { p with statics.i := p.interfaces.nextIndex p.statics.i }

/-- The process after a `sendto` of the datagram `d` that did not stop it. -/
@[simps] def Process.send (env : Env) (d : List Byte) (p : Process) : Process :=
  { p with
    statics.i := p.interfaces.nextIndex p.statics.i
    io.sent := if env.sendto then p.io.sent ++ [(p.interfaces.dest p.statics.i, d)]
      else p.io.sent }

namespace Gateway

variable (bo : ByteOrder) (env : Env)

variable {Q : Unit → Process → Prop} {E : Halt → Process → Prop} {p : Process}

theorem wp_selectAddrFromList {Q : Dest → Process → Prop} :
    wp selectAddrFromList Q E p ↔
      if p.interfaces.NoAddress then E .fault p.select
      else Q (p.interfaces.dest p.statics.i) p.select := by
  simp only [selectAddrFromList, wp_bind, wp_get]
  rcases h : p.interfaces.peer_addressList with - | l
  · have : ¬p.interfaces.NoAddress := fun hp => hp.1 h
    simp [this, PhyInterfaces.dest, PhyInterfaces.nextIndex, Process.select, h]
  · have : p.interfaces.NoAddress ↔ p.interfaces.peer_addressCount = 0 := by
      simp [PhyInterfaces.NoAddress, h]
    simp [this, wp_ite, PhyInterfaces.dest, PhyInterfaces.nextIndex, Process.select, h]

theorem wp_chunkWrite (cap : Capsule) :
    wp (chunkWrite bo env cap) Q E p ↔
      if p.interfaces.NoAddress then E .fault p.select else Q () (p.send env (cap.wire bo)) := by
  have hcap : (cap.copyHeader bo).header = cap.header := rfl
  simp only [chunkWrite, sendto, wp_bind, wp_selectAddrFromList, hcap, cap.load_wire bo]
  cases h : env.sendto <;> simp [Process.emit, Process.send, Process.select, h]

theorem wp_send (cap : Capsule) :
    wp (send bo env cap) Q E p ↔
      if p.interfaces.NoAddress then E .fault p.select
      else if env.sendto then Q () (p.send env (cap.wire bo)) else E .exit p.select := by
  simp only [send, sendto, wp_bind, wp_selectAddrFromList, cap.load_wire bo]
  cases h : env.sendto <;> simp [Process.emit, Process.send, Process.select, h]

/-! ## What is received -/

/-- The buffer `pull` fills with the datagram `d`. -/
def pulled (p : Process) (d : List Byte) : MemBuff :=
  recvInto bo (p.rxFactory.makeChunkforRx env.heap p.statics.hdrid).1 p.rxFactory.chunkSize d

@[simp] theorem addr_pulled (p : Process) (d : List Byte) :
    (pulled bo env p d).addr = p.rxFactory.allocated := rfl

theorem size_pulled (p : Process) (d : List Byte) :
    (pulled bo env p d).size = (min p.rxFactory.chunkSize d.length : ℕ) := by
  simp [pulled, recvInto]

/-- What is received does not depend on the process, but for its chunk size. -/
theorem data_pulled_congr {p q : Process} (h : q.rxFactory.chunkSize = p.rxFactory.chunkSize)
    (d : List Byte) : (pulled bo env q d).data = (pulled bo env p d).data := by
  simp only [pulled, recvInto, Capsule.stripHeader, h]
  rfl

/-- The memory of the body a datagram `d` is received in, before `stripHeader`. -/
theorem load_pulled {p : Process} {d : List Byte} (hd : d.length ≤ p.rxFactory.chunkSize) {n : ℕ}
    (hn : HEADER_SPACE + n ≤ d.length) :
    (pulled bo env p d).data.body.load 0 n = (d.drop HEADER_SPACE).take n := by
  have : (env.heap.store 0 d).load (0 + HEADER_SPACE) n = (d.drop HEADER_SPACE).take n :=
    env.heap.load_store_add hn
  simpa [pulled, recvInto, Capsule.stripHeader, DataFactory.makeChunkforRx,
    List.take_of_length_le hd] using this

theorem header_pulled {p : Process} {d : List Byte} (hd : d.length ≤ p.rxFactory.chunkSize)
    (hn : HEADER_SPACE ≤ d.length) :
    (pulled bo env p d).data.header = .decode bo (d.take HEADER_SPACE) := by
  simp [pulled, recvInto, Capsule.stripHeader, DataFactory.makeChunkforRx,
    List.take_of_length_le hd, Block.load_store_of_le _ hn]

/-- The process after `pull` has received `d`. -/
@[simps] def afterPull (p : Process) (d : List Byte) : Process :=
  { p with
    rxFactory.buffer := p.rxFactory.buffer ++ [pulled bo env p d]
    rxFactory.allocated := p.rxFactory.allocated + 1
    statics.hdrid := p.statics.hdrid + 1
    io.accesses := p.io.accesses ++ [.header (pulled bo env p d).size] }

theorem wp_pull {Q : MemBuff → Process → Prop} {d : List Byte} (hd : env.datagram = some d) :
    wp (pull bo env) Q E p ↔ Q (pulled bo env p d) (afterPull bo env p d) := by
  simp [pull, hd, afterPull, pulled, Process.pushRx, Process.setRx, Process.access,
    DataFactory.fill, DataFactory.push]

/-- Without a datagram, `pull` exits. -/
theorem wp_pull_none {Q : MemBuff → Process → Prop} (hd : env.datagram = none) :
    wp (pull bo env) Q E p ↔ E .exit (p.pushRx env.heap) := by
  simp [pull, hd]

end Gateway

end Udm
