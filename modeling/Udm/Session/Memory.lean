import Udm.Library.Lockstep
import Udm.Session.AddressText
import Udm.Session.Window
import Udm.Source

/-!
# What a session sees of fresh memory

The bodies of buffers, and the lists of addresses, are allocated and not initialised. What
`malloc` leaves there is sent with the addresses: `strcpy` fills a field up to the NUL of the
text, and `memcpy` takes the whole field into the capsule. A session does not see it.

* `Lookalike`: datagrams that are the same, or bring addresses with the same texts, in fields
  that differ behind them;
* `Capsule.Same`, `Capsule.Alike`: the capsules that make the same datagram, or two of these;
* `MemBuff.Same`: the buffers that have received such datagrams;
* `Process.Same`: processes that are given other memory, and otherwise the same. They differ
  in their buffers and lists, and in nothing that they decide by;
* `Clean`: programs that do the same on such processes, and send such datagrams.

This takes datagrams that have the bytes that their header announces (`Whole`), and a number of
interfaces that does not change: otherwise a body is read, or sent, past what was written there.

Every function of the session is clean, one lemma for each (`clean_send`, `clean_pull`, …), by the
rules of `Udm.Library.Lockstep`. Four places read memory that is not initialised, and each has its
own reason why nothing comes of it:

* *a body that is sent*: the size in the header covers what was stored there, and no more is sent
  (`Capsule.Same`), but that behind the text of an address, something else may have been stored
  (`alike_advertise`);
* *a body that is written to the sink*: only as many bytes as were received (`writeStream_congr`);
* *the advertised list*: the comparison with `"127.0.0.1"` ends at a NUL or at the end of the field
  (`isLoopback_congr`), and what is read past the end of the list is only moved to entries that are
  not counted (`take_shift_past`);
* *the list of the peers*: it is chosen from by index, and what an entry holds goes to `sendto`
  only, so that the destinations are compared by their index (`SentAlike`).
-/

namespace Udm

/-- The datagram has the bytes that its header announces, also when it is received. -/
def Whole (bo : ByteOrder) (d : List Byte) : Prop :=
  HEADER_SPACE + (CapsuleHdr.decode bo (d.take HEADER_SPACE)).capSize.toNat ≤ min CHUNK d.length

instance (bo : ByteOrder) (d : List Byte) : Decidable (Whole bo d) :=
  inferInstanceAs (Decidable (_ ≤ _))

/-- Such a datagram has a header. -/
theorem Whole.header_le {bo : ByteOrder} {d : List Byte} (h : Whole bo d) :
    HEADER_SPACE ≤ d.length :=
  (Nat.le_add_right _ _).trans (h.trans (min_le_right _ _))

/-- Other memory, for the bodies of buffers and behind the list of the peer addresses, and what the
    peer sends from other memory. -/
def Env.allocating (heap : Block Byte) (past : IpaddrDummy) (datagram : Option (List Byte))
    (env : Env) : Env :=
  { env with heap, past, datagram }

/-! ## Writes -/

/-- A write only sees the bytes it is asked for. -/
theorem Fstream.write_congr {fs : Fstream} {o : WriteOutcome} {buff buff' : Block Byte} {n : ℤ}
    (h : buff.load 0 n.toNat = buff'.load 0 n.toNat) : fs.write o buff n = fs.write o buff' n := by
  have hpart {k : ℕ} (hk : k ≤ n.toNat) : buff.load 0 k = buff'.load 0 k := by
    have := @Block.load_eq_of_load _ _ _ 0 k _ 0 h (by omega)
    simpa using this
  unfold Fstream.write
  cases o with
  | written => simp only [h, hpart (Nat.zero_le _)]
  | failed k =>
    have hle : (if fs.failed then 0 else min k (n.toNat - 1)) ≤ n.toNat := by
      split_ifs <;> omega
    simp only [h, hpart hle]

/-! ## Datagrams -/

/-- The datagrams are the same, or capsules without payload that bring lists of addresses with the
    same texts: then the bytes behind the texts may be others. -/
inductive Lookalike (bo : ByteOrder) : List Byte → List Byte → Prop
  | same {d : List Byte} (h : Whole bo d) : Lookalike bo d d
  | addresses {hdr : CapsuleHdr} {l l' : List IpaddrDummy} (hpayld : hdr.isPayld = false)
      (hsize : hdr.capSize.toNat = l.length * ADDR_LEN)
      (hfit : HEADER_SPACE + l.length * ADDR_LEN ≤ CHUNK)
      (h : l.map IpaddrDummy.text = l'.map IpaddrDummy.text) :
      Lookalike bo (hdr.encode bo ++ l.flatMap IpaddrDummy.data)
        (hdr.encode bo ++ l'.flatMap IpaddrDummy.data)

/-- Every address takes a field of `ADDR_LEN` bytes, whatever its text. -/
theorem length_flatMap_data (l : List IpaddrDummy) :
    (l.flatMap IpaddrDummy.data).length = l.length * ADDR_LEN := by
  simp [List.length_flatMap, IpaddrDummy.length_data]

namespace Lookalike

variable {bo : ByteOrder} {d d' : List Byte}

/-- Datagrams that look alike are of one length, so they are cut at the same place, if at all. -/
theorem length_eq (h : Lookalike bo d d') : d.length = d'.length := by
  cases h with
  | same => rfl
  | @addresses hdr l l' _ _ _ h =>
    have hlen : l.length = l'.length := by simpa using congrArg List.length h
    rw [List.length_append, List.length_append, length_flatMap_data, length_flatMap_data, hlen]

/-- They have the same header, from which the receiver takes the type, the ids and the flags. -/
theorem header_eq (h : Lookalike bo d d') : d.take HEADER_SPACE = d'.take HEADER_SPACE := by
  cases h with
  | same => rfl
  | addresses => rw [List.take_left' (by simp), List.take_left' (by simp)]

/-- Both of them have the bytes that the header announces. -/
theorem whole (h : Lookalike bo d d') : Whole bo d := by
  cases h with
  | same h => exact h
  | addresses _ hsize hfit _ =>
    rw [Whole, List.take_left' (by simp), CapsuleHdr.decode_encode, List.length_append,
      CapsuleHdr.length_encode, length_flatMap_data, hsize]
    exact le_min hfit le_rfl

/-- The same, of the other one. -/
theorem whole_right (h : Lookalike bo d d') : Whole bo d' := by
  have hwhole := h.whole
  rwa [Whole, h.header_eq, h.length_eq] at hwhole

end Lookalike

/-- Datagrams that look alike, to the same entry of the peer list. -/
def SentAlike (bo : ByteOrder) (s s' : Dest × List Byte) : Prop :=
  s.1 = s'.1 ∧ Lookalike bo s.2 s'.2

/-! ## Capsules and buffers -/

/-- The capsules make the same datagram, which a buffer has room for. -/
structure Capsule.Same (c c' : Capsule) : Prop where
  /-- The headers are the same. -/
  header : c.header = c'.header
  /-- So is what is sent of the bodies. -/
  payload : c.body.load HEADER_SPACE c.header.capSize.toNat =
    c'.body.load HEADER_SPACE c.header.capSize.toNat
  /-- The payload ends in the body. -/
  fits : HEADER_SPACE + c.header.capSize.toNat ≤ CHUNK

/-- The capsules make datagrams that look alike. -/
structure Capsule.Alike (bo : ByteOrder) (c c' : Capsule) : Prop where
  /-- The headers are the same. -/
  header : c.header = c'.header
  /-- What is sent differs behind the NUL of an address at most. -/
  wire : Lookalike bo (c.wire bo) (c'.wire bo)

namespace Capsule.Same

variable {c c' : Capsule}

/-- What gets on the wire is the header and as many bytes of the body as it says. -/
theorem wire_eq (h : c.Same c') (bo : ByteOrder) : c.wire bo = c'.wire bo := by
  rw [wire, wire, ← h.header, h.payload]

/-- The datagram that is made has what its header announces. -/
theorem whole (h : c.Same c') (bo : ByteOrder) : Whole bo (c.wire bo) := by
  rw [Whole, length_wire, wire, List.take_left' (c.header.length_encode bo),
    CapsuleHdr.decode_encode]
  exact le_min h.fits le_rfl

/-- Capsules that make the same datagram make datagrams that look alike. -/
theorem alike (h : c.Same c') (bo : ByteOrder) : c.Alike bo c' where
  header := h.header
  wire := h.wire_eq bo ▸ .same (h.whole bo)

/-- Changing the header, but for the size. -/
theorem modifyHeader (h : c.Same c') {hdr hdr' : CapsuleHdr} (heq : hdr = hdr')
    (hsize : hdr.capSize = c.header.capSize) :
    Same { c with header := hdr } { c' with header := hdr' } where
  header := heq
  payload := by
    show c.body.load HEADER_SPACE hdr.capSize.toNat = c'.body.load HEADER_SPACE hdr.capSize.toNat
    rw [hsize, h.payload]
  fits := by
    show HEADER_SPACE + hdr.capSize.toNat ≤ CHUNK
    rw [hsize]
    exact h.fits

/-- The copy of the header lies before the payload. -/
theorem copyHeader (h : c.Same c') (bo : ByteOrder) :
    Same (c.copyHeader bo) (c'.copyHeader bo) where
  header := h.header
  payload := by
    rw [load_copyHeader, load_copyHeader]
    exact h.payload
  fits := h.fits

/-- The fields that `setCapParams` fills in for every capsule. -/
theorem stamp (h : c.Same c') (par : Params) (id : ℤ) :
    Same (SessionProcessor.stamp c par id) (SessionProcessor.stamp c' par id) :=
  h.modifyHeader (by rw [h.header]) rfl

end Capsule.Same

/-- Empty capsules. -/
theorem Capsule.same_empty {hdr : CapsuleHdr} (h : hdr.capSize = 0) (m m' : Block Byte) :
    Capsule.Same ⟨hdr, m⟩ ⟨hdr, m'⟩ where
  header := rfl
  payload := by simp [h]
  fits := by
    rw [h]
    decide

/-- The addresses in the body of a buffer, by its header. -/
def MemBuff.addresses (b : MemBuff) : List IpaddrDummy :=
  SessionProcessor.addresses (b.data.header.capSize.toNat / ADDR_LEN) b.data.body

/-- The buffers have received datagrams that look alike: a payload is the same, and addresses have
    the same texts. -/
structure MemBuff.Same (b b' : MemBuff) : Prop where
  /-- They are the same allocation of the queue. -/
  addr : b.addr = b'.addr
  /-- As many bytes were received. -/
  size : b.size = b'.size
  /-- The headers are the same, since no address is in a header. -/
  header : b.data.header = b'.data.header
  /-- Of data, every byte is the same. -/
  payload : b.data.header.isPayld = true → b.payload = b'.payload
  /-- Of addresses, the texts are. -/
  addresses : b.addresses.map IpaddrDummy.text = b'.addresses.map IpaddrDummy.text

/-- A new buffer holds nothing. -/
theorem MemBuff.Same.fresh (addr : ℕ) {hdr : CapsuleHdr} (h : hdr.capSize = 0) (m m' : Block Byte) :
    Same ⟨addr, 0, hdr, m⟩ ⟨addr, 0, hdr, m'⟩ where
  addr := rfl
  size := rfl
  header := rfl
  payload := fun _ => rfl
  addresses := by simp [MemBuff.addresses, SessionProcessor.addresses, h]

variable {bo : ByteOrder} {env : Env} {p : Process}

namespace Gateway

/-- What is announced is pulled of a whole datagram, whatever memory the buffer is in. -/
theorem body_pulled (hp : p.rxFactory.chunkSize = CHUNK) {d : List Byte} (hd : Whole bo d) :
    let n := (CapsuleHdr.decode bo (d.take HEADER_SPACE)).capSize.toNat
    (pulled bo env p d).data.body.load 0 n = (payloadOf d).take n := by
  intro n
  have hc : (pulled bo env p d).Carries bo d := carries_pulled hp hd.header_le
  have hlen : (pulled bo env p d).payload.length =
      (DataFactory.writeLength (pulled bo env p d).size).toNat := Block.length_load _ _ _
  have hle : n ≤ (DataFactory.writeLength (pulled bo env p d).size).toNat := by
    rw [← hlen, hc.payload_eq, payloadOf, List.length_drop, List.length_take]
    exact Nat.le_sub_of_add_le' hd
  rw [← hc.payload_eq, MemBuff.payload, Block.take_load, Nat.min_eq_left hle]

/-- The addresses that are pulled of a whole datagram are those of its payload. -/
theorem addresses_pulled_eq (hp : p.rxFactory.chunkSize = CHUNK) {hdr : CapsuleHdr}
    {l : List IpaddrDummy} (hsize : hdr.capSize.toNat = l.length * ADDR_LEN)
    (hfit : HEADER_SPACE + l.length * ADDR_LEN ≤ CHUNK) :
    (pulled bo env p (hdr.encode bo ++ l.flatMap IpaddrDummy.data)).addresses = l := by
  have hpayload : (l.flatMap IpaddrDummy.data).length + HEADER_SPACE ≤ CHUNK := by
    rwa [length_flatMap_data, Nat.add_comm]
  obtain ⟨hheader, hbody, -⟩ := @pulled_wire bo env p hp hdr _ hpayload
  rw [length_flatMap_data] at hbody
  rw [MemBuff.addresses, hheader, hsize, Nat.mul_div_cancel _ (by decide)]
  have hplaces := (Block.load_eq_flatMap_iff IpaddrDummy.length_data).1 hbody
  exact SessionProcessor.addresses_eq l fun j hj => by simpa using hplaces j hj

/-- What is pulled of datagrams that look alike. -/
theorem same_pulled {q : Process} (hp : p.rxFactory.chunkSize = CHUNK)
    (hq : q.rxFactory.chunkSize = CHUNK) (haddr : q.rxFactory.allocated = p.rxFactory.allocated)
    {d d' : List Byte} (hd : Lookalike bo d d') (env' : Env) :
    (pulled bo env p d).Same (pulled bo env' q d') := by
  have hc : (pulled bo env p d).Carries bo d := carries_pulled hp hd.whole.header_le
  have hc' : (pulled bo env' q d').Carries bo d' := carries_pulled hq hd.whole_right.header_le
  have hheader : (pulled bo env p d).data.header = (pulled bo env' q d').data.header := by
    rw [hc.header, hc'.header, hd.header_eq]
  refine ⟨haddr.symm, ?_, hheader, ?_, ?_⟩
  · rw [hc.size, hc'.size, hd.length_eq]
  · -- A payload is in a capsule that is the same; the addresses come without a payload.
    intro hpayld
    cases hd with
    | same => exact hc.payload_eq.trans hc'.payload_eq.symm
    | addresses hno =>
      rw [hc.header, List.take_left' (by simp), CapsuleHdr.decode_encode, hno] at hpayld
      contradiction
  · cases hd with
    -- The same datagram: each field lies within what the header announces, and was received.
    | same hwhole =>
      refine congrArg (List.map IpaddrDummy.text) ?_
      rw [MemBuff.addresses, MemBuff.addresses, ← hheader]
      refine List.map_congr_left fun i hi => IpaddrDummy.ext ?_
      have hlt : i + 1 ≤ (pulled bo env p d).data.header.capSize.toNat / ADDR_LEN :=
        List.mem_range.1 hi
      have hend : i * ADDR_LEN + ADDR_LEN ≤ (pulled bo env p d).data.header.capSize.toNat := by
        rw [← Nat.succ_mul]
        exact (Nat.mul_le_mul_right _ hlt).trans (Nat.div_mul_le_self _ _)
      rw [hc.header] at hend
      have hload :=
        (@body_pulled _ env _ hp _ hwhole).trans (@body_pulled _ env' _ hq _ hwhole).symm
      have := Block.load_eq_of_load hload hend
      rwa [Nat.zero_add] at this
    -- Two lists: each buffer holds the one that came in its datagram.
    | @addresses hdr l l' hno hsize hfit htexts =>
      have hlen : l.length = l'.length := by simpa using congrArg List.length htexts
      rw [addresses_pulled_eq hp hsize hfit, addresses_pulled_eq hq (hlen ▸ hsize) (hlen ▸ hfit)]
      exact htexts

end Gateway

/-! ## Processes -/

/-- What a process keeps of the memory it was given, and the record of what it has sent and
    written. -/
structure Memory where
  /-- The addresses of the host, which have bytes of the heap behind their texts. -/
  addressList : List IpaddrDummy
  /-- Those of the peer, in an array that `malloc` returned. -/
  peer_addressList : Option (List IpaddrDummy)
  /-- The buffers to be sent. -/
  txBuffer : List MemBuff
  /-- The buffers that were received. -/
  rxBuffer : List MemBuff
  /-- Those that the window points to. -/
  window : OrdMap (BitVec 16) MemBuff
  /-- The datagrams of the last step. -/
  sent : List (Dest × List Byte)
  /-- The writes of the last step, with the factories before and after them. -/
  writes : List SinkWrite

namespace Process

/-- The process with other memory. -/
def onMemory (k : Memory) (p : Process) : Process :=
  { p with
    interfaces.addressList := k.addressList
    interfaces.peer_addressList := k.peer_addressList
    txFactory.buffer := k.txBuffer
    rxFactory.buffer := k.rxBuffer
    rxcurrentWindow := k.window
    io.sent := k.sent
    io.writes := k.writes }

/-- The memory `k` shows the process `p` the same as its own: the same texts of addresses, and
    buffers that have received, and record datagrams that were sent, alike. The process has the
    addresses `list`, and everything it holds has its place in a datagram. -/
structure Shows (bo : ByteOrder) (list : List IpaddrDummy) (p : Process) (k : Memory) : Prop where
  /-- The host has the addresses `list`. -/
  addressList : p.interfaces.addressList = list
  /-- The other one has addresses of the same texts. -/
  texts : list.map IpaddrDummy.text = k.addressList.map IpaddrDummy.text
  /-- Both know the addresses of their peer, or none does. -/
  known : p.interfaces.peer_addressList.isSome = k.peer_addressList.isSome
  /-- They are addresses of the same texts. -/
  peers : p.interfaces.peers.map IpaddrDummy.text =
    (p.onMemory k).interfaces.peers.map IpaddrDummy.text
  /-- What is to be sent makes the same datagrams. -/
  txBuffer : List.Forall₂ (fun b b' => b.data.Same b'.data) p.txFactory.buffer k.txBuffer
  /-- What was received looks alike. -/
  rxBuffer : List.Forall₂ MemBuff.Same p.rxFactory.buffer k.rxBuffer
  /-- The windows have the same ids, with buffers that look alike. -/
  window : OrdMap.Rel MemBuff.Same p.rxcurrentWindow k.window
  /-- What was sent looks alike, and went to the same places. -/
  sent : List.Forall₂ (SentAlike bo) p.io.sent k.sent
  /-- As many writes were made. -/
  writes : p.io.writes.length = k.writes.length
  /-- What is read of a file has room in a datagram. -/
  txChunk : p.txFactory.chunkSize ≤ CHUNK
  /-- So does what is received. -/
  rxChunk : p.rxFactory.chunkSize = CHUNK

/-- The processes differ in what they do not see of their memory. -/
def Same (bo : ByteOrder) (list : List IpaddrDummy) : Process → Process → Prop :=
  SameBut onMemory (Shows bo list)

end Process

/-- The programs do the same on processes that differ in their memory, with results related
    by `V`. -/
abbrev Clean (bo : ByteOrder) (list : List IpaddrDummy) {α : Type} (V : α → α → Prop)
    (x y : Prog α) : Prop := Lockstep (Process.Same bo list) V x y

/-- A queue that is empty here is empty there. -/
theorem Process.Shows.rxBuffer_nil {list : List IpaddrDummy} {k : Memory} (h : p.Shows bo list k)
    (hqueue : p.rxFactory.buffer = []) : k.rxBuffer = [] := by
  have hbuffer := h.rxBuffer
  rw [hqueue] at hbuffer
  exact List.forall₂_nil_left_iff.1 hbuffer

/-- Both have returned, or neither. -/
theorem Process.Same.returned_eq {list : List IpaddrDummy} {p q : Process}
    (h : p.Same bo list q) : p.returned = q.returned := by
  obtain ⟨k, rfl, -⟩ := h
  rfl

/-- New processes, with lists that `strcpy` has filled with the same texts. -/
theorem Process.same_init (bo : ByteOrder) (dir : StateDirection) (statics : Statics)
    {list list' : List IpaddrDummy} (h : list.map IpaddrDummy.text = list'.map IpaddrDummy.text)
    (source sink : DataSource) :
    (init dir statics list source sink).Same bo list (init dir statics list' source sink) :=
  ⟨⟨list', none, [], [], ∅, [], []⟩, rfl, rfl, h, rfl, rfl, .nil, .nil, OrdMap.rel_empty, .nil, rfl,
    le_rfl, rfl⟩

variable {list : List IpaddrDummy} {heap : Block Byte} {past : IpaddrDummy}
  {datagram : Option (List Byte)} {α : Type} {V : α → α → Prop}

namespace Clean

/-- An assignment away from memory. -/
theorem modify {f : Process → Process} (hf : ∀ p k, f (p.onMemory k) = (f p).onMemory k)
    (hS : ∀ p k, p.Shows bo list k → (f p).Shows bo list k) :
    Clean bo list Eq (modify f) (modify f) := Lockstep.modify_frame hf hS

/-- A look at the state away from memory. -/
theorem read {f g : Process → Prog α} (hg : ∀ p k, g (p.onMemory k) = g p)
    (h : ∀ p, Clean bo list V (f p) (g p)) : Clean bo list V (get >>= f) (get >>= g) :=
  Lockstep.read_frame hg h

end Clean

open Clean

/-! ## Sending -/

namespace Gateway

/-- The choice of an address is by the counter and the number of peers only: both processes
    choose the same entry, or divide by zero. -/
theorem clean_selectAddrFromList : Clean bo list Eq selectAddrFromList selectAddrFromList := by
  refine Lockstep.read ?_
  rintro p _ ⟨k, rfl, h⟩
  have hlist : (p.onMemory k).interfaces.peer_addressList = k.peer_addressList := rfl
  have hknown := h.known
  rw [hlist]
  cases hp : p.interfaces.peer_addressList with
  | none =>
    rw [hp] at hknown
    have hk : k.peer_addressList = none := by simpa using hknown.symm
    rw [hk]
    exact .pure rfl
  | some l =>
    rw [hp] at hknown
    obtain ⟨l', hk⟩ := Option.isSome_iff_exists.1 hknown.symm
    rw [hk]
    refine .seq (modify (fun _ _ => rfl) fun _ _ h => { h with }) fun _ => ?_
    exact .ite Iff.rfl (.throw _) (.pure rfl)

/-- A datagram is recorded with the entry it is sent to, if the system sends it. -/
theorem clean_sendto (s : Dest) {body body' : Block Byte} {n : ℕ}
    (h : Lookalike bo (body.load 0 n) (body'.load 0 n)) :
    Clean bo list Eq (sendto env s body n)
      (sendto (env.allocating heap past datagram) s body' n) := by
  have hsend : (env.allocating heap past datagram).sendto = env.sendto := rfl
  rw [sendto, sendto, hsend]
  cases env.sendto with
  | true =>
    refine .seq (Lockstep.modify_put fun p k hk => ?_) fun _ => .pure rfl
    refine ⟨{ k with sent := k.sent ++ [(s, body'.load 0 n)] }, rfl, ?_⟩
    exact { hk with sent := List.rel_append hk.sent (.cons ⟨rfl, h⟩ .nil) }
  | false => exact .pure rfl

variable {c c' : Capsule}

/-- What both ways of sending hand to `sendto`. -/
theorem clean_sendto_copyHeader (h : c.Alike bo c') (s : Dest) :
    Clean bo list Eq
      (sendto env s (c.copyHeader bo).body (c.header.capSize.toNat + HEADER_SPACE))
      (sendto (env.allocating heap past datagram) s (c'.copyHeader bo).body
        (c'.header.capSize.toNat + HEADER_SPACE)) := by
  have hsize : c'.header.capSize = c.header.capSize := by rw [h.header]
  have hload := c'.load_wire bo
  rw [hsize] at hload ⊢
  refine clean_sendto s ?_
  rw [hload, c.load_wire bo]
  exact h.wire

/-- Sending a chunk, whose failure is up to the caller. -/
theorem clean_chunkWrite (h : c.Alike bo c') : Clean bo list Eq (chunkWrite bo env c)
    (chunkWrite bo (env.allocating heap past datagram) c') :=
  clean_selectAddrFromList.seq fun s => (clean_sendto_copyHeader h s).seq fun _ => .pure rfl

/-- Sending a capsule, which exits where it fails. -/
theorem clean_send (h : c.Alike bo c') :
    Clean bo list Eq (send bo env c) (send bo (env.allocating heap past datagram) c') := by
  refine clean_selectAddrFromList.seq fun s => (clean_sendto_copyHeader h s).seq fun sent => ?_
  cases sent with
  | true => exact .pure rfl
  | false => exact .throw _

end Gateway

namespace Compositor

/-- A buffer for sending is empty, with other memory in its body. -/
theorem clean_newBuffer_tx :
    Clean bo list (fun b b' => b.data.Same b'.data) (newBuffer env .TX)
      (newBuffer (env.allocating heap past datagram) .TX) := by
  refine Lockstep.read ?_
  rintro p _ ⟨k, rfl, -⟩
  refine .seq (Lockstep.modify_put fun q l hl => ?_) fun _ => .pure (Capsule.same_empty rfl _ _)
  refine ⟨{ l with txBuffer := l.txBuffer ++
    [(q.txFactory.makeChunkforRx heap q.statics.hdrid).1] }, rfl, ?_⟩
  exact { hl with
    txBuffer := List.rel_append hl.txBuffer (.cons (Capsule.same_empty rfl _ _) .nil) }

/-- The first buffer of the queue is taken, or both queues are empty and both processes exit. -/
theorem clean_constructChunk :
    Clean bo list (fun b b' => b.data.Same b'.data) constructChunk constructChunk := by
  refine Lockstep.read ?_
  rintro p _ ⟨k, rfl, h⟩
  have hfac : (p.onMemory k).txFactory = { p.txFactory with buffer := k.txBuffer } := rfl
  have hbuffer := h.txBuffer
  rw [hfac, DataFactory.fetchChunk, DataFactory.fetchChunk, DataFactory.tryPop, DataFactory.tryPop]
  generalize p.txFactory.buffer = bs at hbuffer
  generalize k.txBuffer = bs' at hbuffer
  cases hbuffer with
  | nil => exact .throw _
  | @cons b b' bs bs' hb hbs =>
    refine .seq (Lockstep.modify_put fun q l hl => ?_) fun _ => .pure hb
    exact ⟨{ l with txBuffer := bs' }, rfl, { hl with txBuffer := hbs, txChunk := h.txChunk }⟩

end Compositor

/-! ## The parameters of a capsule -/

namespace SessionProcessor

/-- The fields are advertised as they are, with what is behind the texts. -/
theorem load_advertise (hinf : env.InfCount list.length) (c : Capsule) :
    (advertise env list c).body.load HEADER_SPACE (list.length * ADDR_LEN) =
      list.flatMap IpaddrDummy.data := by
  refine (Block.load_eq_flatMap_iff IpaddrDummy.length_data).2 fun j hj => ?_
  have hload := @load_copyAddresses env.past list 0 j env.infCount.tail c.body
    (fun _ => hinf.eq_of_mem_tail) (hinf.le_length_tail 0) hj
  rwa [if_pos (Nat.zero_le j)] at hload

/-- Lists with the same texts are advertised in capsules that look alike. -/
theorem alike_advertise (hfit : HEADER_SPACE + list.length * ADDR_LEN ≤ CHUNK)
    (hinf : env.InfCount list.length) {list' : List IpaddrDummy}
    (htexts : list.map IpaddrDummy.text = list'.map IpaddrDummy.text) {c c' : Capsule}
    (h : c.header = c'.header) {par : Params} (hpar : par.isPayld = false) (id : ℤ) :
    Capsule.Alike bo (stamp (advertise env list c) par id)
      (stamp (advertise (env.allocating heap past datagram) list' c') par id) := by
  have hlen : list.length = list'.length := by simpa using congrArg List.length htexts
  have hheader : (stamp (advertise env list c) par id).header =
      (stamp (advertise (env.allocating heap past datagram) list' c') par id).header := by
    simp only [stamp, advertise, h]
    rfl
  have hbody : (advertise (env.allocating heap past datagram) list' c').body.load HEADER_SPACE
      (list.length * ADDR_LEN) = list'.flatMap IpaddrDummy.data := by
    have hinf' : (env.allocating heap past datagram).InfCount list'.length := hlen ▸ hinf
    rw [hlen]
    exact load_advertise hinf' c'
  refine ⟨hheader, ?_⟩
  have hstamped : (stamp (advertise env list c) par id).header.capSize.toNat =
      list.length * ADDR_LEN := hinf.toNat_size hfit
  rw [Capsule.wire, Capsule.wire, ← hheader, hstamped]
  have hwire : Lookalike bo
      ((stamp (advertise env list c) par id).header.encode bo ++ list.flatMap IpaddrDummy.data)
      ((stamp (advertise env list c) par id).header.encode bo ++ list'.flatMap IpaddrDummy.data) :=
    .addresses hpar hstamped hfit htexts
  rwa [← load_advertise hinf c, ← hbody] at hwire

/-- The parameters of a capsule, which has no payload where the addresses are put into it. -/
theorem clean_setCapParams (hfit : HEADER_SPACE + list.length * ADDR_LEN ≤ CHUNK)
    (hinf : env.InfCount list.length) {c c' : Capsule} (h : c.Same c') {par : Params}
    {code : StateCodes} (hpar : code = .setup ∨ code = .connected → par.isPayld = false) :
    Clean bo list (Capsule.Alike bo) (setCapParams env c par code)
      (setCapParams (env.allocating heap past datagram) c' par code) := by
  refine Lockstep.read ?_
  rintro p _ ⟨k, rfl, hk⟩
  -- Every case ends with the capsule id and the header fields of the parameters.
  have hstamp {c c' : Capsule}
      (h : ∀ id, Capsule.Alike bo (stamp c par id) (stamp c' par id)) :
      Clean bo list (Capsule.Alike bo)
        (do let capsuleId := (← get).session.processor.capsuleId
            modify Process.nextCapsule
            return stamp c par capsuleId)
        (do let capsuleId := (← get).session.processor.capsuleId
            modify Process.nextCapsule
            return stamp c' par capsuleId) := by
    refine Lockstep.read ?_
    rintro q _ ⟨l, rfl, -⟩
    refine .seq (modify (fun _ _ => rfl) fun _ _ h => { h with }) fun _ => ?_
    exact .pure (h _)
  have hlist : (p.onMemory k).interfaces.addressList = k.addressList := rfl
  rw [hlist, hk.addressList]
  cases code with
  | setup => exact hstamp fun id => alike_advertise hfit hinf hk.texts h.header (hpar (.inl rfl)) id
  | connected =>
    have hwin : ({ c with header.capWinSiz := BitVec.ofNat 4 WIN_SIZ } : Capsule).header =
        ({ c' with header.capWinSiz := BitVec.ofNat 4 WIN_SIZ } : Capsule).header := by
      simp only [h.header]
    refine .seq (modify (fun _ _ => rfl) fun _ _ h => { h with }) fun _ => ?_
    exact hstamp fun id => alike_advertise hfit hinf hk.texts hwin (hpar (.inr rfl)) id
  | done =>
    have hwin : Capsule.Same { c with header.capWinSiz := BitVec.ofNat 4 WIN_SIZ }
        { c' with header.capWinSiz := BitVec.ofNat 4 WIN_SIZ } :=
      h.modifyHeader (by rw [h.header]) rfl
    exact hstamp fun id => (hwin.stamp par id).alike bo
  | «open» | closed | inq | send | recv => exact hstamp fun id => (h.stamp par id).alike bo

end SessionProcessor

/-! ## Reading the source -/

/-- The next chunk of the source is read into the place of the payload. -/
theorem DataFactory.inputFromSource_same (fac : DataFactory) {bs : List MemBuff}
    (h : List.Forall₂ (fun b b' => b.data.Same b'.data) fac.buffer bs)
    (hchunk : fac.chunkSize ≤ CHUNK) (m m' : Block Byte) :
    ∃ bs', inputFromSource { fac with buffer := bs } m' =
        { fac.inputFromSource m with buffer := bs' } ∧
      List.Forall₂ (fun b b' => b.data.Same b'.data) (fac.inputFromSource m).buffer bs' ∧
      (fac.inputFromSource m).chunkSize ≤ CHUNK := by
  cases hmode : fac.sourceData.fmode with
  | OUT => exact ⟨bs, by simp [inputFromSource, hmode], by simpa [inputFromSource, hmode] using h,
      by simpa [inputFromSource, hmode] using hchunk⟩
  | IN =>
    by_cases hend : fac.sourceData.fileSize ≤ sizeT fac.curSize
    · exact ⟨bs, by simp [inputFromSource, hmode, hend],
        by simpa [inputFromSource, hmode, hend] using h,
        by simpa [inputFromSource, hmode, hend] using hchunk⟩
    obtain ⟨got, fs, hread, hgot⟩ := @readStream_eq fac.sourceData.fs
      (fac.chunkSize - HEADER_SPACE) (lt_of_le_of_lt ((Nat.sub_le _ _).trans hchunk) (by decide))
    have hle : got.length ≤ PAYLOAD := hgot.trans (Nat.sub_le_sub_right hchunk _)
    have hsize : (BitVec.ofInt 16 (got.length : ℤ)).toNat = got.length := by
      rw [BitVec.ofInt_natCast, BitVec.toNat_ofNat]
      exact Nat.mod_eq_of_lt (lt_of_le_of_lt hle (by decide))
    have hnew : Capsule.Same
        ⟨{ capSize := BitVec.ofInt 16 (got.length : ℤ) }, m.store HEADER_SPACE got⟩
        ⟨{ capSize := BitVec.ofInt 16 (got.length : ℤ) }, m'.store HEADER_SPACE got⟩ := by
      refine ⟨rfl, ?_, ?_⟩
      · show Block.load _ _ (BitVec.ofInt 16 (got.length : ℤ)).toNat =
          Block.load _ _ (BitVec.ofInt 16 (got.length : ℤ)).toNat
        rw [hsize, Block.load_store, Block.load_store]
      · show HEADER_SPACE + (BitVec.ofInt 16 (got.length : ℤ)).toNat ≤ CHUNK
        rw [hsize]
        exact Nat.add_le_add_left hle HEADER_SPACE
    have hshort : sizeT (got.length + HEADER_SPACE) ≤ CHUNK := by
      rw [sizeT_add_header hle]
      exact Nat.add_le_add_right hle HEADER_SPACE
    simp only [inputFromSource, hmode, if_neg hend, hread]
    split_ifs with hlt
    · exact ⟨_, rfl, List.rel_append h (.cons hnew .nil), hshort⟩
    · exact ⟨_, rfl, List.rel_append h (.cons hnew .nil), hchunk⟩

/-- The next chunk of the file is put into the queue. -/
theorem clean_updateDataSource : Clean bo list Eq
    (modify fun p => p.setTx (p.txFactory.updateDataSource env.heap))
    (modify fun p =>
      p.setTx (p.txFactory.updateDataSource (env.allocating heap past datagram).heap)) := by
  refine Lockstep.modify_put fun p k h => ?_
  obtain ⟨bs, heq, hbuffer, hchunk⟩ :=
    p.txFactory.inputFromSource_same h.txBuffer h.txChunk env.heap heap
  refine ⟨{ k with txBuffer := bs }, ?_, { h with txBuffer := hbuffer, txChunk := hchunk }⟩
  exact congrArg (fun fac => (p.onMemory k).setTx fac) heq

/-! ## Receiving -/

/-- What is pulled of datagrams that look alike. -/
theorem Gateway.clean_pull (hd : Option.Rel (Lookalike bo) env.datagram datagram) :
    Clean bo list MemBuff.Same (pull bo env)
      (pull bo (env.allocating heap past datagram)) := by
  refine Lockstep.read ?_
  rintro p _ ⟨k, rfl, h⟩
  have hdatagram : (env.allocating heap past datagram).datagram = datagram := rfl
  -- A new buffer, in the memory of each, and then what is received is put into it.
  have hpush : Clean bo list Eq (modify (Process.pushRx env.heap))
      (modify (Process.pushRx (env.allocating heap past datagram).heap)) := by
    refine Lockstep.modify_put fun q l hl => ?_
    refine ⟨{ l with rxBuffer := l.rxBuffer ++
      [(q.rxFactory.makeChunkforRx heap q.statics.hdrid).1] }, rfl, ?_⟩
    exact { hl with rxBuffer := List.rel_append hl.rxBuffer (.cons (.fresh _ rfl _ _) .nil) }
  refine hpush.seq fun _ => ?_
  rw [hdatagram]
  generalize env.datagram = o at hd
  cases hd with
  | none => exact .throw _
  | @some d d' hd =>
    have hsame : (pulled bo env p d).Same
        (pulled bo (env.allocating heap past (some d')) (p.onMemory k) d') :=
      same_pulled h.rxChunk h.rxChunk rfl hd _
    refine .seq (Lockstep.modify_put fun q l hl => ?_) fun _ => ?_
    · refine ⟨{ l with rxBuffer := l.rxBuffer.dropLast ++ [_] }, rfl, ?_⟩
      have hlast : List.Forall₂ MemBuff.Same q.rxFactory.buffer.dropLast l.rxBuffer.dropLast := by
        rw [List.dropLast_eq_take, List.dropLast_eq_take, ← hl.rxBuffer.length_eq]
        exact List.forall₂_take _ hl.rxBuffer
      exact { hl with rxBuffer := List.rel_append hlast (.cons hsame .nil) }
    · have hsize := hsame.size
      refine .seq (Lockstep.modify_put fun q l hl => ⟨l, ?_, { hl with }⟩) fun _ => .pure hsame
      exact congrArg (fun n => (q.onMemory l).access [.header n]) hsize.symm

/-- Following a pointer. -/
theorem clean_deref {b b' : MemBuff} (h : b.Same b') :
    Clean bo list MemBuff.Same (deref b) (deref b') := by
  refine Lockstep.read ?_
  rintro p _ ⟨k, rfl, hk⟩
  have hholds : p.rxFactory.holds b = (p.onMemory k).rxFactory.holds b' := by
    have hbuffer := hk.rxBuffer
    show (p.rxFactory.buffer.any fun x => x.addr = b.addr) =
      k.rxBuffer.any fun x => x.addr = b'.addr
    rw [h.addr]
    generalize p.rxFactory.buffer = bs at hbuffer
    generalize k.rxBuffer = bs' at hbuffer
    induction hbuffer with
    | nil => rfl
    | cons hb _ ih => rw [List.any_cons, List.any_cons, hb.addr, ih]
  exact .ite (by rw [hholds]) (.pure h) (.throw _)

/-- The first buffer is taken from the queue of received ones. -/
theorem Session.clean_rxPop : Clean bo list MemBuff.Same rxPop rxPop := by
  refine Lockstep.read ?_
  rintro p _ ⟨k, rfl, h⟩
  have hpop : Clean bo list Eq (modify Process.popRx) (modify Process.popRx) :=
    Lockstep.modify_put fun q l hl => ⟨{ l with rxBuffer := l.rxBuffer.tail }, rfl,
      { hl with rxBuffer := by simpa using List.forall₂_drop 1 hl.rxBuffer }⟩
  refine hpop.seq fun _ => ?_
  have hbuffer := h.rxBuffer
  have hfac : (p.onMemory k).rxFactory = { p.rxFactory with buffer := k.rxBuffer } := rfl
  rw [hfac, DataFactory.tryPop, DataFactory.tryPop]
  generalize p.rxFactory.buffer = bs at hbuffer
  generalize k.rxBuffer = bs' at hbuffer
  cases hbuffer with
  | nil => exact .throw _
  | cons hb _ => exact .pure hb

/-! ## Writing the window -/

/-- What is written of a buffer with a payload. -/
theorem DataFactory.writeStream_congr {o : WriteOutcome} {d : DataSource} {b b' : MemBuff}
    (h : b.Same b') (hpayld : b.data.header.isPayld = true) :
    writeStream o d b'.data.body (writeLength b.size) =
      writeStream o d b.data.body (writeLength b.size) := by
  have hload := h.payload hpayld
  rw [MemBuff.payload, MemBuff.payload, ← h.size] at hload
  rw [writeStream, writeStream, Fstream.write_congr hload]

namespace PresentationProcessor

/-- The stream takes the payload, which is the same, and the counters take its size. -/
theorem write2Souce_same {fac : DataFactory} {o : WriteOutcome} {b b' : MemBuff} (h : b.Same b')
    (hpayld : b.data.header.isPayld = true) (bs : List MemBuff) :
    write2Souce { fac with buffer := bs } o b' =
      { write2Souce fac o b with buffer := bs } := by
  have hstream := @DataFactory.writeStream_congr o fac.sourceData _ _ h hpayld
  cases hmode : fac.sourceData.fmode with
  | IN => simp only [write2Souce, DataFactory.write2Source, hmode, ← h.size]
  | OUT => simp only [write2Souce, DataFactory.write2Source, hmode, ← h.size, hstream]

/-- The write of a payload has the outcome of the write with its number, and both processes
    count their writes alike. -/
theorem clean_write {b b' : MemBuff} (h : b.Same b') (hpayld : b.data.header.isPayld = true) :
    Clean bo list Eq (modify (write env b))
      (modify (write (env.allocating heap past datagram) b')) := by
  refine Lockstep.modify_put fun p k hk => ?_
  have hout : (env.allocating heap past datagram).write (p.onMemory k).io.writes.length =
      env.write p.io.writes.length := congrArg env.write hk.writes.symm
  have hfac : (p.onMemory k).rxFactory = { p.rxFactory with buffer := k.rxBuffer } := rfl
  refine
    ⟨{ k with writes := (write (env.allocating heap past datagram) b' (p.onMemory k)).io.writes },
    ?_, ?_⟩
  · simp only [write, hout, hfac, write2Souce_same h hpayld, ← h.size]
    rfl
  · have hbuffer : (write env b p).rxFactory.buffer = p.rxFactory.buffer := buffer_write env p b
    refine { hk with rxBuffer := ?_, rxChunk := (chunkSize_write env p b).trans hk.rxChunk,
                     writes := ?_ }
    · rw [hbuffer]
      exact hk.rxBuffer
    · rw [writes_write, writes_write, List.length_append, List.length_append]
      exact congrArg (· + 1) hk.writes

/-- The capsules of the window are written in the order of their ids, as far as they have a
    payload. -/
theorem clean_writeWindow {bs bs' : List MemBuff} (h : List.Forall₂ MemBuff.Same bs bs') :
    Clean bo list Eq (writeWindow env bs)
      (writeWindow (env.allocating heap past datagram) bs') := by
  induction h with
  | nil => exact .pure rfl
  | cons hb _ ih =>
    refine (clean_deref hb).bind fun b b' hb => ?_
    rw [← hb.header]
    by_cases hpayld : b.data.header.isPayld
    · simp only [hpayld, if_true]
      exact (clean_write hb hpayld).seq fun _ => ih
    · simp only [hpayld]
      exact ih

/-- The window is written where it is done, and nothing happens in the other states. -/
theorem clean_process (state : StateCodes) :
    Clean bo list Eq (process env state) (process (env.allocating heap past datagram) state) := by
  cases state with
  | done =>
    refine Lockstep.read ?_
    rintro p _ ⟨k, rfl, h⟩
    refine clean_writeWindow ?_
    have hwindow : List.Forall₂ (fun e e' : BitVec 16 × MemBuff => e.1 = e'.1 ∧ e.2.Same e'.2)
      p.rxcurrentWindow.entries k.window.entries := h.window
    rw [List.forall₂_map_left_iff, List.forall₂_map_right_iff]
    exact hwindow.imp fun _ _ he => he.2
  | «open» | setup | connected | closed | inq | send | recv => exact .pure rfl

end PresentationProcessor

/-! ## Taking what was received -/

namespace SessionProcessor

/-- The comparisons see the texts only. -/
theorem isLoopback_congr {a a' : IpaddrDummy} (h : a.text = a'.text) :
    a.isLoopback = a'.isLoopback := by
  rw [Bool.eq_iff_iff, a.isLoopback_iff, a'.isLoopback_iff, h]

section Texts

variable {l l' : List IpaddrDummy}

/-- Lists with the same texts have as many loopback addresses. -/
theorem countP_congr (h : l.map IpaddrDummy.text = l'.map IpaddrDummy.text) :
    l.countP IpaddrDummy.isLoopback = l'.countP IpaddrDummy.isLoopback := by
  induction l generalizing l' with
  | nil => rw [List.map_eq_nil_iff.1 h.symm]
  | cons a l ih =>
    obtain ⟨a', l', rfl, ha, hl⟩ := List.map_eq_cons_iff.1 h.symm
    rw [List.countP_cons, List.countP_cons, ih hl.symm, isLoopback_congr ha]

/-- The loop that removes the loopback addresses reads the same entries of such lists. -/
theorem readsFrom_congr (h : l.map IpaddrDummy.text = l'.map IpaddrDummy.text) (i : ℕ)
    (localhost_found : Bool) :
    readsFrom i localhost_found l = readsFrom i localhost_found l' := by
  induction l generalizing l' i localhost_found with
  | nil => rw [List.map_eq_nil_iff.1 h.symm]
  | cons a l ih =>
    obtain ⟨a', l', rfl, ha, hl⟩ := List.map_eq_cons_iff.1 h.symm
    rw [readsFrom, readsFrom, ih hl.symm, isLoopback_congr ha]

/-- It leaves lists with the same texts, if what is behind them is the same. -/
theorem shift_congr (h : l.map IpaddrDummy.text = l'.map IpaddrDummy.text) (past : IpaddrDummy)
    (localhost_found : Bool) :
    (shift past localhost_found l).map IpaddrDummy.text =
      (shift past localhost_found l').map IpaddrDummy.text := by
  induction l generalizing l' localhost_found with
  | nil => rw [List.map_eq_nil_iff.1 h.symm]
  | cons a l ih =>
    obtain ⟨a', l', rfl, ha, hl⟩ := List.map_eq_cons_iff.1 h.symm
    have hnext : (l.headD past).text = (l'.headD past).text := by
      cases l with
      | nil => rw [List.map_eq_nil_iff.1 hl]
      | cons b l =>
        obtain ⟨b', l', rfl, hb, -⟩ := List.map_eq_cons_iff.1 hl
        exact hb.symm
    rw [shift, shift, List.map_cons, List.map_cons, isLoopback_congr ha, ih hl.symm]
    split_ifs
    · rw [hnext]
    · rw [ha]

end Texts

/-- The entries that count do not depend on what lies behind the list. -/
theorem take_shift_past (l : List IpaddrDummy) (past past' : IpaddrDummy) :
    (shift past false l).take (l.length - l.countP IpaddrDummy.isLoopback) =
      (shift past' false l).take (l.length - l.countP IpaddrDummy.isLoopback) := by
  rw [shift_false, shift_false]
  by_cases h : l.any IpaddrDummy.isLoopback
  · obtain ⟨a, rest, hdrop, ha, hl⟩ := exists_split h
    -- From the first loopback address on, the entries move up by one, and the last one is read
    -- from behind the list. At least one entry less is counted, so this one is not.
    have hcount : 0 < l.countP IpaddrDummy.isLoopback := by
      rw [List.countP_pos_iff]
      exact List.any_eq_true.1 h
    have hlen : l.length = (l.takeWhile fun a => !a.isLoopback).length + (rest.length + 1) := by
      conv_lhs => rw [hl, List.length_append, List.length_cons]
    have hle : l.length - l.countP IpaddrDummy.isLoopback ≤
        ((l.takeWhile fun a => !a.isLoopback) ++ rest).length := by
      rw [List.length_append]
      omega
    rw [if_pos h, if_pos h, hdrop, List.tail_cons, ← List.append_assoc, ← List.append_assoc,
      List.take_append_of_le_length hle, List.take_append_of_le_length hle]
  · rw [if_neg h, if_neg h]

/-- The peers that are left have the same texts. -/
theorem peers_receiveAddresses_same {b b' : MemBuff} (h : b.Same b') (q : Process) :
    (receiveAddresses env b p).interfaces.peers.map IpaddrDummy.text =
      (receiveAddresses (env.allocating heap past datagram) b' q).interfaces.peers.map
        IpaddrDummy.text := by
  have hlen : b.addresses.length = b'.addresses.length := by
    simpa using congrArg List.length h.addresses
  rw [peers_receiveAddresses, peers_receiveAddresses]
  show (List.take (b.addresses.length - b.addresses.countP IpaddrDummy.isLoopback)
      (shift env.past false b.addresses)).map IpaddrDummy.text =
    (List.take (b'.addresses.length - b'.addresses.countP IpaddrDummy.isLoopback)
      (shift past false b'.addresses)).map IpaddrDummy.text
  rw [take_shift_past b.addresses env.past past, List.map_take, List.map_take, hlen,
    countP_congr h.addresses, shift_congr h.addresses]

/-- The list of the peer is kept, with other bytes behind its texts, and the same number of
    peers. -/
theorem clean_receiveAddresses {b b' : MemBuff} (h : b.Same b') :
    Clean bo list Eq (modify (receiveAddresses env b))
      (modify (receiveAddresses (env.allocating heap past datagram) b')) := by
  refine Lockstep.modify_put fun p k hk => ?_
  have hlen : b.addresses.length = b'.addresses.length := by
    simpa using congrArg List.length h.addresses
  have hcount : (peerScan (env.allocating heap past datagram) b').count =
      (peerScan env b).count := by
    rw [peerScan_eq, peerScan_eq]
    show ((b'.addresses.length : ℤ) - b'.addresses.countP IpaddrDummy.isLoopback) =
      (b.addresses.length : ℤ) - b.addresses.countP IpaddrDummy.isLoopback
    rw [hlen, countP_congr h.addresses]
  have hreads : (peerScan (env.allocating heap past datagram) b').reads =
      (peerScan env b).reads := by
    rw [peerScan_eq, peerScan_eq]
    exact (readsFrom_congr h.addresses 0 false).symm
  have heq : receiveAddresses (env.allocating heap past datagram) b' (p.onMemory k) =
      (receiveAddresses env b p).onMemory { k with
        peer_addressList := some (peerScan (env.allocating heap past datagram) b').list } := by
    simp only [receiveAddresses, hcount, hreads, ← h.header, ← h.size]
    rfl
  refine ⟨_, heq, { hk with known := rfl, peers := ?_ }⟩
  rw [← heq]
  exact peers_receiveAddresses_same h _

/-- A data capsule is kept under its id, which is in the header. -/
theorem clean_keep {b b' : MemBuff} (h : b.Same b') :
    Clean bo list Eq (modify (Process.keep b)) (modify (Process.keep b')) := by
  refine Lockstep.modify_put fun p k hk => ?_
  refine ⟨{ k with window := k.window.insert b.data.header.capid b' }, ?_,
    { hk with window := hk.window.insert _ h }⟩
  simp only [Process.keep, ← h.header]
  rfl

/-- What a capsule brings is taken in `setup`, `connected` and `closed`: addresses, the window,
    and a payload with its flags. -/
theorem clean_process {b b' : MemBuff} (h : b.Same b') (code : StateCodes) :
    Clean bo list Eq (process env b code)
      (process (env.allocating heap past datagram) b' code) := by
  refine .ite (by rw [h.header]) ?_ (.pure rfl)
  cases code with
  | setup => exact clean_receiveAddresses h
  | connected =>
    rw [← h.header]
    exact .seq (modify (fun _ _ => rfl) fun _ _ h => { h with }) fun _ => clean_receiveAddresses h
  | closed =>
    have hfin : Clean bo list Eq
        (if b.data.header.isFin then modify fun p => p.setRx { p.rxFactory with fin := true }
          else pure ())
        (if b'.data.header.isFin then modify fun p => p.setRx { p.rxFactory with fin := true }
          else pure ()) :=
      .ite (by rw [h.header]) (modify (fun _ _ => rfl) fun _ _ h => { h with }) (.pure rfl)
    rw [← h.header] at hfin ⊢
    cases b.data.header.isPayld with
    | true => exact (clean_keep h).seq fun _ => hfin
    | false => exact hfin
  | «open» | done | inq | send | recv => exact .pure rfl

end SessionProcessor

end Udm
