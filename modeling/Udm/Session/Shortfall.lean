import Udm.Session.Flow

/-!
# A source that is shorter than its size

The size of a source is asked for once, when it is opened. Less than that can be read of
it if the file shrinks, and nothing if it could not be opened. Then the progress counter
never gets to the size, and the end is found by a short read, if need be of no bytes at
all: the sender sends what can be read, and returns (`sends_readable`).

This is the other half of a source that is as long as its size, where the counter may get
to the size before a short read (`Reads`). The two invariants are alike in how they are
used, and differ in what ends the file:

* `Draws`: what the factory has read, after `n` chunks; `Draws.updateDataSource` reads the
  next one, and there always is one (`Draws.not_counted`);
* `Draining`: the session around it, with the number of the next capsule; its step lemma
  `Draining.step` goes through the transitions of a sender;
* `draining_run`: from the start of a run, all the data capsules are the chunks of what
  can be read.
-/

namespace Udm

/-! ## Reading -/

/-- What can be read of a stream. -/
def Fstream.readable (fs : Fstream) : List Byte :=
  if fs.failed then [] else fs.content.drop fs.pos

/-- A read gives the next bytes that can be read, and leaves the others unless it is short. -/
theorem DataFactory.readStream_readable (fs : Fstream) {n : ℕ} (hn : n < 2 ^ 31) :
    ∃ fs', readStream fs n = (((fs.readable.take n).length : ℤ), fs.readable.take n, fs') ∧
      (n ≤ fs.readable.length → fs'.readable = fs.readable.drop n) := by
  have hread : (fs.read n).1 = fs.readable.take n ∧
      (fs.read n).2.gcount = (fs.readable.take n).length ∧
      (n ≤ fs.readable.length → (fs.read n).2.readable = fs.readable.drop n) := by
    rw [Fstream.read, Fstream.readable]
    cases hfailed : fs.failed with
    | true => simp [Fstream.readable]
    | false =>
      refine ⟨rfl, rfl, fun hle => ?_⟩
      -- A full read leaves the stream usable, `n` bytes further on.
      have hlen : ((fs.content.drop fs.pos).take n).length = n := List.length_take_of_le hle
      simp only [Bool.false_eq_true, if_false, Fstream.readable, hlen, lt_irrefl, decide_false,
        List.drop_drop]
  have hle : (fs.readable.take n).length ≤ n := List.length_take_le _ _
  have hamt : int32 ((fs.readable.take n).length : ℤ) = (fs.readable.take n).length :=
    int32_of_mem (by omega) (by omega)
  refine ⟨(fs.read n).2, ?_, hread.2.2⟩
  simp only [readStream, getAmountRead, hread.1, hread.2.1, add_sub_cancel_right, hamt]

/-- The factory has read `n` chunks of the bytes that can be read of its source, which are fewer
    than its size. -/
structure Draws (bytes : List Byte) (n : ℕ) (fac : DataFactory) : Prop where
  /-- A chunk leaves the queue in the step that reads it. -/
  buffer : fac.buffer = []
  fmode : fac.sourceData.fmode = .IN
  /-- There is less than the size to read. -/
  short : bytes.length < fac.sourceData.fileSize
  /-- There are fewer chunks than the counter can count. -/
  small : bytes.length < MAX_CHUNKS * PAYLOAD
  /-- Until the end, whole chunks were read. -/
  inside : fac.fin = false → n * PAYLOAD ≤ bytes.length
  /-- The rest is still to be read. -/
  readable : fac.fin = false → fac.sourceData.fs.readable = bytes.drop (n * PAYLOAD)
  /-- The counter counts what was read, as an `int`. -/
  curSize : fac.fin = false → fac.curSize = int32 (n * PAYLOAD : ℕ)
  chunkSize : fac.fin = false → fac.chunkSize = CHUNK
  /-- The end was found by the chunk after the whole ones, which is short. -/
  last : fac.fin = true → n = bytes.length / PAYLOAD + 1

/-- A new factory has read nothing. -/
theorem draws_source {d : DataSource} (hmode : d.fmode = .IN)
    (hshort : d.fs.readable.length < d.fileSize)
    (hsmall : d.fs.readable.length < MAX_CHUNKS * PAYLOAD) :
    Draws d.fs.readable 0 { sourceData := d } where
  buffer := rfl
  fmode := hmode
  short := hshort
  small := hsmall
  inside := fun _ => by simp
  readable := fun _ => by simp
  curSize := fun _ => by simp [int32]
  chunkSize := fun _ => rfl
  last := fun h => by simp at h

namespace Draws

variable {bytes : List Byte} {n : ℕ} {fac : DataFactory}

/-- Making a buffer for a control capsule does not touch the source. -/
theorem control (h : Draws bytes n fac) (heap : Block Byte) (hdrid : BitVec 32) :
    Draws bytes n (fac.makeChunkforRx heap hdrid).2.tryPop.2 where
  buffer := by simp [h.buffer]
  fmode := h.fmode
  short := h.short
  small := h.small
  inside := h.inside
  readable := h.readable
  curSize := h.curSize
  chunkSize := h.chunkSize
  last := h.last

/-- No more chunks are read than there are, and one more if the last of them is full. -/
theorem le (h : Draws bytes n fac) : n ≤ bytes.length / PAYLOAD + 1 := by
  cases hfin : fac.fin with
  | true => exact (h.last hfin).le
  | false => exact ((Nat.le_div_iff_mul_le (by decide)).2 (h.inside hfin)).trans (Nat.le_succ _)

/-- There are no more chunks than the queue may have. -/
theorem le_max (h : Draws bytes n fac) : n ≤ MAX_CHUNKS := by
  have := (Nat.div_lt_iff_lt_mul (by decide)).2 h.small
  exact h.le.trans this

/-- A chunk is always read: the counter does not get to the size. -/
theorem not_counted (h : Draws bytes n fac) (hfin : fac.fin = false) :
    ¬fac.sourceData.fileSize ≤ sizeT fac.curSize := by
  have hle := h.inside hfin
  have hmax : n < MAX_CHUNKS := Nat.lt_of_mul_lt_mul_right (hle.trans_lt h.small)
  have hshort := h.short
  rw [h.curSize hfin, sizeT_int32_of_lt hmax]
  omega

/-- The next chunk is short exactly if it is the last one. -/
theorem length_chunk_lt_iff (h : Draws bytes n fac) (hfin : fac.fin = false) :
    (chunk PAYLOAD bytes n).length < PAYLOAD ↔ n = bytes.length / PAYLOAD := by
  have hpos : 0 < PAYLOAD := by decide
  have hle := (Nat.le_div_iff_mul_le hpos).2 (h.inside hfin)
  rw [Udm.length_chunk_lt_iff hpos, ← Nat.div_lt_iff_lt_mul hpos]
  omega

/-- The next chunk is read into a new buffer, and the end is found if it is short. -/
theorem updateDataSource (h : Draws bytes n fac) (hfin : fac.fin = false) (heap : Block Byte) :
    ∃ b : MemBuff, (fac.updateDataSource heap).buffer = [b] ∧
      b.data.header = { capSize := BitVec.ofNat 16 (chunk PAYLOAD bytes n).length } ∧
      b.data.body.load HEADER_SPACE (chunk PAYLOAD bytes n).length = chunk PAYLOAD bytes n ∧
      (fac.updateDataSource heap).fin = decide (n = bytes.length / PAYLOAD) ∧
      Draws bytes (n + 1) (fac.updateDataSource heap).tryPop.2 := by
  have hlen : (chunk PAYLOAD bytes n).length ≤ PAYLOAD := List.length_take_le _ _
  have hpay : PAYLOAD < 2 ^ 31 := by decide
  obtain ⟨fs, hread, hrest⟩ := DataFactory.readStream_readable fac.sourceData.fs hpay
  rw [h.readable hfin] at hread hrest
  have hread : DataFactory.readStream fac.sourceData.fs (CHUNK - HEADER_SPACE) =
    (((chunk PAYLOAD bytes n).length : ℤ), chunk PAYLOAD bytes n, fs) := hread
  have hsize : sizeT (chunk PAYLOAD bytes n).length = (chunk PAYLOAD bytes n).length :=
    sizeT_natCast (by omega)
  have hcap : BitVec.ofInt 16 ((chunk PAYLOAD bytes n).length : ℤ) =
    BitVec.ofNat 16 (chunk PAYLOAD bytes n).length := by simp
  have hshort := h.length_chunk_lt_iff hfin
  rw [DataFactory.updateDataSource, DataFactory.inputFromSource, h.fmode]
  simp only [if_neg (h.not_counted hfin), h.chunkSize hfin, hread, hsize]
  by_cases hend : n = bytes.length / PAYLOAD
  · -- A short read sets the end flag, also if it gives nothing.
    rw [if_pos (hshort.2 hend), hcap]
    refine ⟨_, by simp [h.buffer]; rfl, rfl, Block.load_store _ _ _, by simp [hend], ?_⟩
    constructor
    case last => exact fun _ => congrArg (· + 1) hend
    all_goals simp [h.buffer, h.fmode, h.short, h.small]
  · rw [if_neg (fun hlt => hend (hshort.1 hlt)), hcap]
    refine ⟨_, by simp [h.buffer]; rfl, rfl, Block.load_store _ _ _, by simp [hend, hfin], ?_⟩
    have hfull : (chunk PAYLOAD bytes n).length = PAYLOAD :=
      le_antisymm hlen (not_lt.1 fun hlt => hend (hshort.1 hlt))
    -- A full chunk is counted, and the end is looked for in the next one.
    have hroom : PAYLOAD ≤ (bytes.drop (n * PAYLOAD)).length :=
      hfull.ge.trans (List.length_take_le' _ _)
    have hinside : (n + 1) * PAYLOAD ≤ bytes.length := by
      rw [Nat.succ_mul]
      rw [List.length_drop] at hroom
      exact Nat.add_le_of_le_sub' (h.inside hfin) hroom
    have hreadable : fs.readable = bytes.drop ((n + 1) * PAYLOAD) := by
      rw [hrest hroom, List.drop_drop, Nat.succ_mul]
    have hcur : int32 (fac.curSize + ((chunk PAYLOAD bytes n).length : ℤ)) =
        int32 (((n + 1) * PAYLOAD : ℕ) : ℤ) := by
      rw [h.curSize hfin, int32_add, ← Nat.cast_add, hfull, Nat.succ_mul]
    constructor
    case inside => exact fun _ => hinside
    case readable => exact fun _ => hreadable
    case curSize => exact fun _ => hcur
    all_goals simp [h.buffer, h.fmode, h.short, h.small, hfin, h.chunkSize hfin]

end Draws

namespace Session

/-! ## Sending what can be read -/

/-- The datagram of a data capsule: the chunk `k` of the bytes, with the number `capsuleId`. -/
structure IsChunk (bo : ByteOrder) (bytes : List Byte) (k : ℕ) (capsuleId : ℤ) (d : List Byte) :
    Prop where
  capsule : IsCapsule bo d
  capid_eq : capid bo d = BitVec.ofInt 16 capsuleId
  /-- Only the last chunk, the short one, has the end flag. -/
  isFin_eq : isFin bo d = decide (k = bytes.length / PAYLOAD)
  /-- The header tells how much of the chunk there is, which may be nothing. -/
  capSize_eq : (CapsuleHdr.decode bo (d.take HEADER_SPACE)).capSize.toNat =
    (chunk PAYLOAD bytes k).length
  payload : d.drop HEADER_SPACE = chunk PAYLOAD bytes k

variable {bo : ByteOrder} {env : Env} {p : Process} {bytes : List Byte} {k : ℕ}

/-- The header of a data capsule, made of a buffer without flags. -/
theorem header_dataCapsule (bo : ByteOrder) (p : Process) {b : MemBuff}
    (hflags : b.data.header.capFlags = 0) :
    (dataCapsule bo p b).header.isPayld = true ∧
      (dataCapsule bo p b).header.capid = BitVec.ofInt 16 p.session.processor.capsuleId ∧
      (dataCapsule bo p b).header.capSize = b.data.header.capSize ∧
      (dataCapsule bo p b).header.isFin = isLast p := by
  have hone : Flags.FIN.code ≠ 0#8 := by decide
  have htype : (p.session.capParams .PAYLD).capType &&& CapsuleType.PAYLD.code ≠ 0 := by
    show CapsuleType.PAYLD.code &&& CapsuleType.PAYLD.code ≠ 0
    decide
  cases hlast : isLast p <;>
    simpa [dataCapsule, SessionProcessor.stamp, Capsule.copyHeader, CapsuleHdr.isPayld,
      CapsuleHdr.isFin, hlast, hflags, hone] using htype

/-- A sender that has sent `k` chunks sends the next one. -/
theorem draws_sentData (h : Draws bytes k p.txFactory) (hfin : p.txFactory.fin = false)
    (hio : p.io.sent = []) (hwin : p.session.processor.winSize ≠ 0) (hsend : env.sendto = true)
    {b : MemBuff} (hb : (loaded env p).txFactory.buffer.head? = some b) :
    Draws bytes (k + 1) (sentData bo env b p).txFactory ∧
      (sentData bo env b p).txFactory.fin = decide (k = bytes.length / PAYLOAD) ∧
      (sentData bo env b p).session.processor.winSize =
        (if k = bytes.length / PAYLOAD then 0 else p.session.processor.winSize - 1) ∧
      ∃ d, (sentData bo env b p).out = [d] ∧
        IsChunk bo bytes k p.session.processor.capsuleId d := by
  obtain ⟨b', hbuffer, hheader, hbody, hfin', hdraws⟩ := h.updateDataSource hfin env.heap
  obtain rfl : b' = b := by
    have hb : (p.txFactory.updateDataSource env.heap).buffer.head? = some b := hb
    rw [hbuffer] at hb
    exact Option.some.inj hb
  have hlast : isLast (loaded env p).popTx = decide (k = bytes.length / PAYLOAD) := by
    have hempty : (loaded env p).popTx.txFactory.buffer = [] := by
      show (p.txFactory.updateDataSource env.heap).buffer.tail = []
      rw [hbuffer]
      rfl
    rw [isLast, hempty, List.isEmpty_nil, Bool.and_true]
    exact hfin'
  have hsize : b'.data.header.capSize.toNat = (chunk PAYLOAD bytes k).length := by
    have hle : (chunk PAYLOAD bytes k).length ≤ PAYLOAD := List.length_take_le _ _
    rw [hheader, BitVec.toNat_ofNat, Nat.mod_eq_of_lt (lt_of_le_of_lt hle (by decide))]
  refine ⟨hdraws, hfin', ?_, _, out_sentData hio hsend b', ?_⟩
  · rw [winSize_sentData hwin, hlast]
    simp
  rw [wire_dataCapsule hsize hbody]
  obtain ⟨hpayld, hcapid, hcapSize, hisFin⟩ :=
    header_dataCapsule bo (loaded env p).popTx (show b'.data.header.capFlags = 0 by rw [hheader])
  refine ⟨⟨by simp, ?_⟩, ?_, ?_, ?_, List.drop_left' (CapsuleHdr.length_encode bo _)⟩
  · rwa [decode_take_encode]
  · rw [capid, decode_take_encode]
    exact hcapid
  · rw [isFin, decode_take_encode, hisFin, hlast]
  · rw [decode_take_encode, hcapSize, hsize]

/-- A sender that has sent `k` chunks of the bytes it can read. -/
structure Draining (bytes : List Byte) (k : ℕ) (p : Process) : Prop where
  draws : Draws bytes k p.txFactory
  /-- Before the addresses are sent no capsule was numbered. -/
  opening : p.session.next = .open ∨ p.session.next = .setup →
    p.session.processor.capsuleId = 0 ∧ p.session.complete = false
  /-- The addresses have the number 0, the chunks those from 1 on. -/
  numbered : p.session.next ≠ .open → p.session.next ≠ .setup →
    p.session.processor.capsuleId = k + 1
  /-- In the handshake nothing was read. -/
  early : p.session.next ≠ .closed → p.session.next ≠ .done → p.session.complete = false → k = 0
  /-- The last chunk closes the window. -/
  spent : p.session.next = .closed → p.txFactory.fin = true → p.session.processor.winSize = 0
  /-- The session completes with the end of the file only. -/
  completed : p.session.next = .connected → p.session.complete = true → p.txFactory.fin = true

namespace Draining

/-- At the start the end was not found: it takes a read. -/
theorem fin_of_zero (h : Draining bytes 0 p) : p.txFactory.fin = false :=
  Bool.eq_false_iff.2 fun hf => Nat.succ_ne_zero _ (h.draws.last hf).symm

/-- With the last chunk, the window ends. -/
theorem fin_of_winSize (h : Draining bytes k p) (hnext : p.session.next = .closed)
    (hwin : p.session.processor.winSize ≠ 0) : p.txFactory.fin = false :=
  Bool.eq_false_iff.2 fun hf => hwin (h.spent hnext hf)

/-- The number of the next capsule does not overflow. -/
theorem int32_capsuleId (h : Draining bytes k p) : int32 ((k + 1 : ℤ) + 1) = (k + 1 : ℕ) + 1 := by
  have hle : k ≤ 43704 := h.draws.le_max
  rw [int32_of_mem (by omega) (by omega)]
  push_cast
  ring

/-- A new record is not part of this. -/
theorem clear (h : Draining bytes k p) : Draining bytes k p.clear :=
  ⟨h.draws, h.opening, h.numbered, h.early, h.spent, h.completed⟩

/-- A data capsule holds the next chunk. -/
theorem sendData (h : Draining bytes k p) (hnext : p.session.next = .closed) (hio : p.io.sent = [])
    (hwin : p.session.processor.winSize ≠ 0) (hsend : env.sendto = true) {b : MemBuff}
    (hb : (loaded env p).txFactory.buffer.head? = some b) :
    Draining bytes (k + 1) (sentData bo env b p) ∧
      ∃ d, (sentData bo env b p).out = [d] ∧ IsChunk bo bytes k (k + 1) d := by
  obtain ⟨hdraws, hfin', hwin', d, hout, hd⟩ :=
    draws_sentData h.draws (h.fin_of_winSize hnext hwin) hio hwin hsend hb
  have hid := h.numbered (by simp [hnext]) (by simp [hnext])
  have hnext' : (sentData bo env b p).session.next = .closed := hnext
  have hid' : (sentData bo env b p).session.processor.capsuleId =
      int32 (p.session.processor.capsuleId + 1) := rfl
  refine ⟨⟨hdraws, ?_, ?_, fun hclosed => absurd hnext' hclosed, ?_, ?_⟩, d, hout, hid ▸ hd⟩
  · simp [hnext']
  · rw [hid', hid, h.int32_capsuleId]
    simp
  · intro _ hf
    rw [hfin'] at hf
    rw [hwin', if_pos (of_decide_eq_true hf)]
  · simp [hnext']

/-- What a step of the sender does. -/
theorem step (h : Draining bytes k p) (hdir : p.session.dir = .TX) (hreturned : p.returned = false)
    {c : Party} (htr : Transition bo env p.clear c) (hc : c.error = none) :
    (p.session.next = .closed ∧ Draining bytes (k + 1) c.state ∧
      ∃ d, c.state.out = [d] ∧ IsChunk bo bytes k (k + 1) d) ∨
    ((p.session.next = .closed → c.state.out = []) ∧ Draining bytes k c.state) := by
  -- What a capsule that is received leaves of the sender.
  have hreceived (d : List Byte) : (received bo env p.clear d).txFactory = p.txFactory :=
    txFactory_received bo env d
  cases htr with
  | sendData _ hnext hwin b hb _ hsend =>
    exact .inl ⟨hnext, h.clear.sendData hnext rfl hwin hsend hb⟩
  | receiveHello _ hnext d =>
    have hnext : p.session.next = .open := hnext
    obtain ⟨hid, hcomplete⟩ := h.opening (.inl hnext)
    refine .inr ⟨by simp [hnext], h.draws, fun _ => ⟨hid, hcomplete⟩, ?_, fun _ _ _ =>
      h.early (by simp [hnext]) (by simp [hnext]) hcomplete, ?_, ?_⟩
    all_goals simp [opened]
  | sendHi _ hnext =>
    have hnext : p.session.next = .setup := hnext
    obtain ⟨hid, hcomplete⟩ := h.opening (.inr hnext)
    obtain rfl := h.early (by simp [hnext]) (by simp [hnext]) hcomplete
    have hid' : (sentHi bo env p.clear).session.processor.capsuleId =
        int32 (p.session.processor.capsuleId + 1) := rfl
    have hcomplete' : (sentHi bo env p.clear).session.complete = false := hcomplete
    refine .inr ⟨by simp [hnext], h.draws.control _ _, ?_, fun _ _ => ?_, fun _ _ _ => rfl, ?_, ?_⟩
    · simp [sentHi]
    · rw [hid', hid]
      rfl
    · simp [sentHi]
    · simp [hcomplete']
  | receiveAck _ hnext d =>
    have hnext : p.session.next = .connected := hnext
    have hcomplete : p.session.complete = false := by
      simpa [Process.returned, hnext] using hreturned
    obtain rfl := h.early (by simp [hnext]) (by simp [hnext]) hcomplete
    have htx : (connected bo env d p.clear).txFactory = p.txFactory := hreceived d
    have hid := h.numbered (by simp [hnext]) (by simp [hnext])
    refine .inr ⟨by simp [hnext], htx ▸ h.draws, ?_, ?_, ?_, ?_, ?_⟩
    case refine_4 => simp [htx, h.fin_of_zero]
    all_goals simp [connected, hid]
  | windowOver hnext =>
    have hnext : p.session.next = .closed := hnext
    have hid := h.numbered (by simp [hnext]) (by simp [hnext])
    refine .inr ⟨fun _ => rfl, h.draws, ?_, ?_, ?_, ?_, ?_⟩
    all_goals simp [hid]
  | receiveOk _ hnext d =>
    have hnext : p.session.next = .done := hnext
    have htx : ((received bo env p.clear d).popRx.endWindow p.clear.txFactory.fin).txFactory =
        p.txFactory := hreceived d
    have hid := h.numbered (by simp [hnext]) (by simp [hnext])
    have hfin : p.clear.txFactory.fin = p.txFactory.fin := rfl
    refine .inr ⟨by simp [hnext], htx ▸ h.draws, ?_, ?_, ?_, ?_, ?_⟩
    all_goals
      rw [hfin] at *
      cases hf : p.txFactory.fin <;> simp_all
  | halt | danglingLast | noAddressOk | danglingWindow => simp at hc
  | sendHello hrx | receiveHi hrx | sendAck hrx | receiveNothing hrx | receiveData hrx
  | sendOk hrx =>
    have hrx : p.session.dir = .RX := hrx
    rw [hdir] at hrx
    contradiction

/-- A step does not fail where a reply is there, the calls succeed and an address is left. -/
theorem goes (h : Draining bytes k p) (hdir : p.session.dir = .TX) {c : Party}
    (htr : Transition bo env p.clear c) (hd : env.datagram ≠ none) (henv : env.Succeeds)
    (haddr : ¬p.interfaces.NoAddress) : c.error = none := by
  cases htr with
  | halt _ _ hblocked =>
    cases hblocked with
    | noDatagram hnone => exact absurd hnone hd
    | noName hname => exact absurd (henv.getnameinfo.symm.trans hname) (by decide)
    | notSent hsend => exact absurd (henv.sendto.symm.trans hsend) (by decide)
    | noAddress hno => exact absurd hno haddr
    | noChunk _ hnext hwin hnone =>
      -- A chunk was read, if need be an empty one.
      -- The chunk that is read first is the one that is sent next: the queue was empty.
      obtain ⟨b, hbuffer, -⟩ := h.draws.updateDataSource (h.fin_of_winSize hnext hwin) env.heap
      have hnone : (p.txFactory.updateDataSource env.heap).buffer = [] := hnone
      rw [hbuffer] at hnone
      contradiction
  | danglingLast hrx | noAddressOk hrx | danglingWindow hrx =>
    have hrx : p.session.dir = .RX := hrx
    rw [hdir] at hrx
    contradiction
  | _ => rfl

end Draining

/-! ## Runs -/

variable {d : DataSource}

/-- A new session has read nothing of its source. -/
theorem draining_init (hmode : d.fmode = .IN) (hshort : d.fs.readable.length < d.fileSize)
    (hsmall : d.fs.readable.length < MAX_CHUNKS * PAYLOAD) (statics : Statics)
    (addressList : List IpaddrDummy) (sink : DataSource) :
    Draining d.fs.readable 0 (.init .TX statics addressList d sink) where
  draws := draws_source hmode hshort hsmall
  opening := fun _ => ⟨rfl, rfl⟩
  numbered := fun h => absurd rfl h
  early := fun _ _ _ => rfl
  spent := fun h => by simp [Process.init] at h
  completed := fun h => by simp [Process.init] at h

/-- In every run, the data capsules hold the chunks of what can be read, in order. -/
theorem draining_run (hst : Steady p) (hdir : p.session.dir = .TX) (h : Draining bytes 0 p)
    (env : ℕ → Env) (n : ℕ) :
    (∀ i, ∀ hi : i < (dataSent bo p env n).length,
      IsChunk bo bytes i (i + 1) (dataSent bo p env n)[i]) ∧
    (dataSent bo p env n).length ≤ bytes.length / PAYLOAD + 1 ∧
    ((run bo p env n).error = none →
      Draining bytes (dataSent bo p env n).length (run bo p env n).state) := by
  induction n with
  | zero => exact ⟨fun i hi => by simp [dataSent] at hi, Nat.zero_le _, fun _ => h⟩
  | succ n ih =>
    by_cases halive : (run bo p env n).Alive Process.returned
    swap
    · have hstop : run bo p env (n + 1) = run bo p env n := if_neg halive
      rwa [dataSent_of_not_alive halive, hstop]
    obtain ⟨hst', hdir'⟩ := steady_run_of bo hst env n halive.1
    have hdir' := hdir'.trans hdir
    have htr := transition_exec bo (env n) hst'
    rw [← run_succ bo halive] at htr
    by_cases hc : (run bo p env (n + 1)).error = none
    swap
    · simp only [dataSent, out_of_error hdir' htr hc, ite_self, List.append_nil]
      exact ⟨ih.1, ih.2.1, fun h => absurd h hc⟩
    rcases (ih.2.2 halive.1).step hdir' halive.2 htr hc with
      ⟨hnext, hdraining, d, hout, hd⟩ | ⟨hout, hdraining⟩
    · simp only [dataSent, halive, hnext, and_self, if_true, hout]
      refine ⟨fun i hi => ?_, by simpa using hdraining.draws.le, fun _ => by simpa using hdraining⟩
      rw [List.length_append, List.length_singleton] at hi
      rcases Nat.lt_or_ge i (dataSent bo p env n).length with hlt | hge
      · rw [List.getElem_append_left hlt]
        exact ih.1 i hlt
      · obtain rfl : i = (dataSent bo p env n).length := by omega
        simpa using hd
    · have hnone : (if (run bo p env n).Alive Process.returned ∧
          (run bo p env n).state.session.next = .closed
          then (run bo p env (n + 1)).state.out else []) = [] := by
        split
        exacts [hout (by simp_all), rfl]
      rw [dataSent, hnone, List.append_nil]
      exact ⟨ih.1, ih.2.1, fun _ => hdraining⟩

/-- The chunks up to the last one are all the bytes. -/
theorem flatMap_drop_header {ds : List (List Byte)}
    (h : ∀ i, ∀ hi : i < ds.length, IsChunk bo bytes i (i + 1) ds[i])
    (hlen : ds.length = bytes.length / PAYLOAD + 1) :
    ds.flatMap (·.drop HEADER_SPACE) = bytes := by
  have hmap : ds.map (·.drop HEADER_SPACE) = (List.range ds.length).map (chunk PAYLOAD bytes) := by
    refine List.ext_getElem (by simp) fun i hi hi' => ?_
    rw [List.length_map] at hi
    simp [(h i hi).payload]
  -- The chunks, with the short one, reach past the last byte.
  have hall : bytes.length ≤ (bytes.length / PAYLOAD + 1) * PAYLOAD :=
    (Nat.lt_mul_of_div_lt (Nat.lt_succ_self _) (by decide)).le
  rw [List.flatMap_def, hmap, ← List.flatMap_def, hlen, flatMap_chunk, List.take_of_length_le hall]

/-- If less can be read of its source than its size: whatever a sender gets, its data capsules hold
    the chunks of what can be read, in order, and only the first short one carries the end flag,
    though it may be empty. When the session returns, all of them were sent; and no step fails
    where a reply is there, the calls succeed and an address is left. -/
theorem sends_readable (hmode : d.fmode = .IN) (hshort : d.fs.readable.length < d.fileSize)
    (hsmall : d.fs.readable.length < MAX_CHUNKS * PAYLOAD) (statics : Statics)
    (addressList : List IpaddrDummy) (sink : DataSource) (env : ℕ → Env) (n : ℕ) :
    let c := run bo (.init .TX statics addressList d sink) env n
    let ds := dataSent bo (.init .TX statics addressList d sink) env n
    (∀ i, ∀ hi : i < ds.length, IsChunk bo d.fs.readable i (i + 1) ds[i]) ∧
    ds.length ≤ d.fs.readable.length / PAYLOAD + 1 ∧
    (c.error = none → c.state.returned = true → ds.flatMap (·.drop HEADER_SPACE) = d.fs.readable) ∧
    (c.Alive Process.returned → (env n).datagram ≠ none → (env n).Succeeds →
      ¬c.state.interfaces.NoAddress →
      (run bo (.init .TX statics addressList d sink) env (n + 1)).error = none) := by
  intro c ds
  have hst := steady_init .TX statics addressList d sink
  have hinit := draining_init hmode hshort hsmall statics addressList sink
  obtain ⟨hds, hlen, hdraining⟩ := @draining_run bo _ _ hst rfl hinit env n
  refine ⟨hds, hlen, fun hc hreturned => ?_, fun halive hd henv haddr => ?_⟩
  · -- The end flag was sent.
    rw [Process.returned, Bool.and_eq_true] at hreturned
    have hfin := (hdraining hc).completed (of_decide_eq_true hreturned.1) hreturned.2
    exact flatMap_drop_header hds ((hdraining hc).draws.last hfin)
  · obtain ⟨-, hdir⟩ := steady_run_of bo hst env n halive.1
    have htr := transition_run bo .TX statics addressList d sink env n halive
    exact (hdraining halive.1).goes hdir htr hd henv haddr

/-- The sender of a file of one byte that could not be opened. -/
def unopenedTx : Process :=
  .init .TX {} [] { fmode := .IN, fileSize := 1, fs := { failed := true } }
    { fmode := .OUT, fs := {} }

/-- It sends one capsule without a payload, and returns. -/
theorem sends_unopened :
    (run .little unopenedTx (fun _ => announcing 5) 6).state.returned = true ∧
      (dataSent .little unopenedTx (fun _ => announcing 5) 6).length = 1 ∧
      (dataSent .little unopenedTx (fun _ => announcing 5) 6).flatMap (·.drop HEADER_SPACE) =
        [] := by
  have hc : (run .little unopenedTx (fun _ => announcing 5) 6).error = none := by decide +kernel
  have hreturned : (run .little unopenedTx (fun _ => announcing 5) 6).state.returned = true := by
    decide +kernel
  refine ⟨hreturned, by decide +kernel, ?_⟩
  exact (sends_readable rfl (by decide) (by decide) {} [] { fmode := .OUT, fs := {} }
    (fun _ => announcing 5) 6).2.2.1 hc hreturned

end Session

end Udm
