import Udm.Gateway.Wire
import Udm.Session.Acknowledgement
import Udm.Session.Window
import Udm.Source

/-!
# The steps of the sender

What exactly a step of the sender leads to, in each of its states (`exec_receiveHello` and those
that follow it). The datagram of a data capsule is its header, followed by the chunk of the file
that was read for it (`IsData`).

While it sends, the sender is at a chunk of its file (`Sending`): the file is read up to there, and
the next number is the one of the chunk. A step sends the next chunk, or none (`Sending.step`), so
what a run has sent are the chunks of the file in their order (`sending_run`).

Three counters go together here, and the invariant says how:

* the read position of the stream, which is past `k` chunks (`Reads`);
* `capsuleId`, which counts the capsules of the session. The addresses took the number `0`, so the
  chunk `k` has the number `k + 1`, and the receiver can tell from it where the chunk belongs;
* the window, which ends with the last chunk: as soon as the source has ended, `submitTask` puts FIN
  into the capsule and sets the window to zero, so that nothing is read past the end.

What the peer answers only matters in two places, the addresses and the window of the handshake. No
other datagram has an influence on what is sent next, so all of this holds whatever is received.
-/

namespace Udm

/-- The datagram of a data capsule: the chunk `k` of the file, with the number
    `capsuleId`. -/
structure IsData (bo : ByteOrder) (f : File) (k : ℕ) (capsuleId : ℤ) (d : List Byte) : Prop where
  /-- It has the type of a payload. -/
  capsule : IsCapsule bo d
  /-- Its id is the number, cut to 16 bits. -/
  capid_eq : capid bo d = BitVec.ofInt 16 capsuleId
  /-- FIN is set if the file ends with the chunk. -/
  isFin_eq : isFin bo d = decide (f.EndsIn k)
  /-- The size is the length of the chunk, without the header. -/
  capSize_eq : (CapsuleHdr.decode bo (d.take HEADER_SPACE)).capSize.toNat = (f.chunk k).length
  /-- Behind the header there is the chunk, and nothing else. -/
  payload : d.drop HEADER_SPACE = f.chunk k

variable {bo : ByteOrder} {env : Env} {p : Process}

/-- The header of a datagram that starts with one. -/
theorem decode_take_encode (h : CapsuleHdr) (bs : List Byte) :
    CapsuleHdr.decode bo ((h.encode bo ++ bs).take HEADER_SPACE) = h := by
  rw [List.take_left' (h.length_encode bo), CapsuleHdr.decode_encode]

namespace Session

/-- The addresses that are kept of those the peer advertises. -/
theorem interfaces_connected (d : List Byte) :
    (connected bo env d p).interfaces = { p.interfaces with
      peer_addressList := some (SessionProcessor.peerScan env (Gateway.pulled bo env p d)).list
      peer_addressCount := (SessionProcessor.peerScan env (Gateway.pulled bo env p d)).count } := by
  simp [connected, SessionProcessor.receiveAddresses]

/-- They do not depend on the process, but for its chunk size. -/
theorem peerScan_congr {q : Process} (h : q.rxFactory.chunkSize = p.rxFactory.chunkSize)
    (d : List Byte) : SessionProcessor.peerScan env (Gateway.pulled bo env q d) =
      SessionProcessor.peerScan env (Gateway.pulled bo env p d) := by
  rw [SessionProcessor.peerScan, SessionProcessor.peerScan, Gateway.data_pulled_congr bo env h]

/-! ## The steps -/

section Exec

variable (hst : Steady p) (hdir : p.session.dir = .TX)
include hst hdir

/-- The hello is taken, if its sender has a name. -/
theorem exec_receiveHello (hnext : p.session.next = .open) {d : List Byte}
    (hd : env.datagram = some d) (hname : env.getnameinfo = true) :
    Conf.exec (step bo) env p = { state := opened bo env d p.clear } := by
  refine Conf.exec_of_wp (C := fun c => c = _) ?_
  have hb : p.clear.rxFactory.buffer = [] := hst.queue_tx hdir
  rw [wp_step, hnext, hdir]
  exact (wp_openState_tx bo env hd hname hb).2 rfl

/-- The addresses of the receiver are taken, and the window it announces. -/
theorem exec_receiveAck (hnext : p.session.next = .connected) {d : List Byte}
    (hd : env.datagram = some d) :
    Conf.exec (step bo) env p = { state := connected bo env d p.clear } := by
  refine Conf.exec_of_wp (C := fun c => c = _) ?_
  have hb : p.clear.rxFactory.buffer = [] := hst.queue_tx hdir
  rw [wp_step, hnext, hdir]
  exact (wp_connectedState_tx bo env hd hb).2 rfl

omit hst in
/-- The addresses are sent, if there is one to send them to. -/
theorem exec_sendHi (hnext : p.session.next = .setup) (haddr : ¬p.interfaces.NoAddress)
    (hsend : env.sendto = true) :
    Conf.exec (step bo) env p = { state := sentHi bo env p.clear } := by
  refine Conf.exec_of_wp (C := fun c => c = _) ?_
  have haddr' : ¬p.clear.interfaces.NoAddress := haddr
  rw [wp_step, hnext, hdir]
  show wp (setupState bo env .TX) _ _ _
  rw [wp_setupState_tx, if_neg haddr', if_pos hsend]

omit hst in
/-- The next chunk is sent, if there is one. -/
theorem exec_sendData (hnext : p.session.next = .closed) (hwin : p.session.processor.winSize ≠ 0)
    {b : MemBuff} (hb : (loaded env p.clear).txFactory.buffer.head? = some b)
    (haddr : ¬p.interfaces.NoAddress) (hsend : env.sendto = true) :
    Conf.exec (step bo) env p = { state := sentData bo env b p.clear } := by
  refine Conf.exec_of_wp (C := fun c => c = _) ?_
  have haddr' : ¬p.clear.interfaces.NoAddress := haddr
  have hwin' : p.clear.session.processor.winSize ≠ 0 := hwin
  rw [wp_step, hnext, hdir]
  show wp (closedState bo env .TX) _ _ _
  rw [wp_closedState, if_neg hwin', wp_submitTask_tx bo env hb]
  dsimp only
  rw [if_neg haddr', if_pos hsend]
  rfl

omit hst in
/-- With nothing to send, `fetchChunk` exits. -/
theorem exec_exhausted (hnext : p.session.next = .closed) (hwin : p.session.processor.winSize ≠ 0)
    (hb : (loaded env p.clear).txFactory.buffer = []) :
    Conf.exec (step bo) env p = { state := loaded env p.clear, error := some .exit } := by
  refine Conf.exec_of_wp (C := fun c => c = _) ?_
  have hwin' : p.clear.session.processor.winSize ≠ 0 := hwin
  rw [wp_step, hnext, hdir]
  show wp (closedState bo env .TX) _ _ _
  rw [wp_closedState, if_neg hwin', wp_submitTask_tx_nil bo env hb]

omit hst in
/-- The name of the sender of the hello is looked up. -/
theorem getnameinfo_of_exec (hnext : p.session.next = .open)
    (hc : (Conf.exec (step bo) env p).error = none) : env.getnameinfo = true := by
  cases hname : env.getnameinfo with
  | true => rfl
  | false =>
    have : (Conf.exec (step bo) env p).error = some Halt.exit := by
      refine Conf.exec_of_wp (C := fun c => c.error = some Halt.exit) ?_
      rw [wp_step, hnext, hdir]
      exact (wp_openState_tx_fail bo env (.inr hname)).2 rfl
    rw [this] at hc
    contradiction

omit hst in
/-- The addresses of the sender are sent. -/
theorem sends_of_exec (hnext : p.session.next = .setup)
    (hc : (Conf.exec (step bo) env p).error = none) :
    ¬p.interfaces.NoAddress ∧ env.sendto = true := by
  have key : (Conf.exec (step bo) env p).error = none →
      ¬p.clear.interfaces.NoAddress ∧ env.sendto = true := by
    refine Conf.exec_of_wp (C := fun c => c.error = none → _) ?_
    rw [wp_step, hnext, hdir]
    show wp (setupState bo env .TX) _ _ _
    rw [wp_setupState_tx]
    split_ifs with haddr hsend
    exacts [by simp, fun _ => ⟨haddr, hsend⟩, by simp]
  exact key hc

omit hst in
/-- A data capsule is sent. -/
theorem sendsData_of_exec (hnext : p.session.next = .closed)
    (hwin : p.session.processor.winSize ≠ 0) (hc : (Conf.exec (step bo) env p).error = none) :
    (∃ b, (loaded env p.clear).txFactory.buffer.head? = some b) ∧ ¬p.interfaces.NoAddress ∧
      env.sendto = true := by
  have key : (Conf.exec (step bo) env p).error = none →
      (∃ b, (loaded env p.clear).txFactory.buffer.head? = some b) ∧
        ¬p.clear.interfaces.NoAddress ∧ env.sendto = true := by
    have hwin' : p.clear.session.processor.winSize ≠ 0 := hwin
    refine Conf.exec_of_wp (C := fun c => c.error = none → _) ?_
    rw [wp_step, hnext, hdir]
    show wp (closedState bo env .TX) _ _ _
    rw [wp_closedState, if_neg hwin']
    rcases hb : (loaded env p.clear).txFactory.buffer with - | ⟨b, bs⟩
    · rw [wp_submitTask_tx_nil bo env hb]
      simp
    · rw [wp_submitTask_tx bo env (by rw [hb]; rfl)]
      dsimp only
      split_ifs with haddr hsend
      exacts [by simp, fun _ => ⟨⟨b, rfl⟩, haddr, hsend⟩, by simp]
  exact key hc

end Exec

/-! ## Data capsules -/

/-- The datagram of a data capsule whose chunk has the bytes `payload`. -/
theorem wire_dataCapsule {b : MemBuff} {payload : List Byte}
    (hsize : b.data.header.capSize.toNat = payload.length)
    (hbody : b.data.body.load HEADER_SPACE payload.length = payload) :
    (dataCapsule bo p b).wire bo = (dataCapsule bo p b).header.encode bo ++ payload := by
  refine Gateway.wire_of_load bo ?_
  have hcap : (dataCapsule bo p b).header.capSize = b.data.header.capSize := by
    rw [dataCapsule]
    cases isLast p <;> rfl
  have hload (n : ℕ) : (dataCapsule bo p b).body.load HEADER_SPACE n =
      b.data.body.load HEADER_SPACE n := by
    rw [dataCapsule]
    cases isLast p <;> exact Capsule.load_copyHeader bo _ n
  rw [hcap, hsize, hload, hbody]

/-- One datagram is sent, made of the buffer and the header that the session puts before it. -/
theorem out_sentData (hio : p.io.sent = []) (hsend : env.sendto = true) (b : MemBuff) :
    (sentData bo env b p).out = [(dataCapsule bo (loaded env p).popTx b).wire bo] := by
  simp [Process.out, sentData, hsend, hio]

/-- Counted, this is one datagram. -/
theorem length_out_sentData (hio : p.io.sent = []) (hsend : env.sendto = true) (b : MemBuff) :
    (sentData bo env b p).out.length = 1 := by
  rw [out_sentData hio hsend, List.length_singleton]

/-- The window after a data capsule. -/
theorem winSize_sentData {b : MemBuff} (hwin : p.session.processor.winSize ≠ 0) :
    (sentData bo env b p).session.processor.winSize =
      if isLast (loaded env p).popTx then 0 else p.session.processor.winSize - 1 := by
  rw [sentData, Process.countDown_session_processor_winSize]
  cases hl : isLast (loaded env p).popTx with
  | true => simp [hl]
  | false =>
    -- Counted down from a window that is not zero.
    have hgo (h : p.session.processor.winSize = 0#16) :
        0#16 = p.session.processor.winSize - 1#16 := absurd h hwin
    simpa [hl] using hgo

/-- A sender that has sent `k` chunks sends the next one. -/
theorem reads_sentData {f : File} {k : ℕ} (h : Reads f k p.txFactory)
    (hfin : p.txFactory.fin = false) (hio : p.io.sent = [])
    (hwin : p.session.processor.winSize ≠ 0) (hsend : env.sendto = true) {b : MemBuff}
    (hb : (loaded env p).txFactory.buffer.head? = some b) :
    ¬f.Exhausted k ∧ Reads f (k + 1) (sentData bo env b p).txFactory ∧
      (sentData bo env b p).txFactory.fin = decide (f.EndsIn k) ∧
      (sentData bo env b p).session.processor.winSize =
        (if f.EndsIn k then 0 else p.session.processor.winSize - 1) ∧
      ∃ d, (sentData bo env b p).out = [d] ∧ IsData bo f k p.session.processor.capsuleId d := by
  -- Something was read, so the file does not end here.
  have hex : ¬f.Exhausted k := by
    intro hex
    have hempty : (loaded env p).txFactory.buffer = [] := h.buffer_of_exhausted hfin hex env.heap
    rw [hempty] at hb
    simp at hb
  obtain ⟨b', hbuffer, hheader, hbody, hfin', hreads⟩ := h.updateDataSource hfin hex env.heap
  -- The queue was empty, so the buffer with the new chunk is the one that is sent.
  obtain rfl : b' = b := by
    have hb : (p.txFactory.updateDataSource env.heap).buffer.head? = some b := hb
    rw [hbuffer] at hb
    exact Option.some.inj hb
  -- After it, the queue is empty again, so the capsule gets FIN if the source has ended.
  have hlast : isLast (loaded env p).popTx = decide (f.EndsIn k) := by
    have hempty : (loaded env p).popTx.txFactory.buffer = [] := by
      show (p.txFactory.updateDataSource env.heap).buffer.tail = []
      rw [hbuffer]
      rfl
    rw [isLast, hempty, List.isEmpty_nil, Bool.and_true]
    exact hfin'
  have hsize : b'.data.header.capSize.toNat = (f.chunk k).length := by
    have hle := Reads.length_chunk_le f k
    rw [hheader, BitVec.toNat_ofNat, Nat.mod_eq_of_lt (lt_of_le_of_lt hle (by decide))]
  refine ⟨hex, hreads, hfin', ?_, _, out_sentData hio hsend b', ?_⟩
  · rw [winSize_sentData hwin, hlast]
    simp
  rw [wire_dataCapsule hsize hbody]
  set cap := dataCapsule bo (loaded env p).popTx b' with hcap
  -- The flag is set by the presentation processor, and the session leaves it as it is.
  have hflags : cap.header.isFin = decide (f.EndsIn k) := by
    have hcapFlags : cap.header.capFlags = if f.EndsIn k then Flags.FIN.code else 0 := by
      rw [hcap, dataCapsule, hlast]
      by_cases hend : f.EndsIn k
      · rw [decide_eq_true hend, if_pos rfl, if_pos hend]
        rfl
      · rw [decide_eq_false hend, if_neg (by simp), if_neg hend]
        show b'.data.header.capFlags = 0
        rw [hheader]
    rw [CapsuleHdr.isFin, hcapFlags]
    have hone : Flags.FIN.code ≠ 0#8 := by decide
    by_cases hend : f.EndsIn k <;> simp [hend, hone]
  refine ⟨⟨by simp, ?_⟩, ?_, ?_, ?_, ?_⟩
  · have htype : cap.header.capType = CapsuleType.PAYLD.code := by
      rw [hcap, dataCapsule]
      rfl
    rw [decode_take_encode, CapsuleHdr.isPayld, htype]
    decide
  · rw [capid, decode_take_encode]
    rfl
  · rw [isFin, decode_take_encode, hflags]
  · have hcapSize : cap.header.capSize = b'.data.header.capSize := by
      rw [hcap, dataCapsule]
      cases isLast (loaded env p).popTx <;> rfl
    rw [decode_take_encode, hcapSize, hsize]
  · rw [List.drop_left' (CapsuleHdr.length_encode bo _)]

/-! ## How far the sender is -/

/-- A sender that has sent `k` chunks of its file. -/
structure Sending (f : File) (k : ℕ) (p : Process) : Prop where
  /-- The file was read up to the chunk `k`. -/
  reads : Reads f k p.txFactory
  /-- Before the addresses are sent, no capsule is numbered. -/
  opening : p.session.next = .open ∨ p.session.next = .setup →
    p.session.processor.capsuleId = 0 ∧ p.session.complete = false
  /-- The next number is the one of the chunk `k`. -/
  numbered : p.session.next ≠ .open → p.session.next ≠ .setup →
    p.session.processor.capsuleId = k + 1
  /-- No chunk is sent in the handshake. -/
  early : p.session.next ≠ .closed → p.session.next ≠ .done → p.session.complete = false → k = 0
  /-- After the end of the file, the window is used up. -/
  spent : p.session.next = .closed → p.txFactory.fin = true → p.session.processor.winSize = 0
  /-- The session only completes after the end of the file. -/
  completed : p.session.next = .connected → p.session.complete = true → p.txFactory.fin = true

/-- A new session has sent nothing. -/
theorem sending_init {f : File} (statics : Statics) (addressList : List IpaddrDummy)
    (sink : DataSource) : Sending f 0 (.init .TX statics addressList f.source sink) where
  reads := reads_source f
  opening := fun _ => ⟨rfl, rfl⟩
  numbered := fun h => absurd rfl h
  early := fun _ _ _ => rfl
  spent := fun h => by simp [Process.init] at h
  completed := fun h => by simp [Process.init] at h

namespace Sending

variable {f : File} {k : ℕ}

/-- Before the first chunk, the source has not ended. -/
theorem fin_of_zero (h : Sending f 0 p) : p.txFactory.fin = false := by
  refine Bool.eq_false_iff.2 fun hf => ?_
  -- The source ends with a chunk that was read, and none was.
  obtain ⟨k, hk, -⟩ := h.reads.last hf
  omega

/-- With the end of the file, the window ends. -/
theorem fin_of_winSize (h : Sending f k p) (hnext : p.session.next = .closed)
    (hwin : p.session.processor.winSize ≠ 0) : p.txFactory.fin = false :=
  Bool.eq_false_iff.2 fun hf => hwin (h.spent hnext hf)

/-- The number of the next data capsule does not wrap. -/
theorem int32_capsuleId (h : Sending f k p) : int32 ((k + 1 : ℤ) + 1) = (k + 1 : ℕ) + 1 := by
  have hle : k ≤ 43704 := h.reads.le
  rw [int32_of_mem (by omega) (by omega)]
  push_cast
  ring

/-- Starting a new record changes nothing. -/
theorem clear (h : Sending f k p) : Sending f k p.clear :=
  ⟨h.reads, h.opening, h.numbered, h.early, h.spent, h.completed⟩

/-- A data capsule holds the next chunk. -/
theorem sendData (h : Sending f k p) (hnext : p.session.next = .closed) (hio : p.io.sent = [])
    (hwin : p.session.processor.winSize ≠ 0) (hsend : env.sendto = true) {b : MemBuff}
    (hb : (loaded env p).txFactory.buffer.head? = some b) :
    Sending f (k + 1) (sentData bo env b p) ∧
      ∃ d, (sentData bo env b p).out = [d] ∧ IsData bo f k (k + 1) d := by
  have hfin := h.fin_of_winSize hnext hwin
  obtain ⟨-, hreads, hfin', hwin', d, hout, hd⟩ :=
    @reads_sentData bo _ _ _ _ h.reads hfin hio hwin hsend _ hb
  have hid := h.numbered (by simp [hnext]) (by simp [hnext])
  have hnext' : (sentData bo env b p).session.next = .closed := hnext
  have hid' : (sentData bo env b p).session.processor.capsuleId =
      int32 (p.session.processor.capsuleId + 1) := rfl
  refine ⟨⟨hreads, ?_, ?_, fun hclosed => absurd hnext' hclosed, ?_, ?_⟩, d, hout, hid ▸ hd⟩
  · simp [hnext']
  · rw [hid', hid, h.int32_capsuleId]
    simp
  · intro _ hf
    rw [hfin'] at hf
    rw [hwin', if_pos (of_decide_eq_true hf)]
  · simp [hnext']

/-- What a step of the sender does. -/
theorem step (h : Sending f k p) (hdir : p.session.dir = .TX) (hreturned : p.returned = false)
    {c : Party} (htr : Transition bo env p.clear c) (hc : c.error = none) :
    (p.session.next = .closed ∧ p.session.processor.winSize ≠ 0 ∧ Sending f (k + 1) c.state ∧
      ∃ d, c.state.out = [d] ∧ IsData bo f k (k + 1) d) ∨
    ((p.session.next = .closed → c.state.out = []) ∧ Sending f k c.state) := by
  cases htr with
  | sendData _ hnext hwin b hb _ hsend =>
    exact .inl ⟨hnext, hwin, h.clear.sendData hnext rfl hwin hsend hb⟩
  -- The handshake: nothing is read, and no data capsule is sent.
  | receiveHello _ hnext d =>
    have hnext : p.session.next = .open := hnext
    obtain ⟨hid, hcomplete⟩ := h.opening (.inl hnext)
    refine .inr ⟨by simp [hnext], h.reads, fun _ => ⟨hid, hcomplete⟩, ?_, ?_, ?_, ?_⟩
    · simp [opened]
    · exact fun _ _ _ => h.early (by simp [hnext]) (by simp [hnext]) hcomplete
    · simp [opened]
    · simp [opened]
  | sendHi _ hnext =>
    have hnext : p.session.next = .setup := hnext
    obtain ⟨hid, hcomplete⟩ := h.opening (.inr hnext)
    obtain rfl := h.early (by simp [hnext]) (by simp [hnext]) hcomplete
    have hid' : (sentHi bo env p.clear).session.processor.capsuleId =
        int32 (p.session.processor.capsuleId + 1) := rfl
    have hcomplete' : (sentHi bo env p.clear).session.complete = false := hcomplete
    refine .inr ⟨by simp [hnext], h.reads.control _ _, ?_, ?_, fun _ _ _ => rfl, ?_, ?_⟩
    · simp [sentHi]
    · intro _ _
      rw [hid', hid]
      rfl
    · simp [sentHi]
    · simp [hcomplete']
  | receiveAck _ hnext d =>
    have hnext : p.session.next = .connected := hnext
    have hcomplete : p.session.complete = false := by
      simpa [Process.returned, hnext] using hreturned
    obtain rfl := h.early (by simp [hnext]) (by simp [hnext]) hcomplete
    have htx : (connected bo env d p.clear).txFactory = p.txFactory :=
      txFactory_received bo env d
    have hid : (connected bo env d p.clear).session.processor.capsuleId =
        p.session.processor.capsuleId := by simp [connected]
    refine .inr ⟨by simp [hnext], htx ▸ h.reads, ?_, ?_, ?_, ?_, ?_⟩
    · simp [connected]
    · intro _ _
      rw [hid]
      exact h.numbered (by simp [hnext]) (by simp [hnext])
    · simp [connected]
    · rw [htx, h.fin_of_zero]
      simp
    · simp [connected]
  -- Between two windows: the counters stay as they are.
  | windowOver hnext =>
    have hnext : p.session.next = .closed := hnext
    refine .inr ⟨fun _ => rfl, h.reads, ?_, ?_, ?_, ?_, ?_⟩
    · simp
    · exact fun _ _ => h.numbered (by simp [hnext]) (by simp [hnext])
    all_goals simp
  | receiveOk _ hnext d =>
    have hnext : p.session.next = .done := hnext
    have htx : ((received bo env p.clear d).popRx.endWindow p.clear.txFactory.fin).txFactory =
        p.txFactory := txFactory_received bo env d
    have hid : ((received bo env p.clear d).popRx.endWindow
        p.clear.txFactory.fin).session.processor.capsuleId = p.session.processor.capsuleId := by simp
    refine .inr ⟨by simp [hnext], htx ▸ h.reads, ?_, ?_, ?_, ?_, ?_⟩
    · cases hf : p.clear.txFactory.fin <;> simp
    · intro _ _
      rw [hid]
      exact h.numbered (by simp [hnext]) (by simp [hnext])
    · simp
    · rw [htx]
      intro hclosed hf
      simp [hf] at hclosed
    · rw [htx]
      intro hconn _
      by_contra hf
      simp [hf] at hconn
  | halt | danglingLast | noAddressOk | danglingWindow => simp at hc
  | sendHello hrx | receiveHi hrx | sendAck hrx | receiveNothing hrx | receiveData hrx | sendOk hrx =>
    have hrx : p.session.dir = .RX := hrx
    rw [hdir] at hrx
    contradiction

end Sending

/-- A sender that fails sends nothing. -/
theorem out_of_error (hdir : p.session.dir = .TX) {c : Party}
    (htr : Transition bo env p.clear c) (hc : c.error ≠ none) : c.state.out = [] := by
  cases htr with
  | halt _ _ _ _ hio =>
    rw [Process.out, hio]
    rfl
  | danglingLast hrx | noAddressOk hrx | danglingWindow hrx =>
    have hrx : p.session.dir = .RX := hrx
    rw [hdir] at hrx
    contradiction
  | _ => exact absurd rfl hc

/-! ## Runs of the sender -/

variable (bo)

/-- The data capsules a sender has sent in a run, one after the other. -/
def dataSent (p : Process) (env : ℕ → Env) : ℕ → List (List Byte)
  | 0 => []
  | n + 1 => dataSent p env n ++
      if (run bo p env n).Alive Process.returned ∧ (run bo p env n).state.session.next = .closed
      then (run bo p env (n + 1)).state.out else []

variable {bo}

/-- The data capsules `ds` hold the first chunks of the file, in order. -/
def SentChunks (bo : ByteOrder) (f : File) (ds : List (List Byte)) : Prop :=
  ∀ i, ∀ h : i < ds.length, IsData bo f i (i + 1) ds[i]

/-- One more data capsule, which holds the chunk that comes next. -/
theorem SentChunks.append {f : File} {ds : List (List Byte)} (h : SentChunks bo f ds)
    {d : List Byte} (hd : IsData bo f ds.length (ds.length + 1) d) : SentChunks bo f (ds ++ [d]) := by
  intro i hi
  rcases Nat.lt_or_ge i ds.length with hlt | hge
  · rw [List.getElem_append_left hlt]
    exact h i hlt
  · obtain rfl : i = ds.length := by
      rw [List.length_append, List.length_singleton] at hi
      omega
    simpa using hd

/-- After the end of a run, nothing is sent. -/
theorem dataSent_of_not_alive {env : ℕ → Env} {n : ℕ}
    (h : ¬(run bo p env n).Alive Process.returned) :
    dataSent bo p env (n + 1) = dataSent bo p env n := by simp [dataSent, h]

/-- In every run of the sender, the data capsules hold the chunks of the file in
    order, and are numbered from one. -/
theorem sending_run {f : File} (hst : Steady p) (hdir : p.session.dir = .TX) (h : Sending f 0 p)
    (env : ℕ → Env) (n : ℕ) :
    SentChunks bo f (dataSent bo p env n) ∧
      ((run bo p env n).error = none →
        Sending f (dataSent bo p env n).length (run bo p env n).state) := by
  induction n with
  | zero => exact ⟨fun i hi => by simp [dataSent] at hi, fun _ => h⟩
  | succ n ih =>
    by_cases halive : (run bo p env n).Alive Process.returned
    swap
    · -- The run is over.
      have hstop : run bo p env (n + 1) = run bo p env n := if_neg halive
      rwa [dataSent_of_not_alive halive, hstop]
    obtain ⟨hst', hdir'⟩ := steady_run_of bo hst env n halive.1
    have hdir' := hdir'.trans hdir
    have htr := transition_exec bo (env n) hst'
    rw [← run_succ bo halive] at htr
    by_cases hc : (run bo p env (n + 1)).error = none
    swap
    · simp only [dataSent, out_of_error hdir' htr hc, ite_self, List.append_nil]
      exact ⟨ih.1, fun h => absurd h hc⟩
    rcases (ih.2 halive.1).step hdir' halive.2 htr hc with
      ⟨hnext, -, hsending, d, hout, hd⟩ | ⟨hout, hsending⟩
    · simp only [dataSent, halive, hnext, and_self, if_true, hout]
      refine ⟨ih.1.append hd, fun _ => ?_⟩
      rwa [List.length_append, List.length_singleton]
    · have hnone : (if (run bo p env n).Alive Process.returned ∧
          (run bo p env n).state.session.next = .closed
          then (run bo p env (n + 1)).state.out else []) = [] := by
        split
        exacts [hout (by simp_all), rfl]
      rw [dataSent, hnone, List.append_nil]
      exact ⟨ih.1, fun _ => hsending⟩

end Session

end Udm
