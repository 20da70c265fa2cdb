import Udm.Session.Addresses
import Udm.Session.Sender

/-!
# Flow control

How many data capsules the sender sends before it takes the next acknowledgement. The
first window has the size that the peer announces in its answer to the addresses. A
later window has the size `WIN_SIZ`, whatever the peer announces when it acknowledges
the window before. So the sender sends no more than was announced in the runs in which
every acknowledgement announces as much as `WIN_SIZ`, or as what is left of the file
needs (`flow_le`).

The size announced and the number of capsules sent since are recorded along the run
(`Flow`), outside of the program, which does not keep the former. The invariant
`Flow.Within` connects the two with what the program does keep: what is left of its window,
`winSize`, was announced, or what is left of the file was. A window that was not announced
breaks it at the step that opens the window, and not only at the capsule that is too many.
-/

namespace Udm

namespace Session

variable (bo : ByteOrder)

/-- The window size announced last, and the number of data capsules sent since. -/
structure Flow where
  /-- What the last acknowledgement said, before the first one nothing. -/
  announced : ℕ := 0
  /-- The capsules of this window. -/
  sent : ℕ := 0

/-- The flow after a step of the sender from `p` to `c`. The peer announces a window
    size in what is taken for the end of the handshake, or for an acknowledgement; in
    the state `closed` only data capsules are sent. -/
def Flow.step (env : Env) (p : Process) (c : Party) (w : Flow) : Flow :=
  match p.session.next, env.datagram with
  | .connected, some d | .done, some d =>
    { announced := (consumed bo p env d).capWinSiz.toNat }
  | .closed, _ => { w with sent := w.sent + c.state.out.length }
  | _, _ => w

/-- The flow along a run of the sender. -/
def flow (p : Process) (env : ℕ → Env) : ℕ → Flow
  | 0 => {}
  | n + 1 =>
    if (run bo p env n).Alive Process.returned
    then (flow p env n).step bo (env n) (run bo p env n).state (run bo p env (n + 1))
    else flow p env n

/-- A window of `w` capsules is as large as `WIN_SIZ`, or has room for what is left of
    the file `f`. -/
def Suffices (f : File) (p : Process) (w : ℕ) : Prop :=
  WIN_SIZ ≤ w ∨ f.bytes.length ≤ p.txFactory.sourceData.fs.pos + w * PAYLOAD

/-- What holds between two steps of the sender: what it may still send in this window
    has been announced. -/
structure Flow.Within (f : File) (p : Process) (w : Flow) : Prop where
  /-- Where the sender is in its file. -/
  reads : ∃ k, Reads f k p.txFactory
  /-- What was sent was announced. -/
  le : w.sent ≤ w.announced
  /-- Before the first window, the end of the file was not found. -/
  handshake : p.session.next ≠ .closed → p.session.next ≠ .done → p.session.complete = false →
    p.txFactory.fin = false
  /-- The end of the file closes the window. -/
  spent : p.session.next = .closed → p.txFactory.fin = true → p.session.processor.winSize = 0
  /-- What is left of the window was announced, or what is left of the file. -/
  room : p.session.next = .closed → p.txFactory.fin = false →
    w.sent + p.session.processor.winSize.toNat ≤ w.announced ∨
      f.bytes.length ≤ p.txFactory.sourceData.fs.pos + (w.announced - w.sent) * PAYLOAD

variable {bo} {env : Env} {p : Process} {f : File} {w : Flow}

/-- A new sender has sent nothing, and may send nothing. -/
theorem within_init (statics : Statics) (addressList : List IpaddrDummy) (sink : DataSource) :
    Flow.Within f (.init .TX statics addressList f.source sink) {} where
  reads := ⟨0, reads_source f⟩
  le := le_rfl
  handshake := fun _ _ _ => rfl
  spent := fun h => by simp [Process.init] at h
  room := fun h => by simp [Process.init] at h

namespace Flow.Within

/-- What is sent next is in the window. -/
theorem sendData (h : w.Within f p) (hnext : p.session.next = .closed) (hio : p.io.sent = [])
    (hwin : p.session.processor.winSize ≠ 0) (hsend : env.sendto = true) {b : MemBuff}
    (hb : (loaded env p).txFactory.buffer.head? = some b) :
    Flow.Within f (sentData bo env b p) { w with sent := w.sent + 1 } := by
  have hfin : p.txFactory.fin = false :=
    Bool.eq_false_iff.2 fun hf => hwin (h.spent hnext hf)
  obtain ⟨k, hreads⟩ := h.reads
  obtain ⟨hex, hreads', hfin', hwin', -⟩ := @reads_sentData bo _ _ _ _ hreads hfin hio hwin hsend _ hb
  have hlt : k * PAYLOAD < f.bytes.length :=
    lt_of_le_of_ne (hreads.inside hfin) fun e => hex (.inl e)
  have hroom := h.room hnext hfin
  rw [hreads.pos hfin] at hroom
  have hone := toNat_pos hwin
  -- In both cases there is room for one more.
  have hle : w.sent + 1 ≤ w.announced := by
    rcases hroom with hroom | hroom
    · omega
    · have : 0 < w.announced - w.sent := by
        by_contra hzero
        rw [Nat.eq_zero_of_not_pos hzero] at hroom
        omega
      omega
  refine ⟨⟨k + 1, hreads'⟩, hle, fun hclosed => absurd hnext hclosed, ?_, ?_⟩
  · intro _ hf
    rw [hfin'] at hf
    rw [hwin', if_pos (of_decide_eq_true hf)]
  · intro _ hf
    have hpos := hreads'.pos hf
    rw [hfin'] at hf
    rw [hwin', if_neg (of_decide_eq_false hf), hpos, toNat_sub_one hwin]
    -- One capsule less is left, in the window or in the file.
    rcases hroom with hroom | hroom
    · left
      show w.sent + 1 + (p.session.processor.winSize.toNat - 1) ≤ w.announced
      omega
    · right
      have hsub : w.announced - w.sent = w.announced - (w.sent + 1) + 1 := by omega
      rw [hsub, Nat.succ_mul] at hroom
      have hk : (k + 1) * PAYLOAD = k * PAYLOAD + PAYLOAD := Nat.succ_mul k PAYLOAD
      generalize PAYLOAD = m at *
      dsimp only
      omega

/-- Outside the state `closed`, only the file matters. -/
theorem of_ne_closed (h : w.Within f p) {q : Process} (hreads : ∃ k, Reads f k q.txFactory)
    (hnext : q.session.next ≠ .closed)
    (hq : q.session.next ≠ .done → q.session.complete = false → q.txFactory.fin = false) :
    w.Within f q where
  reads := hreads
  le := h.le
  handshake := fun _ => hq
  spent := fun hclosed => absurd hclosed hnext
  room := fun hclosed => absurd hclosed hnext

/-- Starting a new record changes nothing. -/
theorem clear (h : w.Within f p) : w.Within f p.clear :=
  ⟨h.reads, h.le, h.handshake, h.spent, h.room⟩

/-- The first window is as large as announced. -/
theorem receiveAck (h : w.Within f p) (hfin : p.txFactory.fin = false) (d : List Byte) :
    Flow.Within f (connected bo env d p) { announced := (consumed bo p env d).capWinSiz.toNat } := by
  have htx : (connected bo env d p).txFactory = p.txFactory := txFactory_received bo env d
  refine ⟨htx ▸ h.reads, Nat.zero_le _, fun hclosed => absurd rfl hclosed, ?_, ?_⟩
  · rw [htx, hfin]
    intro _ hf
    contradiction
  · intro _ _
    left
    have hwin : (connected bo env d p).session.processor.winSize =
        (consumed bo p env d).capWinSiz.setWidth 16 := rfl
    rw [hwin, BitVec.toNat_setWidth_of_le (by decide), Nat.zero_add]

/-- A later window has the size `WIN_SIZ`. -/
theorem receiveOk (h : w.Within f p) {d : List Byte} {a : ℕ}
    (ha : p.txFactory.fin = false → Suffices f p a) :
    Flow.Within f ((received bo env p d).popRx.endWindow p.txFactory.fin) { announced := a } := by
  have htx : ((received bo env p d).popRx.endWindow p.txFactory.fin).txFactory = p.txFactory :=
    txFactory_received bo env d
  refine ⟨htx ▸ h.reads, Nat.zero_le a, ?_, ?_, ?_⟩
  · intro _ _ hcomplete
    simp at hcomplete
  · rw [htx]
    intro hnext hf
    simp [hf] at hnext
  · rw [htx]
    intro _ hf
    have hwin : ((received bo env p d).popRx.endWindow
        p.txFactory.fin).session.processor.winSize.toNat = WIN_SIZ := by
      rw [hf]
      rfl
    rw [hwin]
    -- The next window is as large as `WIN_SIZ`.
    rcases ha hf with ha | ha
    · exact .inl (by omega)
    · exact .inr ha

/-- What a step of the sender does to the flow. -/
theorem step (h : w.Within f p) (hdir : p.session.dir = .TX) (hreturned : p.returned = false)
    {c : Party} (htr : Transition bo env p.clear c)
    (hok : p.session.next = .done → p.txFactory.fin = false → ∀ d, env.datagram = some d →
      Suffices f p (consumed bo p env d).capWinSiz.toNat) :
    (w.step bo env p c).sent ≤ (w.step bo env p c).announced ∧
      (c.error = none → (w.step bo env p c).Within f c.state) := by
  -- A step to a process within the flow `w'`.
  have hto {c : Party} {w' : Flow} (hw : w.step bo env p c = w') (h' : w'.Within f c.state) :
      (w.step bo env p c).sent ≤ (w.step bo env p c).announced ∧
        (c.error = none → (w.step bo env p c).Within f c.state) := by
    rw [hw]
    exact ⟨h'.le, fun _ => h'⟩
  have hconsumed (d : List Byte) : consumed bo p.clear env d = consumed bo p env d := rfl
  cases htr with
  | halt e p' _ hpull hio =>
    -- Nothing is announced, and nothing sent.
    have hout : p'.out = [] := by
      rw [Process.out, hio]
      rfl
    have hw : w.step bo env p { state := p', error := some e } = w := by
      cases hnext : p.session.next with
      | closed => simp [Flow.step, hnext, hout]
      | connected | done => simp [Flow.step, hnext, hpull (by simp [pulls, hdir, hnext])]
      | _ => simp [Flow.step, hnext]
    rw [hw]
    exact ⟨h.le, fun hc => by simp at hc⟩
  | receiveHello _ hnext d hd =>
    have hnext : p.session.next = .open := hnext
    have hw : w.step bo env p { state := opened bo env d p.clear } = w := by
      simp [Flow.step, hnext]
    exact hto hw (h.of_ne_closed h.reads (by simp [opened])
      fun _ => h.handshake (by simp [hnext]) (by simp [hnext]))
  | sendHi _ hnext =>
    have hnext : p.session.next = .setup := hnext
    have hw : w.step bo env p { state := sentHi bo env p.clear } = w := by
      simp [Flow.step, hnext]
    obtain ⟨k, hreads⟩ := h.reads
    exact hto hw (h.of_ne_closed ⟨k, hreads.control env.heap p.statics.hdrid⟩ (by simp [sentHi])
      fun _ => h.handshake (by simp [hnext]) (by simp [hnext]))
  | receiveAck _ hnext d hd =>
    have hnext : p.session.next = .connected := hnext
    have hcomplete : p.session.complete = false := by
      simpa [Process.returned, hnext] using hreturned
    have hfin := h.handshake (by simp [hnext]) (by simp [hnext]) hcomplete
    have hw : w.step bo env p { state := connected bo env d p.clear } =
        { announced := (consumed bo p.clear env d).capWinSiz.toNat } := by
      rw [hconsumed]
      simp only [Flow.step, hnext, hd]
    exact hto hw (h.clear.receiveAck hfin d)
  -- The window is over: nothing is sent.
  | windowOver hnext hwin =>
    have hnext : p.session.next = .closed := hnext
    have hw : w.step bo env p { state := p.clear.setNext .done } = w := by
      have hout : (p.clear.setNext .done).out = [] := rfl
      simp [Flow.step, hnext, hout]
    exact hto hw (h.of_ne_closed h.reads (by simp) fun hdone => absurd rfl hdone)
  | sendData _ hnext hwin b hb haddr hsend =>
    have hnext : p.session.next = .closed := hnext
    have hw : w.step bo env p { state := sentData bo env b p.clear } =
        { w with sent := w.sent + 1 } := by
      have hout : (sentData bo env b p.clear).out.length = 1 := length_out_sentData rfl hsend b
      simp only [Flow.step, hnext, hout]
    exact hto hw (h.clear.sendData hnext rfl hwin hsend hb)
  | receiveOk _ hnext d hd =>
    have hnext : p.session.next = .done := hnext
    have hw : w.step bo env p
        { state := (received bo env p.clear d).popRx.endWindow p.clear.txFactory.fin } =
        { announced := (consumed bo p.clear env d).capWinSiz.toNat } := by
      rw [hconsumed]
      simp only [Flow.step, hnext, hd]
    exact hto hw (h.clear.receiveOk fun hf => hok hnext hf d hd)
  | sendHello hrx | receiveHi hrx | sendAck hrx | receiveNothing hrx | receiveData hrx
  | danglingLast hrx | sendOk hrx | noAddressOk hrx | danglingWindow hrx =>
    have hrx : p.session.dir = .RX := hrx
    rw [hdir] at hrx
    contradiction

end Flow.Within

/-- In a run of the sender in which every acknowledgement that starts another window
    announces as much as `WIN_SIZ`, or has room for what is left of the file, no more
    data capsules are sent before the next acknowledgement than were announced. -/
theorem flow_le (bo : ByteOrder) (statics : Statics) (addressList : List IpaddrDummy) (f : File)
    (sink : DataSource) (env : ℕ → Env)
    (hok : let p := Process.init .TX statics addressList f.source sink
      ∀ n, (run bo p env n).Alive Process.returned → (run bo p env n).state.session.next = .done →
        (run bo p env n).state.txFactory.fin = false → ∀ d, (env n).datagram = some d →
        Suffices f (run bo p env n).state
          (consumed bo (run bo p env n).state (env n) d).capWinSiz.toNat) (n : ℕ) :
    (flow bo (.init .TX statics addressList f.source sink) env n).sent ≤
      (flow bo (.init .TX statics addressList f.source sink) env n).announced := by
  set p := Process.init .TX statics addressList f.source sink
  -- As long as the run goes on, what may still be sent has been announced.
  have hrun : ∀ n, (flow bo p env n).sent ≤ (flow bo p env n).announced ∧
      ((run bo p env n).error = none →
        (flow bo p env n).Within f (run bo p env n).state) := by
    intro n
    induction n with
    | zero => exact ⟨le_rfl, fun _ => within_init statics addressList sink⟩
    | succ n ih =>
      by_cases halive : (run bo p env n).Alive Process.returned
      · rw [flow, if_pos halive]
        exact (ih.2 halive.1).step (steady_run bo .TX statics addressList f.source sink env n halive.1).2
          halive.2 (transition_run bo .TX statics addressList f.source sink env n halive)
          (hok n halive)
      · have hstop : run bo p env (n + 1) = run bo p env n := if_neg halive
        rw [flow, if_neg halive, hstop]
        exact ih
  exact (hrun n).1

/-! ## A window that was not announced -/

/-- A file of one byte. -/
def oneByte : File := ⟨[0], by decide⟩

/-- A peer at `"10.0.0.1"` that announces windows of `w` capsules. -/
def announcing (w : BitVec 4) : Env :=
  .plain (some (CapsuleHdr.encode .little { capSize := 15, capWinSiz := w } ++
    SessionProcessor.private10.data)) [0, 0]

/-- The sender of the file of one byte. -/
def oneByteTx : Process := .init .TX {} [] oneByte.source { fmode := .OUT, fs := {} }

/-- The peer keeps the window closed; the sender sends the byte all the same. -/
theorem not_flow_le_closed :
    ¬∀ n, (flow .little oneByteTx (fun _ => announcing 0) n).sent ≤
      (flow .little oneByteTx (fun _ => announcing 0) n).announced := by
  intro h
  have hsent : (flow .little oneByteTx (fun _ => announcing 0) 6).sent = 1 := by decide +kernel
  have hannounced : (flow .little oneByteTx (fun _ => announcing 0) 6).announced = 0 := by
    decide +kernel
  have := h 6
  omega

/-- Every window is announced with the size `WIN_SIZ`. -/
theorem flow_le_oneByte :
    (flow .little oneByteTx (fun _ => announcing 5) 6).sent ≤
      (flow .little oneByteTx (fun _ => announcing 5) 6).announced := by
  refine flow_le .little {} [] oneByte { fmode := .OUT, fs := {} } (fun _ => announcing 5) ?_ 6
  intro p n halive _ _ d hd
  have hchunk := (steady_run .little .TX {} [] oneByte.source { fmode := .OUT, fs := {} }
    (fun _ => announcing 5) n halive.1).1.chunkSize
  obtain rfl : CapsuleHdr.encode .little { capSize := 15, capWinSiz := 5 } ++
      SessionProcessor.private10.data = d := Option.some.inj hd
  left
  rw [consumed, Gateway.header_pulled .little _ (by rw [hchunk]; decide) (by decide)]
  decide +kernel

end Session

end Udm
