import Udm.Session.Accesses
import Udm.Session.Termination

/-!
# How a sender fails

What a step of a sender leads to, whatever it gets and whichever calls fail (`TxMoves`). It fails
without defined behaviour only if it sends a chunk, and no address is left of those that the peer
advertised; it exits exactly if a call fails, or nothing is left of its file and its window is
still open; and it reads outside a block or the peer list exactly if it takes addresses that are
not contained in what came (`tx_fault_iff`).

The steps of a sender are the transitions that a sender can take; here they are listed with the
conditions under which each of them happens:

* `txMoves_exec`: every step of a sender that has sent the first `k` chunks is one of `TxMoves`,
  found by looking at the state and at what the calls return;
* `TxMoves.error_iff`: read backwards, how it ends says which of the conditions held;
* `Unaware`: before the peer has sent its addresses there is no list to be empty, so sending the
  addresses of the sender never fails for the lack of one.

The exit for the lack of chunks is that of `fetchChunk`; the fault is the remainder by a count of
zero in `selectAddrFromList`.
-/

namespace Udm

namespace Session

variable {bo : ByteOrder} {env : Env} {p : Process} {c : Party} {f : File} {k : ℕ}

/-- The sender sends in its next step, after `k` chunks of the file `f`. -/
def Sends (f : File) (k : ℕ) (p : Process) : Prop :=
  p.session.next = .setup ∨
    p.session.next = .closed ∧ p.session.processor.winSize ≠ 0 ∧ ¬f.Exhausted k

/-- What a step of a sender leads to, after `k` chunks of the file `f`. -/
inductive TxMoves (bo : ByteOrder) (f : File) (k : ℕ) (env : Env) (p : Process) : Party → Prop
  | receiveHello (hnext : p.session.next = .open) (d : List Byte) (hd : env.datagram = some d)
      (hname : env.getnameinfo = true) : TxMoves bo f k env p { state := opened bo env d p.clear }
  | sendHi (hnext : p.session.next = .setup) (haddr : ¬p.interfaces.NoAddress)
      (hsend : env.sendto = true) : TxMoves bo f k env p { state := sentHi bo env p.clear }
  | receiveAck (hnext : p.session.next = .connected) (d : List Byte) (hd : env.datagram = some d) :
      TxMoves bo f k env p { state := connected bo env d p.clear }
  | windowOver (hnext : p.session.next = .closed) (hwin : p.session.processor.winSize = 0) :
      TxMoves bo f k env p { state := p.clear.setNext .done }
  | sendData (hnext : p.session.next = .closed) (hwin : p.session.processor.winSize ≠ 0)
      (hex : ¬f.Exhausted k) (haddr : ¬p.interfaces.NoAddress) (hsend : env.sendto = true)
      (b : MemBuff) (hb : (loaded env p.clear).txFactory.buffer.head? = some b) :
      TxMoves bo f k env p { state := sentData bo env b p.clear }
  | receiveOk (hnext : p.session.next = .done) (d : List Byte) (hd : env.datagram = some d) :
      TxMoves bo f k env p
        { state := (received bo env p.clear d).popRx.endWindow p.txFactory.fin }
  /-- The call that receives returns without a datagram. -/
  | noDatagram (q : Process) (hawaits : p.awaits = true) (hd : env.datagram = none) :
      TxMoves bo f k env p { state := q, error := some .exit }
  /-- The name of the sender of the hello cannot be looked up. -/
  | noName (q : Process) (hnext : p.session.next = .open) (hname : env.getnameinfo = false) :
      TxMoves bo f k env p { state := q, error := some .exit }
  /-- A datagram is not sent. -/
  | notSent (q : Process) (hsends : Sends f k p) (haddr : ¬p.interfaces.NoAddress)
      (hsend : env.sendto = false) : TxMoves bo f k env p { state := q, error := some .exit }
  /-- `fetchChunk` finds no chunk, and exits. -/
  | exhausted (q : Process) (hnext : p.session.next = .closed)
      (hwin : p.session.processor.winSize ≠ 0) (hex : f.Exhausted k) :
      TxMoves bo f k env p { state := q, error := some .exit }
  /-- There is no address to choose one of. -/
  | noAddress (q : Process) (hsends : Sends f k p) (haddr : p.interfaces.NoAddress) :
      TxMoves bo f k env p { state := q, error := some .fault }

/-- The step that sends a chunk. -/
theorem txMoves_of_sends (h : Sending f k p) (hdir : p.session.dir = .TX)
    (hnext : p.session.next = .closed) (hwin : p.session.processor.winSize ≠ 0)
    (hex : ¬f.Exhausted k) : TxMoves bo f k env p (Conf.exec (step bo) env p) := by
  have hsends : Sends f k p := .inr ⟨hnext, hwin, hex⟩
  obtain ⟨b, hbuffer, -⟩ := h.reads.updateDataSource (h.fin_of_winSize hnext hwin) hex env.heap
  have hb : (loaded env p.clear).txFactory.buffer.head? = some b := by
    have hbuffer' : (loaded env p.clear).txFactory.buffer = [b] := hbuffer
    rw [hbuffer']
    rfl
  refine Conf.exec_of_wp (C := TxMoves bo f k env p) ?_
  rw [wp_step, hnext, hdir]
  show wp (closedState bo env .TX) _ _ _
  rw [wp_closedState, if_neg (show p.clear.session.processor.winSize ≠ 0 from hwin),
    wp_submitTask_tx bo env hb]
  dsimp only
  -- What is chosen and sent goes the same way as the addresses in the handshake.
  split_ifs with haddr hsend
  exacts [.noAddress _ hsends haddr, .sendData hnext hwin hex haddr hsend b hb,
    .notSent _ hsends haddr (Bool.eq_false_iff.2 hsend)]

/-- Every step of a sender is one of these, whatever the calls return. -/
theorem txMoves_exec (h : Sending f k p) (hst : Steady p) (hdir : p.session.dir = .TX) :
    TxMoves bo f k env p (Conf.exec (step bo) env p) := by
  have hmem := hst.next
  cases hnext : p.session.next with
  | «open» =>
    have hawaits : p.awaits = true := by rw [Process.awaits, hdir, hnext]
    by_cases hfail : env.datagram = none ∨ env.getnameinfo = false
    · refine Conf.exec_of_wp (C := TxMoves bo f k env p) ?_
      rw [wp_step, hnext, hdir]
      show wp (openState bo env .TX) _ _ _
      rw [wp_openState_tx_fail bo env hfail]
      rcases hfail with hd | hname
      exacts [.noDatagram _ hawaits hd, .noName _ hnext hname]
    · rw [not_or, Bool.not_eq_false] at hfail
      obtain ⟨d, hd⟩ := Option.ne_none_iff_exists'.1 hfail.1
      rw [exec_receiveHello hst hdir hnext hd hfail.2]
      exact .receiveHello hnext d hd hfail.2
  | setup =>
    have hsends : Sends f k p := .inl hnext
    refine Conf.exec_of_wp (C := TxMoves bo f k env p) ?_
    rw [wp_step, hnext, hdir]
    show wp (setupState bo env .TX) _ _ _
    rw [wp_setupState_tx]
    split_ifs with haddr hsend
    exacts [.noAddress _ hsends haddr, .sendHi hnext haddr hsend,
      .notSent _ hsends haddr (Bool.eq_false_iff.2 hsend)]
  | connected =>
    rcases hd : env.datagram with - | d
    · refine Conf.exec_of_wp (C := TxMoves bo f k env p) ?_
      rw [wp_step, hnext, hdir]
      show wp (connectedState bo env .TX) _ _ _
      rw [wp_connectedState_tx_none bo env hd]
      exact .noDatagram _ (by rw [Process.awaits, hdir, hnext]) hd
    · rw [exec_receiveAck hst hdir hnext hd]
      exact .receiveAck hnext d hd
  | closed =>
    by_cases hwin : p.session.processor.winSize = 0
    · rw [exec_windowOver hnext hwin]
      exact .windowOver hnext hwin
    by_cases hex : f.Exhausted k
    · rw [exec_exhausted hdir hnext hwin
        (h.reads.buffer_of_exhausted (h.fin_of_winSize hnext hwin) hex env.heap)]
      exact .exhausted _ hnext hwin hex
    · exact txMoves_of_sends h hdir hnext hwin hex
  | done =>
    rcases hd : env.datagram with - | d
    · refine Conf.exec_of_wp (C := TxMoves bo f k env p) ?_
      rw [wp_step, hnext, hdir]
      show wp (doneState bo env .TX) _ _ _
      rw [wp_doneState_tx_none bo env hd]
      exact .noDatagram _ (by rw [Process.awaits, hdir, hnext]) hd
    · rw [exec_receiveOk bo hst hdir hnext hd]
      exact .receiveOk hnext d hd
  | inq | send | recv => simp [hnext, inSession] at hmem

/-- The sender has no addresses of the peer before it gets them. -/
def Unaware (p : Process) : Prop :=
  p.session.next = .open ∨ p.session.next = .setup → p.interfaces.peer_addressList = none

/-- A step keeps this: the addresses come with the step that leads past the handshake. -/
theorem TxMoves.unaware (hm : TxMoves bo f k env p c) (h : Unaware p) (hc : c.error = none) :
    Unaware c.state := by
  cases hm with
  | receiveHello hnext => exact fun _ => h (.inl hnext)
  | sendHi hnext => exact fun _ => h (.inr hnext)
  | receiveAck => exact fun hearly => by simp [connected] at hearly
  | windowOver => exact fun hearly => by simp at hearly
  | sendData hnext =>
    have hnext' : (sentData bo env ‹_› p.clear).session.next = .closed := hnext
    exact fun hearly => by simp [hnext'] at hearly
  | receiveOk =>
    intro hearly
    cases hfin : p.txFactory.fin <;> simp [hfin] at hearly
  | noDatagram | noName | notSent | exhausted | noAddress => simp at hc

/-- How a step of a sender goes wrong. -/
theorem TxMoves.error_iff (hm : TxMoves bo f k env p c) (hdir : p.session.dir = .TX) :
    (c.error = some .fault ↔ Sends f k p ∧ p.interfaces.NoAddress) ∧
    (c.error = some .exit ↔ p.awaits = true ∧ env.datagram = none ∨
      p.session.next = .open ∧ env.getnameinfo = false ∨
      (Sends f k p ∧ ¬p.interfaces.NoAddress) ∧ env.sendto = false ∨
      p.session.next = .closed ∧ p.session.processor.winSize ≠ 0 ∧ f.Exhausted k) := by
  cases hm with
  | receiveHello hnext d hd hname => simp [Sends, hnext, hd, hname]
  | sendHi hnext haddr hsend => simp [Process.awaits, hdir, Sends, hnext, haddr, hsend]
  | receiveAck hnext d hd | receiveOk hnext d hd => simp [Sends, hnext, hd]
  | windowOver hnext hwin => simp [Process.awaits, hdir, Sends, hnext, hwin]
  | sendData hnext hwin hex haddr hsend =>
    simp [Process.awaits, hdir, Sends, hnext, hex, haddr, hsend]
  | noDatagram q hawaits hd =>
    refine ⟨iff_of_false (by simp) fun hfault => ?_, iff_of_true rfl (.inl ⟨hawaits, hd⟩)⟩
    rcases hfault.1 with hnext | ⟨hnext, -⟩ <;> simp [Process.awaits, hdir, hnext] at hawaits
  | noName q hnext hname => exact ⟨by simp [Sends, hnext], by simp [hnext, hname]⟩
  | notSent q hsends haddr hsend =>
    exact ⟨by simp [haddr], iff_of_true rfl (.inr (.inr (.inl ⟨⟨hsends, haddr⟩, hsend⟩)))⟩
  | exhausted q hnext hwin hex => exact ⟨by simp [Sends, hnext, hex],
      iff_of_true rfl (.inr (.inr (.inr ⟨hnext, hwin, hex⟩)))⟩
  | noAddress q hsends haddr =>
    refine ⟨iff_of_true rfl ⟨hsends, haddr⟩, iff_of_false (by simp) ?_⟩
    rcases hsends with hnext | ⟨hnext, -, hex⟩
    · simp [Process.awaits, hdir, hnext, haddr]
    · simp [Process.awaits, hdir, hnext, haddr, hex]

/-- The steps of a run are such steps, after the chunks that were sent. -/
theorem txMoves_run (hst : Steady p) (hdir : p.session.dir = .TX) (h : Sending f 0 p)
    {input : ℕ → Env} {n : ℕ} (halive : (run bo p input n).Alive Process.returned) :
    TxMoves bo f (dataSent bo p input n).length (input n) (run bo p input n).state
      (run bo p input (n + 1)) := by
  obtain ⟨hst', hdir'⟩ := steady_run_of bo hst input n halive.1
  rw [run_succ bo halive]
  exact txMoves_exec ((sending_run hst hdir h input n).2 halive.1) hst' (hdir'.trans hdir)

/-- In a run, too, the peer is not known before its addresses come. -/
theorem unaware_run (hst : Steady p) (hdir : p.session.dir = .TX) (h : Sending f 0 p)
    (hp : Unaware p) {input : ℕ → Env} (n : ℕ) (hn : (run bo p input n).error = none) :
    Unaware (run bo p input n).state := by
  refine Conf.runs_induction (I := fun _ => Unaware) hp (fun n halive hunaware => ?_)
    (fun _ _ _ h => h) n hn
  have hm := @txMoves_run bo p f hst hdir h input n halive
  rw [run_succ bo halive] at hm
  exact Conf.wp_iff_exec.2 ⟨fun hc => hm.unaware hunaware hc, fun _ _ => trivial⟩

/-- Whatever a sender gets, and whichever calls fail: its data capsules are the first chunks of its
    file, in order, each once. A step fails exactly if it sends a chunk and no address of the peer
    is left, and it reads outside a block or the peer list exactly if it takes addresses that are
    not contained. It exits exactly if it waits for a datagram in vain, the sender of the hello has
    no name, a datagram is not sent, or nothing is left of the file. -/
theorem tx_fault_iff (bo : ByteOrder) (statics : Statics) (addressList : List IpaddrDummy)
    (f : File) (sink : DataSource) (input : ℕ → Env) (n : ℕ)
    (halive : (run bo (.init .TX statics addressList f.source sink) input n).Alive
      Process.returned) :
    let q := (run bo (.init .TX statics addressList f.source sink) input n).state
    let c := run bo (.init .TX statics addressList f.source sink) input (n + 1)
    let ds := dataSent bo (.init .TX statics addressList f.source sink) input n
    SentChunks bo f ds ∧
    (c.error = some .fault ↔ q.session.next = .closed ∧ q.session.processor.winSize ≠ 0 ∧
      ¬f.Exhausted ds.length ∧ q.interfaces.NoAddress) ∧
    ((∀ a ∈ c.state.io.accesses, a.Within) ↔
      (q.session.next = .connected → ∀ d ∈ (input n).datagram, Contained bo q (input n) d)) ∧
    (c.error = some .exit ↔ q.awaits = true ∧ (input n).datagram = none ∨
      q.session.next = .open ∧ (input n).getnameinfo = false ∨
      (Sends f ds.length q ∧ ¬q.interfaces.NoAddress) ∧ (input n).sendto = false ∨
      q.session.next = .closed ∧ q.session.processor.winSize ≠ 0 ∧ f.Exhausted ds.length) := by
  intro q c ds
  have hst := steady_init .TX statics addressList f.source sink
  have hsending := @sending_init f statics addressList sink
  have hunaware : Unaware q := @unaware_run bo _ f hst rfl hsending (fun _ => rfl) input n halive.1
  have hdir : q.session.dir = .TX := (steady_run_of bo hst input n halive.1).2
  obtain ⟨hfault, hexit⟩ := (@txMoves_run bo _ f hst rfl hsending input n halive).error_iff hdir
  -- A sender takes addresses with the acknowledgement of its hi.
  have htakes : q.takesAddresses = true ↔ q.session.next = .connected := by
    rw [Process.takesAddresses, hdir]
    cases q.session.next <;> simp
  refine ⟨(sending_run hst rfl hsending input n).1, hfault.trans ?_, ?_, hexit⟩
  · constructor
    · rintro ⟨hnext | ⟨hnext, hwin, hex⟩, haddr⟩
      · -- The list of the peer is still null, which sends to the source of the hello.
        exact absurd (hunaware (.inr hnext)) haddr.1
      · exact ⟨hnext, hwin, hex, haddr⟩
    · rintro ⟨hnext, hwin, hex, haddr⟩
      exact ⟨.inr ⟨hnext, hwin, hex⟩, haddr⟩
  · rw [← htakes]
    exact within_run_iff .TX statics addressList f.source sink input n halive

/-- A peer that announces a window, and advertises no address. -/
def noAddress : Env := .plain (some (CapsuleHdr.encode .little { capWinSiz := 5 })) [0, 0]

/-- The sender of a byte fails when it is to send it. -/
theorem fault_noAddress : (run .little oneByteTx (fun _ => noAddress) 4).error = some .fault := by
  have halive : (run .little oneByteTx (fun _ => noAddress) 3).Alive Process.returned := by
    decide +kernel
  refine (tx_fault_iff .little {} [] oneByte { fmode := .OUT, fs := {} } (fun _ => noAddress) 3
    halive).2.1.2 ⟨by decide +kernel, by decide +kernel, ?_, by decide +kernel⟩
  have hds : dataSent .little oneByteTx (fun _ => noAddress) 3 = [] := by decide +kernel
  show ¬oneByte.Exhausted (dataSent .little oneByteTx (fun _ => noAddress) 3).length
  rw [hds]
  exact fun hex => hex.elim (by decide) (by decide)

end Session

end Udm
