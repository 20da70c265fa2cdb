import Udm.Library.Run
import Udm.Session.Transfer

/-!
# Transitions

What a step of a session can do (`Transition`), in one relation between the
process before the step and the configuration it leads to. Every step from a
state in which the queues are as the state functions leave them (`Steady`) is
one of these transitions (`transition_exec`), and leads to such a state again
(`Transition.steady`), whatever is received.

This is where the functions of the states are taken apart, once: what holds of every
step is proved by cases on the transition, of which each names the state the process
leads to (`sentHi`, `arrived`, ...) with the conditions under which it does. A process
that is stopped keeps what it has recorded and stored, whichever call stopped it
(`Transition.stopped_of_none`).

The runs of a session (`run`) are those of its step function, on an environment for
each step; `transition_run` says that they go by transitions.
-/

namespace Udm

/-- A process, and how it was stopped. -/
abbrev Party := Conf Halt Process

namespace Session

/-- The states a session goes through. -/
def inSession : StateCodes → Bool
  | .open | .setup | .connected | .closed | .done => true
  | .inq | .send | .recv => false

/-- The receiver holds received data. -/
def holdsData (p : Process) : Bool :=
  match p.session.dir, p.session.next with
  | .RX, .connected | .RX, .closed | .RX, .done => true
  | _, _ => false

/-- What holds of a process between the steps of its session. -/
structure Steady (p : Process) : Prop where
  /-- The state is one of those of a session. -/
  next : inSession p.session.next
  /-- A queue without received data is empty: what is pulled is popped in the same step. -/
  queue : holdsData p = false → p.rxFactory.buffer = []
  /-- The buffers of a receiver are always of the same size. -/
  chunkSize : p.rxFactory.chunkSize = CHUNK

/-- A sender never holds received data between its steps. -/
theorem Steady.queue_tx {p : Process} (hp : Steady p) (hdir : p.session.dir = .TX) :
    p.rxFactory.buffer = [] := hp.queue (by rw [holdsData, hdir])

/-- The process pulls a datagram in its next step. -/
def pulls (p : Process) : Bool :=
  match p.session.dir, p.session.next with
  | .RX, .setup | .TX, .connected | .TX, .done => true
  | .RX, .closed => decide (p.session.processor.winSize ≠ 0)
  | _, _ => false

/-- A receiver pulls a datagram in its window. -/
theorem pulls_closed {p : Process} (hdir : p.session.dir = .RX) (hnext : p.session.next = .closed)
    (hwin : p.session.processor.winSize ≠ 0) : pulls p := by
  rw [pulls, hdir, hnext]
  exact decide_eq_true hwin

variable (bo : ByteOrder) (env : Env)

/-- Why a step can stop the process. -/
inductive Blocked (p : Process) : Prop
  /-- The call that receives returns without a datagram. -/
  | noDatagram (h : env.datagram = none)
  /-- The name of the peer cannot be looked up. -/
  | noName (h : env.getnameinfo = false)
  /-- A datagram is not sent. -/
  | notSent (h : env.sendto = false)
  /-- There is no address to send to. -/
  | noAddress (h : p.interfaces.NoAddress)
  /-- `fetchChunk` finds no chunk. -/
  | noChunk (hdir : p.session.dir = .TX) (hnext : p.session.next = .closed)
      (hwin : p.session.processor.winSize ≠ 0) (h : (loaded env p).txFactory.buffer = [])

/-- The configurations a step leads to from the process `p`, whose record is
    empty. -/
inductive Transition (p : Process) : Party → Prop
  /-- The process is stopped, without having taken a datagram. -/
  | halt (h : Halt) (p' : Process) (hblocked : Blocked env p)
      (hpull : pulls p → env.datagram = none) (hio : p'.io = p.io)
      (hsink : p'.rxFactory.sourceData = p.rxFactory.sourceData) :
      Transition p { state := p', error := some h }
  /-- A receiver sends its hello; whether it is sent is not checked. -/
  | sendHello (hdir : p.session.dir = .RX) (hnext : p.session.next = .open) :
      Transition p { state := sentHello bo env p }
  /-- A sender takes whatever comes as the hello. -/
  | receiveHello (hdir : p.session.dir = .TX) (hnext : p.session.next = .open) (d : List Byte)
      (hd : env.datagram = some d) : Transition p { state := opened bo env d p }
  | sendHi (hdir : p.session.dir = .TX) (hnext : p.session.next = .setup) :
      Transition p { state := sentHi bo env p }
  | receiveHi (hdir : p.session.dir = .RX) (hnext : p.session.next = .setup) (d : List Byte)
      (hd : env.datagram = some d) : Transition p { state := setUp bo env d p }
  | sendAck (hdir : p.session.dir = .RX) (hnext : p.session.next = .connected)
      (haddr : ¬p.interfaces.NoAddress) : Transition p { state := sentAck bo env p }
  | receiveAck (hdir : p.session.dir = .TX) (hnext : p.session.next = .connected) (d : List Byte)
      (hd : env.datagram = some d) : Transition p { state := connected bo env d p }
  /-- Nothing is left of the window, on either side. -/
  | windowOver (hnext : p.session.next = .closed) (hwin : p.session.processor.winSize = 0) :
      Transition p { state := p.setNext .done }
  | sendData (hdir : p.session.dir = .TX) (hnext : p.session.next = .closed)
      (hwin : p.session.processor.winSize ≠ 0) (b : MemBuff)
      (hb : (loaded env p).txFactory.buffer.head? = some b) (haddr : ¬p.interfaces.NoAddress)
      (hsend : env.sendto = true) : Transition p { state := sentData bo env b p }
  /-- A datagram comes, and the window stays empty: it is not a capsule. -/
  | receiveNothing (hdir : p.session.dir = .RX) (hnext : p.session.next = .closed)
      (hwin : p.session.processor.winSize ≠ 0) (d : List Byte) (hd : env.datagram = some d)
      (hlast : (received bo env p d).rxcurrentWindow.last = none) :
      Transition p { state := (received bo env p d).countDown }
  /-- The end of the file is looked for in the capsule with the largest id. -/
  | receiveData (hdir : p.session.dir = .RX) (hnext : p.session.next = .closed)
      (hwin : p.session.processor.winSize ≠ 0) (d : List Byte) (hd : env.datagram = some d)
      (k : BitVec 16) (b : MemBuff) (hlast : (received bo env p d).rxcurrentWindow.last = some (k, b))
      (hholds : (received bo env p d).rxFactory.holds b) :
      Transition p { state := (checkFin b (received bo env p d)).countDown }
  /-- The capsule with the largest id is not in the queue any more. -/
  | danglingLast (hdir : p.session.dir = .RX) (hnext : p.session.next = .closed)
      (hwin : p.session.processor.winSize ≠ 0) (d : List Byte) (hd : env.datagram = some d) :
      Transition p { state := received bo env p d, error := some .fault }
  /-- A sender takes whatever comes as the acknowledgement. -/
  | receiveOk (hdir : p.session.dir = .TX) (hnext : p.session.next = .done) (d : List Byte)
      (hd : env.datagram = some d) :
      Transition p { state := (received bo env p d).popRx.endWindow p.txFactory.fin }
  /-- A receiver writes and acknowledges its window. -/
  | sendOk (hdir : p.session.dir = .RX) (hnext : p.session.next = .done)
      (haddr : ¬(written env p).interfaces.NoAddress) : Transition p { state := sentOk bo env p }
  /-- The window is written, and there is no address to send the acknowledgement to. -/
  | noAddressOk (hdir : p.session.dir = .RX) (hnext : p.session.next = .done) :
      Transition p { state := ((written env p).release.prepare env).select, error := some .fault }
  /-- A capsule of the window is not in the queue any more. -/
  | danglingWindow (hdir : p.session.dir = .RX) (hnext : p.session.next = .done)
      (bs : List MemBuff) (hbs : bs <+: window p) :
      Transition p { state := PresentationProcessor.writes env bs p, error := some .fault }

variable {bo env}

/-- The steps of the sender. -/
theorem wp_states_tx {p : Process} (hp : Steady p) (hdir : p.session.dir = .TX) :
    wp (states bo env p.session.next .TX) (fun _ p' => Transition bo env p { state := p' })
      (fun h p' => Transition bo env p { state := p', error := some h }) p := by
  have hqueue := hp.queue_tx hdir
  have hmem := hp.next
  cases hnext : p.session.next with
  | «open» =>
    show wp (openState bo env .TX) _ _ _
    rcases hd : env.datagram with - | d
    · rw [wp_openState_tx_fail bo env (.inl hd)]
      exact .halt _ _ (.noDatagram hd) (fun _ => hd) rfl rfl
    · cases hname : env.getnameinfo with
      | false =>
        rw [wp_openState_tx_fail bo env (.inr hname)]
        exact .halt _ _ (.noName hname) (by simp [pulls, hdir, hnext]) rfl rfl
      | true =>
        rw [wp_openState_tx bo env hd hname hqueue]
        exact .receiveHello hdir hnext d hd
  | setup =>
    show wp (setupState bo env .TX) _ _ _
    have hpull : pulls p → env.datagram = none := by simp [pulls, hdir, hnext]
    rw [wp_setupState_tx]
    split_ifs with haddr hsend
    exacts [.halt _ _ (.noAddress haddr) hpull rfl rfl, .sendHi hdir hnext,
      .halt _ _ (.notSent (Bool.eq_false_iff.2 hsend)) hpull rfl rfl]
  | connected =>
    show wp (connectedState bo env .TX) _ _ _
    rcases hd : env.datagram with - | d
    · rw [wp_connectedState_tx_none bo env hd]
      exact .halt _ _ (.noDatagram hd) (fun _ => hd) rfl rfl
    · rw [wp_connectedState_tx bo env hd hqueue]
      exact .receiveAck hdir hnext d hd
  | closed =>
    show wp (closedState bo env .TX) _ _ _
    have hpull : pulls p → env.datagram = none := by simp [pulls, hdir, hnext]
    rw [wp_closedState]
    split_ifs with hwin
    · exact .windowOver hnext hwin
    · rcases hb : (loaded env p).txFactory.buffer with - | ⟨b, bs⟩
      · rw [wp_submitTask_tx_nil bo env hb]
        exact .halt _ _ (.noChunk hdir hnext hwin hb) hpull rfl rfl
      · have hb' : (loaded env p).txFactory.buffer.head? = some b := by rw [hb]; rfl
        rw [wp_submitTask_tx bo env hb']
        dsimp only
        split_ifs with haddr hsend
        exacts [.halt _ _ (.noAddress haddr) hpull rfl rfl,
          .sendData hdir hnext hwin b hb' haddr hsend,
          .halt _ _ (.notSent (Bool.eq_false_iff.2 hsend)) hpull rfl rfl]
  | done =>
    show wp (doneState bo env .TX) _ _ _
    rcases hd : env.datagram with - | d
    · rw [wp_doneState_tx_none bo env hd]
      exact .halt _ _ (.noDatagram hd) (fun _ => hd) rfl rfl
    · rw [wp_doneState_tx bo env hd hqueue]
      exact .receiveOk hdir hnext d hd
  | inq | send | recv => simp [hnext, inSession] at hmem

/-- The steps of the receiver. -/
theorem wp_states_rx {p : Process} (hp : Steady p) (hdir : p.session.dir = .RX) :
    wp (states bo env p.session.next .RX) (fun _ p' => Transition bo env p { state := p' })
      (fun h p' => Transition bo env p { state := p', error := some h }) p := by
  have hmem := hp.next
  cases hnext : p.session.next with
  | «open» =>
    show wp (openState bo env .RX) _ _ _
    rw [wp_openState_rx]
    split_ifs with haddr
    exacts [.halt _ _ (.noAddress haddr) (by simp [pulls, hdir, hnext]) rfl rfl,
      .sendHello hdir hnext]
  | setup =>
    show wp (setupState bo env .RX) _ _ _
    rcases hd : env.datagram with - | d
    · rw [wp_setupState_rx_none bo env hd]
      exact .halt _ _ (.noDatagram hd) (fun _ => hd) rfl rfl
    · rw [wp_setupState_rx bo env hd (hp.queue (by rw [holdsData, hdir, hnext]))]
      exact .receiveHi hdir hnext d hd
  | connected =>
    show wp (connectedState bo env .RX) _ _ _
    rw [wp_connectedState_rx]
    split_ifs with haddr
    exacts [.halt _ _ (.noAddress haddr) (by simp [pulls, hdir, hnext]) rfl rfl,
      .sendAck hdir hnext haddr]
  | closed =>
    show wp (closedState bo env .RX) _ _ _
    rw [wp_closedState]
    split_ifs with hwin
    · exact .windowOver hnext hwin
    · rcases hd : env.datagram with - | d
      · rw [wp_submitTask_rx_none bo env hd]
        exact .halt _ _ (.noDatagram hd) (fun _ => hd) rfl rfl
      · rw [wp_submitTask_rx bo env hd]
        rcases hlast : (received bo env p d).rxcurrentWindow.last with - | ⟨k, b⟩
        · exact .receiveNothing hdir hnext hwin d hd hlast
        · dsimp only
          split_ifs with hholds
          exacts [.receiveData hdir hnext hwin d hd k b hlast hholds,
            .danglingLast hdir hnext hwin d hd]
  | done =>
    show wp (doneState bo env .RX) _ _ _
    rw [wp_doneState_rx]
    split_ifs with hall haddr
    exacts [.noAddressOk hdir hnext, .sendOk hdir hnext haddr,
      .danglingWindow hdir hnext _ (List.takeWhile_prefix _)]
  | inq | send | recv => simp [hnext, inSession] at hmem

/-- Starting a new record keeps a process steady. -/
theorem Steady.clear {p : Process} (hp : Steady p) : Steady p.clear :=
  ⟨hp.next, hp.queue, hp.chunkSize⟩

/-- Every step is a transition. -/
theorem transition_exec (bo : ByteOrder) (env : Env) {p : Process} (hp : Steady p) :
    Transition bo env p.clear (Conf.exec (step bo) env p) := by
  refine Conf.exec_of_wp ((wp_step bo env).2 ?_)
  cases hdir : p.session.dir with
  | TX => exact wp_states_tx hp.clear hdir
  | RX => exact wp_states_rx hp.clear hdir

/-- Without the datagram it awaits, the process is stopped, and does nothing else. -/
theorem Transition.stopped_of_none {p : Process} {c : Party} (h : Transition bo env p c)
    (haw : p.awaits = true) (hd : env.datagram = none) :
    c.error ≠ none ∧ c.state.io = p.io ∧
      c.state.rxFactory.sourceData = p.rxFactory.sourceData := by
  cases h with
  | halt _ _ _ _ hio hsink => exact ⟨by simp, hio, hsink⟩
  | receiveHello _ _ d hd' | receiveHi _ _ d hd' | receiveAck _ _ d hd' | receiveOk _ _ d hd'
  | receiveNothing _ _ _ d hd' | receiveData _ _ _ d hd' | danglingLast _ _ _ d hd' =>
    simp [hd] at hd'
  | sendHello hdir hnext | sendHi hdir hnext | sendAck hdir hnext | sendData hdir hnext
  | sendOk hdir hnext | noAddressOk hdir hnext | danglingWindow hdir hnext =>
    simp [Process.awaits, hdir, hnext] at haw
  | windowOver hnext hwin =>
    cases hdir : p.session.dir <;> simp [Process.awaits, hdir, hnext, hwin] at haw

/-- A session keeps its direction. -/
theorem Transition.dir_eq {p : Process} {c : Party} (h : Transition bo env p c)
    (hc : c.error = none) : c.state.session.dir = p.session.dir := by
  cases h with
  | halt | danglingLast | noAddressOk | danglingWindow => simp at hc
  | sendOk =>
    show (written env p).session.dir = _
    rw [session_written]
  | receiveHi | receiveAck => simp [setUp, connected]
  | receiveNothing | receiveData | receiveOk => simp
  | _ => rfl

/-- A step leads from a steady state to a steady state. -/
theorem Transition.steady {p : Process} {c : Party} (h : Transition bo env p c) (hp : Steady p)
    (hc : c.error = none) : Steady c.state := by
  have hchunk := hp.chunkSize
  cases h with
  | halt | danglingLast | noAddressOk | danglingWindow => simp at hc
  | sendHello hdir hnext =>
    exact ⟨rfl, fun _ => hp.queue (by rw [holdsData, hdir, hnext]), hchunk⟩
  | receiveHello hdir hnext =>
    have hb := hp.queue_tx hdir
    exact ⟨rfl, fun _ => by simp [opened, receivedHello, newConnection, hb], hchunk⟩
  | sendHi hdir hnext => exact ⟨rfl, fun _ => hp.queue_tx hdir, hchunk⟩
  | receiveHi hdir hnext =>
    exact ⟨rfl, by simp [setUp, holdsData, hdir], by simpa [setUp] using hchunk⟩
  | sendAck hdir hnext =>
    -- From here on the queue holds the window.
    have hdata : holdsData (sentAck bo env p) := by
      rw [holdsData, show (sentAck bo env p).session.dir = .RX from hdir]
      rfl
    exact ⟨rfl, by simp [hdata], hchunk⟩
  | receiveAck hdir hnext =>
    have hb := hp.queue_tx hdir
    exact ⟨rfl, fun _ => by simp [connected, hb], by simpa [connected] using hchunk⟩
  | windowOver hnext =>
    refine ⟨rfl, fun h => hp.queue ?_, hchunk⟩
    cases hdir : p.session.dir <;> simp_all [holdsData]
  | sendData hdir hnext _ b =>
    have hnext' : (sentData bo env b p).session.next = .closed := hnext
    exact ⟨by rw [hnext']; rfl, fun _ => hp.queue_tx hdir, hchunk⟩
  | receiveNothing hdir hnext | receiveData hdir hnext =>
    refine ⟨by simp [hnext, inSession], by simp [holdsData, hdir, hnext], by simpa using hchunk⟩
  | receiveOk hdir hnext =>
    have hb := hp.queue_tx hdir
    refine ⟨?_, fun _ => by simp [hb], by simpa using hchunk⟩
    cases hfin : p.txFactory.fin <;> simp [inSession]
  | sendOk hdir hnext =>
    have hdir' : (sentOk bo env p).session.dir = .RX := by
      show (written env p).session.dir = .RX
      rw [session_written, hdir]
    have hnext' : (sentOk bo env p).session.next =
        if (written env p).rxFactory.fin then .connected else .closed := rfl
    have hchunk' : (written env p).rxFactory.chunkSize = CHUNK := by rw [chunkSize_written, hchunk]
    refine ⟨?_, ?_, hchunk'⟩
    all_goals
      simp only [holdsData, hdir', hnext']
      cases (written env p).rxFactory.fin <;> simp [inSession]

/-! ## The window -/

/-- The buffers in the window have at least `m` bytes, and no more than fit. -/
def WindowSized (m : ℕ) (p : Process) : Prop :=
  ∀ e ∈ p.rxcurrentWindow, m ≤ e.2.size ∧ e.2.size ≤ CHUNK

/-- What is received is as long as the datagram, or fills its buffer. -/
theorem windowSized_received {p : Process} {m : ℕ} {d : List Byte} (hp : Steady p) (hm : m ≤ CHUNK)
    (hwin : WindowSized m p) (hd : m ≤ d.length) : WindowSized m (received bo env p d) := by
  have hsize : m ≤ (Gateway.pulled bo env p d).size ∧ (Gateway.pulled bo env p d).size ≤ CHUNK := by
    rw [Gateway.size_pulled, hp.chunkSize, Int.ofNat_le, Int.ofNat_le]
    exact ⟨le_min hm hd, min_le_left _ _⟩
  intro e he
  rw [received] at he
  split_ifs at he
  · rcases OrdMap.mem_insert.1 he with rfl | ⟨he, -⟩
    exacts [hsize, hwin e he]
  · exact hwin e he

/-- The buffers in the window have `m` bytes as long as the datagrams have. -/
theorem Transition.windowSized {p : Process} {c : Party} {m : ℕ} (h : Transition bo env p c)
    (hp : Steady p) (hm : m ≤ CHUNK) (hwin : WindowSized m p)
    (hd : pulls p → ∀ d, env.datagram = some d → m ≤ d.length) (hc : c.error = none) :
    WindowSized m c.state := by
  cases h with
  | halt | danglingLast | noAddressOk | danglingWindow => simp at hc
  | sendHello | receiveHello | sendHi | sendAck | sendData | windowOver => exact hwin
  | sendOk => exact fun e he => absurd he (OrdMap.not_mem_empty e)
  | receiveHi hdir hnext d hd' | receiveAck hdir hnext d hd' | receiveOk hdir hnext d hd' =>
    exact windowSized_received hp hm hwin (hd (by simp [pulls, hdir, hnext]) d hd')
  | receiveNothing hdir hnext hw d hd' =>
    exact windowSized_received hp hm hwin (hd (pulls_closed hdir hnext hw) d hd')
  | receiveData hdir hnext hw d hd' k b hlast =>
    have hwin' := @windowSized_received bo env p m d hp hm hwin
      (hd (pulls_closed hdir hnext hw) d hd')
    intro e he
    have he' : e ∈ (checkFin b (received bo env p d)).rxcurrentWindow := he
    rw [checkFin_rxcurrentWindow] at he'
    split_ifs at he'
    · rcases OrdMap.mem_insert.1 he' with rfl | ⟨he', -⟩
      exacts [hwin' (k, b) (OrdMap.last_eq_some.1 hlast).1, hwin' e he']
    · exact hwin' e he'

/-! ## Runs -/

variable (bo)

/-- The configurations of a session, on the environments `env`. -/
def run (p : Process) (env : ℕ → Env) (n : ℕ) : Party :=
  Conf.runs (step bo) Process.returned p env n

/-- A session that goes on takes its next step. -/
theorem run_succ {p : Process} {env : ℕ → Env} {n : ℕ}
    (h : (run bo p env n).Alive Process.returned) :
    run bo p env (n + 1) = Conf.exec (step bo) (env n) (run bo p env n).state :=
  Conf.next_of_alive h

/-- A new process is steady. -/
theorem steady_init (dir : StateDirection) (statics : Statics) (addressList : List IpaddrDummy)
    (source sink : DataSource) : Steady (.init dir statics addressList source sink) :=
  ⟨rfl, fun _ => rfl, rfl⟩

/-- The states of a run are steady, whatever is received. -/
theorem steady_run_of {p : Process} (hp : Steady p) (env : ℕ → Env) (n : ℕ)
    (h : (run bo p env n).error = none) :
    Steady (run bo p env n).state ∧ (run bo p env n).state.session.dir = p.session.dir := by
  refine Conf.runs_invariant (I := fun q => Steady q ∧ q.session.dir = p.session.dir)
    ⟨hp, rfl⟩ (fun env q hq _ => ?_) n h
  have hstep := transition_exec bo env hq.1
  exact Conf.wp_iff_exec.2 ⟨fun hc => ⟨hstep.steady hq.1.clear hc, (hstep.dir_eq hc).trans hq.2⟩,
    fun _ _ => trivial⟩

/-- The states of a run from a new process are steady. -/
theorem steady_run (dir : StateDirection) (statics : Statics) (addressList : List IpaddrDummy)
    (source sink : DataSource) (env : ℕ → Env) (n : ℕ)
    (h : (run bo (.init dir statics addressList source sink) env n).error = none) :
    Steady (run bo (.init dir statics addressList source sink) env n).state ∧
      (run bo (.init dir statics addressList source sink) env n).state.session.dir = dir :=
  steady_run_of bo (steady_init dir statics addressList source sink) env n h

/-- The steps of a run are transitions. -/
theorem transition_run (dir : StateDirection) (statics : Statics) (addressList : List IpaddrDummy)
    (source sink : DataSource) (env : ℕ → Env) (n : ℕ)
    (h : (run bo (.init dir statics addressList source sink) env n).Alive Process.returned) :
    Transition bo (env n) (run bo (.init dir statics addressList source sink) env n).state.clear
      (run bo (.init dir statics addressList source sink) env (n + 1)) := by
  rw [run_succ bo h]
  exact transition_exec bo (env n) (steady_run bo dir statics addressList source sink env n h.1).1

end Session

end Udm
