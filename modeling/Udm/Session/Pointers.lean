import Udm.Session.Accesses
import Udm.Session.Buffers
import Udm.Session.Receiver

/-!
# Pointers into the queue

The window of a receiver points to elements of its queue, which is emptied behind its back:
`doneState` takes as many elements out of the queue as there are in the window, whichever these
are. Still, no pointer dangles (`Held`), unless the datagram with the addresses was kept as a
capsule: so whatever is received, a step of the receiver can only go wrong if it sends without
an address (`rx_fault_iff`). What a step does then is said by `RxMoves`.

The way there:

* `rxMoves_exec`: as long as no pointer dangles, every step is one of those of `RxMoves`;
* `RxMoves.points`: such a step leaves no pointer dangling, if it does not take the addresses
  for a capsule of a window (`Addressed`);
* so the two go on together from the start of a run (`points_run`, `rxMoves_run`).

Also the reads are told: the step that takes the addresses is the only one that may read
outside a block or the peer list, and does so exactly if the addresses are not contained in
what came.
-/

namespace Udm

namespace Session

variable {bo : ByteOrder} {env : Env} {p : Process} {c : Party} {d : List Byte}

/-! ## The steps of a receiver -/

/-- What a step of a receiver leads to, as long as no pointer dangles. -/
inductive RxMoves (bo : ByteOrder) (env : Env) (p : Process) : Party → Prop
  | sendHello (hnext : p.session.next = .open) (haddr : ¬p.interfaces.NoAddress) :
      RxMoves bo env p { state := sentHello bo env p.clear }
  | receiveHi (hnext : p.session.next = .setup) (d : List Byte) (hd : env.datagram = some d) :
      RxMoves bo env p { state := setUp bo env d p.clear }
  | sendAck (hnext : p.session.next = .connected) (haddr : ¬p.interfaces.NoAddress) :
      RxMoves bo env p { state := sentAck bo env p.clear }
  | windowOver (hnext : p.session.next = .closed) (hwin : p.session.processor.winSize = 0) :
      RxMoves bo env p { state := p.clear.setNext .done }
  | arrive (hnext : p.session.next = .closed) (hwin : p.session.processor.winSize ≠ 0)
      (d : List Byte) (hd : env.datagram = some d) :
      RxMoves bo env p { state := arrived bo env d p.clear }
  | sendOk (hnext : p.session.next = .done) (haddr : ¬p.interfaces.NoAddress) :
      RxMoves bo env p { state := sentOk bo env p.clear }
  /-- The call that receives returns without a datagram. -/
  | noDatagram (q : Process) (hawaits : p.awaits = true) (hd : env.datagram = none) :
      RxMoves bo env p { state := q, error := some .exit }
  /-- There is no address to choose one of. -/
  | noAddress (q : Process) (hnext : p.session.next = .open ∨ p.session.next = .connected ∨
      p.session.next = .done) (haddr : p.interfaces.NoAddress) :
      RxMoves bo env p { state := q, error := some .fault }

/-- Every step of a receiver is one of these, as long as no pointer dangles. -/
theorem rxMoves_exec (hst : Steady p) (hdir : p.session.dir = .RX) (hheld : Held p) :
    RxMoves bo env p (Conf.exec (step bo) env p) := by
  have hmem := hst.next
  cases hnext : p.session.next with
  | «open» =>
    by_cases haddr : p.interfaces.NoAddress
    · refine Conf.exec_of_wp (C := RxMoves bo env p) ?_
      rw [wp_step, hnext, hdir]
      show wp (openState bo env .RX) _ _ _
      rw [wp_openState_rx, if_pos (show p.clear.interfaces.NoAddress from haddr)]
      exact .noAddress _ (.inl hnext) haddr
    · rw [exec_sendHello hdir hnext haddr]
      exact .sendHello hnext haddr
  | setup =>
    rcases hd : env.datagram with - | d
    · refine Conf.exec_of_wp (C := RxMoves bo env p) ?_
      rw [wp_step, hnext, hdir]
      show wp (setupState bo env .RX) _ _ _
      rw [wp_setupState_rx_none bo env hd]
      exact .noDatagram _ (by rw [Process.awaits, hdir, hnext]) hd
    · rw [exec_receiveHi hdir hst hnext hd]
      exact .receiveHi hnext d hd
  | connected =>
    by_cases haddr : p.interfaces.NoAddress
    · rw [exec_noAck hdir hnext haddr]
      exact .noAddress _ (.inr (.inl hnext)) haddr
    · rw [exec_sendAck hdir hnext haddr]
      exact .sendAck hnext haddr
  | closed =>
    by_cases hwin : p.session.processor.winSize = 0
    · rw [exec_windowOver hnext hwin]
      exact .windowOver hnext hwin
    · rcases hd : env.datagram with - | d
      · refine Conf.exec_of_wp (C := RxMoves bo env p) ?_
        rw [wp_step, hnext, hdir]
        show wp (closedState bo env .RX) _ _ _
        rw [wp_closedState, if_neg (show p.clear.session.processor.winSize ≠ 0 from hwin),
          wp_submitTask_rx_none bo env hd]
        exact .noDatagram _ (by rw [Process.awaits, hdir, hnext]; exact decide_eq_true hwin) hd
      · rw [exec_arrived hheld hdir hnext hwin hd]
        exact .arrive hnext hwin d hd
  | done =>
    by_cases haddr : p.interfaces.NoAddress
    · -- The window is written, from elements of the queue, before the address is missing.
      have hall : (window p.clear).all p.clear.rxFactory.holds := by
        rw [List.all_eq_true]
        intro b hb
        obtain ⟨e, he, rfl⟩ := List.mem_map.1 hb
        exact DataFactory.holds_of_mem (hheld e he).1
      have haddr' : (written env p.clear).interfaces.NoAddress := by
        rw [interfaces_written]
        exact haddr
      refine Conf.exec_of_wp (C := RxMoves bo env p) ?_
      rw [wp_step, hnext, hdir]
      show wp (doneState bo env .RX) _ _ _
      rw [wp_doneState_rx, if_pos hall, if_pos haddr']
      exact .noAddress _ (.inr (.inr hnext)) haddr
    · rw [exec_sentOk hheld hdir hnext haddr]
      exact .sendOk hnext haddr
  | inq | send | recv => simp [hnext, inSession] at hmem

/-- How a step of a receiver goes wrong. -/
theorem RxMoves.error_iff (hm : RxMoves bo env p c) (hdir : p.session.dir = .RX) :
    (c.error = some .fault ↔ (p.session.next = .open ∨ p.session.next = .connected ∨
      p.session.next = .done) ∧ p.interfaces.NoAddress) ∧
    (c.error = some .exit ↔ p.awaits = true ∧ env.datagram = none) := by
  cases hm with
  | sendHello hnext haddr | sendAck hnext haddr | sendOk hnext haddr =>
    simp [Process.awaits, hdir, hnext, haddr]
  | receiveHi hnext d hd => simp [hnext, hd]
  | windowOver hnext hwin => simp [Process.awaits, hdir, hnext, hwin]
  | arrive hnext hwin d hd => simp [hnext, hd]
  | noDatagram q hawaits hd =>
    refine ⟨iff_of_false (by simp) ?_, iff_of_true rfl ⟨hawaits, hd⟩⟩
    rintro ⟨hnext | hnext | hnext, -⟩ <;> simp [Process.awaits, hdir, hnext] at hawaits
  | noAddress q hnext haddr =>
    refine ⟨iff_of_true rfl ⟨hnext, haddr⟩, iff_of_false (by simp) ?_⟩
    rintro ⟨hawaits, -⟩
    rcases hnext with hnext | hnext | hnext <;> simp [Process.awaits, hdir, hnext] at hawaits

/-! ## No pointer dangles -/

/-- The datagram that the receiver takes for the addresses is not kept as a capsule. -/
def Addressed (bo : ByteOrder) (env : Env) (p : Process) : Prop :=
  p.session.next = .setup → ∀ d ∈ env.datagram,
    (Gateway.pulled bo env p d).data.header.isPayld = false

/-- No pointer dangles, and there is none before the transfer. -/
structure Points (p : Process) : Prop where
  /-- The window points into the queue. -/
  held : Held p
  /-- In the handshake the window is empty. -/
  early : p.session.next = .open ∨ p.session.next = .setup → p.rxcurrentWindow = ∅

/-- A capsule that is kept is put into the queue first, then into the window. -/
theorem held_arrived (h : Held p) : Held (arrived bo env d p) := by
  intro e he
  rw [rxcurrentWindow_arrived] at he
  obtain ⟨hmem, hk⟩ := h.received e he
  rw [rxFactory_received] at hmem
  rw [buffer_arrived]
  exact ⟨hmem, hk⟩

/-- A capsule does not end the state in which it comes. -/
theorem next_arrived : (arrived bo env d p).session.next = p.session.next := by
  rw [arrived]
  dsimp only
  split <;> simp

/-- A step leaves no pointer dangling. -/
theorem RxMoves.points (hm : RxMoves bo env p c) (h : Points p) (haddr : Addressed bo env p)
    (hc : c.error = none) : Points c.state := by
  cases hm with
  | sendHello hnext => exact ⟨h.held, fun _ => h.early (.inl hnext)⟩
  | receiveHi hnext d hd =>
    have hwindow : (setUp bo env d p.clear).rxcurrentWindow = ∅ := by
      show (received bo env p.clear d).rxcurrentWindow = ∅
      -- What is not kept as a capsule is not put into the window.
      have hctrl : (Gateway.pulled bo env p.clear d).data.header.isPayld = false := haddr hnext d hd
      rw [rxcurrentWindow_received, hctrl, if_neg Bool.false_ne_true]
      exact h.early (.inr hnext)
    exact ⟨held_empty hwindow, fun _ => hwindow⟩
  | sendAck => exact ⟨h.held, fun hearly => by simp [sentAck] at hearly⟩
  | windowOver => exact ⟨h.held, fun hearly => by simp at hearly⟩
  | arrive hnext _ d =>
    refine ⟨held_arrived (p := p.clear) h.held, fun hearly => ?_⟩
    rw [next_arrived] at hearly
    exact absurd (hearly.imp (hnext.symm.trans ·) (hnext.symm.trans ·)) (by decide)
  | sendOk => exact ⟨held_empty rfl, fun _ => rfl⟩
  | noDatagram | noAddress => simp at hc

section Run

variable {input : ℕ → Env} (hst : Steady p) (hdir : p.session.dir = .RX) (h : Points p)
  (haddr : ∀ n, (run bo p input n).Alive Process.returned →
    Addressed bo (input n) (run bo p input n).state)
include hst hdir h haddr

/-- In a run, no pointer ever dangles. -/
theorem points_run (n : ℕ) (hn : (run bo p input n).error = none) :
    Points (run bo p input n).state := by
  refine Conf.runs_induction (I := fun _ => Points) h (fun n halive hpoints => ?_)
    (fun _ _ _ h => h) n hn
  obtain ⟨hst', hdir'⟩ := steady_run_of bo hst input n halive.1
  have hm := @rxMoves_exec bo (input n) _ hst' (hdir'.trans hdir) hpoints.held
  exact Conf.wp_iff_exec.2 ⟨fun hc => hm.points hpoints (haddr n halive) hc, fun _ _ => trivial⟩

/-- So the steps of a run are all such steps. -/
theorem rxMoves_run (n : ℕ) (halive : (run bo p input n).Alive Process.returned) :
    RxMoves bo (input n) (run bo p input n).state (run bo p input (n + 1)) := by
  obtain ⟨hst', hdir'⟩ := steady_run_of bo hst input n halive.1
  rw [run_succ bo halive]
  exact rxMoves_exec hst' (hdir'.trans hdir) (points_run hst hdir h haddr n halive.1).held

end Run

/-- Whatever a receiver gets, of any length, if the datagram with the addresses is not kept as a
    capsule: a step fails exactly if it sends without an address, it reads outside a block or the
    peer list exactly if it takes addresses that are not contained, and it exits exactly if it
    waits for a datagram in vain. -/
theorem rx_fault_iff (bo : ByteOrder) (statics : Statics) (addressList : List IpaddrDummy)
    (source sink : DataSource) (input : ℕ → Env)
    (haddr : ∀ n, (run bo (.init .RX statics addressList source sink) input n).Alive
      Process.returned → Addressed bo (input n)
        (run bo (.init .RX statics addressList source sink) input n).state)
    (n : ℕ) (halive : (run bo (.init .RX statics addressList source sink) input n).Alive
      Process.returned) :
    let q := (run bo (.init .RX statics addressList source sink) input n).state
    let c := run bo (.init .RX statics addressList source sink) input (n + 1)
    (c.error = some .fault ↔
      (q.session.next = .open ∨ q.session.next = .connected ∨ q.session.next = .done) ∧
        q.interfaces.NoAddress) ∧
    ((∀ a ∈ c.state.io.accesses, a.Within) ↔
      (q.session.next = .setup → ∀ d ∈ (input n).datagram, Contained bo q (input n) d)) ∧
    (c.error = some .exit ↔ q.awaits = true ∧ (input n).datagram = none) := by
  intro q c
  have hst := steady_init .RX statics addressList source sink
  have hdir : q.session.dir = .RX := (steady_run_of bo hst input n halive.1).2
  have hm : RxMoves bo (input n) q c :=
    rxMoves_run hst rfl ⟨held_empty rfl, fun _ => rfl⟩ haddr n halive
  obtain ⟨hfault, hexit⟩ := hm.error_iff hdir
  have htakes : q.takesAddresses = true ↔ q.session.next = .setup := by
    rw [Process.takesAddresses, hdir]
    cases q.session.next <;> simp
  refine ⟨hfault, ?_, hexit⟩
  rw [← htakes]
  exact within_run_iff .RX statics addressList source sink input n halive

/-- In the run with one window, the datagram with the addresses has no payload type. -/
theorem addressed_oneWindow (n : ℕ) :
    Addressed .little (oneWindow n) (run .little newReceiver oneWindow n).state := by
  intro hnext d hd
  rcases n with - | - | - | - | n
  · simp [oneWindow, Env.plain] at hd
  · obtain rfl := Option.some.inj hd
    decide +kernel
  · simp [oneWindow, Env.plain] at hd
  · exact absurd hnext (by decide +kernel)
  · simp [oneWindow, Env.plain] at hd

/-- The receiver acknowledges a window. -/
theorem not_fault_oneWindow : (run .little newReceiver oneWindow 5).state.session.next = .done ∧
    (run .little newReceiver oneWindow 6).error ≠ some .fault := by
  have hdone : (run .little newReceiver oneWindow 5).state.session.next = .done ∧
      ¬(run .little newReceiver oneWindow 5).state.interfaces.NoAddress := by decide +kernel
  refine ⟨hdone.1, fun hfault => ?_⟩
  have := (rx_fault_iff .little {} [] { fmode := .IN, fs := {} } { fmode := .OUT, fs := {} }
    oneWindow (fun n _ => addressed_oneWindow n) 5 (by decide +kernel)).1.1 hfault
  exact hdone.2 this.2

end Session

end Udm
