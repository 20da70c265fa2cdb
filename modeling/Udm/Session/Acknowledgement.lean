import Udm.Session.Transition

/-!
# Acknowledgements

The sender takes whatever datagram it receives in the state `done` for the
acknowledgement of its window: `doneState` looks neither at the type nor at the
connection id of the capsule. So the sender waits for an acknowledgement on the
connection of the window exactly in the runs in which nothing else arrives there
(`acknowledged_iff`).
-/

namespace Udm

namespace Session

variable (bo : ByteOrder)

/-! ## Acknowledging a window -/

/-- The capsule with the header `h` acknowledges the window sent by the process
    `p`: it is a control capsule of the same connection. -/
def Acknowledges (p : Process) (h : CapsuleHdr) : Prop :=
  h.capType = CapsuleType.CTRL.code ∧ h.connid = p.session.current.id

instance (p : Process) (h : CapsuleHdr) : Decidable (Acknowledges p h) :=
  inferInstanceAs (Decidable (_ ∧ _))

/-- The header of a datagram consumed in the state `done`. -/
def consumed (p : Process) (env : Env) (d : List Byte) : CapsuleHdr :=
  (Gateway.pulled bo env p d).data.header

/-- In the state `done`, the process only moves on if the datagram it consumes
    acknowledges the window; any other leaves it where it is. -/
def WaitsForAck (p : Process) (env : Env) (c : Party) : Prop :=
  p.session.next = .done → ∀ d, env.datagram = some d →
    (c.state.session.next ≠ .done → Acknowledges p (consumed bo p env d)) ∧
    (¬Acknowledges p (consumed bo p env d) →
      c.state.session.next = p.session.next ∧
      c.state.session.processor.winSize = p.session.processor.winSize ∧
      c.state.session.done = p.session.done ∧ c.state.session.complete = p.session.complete)

/-- In the state `done`, every datagram makes the sender move on. -/
theorem exec_receiveOk {env : Env} {p : Process} (hp : Steady p) (hdir : p.session.dir = .TX)
    (hnext : p.session.next = .done) {d : List Byte} (hd : env.datagram = some d) :
    Conf.exec (step bo) env p =
      { state := (received bo env p.clear d).popRx.endWindow p.txFactory.fin } := by
  refine Conf.exec_of_wp (C := fun c => c = _) ?_
  have hb : p.clear.rxFactory.buffer = [] := hp.queue_tx hdir
  rw [wp_step, hnext, hdir]
  exact (wp_doneState_tx bo env hd hb).2 rfl

theorem waitsForAck_iff {env : Env} {p : Process} (hp : Steady p) (hdir : p.session.dir = .TX) :
    WaitsForAck bo p env (Conf.exec (step bo) env p) ↔
      (p.session.next = .done → ∀ d, env.datagram = some d →
        Acknowledges p (consumed bo p env d)) := by
  refine forall_congr' fun hnext => forall_congr' fun d => forall_congr' fun hd => ?_
  have hmoves : (Conf.exec (step bo) env p).state.session.next ≠ .done := by
    rw [exec_receiveOk bo hp hdir hnext hd]
    cases hfin : p.txFactory.fin <;> simp
  exact ⟨fun h => h.1 hmoves, fun h => ⟨fun _ => h, fun hnot => absurd h hnot⟩⟩

/-- In a run of the sender, the state `done` is only left by acknowledgements of
    the window if and only if no other datagram is consumed in it. -/
theorem acknowledged_iff (statics : Statics) (addressList : List IpaddrDummy)
    (source sink : DataSource) (env : ℕ → Env) :
    let p := Process.init .TX statics addressList source sink
    (∀ n, (run bo p env n).Alive Process.returned →
      WaitsForAck bo (run bo p env n).state (env n) (run bo p env (n + 1))) ↔
    ∀ n, (run bo p env n).Alive Process.returned → (run bo p env n).state.session.next = .done →
      ∀ d, (env n).datagram = some d →
        Acknowledges (run bo p env n).state (consumed bo (run bo p env n).state (env n) d) := by
  intro p
  refine forall_congr' fun n => forall_congr' fun hn => ?_
  obtain ⟨hsteady, hdir⟩ := steady_run bo .TX statics addressList source sink env n hn.1
  rw [run_succ bo hn]
  exact waitsForAck_iff bo hsteady hdir

/-! ## A data capsule taken for an acknowledgement -/

/-- The datagram of a capsule without payload. -/
def bare (h : CapsuleHdr) : List Byte := h.encode .little

/-- After a handshake with a window of size zero, a data capsule arrives. -/
def strayData : ℕ → Env
  | 0 => .plain (some (bare {})) []
  | 1 => .plain none [0, 0]
  | 2 => .plain (some (bare {})) []
  | 3 => .plain none []
  | _ => .plain (some (bare { capType := CapsuleType.PAYLD.code })) []

/-- A sender of a file of one byte. -/
def byteSender : Process :=
  .init .TX {} [] { fmode := .IN, fileSize := 1, fs := { content := [0] } }
    { fmode := .OUT, fs := {} }

/-- The sender goes on to its next window. -/
theorem not_waitsForAck_strayData :
    ¬∀ n, (run .little byteSender strayData n).Alive Process.returned →
      WaitsForAck .little (run .little byteSender strayData n).state (strayData n)
        (run .little byteSender strayData (n + 1)) := by
  intro h
  have halive : (run .little byteSender strayData 4).Alive Process.returned := by decide +kernel
  have hnext : (run .little byteSender strayData 4).state.session.next = .done := by
    decide +kernel
  have hmoves : (run .little byteSender strayData 5).state.session.next = .closed := by
    decide +kernel
  have := (h 4 halive hnext _ rfl).1 (by rw [hmoves]; decide)
  exact absurd this.1 (by decide +kernel)

end Session

end Udm
